import Mathlib.Data.List.Forall2
import Mathlib.Data.List.Nodup

/-!
# `ClientSynth.Proofs.Lists` — lists, and going over them

What the theory needs of lists and does not find in the library: looking something up in lists that go
together or have no repetitions, and the first place in a list where something holds. A computation that
goes over a list and may fail stops at such a place (`mapM_eq_error_iff`).
-/

set_option autoImplicit false

namespace ClientSynth

section Lists

variable {α β : Type}

/-! ## Looking up -/

theorem nodup_snoc {xs : List α} {x : α} (h : xs.Nodup) (hx : x ∉ xs) :
    (xs ++ [x]).Nodup := by
  rw [← List.concat_eq_append]
  exact h.concat hx

/-- Appending an element changes nothing at any other place. -/
theorem getElem?_snoc_of_ne {xs : List α} {k : Nat} (h : k ≠ xs.length) (x : α) :
    (xs ++ [x])[k]? = xs[k]? := by
  rcases Nat.lt_or_gt_of_ne h with hlt | hgt
  · exact List.getElem?_append_left hlt
  · rw [List.getElem?_eq_none (Nat.le_of_lt hgt)]
    exact List.getElem?_eq_none (by rw [List.length_append]; exact hgt)

/-- An element of a list is found by its key when no two have the same. -/
theorem find?_key [DecidableEq β] {key : α → β} {xs : List α} (hnodup : (xs.map key).Nodup) {x : α}
    (hx : x ∈ xs) : xs.find? (key · == key x) = some x := by
  cases hf : xs.find? (key · == key x) with
  | none => exact absurd (beq_self_eq_true _) (List.find?_eq_none.mp hf x hx)
  | some y =>
    have hkey : key y = key x := by simpa using List.find?_some hf
    rw [List.inj_on_of_nodup_map hnodup (List.mem_of_find?_eq_some hf) hx hkey]

/-- Looking up in a list of pairs by the first half is looking up the position. -/
theorem find?_zip (p : α → Bool) :
    ∀ (xs : List α) (ys : List β), xs.length = ys.length →
      ((xs.zip ys).find? (fun e => p e.1)).map (·.2) = (xs.findIdx? p).bind (ys[·]?)
  | [], _, _ => rfl
  | x :: xs, [], h => absurd h (by simp)
  | x :: xs, y :: ys, h => by
    have ih := find?_zip p xs ys (by simpa using h)
    rw [List.zip_cons_cons, List.find?_cons, List.findIdx?_cons]
    cases hp : p x with
    | true => simp
    | false => simpa [Option.bind_map, Function.comp_def] using ih

theorem find?_congr {p q : α → Bool} :
    ∀ {xs : List α}, (∀ x ∈ xs, p x = q x) → xs.find? p = xs.find? q
  | [], _ => rfl
  | x :: xs, h => by
    rw [List.find?_cons, List.find?_cons, h x List.mem_cons_self,
      find?_congr fun y hy => h y (List.mem_cons_of_mem _ hy)]

/-- Two lists whose elements go together, looked through with tests that agree. -/
theorem find?_forall₂ {R : α → β → Prop} {p : α → Bool} {q : β → Bool}
    (hpq : ∀ a b, R a b → p a = q b) {xs : List α} {ys : List β} (h : List.Forall₂ R xs ys) :
    (xs.find? p = none ∧ ys.find? q = none) ∨
      ∃ a b, xs.find? p = some a ∧ ys.find? q = some b ∧ R a b := by
  induction h with
  | nil => exact Or.inl ⟨rfl, rfl⟩
  | @cons a b xs ys hab _ ih =>
    rw [List.find?_cons, List.find?_cons, ← hpq a b hab]
    cases hp : p a with
    | true => exact Or.inr ⟨a, b, rfl, rfl, hab⟩
    | false => exact ih

theorem exists_of_mem_forall₂ {R : α → β → Prop} {xs : List α} {ys : List β}
    (h : List.Forall₂ R xs ys) {x : α} (hx : x ∈ xs) : ∃ y ∈ ys, R x y := by
  induction h with
  | nil => exact absurd hx List.not_mem_nil
  | cons hxy _ ih =>
    rcases List.mem_cons.mp hx with rfl | hx
    · exact ⟨_, List.mem_cons_self, hxy⟩
    · exact (ih hx).imp fun _ => And.imp_left (List.mem_cons_of_mem _)

theorem map_eq_map_of_forall₂ {γ : Type} {R : α → β → Prop} {f : α → γ} {g : β → γ}
    (hfg : ∀ a b, R a b → f a = g b) {xs : List α} {ys : List β} (h : List.Forall₂ R xs ys) :
    xs.map f = ys.map g := by
  induction h with
  | nil => rfl
  | cons hab _ ih => rw [List.map_cons, List.map_cons, hfg _ _ hab, ih]

/-- Two lists that go with a third one go together. -/
theorem forall₂_of_forall₂ {γ : Type} {R : α → β → Prop} {S : α → γ → Prop} {T : β → γ → Prop}
    (h : ∀ a b c, R a b → S a c → T b c) {xs : List α} {ys : List β} {zs : List γ}
    (hR : List.Forall₂ R xs ys) (hS : List.Forall₂ S xs zs) : List.Forall₂ T ys zs := by
  induction hR generalizing zs with
  | nil =>
    cases hS
    exact .nil
  | cons hab _ ih =>
    obtain ⟨c, zs, hac, hrest, rfl⟩ := List.forall₂_cons_left_iff.mp hS
    exact .cons (h _ _ _ hab hac) (ih hrest)

/-- Parts of one length that are joined can be told apart again. -/
theorem flatMap_inj {f : α → List β} {n : Nat} (hlength : ∀ x, (f x).length = n)
    (hf : ∀ x y, f x = f y → x = y) :
    ∀ {xs ys : List α}, xs.length = ys.length → xs.flatMap f = ys.flatMap f → xs = ys
  | [], [], _, _ => rfl
  | x :: xs, y :: ys, h, hjoined => by
    rw [List.flatMap_cons, List.flatMap_cons] at hjoined
    obtain ⟨hx, hxs⟩ := List.append_inj hjoined (by rw [hlength, hlength])
    rw [hf x y hx, flatMap_inj hlength hf (by simpa using h) hxs]

/-! ## Putting an element in the place of another -/

section Set

variable {xs : List α} {i : Nat} {x : α}

theorem getElem?_set_of_getElem? (hx : xs[i]? = some x) (y : α) (j : Nat) :
    (xs.set i y)[j]? = if j = i then some y else xs[j]? := by
  have hi : i < xs.length := (List.getElem?_eq_some_iff.mp hx).1
  rw [List.getElem?_set]
  by_cases h : i = j
  · subst h
    simp [hi]
  · simp [h, Ne.symm h]

/-- What an element loses when another takes its place is all that the list loses. -/
theorem perm_flatMap_set {f : α → List β} {y : α} {zs : List β} (h : f x = zs ++ f y) :
    ∀ {xs : List α} {i : Nat}, xs[i]? = some x →
      (xs.flatMap f).Perm (zs ++ (xs.set i y).flatMap f)
  | [], _, hx => by simp at hx
  | w :: ws, 0, hx => by
    obtain rfl : w = x := by simpa using hx
    rw [List.set_cons_zero, List.flatMap_cons, List.flatMap_cons, h, List.append_assoc]
  | w :: ws, i + 1, hx => by
    have ih : (ws.flatMap f).Perm (zs ++ (ws.set i y).flatMap f) :=
      perm_flatMap_set h (by simpa using hx)
    rw [List.set_cons_succ, List.flatMap_cons, List.flatMap_cons]
    exact (ih.append_left (f w)).trans (List.perm_append_comm_assoc ..)

/-- What the elements of a list measure together. -/
def total (measure : α → Nat) : List α → Nat
  | [] => 0
  | x :: xs => measure x + total measure xs

theorem total_set_lt {measure : α → Nat} {y : α} (h : measure y < measure x) :
    ∀ {xs : List α} {i : Nat}, xs[i]? = some x → total measure (xs.set i y) < total measure xs
  | [], _, hx => by simp at hx
  | w :: ws, 0, hx => by
    obtain rfl : w = x := by simpa using hx
    exact Nat.add_lt_add_right h _
  | w :: ws, i + 1, hx => by
    have ih : total measure (ws.set i y) < total measure ws := total_set_lt h (by simpa using hx)
    exact Nat.add_lt_add_left ih _

end Set

theorem total_eq_zero_iff {measure : α → Nat} :
    ∀ {xs : List α}, total measure xs = 0 ↔ ∀ x ∈ xs, measure x = 0
  | [] => by simp [total]
  | x :: xs => by rw [total, Nat.add_eq_zero_iff, total_eq_zero_iff, List.forall_mem_cons]

theorem total_map {f : α → β} {measure : α → Nat} {measure' : β → Nat} :
    ∀ {xs : List α}, (∀ x ∈ xs, measure' (f x) = measure x) →
      total measure' (xs.map f) = total measure xs
  | [], _ => rfl
  | x :: xs, h => by
    rw [List.forall_mem_cons] at h
    rw [List.map_cons, total, total, h.1, total_map h.2]

/-! ## Places in a list -/

/-- What begins with something that is not in the first half lies in the second. -/
theorem infix_of_infix_append {a : α} {l xs ys : List α} (ha : a ∉ xs)
    (h : a :: l <:+: xs ++ ys) : a :: l <:+: ys := by
  induction xs with
  | nil => exact h
  | cons x xs ih =>
    rw [List.mem_cons, not_or] at ha
    rcases List.infix_cons_iff.mp h with h | h
    · exact absurd (List.cons_prefix_cons.mp h).1 ha.1
    · exact ih ha.2 h

/-- Somewhere in a list there is an element with `Q`, and all before it have `P`. -/
def Until (P Q : α → Prop) (xs : List α) : Prop :=
  ∃ before x after, xs = before ++ x :: after ∧ (∀ y ∈ before, P y) ∧ Q x

section Until

variable {P Q : α → Prop}

/-- A place in a list is its head or a place in its tail. -/
theorem exists_split_cons {R : List α → α → Prop} {a : α} {as : List α} :
    (∃ before x after, a :: as = before ++ x :: after ∧ R before x) ↔
      R [] a ∨ ∃ before x after, as = before ++ x :: after ∧ R (a :: before) x := by
  constructor
  · rintro ⟨before, x, after, h, hR⟩
    cases before with
    | nil =>
      obtain ⟨rfl, -⟩ : a = x ∧ as = after := by simpa using h
      exact Or.inl hR
    | cons b before =>
      obtain ⟨rfl, has⟩ : a = b ∧ as = before ++ x :: after := by simpa using h
      exact Or.inr ⟨before, x, after, has, hR⟩
  · rintro (hR | ⟨before, x, after, rfl, hR⟩)
    · exact ⟨[], a, as, rfl, hR⟩
    · exact ⟨a :: before, x, after, rfl, hR⟩

theorem not_until_nil : ¬ Until P Q [] := by
  rintro ⟨before, x, after, h, -⟩
  simp at h

theorem until_cons_iff {a : α} {as : List α} :
    Until P Q (a :: as) ↔ Q a ∨ (P a ∧ Until P Q as) := by
  unfold Until
  rw [exists_split_cons (R := fun before x => (∀ y ∈ before, P y) ∧ Q x)]
  simp only [List.not_mem_nil, false_implies, implies_true, true_and, List.forall_mem_cons]
  -- `P a` is said of the head of every list before the place, so it can be said once, outside.
  refine or_congr_right ⟨?_, ?_⟩
  · rintro ⟨before, x, after, h, ⟨ha, hbefore⟩, hx⟩
    exact ⟨ha, before, x, after, h, hbefore, hx⟩
  · rintro ⟨ha, before, x, after, h, hbefore, hx⟩
    exact ⟨before, x, after, h, ⟨ha, hbefore⟩, hx⟩

theorem until_congr {P' Q' : α → Prop} (hP : ∀ x, P x ↔ P' x) (hQ : ∀ x, Q x ↔ Q' x)
    {xs : List α} : Until P Q xs ↔ Until P' Q' xs := by
  have hP' : P = P' := funext fun x => propext (hP x)
  have hQ' : Q = Q' := funext fun x => propext (hQ x)
  rw [hP', hQ']

end Until

/-! ## Reports -/

/-- A report on a list, in its order: one thing for each element that `R` says something of, and nothing
for the others. -/
inductive Reports (R : α → β → Prop) : List α → List β → Prop
  | nil : Reports R [] []
  | none {a : α} {as : List α} {bs : List β} (h : ∀ b, ¬ R a b) (rest : Reports R as bs) :
      Reports R (a :: as) bs
  | one {a : α} {as : List α} {b : β} {bs : List β} (h : R a b) (rest : Reports R as bs) :
      Reports R (a :: as) (b :: bs)

namespace Reports

variable {R : α → β → Prop}

theorem append {as as' : List α} {bs bs' : List β} (h : Reports R as bs) (h' : Reports R as' bs') :
    Reports R (as ++ as') (bs ++ bs') := by
  induction h with
  | nil => exact h'
  | none hnot _ ih => exact .none hnot ih
  | one hr _ ih => exact .one hr ih

/-- What one test finds is a report on one element. -/
theorem ite {P : Prop} [Decidable P] {a : α} {b : β} (h : ∀ b', R a b' ↔ b' = b ∧ P) :
    Reports R [a] (if P then [b] else []) := by
  split
  · rename_i hP
    exact .one ((h b).mpr ⟨rfl, hP⟩) .nil
  · rename_i hP
    exact .none (fun b' hr => hP ((h b').mp hr).2) .nil

/-- What a test finds of something that may be absent is a report on one element. -/
theorem option {γ : Type} {P : γ → Prop} [DecidablePred P] {o : Option γ} {a : α} {b : β}
    {bs : List β} (h : ∀ b', R a b' ↔ b' = b ∧ ∃ x, o = some x ∧ P x)
    (hnone : o = Option.none → bs = []) (hsome : ∀ x, o = some x → bs = if P x then [b] else []) :
    Reports R [a] bs := by
  cases o with
  | none =>
    rw [hnone rfl]
    exact .none (fun b' hr => by simpa using (h b').mp hr) .nil
  | some x =>
    rw [hsome x rfl]
    exact ite fun b' => by simpa using h b'

/-- A report in other words is a report on a list whose elements are worded so. -/
theorem map {γ δ : Type} {R' : γ → δ → Prop} {f : α → γ} {g : β → δ}
    (hR : ∀ a d, R' (f a) d ↔ ∃ b, R a b ∧ g b = d) {as : List α} {bs : List β}
    (h : Reports R as bs) : Reports R' (as.map f) (bs.map g) := by
  induction h with
  | nil => exact .nil
  | none hnot _ ih =>
    refine .none (fun d hd => ?_) ih
    obtain ⟨b, hb, -⟩ := (hR _ d).mp hd
    exact hnot b hb
  | one hr _ ih => exact .one ((hR _ _).mpr ⟨_, hr, rfl⟩) ih

theorem eq_nil_iff {as : List α} {bs : List β} (h : Reports R as bs) :
    bs = [] ↔ ∀ a ∈ as, ∀ b, ¬ R a b := by
  induction h with
  | nil => simp
  | none hnot _ ih => rw [ih, List.forall_mem_cons, and_iff_right hnot]
  | one hr _ _ =>
    exact ⟨fun hnil => absurd hnil (List.cons_ne_nil _ _),
      fun hall => absurd hr (hall _ List.mem_cons_self _)⟩

/-- What a function finds in a list is a report on it. -/
theorem map_filterMap {γ : Type} {site : γ → α} {f : γ → Option β}
    (hf : ∀ c b, f c = some b ↔ R (site c) b) :
    ∀ cs : List γ, Reports R (cs.map site) (cs.filterMap f)
  | [] => .nil
  | c :: cs => by
    have rest := map_filterMap hf cs
    cases hc : f c with
    | none =>
      rw [List.filterMap_cons_none hc]
      exact .none (fun b hr => absurd (hc.symm.trans ((hf c b).mpr hr)) (by simp)) rest
    | some b =>
      rw [List.filterMap_cons_some hc]
      exact .one ((hf c b).mp hc) rest

end Reports

/-! ## Computations that may fail -/

variable {ε : Type}

/-- A computation that came to a value did so in each of its steps. -/
theorem bind_eq_ok_iff {x : Except ε α} {f : α → Except ε β} {b : β} :
    x >>= f = .ok b ↔ ∃ a, x = .ok a ∧ f a = .ok b := by
  cases x <;> simp [bind, Except.bind]

theorem pure_eq_ok_iff {a b : α} : (pure a : Except ε α) = .ok b ↔ a = b := by
  simp [pure, Except.pure]

theorem isOk_iff {x : Except ε α} : x.isOk = true ↔ ∃ a, x = .ok a := by
  cases x <;> simp [Except.isOk, Except.toBool]

theorem mapM_eq_ok {f : α → Except ε β} :
    ∀ {xs : List α} {ys : List β}, xs.mapM f = .ok ys →
      List.Forall₂ (fun x y => f x = .ok y) xs ys
  | [], ys, h => by
    rw [List.mapM_nil, pure_eq_ok_iff] at h
    subst h
    exact .nil
  | x :: xs, ys, h => by
    rw [List.mapM_cons] at h
    obtain ⟨y, hy, h⟩ := bind_eq_ok_iff.mp h
    obtain ⟨rest, hrest, h⟩ := bind_eq_ok_iff.mp h
    rw [pure_eq_ok_iff] at h
    subst h
    exact .cons hy (mapM_eq_ok hrest)

theorem mapM_eq_mapM_of_forall₂ {γ : Type} {R : α → β → Prop} {f : α → Except ε γ}
    {g : β → Except ε γ} (hfg : ∀ a b, R a b → f a = g b) {xs : List α} {ys : List β}
    (h : List.Forall₂ R xs ys) : xs.mapM f = ys.mapM g := by
  induction h with
  | nil => rfl
  | cons hab _ ih => rw [List.mapM_cons, List.mapM_cons, hfg _ _ hab, ih]

/-- Going over a list with a function that may have no value. -/
theorem mapM_eq_some_iff {f : α → Option β} {xs : List α} {ys : List β} :
    xs.mapM f = some ys ↔ List.Forall₂ (fun x y => f x = some y) xs ys := by
  induction xs generalizing ys with
  | nil => simp [eq_comm]
  | cons x xs ih =>
    rw [List.mapM_cons, List.forall₂_cons_left_iff]
    simp only [Option.bind_eq_bind, Option.bind_eq_some_iff, Option.pure_def, Option.some.injEq, ih]
    constructor
    · rintro ⟨y, hy, rest, hrest, rfl⟩
      exact ⟨y, rest, hy, hrest, rfl⟩
    · rintro ⟨y, rest, hy, hrest, rfl⟩
      exact ⟨y, hy, rest, hrest, rfl⟩

theorem bind_eq_error_iff {x : Except ε α} {f : α → Except ε β} {e : ε} :
    x >>= f = .error e ↔ x = .error e ∨ ∃ a, x = .ok a ∧ f a = .error e := by
  cases x <;> simp [bind, Except.bind]

/-- Going over a list stops at the first element that fails. -/
theorem mapM_eq_error_iff {f : α → Except ε β} {e : ε} :
    ∀ {xs : List α},
      xs.mapM f = .error e ↔ Until (fun x => ∃ y, f x = .ok y) (fun x => f x = .error e) xs
  | [] => by simp [not_until_nil, pure, Except.pure]
  | x :: xs => by
    rw [List.mapM_cons, until_cons_iff, bind_eq_error_iff, ← mapM_eq_error_iff]
    simp [bind_eq_error_iff, pure, Except.pure]

theorem mapM_isOk_iff {f : α → Except ε β} :
    ∀ {xs : List α}, (∃ ys, xs.mapM f = .ok ys) ↔ ∀ x ∈ xs, ∃ y, f x = .ok y
  | [] => by simp [pure, Except.pure]
  | x :: xs => by
    rw [List.forall_mem_cons, ← mapM_isOk_iff, List.mapM_cons]
    simp only [bind_eq_ok_iff, pure_eq_ok_iff]
    constructor
    · rintro ⟨_, y, hy, ys, hys, -⟩
      exact ⟨⟨y, hy⟩, ys, hys⟩
    · rintro ⟨⟨y, hy⟩, ys, hys⟩
      exact ⟨_, y, hy, ys, hys, rfl⟩

end Lists

end ClientSynth
