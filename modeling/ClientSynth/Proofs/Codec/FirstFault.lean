import ClientSynth.Proofs.Codec.Places

/-!
# `ClientSynth.Proofs.Codec.FirstFault` — which mismatch is reported

A check stops at the first mismatch that it comes to. That it comes to the first fault of the value is
shown type by type: a wrapper goes into the parts of a value in their order (`parts?`), in an object that
is the order of the keys, and of the first part with a fault the first fault is reported.

> a value is of its type exactly when no place is a fault, and what is reported of any other value is
> the fault that comes before all others (`check_finds_first`).
-/

set_option autoImplicit false

namespace ClientSynth

namespace Json

theorem AllSorted.of_mem {items : List Json} (h : AllSorted items) :
    ∀ x ∈ items, x.IsSorted := by
  induction items with
  | nil => exact fun _ hx => absurd hx List.not_mem_nil
  | cons x items ih => exact List.forall_mem_cons.mpr ⟨h.1, ih h.2⟩

theorem AllMembersSorted.of_mem {members : List (String × Json)} (h : AllMembersSorted members) :
    ∀ member ∈ members, member.2.IsSorted := by
  induction members with
  | nil => exact fun _ hx => absurd hx List.not_mem_nil
  | cons member members ih => exact List.forall_mem_cons.mpr ⟨h.1, ih h.2⟩

end Json

namespace Codec

/-- A wrapper is checked by its parts, and another type as a whole. -/
theorem check_eq (t : TypeExpr) (v : Json) :
    check t v =
      match t.wrapper? with
      | some (w, u) => checkWrapped t (check u) w v
      | none => checkPlain t v := by
  match t with
  | .app n [] => rfl
  | .app n [u] =>
    rw [check, TypeExpr.wrapper?]
    cases Wrapper.ofOne? (Text.shortName n) <;> rfl
  | .app n [k, u] =>
    rw [check, TypeExpr.wrapper?]
    cases Wrapper.ofTwo? (Text.shortName n) <;> rfl
  | .app n (a :: b :: c :: as) => rfl

variable {t u : TypeExpr} {v : Json} {a : Place}

/-! ## The parts of a value -/

/-- The elements of an array, from position `i` on, with the steps to them. -/
def elements (t : TypeExpr) (i : Nat) (items : List Json) : List (ShapeStep × Json) :=
  (items.zipIdx i).map fun item => (.element item.2 t, item.1)

/-- The entries of an object with the steps to them. -/
def entries (t : TypeExpr) (members : List (String × Json)) : List (ShapeStep × Json) :=
  members.map fun member => (.entry member.1 t, member.2)

/-- The first mismatch in some parts, seen from the whole. -/
def firstIn (checkOne : Json → Option Mismatch) (parts : List (ShapeStep × Json)) : Option Mismatch :=
  parts.findSome? fun part => (checkOne part.2).map (·.within part.1)

theorem firstIn_cons (checkOne : Json → Option Mismatch) (part : ShapeStep × Json)
    (parts : List (ShapeStep × Json)) :
    firstIn checkOne (part :: parts) =
      match checkOne part.2 with
      | some m => some (m.within part.1)
      | none => firstIn checkOne parts := by
  rw [firstIn, List.findSome?_cons]
  cases checkOne part.2 <;> rfl

theorem checkElements_eq (t : TypeExpr) (checkOne : Json → Option Mismatch) (i : Nat)
    (items : List Json) : checkElements t checkOne i items = firstIn checkOne (elements t i items) := by
  induction items generalizing i with
  | nil => rfl
  | cons x items ih =>
    rw [checkElements, ih]
    exact (firstIn_cons checkOne (.element i t, x) (elements t (i + 1) items)).symm

theorem checkEntries_eq (t : TypeExpr) (checkOne : Json → Option Mismatch)
    (members : List (String × Json)) :
    checkEntries t checkOne members = firstIn checkOne (entries t members) := by
  induction members with
  | nil => rfl
  | cons member members ih =>
    rw [checkEntries, ih]
    exact (firstIn_cons checkOne (.entry member.1 t, member.2) (entries t members)).symm

/-- The parts of a value that an array or an object type goes into, in order; nothing if the value is of
another kind. -/
def parts? (t : TypeExpr) : Wrapper → Json → Option (List (ShapeStep × Json))
  | .sequence, .array items => some (elements t 0 items)
  | .dictionary, .object members => some (entries t members)
  | _, _ => none

theorem checkWrapped_eq (t : TypeExpr) (checkOne : Json → Option Mismatch) {w : Wrapper}
    (hw : w ≠ .optional) (v : Json) :
    checkWrapped t checkOne w v =
      match parts? t w v with
      | some parts => firstIn checkOne parts
      | none => some (.here t v) := by
  cases w with
  | optional => exact absurd rfl hw
  | sequence =>
    cases v with
    | array items => exact checkElements_eq t checkOne 0 items
    | _ => rfl
  | dictionary =>
    cases v with
    | object members => exact checkEntries_eq t checkOne members
    | _ => rfl

theorem sorted_elements (t : TypeExpr) {items : List Json} (h : Json.AllSorted items) :
    (elements t 0 items).Pairwise (fun p q => p.1.Precedes q.1) ∧
      ∀ p ∈ elements t 0 items, p.2.IsSorted := by
  have hpositions : (items.zipIdx.map Prod.snd).Pairwise (· < ·) := by
    rw [List.zipIdx_map_snd]
    exact List.pairwise_lt_range' 1
  refine ⟨List.pairwise_map.mpr ((List.pairwise_map.mp hpositions).imp .element), ?_⟩
  intro p hp
  obtain ⟨item, hitem, rfl⟩ := List.mem_map.mp hp
  exact h.of_mem _ (List.fst_mem_of_mem_zipIdx hitem)

theorem sorted_entries (t : TypeExpr) {members : List (String × Json)}
    (hkeys : members.Pairwise fun p q => p.1 < q.1) (h : Json.AllMembersSorted members) :
    (entries t members).Pairwise (fun p q => p.1.Precedes q.1) ∧
      ∀ p ∈ entries t members, p.2.IsSorted := by
  refine ⟨List.pairwise_map.mpr (hkeys.imp .entry), ?_⟩
  intro p hp
  obtain ⟨member, hmember, rfl⟩ := List.mem_map.mp hp
  exact h.of_mem member hmember

/-- In a sorted value, parts come in the order of their steps, and they are sorted. -/
theorem sorted_parts {t : TypeExpr} {w : Wrapper} {v : Json} {parts : List (ShapeStep × Json)}
    (h : parts? t w v = some parts) (hv : v.IsSorted) :
    parts.Pairwise (fun p q => p.1.Precedes q.1) ∧ ∀ p ∈ parts, p.2.IsSorted := by
  unfold parts? at h
  split at h
  · obtain rfl := Option.some.inj h
    exact sorted_elements t hv
  · obtain rfl := Option.some.inj h
    exact sorted_entries t hv.1 hv.2
  · exact absurd h (by simp)

/-- Under a type of arrays or objects, a value is at fault in one of its parts, or as a whole if it is of
another kind. -/
theorem isFault_wrapped_iff {w : Wrapper} (ht : Wraps w t u) (hw : w ≠ .optional) :
    IsFault t v a ↔
      match parts? t w v with
      | some parts => ∃ part ∈ parts, ∃ b, IsFault u part.2 b ∧ a = b.within part.1
      | none => a = ⟨[], t, v⟩ := by
  constructor
  · rintro ⟨hplace, hunmet⟩
    cases hplace with
    | here =>
      dsimp only at hunmet
      rw [ht.requirement_eq] at hunmet
      cases w <;> cases v <;> simp_all [Wrapper.demand, Demand.isMet, parts?]
    | optional ht' => exact absurd (ht.unique ht').1 hw
    | @element _ _ items i x b ht' hx h =>
      obtain ⟨rfl, rfl⟩ := ht.unique ht'
      exact ⟨(.element i t, x), List.mem_map.mpr ⟨(x, i), List.mem_zipIdx_iff_getElem?.mpr hx, rfl⟩,
        b, ⟨h, hunmet⟩, rfl⟩
    | @entry _ _ members key x b ht' hx h =>
      obtain ⟨rfl, rfl⟩ := ht.unique ht'
      exact ⟨(.entry key t, x), List.mem_map.mpr ⟨(key, x), hx, rfl⟩, b, ⟨h, hunmet⟩, rfl⟩
  · intro h
    cases w with
    | optional => exact absurd rfl hw
    | sequence =>
      cases v with
      | array items =>
        obtain ⟨part, hpart, b, hb, rfl⟩ := h
        obtain ⟨item, hitem, rfl⟩ := List.mem_map.mp hpart
        exact ⟨.element ht (List.mem_zipIdx_iff_getElem?.mp hitem) hb.place, hb.unmet⟩
      | _ =>
        obtain rfl := h
        exact ⟨.here t _, by rw [ht.requirement_eq]; rfl⟩
    | dictionary =>
      cases v with
      | object members =>
        obtain ⟨part, hpart, b, hb, rfl⟩ := h
        obtain ⟨member, hmember, rfl⟩ := List.mem_map.mp hpart
        exact ⟨.entry ht hmember hb.place, hb.unmet⟩
      | _ =>
        obtain rfl := h
        exact ⟨.here t _, by rw [ht.requirement_eq]; rfl⟩

/-! ## What is found -/

/-- What has to be so for a check to come to an outcome: no fault, or the one that is reported; in a
sorted value that is the first. -/
def Finds (t : TypeExpr) (v : Json) : Option Mismatch → Prop
  | none => ∀ a, ¬ IsFault t v a
  | some m => ∃ a, IsFault t v a ∧ a.mismatch = m ∧
      (v.IsSorted → ∀ b, IsFault t v b → b = a ∨ a.Precedes b)

theorem finds_plain (ht : t.wrapper? = none) : Finds t v (checkPlain t v) := by
  unfold checkPlain
  split
  case isTrue hmet =>
    intro a ha
    simp [((IsFault.plain_iff ht).mp ha).2] at hmet
  case isFalse hmet =>
    refine ⟨⟨[], t, v⟩, (IsFault.plain_iff ht).mpr ⟨rfl, by simpa using hmet⟩, rfl, ?_⟩
    exact fun _ b hb => Or.inl ((IsFault.plain_iff ht).mp hb).1

/-- What is found in a value that is there is found in the optional value. -/
theorem finds_optional (ht : Wraps .optional t u) (ih : Finds u v (check u v)) :
    Finds t v (checkWrapped t (check u) .optional v) := by
  have hfault := fun a => IsFault.optional_iff (v := v) (a := a) ht
  by_cases hv : v = .null
  · subst hv
    exact fun a ha => ((hfault a).mp ha).1 rfl
  · have hthere : checkWrapped t (check u) .optional v = check u v := by
      cases v with
      | null => exact absurd rfl hv
      | _ => rfl
    rw [hthere]
    simp only [ne_eq, hv, not_false_eq_true, true_and] at hfault
    unfold Finds at ih ⊢
    simpa only [hfault] using ih

/-- What is found first in the parts of a value is found in the value. -/
theorem finds_parts {w : Wrapper} (ht : Wraps w t u) (hw : w ≠ .optional)
    (ih : ∀ x, Finds u x (check u x)) : Finds t v (checkWrapped t (check u) w v) := by
  have hfault := fun a => isFault_wrapped_iff (v := v) (a := a) ht hw
  rw [checkWrapped_eq t (check u) hw]
  cases hparts : parts? t w v with
  | none =>
    simp only [hparts] at hfault
    exact ⟨_, (hfault _).mpr rfl, rfl, fun _ b hb => Or.inl ((hfault b).mp hb)⟩
  | some parts =>
    simp only [hparts] at hfault
    dsimp only
    have hclean : ∀ part : ShapeStep × Json, (check u part.2).map (·.within part.1) = none →
        ∀ b, ¬ IsFault u part.2 b := by
      intro part hnone
      have hx := ih part.2
      rwa [Option.map_eq_none_iff.mp hnone] at hx
    cases hfirst : firstIn (check u) parts with
    | none =>
      intro a ha
      obtain ⟨part, hpart, b, hb, -⟩ := (hfault a).mp ha
      exact hclean part (List.findSome?_eq_none_iff.mp hfirst part hpart) b hb
    | some m =>
      obtain ⟨before, part, after, rfl, hm, hbefore⟩ := List.findSome?_eq_some_iff.mp hfirst
      obtain ⟨m', hm', rfl⟩ := Option.map_eq_some_iff.mp hm
      have hx := ih part.2
      rw [hm'] at hx
      obtain ⟨a, ha, rfl, hinner⟩ := hx
      refine ⟨a.within part.1, (hfault _).mpr ⟨part, by simp, a, ha, rfl⟩, rfl, ?_⟩
      intro hsorted b hb
      obtain ⟨hpairwise, hall⟩ := sorted_parts hparts hsorted
      obtain ⟨part', hpart', b', hb', rfl⟩ := (hfault b).mp hb
      rcases List.mem_append.mp hpart' with hpart' | hpart'
      · exact absurd hb' (hclean part' (hbefore part' hpart') b')
      · rcases List.mem_cons.mp hpart' with rfl | hpart'
        · rcases hinner (hall _ (by simp)) b' hb' with rfl | hlt
          · exact Or.inl rfl
          · exact Or.inr (hlt.within _)
        · have hlater := (List.pairwise_append.mp hpairwise).2.1
          exact Or.inr (Place.within_precedes ((List.pairwise_cons.mp hlater).1 part' hpart') a b')

/-- **What a check comes to is what there is to find.** -/
theorem finds_check (t : TypeExpr) (v : Json) : Finds t v (check t v) := by
  -- The induction is on the type: what is wrapped is an argument of the wrapper.
  induction hsize : sizeOf t using Nat.strong_induction_on generalizing t v with
  | _ size ih =>
    subst hsize
    rw [check_eq]
    cases ht : t.wrapper? with
    | none => exact finds_plain ht
    | some wu =>
      obtain ⟨w, u⟩ := wu
      have hwraps := TypeExpr.wrapper?_eq_some_iff.mp ht
      have hlt : sizeOf u < sizeOf t := hwraps.sizeOf_lt
      have hu : ∀ x, Finds u x (check u x) := fun x => ih _ hlt u x rfl
      by_cases hw : w = .optional
      · subst hw
        exact finds_optional hwraps (hu v)
      · exact finds_parts hwraps hw hu

theorem check_eq_none_iff : check t v = none ↔ ∀ a, ¬ IsFault t v a := by
  have hfinds := finds_check t v
  constructor
  · intro h
    rwa [h] at hfinds
  · intro h
    cases hcheck : check t v with
    | none => rfl
    | some m =>
      rw [hcheck] at hfinds
      obtain ⟨a, ha, -⟩ := hfinds
      exact absurd ha (h a)

theorem check_eq_some_iff (hv : v.IsSorted) {m : Mismatch} :
    check t v = some m ↔ ∃ a, IsFirstFault t v a ∧ a.mismatch = m := by
  have hfinds := finds_check t v
  constructor
  · intro h
    rw [h] at hfinds
    obtain ⟨a, ha, hm, hfirst⟩ := hfinds
    exact ⟨a, ⟨ha, hfirst hv⟩, hm⟩
  · rintro ⟨a, ha, rfl⟩
    cases hcheck : check t v with
    | none => exact absurd ha.toIsFault (check_eq_none_iff.mp hcheck a)
    | some m =>
      rw [hcheck] at hfinds
      obtain ⟨b, hb, rfl, hfirst⟩ := hfinds
      rw [ha.unique ⟨hb, hfirst hv⟩]

/-- **A check finds the first place that is not as its type demands.** Whatever the type and the value
are, nothing is reported exactly if the demands are met at all places. In a value whose objects list
their members in ascending order, what is reported is the place that comes before all others where the
demand is not met: the elements and entries on the way to it, the outermost first, and then the type and
the kind of the value there. -/
theorem check_finds_first (t : TypeExpr) (v : Json) :
    (check t v = none ↔ ∀ a, HasPlace t v a → a.type.requirement.isMet a.value = true) ∧
    (v.IsSorted → ∀ m, check t v = some m ↔ ∃ a, IsFirstFault t v a ∧ a.mismatch = m) ∧
    ∀ a : Place, a.mismatch.message =
      ": ".intercalate (a.steps.map (·.message) ++
        ["expected " ++ a.type.display ++ ", found " ++ a.value.kind.name]) := by
  refine ⟨?_, fun hv m => check_eq_some_iff hv, fun a => rfl⟩
  rw [check_eq_none_iff]
  constructor
  · intro h a ha
    cases hmet : a.type.requirement.isMet a.value with
    | true => rfl
    | false => exact absurd ⟨ha, hmet⟩ (h a)
  · intro h a ha
    exact absurd ((h a ha.place).symm.trans ha.unmet) (by decide)

/-- How many parts of a name are in a box. -/
def box : TypeExpr := .app "bins::BTreeMap" [.named "String", .named "u8"]

/-- Some boxes of a shelf, of which any may be missing. -/
def shelf : TypeExpr := .app "Vec" [.app "Option" [box]]

def shelves : TypeExpr := .app "HashMap" [.named "String", shelf]

/-- Shelves with a number below zero in a box, and after it one that is no list of boxes. -/
def stock : Json :=
  .object
    [("east", .array [.null, .object [("bolts", .ofUInt64 7)]]),
     ("north", .array [.object [("bolts", .ofUInt64 0),
       ("nuts", .number (.whole ⟨-1, by omega, by omega⟩))]]),
     ("west", .null)]

theorem check_finds_first_stock :
    stock.IsSorted ∧ ∃ a, IsFirstFault shelves stock a ∧
      a.mismatch = ⟨[.entry "north" shelves, .element 0 shelf, .entry "nuts" box], .named "u8", .integer⟩ ∧
      a.mismatch.message =
        "entry `north` of HashMap<String, Vec<Option<bins::BTreeMap<String, u8>>>>: " ++
          "element 0 of Vec<Option<bins::BTreeMap<String, u8>>>: " ++
            "entry `nuts` of bins::BTreeMap<String, u8>: expected u8, found integer" := by
  have hsorted : stock.IsSorted := by
    simp only [stock, Json.ofUInt64, Json.IsSorted, Json.AllSorted, Json.AllMembersSorted]
    decide +kernel
  obtain ⟨-, hfirst, -⟩ := check_finds_first shelves stock
  have hcheck : check shelves stock =
      some ⟨[.entry "north" shelves, .element 0 shelf, .entry "nuts" box], .named "u8", .integer⟩ := by
    decide +kernel
  obtain ⟨a, ha, hm⟩ := (hfirst hsorted _).mp hcheck
  exact ⟨hsorted, a, ha, hm, by rw [hm]; decide +kernel⟩

end Codec

end ClientSynth
