import ClientSynth.Proofs.TypeExpr.Names

/-!
# `ClientSynth.Proofs.TypeExpr.Pieces` — cutting between commas outside of brackets

`cutTop` goes through a text once, with the bracket depth, and cuts at the commas that it meets at
depth zero. `Passes d e cs` says what such a walk may meet: from depth `d` it comes to depth `e`,
closes no bracket that is not open, and meets no comma outside of brackets. A piece is a text that
passes from depth zero to depth zero, and

> cutting pieces that are joined with commas gives the pieces (`cutTop_joinWith`), and joining what
> was cut gives the text, whatever that is (`joinWith_cutTop`).
-/

set_option autoImplicit false

namespace ClientSynth.TypeExpr

open ClientSynth.Text

/-! ## Depth at a character -/

theorem depth_opened (d : Nat) : (d : Int) + depthStep '<' = (d + 1 : Nat) := by
  simp [depthStep]

theorem depth_closed (d : Nat) : ((d + 1 : Nat) : Int) + depthStep '>' = d := by
  show ((d + 1 : Nat) : Int) + -1 = d
  omega

theorem depthStep_eq_zero {c : Char} (hopen : c ≠ '<') (hclose : c ≠ '>') : depthStep c = 0 := by
  rw [depthStep, if_neg hopen, if_neg hclose]

/-! ## Walks through a text -/

/-- Characters that neither change the depth nor separate anything. -/
def IsInert (c : Char) : Prop :=
  c ≠ '<' ∧ c ≠ '>' ∧ c ≠ ','

/-- Going through a text from one bracket depth to another: no bracket is closed that is not open,
and no comma is met at depth zero. -/
inductive Passes : Nat → Nat → List Char → Prop
  | nil (d : Nat) : Passes d d []
  | opening {d e : Nat} {cs : List Char} (h : Passes (d + 1) e cs) : Passes d e ('<' :: cs)
  | closing {d e : Nat} {cs : List Char} (h : Passes d e cs) : Passes (d + 1) e ('>' :: cs)
  | comma {d e : Nat} {cs : List Char} (h : Passes (d + 1) e cs) : Passes (d + 1) e (',' :: cs)
  | inert {d e : Nat} {c : Char} {cs : List Char} (hc : IsInert c) (h : Passes d e cs) :
      Passes d e (c :: cs)

/-- A text with its brackets in order and no comma outside of them. -/
def IsPiece (cs : List Char) : Prop :=
  Passes 0 0 cs

namespace Passes

theorem append {d e f : Nat} {xs ys : List Char} (hx : Passes d e xs) (hy : Passes e f ys) :
    Passes d f (xs ++ ys) := by
  induction hx with
  | nil => exact hy
  | opening _ ih => exact opening (ih hy)
  | closing _ ih => exact closing (ih hy)
  | comma _ ih => exact comma (ih hy)
  | inert hc _ ih => exact inert hc (ih hy)

/-- What may be met at some depth may be met in one more bracket. -/
theorem deeper {d e : Nat} {cs : List Char} (h : Passes d e cs) : Passes (d + 1) (e + 1) cs := by
  induction h with
  | nil d => exact nil (d + 1)
  | opening _ ih => exact opening ih
  | closing _ ih => exact closing ih
  | comma _ ih => exact comma ih
  | inert hc _ ih => exact inert hc ih

theorem of_inert {d : Nat} {cs : List Char} (h : ∀ c ∈ cs, IsInert c) : Passes d d cs := by
  induction cs with
  | nil => exact nil d
  | cons c cs ih =>
    rw [List.forall_mem_cons] at h
    exact inert h.1 (ih h.2)

/-- Pieces with commas between them may stand in brackets. -/
theorem joinWith {parts : List (List Char)} (h : ∀ part ∈ parts, IsPiece part) :
    Passes 1 1 (joinWith [','] parts) := by
  induction parts with
  | nil => exact nil 1
  | cons part parts ih =>
    rw [List.forall_mem_cons] at h
    by_cases hnil : parts = []
    · subst hnil
      exact h.1.deeper
    · rw [joinWith_cons hnil, List.append_assoc]
      exact h.1.deeper.append (comma (ih h.2))

/-! ## What the walks of the reader come to -/

theorem balancedFrom_append {d e : Nat} {cs : List Char} (h : Passes d e cs) (rest : List Char) :
    balancedFrom d (cs ++ rest) = balancedFrom e rest := by
  induction h with
  | nil => rfl
  | opening _ ih => simpa [balancedFrom] using ih
  | closing _ ih => simpa [balancedFrom] using ih
  | comma _ ih => simpa [balancedFrom] using ih
  | inert hc _ ih => simpa [balancedFrom, hc.1, hc.2.1] using ih

theorem cutTop_append {d e : Nat} {cs : List Char} (h : Passes d e cs) (rest : List Char) :
    cutTop d (cs ++ rest) = (cs ++ (cutTop e rest).1, (cutTop e rest).2) := by
  induction h with
  | nil => rfl
  | opening _ ih =>
    rw [List.cons_append, cutTop, if_neg (by simp), depth_opened, ih]
    rfl
  | closing _ ih =>
    rw [List.cons_append, cutTop, if_neg (by simp), depth_closed, ih]
    rfl
  | comma _ ih =>
    rw [List.cons_append, cutTop, if_neg (by omega), depthStep_eq_zero (by decide) (by decide),
      Int.add_zero, ih]
    rfl
  | inert hc _ ih =>
    rw [List.cons_append, cutTop, if_neg (by simp [hc.2.2]), depthStep_eq_zero hc.1 hc.2.1,
      Int.add_zero, ih]
    rfl

end Passes

/-! ## Pieces -/

theorem isPiece_nil : IsPiece [] :=
  .nil 0

/-- Commas are nothing to the bracket test. -/
theorem balanced_joinWith {parts : List (List Char)} (h : ∀ part ∈ parts, IsPiece part) :
    balanced (joinWith [','] parts) = true := by
  unfold balanced
  induction parts with
  | nil => rfl
  | cons part parts ih =>
    rw [List.forall_mem_cons] at h
    by_cases hnil : parts = []
    · subst hnil
      have hpart := h.1.balancedFrom_append []
      rw [List.append_nil] at hpart
      exact hpart
    · rw [joinWith_cons hnil, List.append_assoc, h.1.balancedFrom_append]
      simpa [balancedFrom] using ih h.2

/-- **Cutting undoes joining.** -/
theorem cutTop_joinWith {part : List Char} {parts : List (List Char)}
    (h : ∀ piece ∈ part :: parts, IsPiece piece) :
    cutTop 0 (joinWith [','] (part :: parts)) = (part, parts) := by
  induction parts generalizing part with
  | nil =>
    have hpart := (h part List.mem_cons_self).cutTop_append []
    rw [List.append_nil] at hpart
    simpa [cutTop, joinWith] using hpart
  | cons next parts ih =>
    rw [List.forall_mem_cons] at h
    rw [joinWith_cons (List.cons_ne_nil _ _), List.append_assoc]
    have hcomma : cutTop 0 (',' :: joinWith [','] (next :: parts)) = ([], next :: parts) := by
      rw [cutTop, if_pos ⟨rfl, rfl⟩, ih h.2]
    have hpart : cutTop 0 (part ++ ',' :: joinWith [','] (next :: parts)) =
        (part ++ (cutTop 0 (',' :: joinWith [','] (next :: parts))).1,
          (cutTop 0 (',' :: joinWith [','] (next :: parts))).2) := h.1.cutTop_append _
    rw [hcomma, List.append_nil] at hpart
    exact hpart

/-- **Joining undoes cutting**, at whatever depth the cutting began. -/
theorem joinWith_cutTop (d : Int) (cs : List Char) :
    joinWith [','] ((cutTop d cs).1 :: (cutTop d cs).2) = cs := by
  induction cs generalizing d with
  | nil => rfl
  | cons c cs ih =>
    by_cases hc : c = ',' ∧ d = 0
    · rw [cutTop, if_pos hc, hc.1, joinWith_cons (List.cons_ne_nil _ _), ih]
      rfl
    · rw [cutTop, if_neg hc, joinWith_cons_cons, ih]

theorem joinWith_concat_nil {sep : List Char} {parts : List (List Char)} (h : parts ≠ []) :
    joinWith sep (parts ++ [[]]) = joinWith sep parts ++ sep := by
  induction parts with
  | nil => exact absurd rfl h
  | cons part parts ih =>
    by_cases hnil : parts = []
    · subst hnil
      simp [joinWith]
    · rw [List.cons_append, joinWith_cons (by simp), joinWith_cons hnil, ih hnil]
      simp

/-- What the pieces of a parameter list are, when it is made of pieces: an empty last one is left
out. -/
theorem splitParams_joinWith {parts : List (List Char)} (hne : parts ≠ [])
    (h : ∀ part ∈ parts, IsPiece part) :
    splitParams (joinWith [','] parts) =
      (if parts.getLast? = some [] then parts.dropLast else parts).map trim := by
  cases parts with
  | nil => exact absurd rfl hne
  | cons part parts =>
    unfold splitParams
    rw [cutTop_joinWith h]

/-- The pieces of any parameter list, joined again, are the list, but for a comma at its end. -/
theorem exists_splitParams {cs : List Char} (h : cs ≠ []) :
    ∃ parts tail, parts ≠ [] ∧ (tail = [] ∨ tail = [',']) ∧ cs = joinWith [','] parts ++ tail ∧
      splitParams cs = parts.map trim := by
  have hjoin := joinWith_cutTop 0 cs
  unfold splitParams
  generalize cutTop 0 cs = cut at hjoin ⊢
  obtain ⟨part, parts⟩ := cut
  dsimp only at hjoin ⊢
  by_cases hlast : (part :: parts).getLast? = some []
  · obtain ⟨front, hfront⟩ := List.getLast?_eq_some_iff.mp hlast
    have hne : front ≠ [] := by
      rintro rfl
      obtain ⟨rfl, rfl⟩ : part = [] ∧ parts = [] := by simpa using hfront
      exact h hjoin.symm
    refine ⟨front, [','], hne, Or.inr rfl, ?_, ?_⟩
    · rw [← joinWith_concat_nil hne, ← hfront, hjoin]
    · rw [if_pos hlast, hfront, List.dropLast_concat]
  · refine ⟨part :: parts, [], List.cons_ne_nil _ _, Or.inl rfl, ?_, ?_⟩
    · rw [List.append_nil, hjoin]
    · rw [if_neg hlast]

end ClientSynth.TypeExpr
