import ClientSynth.TypeExpr.Parser

/-!
# `ClientSynth.Proofs.TypeExpr.Names` — which texts are type names

`isName` cuts a text at every `::` and looks at the parts. A type name, said without cutting
anything, is one or more identifiers with `::` between neighbours (`IsTypeName`), and the two are
the same (`isName_iff`): no identifier has a colon in it, so the cuts are where the `::` were put.
-/

set_option autoImplicit false

namespace ClientSynth

namespace Text

/-! ## Cutting at `::` -/

theorem joinWith_cons {sep part : List Char} {parts : List (List Char)} (h : parts ≠ []) :
    joinWith sep (part :: parts) = part ++ sep ++ joinWith sep parts := by
  cases parts with
  | nil => exact absurd rfl h
  | cons _ _ => rfl

theorem joinWith_cons_cons (sep : List Char) (c : Char) (part : List Char)
    (parts : List (List Char)) :
    joinWith sep ((c :: part) :: parts) = c :: joinWith sep (part :: parts) := by
  cases parts <;> rfl

theorem mem_joinWith {sep : List Char} {c : Char} {parts : List (List Char)}
    (h : c ∈ joinWith sep parts) : c ∈ sep ∨ ∃ part ∈ parts, c ∈ part := by
  induction parts with
  | nil => exact absurd h List.not_mem_nil
  | cons part parts ih =>
    by_cases hnil : parts = []
    · subst hnil
      exact Or.inr ⟨part, List.mem_cons_self, h⟩
    · rw [joinWith_cons hnil, List.mem_append, List.mem_append] at h
      rcases h with (h | h) | h
      · exact Or.inr ⟨part, List.mem_cons_self, h⟩
      · exact Or.inl h
      · rcases ih h with h | ⟨other, hother, h⟩
        · exact Or.inl h
        · exact Or.inr ⟨other, List.mem_cons_of_mem _ hother, h⟩

/-- Every part stands in what is joined from the parts. -/
theorem infix_joinWith {sep part : List Char} {parts : List (List Char)} (h : part ∈ parts) :
    part <:+: joinWith sep parts := by
  induction parts with
  | nil => exact absurd h List.not_mem_nil
  | cons first parts ih =>
    by_cases hnil : parts = []
    · subst hnil
      obtain rfl : part = first := by simpa using h
      exact List.infix_rfl
    · rw [joinWith_cons hnil]
      rcases List.mem_cons.mp h with rfl | h
      · exact ((List.prefix_append _ _).trans (List.prefix_append _ _)).isInfix
      · exact (ih h).trans (List.suffix_append _ _).isInfix

theorem mem_joinWith_of_mem {sep part : List Char} {c : Char} {parts : List (List Char)}
    (hc : c ∈ part) (hpart : part ∈ parts) : c ∈ joinWith sep parts :=
  (infix_joinWith hpart).subset hc

theorem splitPath_ne_nil (cs : List Char) : splitPath cs ≠ [] := by
  fun_cases splitPath cs <;> simp_all

/-- The parts of a path joined again are the path. -/
theorem joinWith_splitPath (cs : List Char) : joinWith [':', ':'] (splitPath cs) = cs := by
  fun_induction splitPath cs with
  | case1 => rfl
  | case2 cs ih => rw [joinWith_cons (splitPath_ne_nil cs), ih]; rfl
  | case3 c cs _ hnil ih => exact absurd hnil (splitPath_ne_nil cs)
  | case4 c cs _ part parts hsplit ih => rw [joinWith_cons_cons, ← hsplit, ih]

theorem splitPath_eq_single {part : List Char} (h : ':' ∉ part) : splitPath part = [part] := by
  induction part with
  | nil => rfl
  | cons c part ih =>
    simp only [List.mem_cons, not_or] at h
    rw [splitPath]
    · rw [ih h.2]
    · rintro _ rfl
      exact absurd rfl h.1

theorem splitPath_append {part : List Char} (h : ':' ∉ part) (cs : List Char) :
    splitPath (part ++ ':' :: ':' :: cs) = part :: splitPath cs := by
  induction part with
  | nil => rw [List.nil_append, splitPath]
  | cons c part ih =>
    simp only [List.mem_cons, not_or] at h
    rw [List.cons_append, splitPath]
    · rw [ih h.2]
    · rintro _ rfl
      exact absurd rfl h.1

/-- A path of parts without colons is cut into these parts. -/
theorem splitPath_joinWith {parts : List (List Char)} (hne : parts ≠ [])
    (h : ∀ part ∈ parts, ':' ∉ part) : splitPath (joinWith [':', ':'] parts) = parts := by
  induction parts with
  | nil => exact absurd rfl hne
  | cons part parts ih =>
    rw [List.forall_mem_cons] at h
    by_cases hnil : parts = []
    · subst hnil
      exact splitPath_eq_single h.1
    · have hjoin : joinWith [':', ':'] (part :: parts) =
          part ++ ':' :: ':' :: joinWith [':', ':'] parts := by
        rw [joinWith_cons hnil, List.append_assoc]
        rfl
      rw [hjoin, splitPath_append h.1, ih hnil h.2]

end Text

namespace TypeExpr

/-! ## Names -/

/-- A letter of the English alphabet, in either case. -/
def IsLetter (c : Char) : Prop :=
  ('a' ≤ c ∧ c ≤ 'z') ∨ ('A' ≤ c ∧ c ≤ 'Z')

/-- One of the ten digits. -/
def IsDigit (c : Char) : Prop :=
  '0' ≤ c ∧ c ≤ '9'

/-- A letter or `_`, and after it letters, digits and `_` in any number. -/
def IsIdentifier (cs : List Char) : Prop :=
  ∃ first rest, cs = first :: rest ∧ (IsLetter first ∨ first = '_') ∧
    ∀ c ∈ rest, IsLetter c ∨ IsDigit c ∨ c = '_'

/-- One identifier or more, with `::` between neighbours. -/
def IsTypeName (cs : List Char) : Prop :=
  ∃ parts, parts ≠ [] ∧ (∀ part ∈ parts, IsIdentifier part) ∧
    cs = Text.joinWith [':', ':'] parts

/-- The test of a range of characters. -/
theorem between_iff (a b c : Char) :
    (decide (c.val ≥ a.val) && decide (c.val ≤ b.val)) = true ↔ a ≤ c ∧ c ≤ b := by
  simp only [Char.le_def, Bool.and_eq_true, decide_eq_true_eq, ge_iff_le]

theorem isAlpha_iff (c : Char) : c.isAlpha = true ↔ IsLetter c := by
  have hor : c.isAlpha = (c.isUpper || c.isLower) := rfl
  have hupper : c.isUpper = true ↔ 'A' ≤ c ∧ c ≤ 'Z' := decide_eq_true_iff
  have hlower : c.isLower = true ↔ 'a' ≤ c ∧ c ≤ 'z' := between_iff 'a' 'z' c
  rw [hor, Bool.or_eq_true, hupper, hlower]
  exact or_comm

theorem isDigit_iff (c : Char) : c.isDigit = true ↔ IsDigit c :=
  between_iff '0' '9' c

theorem isIdent_iff (cs : List Char) : isIdent cs = true ↔ IsIdentifier cs := by
  cases cs with
  | nil => simp [isIdent, IsIdentifier]
  | cons c cs =>
    simp only [isIdent, isIdentStart, isIdentRest, Char.isAlphanum, Bool.and_eq_true,
      Bool.or_eq_true, List.all_eq_true, beq_iff_eq, isAlpha_iff, isDigit_iff, or_assoc]
    constructor
    · intro h
      exact ⟨c, cs, rfl, h⟩
    · rintro ⟨_, _, heq, h⟩
      cases heq
      exact h

/-- What an identifier is made of, by codes. -/
theorem IsIdentifier.toNat {cs : List Char} (h : IsIdentifier cs) {c : Char} (hc : c ∈ cs) :
    (48 ≤ c.toNat ∧ c.toNat ≤ 57) ∨ (65 ≤ c.toNat ∧ c.toNat ≤ 90) ∨ c.toNat = 95 ∨
      (97 ≤ c.toNat ∧ c.toNat ≤ 122) := by
  obtain ⟨first, rest, rfl, hfirst, hrest⟩ := h
  have hword : IsLetter c ∨ IsDigit c ∨ c = '_' := by
    rcases List.mem_cons.mp hc with rfl | hc
    · exact hfirst.imp_right Or.inr
    · exact hrest c hc
  rcases hword with (⟨hlo, hhi⟩ | ⟨hlo, hhi⟩) | ⟨hlo, hhi⟩ | rfl
  · exact Or.inr (Or.inr (Or.inr ⟨hlo, hhi⟩))
  · exact Or.inr (Or.inl ⟨hlo, hhi⟩)
  · exact Or.inl ⟨hlo, hhi⟩
  · exact Or.inr (Or.inr (Or.inl rfl))

/-- **The texts that count as names are the type names.** -/
theorem isName_iff (cs : List Char) : isName cs = true ↔ IsTypeName cs := by
  unfold isName IsTypeName
  simp only [List.all_eq_true, isIdent_iff]
  constructor
  · intro h
    exact ⟨Text.splitPath cs, Text.splitPath_ne_nil cs, h, (Text.joinWith_splitPath cs).symm⟩
  · rintro ⟨parts, hne, hparts, rfl⟩
    have hcolon : ∀ part ∈ parts, ':' ∉ part :=
      fun part hpart hmem => absurd ((hparts part hpart).toNat hmem) (by decide)
    rwa [Text.splitPath_joinWith hne hcolon]

end TypeExpr

end ClientSynth
