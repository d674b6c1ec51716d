import ClientSynth.Proofs.Route.Segments
import ClientSynth.Proofs.TypeExpr.Names
import ClientSynth.Text.Literal

/-!
# `ClientSynth.Proofs.Text.Lines` — texts without a line break

What can put a line break into a text that is put together from others: only a part that has one, and
the parts of some texts never do. These are the lines that a text was cut into
(`isOneLine_of_mem_lines`) and literals (`isOneLine_literalOf`), whatever they were made from; and
nothing that is cut out of a text without line breaks has one (`isOneLine_shortName`).
-/

set_option autoImplicit false

namespace ClientSynth.Text

/-- A text without a line break. -/
def IsOneLine (s : String) : Prop := '\n' ∉ s.toList

instance (s : String) : Decidable (IsOneLine s) := inferInstanceAs (Decidable (¬ _))

/-! ## Texts that are put together -/

@[simp]
theorem isOneLine_append {s t : String} : IsOneLine (s ++ t) ↔ IsOneLine s ∧ IsOneLine t := by
  simp [IsOneLine]

@[simp]
theorem isOneLine_ofList {cs : List Char} : IsOneLine (String.ofList cs) ↔ '\n' ∉ cs := by
  simp [IsOneLine]

theorem intercalate_eq_joinWith (sep : List Char) :
    ∀ parts : List (List Char), sep.intercalate parts = joinWith sep parts
  | [] => rfl
  | [part] => by simp [joinWith]
  | part :: part' :: parts => by
    rw [List.intercalate_cons_cons, intercalate_eq_joinWith sep (part' :: parts)]
    rfl

theorem isOneLine_intercalate {sep : String} (hsep : IsOneLine sep) {parts : List String} :
    IsOneLine (sep.intercalate parts) ↔ ∀ part ∈ parts, IsOneLine part := by
  unfold IsOneLine
  rw [String.toList_intercalate, intercalate_eq_joinWith]
  constructor
  · exact fun h part hpart hc => h (mem_joinWith_of_mem hc (List.mem_map_of_mem hpart))
  · intro h hc
    rcases mem_joinWith hc with hc | ⟨part, hpart, hc⟩
    · exact hsep hc
    · obtain ⟨text, htext, rfl⟩ := List.mem_map.mp hpart
      exact h text htext hc

/-! ## Literals -/

theorem newline_notMem_hexChars (n : Nat) : '\n' ∉ hexChars n := by
  unfold hexChars
  induction n using Nat.strongRecOn with
  | ind n ih =>
    have hdigit : ∀ k, '\n' ≠ Nat.digitChar k := fun k => (Nat.digitChar_ne '\n' rfl).symm
    rw [Nat.toDigits_eq_if (by decide)]
    split
    · exact mt List.mem_singleton.mp (hdigit n)
    · have hlt : n / 16 < n := by omega
      rw [List.mem_append, List.mem_singleton, not_or]
      exact ⟨ih _ hlt, hdigit (n % 16)⟩

theorem newline_notMem_literalChar (c : Char) : '\n' ∉ literalChar c := by
  by_cases hc : c = '\n'
  · subst hc
    decide
  · unfold literalChar
    split_ifs <;> simp [newline_notMem_hexChars, Ne.symm hc]

/-- **A literal has no line break in it, whatever it stands for.** -/
theorem isOneLine_literalOf (s : String) : IsOneLine (literalOf s) := by
  rw [literalOf, isOneLine_ofList, literal]
  simp [newline_notMem_literalChar]

/-! ## Texts that are cut -/

theorem newline_notMem_splitAt {cs part : List Char} (h : part ∈ splitAt '\n' cs) : '\n' ∉ part := by
  obtain ⟨first, rest, hsplit, -, hfirst, hrest⟩ := splitAt_spec '\n' cs
  rw [hsplit, List.mem_cons] at h
  rcases h with rfl | h
  · exact hfirst
  · exact (hrest part h).2

/-- The lines of a text are what stands between its line breaks. -/
theorem isOneLine_of_mem_lines {cs line : List Char} (h : line ∈ lines cs) : '\n' ∉ line := by
  have hended : ∀ line ∈ (splitAt '\n' cs).dropLast.map dropReturn, '\n' ∉ line := by
    intro line hline
    obtain ⟨part, hpart, rfl⟩ := List.mem_map.mp hline
    have hpart := newline_notMem_splitAt (List.dropLast_subset _ hpart)
    unfold dropReturn
    split
    · exact fun hc => hpart (List.dropLast_subset _ hc)
    · exact hpart
  unfold lines at h
  dsimp only at h
  split at h
  · exact hended line h
  · exact hended line h
  · rename_i rest _ hrest
    rcases List.mem_append.mp h with h | h
    · exact hended line h
    · obtain rfl := List.mem_singleton.mp h
      exact newline_notMem_splitAt (List.mem_of_mem_getLast? hrest)

theorem afterLastPath?_suffix {cs rest : List Char} (h : afterLastPath? cs = some rest) :
    rest <:+ cs := by
  induction cs with
  | nil => cases h
  | cons c cs ih =>
    unfold afterLastPath? at h
    split at h
    · rename_i rest' hrest
      obtain rfl := Option.some.inj h
      exact (ih hrest).trans (List.suffix_cons c cs)
    · split at h
      · obtain rfl := Option.some.inj h
        exact (List.suffix_cons _ _).trans (List.suffix_cons _ _)
      · cases h

theorem lastSegment_suffix (cs : List Char) : lastSegment cs <:+ cs := by
  unfold lastSegment
  cases h : afterLastPath? cs with
  | none => exact List.suffix_rfl
  | some rest => exact afterLastPath?_suffix h

theorem isOneLine_shortName {s : String} (h : IsOneLine s) : IsOneLine (shortName s) := by
  rw [shortName, isOneLine_ofList]
  exact fun hc => h ((lastSegment_suffix s.toList).subset hc)

end ClientSynth.Text
