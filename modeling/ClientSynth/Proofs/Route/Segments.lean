import ClientSynth.Proofs.Lists
import ClientSynth.Proofs.Route.Filling

/-!
# `ClientSynth.Proofs.Route.Segments` — segments and placeholders

A path is looked at in two ways: `hasSegment` compares whole segments with the text of a placeholder,
and `placeholders` goes by the pieces that the path is cut into. A segment that is the text of a
placeholder stands at the start of the path or after a slash, and no placeholder that the cutting finds
goes over a slash, so the cutting comes to where the segment begins. What it finds there is up to the
name:

> when some segment is exactly `{name}`, `name` is among the placeholders if and only if it is a name
> that a placeholder may have (`mem_placeholders_iff_of_hasSegment`).
-/

set_option autoImplicit false

namespace ClientSynth

/-! ## Parts of a text -/

/-- The first part of a text is at its start, and every other is after a separator. -/
theorem Text.splitAt_spec (sep : Char) :
    ∀ cs : List Char, ∃ part parts, splitAt sep cs = part :: parts ∧ part <+: cs ∧ sep ∉ part ∧
      ∀ other ∈ parts, sep :: other <:+: cs ∧ sep ∉ other
  | [] => ⟨[], [], rfl, List.prefix_rfl, List.not_mem_nil, fun _ h => absurd h List.not_mem_nil⟩
  | c :: cs => by
    obtain ⟨part, parts, hsplit, hpart, hsep, hparts⟩ := splitAt_spec sep cs
    have hlater : ∀ other ∈ parts, sep :: other <:+: c :: cs ∧ sep ∉ other :=
      fun other h => ⟨List.infix_cons (hparts other h).1, (hparts other h).2⟩
    by_cases hc : c = sep
    · subst hc
      refine ⟨[], part :: parts, by rw [splitAt, if_pos rfl, hsplit], List.nil_prefix,
        List.not_mem_nil, ?_⟩
      rw [List.forall_mem_cons]
      exact ⟨⟨(List.cons_prefix_cons.mpr ⟨rfl, hpart⟩).isInfix, hsep⟩, hlater⟩
    · refine ⟨c :: part, parts, by rw [splitAt, if_neg hc, hsplit],
        List.cons_prefix_cons.mpr ⟨rfl, hpart⟩, ?_, hlater⟩
      rw [List.mem_cons, not_or]
      exact ⟨Ne.symm hc, hsep⟩

/-! ## What the cutting finds -/

namespace Piece

theorem isPlaceholderName_iff {name : List Char} :
    isPlaceholderName name = true ↔ name ≠ [] ∧ ∀ c ∈ name, c ≠ '{' ∧ c ≠ '}' ∧ c ≠ '/' := by
  simp [isPlaceholderName, and_assoc]

theorem placeholder?_eq_some {cs name rest : List Char} (h : placeholder? cs = some (name, rest)) :
    cs = name ++ '}' :: rest ∧ isPlaceholderName name = true := by
  unfold placeholder? at h
  dsimp only at h
  split at h
  · simp at h
  · rename_i c r hdrop
    split at h
    · rename_i hname
      obtain ⟨rfl, rfl⟩ : cs.takeWhile (· ≠ '}') = name ∧ r = rest := by simpa using h
      have hc : c = '}' := by
        have := List.head?_dropWhile_not (p := fun c : Char => decide (c ≠ '}')) (l := cs)
        rw [hdrop] at this
        simpa using this
      refine ⟨?_, hname⟩
      rw [hc] at hdrop
      rw [← hdrop, List.takeWhile_append_dropWhile]
    · simp at h

theorem placeholder?_token {name : List Char} (h : isPlaceholderName name = true)
    (rest : List Char) : placeholder? (name ++ '}' :: rest) = some (name, rest) := by
  have hkeep : ∀ c ∈ name, decide (c ≠ '}') = true :=
    fun c hc => decide_eq_true ((isPlaceholderName_iff.mp h).2 c hc).2.1
  have htake : (name ++ '}' :: rest).takeWhile (· ≠ '}') = name := by
    rw [List.takeWhile_append_of_pos hkeep]
    simp
  have hdrop : (name ++ '}' :: rest).dropWhile (· ≠ '}') = '}' :: rest := by
    rw [List.dropWhile_append_of_pos hkeep]
    simp
  unfold placeholder?
  dsimp only
  rw [htake, hdrop]
  exact if_pos h

theorem placeholder_mem_consLiteral {name : String} {text : List Char} {ps : List Piece} :
    placeholder name ∈ consLiteral text ps ↔ placeholder name ∈ ps := by
  unfold consLiteral
  split <;> simp

/-- What the cutting finds are names that a placeholder may have. -/
theorem isPlaceholderName_of_mem_scan {name : String} (cs : List Char) :
    placeholder name ∈ (scan cs).2 → isPlaceholderName name.toList = true := by
  fun_induction scan cs with
  | case1 => simp
  | case2 cs found rest hfound text ps hscan ih =>
    rw [List.mem_cons, placeholder_mem_consLiteral]
    rintro (h | h)
    · obtain rfl : name = String.ofList found := by simpa using h
      simpa using (placeholder?_eq_some hfound).2
    · exact ih (hscan ▸ h)
  | case3 cs _ text ps hscan ih => exact fun h => ih (hscan ▸ h)
  | case4 c cs _ text ps hscan ih => exact fun h => ih (hscan ▸ h)

/-- A placeholder at the start of a text is found. -/
theorem mem_scan_of_prefix {name : String} (hname : isPlaceholderName name.toList = true)
    {cs : List Char} (h : token name.toList <+: cs) : placeholder name ∈ (scan cs).2 := by
  obtain ⟨rest, rfl⟩ := h
  have htext : token name.toList ++ rest = '{' :: (name.toList ++ '}' :: rest) := by
    simp [token]
  rw [htext, scan, if_pos rfl, placeholder?_token hname]
  simp

/-- A placeholder after a slash is found: none that is found before it goes over the slash. -/
theorem mem_scan_of_infix {name : String} (hname : isPlaceholderName name.toList = true)
    (cs : List Char) :
    '/' :: token name.toList <:+: cs → placeholder name ∈ (scan cs).2 := by
  fun_induction scan cs with
  | case1 => simp
  | case2 cs found rest hfound text ps hscan ih =>
    intro h
    obtain ⟨rfl, hplain⟩ := placeholder?_eq_some hfound
    have hslash : '/' ∉ '{' :: (found ++ ['}']) := by
      have : '/' ∉ found := fun h => ((isPlaceholderName_iff.mp hplain).2 _ h).2.2 rfl
      simpa using this
    -- What was found has no slash in it, so all that begins with one lies after it.
    have hrest : '/' :: token name.toList <:+: rest := infix_of_infix_append hslash (by simpa using h)
    rw [List.mem_cons, placeholder_mem_consLiteral]
    exact Or.inr (by simpa [hscan] using ih hrest)
  | case3 cs _ text ps hscan ih =>
    intro h
    rcases List.infix_cons_iff.mp h with h | h
    · exact absurd (List.cons_prefix_cons.mp h).1 (by decide)
    · simpa [hscan] using ih h
  | case4 c cs _ text ps hscan ih =>
    intro h
    rcases List.infix_cons_iff.mp h with h | h
    · simpa [hscan] using mem_scan_of_prefix hname (List.cons_prefix_cons.mp h).2
    · simpa [hscan] using ih h

end Piece

namespace Template

theorem mem_placeholders_iff_scan {path name : String} :
    name ∈ placeholders path ↔ Piece.placeholder name ∈ (Piece.scan path.toList).2 := by
  have hname : ∀ p, placeholderName? p = some name ↔ p = .placeholder name := by
    intro p
    cases p <;> simp [placeholderName?]
  rw [mem_placeholders_iff, names, List.mem_filterMap]
  simp only [hname, exists_eq_right]
  exact Piece.placeholder_mem_consLiteral

/-! ## Segments -/

/-- Slashes at the start of a path are around empty segments, and a placeholder is not empty. -/
theorem hasSegment_iff {path name : String} :
    hasSegment path name = true ↔ Piece.token name.toList ∈ Text.splitAt '/' path.toList := by
  unfold hasSegment segmentsOf
  rw [List.contains_iff_mem]
  generalize path.toList = cs
  -- The induction is on the slashes at the start; the first other character ends it.
  induction cs with
  | nil => simp
  | cons c cs ih =>
    by_cases hc : c = '/'
    · subst hc
      have hsplit : Text.splitAt '/' ('/' :: cs) = [] :: Text.splitAt '/' cs := by
        simp [Text.splitAt]
      have hdrop : ('/' :: cs).dropWhile (· == '/') = cs.dropWhile (· == '/') := by simp
      rw [hdrop, hsplit, ih]
      simp [Piece.token]
    · have hdrop : (c :: cs).dropWhile (· == '/') = c :: cs := by simp [hc]
      rw [hdrop]

/-- A segment is at the start of a path or after a slash, and there is no slash in it. -/
theorem token_of_hasSegment {path name : String} (h : hasSegment path name = true) :
    (Piece.token name.toList <+: path.toList ∨ '/' :: Piece.token name.toList <:+: path.toList) ∧
      '/' ∉ name.toList := by
  obtain ⟨part, parts, hsplit, hpart, hslash, hparts⟩ := Text.splitAt_spec '/' path.toList
  have hinside : '/' ∉ Piece.token name.toList → '/' ∉ name.toList := by
    intro h hname
    exact h (by simp [Piece.token, hname])
  have htoken := hasSegment_iff.mp h
  rw [hsplit, List.mem_cons] at htoken
  rcases htoken with htoken | htoken
  · exact ⟨Or.inl (htoken ▸ hpart), hinside (htoken ▸ hslash)⟩
  · exact ⟨Or.inr (hparts _ htoken).1, hinside (hparts _ htoken).2⟩

/-- **A segment that is the text of a placeholder is a placeholder exactly when its name may be one.** -/
theorem mem_placeholders_iff_of_hasSegment {path name : String} (h : hasSegment path name = true) :
    name ∈ placeholders path ↔ Piece.isPlaceholderName name.toList = true := by
  rw [mem_placeholders_iff_scan]
  refine ⟨Piece.isPlaceholderName_of_mem_scan _, fun hname => ?_⟩
  rcases (token_of_hasSegment h).1 with hstart | hlater
  · exact Piece.mem_scan_of_prefix hname hstart
  · exact Piece.mem_scan_of_infix hname _ hlater

end Template

end ClientSynth
