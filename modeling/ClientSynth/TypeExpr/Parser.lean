import ClientSynth.Text.Blank
import ClientSynth.TypeExpr.Basic

/-!
# `ClientSynth.TypeExpr.Parser` — reading type expressions

A type text is trimmed, cut at its first `<`, and the part between the brackets is cut again at
the commas that no inner bracket encloses. Three parts, each with its own definition: names
(`isName`), bracket depth (`balanced`), and the cut (`splitParams`). `parse?` puts them together
and recurses into the pieces, which are shorter than the text they were cut from
(`length_lt_of_mem_splitParams`).
-/

set_option autoImplicit false

namespace ClientSynth.TypeExpr

open ClientSynth.Text

/-! ## Names -/

/-- Characters an identifier may start with. -/
def isIdentStart (c : Char) : Bool :=
  c.isAlpha || c == '_'

/-- Characters an identifier may go on with. -/
def isIdentRest (c : Char) : Bool :=
  c.isAlphanum || c == '_'

/-- An ASCII identifier: a letter or `_`, then letters, digits and `_`. -/
def isIdent : List Char → Bool
  | [] => false
  | c :: cs => isIdentStart c && cs.all isIdentRest

/-- A type name: identifiers with `::` between neighbours. -/
def isName (cs : List Char) : Bool :=
  (splitPath cs).all isIdent

/-! ## Bracket depth -/

/-- How a character changes the bracket depth. -/
def depthStep (c : Char) : Int :=
  if c = '<' then 1 else if c = '>' then -1 else 0

/-- Whether the brackets of a text, met at depth `depth`, never close one that is not open and
end at depth `0`. -/
def balancedFrom (depth : Nat) : List Char → Bool
  | [] => depth == 0
  | c :: cs =>
    if c = '<' then balancedFrom (depth + 1) cs
    else if c = '>' then
      match depth with
      | 0 => false
      | d + 1 => balancedFrom d cs
    else balancedFrom depth cs

/-- Whether `<` and `>` match up. -/
def balanced (cs : List Char) : Bool :=
  balancedFrom 0 cs

/-! ## Cutting at the commas of the top level -/

/-- The parts of a text between its commas at depth `0`, when it is met at depth `depth`: the first
part and those after it. A `>` too many makes the depth negative, which hides commas as a missing
`>` does. -/
def cutTop (depth : Int) : List Char → List Char × List (List Char)
  | [] => ([], [])
  | c :: cs =>
    if c = ',' ∧ depth = 0 then
      let (part, parts) := cutTop depth cs
      ([], part :: parts)
    else
      let (part, parts) := cutTop (depth + depthStep c) cs
      (c :: part, parts)

/-- The pieces of a parameter list, trimmed. A comma at the very end opens no piece, and neither
does the empty text. -/
def splitParams (cs : List Char) : List (List Char) :=
  let (part, parts) := cutTop 0 cs
  let pieces := part :: parts
  -- A last piece of blanks stays, so this is looked at before trimming.
  (if pieces.getLast? = some [] then pieces.dropLast else pieces).map trim

def splitParamTexts (s : String) : List String :=
  (splitParams s.toList).map String.ofList

theorem length_le_of_mem_cutTop : ∀ (depth : Int) (cs part : List Char),
    part = (cutTop depth cs).1 ∨ part ∈ (cutTop depth cs).2 → part.length ≤ cs.length
  | _, [], part, h => by simp [cutTop] at h; simp [h]
  | depth, c :: cs, part, h => by
    rw [cutTop] at h
    split at h
    · rcases h with h | h
      · simp at h; simp [h]
      · have := length_le_of_mem_cutTop depth cs part (by simpa [eq_comm] using h)
        simp; omega
    · rcases h with h | h
      · have := length_le_of_mem_cutTop (depth + depthStep c) cs _ (Or.inl rfl)
        simp at h; subst h; simp; omega
      · have := length_le_of_mem_cutTop (depth + depthStep c) cs part (Or.inr h)
        simp; omega

/-- No piece is longer than the text it was cut from. -/
theorem length_le_of_mem_splitParams {cs piece : List Char} (h : piece ∈ splitParams cs) :
    piece.length ≤ cs.length := by
  simp only [splitParams, List.mem_map] at h
  obtain ⟨raw, hraw, rfl⟩ := h
  refine Nat.le_trans (length_trim_le raw) (length_le_of_mem_cutTop 0 _ _ ?_)
  split at hraw
  · simpa using (List.dropLast_sublist _).mem hraw
  · simpa using hraw

/-! ## Reading -/

/-- The text between the brackets, for a text that starts with `<`: it must end with `>`, and what
is between must be balanced and not blank. -/
def bracketed? (cs : List Char) : Option (List Char) :=
  match cs with
  | [] => none
  | _ :: rest =>
    if rest.getLast? = some '>' then
      let inner := rest.dropLast
      if balanced inner && !inner.all isBlank then some inner else none
    else none

theorem length_lt_of_bracketed? {cs inner : List Char} (h : bracketed? cs = some inner) :
    inner.length < cs.length := by
  cases cs with
  | nil => simp [bracketed?] at h
  | cons c rest =>
    simp only [bracketed?] at h
    split at h
    · split at h
      · cases h; simp only [List.length_cons, List.length_dropLast]; omega
      · cases h
    · cases h

/-- The type that a text denotes, if it denotes one. -/
def parse? (cs : List Char) : Option TypeExpr :=
  let text := trim cs
  if text = unitName.toList then some unit
  else
    let base := trim (text.takeWhile (· ≠ '<'))
    if isName base then
      match _hrest : text.dropWhile (· ≠ '<') with
      | [] => some (named (String.ofList base))
      | bracket :: rest =>
        match _hinner : bracketed? (bracket :: rest) with
        | none => none
        | some inner =>
          -- Each piece comes with the proof that it is one, which bounds its length.
          ((splitParams inner).attach.mapM fun (piece : { p // p ∈ splitParams inner }) =>
            parse? piece.val).map (app (String.ofList base))
    else none
termination_by cs.length
decreasing_by
  have h1 := length_le_of_mem_splitParams piece.property
  have h2 := length_lt_of_bracketed? _hinner
  have h3 := (List.dropWhile_sublist (fun c : Char => c ≠ '<') (l := text)).length_le
  have h4 : text.length ≤ cs.length := length_trim_le cs
  simp only [_hrest] at h3
  omega

/-- **Reading a type**, as one equation without the bookkeeping that makes it end. -/
theorem parse?_eq (cs : List Char) :
    parse? cs =
      let text := trim cs
      if text = unitName.toList then some unit
      else
        let base := trim (text.takeWhile (· ≠ '<'))
        if isName base then
          match text.dropWhile (· ≠ '<') with
          | [] => some (named (String.ofList base))
          | bracket :: rest =>
            (bracketed? (bracket :: rest)).bind fun inner =>
              ((splitParams inner).mapM parse?).map (app (String.ofList base))
        else none := by
  rw [parse?]
  simp only
  split
  · rfl
  · split
    · split
      · rename_i hrest
        simp only [hrest]
      · rename_i hrest
        simp only [hrest]
        split
        · rename_i hinner
          simp [hinner]
        · rename_i hinner
          simp [hinner]
    · rfl

/-- The type that a string denotes, if it denotes one. -/
def ofString? (s : String) : Option TypeExpr :=
  parse? s.toList

end ClientSynth.TypeExpr
