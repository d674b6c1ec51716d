import ClientSynth.Proofs.Route.Canonical

/-!
# `ClientSynth.Proofs.Route.Substitution` — filling a path is substitution

`fill` goes over the pieces that a path was cut into. What it comes to is said here of the text of the
path alone. A token is a name in braces, wherever it stands; a substitution keeps the text between the
tokens and has a value in the place of each (`Substitutes`). No value is looked into, so braces in it
mean nothing.

> `fill_exact`: a path can be filled exactly when all its placeholders have values, and the address is
> then the one substitution in the path; otherwise the error is the leftmost placeholder without a value.

The function and the relation are compared by an induction over texts: a text has no token in it, or it
has a first one and there is a shorter text after that (`Piece.token_induction`).
-/

set_option autoImplicit false

namespace ClientSynth

/-! ## Texts and their tokens -/

namespace Piece

theorem isTokenless_nil : IsTokenless [] :=
  fun _ _ h => absurd (List.infix_nil.mp h) (List.cons_ne_nil _ _)

section Induction

variable {P : List Char → Prop} (text : ∀ cs, IsTokenless cs → P cs)
  (token : ∀ before (name : String) after, IsTokenless before → IsName name.toList → P after →
    P (before ++ (token name.toList ++ after)))

include text token in
theorem render_induction : ∀ {ps : List Piece}, IsCanonical ps → P (render ps)
  | [], _ => text [] isTokenless_nil
  | placeholder name :: ps, h =>
    token [] name (render ps) isTokenless_nil (h.names name List.mem_cons_self)
      (render_induction h.tail)
  | [literal t], h => by
    have hrender : render [literal t] = t.toList := by simp [render, toChars]
    rw [hrender]
    exact text _ (h.tokenless t List.mem_cons_self)
  | literal t :: placeholder name :: ps, h =>
    token t.toList name (render ps) (h.tokenless t List.mem_cons_self)
      (h.names name (List.mem_cons_of_mem _ List.mem_cons_self)) (render_induction h.tail.tail)
  | literal _ :: literal _ :: _, h => absurd ⟨trivial, trivial⟩ (List.isChain_cons_cons.mp h.apart).1

include text token in
/-- What holds of the texts without tokens, and of a text with a first token if it holds of what is after
the token, holds of every text. -/
theorem token_induction (cs : List Char) : P cs := by
  rw [← render_ofChars cs]
  exact render_induction text token (isCanonical_ofChars cs)

end Induction

/-- The placeholders of a text are the names of which it has a token. -/
theorem placeholder_mem_ofChars_iff {name : String} {cs : List Char} :
    placeholder name ∈ ofChars cs ↔ IsName name.toList ∧ token name.toList <:+: cs := by
  constructor
  · intro h
    refine ⟨(isCanonical_ofChars cs).names name h, ?_⟩
    obtain ⟨ps, qs, hpieces⟩ := List.append_of_mem h
    refine ⟨render ps, render qs, ?_⟩
    rw [← render_ofChars cs, hpieces, render_append_placeholder, List.append_assoc]
  · rintro ⟨hname, before, after, rfl⟩
    rw [List.append_assoc, ofChars_append_token hname, String.ofList_toList]
    exact List.mem_append_right _ List.mem_cons_self

end Piece

namespace Template

open Piece

/-! ## Substitution -/

/-- `out` is the text `cs` with the values of names in the places of their tokens. -/
inductive Substitutes (value : String → Option String) : List Char → List Char → Prop
  | text {cs : List Char} (h : IsTokenless cs) : Substitutes value cs cs
  | token {before after out : List Char} {name v : String} (hbefore : IsTokenless before)
      (hname : IsName name.toList) (hv : value name = some v) (hafter : Substitutes value after out) :
    Substitutes value (before ++ (token name.toList ++ after)) (before ++ (v.toList ++ out))

section Fill

variable {value : String → Option String} {path name : String}

/-- When the value of a name is its token, nothing changes. -/
theorem substitutes_self (cs : List Char) :
    Substitutes (fun name => some ("\x7b" ++ name ++ "\x7d")) cs cs := by
  induction cs using token_induction with
  | text cs hcs => exact .text hcs
  | token before name after hbefore hname ih =>
    have hsame : Substitutes (fun name => some ("\x7b" ++ name ++ "\x7d"))
        (before ++ (token name.toList ++ after))
        (before ++ (("\x7b" ++ name ++ "\x7d").toList ++ after)) := .token hbefore hname rfl ih
    have htoken : ("\x7b" ++ name ++ "\x7d").toList = token name.toList := by simp [token]
    rwa [htoken] at hsame

theorem fillPieces_append (ps qs : List Piece) :
    fillPieces value (ps ++ qs) =
      fillPieces value ps >>= fun s => (s ++ ·) <$> fillPieces value qs := by
  induction ps with
  | nil => cases h : fillPieces value qs <;> simp [fillPieces, h, bind, Except.bind]
  | cons p ps ih =>
    cases p with
    | literal t =>
      rw [List.cons_append, fillPieces, fillPieces, ih]
      cases fillPieces value ps <;> cases fillPieces value qs <;>
        simp [bind, Except.bind, pure, Except.pure, String.append_assoc]
    | placeholder name =>
      rw [List.cons_append, fillPieces, fillPieces, ih]
      cases value name <;> cases fillPieces value ps <;> cases fillPieces value qs <;>
        simp [bind, Except.bind, pure, Except.pure, String.append_assoc]

theorem fillPieces_text {cs : List Char} (h : IsTokenless cs) :
    fillPieces value (ofChars cs) = .ok (String.ofList cs) := by
  rw [ofChars_of_isTokenless h, consLiteral]
  split
  · rename_i hempty
    rw [List.isEmpty_iff.mp hempty]
    rfl
  · simp [fillPieces, bind, Except.bind, pure, Except.pure]

theorem fillPieces_token {before : List Char} (hbefore : IsTokenless before)
    (hname : IsName name.toList) (after : List Char) :
    fillPieces value (ofChars (before ++ (token name.toList ++ after))) =
      match value name with
      | none => .error name
      | some v => (fun out => String.ofList before ++ (v ++ out)) <$> fillPieces value (ofChars after) := by
  rw [ofChars_append_token hname, String.ofList_toList, fillPieces_append, fillPieces_text hbefore,
    fillPieces]
  cases value name with
  | none => rfl
  | some v => cases fillPieces value (ofChars after) <;> rfl

/-- **What filling gives is the substitution**, and there is no other. -/
theorem fillPieces_eq_ok_iff {cs : List Char} {url : String} :
    fillPieces value (ofChars cs) = .ok url ↔ Substitutes value cs url.toList := by
  constructor
  · induction cs using token_induction generalizing url with
    | text cs hcs =>
      intro h
      rw [fillPieces_text hcs, Except.ok.injEq] at h
      rw [← h, String.toList_ofList]
      exact .text hcs
    | token before name after hbefore hname ih =>
      intro h
      rw [fillPieces_token hbefore hname] at h
      cases hv : value name with
      | none => simp [hv] at h
      | some v =>
        cases hout : fillPieces value (ofChars after) with
        | error e => simp [hv, hout] at h
        | ok out =>
          obtain rfl : String.ofList before ++ (v ++ out) = url := by simpa [hv, hout] using h
          simpa using Substitutes.token hbefore hname hv (ih hout)
  · have hfill : ∀ out, Substitutes value cs out →
        fillPieces value (ofChars cs) = .ok (String.ofList out) := by
      intro out h
      induction h with
      | text hcs => exact fillPieces_text hcs
      | token hbefore hname hv _ ih =>
        rw [fillPieces_token hbefore hname, hv, ih]
        simp
    intro h
    rw [hfill _ h, String.ofList_toList]

/-- A character at the start of a text that opens no token stays there. -/
theorem Substitutes.head?_eq {c : Char} {cs out : List Char} (h : Substitutes value cs out)
    (hcs : cs.head? = some c) (hc : c ≠ '{') : out.head? = some c := by
  cases h with
  | text => exact hcs
  | @token before after out name v =>
    cases before with
    | nil =>
      obtain rfl : '{' = c := Option.some.inj hcs
      exact absurd rfl hc
    | cons d before => exact hcs

/-! ## Values and errors -/

/-- Leaving out repetitions does not change what comes first. -/
theorem find?_firstOccurrences {p : String → Bool} : ∀ {names seen : List String},
    (∀ n ∈ seen, p n = false) → (firstOccurrences seen names).find? p = names.find? p
  | [], _, _ => rfl
  | n :: ns, seen, hseen => by
    unfold firstOccurrences
    split
    · rename_i hn
      rw [List.find?_cons, hseen n hn, find?_firstOccurrences hseen]
    · rw [List.find?_cons, List.find?_cons]
      cases hp : p n with
      | true => rfl
      | false => exact find?_firstOccurrences (List.forall_mem_cons.mpr ⟨hp, hseen⟩)

theorem find?_placeholders (p : String → Bool) : (placeholders path).find? p = (names path).find? p :=
  find?_firstOccurrences fun _ h => absurd h List.not_mem_nil

/-- Filling fails at a placeholder or succeeds, according to whether some placeholder has no value. -/
theorem fill_eq (path : String) (value : String → Option String) :
    fill path value =
      match (placeholders path).find? fun n => (value n).isNone with
      | some name => .error name
      | none => .ok (substituted path fun n => (value n).getD "") := by
  rw [find?_placeholders]
  cases h : (names path).find? fun n => (value n).isNone with
  | some name => exact fill_eq_error h
  | none =>
    refine fill_eq_ok fun n hn => ?_
    obtain ⟨v, hv⟩ : ∃ v, value n = some v := by
      simpa [Option.ne_none_iff_exists'] using List.find?_eq_none.mp h n hn
    rw [hv]
    rfl

theorem fill_isOk_iff :
    (∃ url, fill path value = .ok url) ↔ ∀ n ∈ placeholders path, ∃ v, value n = some v := by
  have hnone : ((placeholders path).find? fun n => (value n).isNone) = none ↔
      ∀ n ∈ placeholders path, ∃ v, value n = some v := by
    simp [List.find?_eq_none, Option.ne_none_iff_exists']
  rw [← hnone, fill_eq]
  cases (placeholders path).find? fun n => (value n).isNone <;> simp

theorem fill_eq_error_iff : fill path value = .error name ↔
    (placeholders path).find? (fun n => (value n).isNone) = some name := by
  rw [fill_eq]
  cases (placeholders path).find? fun n => (value n).isNone <;> simp

theorem mem_placeholders_iff_mem_pieces :
    name ∈ placeholders path ↔ placeholder name ∈ pieces path :=
  mem_placeholders_iff_scan.trans placeholder_mem_consLiteral.symm

/-- In the text itself, the error is a name without a value that has a token before which every token
has a value. -/
theorem fillPieces_eq_error_iff {cs : List Char} : fillPieces value (ofChars cs) = .error name ↔
    ∃ before after, cs = before ++ (token name.toList ++ after) ∧ IsName name.toList ∧
      value name = none ∧
        ∀ other : String, IsName other.toList → token other.toList <:+: before →
          ∃ v, value other = some v := by
  constructor
  · induction cs using token_induction with
    | text cs hcs => simp [fillPieces_text hcs]
    | token before first after hbefore hfirst ih =>
      intro h
      rw [fillPieces_token hbefore hfirst] at h
      cases hv : value first with
      | none =>
        obtain rfl : first = name := by simpa [hv] using h
        exact ⟨before, after, rfl, hfirst, hv, fun other ho hin => absurd hin (hbefore _ ho)⟩
      | some v =>
        -- The first token has a value, so the error is one of what is after it.
        have hafter : fillPieces value (ofChars after) = .error name := by
          cases hout : fillPieces value (ofChars after) <;> simp [hv, hout] at h ⊢
          exact h
        obtain ⟨between, rest, rfl, hname, hnot, hall⟩ := ih hafter
        refine ⟨before ++ (token first.toList ++ between), rest, by simp, hname, hnot, ?_⟩
        intro other ho hin
        have hmem := placeholder_mem_ofChars_iff.mpr ⟨ho, hin⟩
        rw [ofChars_append_token hfirst, String.ofList_toList, List.mem_append, List.mem_cons] at hmem
        rcases hmem with hmem | hmem | hmem
        · exact absurd (placeholder_mem_ofChars_iff.mp hmem).2 (hbefore _ ho)
        · obtain rfl : other = first := by simpa using hmem
          exact ⟨v, hv⟩
        · exact hall other ho (placeholder_mem_ofChars_iff.mp hmem).2
  · rintro ⟨before, after, rfl, hname, hnot, hall⟩
    obtain ⟨s, hs⟩ : ∃ s, fill (String.ofList before) value = .ok s := by
      refine fill_isOk_iff.mpr fun n hn => ?_
      rw [mem_placeholders_iff_mem_pieces, pieces, String.toList_ofList,
        placeholder_mem_ofChars_iff] at hn
      exact hall n hn.1 hn.2
    rw [fill, pieces, String.toList_ofList] at hs
    rw [ofChars_append_token hname, String.ofList_toList, fillPieces_append, hs, fillPieces, hnot]
    rfl

end Fill

/-- **Filling a path is substitution.** The placeholders of a path are the names of which it has a token,
and it can be filled exactly when all of them have values. The address is then the path with values in
the places of all tokens and every other character kept, whatever is in the values. Otherwise the error is
the first of the placeholders without a value, and its token is the leftmost in the path that has none.
Filled with tokens for values, a path stays as it is. -/
theorem fill_exact (path : String) (value : String → Option String) :
    (∀ name, name ∈ placeholders path ↔ IsName name.toList ∧ token name.toList <:+: path.toList) ∧
    ((∃ url, fill path value = .ok url) ↔ ∀ name ∈ placeholders path, ∃ v, value name = some v) ∧
    (∀ url, fill path value = .ok url ↔ Substitutes value path.toList url.toList) ∧
    (∀ name, fill path value = .error name ↔
      (placeholders path).find? (fun n => (value n).isNone) = some name) ∧
    (∀ name, fill path value = .error name ↔
      ∃ before after, path.toList = before ++ (token name.toList ++ after) ∧ IsName name.toList ∧
        value name = none ∧
          ∀ other : String, IsName other.toList → token other.toList <:+: before →
            ∃ v, value other = some v) ∧
    fill path (fun name => some ("\x7b" ++ name ++ "\x7d")) = .ok path := by
  refine ⟨fun name => ?_, fill_isOk_iff, fun url => fillPieces_eq_ok_iff,
    fun name => fill_eq_error_iff, fun name => fillPieces_eq_error_iff,
    fillPieces_eq_ok_iff.mpr (substitutes_self _)⟩
  rw [mem_placeholders_iff_mem_pieces, pieces, placeholder_mem_ofChars_iff]

/-- Braces that come with a value make no token. -/
example : fill "/a/\x7bb/c\x7d/\x7b\x7bd\x7d\x7bd\x7d" (fun _ => some "\x7be\x7d") =
    .ok "/a/\x7bb/c\x7d/\x7b\x7be\x7d\x7be\x7d" := by
  decide +kernel

end Template

end ClientSynth
