import ClientSynth.Proofs.Route.Canonical

/-!
# `ClientSynth.Proofs.Route.Alignment` — segments between pieces

A path is cut in two ways that do not know of each other: at its slashes into segments, and at its
tokens into pieces. A placeholder that fills a whole segment can be told from the pieces alone, by what
stands next to it:

> some segment is exactly `{name}` if and only if some piece is the placeholder `name`, with nothing or
> a literal that ends in a slash before it, and nothing or a literal that starts with a slash after it
> (`hasSegment_iff_pieces`).

Both sides say that the text of the path is `{name}` between two texts that have a slash where they
meet it, or are empty.
-/

set_option autoImplicit false

namespace ClientSynth

/-! ## Segments of a text -/

namespace Text

variable {sep : Char}

theorem splitAt_of_notMem : ∀ {cs : List Char}, sep ∉ cs → splitAt sep cs = [cs]
  | [], _ => rfl
  | c :: cs, h => by
    rw [List.mem_cons, not_or] at h
    rw [splitAt, if_neg (Ne.symm h.1), splitAt_of_notMem h.2]

theorem splitAt_append_sep (ys : List Char) :
    ∀ xs : List Char, splitAt sep (xs ++ sep :: ys) = splitAt sep xs ++ splitAt sep ys
  | [] => by simp [splitAt]
  | x :: xs => by
    rw [List.cons_append, splitAt, splitAt, splitAt_append_sep ys xs]
    split
    · rfl
    · cases h : splitAt sep xs with
      | nil => exact absurd h (splitAt_ne_nil sep xs)
      | cons part parts => rfl

/-- A part of a text is what stands between separators, or a separator and an end. -/
theorem exists_of_mem_splitAt {part cs : List Char} (h : part ∈ splitAt sep cs) :
    ∃ before after, cs = before ++ (part ++ after) ∧ (∀ c ∈ before.getLast?, c = sep) ∧
      ∀ c ∈ after.head?, c = sep := by
  by_cases hsep : sep ∈ cs
  · obtain ⟨xs, ys, rfl, hxs⟩ := List.eq_append_cons_of_mem hsep
    rw [splitAt_append_sep, splitAt_of_notMem hxs, List.mem_append, List.mem_singleton] at h
    rcases h with rfl | h
    · exact ⟨[], sep :: ys, rfl, by simp, by simp⟩
    · obtain ⟨before, after, rfl, hbefore, hafter⟩ := exists_of_mem_splitAt h
      refine ⟨xs ++ sep :: before, after, by simp, fun c hc => ?_, hafter⟩
      rw [List.getLast?_append_cons, List.getLast?_cons, Option.mem_some_iff] at hc
      cases hlast : before.getLast? with
      | none => simpa [hlast] using hc.symm
      | some d =>
        obtain rfl : d = c := by simpa [hlast] using hc
        exact hbefore d hlast
  · rw [splitAt_of_notMem hsep, List.mem_singleton] at h
    subst h
    exact ⟨[], [], by simp, by simp, by simp⟩
termination_by cs.length

theorem mem_splitAt {before part after : List Char} (hpart : sep ∉ part)
    (hbefore : ∀ c ∈ before.getLast?, c = sep) (hafter : ∀ c ∈ after.head?, c = sep) :
    part ∈ splitAt sep (before ++ (part ++ after)) := by
  have hstart : part ∈ splitAt sep (part ++ after) := by
    cases after with
    | nil => simp [splitAt_of_notMem hpart]
    | cons c after =>
      obtain rfl : c = sep := hafter c rfl
      simp [splitAt_append_sep, splitAt_of_notMem hpart]
  rcases List.eq_nil_or_concat' before with rfl | ⟨xs, c, rfl⟩
  · exact hstart
  · obtain rfl : c = sep := hbefore c (by simp)
    rw [List.append_assoc, List.singleton_append, splitAt_append_sep]
    exact List.mem_append_right _ hstart

end Text

/-! ## The ends of pieces -/

namespace Piece

/-- Whether a piece is a literal that ends in a slash. -/
def EndsInSlash : Piece → Prop
  | literal text => text.toList.getLast? = some '/'
  | placeholder _ => False

/-- Whether a piece is a literal that starts with a slash. -/
def StartsWithSlash : Piece → Prop
  | literal text => text.toList.head? = some '/'
  | placeholder _ => False

theorem IsCanonical.toChars_ne_nil {ps : List Piece} (h : IsCanonical ps) {p : Piece} (hp : p ∈ ps) :
    p.toChars ≠ [] := by
  cases p with
  | literal text => simpa [toChars] using h.ne_empty text hp
  | placeholder name => exact List.cons_ne_nil _ _

/-- The text of a placeholder ends in a brace, so only that of a literal ends in a slash. -/
theorem endsInSlash_iff {p : Piece} (hp : p.toChars ≠ []) :
    p.EndsInSlash ↔ ∀ c ∈ p.toChars.getLast?, c = '/' := by
  cases p with
  | literal text =>
    obtain ⟨c, hc⟩ := Option.ne_none_iff_exists'.mp (mt List.getLast?_eq_none_iff.mp hp)
    rw [toChars] at hc
    simp [EndsInSlash, toChars, hc]
  | placeholder name => simp [EndsInSlash, toChars, token, List.getLast?_cons]

theorem startsWithSlash_iff {p : Piece} (hp : p.toChars ≠ []) :
    p.StartsWithSlash ↔ ∀ c ∈ p.toChars.head?, c = '/' := by
  cases p with
  | literal text =>
    obtain ⟨c, hc⟩ := Option.ne_none_iff_exists'.mp (mt List.head?_eq_none_iff.mp hp)
    rw [toChars] at hc
    simp [StartsWithSlash, toChars, hc]
  | placeholder name => simp [StartsWithSlash, toChars, token]

/-- Pieces, none of which is empty, end as the last of them does. -/
theorem getLast?_render {ps : List Piece} (h : ∀ p ∈ ps, p.toChars ≠ []) :
    (∀ c ∈ (render ps).getLast?, c = '/') ↔ ∀ p ∈ ps.getLast?, p.EndsInSlash := by
  rcases List.eq_nil_or_concat' ps with rfl | ⟨qs, p, rfl⟩
  · simp [render]
  · have hp : p.toChars ≠ [] := h p (by simp)
    have hrender : render (qs ++ [p]) = render qs ++ p.toChars := by simp [render]
    rw [hrender, List.getLast?_append_of_ne_nil _ hp, List.getLast?_concat, ← endsInSlash_iff hp]
    simp

theorem head?_render {ps : List Piece} (h : ∀ p ∈ ps, p.toChars ≠ []) :
    (∀ c ∈ (render ps).head?, c = '/') ↔ ∀ p ∈ ps.head?, p.StartsWithSlash := by
  cases ps with
  | nil => simp [render]
  | cons p ps =>
    have hp : p.toChars ≠ [] := h p List.mem_cons_self
    have hrender : render (p :: ps) = p.toChars ++ render ps := List.flatMap_cons
    rw [hrender, List.head?_append_of_ne_nil _ hp, List.head?_cons, ← startsWithSlash_iff hp]
    simp

end Piece

namespace Template

open Piece

/-- **A segment is a placeholder exactly when a piece is, with slashes or nothing next to it.** -/
theorem hasSegment_iff_pieces {path name : String} (hname : IsName name.toList) :
    hasSegment path name = true ↔
      ∃ before after, pieces path = before ++ placeholder name :: after ∧
        (∀ p ∈ before.getLast?, p.EndsInSlash) ∧ ∀ p ∈ after.head?, p.StartsWithSlash := by
  have hslash : '/' ∉ token name.toList := by
    simpa [token] using hname.2.2.2
  rw [hasSegment_iff]
  constructor
  · intro h
    obtain ⟨before, after, hpath, hbefore, hafter⟩ := Text.exists_of_mem_splitAt h
    refine ⟨ofChars before, ofChars after, ?_, ?_, ?_⟩
    · rw [pieces, hpath, ofChars_append_token hname, String.ofList_toList]
    · rw [← getLast?_render fun p hp => (isCanonical_ofChars before).toChars_ne_nil hp,
        render_ofChars]
      exact hbefore
    · rw [← head?_render fun p hp => (isCanonical_ofChars after).toChars_ne_nil hp, render_ofChars]
      exact hafter
  · rintro ⟨before, after, hpieces, hbefore, hafter⟩
    have hne : ∀ p ∈ before ++ placeholder name :: after, p.toChars ≠ [] := by
      rw [← hpieces]
      exact fun p hp => (isCanonical_ofChars path.toList).toChars_ne_nil hp
    rw [← render_ofChars path.toList, ← pieces, hpieces, render_append_placeholder]
    refine Text.mem_splitAt hslash ((getLast?_render fun p hp => ?_).mpr hbefore)
      ((head?_render fun p hp => ?_).mpr hafter)
    · exact hne p (List.mem_append_left _ hp)
    · exact hne p (List.mem_append_right _ (List.mem_cons_of_mem _ hp))

/-- A placeholder before an extension is none. -/
theorem hasSegment_iff_pieces_extension :
    IsName "Id".toList ∧ IsName "name".toList ∧
      (∃ before after, pieces "//files/{name}.json/{Id}" = before ++ placeholder "Id" :: after ∧
        (∀ p ∈ before.getLast?, p.EndsInSlash) ∧ ∀ p ∈ after.head?, p.StartsWithSlash) ∧
      ¬ ∃ before after, pieces "//files/{name}.json/{Id}" = before ++ placeholder "name" :: after ∧
        (∀ p ∈ before.getLast?, p.EndsInSlash) ∧ ∀ p ∈ after.head?, p.StartsWithSlash := by
  have hId : IsName "Id".toList := by simp [IsName]
  have hname : IsName "name".toList := by simp [IsName]
  refine ⟨hId, hname, (hasSegment_iff_pieces hId).mp (by decide), ?_⟩
  exact mt (hasSegment_iff_pieces hname).mpr (by decide)

end Template

end ClientSynth
