import ClientSynth.Route.Template

/-!
# `ClientSynth.Proofs.Route.Filling` — what a filled path is

`fill` goes over the pieces of a path from the left and stops at the first placeholder without a
value. Both of its results are said here without the going over:

> if some placeholder has no value, the leftmost of them is the error; if all have one, the address is
> the text of the pieces with the values put in.
-/

set_option autoImplicit false

namespace ClientSynth.Template

/-- The names of the placeholders of a path from the left, as often as they occur. -/
def names (path : String) : List String :=
  (pieces path).filterMap placeholderName?

/-- What a piece becomes in an address when a text stands for each name. -/
def pieceText (text : String → String) : Piece → String
  | .literal t => t
  | .placeholder name => text name

/-- The path with a text in the place of each placeholder. -/
def substituted (path : String) (text : String → String) : String :=
  String.join ((pieces path).map (pieceText text))

/-! ## The two results -/

theorem fillPieces_eq_error {value : String → Option String} {name : String} :
    ∀ {ps : List Piece},
      (ps.filterMap placeholderName?).find? (fun n => (value n).isNone) = some name →
      fillPieces value ps = .error name
  | [], h => absurd h (by simp)
  | .literal t :: ps, h => by
    have ih : fillPieces value ps = .error name :=
      fillPieces_eq_error (by simpa [placeholderName?] using h)
    simp [fillPieces, ih, bind, Except.bind]
  | .placeholder n :: ps, h => by
    cases hv : value n with
    | none => simpa [fillPieces, placeholderName?, hv] using h
    | some text =>
      have ih : fillPieces value ps = .error name :=
        fillPieces_eq_error (by simpa [placeholderName?, hv] using h)
      simp [fillPieces, hv, ih, bind, Except.bind]

theorem fillPieces_eq_ok {value : String → Option String} {text : String → String} :
    ∀ {ps : List Piece}, (∀ n ∈ ps.filterMap placeholderName?, value n = some (text n)) →
      fillPieces value ps = .ok (String.join (ps.map (pieceText text)))
  | [], _ => by simp [fillPieces]
  | .literal t :: ps, h => by
    have ih : fillPieces value ps = .ok (String.join (ps.map (pieceText text))) :=
      fillPieces_eq_ok (by simpa [placeholderName?] using h)
    simp [fillPieces, ih, pieceText, bind, Except.bind, pure, Except.pure]
  | .placeholder n :: ps, h => by
    replace h : ∀ k ∈ n :: ps.filterMap placeholderName?, value k = some (text k) := h
    have hn : value n = some (text n) := h n List.mem_cons_self
    have ih : fillPieces value ps = .ok (String.join (ps.map (pieceText text))) :=
      fillPieces_eq_ok fun k hk => h k (List.mem_cons_of_mem _ hk)
    simp [fillPieces, hn, ih, pieceText, bind, Except.bind, pure, Except.pure]

/-- The error is the leftmost placeholder without a value. -/
theorem fill_eq_error {path name : String} {value : String → Option String}
    (h : (names path).find? (fun n => (value n).isNone) = some name) :
    fill path value = .error name :=
  fillPieces_eq_error h

/-- If all placeholders have values, the address is the path with these put in. -/
theorem fill_eq_ok {path : String} {value : String → Option String} {text : String → String}
    (h : ∀ n ∈ names path, value n = some (text n)) :
    fill path value = .ok (substituted path text) :=
  fillPieces_eq_ok h

/-! ## Names without repetition -/

theorem mem_firstOccurrences {name : String} :
    ∀ {names seen : List String},
      name ∈ firstOccurrences seen names ↔ name ∈ names ∧ name ∉ seen
  | [], seen => by simp [firstOccurrences]
  | n :: ns, seen => by
    unfold firstOccurrences
    split
    · rename_i hn
      rw [mem_firstOccurrences]
      constructor
      · exact fun ⟨h1, h2⟩ => ⟨List.mem_cons_of_mem _ h1, h2⟩
      · rintro ⟨h1, h2⟩
        rcases List.mem_cons.mp h1 with rfl | h1
        · exact absurd hn h2
        · exact ⟨h1, h2⟩
    · rename_i hn
      rw [List.mem_cons, mem_firstOccurrences, List.mem_cons, List.mem_cons]
      by_cases heq : name = n
      · subst heq
        simp [hn]
      · simp [heq]

theorem nodup_firstOccurrences :
    ∀ (names seen : List String), (firstOccurrences seen names).Nodup
  | [], _ => List.nodup_nil
  | n :: ns, seen => by
    unfold firstOccurrences
    split
    · exact nodup_firstOccurrences ns seen
    · refine List.nodup_cons.mpr ⟨fun h => ?_, nodup_firstOccurrences ns (n :: seen)⟩
      exact (mem_firstOccurrences.mp h).2 List.mem_cons_self

theorem nodup_placeholders (path : String) : (placeholders path).Nodup :=
  nodup_firstOccurrences _ _

theorem mem_placeholders_iff {path name : String} :
    name ∈ placeholders path ↔ name ∈ names path := by
  simp [placeholders, names, mem_firstOccurrences]

end ClientSynth.Template
