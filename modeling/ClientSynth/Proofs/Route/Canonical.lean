import ClientSynth.Proofs.Route.Segments
import Mathlib.Data.List.Chain

/-!
# `ClientSynth.Proofs.Route.Canonical` — cutting a path and rendering its pieces

A path can be made of pieces in many ways: a literal may be split in two, and what could be a
placeholder may be written as a literal. Of all these ways the cutting finds one, and it can be said
without the cutting which one that is: no literal is empty or next to another, and none has a
placeholder in it (`IsCanonical`).

> `pieces_render_inverse`: the pieces of a path are canonical and render to the path, and canonical
> pieces are those of the path that they render to.

All of it comes from one fact about the cutting. A placeholder is found wherever it stands, and what
is before and after it is cut as if it were alone (`scan_append_token`): a name has no opening brace in
it, so a brace before the placeholder can never take part of it for itself.
-/

set_option autoImplicit false

namespace ClientSynth

namespace Piece

/-! ## Canonical pieces -/

/-- A name that a placeholder can have. -/
def IsName (name : List Char) : Prop :=
  name ≠ [] ∧ '{' ∉ name ∧ '}' ∉ name ∧ '/' ∉ name

def IsLiteral : Piece → Prop
  | literal _ => True
  | placeholder _ => False

/-- A text in which no part is a placeholder. -/
def IsTokenless (text : List Char) : Prop :=
  ∀ name, IsName name → ¬ token name <:+: text

/-- The one way to make a path of pieces that loses no placeholder and has no piece too many. -/
structure IsCanonical (ps : List Piece) : Prop where
  ne_empty : ∀ text, literal text ∈ ps → text ≠ ""
  apart : ps.IsChain fun p q => ¬ (p.IsLiteral ∧ q.IsLiteral)
  names : ∀ name, placeholder name ∈ ps → IsName name.toList
  tokenless : ∀ text, literal text ∈ ps → IsTokenless text.toList

theorem isPlaceholderName_iff_isName {name : List Char} :
    isPlaceholderName name = true ↔ IsName name := by
  rw [isPlaceholderName_iff]
  unfold IsName
  constructor
  · rintro ⟨hne, h⟩
    exact ⟨hne, fun hc => (h _ hc).1 rfl, fun hc => (h _ hc).2.1 rfl, fun hc => (h _ hc).2.2 rfl⟩
  · rintro ⟨hne, hopen, hclose, hslash⟩
    refine ⟨hne, fun c hc => ⟨?_, ?_, ?_⟩⟩ <;> rintro rfl
    · exact hopen hc
    · exact hclose hc
    · exact hslash hc

namespace IsCanonical

theorem nil : IsCanonical [] :=
  ⟨by simp, .nil, by simp, by simp⟩

theorem tail {p : Piece} {ps : List Piece} (h : IsCanonical (p :: ps)) : IsCanonical ps where
  ne_empty text ht := h.ne_empty text (List.mem_cons_of_mem _ ht)
  apart := h.apart.tail
  names name hn := h.names name (List.mem_cons_of_mem _ hn)
  tokenless text ht := h.tokenless text (List.mem_cons_of_mem _ ht)

theorem cons_placeholder {name : String} {ps : List Piece} (hname : IsName name.toList)
    (h : IsCanonical ps) : IsCanonical (placeholder name :: ps) where
  ne_empty text ht := h.ne_empty text (by simpa using ht)
  apart := by
    refine List.isChain_cons.mpr ⟨fun q _ hboth => ?_, h.apart⟩
    exact hboth.1
  names other ho := by
    rcases List.mem_cons.mp ho with heq | ho
    · obtain rfl : other = name := by simpa using heq
      exact hname
    · exact h.names other ho
  tokenless text ht := h.tokenless text (by simpa using ht)

theorem consLiteral {text : List Char} {ps : List Piece} (htext : IsTokenless text)
    (hhead : ∀ p ∈ ps.head?, ¬ p.IsLiteral) (h : IsCanonical ps) :
    IsCanonical (consLiteral text ps) := by
  unfold Piece.consLiteral
  split
  · exact h
  · rename_i hne
    have hmem : ∀ other, literal other ∈ literal (String.ofList text) :: ps →
        other = String.ofList text ∨ literal other ∈ ps := by
      intro other ho
      simpa using ho
    refine ⟨fun other ho => ?_, ?_, fun name hn => ?_, fun other ho => ?_⟩
    · rcases hmem other ho with rfl | ho
      · simpa using hne
      · exact h.ne_empty other ho
    · exact List.isChain_cons.mpr ⟨fun q hq hboth => hhead q hq hboth.2, h.apart⟩
    · exact h.names name (by simpa using hn)
    · rcases hmem other ho with rfl | ho
      · simpa using htext
      · exact h.tokenless other ho

end IsCanonical

/-! ## What the cutting gives -/

theorem render_consLiteral (text : List Char) (ps : List Piece) :
    render (consLiteral text ps) = text ++ render ps := by
  unfold consLiteral
  split
  · rename_i h
    rw [List.isEmpty_iff.mp h]
    rfl
  · simp [render, toChars]

theorem render_append_placeholder (ps : List Piece) (name : String) (qs : List Piece) :
    render (ps ++ placeholder name :: qs) = render ps ++ (token name.toList ++ render qs) := by
  simp [render, toChars]

/-- Nothing of a text is lost. -/
theorem scan_render (cs : List Char) : (scan cs).1 ++ render (scan cs).2 = cs := by
  fun_induction scan cs with
  | case1 => rfl
  | case2 cs name rest hfound text ps hscan ih =>
    have hcs := (placeholder?_eq_some hfound).1
    rw [hscan] at ih
    have hrender : render (placeholder (String.ofList name) :: consLiteral text ps) =
        token name ++ render (consLiteral text ps) := by simp [render, toChars]
    rw [List.nil_append, hrender, render_consLiteral, ih, hcs]
    simp [token]
  | case3 cs _ text ps hscan ih =>
    rw [hscan] at ih
    exact congrArg ('{' :: ·) ih
  | case4 c cs _ text ps hscan ih =>
    rw [hscan] at ih
    exact congrArg (c :: ·) ih

theorem ofChars_nil : ofChars [] = [] := by
  rw [ofChars, scan]
  rfl

theorem render_ofChars (cs : List Char) : render (ofChars cs) = cs := by
  unfold ofChars
  rw [render_consLiteral]
  exact scan_render cs

/-- A brace that opens no placeholder adds none to a text that has none. -/
theorem IsTokenless.cons {c : Char} {text cs : List Char} (h : IsTokenless text)
    (hbegins : text <+: cs) (hc : c = '{' → placeholder? cs = none) :
    IsTokenless (c :: text) := by
  intro name hname htoken
  rcases List.infix_cons_iff.mp htoken with hstart | hlater
  · obtain ⟨rfl, hrest⟩ := List.cons_prefix_cons.mp hstart
    obtain ⟨rest, hcs⟩ := hrest.trans hbegins
    have hfound := placeholder?_token (isPlaceholderName_iff_isName.mpr hname) rest
    rw [← List.singleton_append, ← List.append_assoc, hcs, hc rfl] at hfound
    cases hfound
  · exact h name hname hlater

theorem isCanonical_scan (cs : List Char) :
    IsTokenless (scan cs).1 ∧ (∀ p ∈ (scan cs).2.head?, ¬ p.IsLiteral) ∧
      IsCanonical (scan cs).2 := by
  have hempty : IsTokenless [] := by
    intro name _ h
    exact absurd (List.infix_nil.mp h) (by simp [token])
  have hbegins : ∀ {cs text : List Char} {ps : List Piece}, scan cs = (text, ps) → text <+: cs := by
    intro cs text ps hscan
    have h := scan_render cs
    rw [hscan] at h
    exact ⟨render ps, h⟩
  fun_induction scan cs with
  | case1 => exact ⟨hempty, by simp, .nil⟩
  | case2 cs name rest hfound text ps hscan ih =>
    rw [hscan] at ih
    obtain ⟨htext, hhead, hps⟩ := ih
    have hname : IsName (String.ofList name).toList := by
      rw [String.toList_ofList]
      exact isPlaceholderName_iff_isName.mp (placeholder?_eq_some hfound).2
    refine ⟨hempty, ?_, .cons_placeholder hname (hps.consLiteral htext hhead)⟩
    intro p hp
    obtain rfl : placeholder (String.ofList name) = p := by simpa using hp
    exact id
  | case3 cs hnone text ps hscan ih =>
    rw [hscan] at ih
    exact ⟨ih.1.cons (hbegins hscan) fun _ => hnone, ih.2⟩
  | case4 c cs hc text ps hscan ih =>
    rw [hscan] at ih
    exact ⟨ih.1.cons (hbegins hscan) fun h => absurd h hc, ih.2⟩

theorem isCanonical_ofChars (cs : List Char) : IsCanonical (ofChars cs) := by
  obtain ⟨htext, hhead, hps⟩ := isCanonical_scan cs
  exact hps.consLiteral htext hhead

/-! ## What canonical pieces are cut into -/

theorem placeholder?_append {cs name rest : List Char} (h : placeholder? cs = some (name, rest))
    (after : List Char) : placeholder? (cs ++ after) = some (name, rest ++ after) := by
  obtain ⟨rfl, hname⟩ := placeholder?_eq_some h
  rw [List.append_assoc, List.cons_append]
  exact placeholder?_token hname _

/-- A brace that opens no placeholder does not open one with the help of a later brace. -/
theorem placeholder?_append_brace {cs : List Char} (h : placeholder? cs = none)
    (after : List Char) : placeholder? (cs ++ '{' :: after) = none := by
  cases hfound : placeholder? (cs ++ '{' :: after) with
  | none => rfl
  | some found =>
    obtain ⟨name, rest⟩ := found
    obtain ⟨heq, hname⟩ := placeholder?_eq_some hfound
    rcases List.append_eq_append_iff.mp heq with ⟨inner, rfl, hinner⟩ | ⟨inner, rfl, hinner⟩
    · -- The name goes over the later brace.
      cases inner with
      | nil => exact absurd (List.cons.inj hinner).1 (by decide)
      | cons c inner =>
        obtain ⟨rfl, -⟩ := List.cons.inj hinner
        exact absurd (by simp) (isPlaceholderName_iff_isName.mp hname).2.1
    · -- The name ends before it, so it was there already.
      cases inner with
      | nil => exact absurd (List.cons.inj hinner).1 (by decide)
      | cons c inner =>
        obtain ⟨rfl, -⟩ := List.cons.inj hinner
        rw [placeholder?_token hname] at h
        cases h

theorem consLiteral_append (text : List Char) (ps qs : List Piece) :
    consLiteral text (ps ++ qs) = consLiteral text ps ++ qs := by
  unfold consLiteral
  split <;> rfl

/-- **A placeholder is found wherever it stands**, and it parts what is before from what is after. -/
theorem scan_append_token {name : List Char} (hname : IsName name) (before after : List Char) :
    scan (before ++ (token name ++ after)) =
      ((scan before).1, (scan before).2 ++ placeholder (String.ofList name) :: ofChars after) := by
  have htoken : token name ++ after = '{' :: (name ++ '}' :: after) := by simp [token]
  fun_induction scan before with
  | case1 =>
    rw [List.nil_append, htoken, scan, if_pos rfl,
      placeholder?_token (isPlaceholderName_iff_isName.mpr hname)]
    rfl
  | case2 cs found rest hfound text ps hscan ih =>
    rw [hscan] at ih
    rw [List.cons_append, scan, if_pos rfl, placeholder?_append hfound]
    dsimp only
    rw [ih]
    simp [consLiteral_append]
  | case3 cs hnone text ps hscan ih =>
    rw [hscan] at ih
    rw [List.cons_append, scan, if_pos rfl, htoken, placeholder?_append_brace hnone, ← htoken]
    dsimp only
    rw [ih]
  | case4 c cs hc text ps hscan ih =>
    rw [hscan] at ih
    rw [List.cons_append, scan, if_neg hc, ih]

theorem ofChars_append_token {name : List Char} (hname : IsName name) (before after : List Char) :
    ofChars (before ++ (token name ++ after)) =
      ofChars before ++ placeholder (String.ofList name) :: ofChars after := by
  unfold ofChars
  rw [scan_append_token hname before after]
  exact consLiteral_append _ _ _

/-- A text without placeholders is one literal. -/
theorem ofChars_of_isTokenless {text : List Char} (h : IsTokenless text) :
    ofChars text = consLiteral text [] := by
  have hscan : ∀ cs, IsTokenless cs → scan cs = (cs, []) := by
    intro cs
    fun_induction scan cs with
    | case1 => exact fun _ => rfl
    | case2 cs name rest hfound text ps hscan ih =>
      intro h
      obtain ⟨rfl, hname⟩ := placeholder?_eq_some hfound
      refine absurd ?_ (h name (isPlaceholderName_iff_isName.mp hname))
      exact ⟨[], rest, by simp [token]⟩
    | case3 cs _ text ps hscan ih =>
      intro h
      have htail := ih fun name hname hin => h name hname (List.infix_cons hin)
      rw [hscan] at htail
      obtain ⟨rfl, rfl⟩ := Prod.mk.inj htail
      rfl
    | case4 c cs _ text ps hscan ih =>
      intro h
      have htail := ih fun name hname hin => h name hname (List.infix_cons hin)
      rw [hscan] at htail
      obtain ⟨rfl, rfl⟩ := Prod.mk.inj htail
      rfl
  rw [ofChars, hscan text h]

theorem ofChars_literal {text : String} (hne : text ≠ "") (h : IsTokenless text.toList) :
    ofChars text.toList = [literal text] := by
  rw [ofChars_of_isTokenless h, consLiteral, if_neg (by simpa using hne), String.ofList_toList]

theorem ofChars_render : ∀ {ps : List Piece}, IsCanonical ps → ofChars (render ps) = ps
  | [], _ => ofChars_nil
  | placeholder name :: ps, h => by
    have hfound := ofChars_append_token (h.names name (by simp)) [] (render ps)
    rw [String.ofList_toList, ofChars_render h.tail, ofChars_nil] at hfound
    exact hfound
  | [literal text], h => by
    have hrender : render [literal text] = text.toList := by simp [render, toChars]
    rw [hrender]
    exact ofChars_literal (h.ne_empty text (by simp)) (h.tokenless text (by simp))
  | literal text :: placeholder name :: ps, h => by
    have hfound := ofChars_append_token (h.names name (by simp)) text.toList (render ps)
    rw [String.ofList_toList, ofChars_render h.tail.tail,
      ofChars_literal (h.ne_empty text (by simp)) (h.tokenless text (by simp))] at hfound
    exact hfound
  | literal text :: literal other :: ps, h =>
    absurd ⟨trivial, trivial⟩ (List.isChain_cons_cons.mp h.apart).1

theorem isCanonical_iff {ps : List Piece} : IsCanonical ps ↔ ofChars (render ps) = ps :=
  ⟨ofChars_render, fun h => h ▸ isCanonical_ofChars _⟩

instance (ps : List Piece) : Decidable (IsCanonical ps) :=
  decidable_of_iff _ isCanonical_iff.symm

end Piece

namespace Template

open Piece

/-- **Cutting and rendering are inverse.** The pieces of a path are canonical and render to it,
canonical pieces are the pieces of what they render to, and a placeholder is found wherever it stands,
the path before it and the path after it being cut each by itself. -/
theorem pieces_render_inverse :
    (∀ path, IsCanonical (pieces path) ∧ String.ofList (render (pieces path)) = path) ∧
    (∀ ps, IsCanonical ps → pieces (String.ofList (render ps)) = ps) ∧
    ∀ before name after : String, IsName name.toList →
      pieces (before ++ "\x7b" ++ name ++ "\x7d" ++ after) =
        pieces before ++ placeholder name :: pieces after := by
  refine ⟨fun path => ⟨isCanonical_ofChars _, ?_⟩, fun ps h => ?_, fun before name after h => ?_⟩
  · rw [pieces, render_ofChars, String.ofList_toList]
  · rw [pieces, String.toList_ofList, ofChars_render h]
  · have hfound := ofChars_append_token h before.toList after.toList
    rw [String.ofList_toList] at hfound
    simpa [pieces, token] using hfound

/-- Braces that are not closed, closed twice, empty, or around a slash are literal text. -/
def strayBraces : List Piece :=
  [.literal "/a\x7bb\x7b", .placeholder "c", .placeholder "d", .literal "\x7d/\x7b\x7d/\x7be/f\x7d"]

theorem pieces_render_inverse_stray :
    IsCanonical strayBraces ∧ pieces (String.ofList (render strayBraces)) = strayBraces ∧
      IsName "c".toList ∧ pieces ("/a\x7bb" ++ "\x7b" ++ "c" ++ "\x7d" ++ "{d}") =
        pieces "/a\x7bb" ++ placeholder "c" :: pieces "{d}" := by
  have hcanonical : IsCanonical strayBraces := by decide +kernel
  have hname : IsName "c".toList := by simp [IsName]
  obtain ⟨-, hrender, hfound⟩ := pieces_render_inverse
  exact ⟨hcanonical, hrender strayBraces hcanonical, hname, hfound "/a\x7bb" "c" "{d}" hname⟩

end Template

end ClientSynth
