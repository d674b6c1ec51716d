import ClientSynth.Proofs.Text.Lines
import ClientSynth.Proofs.TypeExpr.Pieces

/-!
# `ClientSynth.Proofs.TypeExpr.Splitting` — parameter lists and what they are split into

`splitParams` finds its cuts by a depth that it counts along the way. What the cuts are can be said
without counting along: brackets match up (`IsBalanced`) when no beginning of the text closes more of
them than it opens and the whole text closes all, and a fragment (`IsFragment`) has no comma besides
where some are open.

> `splitParamTexts_undoes_joining`: splitting fragments that are joined with commas gives the
> fragments, trimmed, and a text is joined from fragments just when its brackets match up, and then in
> one way only.

Two walks carry this, the bracket test (`balancedFrom_iff`) and the walk of the cutter (`passes_iff`).
Both are met at any depth; the statements about whole texts are those for depth zero.
-/

set_option autoImplicit false

namespace ClientSynth.TypeExpr

open ClientSynth.Text

/-- The brackets that a text opens, less those that it closes. -/
def depth (cs : List Char) : Int :=
  (cs.count '<' : Int) - cs.count '>'

/-- Brackets match up: none is closed that is not open, and none stays open. -/
structure IsBalanced (cs : List Char) : Prop where
  nonneg : ∀ before, before <+: cs → 0 ≤ depth before
  closed : depth cs = 0

/-- A text whose brackets match up and all of whose commas are in brackets. -/
structure IsFragment (cs : List Char) : Prop extends IsBalanced cs where
  enclosed : ∀ before after, cs = before ++ ',' :: after → depth before ≠ 0

/-! ## Depth along a text -/

@[simp]
theorem depth_nil : depth [] = 0 := rfl

theorem depth_cons (c : Char) (cs : List Char) : depth (c :: cs) = depthStep c + depth cs := by
  unfold depth depthStep
  rw [List.count_cons, List.count_cons]
  by_cases hopen : c = '<'
  · subst hopen
    simp
    omega
  · by_cases hclose : c = '>'
    · subst hclose
      simp
      omega
    · simp [hopen, hclose]

theorem forall_prefix_cons {P : List Char → Prop} {c : Char} {cs : List Char} :
    (∀ before, before <+: c :: cs → P before) ↔
      P [] ∧ ∀ before, before <+: cs → P (c :: before) := by
  constructor
  · intro h
    exact ⟨h [] List.nil_prefix, fun before hb => h _ (List.cons_prefix_cons.mpr ⟨rfl, hb⟩)⟩
  · intro ⟨hnil, hcons⟩ before hb
    rcases List.prefix_cons_iff.mp hb with rfl | ⟨rest, rfl, hrest⟩
    · exact hnil
    · exact hcons rest hrest

/-- A walk that begins in `d` open brackets closes none that is not open. -/
def StaysOpen (d : Int) (cs : List Char) : Prop :=
  ∀ before, before <+: cs → 0 ≤ d + depth before

/-- A walk that begins in `d` open brackets meets all commas in brackets. -/
def Encloses (d : Int) (cs : List Char) : Prop :=
  ∀ before after, cs = before ++ ',' :: after → d + depth before ≠ 0

theorem staysOpen_nil {d : Int} : StaysOpen d [] ↔ 0 ≤ d := by
  simp [StaysOpen]

theorem staysOpen_cons {d : Int} {c : Char} {cs : List Char} :
    StaysOpen d (c :: cs) ↔ 0 ≤ d ∧ StaysOpen (d + depthStep c) cs := by
  unfold StaysOpen
  rw [forall_prefix_cons]
  simp only [depth_cons, depth_nil, Int.add_zero, Int.add_assoc]

theorem StaysOpen.nonneg {d : Int} {cs : List Char} (h : StaysOpen d cs) : 0 ≤ d := by
  simpa using h [] List.nil_prefix

theorem encloses_nil (d : Int) : Encloses d [] := by
  intro before after h
  simp at h

theorem encloses_cons {d : Int} {c : Char} {cs : List Char} :
    Encloses d (c :: cs) ↔ (c = ',' → d ≠ 0) ∧ Encloses (d + depthStep c) cs := by
  constructor
  · intro h
    constructor
    · intro hc
      simpa using h [] cs (by rw [hc]; rfl)
    · intro before after hcs
      have hlater := h (c :: before) after (by rw [hcs]; rfl)
      rwa [depth_cons, ← Int.add_assoc] at hlater
  · intro ⟨hcomma, hcs⟩ before after hsplit
    cases before with
    | nil =>
      rw [depth_nil, Int.add_zero]
      exact hcomma (List.cons.inj hsplit).1
    | cons b before =>
      obtain ⟨rfl, hrest⟩ := List.cons.inj hsplit
      rw [depth_cons, ← Int.add_assoc]
      exact hcs before after hrest

/-! ## The walks of the reader -/

theorem balancedFrom_iff (d : Nat) (cs : List Char) :
    balancedFrom d cs = true ↔ StaysOpen d cs ∧ d + depth cs = 0 := by
  fun_induction balancedFrom d cs with
  | case1 d => simp [staysOpen_nil]
  | case2 d cs ih =>
    rw [staysOpen_cons, depth_cons, ← Int.add_assoc, depth_opened, ih]
    simp
  | case3 cs =>
    rw [staysOpen_cons]
    constructor
    · intro h
      simp at h
    · intro h
      have hbelow : (0 : Int) ≤ ((0 : Nat) : Int) + -1 := h.1.2.nonneg
      omega
  | case4 cs d _ ih =>
    rw [staysOpen_cons, depth_cons, ← Int.add_assoc, depth_closed, ih]
    simp
    omega
  | case5 d c cs hopen hclose ih =>
    rw [staysOpen_cons, depth_cons, depthStep_eq_zero hopen hclose, Int.add_zero, ih]
    simp

theorem passes_iff (d e : Nat) (cs : List Char) :
    Passes d e cs ↔ StaysOpen d cs ∧ d + depth cs = e ∧ Encloses d cs := by
  constructor
  · intro h
    induction h with
    | nil d => simp [staysOpen_nil, encloses_nil]
    | opening _ ih =>
      rw [staysOpen_cons, encloses_cons, depth_cons, ← Int.add_assoc, depth_opened]
      simpa using ih
    | closing _ ih =>
      rw [staysOpen_cons, encloses_cons, depth_cons, ← Int.add_assoc, depth_closed]
      exact ⟨⟨by omega, ih.1⟩, ih.2.1, fun hcomma => absurd hcomma (by decide), ih.2.2⟩
    | comma _ ih =>
      rw [staysOpen_cons, encloses_cons, depth_cons, ← Int.add_assoc,
        depthStep_eq_zero (by decide) (by decide), Int.add_zero]
      exact ⟨⟨by omega, ih.1⟩, ih.2.1, fun _ => by omega, ih.2.2⟩
    | inert hc _ ih =>
      rw [staysOpen_cons, encloses_cons, depth_cons, depthStep_eq_zero hc.1 hc.2.1, Int.zero_add,
        Int.add_zero]
      exact ⟨⟨by omega, ih.1⟩, ih.2.1, fun hcomma => absurd hcomma hc.2.2, ih.2.2⟩
  · intro h
    induction cs generalizing d with
    | nil =>
      obtain rfl : d = e := by
        have hend := h.2.1
        rw [depth_nil] at hend
        omega
      exact .nil d
    | cons c cs ih =>
      rw [staysOpen_cons, encloses_cons, depth_cons, ← Int.add_assoc] at h
      obtain ⟨⟨-, hstays⟩, hend, hcomma, hencloses⟩ := h
      by_cases hopen : c = '<'
      · subst hopen
        rw [depth_opened] at hstays hend hencloses
        exact .opening (ih _ ⟨hstays, hend, hencloses⟩)
      · by_cases hclose : c = '>'
        · subst hclose
          cases d with
          | zero =>
            have hbelow : (0 : Int) ≤ ((0 : Nat) : Int) + -1 := hstays.nonneg
            omega
          | succ d =>
            rw [depth_closed] at hstays hend hencloses
            exact .closing (ih _ ⟨hstays, hend, hencloses⟩)
        · rw [depthStep_eq_zero hopen hclose, Int.add_zero] at hstays hend hencloses
          have hrest : Passes d e cs := ih _ ⟨hstays, hend, hencloses⟩
          by_cases hc : c = ','
          · subst hc
            cases d with
            | zero => exact absurd rfl (hcomma rfl)
            | succ d => exact .comma hrest
          · exact .inert ⟨hopen, hclose, hc⟩ hrest

theorem isBalanced_iff_staysOpen (cs : List Char) :
    IsBalanced cs ↔ StaysOpen 0 cs ∧ depth cs = 0 := by
  have hzero : StaysOpen 0 cs ↔ ∀ before, before <+: cs → 0 ≤ depth before := by
    simp [StaysOpen]
  rw [hzero]
  exact ⟨fun h => ⟨h.nonneg, h.closed⟩, fun h => ⟨h.1, h.2⟩⟩

/-- **The bracket test finds out whether brackets match up.** -/
theorem balanced_iff (cs : List Char) : balanced cs = true ↔ IsBalanced cs := by
  rw [isBalanced_iff_staysOpen, balanced, balancedFrom_iff]
  simp

theorem isPiece_iff (cs : List Char) : IsPiece cs ↔ IsFragment cs := by
  have hfragment : IsFragment cs ↔ IsBalanced cs ∧ Encloses 0 cs := by
    simp only [Encloses, Int.zero_add]
    exact ⟨fun h => ⟨h.toIsBalanced, h.enclosed⟩, fun h => ⟨h.1, h.2⟩⟩
  rw [hfragment, isBalanced_iff_staysOpen, IsPiece, passes_iff, and_assoc]
  simp

instance (cs : List Char) : Decidable (IsBalanced cs) :=
  decidable_of_iff _ (balanced_iff cs)

/-! ## Cutting a text whose brackets match up -/

/-- The first part that is cut off, from `d` open brackets on, closes these, and the others are
pieces. -/
theorem passes_cutTop {d : Nat} {cs : List Char} (h : balancedFrom d cs = true) :
    Passes d 0 (cutTop d cs).1 ∧ ∀ part ∈ (cutTop d cs).2, IsPiece part := by
  fun_induction balancedFrom d cs with
  | case1 d =>
    obtain rfl : d = 0 := by simpa using h
    exact ⟨.nil 0, by simp [cutTop]⟩
  | case2 d cs ih =>
    rw [cutTop, if_neg (by simp), depth_opened]
    obtain ⟨hfirst, hrest⟩ := ih h
    exact ⟨.opening hfirst, hrest⟩
  | case3 cs => simp at h
  | case4 cs d _ ih =>
    rw [cutTop, if_neg (by simp), depth_closed]
    obtain ⟨hfirst, hrest⟩ := ih h
    exact ⟨.closing hfirst, hrest⟩
  | case5 d c cs hopen hclose ih =>
    obtain ⟨hfirst, hrest⟩ := ih h
    rw [cutTop]
    by_cases hc : c = ','
    · subst hc
      cases d with
      | zero =>
        -- What was the first part of the rest is now the second part.
        rw [if_pos ⟨rfl, rfl⟩]
        exact ⟨.nil 0, List.forall_mem_cons.mpr ⟨hfirst, hrest⟩⟩
      | succ d =>
        rw [if_neg (by omega), depthStep_eq_zero hopen hclose, Int.add_zero]
        exact ⟨.comma hfirst, hrest⟩
    · rw [if_neg (fun h => hc h.1), depthStep_eq_zero hopen hclose, Int.add_zero]
      exact ⟨.inert ⟨hopen, hclose, hc⟩ hfirst, hrest⟩

/-- A fragment is a text that the bracket test accepts and that is not cut. -/
theorem isFragment_iff_cutTop (cs : List Char) :
    IsFragment cs ↔ balanced cs = true ∧ (cutTop 0 cs).2 = [] := by
  rw [← isPiece_iff]
  constructor
  · intro h
    have hcut := h.cutTop_append []
    have hbalanced := h.balancedFrom_append []
    rw [List.append_nil] at hcut hbalanced
    exact ⟨hbalanced, congrArg Prod.snd hcut⟩
  · intro ⟨hbalanced, hcut⟩
    have hpasses := (passes_cutTop hbalanced).1
    have hjoin := joinWith_cutTop 0 cs
    rw [hcut] at hjoin
    exact hjoin ▸ hpasses

instance (cs : List Char) : Decidable (IsFragment cs) :=
  decidable_of_iff _ (isFragment_iff_cutTop cs).symm

theorem existsUnique_pieces {cs : List Char} (h : IsBalanced cs) :
    ∃! parts : List (List Char), parts ≠ [] ∧ (∀ part ∈ parts, IsPiece part) ∧
      joinWith [','] parts = cs := by
  obtain ⟨hfirst, hrest⟩ := passes_cutTop ((balanced_iff cs).mpr h)
  refine ⟨(cutTop 0 cs).1 :: (cutTop 0 cs).2, ⟨List.cons_ne_nil _ _, ?_, joinWith_cutTop 0 cs⟩, ?_⟩
  · exact List.forall_mem_cons.mpr ⟨hfirst, hrest⟩
  · intro parts ⟨hne, hpieces, hjoin⟩
    cases parts with
    | nil => exact absurd rfl hne
    | cons part parts => rw [← hjoin, cutTop_joinWith hpieces]

/-! ## Strings -/

theorem toList_intercalate_comma (parts : List String) :
    (",".intercalate parts).toList = joinWith [','] (parts.map String.toList) := by
  rw [String.toList_intercalate, intercalate_eq_joinWith]
  rfl

theorem isPiece_of_fragments {parts : List String} (h : ∀ part ∈ parts, IsFragment part.toList) :
    ∀ cs ∈ parts.map String.toList, IsPiece cs := by
  intro cs hcs
  obtain ⟨part, hpart, rfl⟩ := List.mem_map.mp hcs
  exact (isPiece_iff _).mpr (h part hpart)

theorem splitParams_intercalate {parts : List String} (hne : parts ≠ [])
    (h : ∀ part ∈ parts, IsFragment part.toList) :
    splitParams (",".intercalate parts).toList =
      (if parts.getLast? = some "" then parts.dropLast else parts).map fun part =>
        trim part.toList := by
  have hlast : (parts.map String.toList).getLast? = some [] ↔ parts.getLast? = some "" := by
    rw [List.getLast?_map, Option.map_eq_some_iff]
    constructor
    · intro ⟨last, hlast, hnil⟩
      rw [hlast, String.toList_eq_nil_iff.mp hnil]
    · intro hlast
      exact ⟨"", hlast, rfl⟩
  rw [toList_intercalate_comma, splitParams_joinWith (by simpa using hne) (isPiece_of_fragments h)]
  by_cases hempty : parts.getLast? = some ""
  · rw [if_pos (hlast.mpr hempty), if_pos hempty, ← List.map_dropLast, List.map_map]
    rfl
  · rw [if_neg (mt hlast.mp hempty), if_neg hempty, List.map_map]
    rfl

theorem isBalanced_intercalate {parts : List String}
    (h : ∀ part ∈ parts, IsFragment part.toList) : IsBalanced (",".intercalate parts).toList := by
  rw [← balanced_iff, toList_intercalate_comma]
  exact balanced_joinWith (isPiece_of_fragments h)

theorem existsUnique_fragments {s : String} (h : IsBalanced s.toList) :
    ∃! parts : List String, parts ≠ [] ∧ (∀ part ∈ parts, IsFragment part.toList) ∧
      ",".intercalate parts = s := by
  obtain ⟨pieces, ⟨hne, hpieces, hjoin⟩, hunique⟩ := existsUnique_pieces h
  have hof : (pieces.map String.ofList).map String.toList = pieces := by
    simp [Function.comp_def]
  refine ⟨pieces.map String.ofList, ⟨by simpa using hne, ?_, ?_⟩, ?_⟩
  · intro part hpart
    obtain ⟨cs, hcs, rfl⟩ := List.mem_map.mp hpart
    rw [String.toList_ofList, ← isPiece_iff]
    exact hpieces cs hcs
  · rw [← String.toList_inj, toList_intercalate_comma, hof, hjoin]
  · intro parts ⟨hne', hparts, hjoin'⟩
    have heq : parts.map String.toList = pieces := by
      apply hunique
      refine ⟨by simpa using hne', isPiece_of_fragments hparts, ?_⟩
      rw [← toList_intercalate_comma, hjoin']
    rw [← heq]
    simp [Function.comp_def]

/-- **Splitting undoes joining.** Fragments that are joined with commas are split into the fragments,
each of them trimmed, without the last one if that is the empty text. The texts that are joined from
fragments are those whose brackets match up, as the bracket test of the reader finds out, and each of
them is joined from one list of fragments only. -/
theorem splitParamTexts_undoes_joining :
    (∀ parts : List String, parts ≠ [] → (∀ part ∈ parts, IsFragment part.toList) →
      splitParamTexts (",".intercalate parts) =
        (if parts.getLast? = some "" then parts.dropLast else parts).map fun part =>
          String.ofList (trim part.toList)) ∧
    ∀ s : String, (balanced s.toList = true ↔ IsBalanced s.toList) ∧
      (IsBalanced s.toList ↔
        ∃! parts : List String, parts ≠ [] ∧ (∀ part ∈ parts, IsFragment part.toList) ∧
          ",".intercalate parts = s) := by
  constructor
  · intro parts hne h
    rw [splitParamTexts, splitParams_intercalate hne h, List.map_map]
    rfl
  · intro s
    refine ⟨balanced_iff s.toList, existsUnique_fragments, ?_⟩
    intro ⟨parts, ⟨_, hparts, hjoin⟩, _⟩
    rw [← hjoin]
    exact isBalanced_intercalate hparts

/-- A comma in brackets, blanks around a fragment, and a comma at the end. -/
theorem splitParamTexts_undoes_joining_nested :
    (∀ part ∈ ["u64", " Page<Widget, Cursor>\t", ""], IsFragment part.toList) ∧
      splitParamTexts "u64, Page<Widget, Cursor>\t," = ["u64", "Page<Widget, Cursor>"] := by
  have hfragments : ∀ part ∈ ["u64", " Page<Widget, Cursor>\t", ""], IsFragment part.toList := by
    decide
  have hsplit := splitParamTexts_undoes_joining.1 _ (List.cons_ne_nil _ _) hfragments
  have hjoin : ",".intercalate ["u64", " Page<Widget, Cursor>\t", ""] =
      "u64, Page<Widget, Cursor>\t," := by
    decide
  rw [hjoin] at hsplit
  exact ⟨hfragments, hsplit.trans (by decide)⟩

end ClientSynth.TypeExpr
