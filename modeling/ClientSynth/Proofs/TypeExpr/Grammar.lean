import ClientSynth.Proofs.Lists
import ClientSynth.Proofs.Text.Trimming
import ClientSynth.Proofs.TypeExpr.Pieces

/-!
# `ClientSynth.Proofs.TypeExpr.Grammar` — the grammar of type texts

The reader cuts a text at its first `<` and its last `>`, tests the brackets of what is between as a
whole and cuts that at the commas of depth zero. `Derives` is the grammar that this comes to,
without any cutting, depth or test. The headline of this file is

> `ofString?_eq_some_iff_derives`: a text denotes a type exactly when the grammar derives the type
> from it.

From the reader to the grammar, what was cut is joined again (`exists_splitParams`), and the bracket
test is not needed. The other way it is what has to be shown: a text that the grammar derives is a
piece (`Derives.isPiece`), so the cuts that the reader makes are the places where the grammar
joined.
-/

set_option autoImplicit false

namespace ClientSynth.TypeExpr

open ClientSynth.Text

/-! ## The grammar -/

/-- The texts of a type: `()`; a name; or a name and, in angle brackets, one type text or more with
commas between them and perhaps one before the closing bracket. Blanks may stand around any of
them. -/
inductive Derives : List Char → TypeExpr → Prop
  | unit {cs : List Char} (h : trim cs = "()".toList) : Derives cs TypeExpr.unit
  | name {cs : List Char} {n : String} (h : trim cs = n.toList) (hn : IsTypeName n.toList) :
      Derives cs (named n)
  | apply {cs base tail : List Char} {n : String} {parts : List (List Char)} {args : List TypeExpr}
      (h : trim cs = base ++ ['<'] ++ joinWith [','] parts ++ tail ++ ['>'])
      (hbase : '<' ∉ base) (hn : trim base = n.toList) (hname : IsTypeName n.toList)
      (hparts : parts ≠ []) (htail : tail = [] ∨ tail = [','])
      (hargs : List.Forall₂ Derives parts args) :
      Derives cs (app n args)

/-- Blanks around a text do not matter. -/
theorem Derives.of_trim_eq {cs cs' : List Char} {t : TypeExpr} (h : Derives cs t)
    (htrim : trim cs' = trim cs) : Derives cs' t := by
  cases h with
  | unit h => exact .unit (htrim.trans h)
  | name h hn => exact .name (htrim.trans h) hn
  | apply h hbase hn hname hparts htail hargs =>
    exact .apply (htrim.trans h) hbase hn hname hparts htail hargs

theorem length_le_of_mem_joinWith {sep part : List Char} {parts : List (List Char)}
    (h : part ∈ parts) : part.length ≤ (joinWith sep parts).length :=
  (infix_joinWith h).length_le

/-- Induction over derivations: the parts of a text in brackets have the property already. -/
theorem Derives.induct {motive : (cs : List Char) → (t : TypeExpr) → Derives cs t → Prop}
    (unit : ∀ (cs : List Char) (h : trim cs = "()".toList), motive cs TypeExpr.unit (.unit h))
    (name : ∀ (cs : List Char) (n : String) (h : trim cs = n.toList) (hn : IsTypeName n.toList),
      motive cs (named n) (.name h hn))
    (apply : ∀ (cs base tail : List Char) (n : String) (parts : List (List Char))
      (args : List TypeExpr)
      (h : trim cs = base ++ ['<'] ++ joinWith [','] parts ++ tail ++ ['>'])
      (hbase : '<' ∉ base) (hn : trim base = n.toList) (hname : IsTypeName n.toList)
      (hparts : parts ≠ []) (htail : tail = [] ∨ tail = [','])
      (hargs : List.Forall₂ Derives parts args),
      List.Forall₂ (fun part t => ∃ h : Derives part t, motive part t h) parts args →
        motive cs (app n args) (.apply h hbase hn hname hparts htail hargs))
    {cs : List Char} {t : TypeExpr} (h : Derives cs t) : motive cs t h := by
  -- The parts are shorter than the text, so the induction is on its length.
  induction hlen : cs.length using Nat.strong_induction_on generalizing cs t with
  | _ len ih =>
    subst hlen
    cases h with
    | unit h => exact unit cs h
    | name h hn => exact name cs _ h hn
    | @apply _ base tail n parts args h hbase hn hname hparts htail hargs =>
      refine apply cs base tail n parts args h hbase hn hname hparts htail hargs ?_
      have hshorter : ∀ part ∈ parts, part.length < cs.length := by
        intro part hpart
        have hle : part.length ≤ (joinWith [','] parts).length := length_le_of_mem_joinWith hpart
        have htext := congrArg List.length h
        have htrim := length_trim_le cs
        simp only [List.length_append, List.length_cons, List.length_nil] at htext
        omega
      have hboth := (List.forall₂_and_left parts args).mpr ⟨hshorter, hargs⟩
      exact hboth.imp fun part t ⟨hlt, ht⟩ => ⟨ht, ih _ hlt ht rfl⟩

/-! ## What the grammar derives -/

theorem isInert_of_toNat {c : Char}
    (h : (48 ≤ c.toNat ∧ c.toNat ≤ 58) ∨ (65 ≤ c.toNat ∧ c.toNat ≤ 90) ∨ c.toNat = 95 ∨
      (97 ≤ c.toNat ∧ c.toNat ≤ 122)) : IsInert c := by
  refine ⟨?_, ?_, ?_⟩ <;>
    · rintro rfl
      exact absurd h (by decide)

theorem isInert_of_isBlank {c : Char} (h : isBlank c = true) : IsInert c := by
  refine ⟨?_, ?_, ?_⟩ <;>
    · rintro rfl
      exact absurd h (by decide)

/-- What a name is made of, by codes: what an identifier is made of, and colons. -/
theorem IsTypeName.toNat {cs : List Char} (h : IsTypeName cs) {c : Char} (hc : c ∈ cs) :
    (48 ≤ c.toNat ∧ c.toNat ≤ 58) ∨ (65 ≤ c.toNat ∧ c.toNat ≤ 90) ∨ c.toNat = 95 ∨
      (97 ≤ c.toNat ∧ c.toNat ≤ 122) := by
  obtain ⟨parts, -, hparts, rfl⟩ := h
  rcases mem_joinWith hc with hc | ⟨part, hpart, hc⟩
  · obtain rfl : c = ':' := by simpa using hc
    decide
  · have := (hparts part hpart).toNat hc
    omega

theorem IsTypeName.isInert {cs : List Char} (h : IsTypeName cs) : ∀ c ∈ cs, IsInert c :=
  fun _ hc => isInert_of_toNat (h.toNat hc)

theorem IsTypeName.isBlank {cs : List Char} (h : IsTypeName cs) :
    ∀ c ∈ cs, isBlank c = false := by
  intro c hc
  have hcode := h.toNat hc
  exact isBlank_eq_false (by omega) (by omega)

theorem IsTypeName.ne_nil {cs : List Char} (h : IsTypeName cs) : cs ≠ [] := by
  obtain ⟨parts, hne, hparts, rfl⟩ := h
  cases parts with
  | nil => exact absurd rfl hne
  | cons part parts =>
    obtain ⟨first, rest, rfl, -, -⟩ := hparts part List.mem_cons_self
    rw [joinWith_cons_cons]
    exact List.cons_ne_nil _ _

/-- A text that starts with a name and ends with a bracket has no blanks around it. -/
theorem IsTypeName.isTrimmed_append {n : List Char} (h : IsTypeName n) (mid : List Char) :
    IsTrimmed (n ++ mid ++ ['>']) := by
  constructor
  · intro c hc
    cases n with
    | nil => exact absurd rfl h.ne_nil
    | cons first rest =>
      obtain rfl : first = c := by simpa using hc
      exact h.isBlank first List.mem_cons_self
  · intro c hc
    rw [List.getLast?_concat, Option.mem_some_iff] at hc
    rw [← hc]
    rfl

theorem isInert_of_trim {cs : List Char} (h : ∀ c ∈ trim cs, IsInert c) : ∀ c ∈ cs, IsInert c := by
  obtain ⟨before, after, hcs, hbefore, hafter⟩ := trim_spec cs
  rw [hcs, List.forall_mem_append, List.forall_mem_append]
  exact ⟨⟨fun c hc => isInert_of_isBlank (hbefore c hc), h⟩,
    fun c hc => isInert_of_isBlank (hafter c hc)⟩

/-- Blanks around a text are nothing to the walk through it. -/
theorem passes_of_trim {cs : List Char} {d e : Nat} (h : Passes d e (trim cs)) : Passes d e cs := by
  obtain ⟨before, after, hcs, hbefore, hafter⟩ := trim_spec cs
  rw [hcs]
  have hstart : Passes d d before := .of_inert fun c hc => isInert_of_isBlank (hbefore c hc)
  have hend : Passes e e after := .of_inert fun c hc => isInert_of_isBlank (hafter c hc)
  exact (hstart.append h).append hend

/-- **A text of a type is a piece**: its brackets are in order, and all its commas are in them. -/
theorem Derives.isPiece {cs : List Char} {t : TypeExpr} (h : Derives cs t) : IsPiece cs := by
  induction h using Derives.induct with
  | unit cs h =>
    refine passes_of_trim ?_
    rw [h]
    exact .of_inert (by simp [IsInert])
  | name cs n h hn =>
    refine passes_of_trim ?_
    rw [h]
    exact .of_inert hn.isInert
  | apply cs base tail n parts args h hbase hn hname hparts htail hargs ih =>
    have hpieces : ∀ part ∈ parts, IsPiece part := by
      intro part hpart
      obtain ⟨_, _, _, hpiece⟩ := exists_of_mem_forall₂ ih hpart
      exact hpiece
    have hbase' : Passes 0 0 base :=
      passes_of_trim (hn ▸ .of_inert hname.isInert)
    have htail' : Passes 1 1 tail := by
      rcases htail with rfl | rfl
      · exact .nil 1
      · exact .comma (.nil 1)
    have hopen : Passes 0 1 ['<'] := .opening (.nil 1)
    have hclose : Passes 1 0 ['>'] := .closing (.nil 0)
    refine passes_of_trim ?_
    rw [h]
    exact (((hbase'.append hopen).append (.joinWith hpieces)).append htail').append hclose

/-- A text of a type is not blank. -/
theorem Derives.trim_ne_nil {cs : List Char} {t : TypeExpr} (h : Derives cs t) : trim cs ≠ [] := by
  cases h with
  | unit h =>
    rw [h]
    decide
  | name h hn =>
    rw [h]
    exact hn.ne_nil
  | apply h =>
    rw [h]
    simp

/-! ## From the reader to the grammar -/

/-- The text between brackets that the reader finds. -/
theorem bracketed?_eq_some_iff {c : Char} {rest inner : List Char} :
    bracketed? (c :: rest) = some inner ↔
      rest = inner ++ ['>'] ∧ balanced inner = true ∧ trim inner ≠ [] := by
  have hblank : inner.all isBlank = false ↔ trim inner ≠ [] := by
    rw [Ne, trim_eq_nil_iff, ← List.all_eq_true, Bool.not_eq_true]
  unfold bracketed?
  dsimp only
  constructor
  · intro h
    split at h
    · rename_i hlast
      obtain ⟨front, rfl⟩ := List.getLast?_eq_some_iff.mp hlast
      rw [List.dropLast_concat] at h
      split at h
      · rename_i htest
        obtain rfl : front = inner := by simpa using h
        rw [Bool.and_eq_true, Bool.not_eq_true', hblank] at htest
        exact ⟨rfl, htest⟩
      · exact absurd h (by simp)
    · exact absurd h (by simp)
  · rintro ⟨rfl, hbalanced, hne⟩
    rw [if_pos (by simp), List.dropLast_concat, hbalanced, hblank.mpr hne]
    rfl

theorem parse?_trim (cs : List Char) : parse? (trim cs) = parse? cs := by
  rw [parse?_eq (trim cs), parse?_eq cs, trim_trim]

theorem not_mem_takeWhile (c : Char) (cs : List Char) : c ∉ cs.takeWhile (· ≠ c) := by
  intro hc
  simpa using List.mem_takeWhile_imp hc

/-- A text is its part before the first `<` and what follows from there on. -/
theorem exists_bracket {text : List Char} {bracket : Char} {rest : List Char}
    (h : text.dropWhile (· ≠ '<') = bracket :: rest) :
    text = text.takeWhile (· ≠ '<') ++ '<' :: rest := by
  have hbracket : bracket = '<' := by
    have hhead := List.head?_dropWhile_not (p := fun c : Char => decide (c ≠ '<')) (l := text)
    rw [h] at hhead
    simpa using hhead
  have happend := List.takeWhile_append_dropWhile
    (p := fun c : Char => decide (c ≠ '<')) (l := text)
  rw [h, hbracket] at happend
  exact happend.symm

/-- **Every type that the reader finds in a text is derived by the grammar.** -/
theorem derives_of_parse? {cs : List Char} {t : TypeExpr} (h : parse? cs = some t) :
    Derives cs t := by
  induction hlen : cs.length using Nat.strong_induction_on generalizing cs t with
  | _ len ih =>
    subst hlen
    rw [parse?_eq] at h
    dsimp only at h
    split at h
    · rename_i hunit
      obtain rfl : TypeExpr.unit = t := by simpa using h
      exact .unit hunit
    · split at h
      · rename_i hname
        rw [isName_iff] at hname
        split at h
        · rename_i hrest
          have hall : (trim cs).takeWhile (· ≠ '<') = trim cs := by
            have happend := List.takeWhile_append_dropWhile
              (p := fun c : Char => decide (c ≠ '<')) (l := trim cs)
            rwa [hrest, List.append_nil] at happend
          rw [hall, trim_trim] at h hname
          obtain rfl : named (String.ofList (trim cs)) = t := by simpa using h
          exact .name (String.toList_ofList).symm (by rwa [String.toList_ofList])
        · rename_i bracket rest hrest
          obtain ⟨inner, hinner, h⟩ := Option.bind_eq_some_iff.mp h
          obtain ⟨args, hargs, rfl⟩ := Option.map_eq_some_iff.mp h
          obtain ⟨rfl, -, hblank⟩ := bracketed?_eq_some_iff.mp hinner
          have htext := exists_bracket hrest
          have hne : inner ≠ [] := by
            rintro rfl
            exact hblank rfl
          obtain ⟨parts, tail, hparts, htail, hjoin, hsplit⟩ := exists_splitParams hne
          rw [hsplit, mapM_eq_some_iff, List.forall₂_map_left_iff] at hargs
          have hshorter : ∀ part ∈ parts, part.length < cs.length := by
            intro part hpart
            have hle : part.length ≤ (joinWith [','] parts).length :=
              length_le_of_mem_joinWith hpart
            have hlength := congrArg List.length htext
            have htrim := length_trim_le cs
            rw [hjoin] at hlength
            simp only [List.length_append, List.length_cons] at hlength
            omega
          have hderived := (List.forall₂_and_left parts args).mpr ⟨hshorter, hargs⟩
          refine .apply ?_ (not_mem_takeWhile _ _) (String.toList_ofList).symm
            (by rwa [String.toList_ofList]) hparts htail
            (hderived.imp fun part t h => ih _ h.1 ((parse?_trim part).symm.trans h.2) rfl)
          calc trim cs = (trim cs).takeWhile (· ≠ '<') ++ '<' :: (inner ++ ['>']) := htext
            _ = _ := by rw [hjoin]; simp
      · exact absurd h (by simp)

/-! ## From the grammar to the reader -/

/-- What the reader makes of a text in brackets. -/
theorem parse?_bracketed {cs base inner : List Char}
    (h : trim cs = base ++ '<' :: (inner ++ ['>'])) (hbase : '<' ∉ base)
    (hname : IsTypeName (trim base)) (hbalanced : balanced inner = true)
    (hblank : trim inner ≠ []) :
    parse? cs = ((splitParams inner).mapM parse?).map (app (String.ofList (trim base))) := by
  have hbefore : ∀ c ∈ base, decide (c ≠ '<') = true :=
    fun c hc => decide_eq_true fun heq => hbase (heq ▸ hc)
  have hbase' : (trim cs).takeWhile (· ≠ '<') = base := by
    rw [h, List.takeWhile_append_of_pos hbefore]
    simp
  have hrest : (trim cs).dropWhile (· ≠ '<') = '<' :: (inner ++ ['>']) := by
    rw [h, List.dropWhile_append_of_pos hbefore]
    simp
  have hunit : trim cs ≠ unitName.toList := by
    intro heq
    have hopen : '<' ∈ unitName.toList := by
      rw [← heq, h]
      simp
    exact absurd hopen (by decide)
  have hinner : bracketed? ('<' :: (inner ++ ['>'])) = some inner :=
    bracketed?_eq_some_iff.mpr ⟨rfl, hbalanced, hblank⟩
  rw [parse?_eq]
  dsimp only
  rw [if_neg hunit, hbase', if_pos ((isName_iff _).mpr hname), hrest]
  dsimp only
  rw [hinner, Option.bind_some]

/-- What the texts of some types come to when they are joined, with or without a comma at the
end. -/
theorem splitParams_derives {parts : List (List Char)} {tail : List Char} {args : List TypeExpr}
    (hparts : parts ≠ []) (htail : tail = [] ∨ tail = [','])
    (hargs : List.Forall₂ Derives parts args) :
    balanced (joinWith [','] parts ++ tail) = true ∧
      splitParams (joinWith [','] parts ++ tail) = parts.map trim := by
  have hpieces : ∀ part ∈ parts, IsPiece part := by
    intro part hpart
    obtain ⟨_, _, ht⟩ := exists_of_mem_forall₂ hargs hpart
    exact ht.isPiece
  rcases htail with rfl | rfl
  · have hlast : parts.getLast? ≠ some [] := by
      intro hlast
      obtain ⟨_, _, ht⟩ := exists_of_mem_forall₂ hargs (List.mem_of_getLast? hlast)
      exact ht.trim_ne_nil rfl
    rw [List.append_nil]
    refine ⟨balanced_joinWith hpieces, ?_⟩
    rw [splitParams_joinWith hparts hpieces, if_neg hlast]
  · have hpieces' : ∀ part ∈ parts ++ [[]], IsPiece part := by
      intro part hpart
      rcases List.mem_append.mp hpart with hpart | hpart
      · exact hpieces part hpart
      · obtain rfl : part = [] := by simpa using hpart
        exact isPiece_nil
    rw [← joinWith_concat_nil hparts]
    refine ⟨balanced_joinWith hpieces', ?_⟩
    rw [splitParams_joinWith (by simp) hpieces', if_pos (by simp), List.dropLast_concat]

/-- **Every type that the grammar derives from a text is found by the reader.** -/
theorem parse?_of_derives {cs : List Char} {t : TypeExpr} (h : Derives cs t) :
    parse? cs = some t := by
  induction h using Derives.induct with
  | unit cs h =>
    rw [parse?_eq, h]
    rfl
  | name cs n h hn =>
    have hopen : ∀ c ∈ n.toList, decide (c ≠ '<') = true :=
      fun c hc => decide_eq_true (hn.isInert c hc).1
    have hunit : n.toList ≠ unitName.toList := by
      intro heq
      have hparen : '(' ∈ n.toList := by
        rw [heq]
        decide
      exact absurd (hn.toNat hparen) (by decide)
    have htrim : trim n.toList = n.toList := by rw [← h, trim_trim]
    rw [parse?_eq, h]
    dsimp only
    rw [if_neg hunit, List.takeWhile_eq_self_iff.mpr hopen, List.dropWhile_eq_nil_iff.mpr hopen,
      htrim, if_pos ((isName_iff _).mpr hn)]
    simp
  | apply cs base tail n parts args h hbase hn hname hparts htail hargs ih =>
    obtain ⟨hbalanced, hsplit⟩ := splitParams_derives hparts htail hargs
    have htext : trim cs = base ++ '<' :: (joinWith [','] parts ++ tail ++ ['>']) := by
      rw [h]
      simp
    have hblank : trim (joinWith [','] parts ++ tail) ≠ [] := by
      obtain ⟨part, hpart⟩ := List.exists_mem_of_ne_nil parts hparts
      obtain ⟨_, _, ht⟩ := exists_of_mem_forall₂ hargs hpart
      obtain ⟨c, hc, hblank⟩ := (trim_ne_nil_iff part).mp ht.trim_ne_nil
      rw [trim_ne_nil_iff]
      exact ⟨c, List.mem_append_left _ (mem_joinWith_of_mem hc hpart), hblank⟩
    have hfound : (parts.map trim).mapM parse? = some args := by
      rw [mapM_eq_some_iff, List.forall₂_map_left_iff]
      exact ih.imp fun part t ⟨_, ht⟩ => (parse?_trim part).trans ht
    rw [parse?_bracketed htext hbase (hn ▸ hname) hbalanced hblank, hsplit, hfound, hn]
    simp

/-- **A text denotes a type exactly when the grammar derives the type from it.** -/
theorem ofString?_eq_some_iff_derives (s : String) (t : TypeExpr) :
    ofString? s = some t ↔ Derives s.toList t := by
  constructor
  · intro h
    exact derives_of_parse? h
  · intro h
    exact parse?_of_derives h

end ClientSynth.TypeExpr
