import ClientSynth.Proofs.TypeExpr.Grammar

/-!
# `ClientSynth.Proofs.TypeExpr.Spacing` — white space in type texts

White space may be put at the ends of a type text and next to its brackets and commas (`Respaced`).
What this leaves alone are the brackets, the commas and the words between them (`SameWords`), and the
grammar looks at nothing else, but for one thing: a comma may stand before a bracket that closes, and
then nothing may stand between the two. So

> `ofString?_respaced`: a text with white space put in denotes what it denoted without, unless a comma
> and a bracket that closes are parted by white space alone, and then it denotes nothing.

The first half is an induction over derivations (`Derives.of_sameWords`), for which texts with the same
words are cut at the same brackets and commas (`SameWords.split`). The second half follows a text from
left to right and remembers whether a comma and blanks come last (`Trail`).
-/

set_option autoImplicit false

namespace ClientSynth.TypeExpr

open ClientSynth.Text

/-! ## White space that is put in -/

/-- A place where white space may stand: an end of the text, or directly before or after a bracket or a
comma. -/
inductive IsLoose : List Char → List Char → Prop
  | first (after : List Char) : IsLoose [] after
  | last (before : List Char) : IsLoose before []
  | behind {before after : List Char} {m : Char} (h : before.getLast? = some m) (hm : ¬ IsInert m) :
      IsLoose before after
  | ahead {before after : List Char} {m : Char} (h : after.head? = some m) (hm : ¬ IsInert m) :
      IsLoose before after

theorem IsLoose.of_append {front before after : List Char} (h : IsLoose (front ++ before) after) :
    IsLoose before after := by
  by_cases hnil : before = []
  · subst hnil
    exact .first after
  · generalize htext : front ++ before = text at h
    cases h with
    | first => exact absurd (List.append_eq_nil_iff.mp htext).2 hnil
    | last => exact .last before
    | behind h hm =>
      rw [← htext, List.getLast?_append_of_ne_nil _ hnil] at h
      exact .behind h hm
    | ahead h hm => exact .ahead h hm

/-- A text, and the text with white space put in at any number of such places. -/
inductive Respaced : List Char → List Char → Prop
  | refl (cs : List Char) : Respaced cs cs
  | insert {cs : List Char} (before blanks after : List Char) (h : Respaced cs (before ++ after))
      (hplace : IsLoose before after) (hblanks : ∀ c ∈ blanks, isBlank c = true) :
      Respaced cs (before ++ blanks ++ after)

/-- In a text there are a comma and a bracket that closes with only white space, but some, between
them. -/
def IsParted (cs : List Char) : Prop :=
  ∃ before blanks after, cs = before ++ ',' :: (blanks ++ '>' :: after) ∧ blanks ≠ [] ∧
    ∀ c ∈ blanks, isBlank c = true

/-! ## Texts word by word -/

/-- Two texts have the same brackets and commas, and between them the same words, blanks around
words apart. -/
inductive SameWords : List Char → List Char → Prop
  | word {cs cs' : List Char} (h : ∀ c ∈ cs, IsInert c) (h' : ∀ c ∈ cs', IsInert c)
      (htrim : trim cs = trim cs') : SameWords cs cs'
  | mark {cs cs' rest rest' : List Char} {m : Char} (h : ∀ c ∈ cs, IsInert c)
      (h' : ∀ c ∈ cs', IsInert c) (htrim : trim cs = trim cs') (hm : ¬ IsInert m)
      (hrest : SameWords rest rest') : SameWords (cs ++ m :: rest) (cs' ++ m :: rest')

/-- A text is a word, or there is a first bracket or comma in it. -/
theorem word_induction {motive : List Char → Prop}
    (word : ∀ cs, (∀ c ∈ cs, IsInert c) → motive cs)
    (mark : ∀ cs m rest, (∀ c ∈ cs, IsInert c) → ¬ IsInert m → motive rest →
      motive (cs ++ m :: rest)) (cs : List Char) : motive cs := by
  -- The induction is on the rest of the text, with the word so far.
  suffices h : ∀ front, (∀ c ∈ front, IsInert c) → motive (front ++ cs) from h [] (by simp)
  induction cs with
  | nil =>
    intro front hfront
    rw [List.append_nil]
    exact word front hfront
  | cons c cs ih =>
    intro front hfront
    by_cases hc : IsInert c
    · have h := ih (front ++ [c]) (by simpa [or_imp, forall_and] using ⟨hfront, hc⟩)
      rwa [List.append_assoc] at h
    · exact mark front c cs hfront hc (ih [] (by simp))

namespace SameWords

theorem refl (cs : List Char) : SameWords cs cs := by
  induction cs using word_induction with
  | word cs h => exact .word h h rfl
  | mark cs m rest h hm ih => exact .mark h h rfl hm ih

theorem symm {cs cs' : List Char} (h : SameWords cs cs') : SameWords cs' cs := by
  induction h with
  | word h h' htrim => exact .word h' h htrim.symm
  | mark h h' htrim hm _ ih => exact .mark h' h htrim.symm hm ih

theorem of_word {cs cs' : List Char} (h : SameWords cs cs') (hcs : ∀ c ∈ cs, IsInert c) :
    (∀ c ∈ cs', IsInert c) ∧ trim cs' = trim cs := by
  cases h with
  | word _ h' htrim => exact ⟨h', htrim.symm⟩
  | mark _ _ _ hm _ => exact absurd (hcs _ (by simp)) hm

/-- A text is cut at its first bracket or comma, or behind it. -/
theorem cut_cases {xs ys word rest : List Char} {m m' : Char} (hm : ¬ IsInert m)
    (hword : ∀ c ∈ word, IsInert c) (h : xs ++ m :: ys = word ++ m' :: rest) :
    (xs = word ∧ m = m' ∧ ys = rest) ∨ ∃ xs', xs = word ++ m' :: xs' ∧ xs' ++ m :: ys = rest := by
  induction word generalizing xs with
  | nil =>
    cases xs with
    | nil =>
      obtain ⟨hmark, hrest⟩ := List.cons.inj h
      exact Or.inl ⟨rfl, hmark, hrest⟩
    | cons x xs =>
      obtain ⟨rfl, hrest⟩ := List.cons.inj h
      exact Or.inr ⟨xs, rfl, hrest⟩
  | cons c word ih =>
    rw [List.forall_mem_cons] at hword
    cases xs with
    | nil =>
      obtain ⟨rfl, -⟩ := List.cons.inj h
      exact absurd hword.1 hm
    | cons x xs =>
      obtain ⟨rfl, htail⟩ := List.cons.inj h
      rcases ih hword.2 htail with ⟨rfl, hmark, hrest⟩ | ⟨xs', rfl, hrest⟩
      · exact Or.inl ⟨rfl, hmark, hrest⟩
      · exact Or.inr ⟨xs', rfl, hrest⟩

/-- **Texts with the same words can be cut at the same brackets and commas.** -/
theorem split {xs ys zs : List Char} {m : Char} (hm : ¬ IsInert m)
    (h : SameWords (xs ++ m :: ys) zs) :
    ∃ xs' ys', zs = xs' ++ m :: ys' ∧ SameWords xs xs' ∧ SameWords ys ys' := by
  generalize htext : xs ++ m :: ys = text at h
  induction h generalizing xs with
  | word h => exact absurd (h m (by rw [← htext]; simp)) hm
  | @mark cs cs' rest rest' m' h h' htrim hm' hrest ih =>
    rcases cut_cases hm h htext with ⟨rfl, rfl, rfl⟩ | ⟨xs, rfl, htail⟩
    · exact ⟨cs', rest', rfl, .word h h' htrim, hrest⟩
    · obtain ⟨xs', ys', rfl, hx, hy⟩ := ih htail
      exact ⟨cs' ++ m' :: xs', ys', by simp, .mark h h' htrim hm' hx, hy⟩

theorem trans {cs cs' cs'' : List Char} (h : SameWords cs cs') (h' : SameWords cs' cs'') :
    SameWords cs cs'' := by
  induction h generalizing cs'' with
  | word hw hw' htrim =>
    obtain ⟨hword, heq⟩ := h'.of_word hw'
    exact .word hw hword (htrim.trans heq.symm)
  | mark hw hw' htrim hm _ ih =>
    obtain ⟨word, rest, rfl, hx, hy⟩ := h'.split hm
    obtain ⟨hword, heq⟩ := hx.of_word hw'
    exact .mark hw hword (htrim.trans heq.symm) hm (ih hy)

theorem joinWith {parts : List (List Char)} (hne : parts ≠ []) {zs : List Char}
    (h : SameWords (joinWith [','] parts) zs) :
    ∃ parts', zs = Text.joinWith [','] parts' ∧ List.Forall₂ SameWords parts parts' := by
  induction parts generalizing zs with
  | nil => exact absurd rfl hne
  | cons part parts ih =>
    by_cases hnil : parts = []
    · subst hnil
      exact ⟨[zs], rfl, .cons h .nil⟩
    · rw [joinWith_cons hnil, List.append_assoc] at h
      obtain ⟨part', rest, rfl, hpart, hrest⟩ := split (by simp [IsInert]) h
      obtain ⟨parts', rfl, hparts⟩ := ih hnil hrest
      have hnil' : parts' ≠ [] := by
        rintro rfl
        cases hparts
        exact hnil rfl
      refine ⟨part' :: parts', ?_, .cons hpart hparts⟩
      rw [joinWith_cons hnil', List.append_assoc]
      rfl

theorem blanks_append {blanks : List Char} (hblanks : ∀ c ∈ blanks, isBlank c = true)
    (cs : List Char) : SameWords cs (blanks ++ cs) := by
  have hinert : ∀ c ∈ blanks, IsInert c := fun c hc => isInert_of_isBlank (hblanks c hc)
  induction cs using word_induction with
  | word cs h =>
    exact .word h (List.forall_mem_append.mpr ⟨hinert, h⟩) (trim_blanks_append hblanks cs).symm
  | mark cs m rest h hm _ =>
    rw [← List.append_assoc]
    exact .mark h (List.forall_mem_append.mpr ⟨hinert, h⟩) (trim_blanks_append hblanks cs).symm hm
      (refl rest)

/-- White space at a place where it may stand changes no word. -/
theorem insert {before blanks after : List Char} (hplace : IsLoose before after)
    (hblanks : ∀ c ∈ blanks, isBlank c = true) :
    SameWords (before ++ after) (before ++ blanks ++ after) := by
  have hinert : ∀ c ∈ blanks, IsInert c := fun c hc => isInert_of_isBlank (hblanks c hc)
  induction before using word_induction with
  | word before h =>
    have hword : ∀ c ∈ before ++ blanks, IsInert c := List.forall_mem_append.mpr ⟨h, hinert⟩
    have htrim : trim before = trim (before ++ blanks) := (trim_append_blanks hblanks before).symm
    cases hplace with
    | first => exact blanks_append hblanks after
    | last =>
      rw [List.append_nil, List.append_nil]
      exact .word h hword htrim
    | behind hlast hm => exact absurd (h _ (List.mem_of_mem_getLast? hlast)) hm
    | ahead hfirst hm =>
      obtain ⟨rest, rfl⟩ := List.head?_eq_some_iff.mp hfirst
      exact .mark h hword htrim hm (refl rest)
  | mark word m rest h hm ih =>
    rw [List.append_assoc, List.append_assoc, List.append_assoc]
    have hplace' : IsLoose ((word ++ [m]) ++ rest) after := by simpa using hplace
    have hmark := SameWords.mark h h rfl hm (ih hplace'.of_append)
    simpa using hmark

theorem of_respaced {cs cs' : List Char} (h : Respaced cs cs') : SameWords cs cs' := by
  induction h with
  | refl => exact refl cs
  | insert before blanks after _ hplace hblanks ih => exact ih.trans (insert hplace hblanks)

end SameWords

/-! ## Derivations -/

/-- Blanks may stand around a name and behind the last bracket. -/
theorem Derives.bracketed {head tail rest : List Char} {n : String} {parts : List (List Char)}
    {args : List TypeExpr} (hhead : trim head = n.toList) (hname : IsTypeName n.toList)
    (hrest : ∀ c ∈ rest, isBlank c = true) (hparts : parts ≠ []) (htail : tail = [] ∨ tail = [','])
    (hargs : List.Forall₂ Derives parts args) :
    Derives (head ++ '<' :: (joinWith [','] parts ++ tail ++ '>' :: rest)) (app n args) := by
  obtain ⟨before, after, hsplit, hbefore, hafter⟩ := trim_spec head
  rw [hhead] at hsplit
  have htrim : trim (head ++ '<' :: (joinWith [','] parts ++ tail ++ '>' :: rest)) =
      n.toList ++ (after ++ '<' :: (joinWith [','] parts ++ tail)) ++ ['>'] := by
    rw [← trim_between (hname.isTrimmed_append _) hbefore hrest, hsplit]
    simp
  have hbase : trim (n.toList ++ after) = n.toList := by
    rw [trim_append_blanks hafter, ← hhead, trim_trim]
  have hopen : '<' ∉ n.toList ++ after := by
    rw [List.mem_append, not_or]
    exact ⟨fun h => (hname.isInert _ h).1 rfl, fun h => (isInert_of_isBlank (hafter _ h)).1 rfl⟩
  refine .apply ?_ hopen hbase hname hparts htail hargs
  rw [htrim]
  simp

theorem exists_bracketed {cs base inner : List Char} {n : String}
    (h : trim cs = base ++ ['<'] ++ inner ++ ['>']) (hn : trim base = n.toList)
    (hname : IsTypeName n.toList) :
    ∃ head rest, cs = head ++ '<' :: (inner ++ '>' :: rest) ∧ (∀ c ∈ head, IsInert c) ∧
      trim head = n.toList ∧ ∀ c ∈ rest, isBlank c = true := by
  obtain ⟨before, after, hcs, hbefore, hafter⟩ := trim_spec cs
  have htrim : trim (before ++ base) = n.toList := by rw [trim_blanks_append hbefore, hn]
  refine ⟨before ++ base, after, ?_, ?_, htrim, hafter⟩
  · rw [hcs, h]
    simp
  · exact isInert_of_trim (htrim ▸ hname.isInert)

theorem IsParted.of_infix {cs text : List Char} (h : IsParted cs) (hcs : cs <:+: text) :
    IsParted text := by
  obtain ⟨front, rear, rfl⟩ := hcs
  obtain ⟨before, blanks, after, rfl, hblanks⟩ := h
  exact ⟨front ++ before, blanks, after ++ rear, by simp, hblanks⟩

/-- Parameters have the same words as parameters, and a comma at the end of the ones is at the end of
the others, unless there are blanks behind it. -/
theorem SameWords.params {parts : List (List Char)} {tail inner : List Char} (hparts : parts ≠ [])
    (htail : tail = [] ∨ tail = [',']) (h : SameWords (Text.joinWith [','] parts ++ tail) inner)
    (hclosed : ¬ IsParted (inner ++ ['>'])) :
    ∃ parts', inner = Text.joinWith [','] parts' ++ tail ∧ List.Forall₂ SameWords parts parts' := by
  rcases htail with rfl | rfl
  · rw [List.append_nil] at h
    obtain ⟨parts', rfl, hparts'⟩ := SameWords.joinWith hparts h
    exact ⟨parts', (List.append_nil _).symm, hparts'⟩
  · obtain ⟨front, rest, rfl, hfront, hrest⟩ := SameWords.split (by simp [IsInert]) h
    obtain ⟨parts', rfl, hparts'⟩ := SameWords.joinWith hparts hfront
    have hblank : ∀ c ∈ rest, isBlank c = true :=
      (trim_eq_nil_iff rest).mp (hrest.of_word (by simp)).2
    have hnil : rest = [] := by
      by_contra hne
      exact hclosed ⟨Text.joinWith [','] parts', rest, [], by simp, hne, hblank⟩
    subst hnil
    exact ⟨parts', rfl, hparts'⟩

/-- **What the grammar derives from a text it derives from every text with the same words**, unless a
comma and a bracket are parted there. -/
theorem Derives.of_sameWords {cs cs' : List Char} {t : TypeExpr} (h : Derives cs t)
    (hsame : SameWords cs cs') (hparted : ¬ IsParted cs') : Derives cs' t := by
  induction h using Derives.induct generalizing cs' with
  | unit cs h =>
    have hword : ∀ c ∈ cs, IsInert c := isInert_of_trim (h ▸ by simp [IsInert])
    exact .unit ((hsame.of_word hword).2.trans h)
  | name cs n h hn =>
    have hword : ∀ c ∈ cs, IsInert c := isInert_of_trim (h ▸ hn.isInert)
    exact .name ((hsame.of_word hword).2.trans h) hn
  | apply cs base tail n parts args h hbase hn hname hparts htail hargs ih =>
    obtain ⟨head, rest, rfl, hword, htrim, hrest⟩ :=
      exists_bracketed (by rw [h, List.append_assoc _ _ tail]) hn hname
    have hopen : ¬ IsInert '<' := by simp [IsInert]
    have hclose : ¬ IsInert '>' := by simp [IsInert]
    obtain ⟨head', rear, rfl, hhead, hrear⟩ := hsame.split hopen
    obtain ⟨inner', rest', rfl, hinner, hrest'⟩ := hrear.split hclose
    have htrim' : trim head' = n.toList := (hhead.of_word hword).2.trans htrim
    have hinert : ∀ c ∈ rest, IsInert c := fun c hc => isInert_of_isBlank (hrest c hc)
    have hblank : ∀ c ∈ rest', isBlank c = true := by
      rw [← trim_eq_nil_iff, (hrest'.of_word hinert).2, trim_eq_nil_iff]
      exact hrest
    have hclosed : ¬ IsParted (inner' ++ ['>']) := by
      intro h
      exact hparted (h.of_infix ⟨head' ++ ['<'], rest', by simp⟩)
    obtain ⟨parts', rfl, hparts'⟩ := hinner.params hparts htail hclosed
    have hne : parts' ≠ [] := by
      rintro rfl
      cases hparts'
      exact hparts rfl
    refine .bracketed htrim' hname hblank hne htail ?_
    have hwhole : ∀ part ∈ parts', ¬ IsParted part := by
      intro part hpart h
      have hjoined : IsParted (joinWith [','] parts') := h.of_infix (infix_joinWith hpart)
      exact hclosed (hjoined.of_infix ⟨[], tail ++ ['>'], by simp⟩)
    have hboth := (List.forall₂_and_left parts' parts).mpr ⟨hwhole, hparts'.flip⟩
    refine forall₂_of_forall₂ ?_ hboth.flip ih
    intro part part' t hpart hread
    exact hread.2 hpart.2 hpart.1

/-! ## Parted texts -/

/-- What stands before a place, as far as a bracket that closes there is concerned: a comma, a comma
and blanks, or anything else. -/
inductive Trail where
  | solid
  | comma
  | gap
  deriving DecidableEq

namespace Trail

/-- The trail behind a character. A bracket that closes behind a comma and blanks has none. -/
def next (q : Trail) (c : Char) : Option Trail :=
  if c = ',' then some comma
  else if isBlank c then some (if q = solid then solid else gap)
  else if c = '>' ∧ q = gap then none
  else some solid

def along (q : Trail) (cs : List Char) : Option Trail :=
  cs.foldlM next q

variable (q : Trail)

@[simp]
theorem along_nil : along q [] = some q := rfl

theorem along_cons (c : Char) (cs : List Char) :
    along q (c :: cs) = (next q c).bind fun q' => along q' cs := by
  unfold along
  rw [List.foldlM_cons]
  rfl

theorem along_append (xs ys : List Char) :
    along q (xs ++ ys) = (along q xs).bind fun q' => along q' ys := by
  unfold along
  rw [List.foldlM_append]
  rfl

theorem next_blank {c : Char} (h : isBlank c = true) :
    next q c = some (if q = solid then solid else gap) := by
  have hinert := isInert_of_isBlank h
  rw [next, if_neg hinert.2.2, if_pos h]

theorem next_inert {c : Char} (h : IsInert c) (hblank : isBlank c = false) :
    next q c = some solid := by
  rw [next, if_neg h.2.2, if_neg (by simp [hblank]), if_neg fun hclose => h.2.1 hclose.1]

theorem along_solid {cs : List Char} (h : ∀ c ∈ cs, IsInert c) : along solid cs = some solid := by
  induction cs with
  | nil => rfl
  | cons c cs ih =>
    rw [List.forall_mem_cons] at h
    have hnext : next solid c = some solid := by
      cases hc : isBlank c with
      | true => exact next_blank solid hc
      | false => exact next_inert solid h.1 hc
    rw [along_cons, hnext, Option.bind_some, ih h.2]

/-- Blanks do not make a comma forgotten. -/
theorem along_blanks {cs : List Char} (h : ∀ c ∈ cs, isBlank c = true) :
    ∃ q', along q cs = some q' ∧ (cs ≠ [] → q ≠ solid → q' = gap) := by
  induction cs generalizing q with
  | nil => exact ⟨q, rfl, fun hne => absurd rfl hne⟩
  | cons c cs ih =>
    rw [List.forall_mem_cons] at h
    rw [along_cons, next_blank q h.1, Option.bind_some]
    obtain ⟨q', hq', hgap⟩ := ih (if q = solid then solid else gap) h.2
    refine ⟨q', hq', fun _ hq => ?_⟩
    rw [if_neg hq] at hq' hgap
    by_cases hnil : cs = []
    · subst hnil
      exact (Option.some.inj hq').symm
    · exact hgap hnil (by decide)

/-- A word leaves a solid trail, whatever it comes after. -/
theorem along_word {cs : List Char} (h : ∀ c ∈ cs, IsInert c) (hne : trim cs ≠ []) :
    along q cs = some solid := by
  induction cs generalizing q with
  | nil => exact absurd rfl hne
  | cons c cs ih =>
    rw [List.forall_mem_cons] at h
    rw [along_cons]
    cases hc : isBlank c with
    | true =>
      rw [next_blank q hc, Option.bind_some]
      exact ih _ h.2 (by rwa [trim_cons_of_blank hc] at hne)
    | false => rw [next_inert q h.1 hc, Option.bind_some, along_solid h.2]

theorem along_joinWith {parts : List (List Char)} (hne : parts ≠ [])
    (h : ∀ part ∈ parts, ∀ q, along q part = some solid) :
    along q (joinWith [','] parts) = some solid := by
  induction parts generalizing q with
  | nil => exact absurd rfl hne
  | cons part parts ih =>
    rw [List.forall_mem_cons] at h
    by_cases hnil : parts = []
    · subst hnil
      exact h.1 q
    · rw [joinWith_cons hnil, along_append, along_append, h.1 q, Option.bind_some]
      exact ih comma hnil h.2

end Trail

open Trail

theorem along_of_isParted {cs : List Char} (h : IsParted cs) (q : Trail) : q.along cs = none := by
  obtain ⟨before, blanks, after, rfl, hne, hblanks⟩ := h
  rw [along_append, Option.bind_eq_none_iff]
  intro q' _
  have hcomma : next q' ',' = some comma := rfl
  obtain ⟨q'', hq'', hgap⟩ := along_blanks comma hblanks
  obtain rfl : q'' = gap := hgap hne (by decide)
  rw [along_cons, hcomma, Option.bind_some, along_append, hq'', Option.bind_some, along_cons]
  rfl

theorem Derives.along {cs : List Char} {t : TypeExpr} (h : Derives cs t) (q : Trail) :
    q.along cs = some solid := by
  induction h using Derives.induct generalizing q with
  | unit cs h => exact along_word q (isInert_of_trim (h ▸ by simp [IsInert])) (by rw [h]; decide)
  | name cs n h hn => exact along_word q (isInert_of_trim (h ▸ hn.isInert)) (by rw [h]; exact hn.ne_nil)
  | apply cs base tail n parts args h hbase hn hname hparts htail hargs ih =>
    obtain ⟨head, rest, rfl, hword, htrim, hrest⟩ :=
      exists_bracketed (by rw [h, List.append_assoc _ _ tail]) hn hname
    have hhead : q.along head = some solid := along_word q hword (by rw [htrim]; exact hname.ne_nil)
    have hpart : ∀ part ∈ parts, ∀ q : Trail, q.along part = some solid := by
      intro part hpart
      obtain ⟨_, _, _, hall⟩ := exists_of_mem_forall₂ ih hpart
      exact hall
    have hrest' : solid.along rest = some solid :=
      along_solid fun c hc => isInert_of_isBlank (hrest c hc)
    -- The bracket comes after a solid trail or after a comma, and closes in both cases.
    have hclose : solid.along (tail ++ '>' :: rest) = some solid := by
      rcases htail with rfl | rfl <;> exact hrest'
    rw [along_append, hhead, Option.bind_some, along_cons, List.append_assoc]
    show solid.along (joinWith [','] parts ++ (tail ++ '>' :: rest)) = some solid
    rw [along_append, along_joinWith solid hparts hpart, Option.bind_some, hclose]

theorem not_isParted_of_derives {cs : List Char} {t : TypeExpr} (h : Derives cs t) :
    ¬ IsParted cs := by
  intro hparted
  have hnone := along_of_isParted hparted solid
  rw [h.along solid] at hnone
  cases hnone

theorem IsParted.insert {front blanks rear : List Char} (h : IsParted (front ++ rear))
    (hblanks : ∀ c ∈ blanks, isBlank c = true) : IsParted (front ++ blanks ++ rear) := by
  obtain ⟨before, gap, after, htext, hne, hgap⟩ := h
  rcases List.append_eq_append_iff.mp htext with ⟨xs, rfl, rfl⟩ | ⟨xs, rfl, hxs⟩
  · -- The blanks are put in ahead of the comma.
    exact ⟨front ++ blanks ++ xs, gap, after, by simp, hne, hgap⟩
  · cases xs with
    | nil =>
      refine ⟨before ++ blanks, gap, after, ?_, hne, hgap⟩
      rw [hxs]
      simp
    | cons x xs =>
      rw [List.cons_append] at hxs
      obtain ⟨rfl, hrest⟩ := List.cons.inj hxs
      rcases List.append_eq_append_iff.mp hrest with ⟨ys, rfl, hys⟩ | ⟨ys, rfl, rfl⟩
      · -- They are put in behind the gap, where they make it longer or come after the bracket.
        cases ys with
        | nil =>
          refine ⟨before, gap ++ blanks, after, ?_, ?_, List.forall_mem_append.mpr ⟨hgap, hblanks⟩⟩
          · rw [hys]
            simp
          · simp [hne]
        | cons y ys =>
          obtain ⟨rfl, rfl⟩ := List.cons.inj hys
          exact ⟨before, gap, ys ++ blanks ++ rear, by simp, hne, hgap⟩
      · -- They are put into the gap.
        rw [List.forall_mem_append] at hgap
        refine ⟨before, xs ++ blanks ++ ys, after, by simp, ?_, ?_⟩
        · intro hnil
          simp at hnil
          exact hne (by simp [hnil])
        · rw [List.forall_mem_append, List.forall_mem_append]
          exact ⟨⟨hgap.1, hblanks⟩, hgap.2⟩

theorem IsParted.of_respaced {cs cs' : List Char} (h : IsParted cs) (hspaced : Respaced cs cs') :
    IsParted cs' := by
  induction hspaced with
  | refl => exact h
  | insert before blanks after _ _ hblanks ih => exact ih.insert hblanks

theorem parse?_eq_none_of_isParted {cs : List Char} (h : IsParted cs) : parse? cs = none := by
  cases hread : parse? cs with
  | none => rfl
  | some t => exact absurd h (not_isParted_of_derives (derives_of_parse? hread))

theorem parse?_eq_of_sameWords {cs cs' : List Char} (h : SameWords cs cs') (hcs : ¬ IsParted cs)
    (hcs' : ¬ IsParted cs') : parse? cs' = parse? cs := by
  apply Option.ext
  intro t
  constructor
  · intro hread
    exact parse?_of_derives ((derives_of_parse? hread).of_sameWords h.symm hcs)
  · intro hread
    exact parse?_of_derives ((derives_of_parse? hread).of_sameWords h hcs')

/-- **White space next to brackets and commas changes no type**, with one exception: a text in which a
comma is parted from a bracket that closes denotes nothing. -/
theorem ofString?_respaced {s s' : String} (h : Respaced s.toList s'.toList) :
    (¬ IsParted s'.toList → ofString? s' = ofString? s) ∧
      (IsParted s'.toList → ofString? s' = none) := by
  constructor
  · intro hparted
    exact parse?_eq_of_sameWords (.of_respaced h) (fun hs => hparted (hs.of_respaced h)) hparted
  · intro hparted
    exact parse?_eq_none_of_isParted hparted

/-- A text with a comma before a bracket that closes, and white space of four sorts: in the first text
none of it is between these two. -/
theorem ofString?_respaced_spread :
    (Respaced "Map<K,V,>".toList "Map<K,\t V\u3000,> ".toList ∧
      ¬ IsParted "Map<K,\t V\u3000,> ".toList ∧
      ofString? "Map<K,\t V\u3000,> " = some (app "Map" [named "K", named "V"])) ∧
    Respaced "Map<K,V,>".toList "Map<K,V,\n>".toList ∧ IsParted "Map<K,V,\n>".toList ∧
      ofString? "Map<K,V,\n>" = none := by
  have hcomma : ¬ IsInert ',' := by simp [IsInert]
  have hspaced : Respaced "Map<K,V,>".toList "Map<K,\t V\u3000,> ".toList := by
    refine .insert "Map<K,\t V\u3000,>".toList [' '] [] ?_ (.last _)
      (List.all_eq_true.mp (by decide))
    refine .insert "Map<K,\t V".toList ['\u3000'] ",>".toList ?_ (.ahead rfl hcomma)
      (List.all_eq_true.mp (by decide))
    exact .insert "Map<K,".toList ['\t', ' '] "V,>".toList (.refl _) (.behind rfl hcomma)
      (List.all_eq_true.mp (by decide))
  have hwhole : ¬ IsParted "Map<K,\t V\u3000,> ".toList := by
    intro h
    exact absurd (along_of_isParted h solid) (by decide)
  have hk : Derives ['K'] (named "K") := .name (by decide) ((isName_iff _).mp (by decide))
  have hv : Derives ['V'] (named "V") := .name (by decide) ((isName_iff _).mp (by decide))
  have hread : Derives
      ("Map".toList ++ '<' :: (joinWith [','] [['K'], ['V']] ++ [','] ++ '>' :: []))
      (app "Map" [named "K", named "V"]) :=
    .bracketed (by decide) ((isName_iff _).mp (by decide)) (by simp) (by simp) (Or.inr rfl)
      (.cons hk (.cons hv .nil))
  have heq := (ofString?_respaced hspaced).1 hwhole
  have hspaced' : Respaced "Map<K,V,>".toList "Map<K,V,\n>".toList :=
    .insert "Map<K,V,".toList ['\n'] ['>'] (.refl _) (.behind rfl hcomma)
      (List.all_eq_true.mp (by decide))
  have hparted : IsParted "Map<K,V,\n>".toList :=
    ⟨"Map<K,V".toList, ['\n'], [], by decide, by decide, List.all_eq_true.mp (by decide)⟩
  exact ⟨⟨hspaced, hwhole, heq.trans (parse?_of_derives hread)⟩, hspaced', hparted,
    (ofString?_respaced hspaced').2 hparted⟩

/-- A blank behind the last comma takes the type away. -/
theorem respaced_not_read :
    Respaced "Vec<A,>".toList "Vec<A, >".toList ∧
      ofString? "Vec<A,>" = some (app "Vec" [named "A"]) ∧ ofString? "Vec<A, >" = none := by
  have hcomma : ¬ IsInert ',' := by simp [IsInert]
  have hspaced : Respaced "Vec<A,>".toList "Vec<A, >".toList :=
    .insert "Vec<A,".toList [' '] ['>'] (.refl _) (.behind rfl hcomma)
      (List.all_eq_true.mp (by decide))
  have ha : Derives ['A'] (named "A") := .name (by decide) ((isName_iff _).mp (by decide))
  have hread : Derives ("Vec".toList ++ '<' :: (joinWith [','] [['A']] ++ [','] ++ '>' :: []))
      (app "Vec" [named "A"]) :=
    .bracketed (by decide) ((isName_iff _).mp (by decide)) (by simp) (by simp) (Or.inr rfl)
      (.cons ha .nil)
  have hparted : IsParted "Vec<A, >".toList :=
    ⟨"Vec<A".toList, [' '], [], by decide, by decide, List.all_eq_true.mp (by decide)⟩
  exact ⟨hspaced, parse?_of_derives hread, parse?_eq_none_of_isParted hparted⟩

end ClientSynth.TypeExpr
