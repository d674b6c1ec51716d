import ClientSynth.Proofs.TypeExpr.Grammar

/-!
# `ClientSynth.Proofs.TypeExpr.Printing` — types as they are written

Not every tree of names is a type that a text denotes: a name may be no name, and `()` may have
arguments. The trees that are (`IsWellFormed`) are just those that the reader gives, and each of
them is read back from its written form:

> `display_roundtrip`: reading and writing are inverse to each other, on well-formed types and on
> the texts that denote something.

Nothing of the reader is looked at for this. The written form is derived by the grammar
(`derives_toChars`), argument by argument.
-/

set_option autoImplicit false

namespace ClientSynth.TypeExpr

open ClientSynth.Text

/-- `()` without arguments, or a name with well-formed arguments. -/
inductive IsWellFormed : TypeExpr → Prop
  | unit : IsWellFormed TypeExpr.unit
  | apply {n : String} {args : List TypeExpr} (hn : IsTypeName n.toList)
      (hargs : ∀ a ∈ args, IsWellFormed a) : IsWellFormed (app n args)

/-- What the grammar derives is well formed. -/
theorem Derives.isWellFormed {cs : List Char} {t : TypeExpr} (h : Derives cs t) :
    IsWellFormed t := by
  induction h using Derives.induct with
  | unit cs h => exact .unit
  | name cs n h hn => exact .apply hn fun a ha => absurd ha List.not_mem_nil
  | apply cs base tail n parts args h hbase hn hname hparts htail hargs ih =>
    refine .apply hname fun a ha => ?_
    obtain ⟨_, _, _, ha'⟩ := exists_of_mem_forall₂ ih.flip ha
    exact ha'

theorem IsTypeName.isTrimmed {cs : List Char} (h : IsTypeName cs) : IsTrimmed cs := by
  constructor
  · intro c hc
    exact h.isBlank c (List.mem_of_mem_head? hc)
  · intro c hc
    exact h.isBlank c (List.mem_of_mem_getLast? hc)

theorem isTrimmed_bracketed {n : List Char} (h : IsTypeName n) (inner : List Char) :
    IsTrimmed (n ++ '<' :: (inner ++ ['>'])) := by
  simpa using h.isTrimmed_append ('<' :: inner)

/-- The arguments after the first are written with a comma and a blank before each. -/
theorem joinWith_args (cs : List Char) (args : List TypeExpr) :
    joinWith [','] (cs :: args.map fun a => ' ' :: a.toChars) = cs ++ argsToChars args := by
  induction args generalizing cs with
  | nil => simp [joinWith, argsToChars]
  | cons a args ih =>
    rw [List.map_cons, joinWith_cons (List.cons_ne_nil _ _), ih, argsToChars]
    simp

/-- **The written form of a well-formed type is derived by the grammar.** -/
theorem derives_toChars {t : TypeExpr} (h : IsWellFormed t) : Derives t.toChars t := by
  induction h with
  | unit => exact .unit (by decide)
  | @apply n args hn hargs ih =>
    cases args with
    | nil =>
      rw [toChars]
      exact .name (trim_eq_self hn.isTrimmed) hn
    | cons a args =>
      have hblank : ∀ b ∈ args, Derives (' ' :: b.toChars) b := by
        intro b hb
        exact (ih b (List.mem_cons_of_mem _ hb)).of_trim_eq (trim_cons_of_blank rfl _)
      have hrest : List.Forall₂ Derives (args.map fun b => ' ' :: b.toChars) args := by
        rw [List.forall₂_map_left_iff, List.forall₂_same]
        exact hblank
      have hname : '<' ∉ n.toList := fun hmem => (hn.isInert _ hmem).1 rfl
      refine .apply ?_ hname (trim_eq_self hn.isTrimmed) hn (List.cons_ne_nil _ _) (Or.inl rfl)
        (.cons (ih a List.mem_cons_self) hrest)
      rw [toChars, ← List.append_assoc a.toChars, trim_eq_self (isTrimmed_bracketed hn _),
        joinWith_args]
      simp

/-- A well-formed type is read back from its written form. -/
theorem parse?_toChars {t : TypeExpr} (h : IsWellFormed t) : parse? t.toChars = some t :=
  parse?_of_derives (derives_toChars h)

theorem ofString?_display {t : TypeExpr} (h : IsWellFormed t) : ofString? t.display = some t := by
  rw [ofString?, display, String.toList_ofList, parse?_toChars h]

theorem isWellFormed_of_ofString? {s : String} {t : TypeExpr} (h : ofString? s = some t) :
    IsWellFormed t :=
  (derives_of_parse? h).isWellFormed

/-- **Reading and writing types are inverse to each other.** A well-formed type is read back from
its written form, what is read is well formed, different well-formed types are written differently,
and writing what was read and reading it again changes nothing. -/
theorem display_roundtrip :
    (∀ t : TypeExpr, IsWellFormed t → ofString? t.display = some t) ∧
    (∀ (s : String) (t : TypeExpr), ofString? s = some t → IsWellFormed t) ∧
    (∀ t u : TypeExpr, IsWellFormed t → IsWellFormed u → t.display = u.display → t = u) ∧
    ∀ s : String, ((ofString? s).bind fun t => ofString? t.display) = ofString? s := by
  refine ⟨fun t h => ofString?_display h, fun s t h => isWellFormed_of_ofString? h, ?_, ?_⟩
  · intro t u ht hu heq
    have hread := ofString?_display ht
    rw [heq, ofString?_display hu] at hread
    exact (Option.some.inj hread).symm
  · intro s
    cases h : ofString? s with
    | none => rfl
    | some t => exact ofString?_display (isWellFormed_of_ofString? h)

/-- A type with brackets in brackets, a qualified name and `()` as an argument. -/
def nested : TypeExpr :=
  app "Map" [named "keys::Id", app "Vec" [TypeExpr.unit]]

theorem display_roundtrip_nested :
    IsWellFormed nested ∧ nested.display = "Map<keys::Id, Vec<()>>" ∧
      ofString? "Map<keys::Id, Vec<()>>" = some nested := by
  have hname : ∀ n : String, isName n.toList = true → IsTypeName n.toList :=
    fun n h => (isName_iff _).mp h
  have hwf : IsWellFormed nested := by
    refine .apply (hname "Map" (by decide)) ?_
    simp only [List.mem_cons, List.not_mem_nil, or_false, forall_eq_or_imp, forall_eq]
    refine ⟨.apply (hname "keys::Id" (by decide)) (by simp), .apply (hname "Vec" (by decide)) ?_⟩
    simpa using IsWellFormed.unit
  have hdisplay : nested.display = "Map<keys::Id, Vec<()>>" := by decide
  exact ⟨hwf, hdisplay, hdisplay ▸ display_roundtrip.1 nested hwf⟩

end ClientSynth.TypeExpr
