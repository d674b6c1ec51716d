import ClientSynth.Proofs.Cache.Sequential
import ClientSynth.Proofs.Synthesis.Outcome
import ClientSynth.Proofs.Synthesis.TypeNames

/-!
# `ClientSynth.Proofs.Cache.Clashes` — which interfaces a cache keeps apart

An interface that is looked up for the first time is refused for its type name where another one that
has the same type name is cached successfully, and nowhere else: the type names of a cache belong to
the interfaces it has implementations for (`Records.owner?_eq_some_iff`), and synthesis by itself never
finds a type name taken. Which interfaces have the same type name is told from their identities alone
(`TypeName.Clash`), so that is what decides.
-/

set_option autoImplicit false

namespace ClientSynth

/-! ## Successes of a history -/

namespace History

/-- Whether the first lookup of each interface with a success was one. -/
def Led (past : History) : Prop :=
  ∀ p ∈ past, p.2.isOk = true → ∃ q, past.first? p.1.interface = some q ∧ q.2.isOk = true

variable {past : History}

theorem led_nil : Led [] := by
  intro p hp
  cases hp

/-- A lookup that is not the first of its interface only succeeds by repeating the first one. -/
theorem Led.step (h : past.Led) (l : Lookup) : Led (past ++ [(l, past.verdict l)]) := by
  intro p hp hok
  rcases List.mem_append.mp hp with hp | hp
  · rw [first?_append_of_isSome (isSome_first? hp)]
    exact h p hp hok
  · obtain rfl := List.mem_singleton.mp hp
    cases hf : past.first? l.interface with
    | none =>
      rw [first?_append_of_none hf, if_pos rfl]
      exact ⟨_, rfl, hok⟩
    | some q =>
      rw [first?_append_of_isSome (by rw [hf]; rfl), hf]
      refine ⟨q, rfl, ?_⟩
      simp only [verdict, hf] at hok
      split at hok
      · exact hok
      · obtain ⟨shared, hshared⟩ := isOk_iff.mp hok
        cases hshared

theorem Led.tell (h : past.Led) (ls : List Lookup) : Led (past ++ past.tell ls) := by
  induction ls generalizing past with
  | nil => simpa [History.tell] using h
  | cons l ls ih =>
    have hnext := ih (h.step l)
    rw [History.tell]
    rwa [List.append_assoc] at hnext

end History

namespace Cache

/-! ## Owners -/

/-- **Type names belong to the interfaces with implementations.** -/
theorem Records.owner?_eq_some_iff {cache : Cache} {past : History} (h : Records cache past)
    (hled : past.Led) (typeName interface : String) :
    cache.owner? typeName = some interface ↔
      (cache.get? interface).isSome = true ∧ TypeName.ofInterface interface = typeName := by
  rw [h.owner, Option.isSome_iff_exists]
  constructor
  · rintro ⟨p, hp, rfl, hname, hok⟩
    obtain ⟨⟨first, o⟩, hfirst, hfirstok⟩ := hled p hp hok
    obtain ⟨shared, rfl⟩ := isOk_iff.mp hfirstok
    exact ⟨⟨_, h.get?_eq_some_iff.mpr ⟨first, shared, hfirst, rfl⟩⟩, hname⟩
  · rintro ⟨⟨i, hi⟩, hname⟩
    obtain ⟨l, shared, hfirst, -⟩ := h.get?_eq_some_iff.mp hi
    obtain ⟨hmem, hl⟩ := History.first?_eq_some hfirst
    exact ⟨_, hmem, hl, hname, rfl⟩

/-! ## Refusals -/

/-- A first lookup is refused for its type name by the rival of its interface. -/
theorem firstOutcome_eq_duplicateTypeName_iff {cache : Cache} {l : Lookup}
    {typeName owner requested : String} :
    cache.firstOutcome l = .error (.duplicateTypeName typeName owner requested) ↔
      cache.rival? l.interface = some owner ∧ typeName = TypeName.ofInterface l.interface ∧
        requested = l.interface := by
  unfold firstOutcome
  cases cache.rival? l.interface with
  | some rival =>
    simp only [nameTaken, Except.error.injEq, SynthesisError.duplicateTypeName.injEq,
      Option.some.injEq]
    constructor
    · rintro ⟨rfl, rfl, rfl⟩
      exact ⟨rfl, rfl, rfl⟩
    · rintro ⟨rfl, rfl, rfl⟩
      exact ⟨rfl, rfl, rfl⟩
  | none =>
    simp only [reduceCtorEq, false_and, iff_false]
    intro h
    cases hs : l.contract.synthesize with
    | ok i => simp [hs, Except.map] at h
    | error e =>
      have he : e = .duplicateTypeName typeName owner requested := by simpa [hs, Except.map] using h
      exact (Contract.synthesize_eq_error_iff.mp hs).ne_duplicateTypeName he

/-- The first lookup of an interface on a cache with some history. -/
theorem Records.refused_iff {cache : Cache} {past : History} (h : Records cache past)
    (hled : past.Led) {l : Lookup} (he : cache.entry? l.interface = none)
    {typeName owner requested : String} :
    (cache.lookUp l).1 = .error (.duplicateTypeName typeName owner requested) ↔
      (cache.get? owner).isSome = true ∧ TypeName.Clash owner l.interface ∧
        typeName = TypeName.ofInterface l.interface ∧ requested = l.interface := by
  -- What is cached successfully has an entry, so it is another interface.
  have hother : (cache.get? owner).isSome = true → owner ≠ l.interface := by
    rintro hget rfl
    simp [get?, outcome?, he] at hget
  rw [(lookUp_first h.settled he).1, firstOutcome_eq_duplicateTypeName_iff, rival?_eq_some_iff,
    h.owner?_eq_some_iff hled, TypeName.ofInterface_eq_iff]
  constructor
  · rintro ⟨⟨⟨hget, hclash⟩, -⟩, hname, hrequested⟩
    exact ⟨hget, hclash, hname, hrequested⟩
  · rintro ⟨hget, hclash, hname, hrequested⟩
    exact ⟨⟨⟨hget, hclash⟩, hother hget⟩, hname, hrequested⟩

/-- **Which interfaces clash.** Of two identities with different last segments, the type names are the
same exactly where one segment has no mark and is empty or begins with a capital, and the other is that
one with the mark before it and the suffix behind; with the same last segment they always are, and a
type name is never the last segment itself. On a cache that other lookups were made on, the first lookup
of an interface is refused for its type name exactly where an interface is cached successfully that
clashes with it, and the error names that one. -/
theorem refused_iff_clash :
    (∀ x y : String,
      let a := Text.lastSegment x.toList
      let b := Text.lastSegment y.toList
      (a ≠ b →
        (TypeName.ofInterface x = TypeName.ofInterface y ↔
          TypeName.Meets a b ∨ TypeName.Meets b a)) ∧
      (a = b → TypeName.ofInterface x = TypeName.ofInterface y) ∧
      TypeName.ofInterface x ≠ String.ofList a) ∧
    ∀ (calls : List Lookup) (l : Lookup), l.interface ∉ calls.map (·.interface) →
      let cache := ({} : Cache).after calls
      ∀ typeName owner requested,
        (cache.lookUp l).1 = .error (.duplicateTypeName typeName owner requested) ↔
          (cache.get? owner).isSome = true ∧ TypeName.Clash owner l.interface ∧
            typeName = TypeName.ofInterface l.interface ∧ requested = l.interface := by
  constructor
  · intro x y a b
    refine ⟨?_, ?_, TypeName.ofInterface_ne_shortName x⟩
    · intro h
      rw [TypeName.ofInterface_eq_iff_ofSegment, TypeName.ofSegment_eq_iff h]
    · intro h
      exact (TypeName.ofInterface_eq_iff_ofSegment x y).mpr (congrArg _ h)
  · intro calls l hl cache typeName owner requested
    obtain ⟨hlog, hrec⟩ := Records.fresh.run calls
    have hnone : cache.entry? l.interface = none := by
      rw [← Option.not_isSome_iff_eq_none, ← mem_known_iff, hrec.mem_known, List.nil_append, ← hlog,
        map_interface_log]
      exact hl
    exact hrec.refused_iff (History.led_nil.tell calls) hnone

/-- An interface without a mark is cached, and one with a mark comes to the same type name. -/
theorem refused_iff_clash_marked :
    TypeName.ofInterface "shop::Foo" = TypeName.ofInterface "depot::IFooImplementation" ∧
      TypeName.ofInterface "shop::IWidgets" = TypeName.ofInterface "depot::IWidgets" ∧
      ∃ shop depot : Lookup, shop.interface = "shop::Foo" ∧
        depot.interface = "depot::IFooImplementation" ∧
        ((({} : Cache).after [shop]).lookUp depot).1 =
          .error (.duplicateTypeName "FooImplementation" "shop::Foo" "depot::IFooImplementation") := by
  obtain ⟨hnames, hlookups⟩ := refused_iff_clash
  have hmeets : TypeName.Meets (Text.lastSegment "shop::Foo".toList)
      (Text.lastSegment "depot::IFooImplementation".toList) := by
    have hplain : Text.lastSegment "shop::Foo".toList = "Foo".toList := by decide
    rw [hplain]
    refine ⟨?_, ?_, by decide⟩
    · rintro ⟨c, rest, h, -⟩
      exact absurd h (by simp)
    · simp [TypeName.IsCapital]
  have hrefused : ∀ shop depot : Lookup, shop.interface = "shop::Foo" →
      depot.interface = "depot::IFooImplementation" → (∃ i, shop.contract.synthesize = .ok i) →
      ((({} : Cache).after [shop]).lookUp depot).1 = .error
        (.duplicateTypeName "FooImplementation" "shop::Foo" "depot::IFooImplementation") := by
    rintro shop depot hshop hdepot ⟨i, hi⟩
    have hnew : depot.interface ∉ [shop].map (·.interface) := by
      simp [hshop, hdepot]
    have hcached : ((({} : Cache).lookUp shop).2.get? "shop::Foo").isSome = true := by
      have hok : firstOutcome {} shop = .ok ⟨shop.caller, i⟩ := firstOutcome_of_free rfl hi
      simp [get?, outcome?, (lookUp_first settled_fresh rfl).2.entry, hshop, hok]
    refine (hlookups [shop] depot hnew _ _ _).mpr ⟨hcached, ?_, ?_, hdepot.symm⟩ <;> rw [hdepot]
    · exact Or.inr (Or.inl hmeets)
    · decide
  exact ⟨((hnames _ _).1 (by decide)).mpr (Or.inl hmeets), (hnames _ _).2.1 (by decide),
    ⟨0, listing "shop::Foo"⟩, ⟨1, listing "depot::IFooImplementation"⟩, rfl, rfl,
    hrefused _ _ rfl rfl (Contract.synthesize_isOk_iff.mpr (by decide +kernel))⟩

end Cache

end ClientSynth
