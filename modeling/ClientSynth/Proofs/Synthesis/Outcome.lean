import ClientSynth.Proofs.Synthesis.Problems

/-!
# `ClientSynth.Proofs.Synthesis.Outcome` — what synthesis comes to

Whether a contract can be synthesized, and what is reported if not, is said here over the contract
alone: no classification, no frames and no chains. The questions come in a fixed order, and the first
one with a bad answer is the error:

1. does a method name occur twice?
2. going over the methods with a route, is there something wrong with one (`Method.Problem`)?
3. is there a method with a route at all?

`IsSynthesizable` is that all answers are good, and `Problem` is the first that is bad. A contract has
the one or the other, whatever its shape is: that it is valid is not asked for.
-/

set_option autoImplicit false

namespace ClientSynth

namespace Contract

/-! ## Names -/

theorem repeatedName?_eq_none_iff :
    ∀ (ms : List Method) {seen : List String}, seen.Nodup →
      (repeatedName? seen ms = none ↔ (ms.map (·.name) ++ seen).Nodup)
  | [], seen, hseen => by simpa [repeatedName?] using hseen
  | m :: ms, seen, hseen => by
    rw [List.map_cons, List.cons_append, ← List.nodup_middle]
    unfold repeatedName?
    by_cases hm : m.name ∈ seen
    · have hnot : ¬ (ms.map (·.name) ++ m.name :: seen).Nodup := fun h =>
        (List.nodup_cons.mp (List.nodup_append.mp h).2.1).1 hm
      simpa [hm] using hnot
    · simpa [hm] using repeatedName?_eq_none_iff ms (List.nodup_cons.mpr ⟨hm, hseen⟩)

theorem repeatedName?_eq_some_iff (name : String) :
    ∀ (ms : List Method) {seen : List String}, seen.Nodup →
      (repeatedName? seen ms = some name ↔
        ∃ before m after, ms = before ++ m :: after ∧
          (before.map (·.name) ++ seen).Nodup ∧ m.name ∈ before.map (·.name) ++ seen ∧
            m.name = name)
  | [], seen, _ => by simp [repeatedName?]
  | m :: ms, seen, hseen => by
    refine Iff.trans ?_ (exists_split_cons (R := fun before (q : Method) =>
      (before.map (·.name) ++ seen).Nodup ∧ q.name ∈ before.map (·.name) ++ seen ∧
        q.name = name)).symm
    unfold repeatedName?
    by_cases hm : m.name ∈ seen
    · simp [hm, hseen]
    · -- A name that was passed is one that was seen; where it stands among those does not matter.
      have ih := repeatedName?_eq_some_iff name ms
        (List.nodup_cons.mpr ⟨hm, hseen⟩)
      rw [if_neg hm, ih]
      simp only [List.map_cons, List.cons_append, List.nodup_middle, List.perm_middle.mem_iff]
      simp [hm]

/-! ## Plans -/

section Plans

variable {m : Method} {ms : List Method}

theorem plans_cons_of_unrouted (interface : String) (hr : m.route = none) :
    plans interface (m :: ms) = plans interface ms := by
  rw [plans, hr]

theorem plans_cons_of_routed (interface : String) {route : Route} (hr : m.route = some route) :
    plans interface (m :: ms) =
      Plan.ofMethod interface m route >>= fun p =>
        plans interface ms >>= fun ps => pure (p :: ps) := by
  rw [plans, hr]

end Plans

/-- A method with a route needs to be synthesizable; one without may be anything. -/
theorem plans_isOk_iff (interface : String) :
    ∀ {ms : List Method},
      (∃ ps, plans interface ms = .ok ps) ↔ ∀ m ∈ ms, m.isRouted = true → m.IsSynthesizable
  | [] => by simp [plans]
  | m :: ms => by
    rw [List.forall_mem_cons, ← plans_isOk_iff interface]
    cases hr : m.route with
    | none => simp [plans_cons_of_unrouted interface hr, Method.isRouted, hr]
    | some route =>
      rw [← Plan.ofMethod_isOk_iff interface route, plans_cons_of_routed interface hr]
      simp only [Method.isRouted, hr, Option.isSome_some, true_implies, bind_eq_ok_iff,
        pure_eq_ok_iff]
      constructor
      · rintro ⟨_, p, hp, ps, hps, -⟩
        exact ⟨⟨p, hp⟩, ps, hps⟩
      · rintro ⟨⟨p, hp⟩, ps, hps⟩
        exact ⟨_, p, hp, ps, hps, rfl⟩

theorem plans_eq_error_iff {interface : String} {e : SynthesisError} :
    ∀ {ms : List Method},
      plans interface ms = .error e ↔
        Until (fun m => m.isRouted = true → m.IsSynthesizable)
          (fun m => ∃ route, m.route = some route ∧ m.Problem interface route e) ms
  | [] => by simp [plans, not_until_nil]
  | m :: ms => by
    rw [until_cons_iff, ← plans_eq_error_iff]
    cases hr : m.route with
    | none => simp [plans_cons_of_unrouted interface hr, Method.isRouted, hr]
    | some route =>
      rw [← Plan.ofMethod_isOk_iff interface route, plans_cons_of_routed interface hr]
      simp [Method.isRouted, hr, bind_eq_error_iff, pure, Except.pure, Plan.ofMethod_eq_error_iff]

/-! ## Contracts -/

/-- What a contract needs to be synthesized. -/
structure IsSynthesizable (c : Contract) : Prop where
  names : (c.methods.map (·.name)).Nodup
  routed : ∃ m ∈ c.methods, m.isRouted = true
  methods : ∀ m ∈ c.methods, m.isRouted = true → m.IsSynthesizable

instance (c : Contract) : Decidable c.IsSynthesizable :=
  decidable_of_iff
    ((c.methods.map (·.name)).Nodup ∧ (∃ m ∈ c.methods, m.isRouted = true) ∧
      ∀ m ∈ c.methods, m.isRouted = true → m.IsSynthesizable)
    ⟨fun h => ⟨h.1, h.2.1, h.2.2⟩, fun h => ⟨h.names, h.routed, h.methods⟩⟩

/-- What is wrong first with a contract: a method name that occurred before, then the methods with a
route in order, then that there is none. -/
inductive Problem (c : Contract) : SynthesisError → Prop
  | repeatedName {before after : List Method} {m : Method}
      (hmethods : c.methods = before ++ m :: after) (hbefore : (before.map (·.name)).Nodup)
      (hm : m.name ∈ before.map (·.name)) :
    Problem c (.duplicateMethod c.name m.name)
  | method {e : SynthesisError} (hnames : (c.methods.map (·.name)).Nodup)
      (hmethods : Until (fun m => m.isRouted = true → m.IsSynthesizable)
        (fun m => ∃ route, m.route = some route ∧ m.Problem c.name route e) c.methods) :
    Problem c e
  | noRoute (hnames : (c.methods.map (·.name)).Nodup)
      (hmethods : ∀ m ∈ c.methods, m.isRouted = false) :
    Problem c (.nothingToSynthesize c.name)

/-- The implementation with some plans. -/
def implementation (c : Contract) (ps : List Plan) : Implementation where
  typeName := TypeName.ofInterface c.name
  interface := c.name
  fingerprint := c.fingerprint
  plans := ps
  unrouted := c.unroutedNames
  source := Source.emit c (TypeName.ofInterface c.name) c.fingerprint ps

/-- The stages of synthesis in order. -/
theorem synthesize_eq (c : Contract) :
    c.synthesize =
      match repeatedName? [] c.methods with
      | some name => .error (.duplicateMethod c.name name)
      | none =>
        plans c.name c.methods >>= fun ps =>
          if ps = [] then .error (.nothingToSynthesize c.name) else .ok (c.implementation ps) := by
  unfold synthesize
  cases repeatedName? [] c.methods with
  | some name => rfl
  | none =>
    show plans c.name c.methods >>= _ = _
    congr 1
    funext ps
    cases ps <;> rfl

variable {c : Contract} {e : SynthesisError}

theorem plans_eq_nil_iff {interface : String} {ps : List Plan} (h : plans interface c.methods = .ok ps) :
    ps = [] ↔ ∀ m ∈ c.methods, m.isRouted = false := by
  have hlength := (plans_eq_ok h).length_eq
  rw [← List.length_eq_zero_iff, ← hlength, List.length_eq_zero_iff, List.filter_eq_nil_iff]
  simp

/-- **Synthesis succeeds exactly on the contracts that have what it needs.** -/
theorem synthesize_isOk_iff : (∃ impl, c.synthesize = .ok impl) ↔ c.IsSynthesizable := by
  have hnames := repeatedName?_eq_none_iff c.methods List.nodup_nil
  rw [List.append_nil] at hnames
  rw [synthesize_eq]
  cases hn : repeatedName? [] c.methods with
  | some name =>
    have hnot : ¬ c.IsSynthesizable := fun h => by simp [hnames.mpr h.names] at hn
    simp [hnot]
  | none =>
    simp only [bind_eq_ok_iff]
    constructor
    · rintro ⟨impl, ps, hps, h⟩
      by_cases hnil : ps = []
      · simp [hnil] at h
      · have hrouted : ∃ m ∈ c.methods, m.isRouted = true := by
          simpa using mt (plans_eq_nil_iff hps).mpr hnil
        exact ⟨hnames.mp hn, hrouted, (plans_isOk_iff _).mp ⟨ps, hps⟩⟩
    · intro h
      obtain ⟨ps, hps⟩ := (plans_isOk_iff _).mpr h.methods
      obtain ⟨m, hm, hr⟩ := h.routed
      have hne : ps ≠ [] := fun hnil => by
        simpa [hr] using (plans_eq_nil_iff hps).mp hnil m hm
      exact ⟨_, ps, hps, if_neg hne⟩

/-- **Synthesis fails exactly with the first problem of the contract.** -/
theorem synthesize_eq_error_iff : c.synthesize = .error e ↔ c.Problem e := by
  have hnone := repeatedName?_eq_none_iff c.methods List.nodup_nil
  have hsome := fun name => repeatedName?_eq_some_iff name c.methods List.nodup_nil
  simp only [List.append_nil] at hnone hsome
  rw [synthesize_eq]
  cases hn : repeatedName? [] c.methods with
  | some name =>
    have hnot : ¬ (c.methods.map (·.name)).Nodup := fun h => by simp [hnone.mpr h] at hn
    constructor
    · intro h
      obtain ⟨before, m, after, hms, hbefore, hm, rfl⟩ := (hsome name).mp hn
      obtain rfl : SynthesisError.duplicateMethod c.name m.name = e := by simpa using h
      exact .repeatedName hms hbefore hm
    · intro h
      cases h with
      | repeatedName hms hbefore hm =>
        have := (hsome _).mpr ⟨_, _, _, hms, hbefore, hm, rfl⟩
        simp only [hn, Option.some.injEq] at this
        rw [this]
      | method hnames => exact absurd hnames hnot
      | noRoute hnames => exact absurd hnames hnot
  | none =>
    have hnames := hnone.mp hn
    simp only [bind_eq_error_iff]
    constructor
    · rintro (h | ⟨ps, hps, h⟩)
      · exact .method hnames (plans_eq_error_iff.mp h)
      · by_cases hnil : ps = []
        · obtain rfl : SynthesisError.nothingToSynthesize c.name = e := by simpa [hnil] using h
          exact .noRoute hnames ((plans_eq_nil_iff hps).mp hnil)
        · simp [hnil] at h
    · intro h
      cases h with
      | repeatedName hms hbefore hm =>
        have := (hsome _).mpr ⟨_, _, _, hms, hbefore, hm, rfl⟩
        simp [hn] at this
      | method _ hms => exact Or.inl (plans_eq_error_iff.mpr hms)
      | noRoute _ hms =>
        obtain ⟨ps, hps⟩ := (plans_isOk_iff c.name).mpr
          fun m hm hr => absurd hr (by simp [hms m hm])
        exact Or.inr ⟨ps, hps, by simp [(plans_eq_nil_iff hps).mpr hms]⟩

/-- Of two things that are wrong with a method, its return type comes before its second parameter. -/
example :
    Contract.synthesize
      { name := "IShop"
        methods :=
          [{ name := "find", params := [⟨"id", "i64"⟩, ⟨"filter", "List<"⟩],
             returns := some "Widget", route := some ⟨"/widgets/{id}", .get⟩ }] } =
      .error (.unsupportedReturnShape "IShop" "find" "Widget") := by
  decide +kernel

/-- The frames of a method are never what is wrong with a contract. -/
theorem Problem.ne_invalidChain {interface method : String} {issues : List String}
    (h : c.Problem e) : e ≠ .invalidChain interface method issues := by
  rintro rfl
  cases h with
  | method _ hms =>
    obtain ⟨_, m, _, -, -, route, -, hm⟩ := hms
    cases hm

/-- Nor is a type name that is taken, which only a cache can know of. -/
theorem Problem.ne_duplicateTypeName {typeName owner requested : String} (h : c.Problem e) :
    e ≠ .duplicateTypeName typeName owner requested := by
  rintro rfl
  cases h with
  | method _ hms =>
    obtain ⟨_, m, _, -, -, route, -, hm⟩ := hms
    cases hm

/-! ## Methods without a route -/

/-- The same method, or two of one name without a route. -/
def SameCalls (m m' : Method) : Prop :=
  m = m' ∨ (m.name = m'.name ∧ m.route = none ∧ m'.route = none)

section Congr

variable {ms ms' : List Method}

theorem repeatedName?_congr (h : List.Forall₂ (fun m m' => m.name = m'.name) ms ms')
    (seen : List String) : repeatedName? seen ms = repeatedName? seen ms' := by
  induction h generalizing seen with
  | nil => rfl
  | cons hm _ ih => simp only [repeatedName?, hm, ih]

theorem unroutedNames_congr {c c' : Contract}
    (h : List.Forall₂ (fun m m' => m.name = m'.name ∧ m.isRouted = m'.isRouted)
      c.methods c'.methods) :
    c.unroutedNames = c'.unroutedNames := by
  unfold unroutedNames
  generalize c.methods = ms, c'.methods = ms' at h
  induction h with
  | nil => rfl
  | cons hm _ ih =>
    simp only [List.filter_cons, hm.2]
    split <;> simp [hm.1, ih]

theorem SameCalls.heading {m m' : Method} (h : SameCalls m m') :
    m.name = m'.name ∧ m.isRouted = m'.isRouted := by
  rcases h with rfl | ⟨hname, hr, hr'⟩
  · exact ⟨rfl, rfl⟩
  · exact ⟨hname, by rw [Method.isRouted, Method.isRouted, hr, hr']⟩

theorem plans_congr (h : List.Forall₂ SameCalls ms ms') (interface : String) :
    plans interface ms = plans interface ms' := by
  induction h with
  | nil => rfl
  | @cons m m' _ _ hm _ ih =>
    rcases hm with rfl | ⟨-, hr, hr'⟩
    · cases hr : m.route with
      | none => rw [plans_cons_of_unrouted _ hr, plans_cons_of_unrouted _ hr, ih]
      | some route => rw [plans_cons_of_routed _ hr, plans_cons_of_routed _ hr, ih]
    · rw [plans_cons_of_unrouted _ hr, plans_cons_of_unrouted _ hr', ih]

end Congr

/-- What an implementation has that calls depend on: all but the fingerprint and the source, which show
the whole contract. -/
def callable (impl : Implementation) : String × String × List Plan × List String :=
  (impl.typeName, impl.interface, impl.plans, impl.unrouted)

/-- What methods without a route have besides their names does not matter to what synthesis comes to. -/
theorem synthesize_congr {c c' : Contract} (hname : c.name = c'.name)
    (h : List.Forall₂ SameCalls c.methods c'.methods) :
    c.synthesize.map callable = c'.synthesize.map callable := by
  have hheadings := h.imp fun _ _ hm => hm.heading
  have hnames := repeatedName?_congr (hheadings.imp fun _ _ hm => hm.1) []
  rw [synthesize_eq, synthesize_eq, ← hname, ← hnames, ← plans_congr h]
  cases repeatedName? [] c.methods with
  | some name => rfl
  | none =>
    cases plans c.name c.methods with
    | error e => rfl
    | ok ps =>
      by_cases hnil : ps = []
      · simp [hnil, bind, Except.bind, Except.map]
      · simp [hnil, bind, Except.bind, Except.map, callable, implementation, hname,
          unroutedNames_congr hheadings]

/-! ## All or nothing -/

/-- All of an implementation but its plans is read off the contract. -/
theorem synthesize_implementation {impl : Implementation} (h : c.synthesize = .ok impl) :
    c.implementation impl.plans = impl := by
  rw [synthesize_eq] at h
  split at h
  · exact absurd h (by simp)
  · obtain ⟨ps, -, h⟩ := bind_eq_ok_iff.mp h
    split at h
    · exact absurd h (by simp)
    · cases h
      rfl

theorem synthesize_unrouted {impl : Implementation} (h : c.synthesize = .ok impl) :
    impl.unrouted = (c.methods.filter fun m => !m.isRouted).map (·.name) := by
  rw [← synthesize_implementation h]
  rfl

theorem synthesize_plans {impl : Implementation} (h : c.synthesize = .ok impl) :
    impl.plans.map (fun p => (p.contract, some p.route)) = c.routed.map fun m => (m, m.route) := by
  obtain ⟨-, hplans⟩ := synthesize_eq_ok h
  generalize c.routed = ms, impl.plans = ps at hplans
  induction hplans with
  | nil => rfl
  | cons hp _ ih => rw [List.map_cons, List.map_cons, ih, hp.contract, hp.route]

/-- **Synthesis is all or nothing, and it reports the first problem.** For every contract, valid or
not: there is an implementation exactly when the contract has what it needs; it has the methods with a
route, all of them and in order, and lists the names of the others; otherwise the error is the first
problem of the contract, and never one of frames that do not fit together; and the types of methods
without a route have no part in any of this. -/
theorem synthesize_all_or_nothing (c : Contract) :
    ((∃ impl, c.synthesize = .ok impl) ↔ c.IsSynthesizable) ∧
    (∀ impl, c.synthesize = .ok impl →
      impl.plans.map (fun p => (p.contract, some p.route)) = c.routed.map (fun m => (m, m.route)) ∧
      impl.unrouted = (c.methods.filter fun m => !m.isRouted).map (·.name)) ∧
    (∀ e, c.synthesize = .error e ↔ c.Problem e) ∧
    (∀ interface method issues, c.synthesize ≠ .error (.invalidChain interface method issues)) ∧
    (∀ c' : Contract, c.name = c'.name → List.Forall₂ SameCalls c.methods c'.methods →
      c.synthesize.map callable = c'.synthesize.map callable) := by
  refine ⟨synthesize_isOk_iff, fun impl h => ⟨synthesize_plans h, synthesize_unrouted h⟩,
    fun e => synthesize_eq_error_iff, fun interface method issues h => ?_,
    fun c' hname h => synthesize_congr hname h⟩
  exact (synthesize_eq_error_iff.mp h).ne_invalidChain rfl

end Contract

end ClientSynth
