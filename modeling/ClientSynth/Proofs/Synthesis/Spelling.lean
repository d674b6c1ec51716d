import ClientSynth.Proofs.Synthesis.Outcome

/-!
# `ClientSynth.Proofs.Synthesis.Spelling` — a type may be written in several ways

Contracts keep types as texts, and every stage that needs a type reads the text again. What a stage
makes of it must then be a matter of the type: `Future< Vec< Widget > >` and `Future<Vec<Widget>>` are
one. Two contracts that differ in such spellings alone (`Contract.Respelled`) are followed here through
all the stages. What comes out of synthesis shows a text that could be read in two places only:

> in the error for a return type that no call can have, and in the fingerprint.

A text that could not be read is shown as it is, but then the two contracts have the same one.
-/

set_option autoImplicit false

namespace ClientSynth

/-! ## Spellings of a type -/

/-- The same text, or two texts that are read as one type. -/
def SameType (s s' : String) : Prop :=
  s = s' ∨ ∃ t, TypeExpr.ofString? s = some t ∧ TypeExpr.ofString? s' = some t

namespace SameType

variable {s s' : String}

theorem iff_read :
    SameType s s' ↔
      s = s' ∨ (TypeExpr.ofString? s).isSome = true ∧
        TypeExpr.ofString? s = TypeExpr.ofString? s' := by
  refine or_congr_right ⟨?_, ?_⟩
  · rintro ⟨t, hs, hs'⟩
    rw [hs, hs']
    exact ⟨rfl, rfl⟩
  · rintro ⟨hread, heq⟩
    obtain ⟨t, ht⟩ := Option.isSome_iff_exists.mp hread
    exact ⟨t, ht, heq ▸ ht⟩

instance : Decidable (SameType s s') := decidable_of_iff _ iff_read.symm

theorem ofString?_eq (h : SameType s s') : TypeExpr.ofString? s = TypeExpr.ofString? s' := by
  rcases h with rfl | ⟨t, hs, hs'⟩
  · rfl
  · rw [hs, hs']

theorem eq_of_unreadable (h : SameType s s') (hs : TypeExpr.ofString? s = none) : s = s' := by
  rcases h with rfl | ⟨t, hs', -⟩
  · rfl
  · rw [hs] at hs'
    cases hs'

end SameType

structure Param.Respelled (p p' : Param) : Prop where
  name : p.name = p'.name
  type : SameType p.type p'.type

structure Method.Respelled (m m' : Method) : Prop where
  name : m.name = m'.name
  params : List.Forall₂ Param.Respelled m.params m'.params
  returns : Option.Rel SameType m.returns m'.returns
  route : m.route = m'.route

/-- Two contracts that differ at most in how they write types. -/
structure Contract.Respelled (c c' : Contract) : Prop where
  version : c.version = c'.version
  name : c.name = c'.name
  description : c.description = c'.description
  methods : List.Forall₂ Method.Respelled c.methods c'.methods

/-! ## Outcomes -/

/-- One error, of one method. A return type that no call can have may be shown in two spellings. -/
inductive SynthesisError.Alike : SynthesisError → SynthesisError → Prop
  | refl (e : SynthesisError) : Alike e e
  | returns (interface method s s' : String) :
    Alike (.unsupportedReturnShape interface method s) (.unsupportedReturnShape interface method s')

/-- Two computations that both fail, alike, or that both come to values, which go together. -/
inductive Agree {α β : Type} (R : α → β → Prop) :
    Except SynthesisError α → Except SynthesisError β → Prop
  | error {e e' : SynthesisError} (h : e.Alike e') : Agree R (.error e) (.error e')
  | ok {a : α} {b : β} (h : R a b) : Agree R (.ok a) (.ok b)

namespace Agree

variable {α β γ δ : Type} {R : α → β → Prop} {S : γ → δ → Prop}

theorem of_eq {x y : Except SynthesisError α} (h : x = y) : Agree (· = ·) x y := by
  subst h
  cases x with
  | error e => exact .error (.refl e)
  | ok a => exact .ok rfl

theorem bind {x : Except SynthesisError α} {y : Except SynthesisError β} (h : Agree R x y)
    {f : α → Except SynthesisError γ} {g : β → Except SynthesisError δ}
    (hfg : ∀ a b, R a b → Agree S (f a) (g b)) : Agree S (x >>= f) (y >>= g) := by
  cases h with
  | error h => exact .error h
  | ok h => exact hfg _ _ h

end Agree

/-! ## Signatures -/

namespace Source

theorem param_respelled {p p' : Param} (h : p.Respelled p') : param p = param p' := by
  unfold param
  rw [h.name, ← h.type.ofString?_eq]
  cases ht : TypeExpr.ofString? p.type with
  | some t => rfl
  | none => rw [h.type.eq_of_unreadable ht]

theorem result_respelled {r r' : Option String} (h : Option.Rel SameType r r') :
    result r = result r' := by
  unfold result
  cases h with
  | none => rfl
  | some h => rw [Option.bind_some, Option.bind_some, h.ofString?_eq]

theorem signature_respelled {m m' : Method} (h : m.Respelled m') : signature m = signature m' := by
  have hparams : m.params.map param = m'.params.map param :=
    map_eq_map_of_forall₂ (fun _ _ hp => param_respelled hp) h.params
  unfold signature
  rw [h.name, hparams, result_respelled h.returns]

end Source

/-! ## Plans -/

section Plans

variable {m m' : Method} (h : m.Respelled m') (interface : String)
include h

theorem Method.arguments_respelled : m.arguments interface = m'.arguments interface := by
  refine mapM_eq_mapM_of_forall₂ (fun p p' hp => ?_) h.params
  rw [← hp.type.ofString?_eq, hp.name, h.name]
  cases ht : TypeExpr.ofString? p.type with
  | some t => rfl
  | none => rw [hp.type.eq_of_unreadable ht]

theorem Method.assemble_respelled (route : Route) (cl : Classification) :
    m.assemble interface route cl = m'.assemble interface route cl := by
  rw [assemble_eq, assemble_eq, arguments_respelled h, h.name]

namespace Classification

theorem bodyOf_respelled (route : Route) : bodyOf interface m route = bodyOf interface m' route := by
  have hparams := h.params
  unfold bodyOf
  generalize m.params = ps, m'.params = ps' at hparams
  cases hparams with
  | nil => rfl
  | @cons p p' _ _ hp _ =>
    simp only [hp.name, h.name, ← hp.type.ofString?_eq]
    cases ht : TypeExpr.ofString? p.type with
    | some t => rfl
    | none => rw [hp.type.eq_of_unreadable ht]

/-- The one stage whose error may show a text that could be read. -/
theorem payloadOf_respelled : Agree (· = ·) (payloadOf interface m) (payloadOf interface m') := by
  have hreturns := h.returns
  unfold payloadOf
  generalize m.returns = r, m'.returns = r' at hreturns
  cases hreturns with
  | none => exact .ok rfl
  | @some s s' hs =>
    simp only [h.name, ← hs.ofString?_eq]
    cases ht : TypeExpr.ofString? s with
    | none =>
      rw [hs.eq_of_unreadable ht]
      exact .error (.refl _)
    | some t =>
      dsimp only
      cases payload? t with
      | none => exact .error (.returns _ _ _ _)
      | some payload => exact .ok rfl

theorem ofMethod_respelled (route : Route) :
    Agree (· = ·) (ofMethod interface m route) (ofMethod interface m' route) := by
  unfold ofMethod
  refine (Agree.of_eq (bodyOf_respelled h interface route)).bind ?_
  rintro body _ rfl
  refine (payloadOf_respelled h interface).bind ?_
  rintro payload _ rfl
  exact .ok rfl

end Classification

end Plans

/-- Two plans of one call: only their methods may be written in two ways. -/
structure Plan.SameCall (p p' : Plan) : Prop where
  contract : p.contract.Respelled p'.contract
  route : p.route = p'.route
  classification : p.classification = p'.classification
  chain : p.chain = p'.chain

theorem Plan.ofMethod_respelled {m m' : Method} (h : m.Respelled m') (interface : String)
    (route : Route) :
    Agree Plan.SameCall (ofMethod interface m route) (ofMethod interface m' route) := by
  unfold ofMethod
  refine (Classification.ofMethod_respelled h interface route).bind ?_
  rintro cl _ rfl
  refine (Agree.of_eq (Method.assemble_respelled h interface route cl)).bind ?_
  rintro chain _ rfl
  exact .ok ⟨h, rfl, rfl, rfl⟩

theorem Contract.plans_respelled {ms ms' : List Method} (h : List.Forall₂ Method.Respelled ms ms')
    (interface : String) :
    Agree (List.Forall₂ Plan.SameCall) (plans interface ms) (plans interface ms') := by
  induction h with
  | nil => exact .ok .nil
  | @cons m m' _ _ hm _ ih =>
    cases hr : m.route with
    | none =>
      rw [plans_cons_of_unrouted _ hr, plans_cons_of_unrouted _ (hm.route ▸ hr)]
      exact ih
    | some route =>
      rw [plans_cons_of_routed _ hr, plans_cons_of_routed _ (hm.route ▸ hr)]
      refine (Plan.ofMethod_respelled hm interface route).bind fun p p' hp => ?_
      exact ih.bind fun ps ps' hps => .ok (.cons hp hps)

/-! ## Sources -/

namespace Source

theorem planLines_respelled {p p' : Plan} (h : p.SameCall p') : planLines p = planLines p' := by
  unfold planLines
  rw [h.route, h.chain, signature_respelled h.contract]

theorem methodLines_respelled {ps ps' : List Plan} (hps : List.Forall₂ Plan.SameCall ps ps')
    {m m' : Method} (h : m.Respelled m') : methodLines ps m = methodLines ps' m' := by
  have hname : ∀ p p' : Plan, p.SameCall p' → (p.name == m.name) = (p'.name == m'.name) :=
    fun p p' hp => by rw [Plan.name, Plan.name, hp.contract.name, h.name]
  unfold methodLines
  rcases find?_forall₂ hname hps with ⟨hp, hp'⟩ | ⟨p, p', hp, hp', hpp'⟩
  · rw [hp, hp', signature_respelled h]
  · rw [hp, hp']
    exact planLines_respelled hpp'

/-- The line that shows a fingerprint. -/
def fingerprintLine (fingerprint : String) : String :=
  "// fingerprint: " ++ fingerprint

/-- The third line of a source shows the fingerprint, and two spellings have the others in common. -/
theorem emit_respelled {c c' : Contract} (h : c.Respelled c') {ps ps' : List Plan}
    (hps : List.Forall₂ Plan.SameCall ps ps') (typeName : String) :
    ∃ before after, ∀ fingerprint,
      emit c typeName fingerprint ps =
        String.join ((before ++ fingerprintLine fingerprint :: after).map (· ++ "\n")) ∧
      emit c' typeName fingerprint ps' =
        String.join ((before ++ fingerprintLine fingerprint :: after).map (· ++ "\n")) := by
  have hmethods : c.methods.map (methodLines ps) = c'.methods.map (methodLines ps') :=
    map_eq_map_of_forall₂ (fun _ _ hm => methodLines_respelled hps hm) h.methods
  have hshort : c.shortName = c'.shortName := by
    rw [Contract.shortName, Contract.shortName, h.name]
  unfold emit header
  rw [← hmethods, ← hshort, ← h.name, ← h.description]
  exact ⟨[_, _], _, fun fingerprint => ⟨rfl, rfl⟩⟩

end Source

/-! ## Implementations -/

/-- Two implementations of one code: they differ at most in the spellings of types and in the
fingerprint, which has a line of its own in the source. -/
structure Implementation.SameCode (impl impl' : Implementation) : Prop where
  typeName : impl.typeName = impl'.typeName
  interface : impl.interface = impl'.interface
  plans : List.Forall₂ Plan.SameCall impl.plans impl'.plans
  unrouted : impl.unrouted = impl'.unrouted
  source : ∃ before after,
    impl.source = String.join
      ((before ++ Source.fingerprintLine impl.fingerprint :: after).map (· ++ "\n")) ∧
    impl'.source = String.join
      ((before ++ Source.fingerprintLine impl'.fingerprint :: after).map (· ++ "\n"))

namespace Contract

variable {c c' : Contract}

theorem implementation_respelled (h : c.Respelled c') {ps ps' : List Plan}
    (hps : List.Forall₂ Plan.SameCall ps ps') :
    (c.implementation ps).SameCode (c'.implementation ps') := by
  obtain ⟨before, after, hsource⟩ := Source.emit_respelled h hps (TypeName.ofInterface c.name)
  have hheadings := h.methods.imp fun m m' hm =>
    show m.name = m'.name ∧ m.isRouted = m'.isRouted from
      ⟨hm.name, by rw [Method.isRouted, Method.isRouted, hm.route]⟩
  unfold implementation
  rw [← h.name]
  exact
    { typeName := rfl
      interface := rfl
      plans := hps
      unrouted := unroutedNames_congr hheadings
      source := ⟨before, after, (hsource c.fingerprint).1, (hsource c'.fingerprint).2⟩ }

/-- Two spellings go through synthesis side by side. -/
theorem synthesize_agree (h : c.Respelled c') :
    Agree Implementation.SameCode c.synthesize c'.synthesize := by
  have hnames := repeatedName?_congr (h.methods.imp fun _ _ hm => hm.name) []
  rw [synthesize_eq, synthesize_eq, ← h.name, ← hnames]
  cases repeatedName? [] c.methods with
  | some name => exact .error (.refl _)
  | none =>
    refine (plans_respelled h.methods c.name).bind fun ps ps' hps => ?_
    cases hps with
    | nil => exact .error (.refl _)
    | cons hp hps => exact .ok (implementation_respelled h (.cons hp hps))

/-- **Synthesis depends on the types of a contract, and not on how they are written.** Take two contracts
that differ only in that some types are written in two ways which are read as one. Either both fail, with
one error of one method, or both have an implementation. Then type name, unrouted methods,
classifications and chains are the same (and so are the bodies, which are made from the chains), and the
sources have all lines in common except the one that shows the fingerprint. -/
theorem synthesize_respelled (h : c.Respelled c') :
    (∃ e e', c.synthesize = .error e ∧ c'.synthesize = .error e' ∧ e.Alike e') ∨
      (∃ impl impl', c.synthesize = .ok impl ∧ c'.synthesize = .ok impl' ∧
        impl.SameCode impl') := by
  have hagree := synthesize_agree h
  generalize c.synthesize = outcome, c'.synthesize = outcome' at hagree
  cases hagree with
  | error he => exact Or.inl ⟨_, _, rfl, rfl, he⟩
  | ok himpl => exact Or.inr ⟨_, _, rfl, rfl, himpl⟩

/-- Blanks inside a type change nothing, in a method with a route and in one without. -/
theorem synthesize_respelled_blanks :
    ∃ impl impl',
      synthesize
        { name := "IShop"
          methods :=
            [{ name := "save", params := [⟨"items", "Vec<Widget>"⟩],
               returns := some "Future<Map<i64,Widget>>", route := some ⟨"/items", .post⟩ },
             { name := "draft", params := [⟨"id", "Id<u8>"⟩] }] } = .ok impl ∧
      synthesize
        { name := "IShop"
          methods :=
            [{ name := "save", params := [⟨"items", " Vec< Widget >"⟩],
               returns := some "Future< Map<i64, Widget> >", route := some ⟨"/items", .post⟩ },
             { name := "draft", params := [⟨"id", "Id <u8>"⟩] }] } = .ok impl' ∧
      impl.SameCode impl' := by
  refine (synthesize_respelled ?_).resolve_left ?_
  · refine ⟨rfl, rfl, rfl, .cons ⟨rfl, .cons ⟨rfl, ?_⟩ .nil, .some ?_, rfl⟩
      (.cons ⟨rfl, .cons ⟨rfl, ?_⟩ .nil, .none, rfl⟩ .nil)⟩
    all_goals decide +kernel
  · rintro ⟨e, e', he, -⟩
    refine (synthesize_isOk_iff.mpr ?_).elim fun impl himpl => nomatch he.symm.trans himpl
    decide +kernel

end Contract

end ClientSynth
