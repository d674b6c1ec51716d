import ClientSynth.Proofs.Synthesis.Bindings
import ClientSynth.Proofs.Synthesis.Wiring

/-!
# `ClientSynth.Proofs.Synthesis.Problems` — what can be wrong with a method

A method goes through three stages, and each stops at the first thing that is wrong: its body is read,
then its return type, then all of its parameters. `Method.Problem` says with which error, over the
method and its route alone (`Plan.ofMethod_eq_error_iff`).

There is a fourth stage, which checks the frames that the method was assembled from. Nothing is ever
wrong there (`Method.assemble_isOk`): the inputs of the frames are those of a wiring, and the bindings
and the body only name parameters that the method has (`Method.assemble_isOk_iff`).
-/

set_option autoImplicit false

namespace ClientSynth

/-! ## Types that can be read -/

/-- A parameter whose type can be read. -/
def Param.IsReadable (p : Param) : Prop := ∃ t, TypeExpr.ofString? p.type = some t

/-- The types that a remote call can have: `()`, a wrapper alone, and a wrapper of one type. -/
inductive TypeExpr.IsReturned : TypeExpr → Prop
  | unit : IsReturned .unit
  | bare {wrapper : String} (h : wrapper = "Future" ∨ wrapper = "Task") :
    IsReturned (.named wrapper)
  | payload {wrapper : String} (h : wrapper = "Future" ∨ wrapper = "Task") (t : TypeExpr) :
    IsReturned (.app wrapper [t])

theorem Classification.payload?_isSome_iff {t : TypeExpr} :
    (∃ payload, payload? t = some payload) ↔ t.IsReturned := by
  constructor
  · rintro ⟨payload, h⟩
    obtain ⟨n, args⟩ := t
    unfold payload? at h
    split at h
    · rename_i hu
      obtain ⟨rfl, rfl⟩ : n = TypeExpr.unitName ∧ args = [] := by
        simpa [TypeExpr.isUnit, TypeExpr.name, TypeExpr.args] using hu
      exact .unit
    · split at h
      · rename_i hw
        have hname : n = "Future" ∨ n = "Task" := by
          simpa [wrappers, TypeExpr.name] using hw
        match args, h with
        | [], _ => exact .bare hname
        | [t], _ => exact .payload hname t
        | _ :: _ :: _, h => exact absurd h (by simp [TypeExpr.args])
      · exact absurd h (by simp)
  · rintro (_ | hw | ⟨hw, t⟩)
    · exact ⟨none, rfl⟩
    · rcases hw with rfl | rfl <;> exact ⟨none, rfl⟩
    · rcases hw with rfl | rfl <;> exact ⟨_, rfl⟩

namespace Method

/-- Whether the parameter that is sent as the body, if there is one, can be read. -/
def BodyReadable (m : Method) (route : Route) : Prop :=
  ∀ first rest, m.params = first :: rest → Template.hasSegment route.path first.name = false →
    first.IsReadable

/-- Whether the return type, if there is one, can be read and is one that a call can have. -/
def ReturnsSupported (m : Method) : Prop :=
  ∀ written, m.returns = some written →
    ∃ t, TypeExpr.ofString? written = some t ∧ t.IsReturned

/-- What a method with a route needs to be synthesized. -/
structure IsSynthesizable (m : Method) : Prop where
  params : ∀ p ∈ m.params, p.IsReadable
  returns : m.ReturnsSupported

instance (p : Param) : Decidable p.IsReadable :=
  decidable_of_iff ((TypeExpr.ofString? p.type).isSome = true) Option.isSome_iff_exists

instance (m : Method) : Decidable m.ReturnsSupported :=
  decidable_of_iff
    (∀ written ∈ m.returns, ∃ t ∈ TypeExpr.ofString? written,
      (Classification.payload? t).isSome = true)
    (by simp [ReturnsSupported, Option.isSome_iff_exists, Classification.payload?_isSome_iff])

instance (m : Method) : Decidable m.IsSynthesizable :=
  decidable_of_iff ((∀ p ∈ m.params, p.IsReadable) ∧ m.ReturnsSupported)
    ⟨fun h => ⟨h.1, h.2⟩, fun h => ⟨h.params, h.returns⟩⟩

/-- What is wrong first with a method: its body, then its return type, then its parameters in order. -/
inductive Problem (interface : String) (m : Method) (route : Route) : SynthesisError → Prop
  | body {first : Param} {rest : List Param} (hparams : m.params = first :: rest)
      (hsent : Template.hasSegment route.path first.name = false) (hread : ¬ first.IsReadable) :
    Problem interface m route (.invalidTypeExpression interface m.name first.type)
  | unreadable {written : String} (hbody : m.BodyReadable route)
      (hreturns : m.returns = some written) (hread : TypeExpr.ofString? written = none) :
    Problem interface m route (.invalidTypeExpression interface m.name written)
  | unsupported {written : String} {t : TypeExpr} (hbody : m.BodyReadable route)
      (hreturns : m.returns = some written) (hread : TypeExpr.ofString? written = some t)
      (hshape : ¬ t.IsReturned) :
    Problem interface m route
      (.unsupportedReturnShape interface m.name (String.ofList (Text.trim written.toList)))
  | param {p : Param} (hbody : m.BodyReadable route) (hreturns : m.ReturnsSupported)
      (hparams : Until Param.IsReadable (fun q => q = p ∧ ¬ q.IsReadable) m.params) :
    Problem interface m route (.invalidTypeExpression interface m.name p.type)

end Method

/-! ## The stages of a method -/

namespace Classification

variable {interface : String} {m : Method} {route : Route} {e : SynthesisError}

theorem bodyOf_isOk_iff (interface : String) :
    (∃ body, bodyOf interface m route = .ok body) ↔ m.BodyReadable route := by
  unfold bodyOf Method.BodyReadable Param.IsReadable
  cases hps : m.params with
  | nil => simp
  | cons first rest =>
    cases hseg : Template.hasSegment route.path first.name with
    | true => simp_all
    | false => cases ht : TypeExpr.ofString? first.type <;> simp_all

theorem bodyOf_eq_error_iff :
    bodyOf interface m route = .error e ↔
      ∃ first rest, m.params = first :: rest ∧ Template.hasSegment route.path first.name = false ∧
        ¬ first.IsReadable ∧ .invalidTypeExpression interface m.name first.type = e := by
  unfold bodyOf Param.IsReadable
  cases hps : m.params with
  | nil => simp
  | cons first rest =>
    cases hseg : Template.hasSegment route.path first.name with
    | true => simp_all
    | false => cases ht : TypeExpr.ofString? first.type <;> simp_all

theorem index_lt_of_bodyOf {p : BodyParam} (h : bodyOf interface m route = .ok (some p)) :
    p.index.toNat < m.params.length := by
  cases hps : m.params with
  | nil => simp [bodyOf, hps] at h
  | cons first rest =>
    rcases (bodyOf_cons_eq_ok_iff hps).mp h with ⟨-, hnone⟩ | ⟨-, t, -, hbody⟩
    · cases hnone
    · cases hbody
      exact Nat.zero_lt_succ _

theorem payloadOf_isOk_iff (interface : String) :
    (∃ payload, payloadOf interface m = .ok payload) ↔ m.ReturnsSupported := by
  unfold payloadOf Method.ReturnsSupported
  cases hr : m.returns with
  | none => simp
  | some written =>
    cases ht : TypeExpr.ofString? written with
    | none => simp [ht]
    | some t => cases hp : payload? t <;> simp [ht, hp, ← payload?_isSome_iff]

theorem payloadOf_eq_error_iff :
    payloadOf interface m = .error e ↔
      ∃ written, m.returns = some written ∧
        ((TypeExpr.ofString? written = none ∧
            .invalidTypeExpression interface m.name written = e) ∨
          ∃ t, TypeExpr.ofString? written = some t ∧ ¬ t.IsReturned ∧
            .unsupportedReturnShape interface m.name
              (String.ofList (Text.trim written.toList)) = e) := by
  unfold payloadOf
  cases hr : m.returns with
  | none => simp
  | some written =>
    cases ht : TypeExpr.ofString? written with
    | none => simp [ht]
    | some t => cases hp : payload? t <;> simp [ht, hp, ← payload?_isSome_iff]

theorem ofMethod_isOk_iff (interface : String) :
    (∃ cl, ofMethod interface m route = .ok cl) ↔ m.BodyReadable route ∧ m.ReturnsSupported := by
  rw [← bodyOf_isOk_iff interface, ← payloadOf_isOk_iff interface]
  unfold ofMethod
  simp only [bind_eq_ok_iff, pure_eq_ok_iff]
  constructor
  · rintro ⟨_, body, hbody, payload, hpayload, -⟩
    exact ⟨⟨body, hbody⟩, payload, hpayload⟩
  · rintro ⟨⟨body, hbody⟩, payload, hpayload⟩
    exact ⟨_, body, hbody, payload, hpayload, rfl⟩

theorem ofMethod_eq_error_iff :
    ofMethod interface m route = .error e ↔
      bodyOf interface m route = .error e ∨
        (m.BodyReadable route ∧ payloadOf interface m = .error e) := by
  unfold ofMethod
  rw [bind_eq_error_iff, ← bodyOf_isOk_iff interface]
  simp [bind_eq_error_iff, pure, Except.pure]

end Classification

namespace Method

variable {interface : String} {m : Method} {route : Route} {e : SynthesisError}

theorem arguments_isOk_iff (interface : String) :
    (∃ vs, m.arguments interface = .ok vs) ↔ ∀ p ∈ m.params, p.IsReadable := by
  unfold arguments
  rw [mapM_isOk_iff]
  refine forall₂_congr fun p _ => ?_
  unfold Param.IsReadable
  cases TypeExpr.ofString? p.type <;> simp

theorem arguments_eq_error_iff :
    m.arguments interface = .error e ↔
      Until Param.IsReadable
        (fun p => ¬ p.IsReadable ∧ .invalidTypeExpression interface m.name p.type = e)
        m.params := by
  unfold arguments
  rw [mapM_eq_error_iff]
  refine until_congr (fun p => ?_) (fun p => ?_) <;>
    unfold Param.IsReadable <;> cases TypeExpr.ofString? p.type <;> simp

/-- All that can be wrong with the frames of a method is its body. -/
theorem issues_laid (interface : String) (m : Method) (vs : List Variable) (route : Route)
    (cl : Classification) :
    ((wiring interface route (bindings (Scope.ofArguments vs) route.path) cl).foldl ChainBuilder.lay
      (ChainBuilder.start interface m.name vs)).chain.issues = cl.misplaced vs.length := by
  -- What the builder named the outputs has no part in it, so the shapes that it was given are enough.
  rw [Chain.issues, ChainBuilder.chain, ChainBuilder.arguments_foldl_lay, ← Issue.all_unnamed,
    ChainBuilder.shapes_foldl_lay]
  exact issues_wiring (fun _ => mem_boundInputs_bindings vs route.path) interface route cl

/-- **The frames of a method fit together**: with parameters that can be read, of which the body is one
if there is a body, there is a chain. -/
theorem assemble_isOk_iff {cl : Classification} :
    (∃ c, m.assemble interface route cl = .ok c) ↔
      (∀ p ∈ m.params, p.IsReadable) ∧ ∀ p, cl.body = some p → p.index.toNat < m.params.length := by
  rw [← arguments_isOk_iff interface, ← Classification.misplaced_eq_nil_iff, assemble_eq]
  constructor
  · intro ⟨c, h⟩
    obtain ⟨vs, hvs, h⟩ := bind_eq_ok_iff.mp h
    have hissues := ((ChainBuilder.finish_eq_ok_iff _).mp h).1
    rw [issues_laid, ← (arguments_eq_ok hvs).length_eq] at hissues
    exact ⟨⟨vs, hvs⟩, hissues⟩
  · intro ⟨⟨vs, hvs⟩, hbody⟩
    rw [(arguments_eq_ok hvs).length_eq, ← issues_laid interface m vs route] at hbody
    rw [hvs]
    exact ⟨_, (ChainBuilder.finish_eq_ok_iff _).mpr ⟨hbody, rfl⟩⟩

/-- Assembling fails for the first parameter that cannot be read. If all can be, it fails for a body
that is none of them. -/
theorem assemble_eq_error_iff_misplaced {cl : Classification} :
    m.assemble interface route cl = .error e ↔
      m.arguments interface = .error e ∨
        ((∀ p ∈ m.params, p.IsReadable) ∧ cl.misplaced m.params.length ≠ [] ∧
          .invalidChain interface m.name
            ((cl.misplaced m.params.length).map (·.message)) = e) := by
  have hfinish : ∀ vs, m.arguments interface = .ok vs →
      (((wiring interface route (bindings (Scope.ofArguments vs) route.path) cl).foldl
          ChainBuilder.lay (ChainBuilder.start interface m.name vs)).finish = .error e ↔
        cl.misplaced m.params.length ≠ [] ∧
          .invalidChain interface m.name ((cl.misplaced m.params.length).map (·.message)) = e) := by
    intro vs hvs
    rw [ChainBuilder.finish_eq_error_iff, issues_laid, ← (arguments_eq_ok hvs).length_eq,
      ChainBuilder.interface_foldl_lay, ChainBuilder.method_foldl_lay]
    exact Iff.rfl
  rw [← arguments_isOk_iff interface, assemble_eq, bind_eq_error_iff]
  refine or_congr_right ?_
  constructor
  · intro ⟨vs, hvs, h⟩
    exact ⟨⟨vs, hvs⟩, (hfinish vs hvs).mp h⟩
  · intro ⟨⟨vs, hvs⟩, h⟩
    exact ⟨vs, hvs, (hfinish vs hvs).mpr h⟩

/-- The body that a method is classified to have is one of its parameters. -/
theorem misplaced_of_ofMethod {cl : Classification}
    (hcl : Classification.ofMethod interface m route = .ok cl) :
    cl.misplaced m.params.length = [] := by
  refine Classification.misplaced_eq_nil_iff.mpr fun p hp => ?_
  exact Classification.index_lt_of_bodyOf (hp ▸ (Classification.ofMethod_eq_ok hcl).1)

theorem assemble_isOk {cl : Classification} {vs : List Variable}
    (hvs : m.arguments interface = .ok vs) (hcl : Classification.ofMethod interface m route = .ok cl) :
    ∃ c, m.assemble interface route cl = .ok c :=
  assemble_isOk_iff.mpr ⟨(arguments_isOk_iff interface).mp ⟨vs, hvs⟩,
    Classification.misplaced_eq_nil_iff.mp (misplaced_of_ofMethod hcl)⟩

/-- Assembling what the method is classified as fails only for a parameter that cannot be read. -/
theorem assemble_eq_error_iff {cl : Classification}
    (hcl : Classification.ofMethod interface m route = .ok cl) :
    m.assemble interface route cl = .error e ↔ m.arguments interface = .error e := by
  rw [assemble_eq_error_iff_misplaced, misplaced_of_ofMethod hcl]
  exact or_iff_left fun h => h.2.1 rfl

/-- If all parameters can be read, so can the body. -/
theorem IsSynthesizable.body (h : m.IsSynthesizable) (route : Route) : m.BodyReadable route :=
  fun first _ hps _ => h.params first (hps ▸ List.mem_cons_self)

end Method

namespace Plan

variable {interface : String} {m : Method} {route : Route} {e : SynthesisError}

theorem ofMethod_isOk_iff (interface : String) (route : Route) :
    (∃ p, ofMethod interface m route = .ok p) ↔ m.IsSynthesizable := by
  constructor
  · rintro ⟨p, h⟩
    unfold ofMethod at h
    obtain ⟨cl, hcl, h⟩ := bind_eq_ok_iff.mp h
    obtain ⟨c, hc, -⟩ := bind_eq_ok_iff.mp h
    exact ⟨(Method.arguments_isOk_iff _).mp ⟨_, (Method.assemble_eq_ok hc).1⟩,
      (Classification.payloadOf_isOk_iff _).mp ⟨_, (Classification.ofMethod_eq_ok hcl).2⟩⟩
  · intro h
    obtain ⟨body, hbody⟩ := (Classification.bodyOf_isOk_iff _).mpr (h.body route)
    obtain ⟨payload, hpayload⟩ := (Classification.payloadOf_isOk_iff _).mpr h.returns
    obtain ⟨vs, hvs⟩ := (Method.arguments_isOk_iff _).mpr h.params
    have hcl : Classification.ofMethod interface m route = .ok ⟨body, payload⟩ := by
      rw [Classification.ofMethod, hbody, hpayload]
      rfl
    obtain ⟨c, hc⟩ := Method.assemble_isOk hvs hcl
    refine ⟨⟨m, route, ⟨body, payload⟩, c⟩, ?_⟩
    rw [ofMethod, hcl]
    show (m.assemble interface route ⟨body, payload⟩ >>= _) = _
    rw [hc]
    rfl

/-- **A plan fails with the first problem of its method.** -/
theorem ofMethod_eq_error_iff :
    ofMethod interface m route = .error e ↔ m.Problem interface route e := by
  -- The frames are never wrong, so what is left of the last stage is that the parameters are read.
  have hstages : ofMethod interface m route = .error e ↔
      Classification.ofMethod interface m route = .error e ∨
        ((m.BodyReadable route ∧ m.ReturnsSupported) ∧ m.arguments interface = .error e) := by
    unfold ofMethod
    rw [bind_eq_error_iff, ← Classification.ofMethod_isOk_iff interface]
    refine or_congr_right ⟨?_, ?_⟩
    · rintro ⟨cl, hcl, h⟩
      rcases bind_eq_error_iff.mp h with h | ⟨c, -, h⟩
      · exact ⟨⟨cl, hcl⟩, (Method.assemble_eq_error_iff hcl).mp h⟩
      · exact absurd h (by simp [pure, Except.pure])
    · rintro ⟨⟨cl, hcl⟩, h⟩
      exact ⟨cl, hcl, bind_eq_error_iff.mpr (Or.inl ((Method.assemble_eq_error_iff hcl).mpr h))⟩
  rw [hstages, Classification.ofMethod_eq_error_iff, Classification.bodyOf_eq_error_iff,
    Classification.payloadOf_eq_error_iff, Method.arguments_eq_error_iff]
  constructor
  · rintro ((⟨first, rest, hps, hseg, hread, rfl⟩ |
      ⟨hbody, written, hr, ⟨hread, rfl⟩ | ⟨t, hread, hshape, rfl⟩⟩) |
      ⟨⟨hbody, hreturns⟩, before, p, after, hps, hbefore, hread, rfl⟩)
    · exact .body hps hseg hread
    · exact .unreadable hbody hr hread
    · exact .unsupported hbody hr hread hshape
    · exact .param hbody hreturns ⟨before, p, after, hps, hbefore, rfl, hread⟩
  · intro h
    cases h with
    | body hps hseg hread => exact Or.inl (Or.inl ⟨_, _, hps, hseg, hread, rfl⟩)
    | unreadable hbody hr hread => exact Or.inl (Or.inr ⟨hbody, _, hr, Or.inl ⟨hread, rfl⟩⟩)
    | unsupported hbody hr hread hshape =>
      exact Or.inl (Or.inr ⟨hbody, _, hr, Or.inr ⟨_, hread, hshape, rfl⟩⟩)
    | param hbody hreturns hps =>
      obtain ⟨before, _, after, hps, hbefore, rfl, hread⟩ := hps
      exact Or.inr ⟨⟨hbody, hreturns⟩, before, _, after, hps, hbefore, hread, rfl⟩

end Plan

end ClientSynth
