import ClientSynth.Proofs.Lists
import ClientSynth.Synthesis.Implementation

/-!
# `ClientSynth.Proofs.Synthesis.Accepted` — what an accepted contract looks like

Synthesis goes over a contract and stops at the first thing that is wrong with it. Read backwards, an
implementation says that nothing was wrong: the types of all parameters could be read, every method
with a route was classified, and it has a plan that was assembled from that. The lemmas here say so for
one stage after the other, and `synthesize_eq_ok` for the contract.
-/

set_option autoImplicit false

namespace ClientSynth

/-! ## Parameters -/

/-- A parameter whose type could be read, as a variable. -/
def Param.Reads (p : Param) (v : Variable) : Prop :=
  v.name = p.name ∧ TypeExpr.ofString? p.type = some v.type

namespace Method

/-- The parameters of a method, in order, become its variables. -/
theorem arguments_eq_ok {interface : String} {m : Method} {vs : List Variable}
    (h : m.arguments interface = .ok vs) : List.Forall₂ Param.Reads m.params vs := by
  refine (mapM_eq_ok h).imp fun p v hv => ?_
  cases ht : TypeExpr.ofString? p.type with
  | none => exact absurd hv (by simp [ht])
  | some type =>
    simp only [ht, Except.ok.injEq] at hv
    subst hv
    exact ⟨rfl, ht⟩

/-- The names of the variables are those of the parameters. -/
theorem names_of_reads {ps : List Param} {vs : List Variable}
    (h : List.Forall₂ Param.Reads ps vs) : vs.map (·.name) = ps.map (·.name) := by
  induction h with
  | nil => rfl
  | cons hp _ ih => simp [hp.1, ih]

end Method

/-! ## Classification -/

namespace Classification

/-- The body is the first parameter, unless the route has a segment for it. -/
theorem bodyOf_cons_eq_ok_iff {interface : String} {m : Method} {route : Route} {first : Param}
    {rest : List Param} (hps : m.params = first :: rest) {body : Option BodyParam} :
    bodyOf interface m route = .ok body ↔
      (Template.hasSegment route.path first.name = true ∧ body = none) ∨
        (Template.hasSegment route.path first.name = false ∧
          ∃ t, TypeExpr.ofString? first.type = some t ∧ body = some ⟨0, first.name, t⟩) := by
  unfold bodyOf
  rw [hps]
  cases hseg : Template.hasSegment route.path first.name with
  | true => simpa [hseg] using eq_comm
  | false =>
    cases ht : TypeExpr.ofString? first.type with
    | none => simp [hseg, ht]
    | some t => simpa [hseg, ht] using eq_comm

theorem ofMethod_eq_ok {interface : String} {m : Method} {route : Route} {cl : Classification}
    (h : ofMethod interface m route = .ok cl) :
    bodyOf interface m route = .ok cl.body ∧ payloadOf interface m = .ok cl.payload := by
  unfold ofMethod at h
  obtain ⟨body, hbody, h⟩ := bind_eq_ok_iff.mp h
  obtain ⟨payload, hpayload, h⟩ := bind_eq_ok_iff.mp h
  rw [pure_eq_ok_iff] at h
  subst h
  exact ⟨hbody, hpayload⟩

end Classification

/-! ## Plans -/

namespace Plan

/-- A plan of a method of an interface. -/
structure IsFor (interface : String) (m : Method) (p : Plan) : Prop where
  contract : p.contract = m
  route : m.route = some p.route
  classification : Classification.ofMethod interface m p.route = .ok p.classification
  chain : m.assemble interface p.route p.classification = .ok p.chain

theorem ofMethod_eq_ok {interface : String} {m : Method} {route : Route} {p : Plan}
    (hr : m.route = some route) (h : ofMethod interface m route = .ok p) :
    p.IsFor interface m := by
  unfold ofMethod at h
  obtain ⟨cl, hcl, h⟩ := bind_eq_ok_iff.mp h
  obtain ⟨chain, hchain, h⟩ := bind_eq_ok_iff.mp h
  rw [pure_eq_ok_iff] at h
  subst h
  exact ⟨rfl, hr, hcl, hchain⟩

/-- A method has one plan. -/
theorem IsFor.ofMethod_eq {interface : String} {m : Method} {p : Plan} (h : p.IsFor interface m) :
    ofMethod interface m p.route = .ok p := by
  unfold ofMethod
  rw [h.classification]
  show m.assemble interface p.route p.classification >>= _ = _
  rw [h.chain, ← h.contract]
  rfl

/-- What comes of a plan can be told from the method, the route and the name of the interface. -/
theorem IsFor.eq_of_map {interface : String} {m : Method} {p : Plan} (h : p.IsFor interface m)
    {route : Route} (hr : m.route = some route) {α : Type} {f : Plan → α} {a : α}
    (hf : (ofMethod interface m route).map f = .ok a) : f p = a := by
  obtain rfl : route = p.route := Option.some.inj (hr.symm.trans h.route)
  rw [h.ofMethod_eq] at hf
  exact Except.ok.inj hf

end Plan

namespace Contract

/-- The plans are those of the methods with a route, in their order. -/
theorem plans_eq_ok {interface : String} :
    ∀ {ms : List Method} {ps : List Plan}, plans interface ms = .ok ps →
      List.Forall₂ (fun m p => Plan.IsFor interface m p) (ms.filter (·.isRouted)) ps
  | [], ps, h => by
    simp only [plans, Except.ok.injEq] at h
    subst h
    exact .nil
  | m :: ms, ps, h => by
    unfold plans at h
    cases hr : m.route with
    | none =>
      have hm : m.isRouted = false := by simp [Method.isRouted, hr]
      rw [List.filter_cons_of_neg (by simp [hm])]
      exact plans_eq_ok (by simpa [hr] using h)
    | some route =>
      have hm : m.isRouted = true := by simp [Method.isRouted, hr]
      rw [List.filter_cons_of_pos hm]
      rw [hr] at h
      obtain ⟨p, hp, h⟩ := bind_eq_ok_iff.mp h
      obtain ⟨rest, hrest, h⟩ := bind_eq_ok_iff.mp h
      rw [pure_eq_ok_iff] at h
      subst h
      exact .cons (Plan.ofMethod_eq_ok hr hp) (plans_eq_ok hrest)

/-- An accepted contract has an implementation with its identity and a plan for each method with a
route. -/
theorem synthesize_eq_ok {c : Contract} {impl : Implementation} (h : c.synthesize = .ok impl) :
    impl.interface = c.name ∧ List.Forall₂ (fun m p => Plan.IsFor c.name m p) c.routed impl.plans := by
  unfold synthesize at h
  split at h
  · exact absurd h (by simp)
  · obtain ⟨ps, hps, h⟩ := bind_eq_ok_iff.mp h
    dsimp only at h
    split at h
    · exact absurd h (by rintro ⟨⟩)
    · rw [pure_eq_ok_iff] at h
      subst h
      exact ⟨rfl, plans_eq_ok hps⟩

/-- Every method with a route has a plan. -/
theorem exists_plan {c : Contract} {impl : Implementation} (h : c.synthesize = .ok impl) {m : Method}
    (hm : m ∈ c.methods) {route : Route} (hr : m.route = some route) :
    ∃ p ∈ impl.plans, p.IsFor c.name m ∧ p.route = route := by
  have hrouted : m ∈ c.routed := List.mem_filter.mpr ⟨hm, by rw [Method.isRouted, hr]; rfl⟩
  obtain ⟨p, hp, hfor⟩ := exists_of_mem_forall₂ (synthesize_eq_ok h).2 hrouted
  exact ⟨p, hp, hfor, by simpa [hr] using hfor.route.symm⟩

/-- Every plan is of a method. -/
theorem exists_method {c : Contract} {impl : Implementation} (h : c.synthesize = .ok impl) {p : Plan}
    (hp : p ∈ impl.plans) : ∃ m ∈ c.methods, p.IsFor c.name m := by
  obtain ⟨m, hm, hfor⟩ := exists_of_mem_forall₂ (synthesize_eq_ok h).2.flip hp
  exact ⟨m, (List.mem_filter.mp hm).1, hfor⟩

end Contract

end ClientSynth
