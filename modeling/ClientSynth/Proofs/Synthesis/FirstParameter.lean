import ClientSynth.Proofs.Contract.Validity
import ClientSynth.Proofs.Route.Segments
import ClientSynth.Proofs.Synthesis.Outcome

/-!
# `ClientSynth.Proofs.Synthesis.FirstParameter` — whether the first argument is sent

The first parameter of a method goes into the body of the request, unless the route has a segment for
it; then it goes into the address. The two cases are told apart by `hasSegment`, and the address is made
of what `placeholders` finds. Of a name with braces the first finds segments, and the second finds
nothing, so such an argument can get lost:

> the first argument is sent exactly when no segment is its placeholder, or there are no braces in its
> name (`synthesize_sendsFirst`).
-/

set_option autoImplicit false

namespace ClientSynth

/-! ## Valid contracts -/

/-- In a valid contract, no parameter is without a name. -/
theorem Contract.IsValid.param_name_ne {c : Contract} (h : c.IsValid) {m : Method}
    (hm : m ∈ c.methods) {p : Param} (hp : p ∈ m.params) : p.name.toList ≠ [] := by
  have hshaped : c.IsWellShaped := violations_eq_nil_iff.mp h
  have hname : ¬ Text.IsBlank p.name := ((hshaped.methods m hm).params p hp).1
  intro hempty
  exact hname (by rw [Text.IsBlank, hempty]; rfl)

/-! ## What is sent -/

/-- Whether a frame reads the first argument: as a body, or for the placeholder of a name. -/
def Frame.SendsFirst (name : String) (f : Frame) : Prop :=
  match f.op with
  | .serializeBody _ => .argument 0 ∈ f.inputs
  | .buildUrl _ bs => ⟨name, some 0⟩ ∈ bs
  | _ => False

/-- Whether some frame of a chain reads the first argument, which is that of a name. -/
def Chain.SendsFirst (c : Chain) (name : String) : Prop :=
  ∃ f ∈ c.frames, f.SendsFirst name

namespace Method

theorem wiring_sendsFirst_iff {interface : String} {route : Route} {bs : List Binding}
    {cl : Classification} {name : String} :
    (∃ shape ∈ wiring interface route bs cl, (Issue.unnamed shape).SendsFirst name) ↔
      ⟨name, some 0⟩ ∈ bs ∨ ∃ p, cl.body = some p ∧ p.index = 0 := by
  obtain ⟨body, payload⟩ := cl
  cases body <;> cases payload <;>
    simp [wiring, exchange, ending, Issue.unnamed, Frame.SendsFirst, eq_comm]

theorem assemble_sendsFirst_iff {interface : String} {m : Method} {route : Route}
    {cl : Classification} {c : Chain} (h : m.assemble interface route cl = .ok c) {name : String} :
    c.SendsFirst name ↔
      ⟨name, some 0⟩ ∈ bindings (Scope.ofArguments c.arguments) route.path ∨
        ∃ p, cl.body = some p ∧ p.index = 0 := by
  obtain ⟨-, -, hshapes⟩ := assemble_shapes h
  rw [← wiring_sendsFirst_iff, ← hshapes]
  simp only [List.mem_map, exists_exists_and_eq_and]
  exact Iff.rfl

/-- The first parameter fills the placeholder of its name, if there is one. -/
theorem mem_bindings_first_iff {ps : List Param} {vs : List Variable} {first : Param}
    (hvs : List.Forall₂ Param.Reads (first :: ps) vs) {path : String} :
    ⟨first.name, some 0⟩ ∈ bindings (Scope.ofArguments vs) path ↔
      first.name ∈ Template.placeholders path := by
  cases hvs with
  | @cons _ v _ vs hv _ =>
    have hposition : (Scope.ofArguments (v :: vs)).resolveArgument? first.name = some 0 := by
      rw [Scope.resolveArgument?_ofArguments, List.findIdx?_cons]
      simp [hv.1]
    simp only [bindings, List.mem_map, Binding.mk.injEq]
    constructor
    · rintro ⟨_, hmem, rfl, -⟩
      exact hmem
    · exact fun hmem => ⟨_, hmem, rfl, hposition⟩

end Method

namespace Classification

theorem exists_body_iff {interface : String} {m : Method} {route : Route} {body : Option BodyParam}
    (h : bodyOf interface m route = .ok body) {first : Param} {rest : List Param}
    (hparams : m.params = first :: rest) :
    (∃ p, body = some p ∧ p.index = 0) ↔ Template.hasSegment route.path first.name = false := by
  rcases (bodyOf_cons_eq_ok_iff hparams).mp h with ⟨hseg, rfl⟩ | ⟨hseg, t, -, rfl⟩
  · simp [hseg]
  · simp [hseg]

end Classification

/-- The first argument is sent exactly when the two ways to look at the route agree about it. -/
theorem Plan.IsFor.sendsFirst_iff {interface : String} {m : Method} {p : Plan}
    (hp : p.IsFor interface m) {first : Param} {rest : List Param}
    (hparams : m.params = first :: rest) :
    p.chain.SendsFirst first.name ↔
      (Template.hasSegment p.route.path first.name = true →
        first.name ∈ Template.placeholders p.route.path) := by
  have hbody := Classification.exists_body_iff (Classification.ofMethod_eq_ok hp.classification).1 hparams
  have hvs := Method.arguments_eq_ok (Method.assemble_shapes hp.chain).1
  rw [hparams] at hvs
  rw [Method.assemble_sendsFirst_iff hp.chain, Method.mem_bindings_first_iff hvs, hbody]
  cases Template.hasSegment p.route.path first.name <;> simp

/-- A segment for a name that is not empty is a placeholder when there are no braces in the name. -/
theorem Template.mem_placeholders_iff_no_braces {path name : String} (hname : name.toList ≠ [])
    (h : hasSegment path name = true) :
    name ∈ placeholders path ↔ '{' ∉ name.toList ∧ '}' ∉ name.toList := by
  rw [mem_placeholders_iff_of_hasSegment h, Piece.isPlaceholderName_iff]
  have hslash := (token_of_hasSegment h).2
  constructor
  · rintro ⟨-, hchars⟩
    exact ⟨fun hc => (hchars _ hc).1 rfl, fun hc => (hchars _ hc).2.1 rfl⟩
  · rintro ⟨hopen, hclose⟩
    exact ⟨hname, fun c hc => ⟨fun heq => hopen (heq ▸ hc), fun heq => hclose (heq ▸ hc),
      fun heq => hslash (heq ▸ hc)⟩⟩

namespace Contract

/-- **When the first argument is sent.** In a valid contract that has an implementation, every method
with a route and a parameter has a plan, and this sends the first argument exactly when a segment for
it is among the placeholders; which is when there is no segment for it or its name has no braces. -/
theorem synthesize_sendsFirst {c : Contract} (hvalid : c.IsValid) {impl : Implementation}
    (h : c.synthesize = .ok impl) {m : Method} (hm : m ∈ c.methods) {route : Route}
    (hr : m.route = some route) {first : Param} {rest : List Param}
    (hparams : m.params = first :: rest) :
    ∃ p ∈ impl.plans, p.contract = m ∧ p.route = route ∧
      (p.chain.SendsFirst first.name ↔
        (Template.hasSegment route.path first.name = true →
          first.name ∈ Template.placeholders route.path)) ∧
      (p.chain.SendsFirst first.name ↔
        (Template.hasSegment route.path first.name = true →
          '{' ∉ first.name.toList ∧ '}' ∉ first.name.toList)) := by
  obtain ⟨p, hp, hfor, rfl⟩ := exists_plan h hm hr
  have hname : first.name.toList ≠ [] := hvalid.param_name_ne hm (hparams ▸ List.mem_cons_self)
  have hsends := hfor.sendsFirst_iff hparams
  refine ⟨p, hp, hfor.contract, rfl, hsends, hsends.trans ?_⟩
  exact forall_congr' fun hseg => Template.mem_placeholders_iff_no_braces hname hseg

/-- An interface whose one method has one parameter. -/
def noting (param path : String) : Contract where
  name := "INotes"
  methods := [{ name := "add", params := [⟨param, "String"⟩], route := some ⟨path, .post⟩ }]

theorem synthesize_sendsFirst_id :
    ∃ impl, (noting "id" "/notes/{id}").IsValid ∧
      (noting "id" "/notes/{id}").synthesize = .ok impl ∧
      ∃ p ∈ impl.plans, p.chain.SendsFirst "id" := by
  have hvalid : (noting "id" "/notes/{id}").IsValid := by decide
  obtain ⟨impl, h⟩ := synthesize_isOk_iff.mpr
    (show (noting "id" "/notes/{id}").IsSynthesizable by decide +kernel)
  obtain ⟨p, hp, -, -, -, hsends⟩ :=
    synthesize_sendsFirst hvalid h List.mem_cons_self rfl rfl
  exact ⟨impl, hvalid, h, p, hp, hsends.mpr fun _ => by decide⟩

/-- The argument for a parameter that is named after a brace gets lost: its segment keeps it out of the
body, and there is no placeholder to put it into the address. -/
theorem synthesize_drops_brace :
    ∃ impl, (noting "\x7b" "/notes/\x7b\x7b\x7d").IsValid ∧
      (noting "\x7b" "/notes/\x7b\x7b\x7d").synthesize = .ok impl ∧
      Template.hasSegment "/notes/\x7b\x7b\x7d" "\x7b" = true ∧
      "\x7b" ∉ Template.placeholders "/notes/\x7b\x7b\x7d" ∧
      ∃ p ∈ impl.plans, p.contract.params = [⟨"\x7b", "String"⟩] ∧ ¬ p.chain.SendsFirst "\x7b" := by
  have hseg : Template.hasSegment "/notes/\x7b\x7b\x7d" "\x7b" = true := by decide
  have hplaceholder : "\x7b" ∉ Template.placeholders "/notes/\x7b\x7b\x7d" :=
    fun h => absurd ((Template.mem_placeholders_iff_no_braces (by decide) hseg).mp h).1 (by decide)
  obtain ⟨impl, h⟩ := synthesize_isOk_iff.mpr
    (show (noting "\x7b" "/notes/\x7b\x7b\x7d").IsSynthesizable by decide +kernel)
  obtain ⟨p, hp, hfor, hroute⟩ := exists_plan h List.mem_cons_self rfl
  refine ⟨impl, by decide, h, hseg, hplaceholder, p, hp, by rw [hfor.contract], fun hsends => ?_⟩
  have hagree := (hfor.sendsFirst_iff rfl).mp hsends
  rw [hroute] at hagree
  exact hplaceholder (hagree hseg)

end Contract

end ClientSynth
