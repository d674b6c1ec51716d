import ClientSynth.Proofs.Chain.Soundness
import ClientSynth.Proofs.Synthesis.Accepted

/-!
# `ClientSynth.Proofs.Synthesis.Wiring` — which frame reads what

The assembly of a chain looks its inputs up by type while the chain grows. `wiring` is the same chain
written down: which frames there are, and which frame each of them reads. No type is looked at in it,
so what `assemble_shapes` says holds whatever types the parameters and the payload have.
-/

set_option autoImplicit false

namespace ClientSynth

namespace Method

/-- The frames from the body of a request to the response. -/
def exchange (verb : Verb) : Option BodyParam → List (Op × List Ref × Option TypeExpr)
  | some p =>
    [(.serializeBody p.type, [.argument p.index], some FrameType.body),
     (.buildRequest verb true, [.frame 1, .frame 2], some FrameType.request),
     (.invokeTransport, [.frame 0, .frame 3], some FrameType.response)]
  | none =>
    [(.buildRequest verb false, [.frame 1], some FrameType.request),
     (.invokeTransport, [.frame 0, .frame 2], some FrameType.response)]

/-- The frames after the response, which is the output of the frame at `response`. -/
def ending (response : UInt16) : Option TypeExpr → List (Op × List Ref × Option TypeExpr)
  | some type =>
    [(.deserializeResponse type, [.frame response], some type),
     (.returnValue, [.frame (response + 1)], none)]
  | none => [(.returnValue, [], none)]

/-- The position of the frame that leaves the response. -/
def responseFrame (body : Option BodyParam) : UInt16 :=
  if body.isSome then 4 else 3

/-- The frames of a method in order. -/
def wiring (interface : String) (route : Route) (bs : List Binding) (cl : Classification) :
    List (Op × List Ref × Option TypeExpr) :=
  (.acquireTransport interface, [], some FrameType.transport) ::
  (.buildUrl route.path bs, boundInputs bs, some FrameType.url) ::
  (exchange route.verb cl.body ++ ending (responseFrame cl.body) cl.payload)

/-- The parameters that are in scope where the bindings are made are those of the method. -/
theorem bindings_push (b : ChainBuilder) (op : Op) (inputs : List Ref)
    (output : Option (String × TypeExpr)) (path : String) :
    bindings (b.push op inputs output).scope path = bindings b.scope path := by
  simp [bindings]

/-- **Assembling a chain is laying its wiring.** Each lookup by type goes back to the push that made the
output of that type; the pushes in between have other types. -/
theorem assemble_eq (interface : String) (m : Method) (route : Route) (cl : Classification) :
    m.assemble interface route cl =
      m.arguments interface >>= fun vs =>
        ((wiring interface route (bindings (Scope.ofArguments vs) route.path) cl).foldl
          ChainBuilder.lay (ChainBuilder.start interface m.name vs)).finish := by
  have past_body : FrameType.body ≠ FrameType.url := by decide
  have past_request : FrameType.request ≠ FrameType.transport := by decide
  have past_body' : FrameType.body ≠ FrameType.transport := by decide
  have past_url : FrameType.url ≠ FrameType.transport := by decide
  unfold assemble
  cases m.arguments interface with
  | error e => rfl
  | ok vs =>
    obtain ⟨body, payload⟩ := cl
    -- The chain has four forms, and each of them is built by evaluating the pushes.
    cases body <;> cases payload <;>
      simp only [bind, Except.bind, pure, Except.pure, bindings_push,
        ChainBuilder.require_push_self, ChainBuilder.require_push_of_ne _ _ _ _ past_body,
        ChainBuilder.require_push_of_ne _ _ _ _ past_request,
        ChainBuilder.require_push_of_ne _ _ _ _ past_body',
        ChainBuilder.require_push_of_ne _ _ _ _ past_url,
        ChainBuilder.nextIndex, ChainBuilder.length_frames_push] <;> rfl

/-- An assembled chain is what laying its wiring builds, and nothing is wrong with it. -/
theorem assemble_eq_ok {interface : String} {m : Method} {route : Route} {cl : Classification}
    {c : Chain} (h : m.assemble interface route cl = .ok c) :
    m.arguments interface = .ok c.arguments ∧ c.issues = [] ∧
      ((wiring interface route (bindings (Scope.ofArguments c.arguments) route.path) cl).foldl
        ChainBuilder.lay (ChainBuilder.start interface m.name c.arguments)).chain = c := by
  rw [assemble_eq] at h
  obtain ⟨vs, hvs, h⟩ := bind_eq_ok_iff.mp h
  obtain ⟨hissues, rfl⟩ := (ChainBuilder.finish_eq_ok_iff _).mp h
  have harguments : (((wiring interface route (bindings (Scope.ofArguments vs) route.path) cl).foldl
      ChainBuilder.lay (ChainBuilder.start interface m.name vs)).chain).arguments = vs :=
    ChainBuilder.arguments_foldl_lay _ _
  rw [harguments]
  exact ⟨hvs, hissues, rfl⟩

/-- **The frames of an assembled chain are those of `wiring`.** -/
theorem assemble_shapes {interface : String} {m : Method} {route : Route} {cl : Classification}
    {c : Chain} (h : m.assemble interface route cl = .ok c) :
    m.arguments interface = .ok c.arguments ∧ c.method = m.name ∧
      c.frames.map Frame.shape =
        wiring interface route (bindings (Scope.ofArguments c.arguments) route.path) cl := by
  obtain ⟨hvs, -, hbuilt⟩ := assemble_eq_ok h
  refine ⟨hvs, ?_, ?_⟩
  · rw [← hbuilt]
    exact ChainBuilder.method_foldl_lay _ _
  · have hshapes := congrArg (fun c' => c'.frames.map Frame.shape) hbuilt
    exact hshapes.symm.trans (ChainBuilder.shapes_foldl_lay _ _)

end Method

/-! ## What can be wrong -/

namespace Classification

/-- What is wrong with a body that is sent by a method with `count` parameters: it is none of them. -/
def misplaced (cl : Classification) (count : Nat) : List Issue :=
  match cl.body with
  | none => []
  | some p =>
    if p.index.toNat < count then [] else [.argumentOutOfBounds 2 .serializeBody p.index count]

theorem misplaced_eq_nil_iff {cl : Classification} {count : Nat} :
    cl.misplaced count = [] ↔ ∀ p, cl.body = some p → p.index.toNat < count := by
  unfold misplaced
  cases cl.body <;> simp

end Classification

namespace Method

/-- If the bindings name parameters that exist, nothing but the body can be wrong with the frames of a
wiring. -/
theorem issues_wiring {count : Nat} {bs : List Binding}
    (hbs : ∀ r ∈ boundInputs bs, ∃ a : UInt16, r = .argument a ∧ a.toNat < count)
    (interface : String) (route : Route) (cl : Classification) :
    Issue.all count ((wiring interface route bs cl).map Issue.unnamed) = cl.misplaced count := by
  have hurl : (boundInputs bs).filterMap (Issue.ofInput count
      [Issue.unnamed (.acquireTransport interface, [], some FrameType.transport)] 1 .buildUrl) =
        [] := by
    rw [List.filterMap_eq_nil_iff]
    intro r hr
    obtain ⟨a, rfl, ha⟩ := hbs r hr
    exact if_pos ha
  obtain ⟨body, payload⟩ := cl
  cases body with
  | none =>
    cases payload <;>
      simpa [wiring, exchange, ending, responseFrame, Issue.all, Issue.ofFrames, Issue.ofPlace,
        Issue.ofInput, Issue.unnamed, Frame.kind, Op.kind, Classification.misplaced] using hurl
  | some p =>
    by_cases hp : p.index.toNat < count <;> cases payload <;>
      simpa [wiring, exchange, ending, responseFrame, Issue.all, Issue.ofFrames, Issue.ofPlace,
        Issue.ofInput, Issue.unnamed, Frame.kind, Op.kind, Classification.misplaced, hp] using hurl

end Method

end ClientSynth
