import ClientSynth.Proofs.Synthesis.Problems

/-!
# `ClientSynth.Proofs.Synthesis.Frames` — the frames of a method, whatever its types are

Frames find what they read by type, and the types of the library's own values are ordinary ones: a
method may take a `String` and return an `HttpRequest`. A parameter or a payload is never mistaken for
one of those values:

> for all types, and for any classification with a body that the method has, the frames are those of
> `wiring` (`assemble_wires`).

Methods that differ in nothing but their types have frames that do the same and read the same.
-/

set_option autoImplicit false

namespace ClientSynth

/-- What a frame does, with no type of a body or of a payload in it. -/
def Op.untyped : Op → Op
  | .serializeBody _ => .serializeBody .unit
  | .deserializeResponse _ => .deserializeResponse .unit
  | op => op

/-- What a frame does and which values it reads, whatever their types are. -/
def Frame.wire (f : Frame) : Op × List Ref := (f.op.untyped, f.inputs)

namespace Method

variable {interface : String} {m : Method} {route : Route} {cl : Classification} {c : Chain}

/-- The type that an assembled chain returns is the payload. -/
theorem returnType?_of_shapes {bs : List Binding}
    (h : c.frames.map Frame.shape = wiring interface route bs cl) : c.returnType? = cl.payload := by
  have hframes : c.returnType? =
      (c.frames.map Frame.shape).findSome? fun shape => Chain.payloadOf? (Issue.unnamed shape) := by
    rw [List.findSome?_map]
    rfl
  rw [hframes, h]
  obtain ⟨body, payload⟩ := cl
  cases body <;> cases payload <;> rfl

/-- Bindings are made by name. -/
theorem bindings_congr {vs vs' : List Variable} (h : vs'.map (·.name) = vs.map (·.name))
    (path : String) : bindings (Scope.ofArguments vs') path = bindings (Scope.ofArguments vs) path := by
  refine List.map_congr_left fun name _ => ?_
  have hposition := congrArg (List.findIdx? (· == name)) h
  rw [List.findIdx?_map, List.findIdx?_map] at hposition
  rw [Scope.resolveArgument?_ofArguments, Scope.resolveArgument?_ofArguments]
  exact congrArg (fun i => Binding.mk name (i.map Nat.toUInt16)) hposition

section Wires

def wireOf (shape : Op × List Ref × Option TypeExpr) : Op × List Ref :=
  (shape.1.untyped, shape.2.1)

theorem map_wire (frames : List Frame) :
    frames.map Frame.wire = (frames.map Frame.shape).map wireOf := by
  rw [List.map_map]
  rfl

theorem wires_exchange {body body' : Option BodyParam}
    (h : body'.map (·.index) = body.map (·.index)) (verb : Verb) :
    (exchange verb body').map wireOf = (exchange verb body).map wireOf := by
  cases body with
  | none =>
    obtain rfl : body' = none := Option.map_eq_none_iff.mp h
    rfl
  | some p =>
    obtain ⟨p', rfl, hindex⟩ := Option.map_eq_some_iff.mp h
    simp [exchange, wireOf, Op.untyped, hindex]

theorem wires_ending {payload payload' : Option TypeExpr} (h : payload'.isSome = payload.isSome)
    (response : UInt16) : (ending response payload').map wireOf = (ending response payload).map wireOf := by
  cases payload with
  | none =>
    obtain rfl : payload' = none := by simpa using h
    rfl
  | some type =>
    obtain ⟨type', rfl⟩ := Option.isSome_iff_exists.mp h
    rfl

/-- A wiring reads the same whatever the types of the body and of the payload are. -/
theorem wires_wiring {cl' : Classification} (hbody : cl'.body.map (·.index) = cl.body.map (·.index))
    (hpayload : cl'.payload.isSome = cl.payload.isSome) (interface : String) (route : Route)
    (bs : List Binding) :
    (wiring interface route bs cl').map wireOf = (wiring interface route bs cl).map wireOf := by
  have hresponse : responseFrame cl'.body = responseFrame cl.body := by
    have hsome := congrArg Option.isSome hbody
    rw [Option.isSome_map, Option.isSome_map] at hsome
    rw [responseFrame, responseFrame, hsome]
  unfold wiring
  simp only [List.map_cons, List.map_append]
  rw [wires_exchange hbody, hresponse, wires_ending hpayload]

end Wires

/-- **Types never change how a method is wired.** There is a chain exactly when all parameters can be
read and the body, if there is one, is one of them. Its frames are then those of `wiring`, where each
placeholder, in the order of first appearance, has the position of the first parameter of its name; it
returns the payload; and whatever types the parameters, the body and the payload have instead, the
frames do the same and read the same. -/
theorem assemble_wires (interface : String) (m : Method) (route : Route) (cl : Classification) :
    ((∃ c, m.assemble interface route cl = .ok c) ↔
      (∀ p ∈ m.params, p.IsReadable) ∧
        ∀ p, cl.body = some p → p.index.toNat < m.params.length) ∧
    ∀ c, m.assemble interface route cl = .ok c →
      c.frames.map Frame.shape =
        wiring interface route
          ((Template.placeholders route.path).map fun name =>
            ⟨name, (m.params.findIdx? (·.name == name)).map Nat.toUInt16⟩) cl ∧
      c.returnType? = cl.payload ∧
      ∀ (m' : Method) (cl' : Classification) (c' : Chain),
        m'.params.map (·.name) = m.params.map (·.name) →
        cl'.body.map (·.index) = cl.body.map (·.index) →
        cl'.payload.isSome = cl.payload.isSome →
        m'.assemble interface route cl' = .ok c' →
          c'.frames.map Frame.wire = c.frames.map Frame.wire := by
  refine ⟨assemble_isOk_iff, fun c h => ?_⟩
  obtain ⟨hargs, -, hshapes⟩ := assemble_shapes h
  refine ⟨?_, returnType?_of_shapes hshapes, ?_⟩
  · rw [hshapes, bindings_of_reads (arguments_eq_ok hargs)]
  · intro m' cl' c' hnames hbody hpayload h'
    obtain ⟨hargs', -, hshapes'⟩ := assemble_shapes h'
    have hvars : c'.arguments.map (·.name) = c.arguments.map (·.name) := by
      rw [names_of_reads (arguments_eq_ok hargs'), names_of_reads (arguments_eq_ok hargs), hnames]
    rw [map_wire, map_wire, hshapes', hshapes, bindings_congr hvars, wires_wiring hbody hpayload]

/-- A method whose parameters, body and payload have types of the library's own values. -/
def echoing : Method where
  name := "echo"
  params := [⟨"id", "String"⟩, ⟨"raw", "HttpRequest"⟩]
  returns := some "Future<HttpResponse>"
  route := some ⟨"/things/{id}", .post⟩

theorem assemble_wires_echoing :
    ∃ c, echoing.assemble "IThings" ⟨"/things/{id}", .post⟩
        ⟨some ⟨1, "raw", .named "HttpRequest"⟩, some (.named "HttpResponse")⟩ = .ok c ∧
      c.returnType? = some (.named "HttpResponse") ∧
      c.frames.map Frame.wire =
        [(.acquireTransport "IThings", []),
         (.buildUrl "/things/{id}" [⟨"id", some 0⟩], [.argument 0]),
         (.serializeBody .unit, [.argument 1]), (.buildRequest .post true, [.frame 1, .frame 2]),
         (.invokeTransport, [.frame 0, .frame 3]), (.deserializeResponse .unit, [.frame 4]),
         (.returnValue, [.frame 5])] := by
  obtain ⟨hok, hwires⟩ := assemble_wires "IThings" echoing ⟨"/things/{id}", .post⟩
    ⟨some ⟨1, "raw", .named "HttpRequest"⟩, some (.named "HttpResponse")⟩
  obtain ⟨c, h⟩ := hok.mpr ⟨by decide +kernel, by decide⟩
  obtain ⟨hshapes, hreturn, -⟩ := hwires c h
  refine ⟨c, h, hreturn, ?_⟩
  rw [map_wire, hshapes]
  decide +kernel

end Method

end ClientSynth
