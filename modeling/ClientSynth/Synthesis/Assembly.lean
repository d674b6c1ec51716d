import ClientSynth.Chain.Builder
import ClientSynth.Synthesis.Classification

/-!
# `ClientSynth.Synthesis.Assembly` — the chain of a method

Every method body has one shape, in which the two steps in brackets depend on its classification:

    acquire-transport, build-url, [serialize-body], build-request,
    invoke-transport, [deserialize-response], return

The frames find their inputs by type. The types of the library's own values are ordinary types, so a
method may have parameters or a payload of the same types; only the outputs of frames are looked at,
and only the latest of a type.
-/

set_option autoImplicit false

namespace ClientSynth

/-! ## Types of values

The values that frames hand to one another have these types. -/

namespace FrameType

def transport : TypeExpr := .named "Arc<dyn Transport>"

def url : TypeExpr := .named "String"

def body : TypeExpr := .app "Vec" [.named "u8"]

def request : TypeExpr := .named "HttpRequest"

def response : TypeExpr := .named "HttpResponse"

end FrameType

/-! ## Chains -/

namespace Method

/-- The parameters of a method with their types read; an error for the first that cannot be. -/
def arguments (interface : String) (m : Method) : Except SynthesisError (List Variable) :=
  m.params.mapM fun p =>
    match TypeExpr.ofString? p.type with
    | some type => .ok ⟨p.name, type⟩
    | none => .error (.invalidTypeExpression interface m.name p.type)

/-- The placeholders of a route path, each with the parameter of its name. -/
def bindings (scope : Scope) (path : String) : List Binding :=
  (Template.placeholders path).map fun p => ⟨p, scope.resolveArgument? p⟩

/-- The arguments that placeholders are filled with. -/
def boundInputs (bs : List Binding) : List Ref :=
  bs.filterMap fun b => b.argument.map .argument

/-- The chain of a method with a route. -/
def assemble (interface : String) (m : Method) (route : Route) (cl : Classification) :
    Except SynthesisError Chain := do
  let b := ChainBuilder.start interface m.name (← m.arguments interface)
  let b := b.push (.acquireTransport interface) [] (some ("transport", FrameType.transport))
  let bs := bindings b.scope route.path
  let b := b.push (.buildUrl route.path bs) (boundInputs bs) (some ("url", FrameType.url))
  let b := match cl.body with
    | some p => b.push (.serializeBody p.type) [.argument p.index] (some ("body", FrameType.body))
    | none => b
  let url ← b.require FrameType.url
  let inputs ← match cl.body with
    | some _ => do pure [url, ← b.require FrameType.body]
    | none => pure [url]
  let b := b.push (.buildRequest route.verb cl.body.isSome) inputs
    (some ("request", FrameType.request))
  let transport ← b.require FrameType.transport
  let request ← b.require FrameType.request
  let b := b.push .invokeTransport [transport, request] (some ("response", FrameType.response))
  match cl.payload with
  | some type => do
    let response ← b.require FrameType.response
    -- The payload may be of any type, so the result is found by its position.
    let result := Ref.frame b.nextIndex
    let b := b.push (.deserializeResponse type) [response] (some ("result", type))
    (b.push .returnValue [result] none).finish
  | none => (b.push .returnValue [] none).finish

end Method

end ClientSynth
