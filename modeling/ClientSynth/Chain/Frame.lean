import ClientSynth.Route.Verb
import ClientSynth.Text.Literal
import ClientSynth.TypeExpr.Basic

/-!
# `ClientSynth.Chain.Frame` — the steps of a method body

A synthesized method is a list of frames. A frame does one thing (its `Op`), reads values by
reference, and introduces at most one variable. References are positions, of a parameter or of an
earlier frame, so the same frame can be run and can be shown as a line of source.
-/

set_option autoImplicit false

namespace ClientSynth

/-- A named and typed value of a method body. -/
structure Variable where
  name : String
  type : TypeExpr
  deriving DecidableEq, Inhabited

/-- A reference to a value. Positions are 16 bits wide, and larger ones wrap around. -/
inductive Ref where
  | argument (index : UInt16)
  /-- The output of a frame, by the position of the frame. -/
  | frame (index : UInt16)
  deriving DecidableEq, Inhabited

inductive FrameKind where
  | acquireTransport | buildUrl | serializeBody | buildRequest | invokeTransport
  | deserializeResponse | returnValue
  deriving DecidableEq, Inhabited, Repr

namespace FrameKind

def word : FrameKind → String
  | acquireTransport => "acquire-transport"
  | buildUrl => "build-url"
  | serializeBody => "serialize-body"
  | buildRequest => "build-request"
  | invokeTransport => "invoke-transport"
  | deserializeResponse => "deserialize-response"
  | returnValue => "return"

/-- Whether a step may have to wait: only the call of the transport may. -/
def suspends (k : FrameKind) : Bool := k == invokeTransport

end FrameKind

/-- A placeholder of a route and the parameter that fills it, if there is one. -/
structure Binding where
  placeholder : String
  argument : Option UInt16
  deriving DecidableEq, Inhabited

/-- What a frame does. -/
inductive Op where
  /-- Looks up the transport of an interface. -/
  | acquireTransport (interface : String)
  /-- Fills the placeholders of a route path with arguments. -/
  | buildUrl (path : String) (bindings : List Binding)
  /-- Serializes an argument as a type. -/
  | serializeBody (type : TypeExpr)
  /-- Makes a request of an address and perhaps a body. -/
  | buildRequest (verb : Verb) (hasBody : Bool)
  /-- Sends a request over a transport and waits for the response. -/
  | invokeTransport
  /-- Reads the body of a response as a type. -/
  | deserializeResponse (type : TypeExpr)
  /-- Returns a value, or nothing. -/
  | returnValue
  deriving DecidableEq, Inhabited

namespace Op

def kind : Op → FrameKind
  | acquireTransport _ => .acquireTransport
  | buildUrl _ _ => .buildUrl
  | serializeBody _ => .serializeBody
  | buildRequest _ _ => .buildRequest
  | invokeTransport => .invokeTransport
  | deserializeResponse _ => .deserializeResponse
  | returnValue => .returnValue

end Op

/-- One step of a method body. -/
structure Frame where
  op : Op
  inputs : List Ref
  output : Option Variable
  deriving DecidableEq, Inhabited

namespace Frame

def kind (f : Frame) : FrameKind := f.op.kind

/-! ## As source -/

/-- What stands in source for a name that is missing. -/
def noName : String := "_"

/-- The name of an input, by its position among the inputs. -/
def inputName (f : Frame) (nameOf : Ref → String) (position : Nat) : String :=
  match f.inputs[position]? with
  | some r => nameOf r
  | none => noName

def outputName (f : Frame) : String :=
  match f.output with
  | some v => v.name
  | none => noName

/-- The pair of a placeholder and its argument, if it has one. -/
def bindingText (nameOf : Ref → String) (b : Binding) : Option String :=
  b.argument.map fun i =>
    "(" ++ Text.literalOf b.placeholder ++ ", &" ++ nameOf (.argument i) ++ " as &dyn Display)"

/-- The line of source for a frame, with the names that its references have there. -/
def render (f : Frame) (nameOf : Ref → String) : String :=
  let input := f.inputName nameOf
  match f.op with
  | .acquireTransport interface =>
    let name := Text.literalOf interface
    "let " ++ f.outputName ++ " = self.transports.transport_for(" ++ name ++
      ").ok_or_else(|| InvocationError::missing_transport(" ++ name ++ "))?;"
  | .buildUrl path bindings =>
    "let " ++ f.outputName ++ " = fill_route(" ++ Text.literalOf path ++ ", &[" ++
      ", ".intercalate (bindings.filterMap (bindingText nameOf)) ++ "])?;"
  | .serializeBody type =>
    "let " ++ f.outputName ++ " = self.codec.serialize::<" ++ type.display ++ ">(&" ++ input 0 ++
      ")?;"
  | .buildRequest verb hasBody =>
    "let " ++ f.outputName ++ " = HttpRequest::new(HttpVerb::" ++ verb.variant ++ ", " ++ input 0 ++
      ")" ++ (if hasBody then ".with_json_body(" ++ input 1 ++ ")" else "") ++ ";"
  | .invokeTransport =>
    "let " ++ f.outputName ++ " = " ++ input 0 ++ ".send(" ++ input 1 ++
      ").await?.error_for_status()?;"
  | .deserializeResponse type =>
    "let " ++ f.outputName ++ ": " ++ type.display ++ " = self.codec.deserialize(&" ++ input 0 ++
      ".body)?;"
  | .returnValue =>
    match f.inputs with
    | r :: _ => "Ok(" ++ nameOf r ++ ")"
    | [] => "Ok(())"

end Frame

end ClientSynth
