import ClientSynth.Chain.Basic
import ClientSynth.Codec.Basic
import ClientSynth.Invocation.Error
import ClientSynth.Route.Template
import ClientSynth.Transport.Delivery

/-!
# `ClientSynth.Invocation.Frame` — what a frame does when it runs

A running call has its arguments and one slot for each frame that has run. A frame reads slots and
arguments by reference and leaves a slot of its own. All frames but one do so at once; the frame that
invokes the transport names a request that has to be sent first (`Action.send`).

Transports are values of a type `τ` that frames only hand on.
-/

set_option autoImplicit false

namespace ClientSynth

/-- What a frame leaves for later ones. -/
inductive Slot (τ : Type) where
  | empty
  | transport (t : τ)
  | url (text : String)
  | body (bytes : ByteArray)
  | request (r : Request)
  | response (r : Response)
  | value (v : Json)

/-- The result of a call that returns a slot. -/
def Slot.result {τ : Type} : Slot τ → Json
  | .value v => v
  | _ => .null

/-- What a frame comes to when it runs. -/
inductive Action (τ : Type) where
  /-- It leaves a slot. -/
  | keep (slot : Slot τ)
  /-- It has a request sent and leaves the response. -/
  | send (t : τ) (r : Request)

/-- What the frames of a call can see of it. -/
structure CallContext (τ : Type) where
  method : String
  resolve : String → Option τ
  /-- What the reader of bodies says of one that is not JSON. -/
  fault : ByteArray → String
  arguments : List Json

namespace CallContext

variable {τ : Type}

/-! ## Inputs -/

/-- The error of a frame, after the slots of the frames before it, that needs something else. -/
def wrongInput (cx : CallContext τ) (slots : List (Slot τ)) (expected : String) :
    InvocationError :=
  .frameInput cx.method slots.length expected

/-- The slot that an input refers to. -/
def slotInput (cx : CallContext τ) (slots : List (Slot τ)) (f : Frame) (position : Nat) :
    Except InvocationError (Slot τ) :=
  match f.inputs[position]? with
  | some (.frame i) =>
    match slots[i.toNat]? with
    | some slot => .ok slot
    | none => .error (cx.wrongInput slots "an earlier frame result")
  | _ => .error (cx.wrongInput slots "an earlier frame result")

/-- The value that an input refers to. -/
def valueInput (cx : CallContext τ) (slots : List (Slot τ)) (f : Frame) (position : Nat) :
    Except InvocationError Json :=
  match f.inputs[position]? with
  | some (.argument i) =>
    match cx.arguments[i.toNat]? with
    | some v => .ok v
    | none => .error (cx.wrongInput slots "a call argument")
  | some (.frame i) =>
    match slots[i.toNat]? with
    | some (.value v) => .ok v
    | _ => .error (cx.wrongInput slots "a decoded value")
  | none => .error (cx.wrongInput slots "a value")

/-- The text that a value puts into an address. -/
def pathText : Json → String
  | .string s => s
  | .null => ""
  | v => v.render

/-- The text for a placeholder: that of the argument which the first binding of its name gives. -/
def placeholderText (cx : CallContext τ) (bindings : List Binding) (name : String) :
    Option String :=
  ((bindings.find? (·.placeholder == name)).bind (·.argument)).bind fun i =>
    cx.arguments[i.toNat]?.map pathText

/-! ## Frames -/

/-- The address that the placeholders of a route path give. -/
def buildUrl (cx : CallContext τ) (path : String) (bindings : List Binding) :
    Except InvocationError (Action τ) :=
  match Template.fill path (cx.placeholderText bindings) with
  | .ok url => .ok (.keep (.url url))
  | .error p => .error (.unmatchedPlaceholder cx.method p path)

/-- The body for a value of a type. -/
def serialize (cx : CallContext τ) (type : TypeExpr) (v : Json) :
    Except InvocationError (Action τ) :=
  match Codec.encode type v with
  | .ok bytes => .ok (.keep (.body bytes))
  | .error m => .error (.serialization cx.method type.display m.message)

/-- The value of a type in the body of a response. -/
def deserialize (cx : CallContext τ) (type : TypeExpr) (r : Response) :
    Except InvocationError (Action τ) :=
  match Codec.decode cx.fault type r.body with
  | .ok v => .ok (.keep (.value v))
  | .error e => .error (.deserialization cx.method type.display e.message)

/-- The request for an address, with a body if there has to be one. -/
def buildRequest (cx : CallContext τ) (slots : List (Slot τ)) (f : Frame) (verb : Verb)
    (hasBody : Bool) : Except InvocationError (Action τ) := do
  match ← cx.slotInput slots f 0 with
  | .url url =>
    if hasBody then
      match ← cx.slotInput slots f 1 with
      | .body bytes => .ok (.keep (.request ((Request.new verb url).withJsonBody bytes)))
      | _ => .error (cx.wrongInput slots "a serialized body")
    else .ok (.keep (.request (.new verb url)))
  | _ => .error (cx.wrongInput slots "a url")

/-- The sending of a request over a transport. -/
def invokeTransport (cx : CallContext τ) (slots : List (Slot τ)) (f : Frame) :
    Except InvocationError (Action τ) := do
  match ← cx.slotInput slots f 0 with
  | .transport t =>
    match ← cx.slotInput slots f 1 with
    | .request r => .ok (.send t r)
    | _ => .error (cx.wrongInput slots "a request")
  | _ => .error (cx.wrongInput slots "a transport")

/-- What a frame comes to after the frames that left the slots. -/
def perform (cx : CallContext τ) (slots : List (Slot τ)) (f : Frame) :
    Except InvocationError (Action τ) :=
  match f.op with
  | .acquireTransport interface =>
    match cx.resolve interface with
    | some t => .ok (.keep (.transport t))
    | none => .error (.missingTransport interface)
  | .buildUrl path bindings => cx.buildUrl path bindings
  | .serializeBody type => cx.valueInput slots f 0 >>= cx.serialize type
  | .buildRequest verb hasBody => cx.buildRequest slots f verb hasBody
  | .invokeTransport => cx.invokeTransport slots f
  | .deserializeResponse type => do
    match ← cx.slotInput slots f 0 with
    | .response r => cx.deserialize type r
    | _ => .error (cx.wrongInput slots "a response")
  | .returnValue =>
    if f.inputs.isEmpty then .ok (.keep .empty)
    else (fun v => .keep (.value v)) <$> cx.valueInput slots f 0

/-- The response that a delivery brings, if the request succeeded. -/
def accept (cx : CallContext τ) : Delivery → Except InvocationError Response
  | .timeout limit => .error (.timeout cx.method limit.shownMillis)
  | .reply (.failure message) => .error (.transport cx.method message)
  | .reply (.response r) =>
    if r.isSuccess then .ok r else .error (.status cx.method r.status r.bodyText)

end CallContext

end ClientSynth
