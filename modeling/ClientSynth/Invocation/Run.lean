import ClientSynth.Invocation.Frame
import ClientSynth.Synthesis.Implementation

/-!
# `ClientSynth.Invocation.Run` — calls from the first frame to the last

A call runs its frames in order and ends at the first error or at the frame that returns. What it does
to the world is the list of requests that it has sent; what comes of them is a function of transport
and request.
-/

set_option autoImplicit false

namespace ClientSynth

/-- What a call comes to: its result, and the requests that were sent for it, the first one first. -/
structure Invocation (τ : Type) where
  result : Except InvocationError Json
  sent : List (τ × Request) := []

namespace Invocation

variable {τ : Type}

/-- The call that sent one more request before all others. -/
def after (t : τ) (r : Request) (i : Invocation τ) : Invocation τ :=
  { i with sent := (t, r) :: i.sent }

end Invocation

namespace CallContext

variable {τ : Type}

/-- Runs frames after those that left the slots. A call that comes to the end of its frames returns
`null`. -/
def run (cx : CallContext τ) (deliver : τ → Request → Delivery) (slots : List (Slot τ)) :
    List Frame → Invocation τ
  | [] => { result := .ok .null }
  | f :: rest =>
    match cx.perform slots f with
    | .error e => { result := .error e }
    | .ok (.keep slot) =>
      if f.kind = .returnValue then { result := .ok slot.result }
      else cx.run deliver (slots ++ [slot]) rest
    | .ok (.send t r) =>
      match cx.accept (deliver t r) with
      | .error e => { result := .error e, sent := [(t, r)] }
      | .ok response => (cx.run deliver (slots ++ [.response response]) rest).after t r

end CallContext

/-! ## Clients -/

/-- An implementation bound to its transports. -/
structure Client (τ : Type) where
  implementation : Implementation
  resolve : String → Option τ
  /-- What the reader of bodies says of one that is not JSON. -/
  fault : ByteArray → String
  /-- How long a call waits for a response. -/
  limit : Option Duration := none

namespace Client

variable {τ : Type}

/-- What the frames of a call can see and which frames it has, if the method can be called so. -/
def begin? (c : Client τ) (method : String) (arguments : List Json) :
    Except InvocationError (CallContext τ × List Frame) :=
  match c.implementation.plan? method with
  | none => .error (.unknownMethod method)
  | some plan =>
    if arguments.length = plan.chain.arguments.length then
      .ok (⟨plan.name, c.resolve, c.fault, arguments⟩, plan.chain.frames)
    else .error (.argumentCount method plan.chain.arguments.length arguments.length)

/-- Calls a method with some arguments, over transports that answer as `answer` says. -/
def invoke (c : Client τ) (answer : τ → Request → Answer) (method : String) (arguments : List Json) :
    Invocation τ :=
  match c.begin? method arguments with
  | .error e => { result := .error e }
  | .ok (cx, frames) => cx.run (fun t r => (answer t r).within c.limit) [] frames

end Client

end ClientSynth
