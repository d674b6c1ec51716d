import ClientSynth.Invocation.Run
import ClientSynth.Transport.Mock

/-!
# `ClientSynth.Invocation.Interleaving` — calls that run at the same time

Calls that run at the same time take turns, a frame at a time. Sending a request takes two turns: the
transport first takes note of it, and answers later; in between other calls may go on. What calls
share is a mock transport, of which they change the log and nothing else.
-/

set_option autoImplicit false

namespace ClientSynth

/-- How far a call is. -/
inductive CallState where
  /-- It goes on with the first of the frames that are left. -/
  | ready (slots : List (Slot Unit)) (rest : List Frame)
  /-- It waits for the answer to a request, and then goes on. -/
  | waiting (request : Request) (slots : List (Slot Unit)) (rest : List Frame)
  | returned (result : Except InvocationError Json)

namespace CallState

/-- One turn of a call, with what it does to the transport. A call that is over has no turns. -/
def step? (cx : CallContext Unit) (m : MockTransport) : CallState → Option (CallState × MockTransport)
  | .ready _ [] => some (.returned (.ok .null), m)
  | .ready slots (f :: rest) =>
    match cx.perform slots f with
    | .error e => some (.returned (.error e), m)
    | .ok (.keep slot) =>
      if f.kind = .returnValue then some (.returned (.ok slot.result), m)
      else some (.ready (slots ++ [slot]) rest, m)
    | .ok (.send _ r) => some (.waiting r slots rest, m.receive r)
  | .waiting r slots rest =>
    match cx.accept (.reply (m.replyTo r)) with
    | .error e => some (.returned (.error e), m)
    | .ok response => some (.ready (slots ++ [.response response]) rest, m)
  | .returned _ => none

end CallState

/-- A call and how far it is. -/
structure RunningCall where
  context : CallContext Unit
  state : CallState

/-- A call that begins, or that is over at once because it cannot. -/
def RunningCall.start (c : Client Unit) (method : String) (arguments : List Json) : RunningCall :=
  match c.begin? method arguments with
  | .error e => ⟨⟨method, c.resolve, c.fault, arguments⟩, .returned (.error e)⟩
  | .ok (cx, frames) => ⟨cx, .ready [] frames⟩

/-- Some calls and the transport they share. -/
structure Calls where
  calls : List RunningCall
  transport : MockTransport

namespace Calls

/-- The calls after the one at a position had a turn. -/
def turn? (s : Calls) (i : Nat) : Option Calls := do
  let call ← s.calls[i]?
  let (state, transport) ← call.state.step? call.context s.transport
  return ⟨s.calls.set i { call with state }, transport⟩

/-- The calls after turns in the given order; nothing if one of them cannot be had. -/
def run? (s : Calls) : List Nat → Option Calls
  | [] => some s
  | i :: is => do (← s.turn? i).run? is

def IsOver (s : Calls) : Prop :=
  ∀ call ∈ s.calls, ∃ result, call.state = .returned result

end Calls

end ClientSynth
