import ClientSynth.Duration
import ClientSynth.Http.Message

/-!
# `ClientSynth.Transport.Delivery` — what comes of sending a request

A transport answers a request after a while, with a response or with a failure to get one. Whoever
waits may be willing to wait for so long only.
-/

set_option autoImplicit false

namespace ClientSynth

/-- What a transport has to say about a request. -/
inductive Reply where
  | response (r : Response)
  | failure (message : String)
  deriving DecidableEq

/-- A reply, and how long it takes to come. -/
structure Answer where
  reply : Reply
  delay : Duration := .zero
  deriving DecidableEq

/-- What comes of sending a request. -/
inductive Delivery where
  /-- The reply came in time. -/
  | reply (r : Reply)
  /-- There was no reply within the limit. -/
  | timeout (limit : Duration)
  deriving DecidableEq

/-- What comes of an answer for someone who waits no longer than a limit. A reply that comes at the
very end counts. -/
def Answer.within (a : Answer) (limit : Option Duration) : Delivery :=
  match limit with
  | some limit => if a.delay ≤ limit then .reply a.reply else .timeout limit
  | none => .reply a.reply

end ClientSynth
