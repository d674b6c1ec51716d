import ClientSynth.Transport.Delivery

/-!
# `ClientSynth.Transport.Mock` — a transport that answers from a table

A mock transport has a fixed table of replies by verb and path and keeps a log of all requests. What
it answers depends on the request alone, never on the log.
-/

set_option autoImplicit false

namespace ClientSynth

/-- A row of the table: which requests it is for and what they get. -/
structure MockRoute where
  verb : Verb
  path : String
  reply : Reply
  deriving DecidableEq

/-- A transport that answers from a table. -/
structure MockTransport where
  routes : List MockRoute := []
  /-- How long it waits before every reply, if it does. -/
  delay : Option Duration := none
  /-- The requests received so far, the oldest first. -/
  requests : List Request := []
  deriving DecidableEq

namespace MockTransport

/-- The response to requests that are not in the table. -/
def notFound : Response := .new 404 .empty

/-- Whether a row is for a request. -/
def isFor (r : Request) (route : MockRoute) : Bool :=
  route.verb == r.verb && route.path == r.path

/-- The reply to a request: that of the first row for it. -/
def replyTo (m : MockTransport) (r : Request) : Reply :=
  match m.routes.find? (isFor r) with
  | some route => route.reply
  | none => .response notFound

/-- The answer to a request. -/
def answer (m : MockTransport) (r : Request) : Answer :=
  { reply := m.replyTo r, delay := m.delay.getD .zero }

/-- The transport after it received a request. -/
def receive (m : MockTransport) (r : Request) : MockTransport :=
  { m with requests := m.requests ++ [r] }

@[simp]
theorem answer_receive (m : MockTransport) (r s : Request) :
    (m.receive r).answer s = m.answer s := rfl

@[simp]
theorem requests_receive (m : MockTransport) (r : Request) :
    (m.receive r).requests = m.requests ++ [r] := rfl

end MockTransport

end ClientSynth
