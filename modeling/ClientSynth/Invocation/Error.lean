/-!
# `ClientSynth.Invocation.Error` — why a call fails

An invocation error is about one call. It ends the call at the frame where it arises, and other calls
go on.
-/

set_option autoImplicit false

namespace ClientSynth

/-- Why a call fails. -/
inductive InvocationError where
  /-- There is no method of this name with a route. -/
  | unknownMethod (method : String)
  | argumentCount (method : String) (expected got : Nat)
  | missingTransport (interface : String)
  /-- No parameter has the name of a placeholder. -/
  | unmatchedPlaceholder (method placeholder route : String)
  /-- The body is not of its declared type. -/
  | serialization (method expected message : String)
  /-- The transport got no response. -/
  | transport (method message : String)
  /-- The response says that the request failed. -/
  | status (method : String) (status : UInt16) (body : String)
  /-- The body of the response is not of the promised type. -/
  | deserialization (method expected message : String)
  /-- There was no response within a limit, of which the whole milliseconds are given. -/
  | timeout (method : String) (millis : UInt64)
  /-- A frame read a value of another sort than it needs. -/
  | frameInput (method : String) (frame : Nat) (expected : String)
  deriving DecidableEq, Repr, Inhabited

namespace InvocationError

/-- The method that was called, as far as the error knows it. -/
def method : InvocationError → String
  | unknownMethod m | argumentCount m _ _ | unmatchedPlaceholder m _ _ | serialization m _ _ |
    transport m _ | status m _ _ | deserialization m _ _ | timeout m _ | frameInput m _ _ => m
  | missingTransport _ => ""

/-- How many characters of a body a message shows. -/
def shownLength : Nat := 200

/-- A text as messages show it: cut off when it is long. -/
def shown (cs : List Char) : List Char :=
  if cs.length ≤ shownLength then cs else cs.take shownLength ++ ['.', '.', '.']

/-- What a message says about the body of a failed request. -/
def bodyNote (body : String) : String :=
  if body.isEmpty then "" else ": " ++ String.ofList (shown body.toList)

def message : InvocationError → String
  | unknownMethod m => "UNKNOWN_METHOD: no synthesized method named `" ++ m ++ "`"
  | argumentCount m expected got =>
    "ARGUMENT_COUNT: `" ++ m ++ "` takes " ++ toString expected ++ " argument(s) but " ++
      toString got ++ " were supplied"
  | missingTransport i => "MISSING_TRANSPORT: no transport registered for " ++ i
  | unmatchedPlaceholder m p route =>
    "UNMATCHED_PLACEHOLDER: `\x7b" ++ p ++ "\x7d` in route `" ++ route ++
      "` has no matching parameter on `" ++ m ++ "`"
  | serialization m expected text =>
    "SERIALIZATION_FAILED: `" ++ m ++ "` body cannot be serialized as " ++ expected ++ ": " ++ text
  | transport m text => "TRANSPORT_FAILED: `" ++ m ++ "`: " ++ text
  | status m code body =>
    "HTTP_STATUS: `" ++ m ++ "` returned " ++ toString code.toNat ++ bodyNote body
  | deserialization m expected text =>
    "DESERIALIZATION_FAILED: `" ++ m ++ "` response cannot be read as " ++ expected ++ ": " ++ text
  | timeout m millis =>
    "TIMEOUT: `" ++ m ++ "` did not get a response within " ++ toString millis.toNat ++ "ms"
  | frameInput m frame expected =>
    "FRAME_INPUT: `" ++ m ++ "` frame " ++ toString frame ++ " expected " ++ expected ++ " as input"

end InvocationError

end ClientSynth
