/-!
# `ClientSynth.Synthesis.Error` — why an interface cannot be synthesized

A synthesis error is about an interface as a whole: it is found once, before any call, and nothing of
the interface can be used. Errors of single calls are a different type.
-/

set_option autoImplicit false

namespace ClientSynth

/-- Why an interface cannot be synthesized. -/
inductive SynthesisError where
  /-- A return type is none of those that a remote call can have. -/
  | unsupportedReturnShape (interface method returns : String)
  /-- A type cannot be read. -/
  | invalidTypeExpression (interface method expression : String)
  /-- Another interface already has the type name. -/
  | duplicateTypeName (typeName existing requested : String)
  | duplicateMethod (interface method : String)
  | nothingToSynthesize (interface : String)
  /-- The frames of a method do not fit together. -/
  | invalidChain (interface method : String) (issues : List String)
  /-- The interface is known with another contract. -/
  | conflictingContract (interface cached requested : String)
  deriving DecidableEq, Repr, Inhabited

namespace SynthesisError

/-- The interface that cannot be synthesized. -/
def interface : SynthesisError → String
  | unsupportedReturnShape i _ _ | invalidTypeExpression i _ _ | duplicateMethod i _ |
    nothingToSynthesize i | invalidChain i _ _ | conflictingContract i _ _ => i
  | duplicateTypeName _ _ requested => requested

/-- The beginning of a text that has at most `n` bytes in UTF-8. -/
def firstBytes (n : Nat) : List Char → List Char
  | [] => []
  | c :: cs => if c.utf8Size ≤ n then c :: firstBytes (n - c.utf8Size) cs else []

/-- A fingerprint as messages show it: its first twelve bytes. -/
def shortFingerprint (s : String) : String :=
  String.ofList (firstBytes 12 s.toList)

def message : SynthesisError → String
  | unsupportedReturnShape i m r =>
    "UNSUPPORTED_RETURN_SHAPE: " ++ i ++ "::" ++ m ++ " returns `" ++ r ++
      "`; expected nothing, `()`, or an async wrapper with at most one payload type"
  | invalidTypeExpression i m e =>
    "INVALID_TYPE_EXPRESSION: " ++ i ++ "::" ++ m ++ " declares unparseable type `" ++ e ++ "`"
  | duplicateTypeName t existing requested =>
    "DUPLICATE_TYPE_NAME: `" ++ requested ++ "` derives implementation type `" ++ t ++
      "`, already used by `" ++ existing ++ "`"
  | duplicateMethod i m =>
    "DUPLICATE_METHOD: " ++ i ++ " declares method `" ++ m ++ "` more than once"
  | nothingToSynthesize i => "NOTHING_TO_SYNTHESIZE: " ++ i ++ " has no method with a route"
  | invalidChain i m issues =>
    "INVALID_CHAIN: " ++ i ++ "::" ++ m ++ ": " ++ "; ".intercalate issues
  | conflictingContract i cached requested =>
    "CONFLICTING_CONTRACT: " ++ i ++ " is cached with fingerprint " ++ shortFingerprint cached ++
      " but was requested with " ++ shortFingerprint requested

end SynthesisError

end ClientSynth
