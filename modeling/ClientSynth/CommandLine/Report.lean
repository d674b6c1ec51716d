import ClientSynth.Json.Printer
import ClientSynth.Synthesis.Implementation

/-!
# `ClientSynth.CommandLine.Report` — what commands print

Each command prints a document of JSON or a text for people, in which the names of interfaces and
methods stand out. Errors are chains of messages, and go to the error output.
-/

set_option autoImplicit false

namespace ClientSynth.CommandLine

/-- What a run of the program leaves. -/
structure Report where
  exit : UInt8 := 0
  stdout : String := ""
  stderr : String := ""
  deriving DecidableEq

/-- A text between a terminal's sequence for a style and the one that ends it. -/
def styled (style : Nat) (text : String) : String :=
  "\x1b[" ++ toString style ++ "m" ++ text ++ "\x1b[0m"

/-- A JSON document as it is printed. -/
def printed (j : Json) : String :=
  j.renderIndented ++ "\n"

/-- A list of strings in JSON. -/
def strings (ss : List String) : Json :=
  .array (ss.map .string)

/-- A member that is there if its value is. -/
def optionalMember (key : String) (value : Option String) : List (String × Json) :=
  match value with
  | some text => [(key, .string text)]
  | none => []

/-! ## Errors -/

/-- The causes of an error, numbered. -/
def numbered (n : Nat) : List String → String
  | [] => ""
  | cause :: rest => "  " ++ toString n ++ ": " ++ cause ++ "\n" ++ numbered (n + 1) rest

/-- The text for an error: its message and what caused it. -/
def errorText (asJson : Bool) (message : String) (causes : List String) : String :=
  if asJson then
    printed (.object (("error", .string message) ::
      if causes.isEmpty then [] else [("causes", strings causes)]))
  else
    styled 31 "Error:" ++ " " ++ message ++ "\n" ++
      if causes.isEmpty then "" else "Caused by:\n" ++ numbered 1 causes

/-- The report of an error with its causes, the outermost message first. -/
def failure (asJson : Bool) (message : String) (causes : List String) : Report :=
  { exit := 1, stderr := errorText asJson message causes }

/-! ## Emitting -/

/-- The document on an implementation whose source was printed or written to a file. -/
def emitJson (i : Implementation) (out : Option String) : Json :=
  .object (
    [("interface", .string i.interface),
     ("type_name", .string i.typeName),
     ("fingerprint", .string i.fingerprint)] ++
    match out with
    | some file => [("out", .string file)]
    | none => [("source", .string i.source)])

/-- The output on an implementation whose source was printed or written to a file. -/
def emitText (asJson : Bool) (i : Implementation) (out : Option String) : String :=
  if asJson then printed (emitJson i out)
  else
    match out with
    | some file => "Wrote " ++ i.typeName ++ " (" ++ i.interface ++ ") to " ++ file ++ "\n"
    | none => i.source

/-! ## Inspecting -/

/-- The parameter that a plan sends as the body. -/
def bodyNote (p : Plan) : Option String :=
  p.classification.body.map fun b => b.name ++ ": " ++ b.type.display

/-- The type that a plan reads the response as. -/
def payloadNote (p : Plan) : Option String :=
  p.classification.payload.map (·.display)

def frameWords (p : Plan) : List String :=
  p.chain.kinds.map (·.word)

def planJson (p : Plan) : Json :=
  .object (
    [("name", .string p.name),
     ("verb", .string p.route.verb.word),
     ("path", .string p.route.path)] ++
    optionalMember "body" (bodyNote p) ++
    optionalMember "payload" (payloadNote p) ++
    [("frames", strings (frameWords p)),
     ("source", strings p.chain.render)])

def inspectJson (i : Implementation) : Json :=
  .object
    [("interface", .string i.interface),
     ("type_name", .string i.typeName),
     ("fingerprint", .string i.fingerprint),
     ("methods", .array (i.plans.map planJson)),
     ("unrouted", strings i.unrouted)]

/-- The text on a plan, with its source if everything is asked for. -/
def planText (verbose : Bool) (p : Plan) : String :=
  "  " ++ styled 36 p.name ++ "  " ++ p.route.verb.word ++ " " ++ p.route.path ++ "\n" ++
  "    body:    " ++ (bodyNote p).getD "-" ++ "\n" ++
  "    payload: " ++ (payloadNote p).getD "-" ++ "\n" ++
  "    frames:  " ++ " -> ".intercalate (frameWords p) ++ "\n" ++
  (if verbose then String.join (p.chain.render.map fun line => "      " ++ line ++ "\n") else "") ++
  "\n"

def inspectText (asJson verbose : Bool) (i : Implementation) : String :=
  if asJson then printed (inspectJson i)
  else
    styled 1 i.interface ++ " -> " ++ i.typeName ++ " (" ++
      SynthesisError.shortFingerprint i.fingerprint ++ ")\n\n" ++
      String.join (i.plans.map (planText verbose)) ++
      if i.unrouted.isEmpty then "" else "  not routed: " ++ ", ".intercalate i.unrouted ++ "\n"

/-! ## Calling -/

/-- The output on the result of a call: nothing for `null`, unless a document is asked for. -/
def callText (asJson : Bool) (interface method : String) (result : Json) : String :=
  if asJson then
    printed (.object
      [("interface", .string interface), ("method", .string method), ("result", result)])
  else
    match result with
    | .null => ""
    | v => printed v

end ClientSynth.CommandLine
