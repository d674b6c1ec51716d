import ClientSynth.Json.Printer
import ClientSynth.Text.Literal

/-!
# `ClientSynth.Json.Found` — how messages name values

A message about a value of the wrong kind says what was found: a scalar with its text, an array or an
object by its kind alone.
-/

set_option autoImplicit false

namespace ClientSynth.Json

/-- How a message names a number. -/
def numberFound : Number → String
  | .whole n => "integer `" ++ String.ofList (intChars n.val) ++ "`"
  | .double x => "floating point `" ++ String.ofList (doubleChars x) ++ "`"

def boolFound (b : Bool) : String :=
  "boolean `" ++ (if b then "true" else "false") ++ "`"

def stringFound (s : String) : String :=
  "string " ++ Text.literalOf s

/-- How a message names a value. -/
def found : Json → String
  | .null => "null"
  | .bool b => boolFound b
  | .number n => numberFound n
  | .string s => stringFound s
  | .array _ => "sequence"
  | .object _ => "map"

/-- The message for a value of another kind than is expected. -/
def wrongType (found expected : String) : String :=
  "invalid type: " ++ found ++ ", expected " ++ expected

/-- The message for a whole number that does not fit. -/
def outOfRange (n : Int) (expected : String) : String :=
  "invalid value: integer `" ++ String.ofList (intChars n) ++ "`, expected " ++ expected

end ClientSynth.Json
