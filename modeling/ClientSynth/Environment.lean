import ClientSynth.Text.Blank

/-!
# `ClientSynth.Environment` — settings from environment variables

A variable is absent or a text. Numbers and truth values are read from the text without the blanks
around it; a text that is no such value counts as absent.
-/

set_option autoImplicit false

namespace ClientSynth

abbrev Environment := String → Option String

namespace Environment

/-! ## Values of texts -/

/-- The number that some digits stand for; there must be one at least. -/
def digits? (cs : List Char) : Option Nat :=
  if cs ≠ [] ∧ cs.all (·.isDigit) then
    some (cs.foldl (fun n c => n * 10 + (c.toNat - '0'.toNat)) 0)
  else none

/-- The natural number below `bound` that a text stands for, which may have a plus sign. -/
def natural? (bound : Nat) (cs : List Char) : Option Nat :=
  match cs with
  | '+' :: ds => (digits? ds).filter (· < bound)
  | ds => (digits? ds).filter (· < bound)

def word64? (s : String) : Option UInt64 :=
  (natural? UInt64.size s.toList).map (·.toUInt64)

def int32? (s : String) : Option Int :=
  match s.toList with
  | '-' :: ds => (digits? ds).bind fun n => if n ≤ 0x80000000 then some (-(n : Int)) else none
  | cs => (natural? 0x80000000 cs).map fun n => (n : Int)

def bool? : String → Option Bool
  | "true" => some true
  | "false" => some false
  | _ => none

/-- The words that switch something on. -/
def onWords : List String := ["1", "true", "yes", "on"]

/-! ## Variables -/

/-- The value that the text of a variable stands for, without the blanks around it. -/
def read? {α : Type} (env : Environment) (value? : String → Option α) (name : String) : Option α :=
  (env name).bind fun s => value? (String.ofList (Text.trim s.toList))

/-- The value that the text of a variable stands for, or a default. -/
def readOr {α : Type} (env : Environment) (value? : String → Option α) (default : α)
    (name : String) : α :=
  (env.read? value? name).getD default

/-- Whether a variable switches something on: it is one of `onWords`, in any case, and nothing
around it. -/
def isOn (env : Environment) (name : String) : Bool :=
  match env name with
  | some s => onWords.contains s.toLower
  | none => false

/-- The text of a variable, if it is not blank. -/
def nonBlank? (env : Environment) (name : String) : Option String :=
  (env name).filter fun s => !(Text.trim s.toList).isEmpty

end Environment

end ClientSynth
