import ClientSynth.Json.Basic
import ClientSynth.TypeExpr.Basic

/-!
# `ClientSynth.Codec.Shape` — the JSON that a type stands for

A type says what JSON its values are: `String` a string, `Vec<T>` an array of what `T` is, `Option<T>`
what `T` is or `null`. Names that are not known stand for records, so for any object. Only the last
segment of a name counts and the number of arguments; `()` is known by its whole name.

`check` walks a type and a value together and stops at the first place where the value is of another
kind than the type demands.
-/

set_option autoImplicit false

namespace ClientSynth

/-! ## Types as forms -/

/-- What a type demands of a value at one place. -/
inductive Demand where
  | null | anything | string | boolean | number | integer | natural | array | object
  deriving DecidableEq, Repr

namespace Demand

/-- Whether a value is as demanded, whatever is inside it. -/
def isMet : Demand → Json → Bool
  | null, .null => true
  | anything, _ => true
  | string, .string _ => true
  | boolean, .bool _ => true
  | number, .number _ => true
  | integer, .number (.whole _) => true
  | natural, .number (.whole n) => decide (0 ≤ n.val)
  | array, .array _ => true
  | object, .object _ => true
  | _, _ => false

end Demand

/-- How the arguments of a type describe its values. -/
inductive Wrapper where
  /-- `null` or a value of the argument. -/
  | optional
  /-- An array of values of the argument. -/
  | sequence
  /-- An object with values of the second argument. -/
  | dictionary
  deriving DecidableEq, Repr

namespace Wrapper

def ofOne? : String → Option Wrapper
  | "Option" => some optional
  | "Vec" | "VecDeque" | "HashSet" | "BTreeSet" => some sequence
  | _ => none

def ofTwo? : String → Option Wrapper
  | "HashMap" | "BTreeMap" => some dictionary
  | _ => none

end Wrapper

namespace TypeExpr

/-- What a name without arguments demands. -/
def plainDemand : String → Demand
  | "Value" => .anything
  | "String" | "str" => .string
  | "bool" => .boolean
  | "f32" | "f64" => .number
  | "i8" | "i16" | "i32" | "i64" | "i128" | "isize" => .integer
  | "u8" | "u16" | "u32" | "u64" | "u128" | "usize" => .natural
  | _ => .object

/-- What a type demands that is no wrapper. -/
def demand (t : TypeExpr) : Demand :=
  if t.isUnit then .null
  else if t.args.isEmpty then plainDemand t.baseName
  else .object

end TypeExpr

/-! ## Mismatches -/

/-- A step from a value into one of its parts, with the type of the whole. -/
inductive ShapeStep where
  | element (index : Nat) (type : TypeExpr)
  | entry (key : String) (type : TypeExpr)
  deriving DecidableEq

def ShapeStep.message : ShapeStep → String
  | element index type => "element " ++ toString index ++ " of " ++ type.display
  | entry key type => "entry `" ++ key ++ "` of " ++ type.display

/-- A place where a value is not of its type: the steps to it, the outermost first, the type there
and the kind of the value. -/
structure Mismatch where
  steps : List ShapeStep
  expected : TypeExpr
  found : Json.Kind
  deriving DecidableEq

namespace Mismatch

/-- The mismatch of a value as a whole. -/
def here (expected : TypeExpr) (v : Json) : Mismatch :=
  ⟨[], expected, v.kind⟩

/-- A mismatch of a part, seen from the whole. -/
def within (step : ShapeStep) (m : Mismatch) : Mismatch :=
  { m with steps := step :: m.steps }

def message (m : Mismatch) : String :=
  ": ".intercalate (m.steps.map (·.message) ++
    ["expected " ++ m.expected.display ++ ", found " ++ m.found.name])

end Mismatch

/-! ## Checking -/

namespace Codec

/-- Checks the elements from position `i` on. -/
def checkElements (type : TypeExpr) (checkOne : Json → Option Mismatch) (i : Nat) :
    List Json → Option Mismatch
  | [] => none
  | v :: vs =>
    match checkOne v with
    | some m => some (m.within (.element i type))
    | none => checkElements type checkOne (i + 1) vs

/-- Checks the values of members. -/
def checkEntries (type : TypeExpr) (checkOne : Json → Option Mismatch) :
    List (String × Json) → Option Mismatch
  | [] => none
  | (k, v) :: ms =>
    match checkOne v with
    | some m => some (m.within (.entry k type))
    | none => checkEntries type checkOne ms

/-- Checks a value against what a type demands that is no wrapper. -/
def checkPlain (type : TypeExpr) (v : Json) : Option Mismatch :=
  if type.demand.isMet v then none else some (.here type v)

/-- Checks a value against a wrapper, whose content is checked by `checkOne`. -/
def checkWrapped (type : TypeExpr) (checkOne : Json → Option Mismatch) (w : Wrapper) (v : Json) :
    Option Mismatch :=
  match w, v with
  | .optional, .null => none
  | .optional, v => checkOne v
  | .sequence, .array items => checkElements type checkOne 0 items
  | .dictionary, .object members => checkEntries type checkOne members
  | _, v => some (.here type v)

/-- The first place where a value is not of a type, if there is one. -/
def check : TypeExpr → Json → Option Mismatch
  | .app n [t], v =>
    match Wrapper.ofOne? (Text.shortName n) with
    | some w => checkWrapped (.app n [t]) (check t) w v
    | none => checkPlain (.app n [t]) v
  | .app n [s, t], v =>
    match Wrapper.ofTwo? (Text.shortName n) with
    | some w => checkWrapped (.app n [s, t]) (check t) w v
    | none => checkPlain (.app n [s, t]) v
  | type, v => checkPlain type v

end Codec

end ClientSynth
