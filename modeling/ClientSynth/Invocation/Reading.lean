import ClientSynth.Json.Found

/-!
# `ClientSynth.Invocation.Reading` — results as simple values

A caller may ask for the result of a call as a number, a truth value or nothing. Whole numbers are
taken as floating-point numbers too, never the other way round.
-/

set_option autoImplicit false

namespace ClientSynth

/-- What a caller may ask a result to be. -/
inductive Target where
  | i64 | u8 | bool | f64 | unit
  deriving DecidableEq, Repr

namespace Target

def name : Target → String
  | i64 => "i64"
  | u8 => "u8"
  | bool => "bool"
  | f64 => "f64"
  | unit => "()"

/-- What messages say is expected. -/
def expected : Target → String
  | i64 => "i64"
  | u8 => "u8"
  | bool => "a boolean"
  | f64 => "f64"
  | unit => "unit"

/-- The whole numbers of a target, as a bound below and one above that is not reached. -/
def range? : Target → Option (Int × Int)
  | i64 => some (-0x8000000000000000, 0x8000000000000000)
  | u8 => some (0, 0x100)
  | _ => none

/-- A whole number as a target takes it. -/
def readWhole (t : Target) (n : Whole) : Except String Json :=
  match t, t.range? with
  | _, some (lo, hi) =>
    if lo ≤ n.val ∧ n.val < hi then .ok (.number (.whole n))
    else .error (Json.outOfRange n.val t.expected)
  | f64, none =>
    match Binary64.scaled? (decide (n.val < 0)) n.val.natAbs 0 with
    | some x => .ok (.number (.double x))
    | none => .error (Json.outOfRange n.val t.expected)
  | _, none => .error (Json.wrongType (Json.numberFound (.whole n)) t.expected)

/-- A value as a target takes it, or what is wrong with it. -/
def read (t : Target) (v : Json) : Except String Json :=
  match t, v with
  | t, .number (.whole n) => t.readWhole n
  | f64, .number (.double x) => .ok (.number (.double x))
  | bool, .bool b => .ok (.bool b)
  | unit, .null => .ok .null
  | t, v => .error (Json.wrongType v.found t.expected)

end Target

end ClientSynth
