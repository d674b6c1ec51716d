/-!
# `ClientSynth.Decimal.Binary64` — double-precision numbers by their bits

A finite double is kept as its 64 bits, so that equality of values is equality of representations
(`0.0` and `-0.0` differ). `scaled?` is the reading direction: a whole significand and a power of
ten become a double by one rounding of the significand and one of the scaling.
-/

set_option autoImplicit false

namespace ClientSynth

/-- A double-precision number, given by its bits. -/
structure Binary64 where
  bits : UInt64
  deriving DecidableEq, Inhabited

namespace Binary64

/-- The double with the bits of `x`. -/
def ofFloat (x : Float) : Binary64 := ⟨x.toBits⟩

def toFloat (x : Binary64) : Float := Float.ofBits x.bits

/-- Whether the sign bit is set, as in `-0.0`. -/
def isNegative (x : Binary64) : Bool :=
  x.bits >>> 63 == 1

/-- The magnitude as `m * 2 ^ q` for a whole `m`. -/
def magnitude (x : Binary64) : Nat × Int :=
  let exponent := (x.bits >>> 52).toNat % 2048
  let fraction := x.bits.toNat % 0x10000000000000
  if exponent = 0 then (fraction, -1074) else (fraction + 0x10000000000000, (exponent : Int) - 1075)

/-- The number with the sign set as told. -/
def withSign (negative : Bool) (x : Float) : Binary64 :=
  ofFloat (if negative then -x else x)

/-- The largest power of ten that scales in one step. -/
def maxPower : Nat := 308

/-- The double nearest to `10 ^ e`. -/
def power (e : Nat) : Float :=
  Float.ofScientific 1 false e

/-- A number divided by `10 ^ e`. A divisor over `10 ^ maxPower` is taken in steps, which end early
when nothing is left to divide. -/
def scaleDown (x : Float) (e : Nat) : Float :=
  if e ≤ maxPower then x / power e
  else if x == 0.0 then x
  else scaleDown (x / power maxPower) (e - maxPower)
termination_by e
decreasing_by simp only [maxPower] at *; omega

/-- The double for `significand * 10 ^ exponent`: the significand is rounded to a double, which is
then multiplied or divided by the power of ten. There is none where the result would be infinite. -/
def scaled? (negative : Bool) (significand : Nat) (exponent : Int) : Option Binary64 :=
  let x := Float.ofNat significand
  match exponent with
  | .ofNat e =>
    if e ≤ maxPower then
      let y := x * power e
      if y.isInf then none else some (withSign negative y)
    else if x == 0.0 then some (withSign negative x)
    else none
  | .negSucc e => some (withSign negative (scaleDown x (e + 1)))

end Binary64

end ClientSynth
