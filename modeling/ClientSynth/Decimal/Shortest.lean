import ClientSynth.Decimal.Binary64

/-!
# `ClientSynth.Decimal.Shortest` — the fewest digits that read back

A double is written with the fewest decimal digits that still single it out: of all decimals that
round to it, those on the coarsest decimal grid, and of these the nearest one. Everything is exact
arithmetic on fractions of natural numbers.

The double is `m * 2 ^ q`; the reals that round to it lie between the midpoints to its neighbours,
ends included exactly when `m` is even.
-/

set_option autoImplicit false

namespace ClientSynth.Decimal

/-- The number of decimal digits of `n`; `0` has one. -/
def digitCount (n : Nat) : Nat :=
  if n < 10 then 1 else digitCount (n / 10) + 1

/-- A non-negative fraction. -/
structure Ratio where
  num : Nat
  den : Nat

namespace Ratio

/-- `n * 2 ^ q`. -/
def dyadic (n : Nat) (q : Int) : Ratio :=
  match q with
  | .ofNat k => ⟨n * Nat.pow 2 k, 1⟩
  | .negSucc k => ⟨n, Nat.pow 2 (k + 1)⟩

/-- `n * 10 ^ p`. -/
def decimal (n : Nat) (p : Int) : Ratio :=
  match p with
  | .ofNat k => ⟨n * Nat.pow 10 k, 1⟩
  | .negSucc k => ⟨n, Nat.pow 10 (k + 1)⟩

/-- Comparison by cross multiplication. -/
def lt (a b : Ratio) : Bool := a.num * b.den < b.num * a.den

/-- The greatest `n` with `n * 10 ^ p` not above the fraction. -/
def floorAt (a : Ratio) (p : Int) : Nat :=
  match p with
  | .ofNat k => a.num / (a.den * Nat.pow 10 k)
  | .negSucc k => a.num * Nat.pow 10 (k + 1) / a.den

/-- The exponent `k` with `10 ^ k ≤ a < 10 ^ (k + 1)`, for a positive fraction. -/
def decimalExponent (a : Ratio) : Int :=
  if a.den ≤ a.num then ((digitCount (a.num / a.den) : Nat) : Int) - 1
  else -((digitCount ((a.den + a.num - 1) / a.num - 1) : Nat) : Int)

end Ratio

/-- The reals that round to one double. -/
structure Interval where
  lower : Ratio
  upper : Ratio
  closed : Bool

namespace Interval

/-- Whether a fraction lies in the interval. -/
def contains (i : Interval) (a : Ratio) : Bool :=
  if i.closed then !a.lt i.lower && !i.upper.lt a else i.lower.lt a && a.lt i.upper

/-- The interval around `m * 2 ^ q`. Below a power of two the neighbour is half as far away, unless
the exponent is already the least. -/
def around (m : Nat) (q : Int) : Interval :=
  let lower := if m = 0x10000000000000 ∧ q ≠ -1074 then Ratio.dyadic (4 * m - 1) (q - 2)
    else Ratio.dyadic (2 * m - 1) (q - 1)
  ⟨lower, Ratio.dyadic (2 * m + 1) (q - 1), m % 2 == 0⟩

end Interval

/-- The multiple of `10 ^ p` in the interval that is nearest to `a`, if there is one; a tie goes to
the even multiple. -/
def nearestAt? (i : Interval) (a : Ratio) (p : Int) : Option Nat :=
  let below := a.floorAt p
  let above := below + 1
  match i.contains (.decimal below p), i.contains (.decimal above p) with
  | true, true =>
    let middle := Ratio.decimal (below * 10 + 5) (p - 1)
    if a.lt middle then some below
    else if middle.lt a then some above
    else some (if below % 2 == 0 then below else above)
  | true, false => some below
  | false, true => some above
  | false, false => none

/-- Searches grids of `10 ^ p`, `10 ^ (p - 1)`, … for the first with a point in the interval. -/
def searchGrids (i : Interval) (a : Ratio) (p : Int) : Nat → Nat × Int
  | 0 => (a.floorAt p, p)
  | n + 1 =>
    match nearestAt? i a p with
    | some d => (d, p)
    | none => searchGrids i a (p - 1) n

/-- A decimal without zeros at its end, as digits and the exponent of the last one. -/
def stripZeros (n : Nat) (p : Int) : Nat × Int :=
  if n % 10 = 0 ∧ n ≠ 0 then stripZeros (n / 10) (p + 1) else (n, p)

/-- The shortest decimal `(d, p)`, meaning `d * 10 ^ p`, that reads back as the magnitude of `x`.
Seventeen digits always suffice. -/
def shortest (x : Binary64) : Nat × Int :=
  let (m, q) := x.magnitude
  if m = 0 then (0, 0)
  else
    let a := Ratio.dyadic m q
    let (d, p) := searchGrids (.around m q) a a.decimalExponent 17
    stripZeros d p

end ClientSynth.Decimal
