import OnePass.Double.Basic

/-!
# Shortest decimal digits

A positive finite value is shown by the fewest decimal digits that read back to it. For one digit,
two digits and so on the two neighbours of the value on that decimal grid are tried: the first grid
that has a neighbour within half a step of the value wins, of two such neighbours the nearer, and
between two equally near ones the greater. Seventeen digits always suffice.

All quantities are fractions of natural numbers over one denominator, so nothing is rounded before
the digits are chosen.
-/

namespace OnePass.Double

/-- The reals that read as one value: the value itself and the two ends of its interval, all over
one denominator. The ends belong to the interval iff `closed`. -/
structure Interval where
  low : Nat
  value : Nat
  high : Nat
  denominator : Nat
  closed : Bool

/-- The interval of a positive finite value. The step below a power of two is half the step above,
except where the steps are smallest. -/
def interval (x : Double) : Interval :=
  let m := x.magnitude
  let scale := Nat.pow 2 m.exponent.toNat
  let below := if x.rank.val % fractions = 0 ∧ x.rank.val / fractions > 1 then 1 else 2
  { low := (4 * m.significand - below) * scale
    value := 4 * m.significand * scale
    high := (4 * m.significand + 2) * scale
    denominator := 4 * Nat.pow 2 (-m.exponent).toNat
    closed := m.significand % 2 == 0 }

/-- How many decimal digits a number has, none for zero. -/
def digitCount (n : Nat) : Nat :=
  if n = 0 then 0 else (Nat.toDigits 10 n).length

/-- The decimal exponent of the leading digit of `n / d`. -/
def leadingExponent (n d : Nat) : Int :=
  if d ≤ n then (digitCount (n / d) : Int) - 1 else -(digitCount ((d - 1) / n) : Int)

/-- `digits * 10 ^ exponent`. -/
structure Decimal where
  digits : Nat
  exponent : Int

namespace Interval

/-- Whether `n / d` lies in the interval. -/
def contains (i : Interval) (n d : Nat) : Bool :=
  let below := i.low * d
  let above := i.high * d
  let n := n * i.denominator
  (below < n || (i.closed && below == n)) && (n < above || (i.closed && n == above))

/-- The neighbour of the value on the grid `10 ^ e` that lies in the interval, if there is one. -/
def onGrid? (i : Interval) (e : Int) : Option Decimal :=
  let up := Nat.pow 10 e.toNat
  let down := Nat.pow 10 (-e).toNat
  let n := i.value * down
  let d := i.denominator * up
  let q := n / d
  let r := n % d
  let lower := i.contains (q * up) down
  let upper := i.contains ((q + 1) * up) down
  if lower && (!upper || 2 * r < d) then some ⟨q, e⟩
  else if upper then some ⟨q + 1, e⟩
  else none

/-- The neighbour on the coarsest grid that has one in the interval, out of `10 ^ e` and the `finer`
grids after it. -/
def coarsest (i : Interval) (e : Int) : Nat → Decimal
  | 0 => (i.onGrid? e).getD ⟨i.value, 0⟩
  | finer + 1 => (i.onGrid? e).getD (i.coarsest (e - 1) finer)

def shortest (i : Interval) : Decimal :=
  i.coarsest (leadingExponent i.value i.denominator) 16

end Interval

/-- The shortest decimal that reads back to a positive finite value. -/
def shortest (x : Double) : Decimal := x.interval.shortest

end OnePass.Double
