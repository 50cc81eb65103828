/-!
# Double-precision numbers

A binary64 value as its sign and its *rank*: the non-negative values, in increasing order, are
numbered from zero, so the rank is the exponent field followed by the fraction field. Infinity comes
after the last finite value, and the ranks above infinity are not numbers. Negation turns the sign
and nothing else.
-/

namespace OnePass

/-- A binary64 value: its sign and the rank of its magnitude. -/
structure Double where
  negative : Bool
  rank : Fin (Nat.pow 2 63)
deriving DecidableEq

namespace Double

/-- How many values share one exponent. -/
def fractions : Nat := Nat.pow 2 52

def infinityRank : Nat := 2047 * Nat.pow 2 52

/-- The value of a sign and a rank; ranks above infinity are taken for infinity. -/
def ofRank (negative : Bool) (rank : Nat) : Double :=
  ⟨negative, ⟨min rank infinityRank, Nat.lt_of_le_of_lt (Nat.min_le_right ..) (by decide)⟩⟩

def infinity (negative : Bool) : Double := ofRank negative infinityRank

def nan : Double := ⟨false, ⟨infinityRank + Nat.pow 2 51, by decide⟩⟩

def one : Double := ofRank false (1023 * fractions)

def neg (x : Double) : Double := { x with negative := !x.negative }

instance : Neg Double := ⟨neg⟩

/-- A finite magnitude is `significand * 2 ^ exponent`. -/
structure Magnitude where
  significand : Nat
  exponent : Int

/-- The magnitude of a finite value: below the first normal value the steps are all equal, above it
the significand has a leading one. -/
def magnitude (x : Double) : Magnitude :=
  let field := x.rank.val / fractions
  let fraction := x.rank.val % fractions
  if field = 0 then ⟨fraction, -1074⟩ else ⟨fractions + fraction, (field : Int) - 1075⟩

end Double

end OnePass
