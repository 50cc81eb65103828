/-!
# Runs of decimal digits
-/

namespace OnePass

/-- The number written by decimal digits, most significant first. -/
def digitsValue (ds : List Char) : Nat :=
  ds.foldl (fun n c => 10 * n + (c.toNat - '0'.toNat)) 0

end OnePass
