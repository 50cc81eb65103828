import OnePass.Double.Shortest

/-!
# Text of a double

A value is written with its shortest digits: positionally, with at least one digit after the point,
while its leading digit stands between the fourth place after the point and the sixteenth before it;
otherwise with an exponent and no needless point.
-/

namespace OnePass.Double

def dropZeros (ds : List Char) : List Char :=
  (ds.reverse.dropWhile (· == '0')).reverse

def zeros (n : Nat) : List Char := List.replicate n '0'

/-- Digits whose first has the weight `10 ^ lead`, written positionally. -/
def positional (ds : List Char) (lead : Int) : List Char :=
  if lead < 0 then
    '0' :: '.' :: zeros (-lead - 1).toNat ++ ds
  else
    let n := lead.toNat + 1
    let fraction := ds.drop n
    ds.take n ++ zeros (n - ds.length) ++ '.' :: (if fraction.isEmpty then ['0'] else fraction)

/-- Digits whose first has the weight `10 ^ lead`, written with an exponent. -/
def scientific (ds : List Char) (lead : Int) : List Char :=
  let fraction := ds.drop 1
  ds.take 1 ++ (if fraction.isEmpty then [] else '.' :: fraction) ++
    'e' :: (if lead < 0 then ['-'] else []) ++ (lead.natAbs.repr).toList

/-- A positive decimal. -/
def Decimal.text (d : Decimal) : List Char :=
  let all := Nat.toDigits 10 d.digits
  let lead := d.exponent + all.length - 1
  let ds := dropZeros all
  if -4 ≤ lead ∧ lead < 16 then positional ds lead else scientific ds lead

/-- The text of a value. -/
def text (x : Double) : String :=
  let sign := if x.negative then "-" else ""
  if x.rank.val > infinityRank then "NaN"
  else if x.rank.val = infinityRank then sign ++ "inf"
  else if x.rank.val = 0 then sign ++ "0.0"
  else sign ++ String.ofList x.shortest.text

end OnePass.Double
