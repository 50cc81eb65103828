import OnePass.Double.Basic
import OnePass.Text.Digits

/-!
# Reading decimal numerals

A decimal numeral is read as the nearest binary64 value, a half going to the even neighbour; what is
too large becomes infinity and what is too small becomes zero. The arithmetic is exact: the numeral
is a fraction of two natural numbers, and only its last division rounds.
-/

namespace OnePass.Double

/-- The quotient rounded to the nearest integer, a half to the even one. -/
def roundDiv (n d : Nat) : Nat :=
  let q := n / d
  let r := n % d
  if 2 * r < d then q
  else if 2 * r = d then q + q % 2
  else q + 1

/-- `n / d` in steps of `2 ^ e`, rounded. -/
def steps (n d : Nat) (e : Int) : Nat :=
  roundDiv (n * Nat.pow 2 (-e).toNat) (d * Nat.pow 2 e.toNat)

/-- The exponent of the steps in which `n / d` has 53 binary digits, or the smallest there is. -/
def stepExponent (n d : Nat) : Int :=
  let e : Int := (n.log2 : Int) - d.log2 - 52
  let e := if n * Nat.pow 2 (-e).toNat < d * Nat.pow 2 e.toNat * fractions then e - 1 else e
  max e (-1074)

/-- The value nearest to `n / d`. -/
def ofFraction (negative : Bool) (n d : Nat) : Double :=
  if n = 0 then ofRank negative 0
  else
    let e := stepExponent n d
    ofRank negative ((e + 1074).toNat * fractions + steps n d e)

/-- The value nearest to `digits * 10 ^ exponent`. Since ten is more than eight, a bound on the size
in binary digits comes first: what is beyond all finite values, or below half of the smallest one, is
told by it, and the power of ten is only taken where it is of moderate size. -/
def ofDecimal (negative : Bool) (digits : Nat) (exponent : Int) : Double :=
  let bound := (digits.log2 : Int) + 3 * exponent
  if digits = 0 ∨ (exponent < 0 ∧ bound < -1075) then ofRank negative 0
  else if 0 ≤ exponent ∧ 1024 ≤ bound then infinity negative
  else ofFraction negative (digits * Nat.pow 10 exponent.toNat) (Nat.pow 10 (-exponent).toNat)

/-- The value of a numeral with a whole part and a fraction part. -/
def ofParts (whole fraction : List Char) : Double :=
  ofDecimal false (digitsValue (whole ++ fraction)) (-fraction.length)

def readExponent? : List Char → Option Int
  | '-' :: cs => if cs ≠ [] ∧ cs.all Char.isDigit then some (-(digitsValue cs : Int)) else none
  | '+' :: cs => if cs ≠ [] ∧ cs.all Char.isDigit then some (digitsValue cs) else none
  | cs => if cs ≠ [] ∧ cs.all Char.isDigit then some (digitsValue cs) else none

/-- A numeral without a sign: a special value, or digits with an optional point and exponent. -/
def readUnsigned? (negative : Bool) (cs : List Char) : Option Double :=
  let word := cs.map Char.toLower
  if word = "nan".toList then some { nan with negative }
  else if word = "inf".toList ∨ word = "infinity".toList then some (infinity negative)
  else
    let whole := cs.takeWhile Char.isDigit
    let (fraction, rest) := match cs.dropWhile Char.isDigit with
      | '.' :: r => (r.takeWhile Char.isDigit, r.dropWhile Char.isDigit)
      | r => ([], r)
    let exponent? := match rest with
      | [] => some 0
      | c :: r => if c = 'e' ∨ c = 'E' then readExponent? r else none
    if whole = [] ∧ fraction = [] then none
    else exponent?.map fun e => ofDecimal negative (digitsValue (whole ++ fraction)) (e - fraction.length)

/-- Reads a numeral such as `1.5`, `-7.1e+16`, `inf` or `NaN`. -/
def read? (s : String) : Option Double :=
  match s.toList with
  | '-' :: cs => readUnsigned? true cs
  | '+' :: cs => readUnsigned? false cs
  | cs => readUnsigned? false cs

end OnePass.Double
