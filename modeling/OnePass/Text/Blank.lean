/-!
# Blank characters

Tokens are separated by blanks: exactly the characters with the Unicode property `White_Space`. Only
one of them, the line feed, also starts a new line.
-/

namespace OnePass

/-- A character with the property `White_Space`. -/
def isBlank (c : Char) : Bool :=
  let n := c.toNat
  (0x9 ≤ n && n ≤ 0xd) || n == 0x20 || n == 0x85 || n == 0xa0 || n == 0x1680 ||
    (0x2000 ≤ n && n ≤ 0x200a) || n == 0x2028 || n == 0x2029 || n == 0x202f || n == 0x205f ||
    n == 0x3000

end OnePass
