import OnePass.Text.Unprintable
import OnePass.Text.GraphemeExtend

/-!
# Quoted text

Characters and strings are shown between quotes. Five characters have a two-character escape, the
surrounding quote is escaped, and whatever would not be visible by itself is shown as its code
point in lower-case hexadecimal, without padding, in braces.
-/

namespace OnePass.Quoted

/-- The Hangul fillers: letters that are ignored by default and leave nothing to see. -/
def isFiller (c : Char) : Bool :=
  let n := c.toNat
  n == 0x115f || n == 0x1160 || n == 0x3164 || n == 0xffa0

/-- The halfwidth sound marks: they extend a grapheme, but have a glyph in a cell of their own. -/
def isHalfwidthMark (c : Char) : Bool :=
  let n := c.toNat
  n == 0xff9e || n == 0xff9f

def isHidden (c : Char) : Bool :=
  isUnprintable c || isFiller c || (extendsGrapheme c && !isHalfwidthMark c)

def codePoint (c : Char) : List Char :=
  "\\u\x7b".toList ++ Nat.toDigits 16 c.toNat ++ ['}']

/-- One character of a text in the given quotes. -/
def escape (quote c : Char) : List Char :=
  if c = '\x00' then ['\\', '0']
  else if c = '\t' then ['\\', 't']
  else if c = '\r' then ['\\', 'r']
  else if c = '\n' then ['\\', 'n']
  else if c = '\\' then ['\\', '\\']
  else if c = quote then ['\\', quote]
  else if isHidden c then codePoint c
  else [c]

def between (quote : Char) (cs : List Char) : List Char :=
  quote :: cs.flatMap (escape quote) ++ [quote]

def char (c : Char) : String :=
  String.ofList (between '\x27' [c])

def string (s : String) : String :=
  String.ofList (between '"' s.toList)

end OnePass.Quoted
