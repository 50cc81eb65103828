import OnePass.Double.Reading
import OnePass.Token.Basic

/-!
# Lexemes

The token at the front of a text that begins with neither blank nor comment. A lexeme keeps the
characters it was read from and those after it, with the proof that together they are the text and
that at least one character was read. So no character is lost, and reading on ends.

* A word begins with a letter or an underscore and goes on with letters, digits and underscores.
* A number is a run of digits; it has a fraction iff a point and a digit follow directly.
* A literal runs to its closing quote on the same line.
* Everything else is a symbol, a long one if it can be.
-/

namespace OnePass

/-- Why a text is no sequence of tokens. -/
inductive LexError.Cause where
  | invalidCharacter (c : Char)
  | numberTooLarge
  | unterminated
  | unknownEscape (c : Char)
  | notOneCharacter
deriving DecidableEq

/-- A lexical error and where its lexeme begins. -/
structure LexError where
  pos : Position
  cause : LexError.Cause
deriving DecidableEq

/-- The wording of a lexical error. -/
def LexError.Cause.message : LexError.Cause → String
  | .invalidCharacter c => "invalid token: '" ++ c.toString ++ "'"
  | .numberTooLarge => "invalid number: number too large to fit in target type"
  | .unterminated => "unterminated literal"
  | .unknownEscape c => "unknown escape sequence '\\" ++ c.toString ++ "'"
  | .notOneCharacter => "character literal must contain exactly one character"

/-- A value read off the front of `cs`. -/
structure Read (α : Type) (cs : List Char) where
  value : α
  text : List Char
  rest : List Char
  split : cs = text ++ rest
  nonempty : text ≠ []

namespace Read

variable {α β : Type} {cs : List Char}

def map (f : α → β) (r : Read α cs) : Read β cs := { r with value := f r.value }

/-- One more character in front. -/
def cons (c : Char) (r : Read α cs) : Read α (c :: cs) where
  value := r.value
  text := c :: r.text
  rest := r.rest
  split := by rw [List.cons_append, ← r.split]
  nonempty := by simp

/-- A character and those after it with a property. -/
def run (p : Char → Bool) (c : Char) (cs : List Char) : Read (List Char) (c :: cs) where
  value := c :: cs.takeWhile p
  text := c :: cs.takeWhile p
  rest := cs.dropWhile p
  split := by rw [List.cons_append, List.takeWhile_append_dropWhile]
  nonempty := by simp

/-- One reading after another. -/
def append (r : Read α cs) (q : Read β r.rest) : Read (α × β) cs where
  value := (r.value, q.value)
  text := r.text ++ q.text
  rest := q.rest
  split := by rw [List.append_assoc, ← q.split, ← r.split]
  nonempty := by simp [r.nonempty]

theorem length_rest_lt (r : Read α cs) : r.rest.length < cs.length := by
  have split := congrArg List.length r.split
  have := List.length_pos_iff.2 r.nonempty
  rw [List.length_append] at split
  omega

end Read

abbrev Lexeme (cs : List Char) := Read Token.Kind cs

namespace Lexeme

def startsWord (c : Char) : Bool := c.isAlpha || c = '_'

def continuesWord (c : Char) : Bool := c.isAlphanum || c = '_'

def maxInt : Nat := 2147483647

def integer (digits : List Char) : Except LexError.Cause Token.Kind :=
  let n := digitsValue digits
  if n ≤ maxInt then .ok (.int (Int32.ofNat n)) else .error .numberTooLarge

/-- The digits of a fraction, with the point before them. -/
def fraction? : (cs : List Char) → Option (Read (List Char) cs)
  | '.' :: d :: cs => if d.isDigit then some ((Read.run Char.isDigit d cs).cons '.') else none
  | _ => none

/-- A number, given its first digit. -/
def number (c : Char) (cs : List Char) : Except LexError.Cause (Lexeme (c :: cs)) :=
  let whole := Read.run Char.isDigit c cs
  match fraction? whole.rest with
  | some fraction =>
    .ok ((whole.append fraction).map fun (n, f) => .double (Double.ofParts n f))
  | none => (integer whole.value).map fun kind => whole.map fun _ => kind

/-- The character that a backslash and `c` stand for. -/
def unescape? (c : Char) : Option Char :=
  if c = 'n' then some '\n'
  else if c = 'r' then some '\r'
  else if c = 't' then some '\t'
  else if c = '0' then some '\x00'
  else if c = '\\' ∨ c = '\x27' ∨ c = '"' then some c
  else none

/-- The contents of a literal, after its opening quote and up to its closing one. -/
def contents (quote : Char) : (cs : List Char) → Except LexError.Cause (Read (List Char) cs)
  | [] => .error .unterminated
  | c :: cs =>
    if c = quote then .ok ⟨[], [c], cs, rfl, by simp⟩
    else if c = '\\' then
      match cs with
      | [] => .error .unterminated
      | e :: cs =>
        match unescape? e with
        | none => .error (.unknownEscape e)
        | some v => (contents quote cs).map fun r => ((r.cons e).cons c).map (v :: ·)
    else if c = '\n' then .error .unterminated
    else (contents quote cs).map fun r => (r.cons c).map (c :: ·)

/-- The token of a literal's contents in given quotes. -/
def literal (quote : Char) (value : List Char) : Except LexError.Cause Token.Kind :=
  if quote = '"' then .ok (.string (String.ofList value))
  else match value with
    | [c] => .ok (.char c)
    | _ => .error .notOneCharacter

def quoted (quote : Char) (cs : List Char) : Except LexError.Cause (Lexeme (quote :: cs)) := do
  let r ← contents quote cs
  let kind ← literal quote r.value
  return (r.cons quote).map fun _ => kind

def shortSymbol (c : Char) (cs : List Char) : Except LexError.Cause (Lexeme (c :: cs)) :=
  let text := String.ofList [c]
  if text ∈ Token.shortSymbols then .ok ⟨.symbol text, [c], cs, rfl, by simp⟩
  else .error (.invalidCharacter c)

/-- A symbol, given its first character. -/
def symbol (c : Char) : (cs : List Char) → Except LexError.Cause (Lexeme (c :: cs))
  | [] => shortSymbol c []
  | d :: cs =>
    let text := String.ofList [c, d]
    if text ∈ Token.longSymbols then .ok ⟨.symbol text, [c, d], cs, rfl, by simp⟩
    else shortSymbol c (d :: cs)

/-- The lexeme that begins with `c`. -/
def ofChars (c : Char) (cs : List Char) : Except LexError.Cause (Lexeme (c :: cs)) :=
  if startsWord c then
    .ok ((Read.run continuesWord c cs).map fun word => .ofWord (String.ofList word))
  else if c.isDigit then number c cs
  else if c = '"' ∨ c = '\x27' then quoted c cs
  else symbol c cs

end Lexeme

end OnePass
