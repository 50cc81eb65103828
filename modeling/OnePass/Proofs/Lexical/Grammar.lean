import Mathlib.Data.Nat.Digits.Defs
import OnePass.Proofs.Lexical.Rounding
import OnePass.Token.Scan

/-!
# The lexical grammar

What a source text is made of, without saying how it is read: blanks and comments (`Trivia`), the
spellings of tokens and what they mean (`Spells`), and what cannot be read (`Fails`). A text is cut
into segments, each of them trivia and then the longest lexeme that begins there (`Cut`).
-/

namespace OnePass

/-- The position behind a text: its line is one more than the line feeds in it, and its column one
more than the characters behind the last of them. -/
def Position.of (text : List Char) : Position :=
  ⟨1 + text.count '\n', 1 + (text.reverse.takeWhile (· ≠ '\n')).length⟩

def Position.Before (p q : Position) : Prop :=
  p.line < q.line ∨ p.line = q.line ∧ p.column < q.column

namespace Lexical

/-- Blanks and comments. A comment runs from two slashes to the end of its line, or to the end of
the text if `ends`. -/
inductive Trivia (ends : Bool) : List Char → Prop
  | nil : Trivia ends []
  | blank {c : Char} {cs : List Char} (white : isBlank c = true) (rest : Trivia ends cs) :
    Trivia ends (c :: cs)
  | comment {text cs : List Char} (line : '\n' ∉ text) (rest : Trivia ends cs) :
    Trivia ends ('/' :: '/' :: text ++ '\n' :: cs)
  | lastComment {text : List Char} (line : '\n' ∉ text) (last : ends = true) :
    Trivia ends ('/' :: '/' :: text)

/-- The characters that can stand behind a backslash, and what they stand for. -/
def escapes : List (Char × Char) :=
  [('n', '\n'), ('r', '\r'), ('t', '\t'), ('0', '\x00'), ('\\', '\\'), ('\x27', '\x27'), ('"', '"')]

/-- What stands between quotes, and the text that it stands for. -/
inductive Encodes (quote : Char) : List Char → List Char → Prop
  | nil : Encodes quote [] []
  | plain {c : Char} {cs text : List Char} (open_ : c ≠ quote) (noEscape : c ≠ '\\')
    (line : c ≠ '\n') (rest : Encodes quote cs text) : Encodes quote (c :: cs) (c :: text)
  | escape {e c : Char} {cs text : List Char} (known : (e, c) ∈ escapes)
    (rest : Encodes quote cs text) : Encodes quote ('\\' :: e :: cs) (c :: text)

/-- A quotation mark of strings or of characters. -/
def IsQuote (c : Char) : Prop := c = '"' ∨ c = '\x27'

/-- What a word means: a truth value, a keyword or an identifier. -/
inductive Means : String → Token.Kind → Prop
  | yes : Means "true" (.bool true)
  | no : Means "false" (.bool false)
  | keyword {word : String} (known : word ∈ Token.keywords) : Means word (.keyword word)
  | ident {word : String} (noTruth : word ≠ "true" ∧ word ≠ "false")
    (noKeyword : word ∉ Token.keywords) : Means word (.ident word)

/-- The number that decimal digits are written for. -/
def decimal (digits : List Char) : Nat :=
  Nat.ofDigits 10 (digits.reverse.map fun c => c.toNat - '0'.toNat)

/-- The characters are a lexeme, and the token that they mean or why they mean none. -/
inductive Spells : List Char → Except LexError.Cause Token.Kind → Prop
  | word {c : Char} {cs : List Char} {kind : Token.Kind} (first : Lexeme.startsWord c = true)
    (further : ∀ d ∈ cs, Lexeme.continuesWord d = true)
    (means : Means (String.ofList (c :: cs)) kind) : Spells (c :: cs) (.ok kind)
  | integer {c : Char} {cs : List Char} {value : Int32} (digits : ∀ d ∈ c :: cs, d.isDigit = true)
    (exact : value.toInt = decimal (c :: cs)) : Spells (c :: cs) (.ok (.int value))
  | largeInteger {c : Char} {cs : List Char} (digits : ∀ d ∈ c :: cs, d.isDigit = true)
    (large : Lexeme.maxInt < decimal (c :: cs)) : Spells (c :: cs) (.error .numberTooLarge)
  | double {c d : Char} {cs ds : List Char} {value : Double}
    (whole : ∀ d ∈ c :: cs, d.isDigit = true) (fraction : ∀ c ∈ d :: ds, c.isDigit = true)
    (nearest : value.IsNearest (decimal (c :: cs ++ d :: ds) / 10 ^ (d :: ds).length)) :
    Spells (c :: cs ++ '.' :: d :: ds) (.ok (.double value))
  | string {cs text : List Char} (encodes : Encodes '"' cs text) :
    Spells ('"' :: cs ++ ['"']) (.ok (.string (String.ofList text)))
  | char {c : Char} {cs : List Char} (encodes : Encodes '\x27' cs [c]) :
    Spells ('\x27' :: cs ++ ['\x27']) (.ok (.char c))
  | noCharacter {cs text : List Char} (encodes : Encodes '\x27' cs text) (many : text.length ≠ 1) :
    Spells ('\x27' :: cs ++ ['\x27']) (.error .notOneCharacter)
  | symbol {text : String} (known : text ∈ Token.longSymbols ++ Token.shortSymbols) :
    Spells text.toList (.ok (.symbol text))

/-- No lexeme at the beginning of the text is longer. -/
def IsLongest (lexeme text : List Char) : Prop :=
  ∀ l m, Spells l m → l <+: text → l.length ≤ lexeme.length

/-- Why a text cannot be read on: no lexeme begins there, or the longest one means no token. -/
inductive Fails : List Char → LexError.Cause → Prop
  | invalidCharacter {c : Char} {cs : List Char} (visible : isBlank c = false)
    (unquoted : ¬ IsQuote c) (none : ∀ l m, Spells l m → ¬ l <+: c :: cs) :
    Fails (c :: cs) (.invalidCharacter c)
  | unterminated {quote : Char} {cs text rest : List Char} (isQuote : IsQuote quote)
    (encodes : Encodes quote cs text)
    (ends : rest = [] ∨ rest = ['\\'] ∨ rest.head? = some '\n') :
    Fails (quote :: cs ++ rest) .unterminated
  | unknownEscape {quote e : Char} {cs text rest : List Char} (isQuote : IsQuote quote)
    (encodes : Encodes quote cs text) (unknown : ∀ c, (e, c) ∉ escapes) :
    Fails (quote :: cs ++ '\\' :: e :: rest) (.unknownEscape e)
  | meaningless {l rest : List Char} {cause : LexError.Cause} (spells : Spells l (.error cause))
    (longest : IsLongest l (l ++ rest)) : Fails (l ++ rest) cause

/-- A token with its lexeme and the trivia before it. -/
structure Segment where
  gap : List Char
  lexeme : List Char
  token : Token

def textOf (segments : List Segment) : List Char := segments.flatMap fun s => s.gap ++ s.lexeme

/-- The segment stands between two texts as the grammar says: its lexeme is the longest one there,
no comment begins there, and the token has its meaning and the position of its first character. -/
structure Segment.Fits (before : List Char) (s : Segment) (after : List Char) : Prop where
  trivia : Trivia false s.gap
  spells : Spells s.lexeme (.ok s.token.kind)
  longest : IsLongest s.lexeme (s.lexeme ++ after)
  noComment : ¬ ['/', '/'] <+: s.lexeme ++ after
  pos : s.token.pos = .of (before ++ s.gap)

/-- Each of the segments between two texts fits there. -/
def Cut (before : List Char) : List Segment → List Char → Prop
  | [], _ => True
  | s :: segments, after =>
    s.Fits before (textOf segments ++ after) ∧ Cut (before ++ s.gap ++ s.lexeme) segments after

end Lexical

end OnePass
