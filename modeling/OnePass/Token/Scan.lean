import OnePass.Text.Blank
import OnePass.Text.Excerpt
import OnePass.Token.Lexeme

/-!
# Scanning

A text is cut into tokens: blanks and comments are skipped, a lexeme is read, and so on to the end,
where a last token marks the end of the input. A comment runs from two slashes to the end of its
line. The first lexical error ends the scan.
-/

namespace OnePass

/-- What stands before a lexeme or the end of the text `cs`. -/
structure Gap (cs : List Char) where
  text : List Char
  rest : List Char
  split : cs = text ++ rest

namespace Gap

def none (cs : List Char) : Gap cs := ⟨[], cs, rfl⟩

def cons {cs : List Char} (c : Char) (g : Gap cs) : Gap (c :: cs) where
  text := c :: g.text
  rest := g.rest
  split := by rw [List.cons_append, ← g.split]

/-- The rest of a comment if `inComment`, and then blanks and comments. -/
def ofChars (inComment : Bool) : (cs : List Char) → Gap cs
  | [] => none []
  | c :: cs =>
    if inComment then (ofChars (c ≠ '\n') cs).cons c
    else if isBlank c then (ofChars false cs).cons c
    else if c = '/' ∧ cs.head? = some '/' then (ofChars true cs).cons c
    else none (c :: cs)

end Gap

/-- The tokens of a text that begins at `pos`. -/
def scanFrom (pos : Position) (cs : List Char) : Except LexError (List Token) :=
  match Gap.ofChars false cs with
  | ⟨gap, [], _⟩ => .ok [⟨.eof, pos.afterAll gap⟩]
  | ⟨gap, c :: rest, _split⟩ =>
    let start := pos.afterAll gap
    match Lexeme.ofChars c rest with
    | .error cause => .error ⟨start, cause⟩
    | .ok lexeme =>
      (scanFrom (start.afterAll lexeme.text) lexeme.rest).map (⟨lexeme.value, start⟩ :: ·)
termination_by cs.length
decreasing_by
  rw [_split, List.length_append]
  exact Nat.lt_of_lt_of_le lexeme.length_rest_lt (Nat.le_add_left _ _)

def scan (source : String) : Except LexError (List Token) :=
  scanFrom .start source.toList

/-- A message about a place in a source text, with its excerpt. -/
def annotate (source : String) (pos : Position) (message : String) : String :=
  (Excerpt.atPosition source pos).below (pos.text ++ ": " ++ message)

/-- A lexical error as it is shown to the reader of the source. -/
def LexError.text (source : String) (e : LexError) : String :=
  annotate source e.pos e.cause.message

end OnePass
