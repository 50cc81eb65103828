import OnePass.Position

/-!
# Excerpts

A message about a source text is followed by the line it speaks of and a caret below the column. A
line ends at a line feed; a carriage return directly before that line feed belongs to the line end;
a text that ends in a line feed has no empty last line.
-/

namespace OnePass

def dropReturn (line : List Char) : List Char :=
  if line.getLast? = some '\r' then line.dropLast else line

/-- The lines of a text whose first line has begun with `open_`, reversed. -/
def linesFrom (open_ : List Char) : List Char → List (List Char)
  | [] => if open_.isEmpty then [] else [open_.reverse]
  | c :: cs =>
    if c = '\n' then dropReturn open_.reverse :: linesFrom [] cs else linesFrom (c :: open_) cs

def lines (source : String) : List (List Char) :=
  linesFrom [] source.toList

/-- A source line and a marker that points into it. -/
structure Excerpt where
  line : String
  marker : String

namespace Excerpt

/-- The excerpt at a position: the line is empty if there is no such line, and the caret stands at
most one column behind the line's last character. -/
def atPosition (source : String) (p : Position) : Excerpt :=
  let line := (lines source)[p.line - 1]?.getD []
  ⟨String.ofList line,
   String.ofList (List.replicate (min (p.column - 1) line.length) ' ' ++ ['^'])⟩

/-- A message followed by its excerpt, on lines of their own. -/
def below (message : String) (e : Excerpt) : String :=
  message ++ "\n" ++ e.line ++ "\n" ++ e.marker

end Excerpt

end OnePass
