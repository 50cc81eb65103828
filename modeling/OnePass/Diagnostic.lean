import OnePass.Text.Excerpt

/-!
# Diagnostics

What the compiler has to say about a program: errors, warnings and notes, each about a position.
-/

namespace OnePass

/-- How serious a diagnostic is. Only an error keeps a program from being accepted. -/
inductive Severity where
  | note
  | warning
  | error
deriving DecidableEq

namespace Severity

def text : Severity → String
  | note => "note"
  | warning => "warning"
  | error => "error"

def weight : Severity → Nat
  | note => 0
  | warning => 1
  | error => 2

def atLeast (s least : Severity) : Bool := least.weight ≤ s.weight

end Severity

/-- A remark about a position in a program. -/
structure Diagnostic where
  severity : Severity
  pos : Position
  message : String
deriving DecidableEq

namespace Diagnostic

/-- The form `position: severity: message`. -/
def text (d : Diagnostic) : String :=
  d.pos.text ++ ": " ++ d.severity.text ++ ": " ++ d.message

/-- The text with an excerpt of the source. -/
def render (source : String) (d : Diagnostic) : String :=
  (Excerpt.atPosition source d.pos).below d.text

def errorCount (ds : List Diagnostic) : Nat := ds.countP (·.severity = .error)

end Diagnostic

end OnePass
