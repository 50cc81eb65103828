import OnePass.Production.Statement
import OnePass.Token.Scan

/-!
# Compilation

A source text is scanned, its tokens are read by one pass over the grammar, and the events of that
pass are replayed into a listing and a list of diagnostics. Problems of the program are diagnostics
and leave a listing all the same; only a lexical error ends a compilation.
-/

namespace OnePass

/-- One pass over a token stream: what it did, and what it left. -/
structure Pass where
  events : List Event
  rest : Tokens

namespace Pass

/-- Reads a program, beginning with the given scopes, in which the primitive types are bound first. -/
def run (structural : Severity) (scopes : Scopes) (s : Tokens) : Pass :=
  let x := program { scopes := scopes.withPrimitives, structural } {} s
  ⟨(ValueType.primitives.map fun (name, type) => .scope (.bindBase name type)) ++ x.events, x.rest⟩

def diagnostics (p : Pass) : List Diagnostic := OnePass.diagnostics p.events

/-- A program is accepted if no error was reported and the input was read to its end. -/
def accepted (p : Pass) : Bool := Diagnostic.errorCount p.diagnostics = 0 ∧ p.rest.atEnd

def listing (p : Pass) : Except Draft.Fault Listing := (Draft.replay {} p.events).finish

end Pass

/-- The outcome of a compilation. -/
structure Compilation where
  accepted : Bool
  listing : Listing
  diagnostics : List Diagnostic

inductive CompileError where
  | lexical (error : LexError)
  | labels (fault : Draft.Fault)

/-- An error as it is shown to the reader of the source. -/
def CompileError.text (source : String) : CompileError → String
  | lexical error => error.text source
  | labels fault => fault.message

/-- Compiles a source text. A missing bracket or terminator has the severity `structural`, and names
are first looked for in the program and then in `scopes`. -/
def compile (source : String) (structural : Severity := .error) (scopes : Scopes := {}) :
    Except CompileError Compilation :=
  match scan source with
  | .error error => .error (.lexical error)
  | .ok tokens =>
    let pass := Pass.run structural scopes (.ofList tokens)
    match pass.listing with
    | .error fault => .error (.labels fault)
    | .ok listing => .ok ⟨pass.accepted, listing, pass.diagnostics⟩

end OnePass
