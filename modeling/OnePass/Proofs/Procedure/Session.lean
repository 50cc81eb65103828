import OnePass.Proofs.Stateful.Expression
import OnePass.Proofs.Stream

/-!
# Sessions

The compiler as it works through its tokens, one at a time. A session holds the source of tokens,
the token at hand, the state of the compiler, and a transcript of everything that was done: every
token that was taken from the source, every query, everything that was entered into scopes, draft
and reports, and where a procedure was entered and left.

A script is a program on sessions, and may invoke routines, which are scripts themselves. It need
not come to an end, and nothing keeps it from taking tokens from the source behind an end of input.
That the scripts of the compiler do neither is to be proved, not assumed: the routines in the module
beside this one invoke one another without any measure.
-/

namespace OnePass

/-- The procedures that call one another. -/
inductive Procedure where
  | call | named | primary | signed | simple | multiplicative | additive | expression
  | assignment | statement | declaration
deriving DecidableEq

/-- How far down a procedure is. One that is entered without a token being read in between is
further down. -/
def Procedure.rank : Procedure → Nat
  | call => 0
  | named => 1
  | primary => 2
  | signed => 3
  | simple => 4
  | multiplicative => 6
  | additive => 8
  | expression => 9
  | assignment => 10
  | statement => 11
  | declaration => 12

/-- The header of a function, read up to its closing parenthesis. -/
structure Header where
  ret : ValueType
  name : String
  pos : Position
  parameter : Parameter

/-- The signature that a header gives its function. -/
def Header.signature (h : Header) : Signature := ⟨h.parameter.type, h.ret⟩

/-- What is asked of the scopes, of the host, and of the reports. -/
inductive Query where
  | lookup (name : String)
  | innermost (name : String)
  | host (name : String)
  | errorCount

/-- An entry of the transcript. -/
inductive Act where
  /-- A token is taken from the source, in place of the one at hand, if there is one. -/
  | read (current : Option Token)
  | query (q : Query)
  | done (entry : Entry)
  /-- A value is to go to a destination. -/
  | check (destination : Destination) (expected given : ValueType)
  /-- The header of a function was read, and its body comes next. -/
  | header (h : Header)
  | enter (p : Procedure)
  /-- A procedure is left, with the type of its value if it has one. -/
  | leave (type : Option ValueType)

/-- The compiler at work. -/
structure Session where
  source : Tokens
  token : Token
  state : State
  transcript : List Act := []

namespace Session

/-- A session at its beginning: the first token is taken from the source. -/
def start (source : Tokens) (state : State) : Session where
  source := source.next.2
  token := source.next.1
  state := state
  transcript := [.read none]

/-- Takes a token from the source, whatever is at hand. -/
def advance (x : Session) : Session :=
  { x with
    source := x.source.next.2
    token := x.source.next.1
    transcript := x.transcript ++ [.read (some x.token)] }

def note (x : Session) (a : Act) : Session := { x with transcript := x.transcript ++ [a] }

/-- Does what some entries say, and writes them down. -/
def record (x : Session) (entries : List Entry) : Session :=
  { x with
    state := x.state.record entries
    transcript := x.transcript ++ entries.map .done }

end Session

/-- What a script may invoke, and the type of its value. -/
inductive Routine : Type → Type
  | synchronize : Routine Unit
  | expression : Routine (Option ValueType)
  | additive : Routine (Option ValueType)
  | additiveRest (lhs : ValueType) : Routine (Option ValueType)
  | multiplicative : Routine (Option ValueType)
  | multiplicativeRest (lhs : ValueType) : Routine (Option ValueType)
  | simple : Routine (Option ValueType)
  | signed (negative : Bool) : Routine (Option Stateful.Operand)
  | primary : Routine (Option Stateful.Operand)
  | named (name : String) (pos : Position) : Routine (Option Stateful.Operand)
  | statement : Routine Bool
  | statements : Routine Unit
  | declarations : Routine Unit
  | declaration : Routine Unit
  | program : Routine Unit

/-- A program on sessions: it is done, or takes a step, or invokes a routine first. -/
inductive Script (α : Type) : Type 1
  | done (a : α)
  | step {β : Type} (f : Session → β × Session) (next : β → Script α)
  | calls {β : Type} (routine : Routine β) (next : β → Script α)

namespace Script

protected def bind {α β : Type} : Script α → (α → Script β) → Script β
  | done a, k => k a
  | step f next, k => step f fun b => (next b).bind k
  | calls routine next, k => calls routine fun b => (next b).bind k

instance : Monad Script where
  pure := done
  bind := Script.bind

instance : LawfulMonad Script := by
  refine .mk' Script (fun m => ?_) (fun _ _ => rfl) (fun m k k' => ?_)
  · induction m with
    | done a => rfl
    | step f next ih => exact congrArg (step f) (funext ih)
    | calls routine next ih => exact congrArg (calls routine) (funext ih)
  · induction m with
    | done a => rfl
    | step f next ih => exact congrArg (step f) (funext ih)
    | calls routine next ih => exact congrArg (calls routine) (funext ih)

def invoke {α : Type} (routine : Routine α) : Script α := calls routine done

def look : Script Session := step (fun x => (x, x)) done

def modify (f : Session → Session) : Script Unit := step (fun x => ((), f x)) done

def token : Script Token := return (← look).token

def state : Script State := return (← look).state

def advance : Script Unit := modify Session.advance

def note (a : Act) : Script Unit := modify (·.note a)

def record (entries : List Entry) : Script Unit := modify (·.record entries)

/-- Changes the state, not its scopes and not what was done. -/
def adjust (f : State → State) : Script Unit := modify fun x => { x with state := f x.state }

def act (es : List Event) : Script Unit := record (es.map fun e => { event := e })

def emit (is : List Instruction) : Script Unit := act (Event.emits is)

def emitFor (x : Mention) (is : List Instruction) : Script Unit :=
  record (is.map fun i => ⟨.emit i, some x⟩)

/-- Takes the tokens up to the next `;` from the source, or up to an end of input. -/
def synchronize : Script Unit := do
  let t ← token
  if t.isEof then pure ()
  else
    advance
    if t.isSymbol ";" then pure () else invoke .synchronize

/-- Reports, goes on behind the next `;`, and yields nothing. -/
def fail {α : Type} (severity : Severity) (pos : Position) (problem : Problem) :
    Script (Option α) := do
  act [.report severity pos problem]
  invoke .synchronize
  return none

def unexpected {α : Type} (wanted : Wanted) : Script (Option α) := do
  let t ← token
  fail .error t.pos (.unexpected wanted t.kind)

/-- Follows a typing rule. -/
def follow {α : Type} (pos : Position) : Judgement α → Script (Option α)
  | .accepted a => return some a
  | .widened a warning => do
    act [.report .warning pos warning]
    return some a
  | .refused problem => fail .error pos problem

/-- Checks whether a value may go to a destination. -/
def coerce (destination : Destination) (expected given : ValueType) (pos : Position) :
    Script (Option Unit) := do
  note (.check destination expected given)
  follow pos (ValueType.allow destination expected given)

/-- Takes the next token if the one at hand is as `p` says. -/
def takeIf (p : Token → Bool) : Script Bool := do
  let t ← token
  if p t then
    advance
    return true
  else return false

abbrev equal (symbol : String) : Script Bool := takeIf (·.isSymbol symbol)

/-- Takes the next token if a keyword is at hand. -/
abbrev equalKeyword (word : String) : Script Bool := takeIf (·.isKeyword word)

/-- Requires a bracket or a terminator. -/
def expect (symbol : String) : Script (Option Unit) := do
  if ← equal symbol then return some ()
  else
    let t ← token
    let st ← state
    fail st.structural t.pos (.unexpected (.symbol symbol) t.kind)

/-- Requires an identifier. -/
def identifier : Script (Option (String × Position)) := do
  let t ← token
  match t.kind with
  | .ident name =>
    advance
    return some (name, t.pos)
  | _ => unexpected .identifier

/-- Takes the next token if an operator is at hand. -/
def operator {α : Type} (classify : String → Option α) : Script (Option α) := do
  let t ← token
  match t.kind.operator? classify with
  | some op =>
    advance
    return some op
  | none => return none

def lookup (name : String) : Script (Option Symbol) := do
  note (.query (.lookup name))
  let st ← state
  return st.scopes.find? name

/-- The type that the token at hand names. -/
def peekType : Script (Option ValueType) := do
  let t ← token
  match t.kind with
  | .keyword word => return (← lookup word).bind Symbol.type?
  | .ident name =>
    match ← lookup name with
    | some symbol => return symbol.type?
    | none =>
      note (.query (.host name))
      let st ← state
      return st.scopes.host name
  | _ => return none

/-- Requires a type name. -/
def typeName : Script (Option ValueType) := do
  match ← peekType with
  | some type =>
    advance
    return some type
  | none => unexpected .typeName

/-- Runs a procedure, and writes down where it is entered and left. -/
abbrev within {α : Type} (p : Procedure) (type : α → Option ValueType) (text : Script α) :
    Script α := do
  note (.enter p)
  let v ← text
  note (.leave (type v))
  return v

end Script

end OnePass
