import OnePass.Production.Env
import OnePass.Production.Judgement
import OnePass.Production.Run

/-!
# Small productions

The productions that read at most one token, and the step from a typing rule to an attempt.
-/

namespace OnePass

/-- Reads a bracket or a terminator. Its absence has the severity that the surroundings give. -/
def expect (env : Env) (symbol : String) (s : Tokens) : Attempt s Unit :=
  match s.symbol? symbol with
  | some r => Run.reached r.reaches (.ok ())
  | none => .fail env.structural s.current.pos (.unexpected (.symbol symbol) s.current.kind)

def identifier (s : Tokens) : Attempt s (String × Position) :=
  match s.uncons? with
  | some (⟨.ident name, pos⟩, r) => Run.reached r.reaches (.ok (name, pos))
  | _ => .unexpected .identifier

def typeName (env : Env) (s : Tokens) : Attempt s ValueType :=
  match env.typeName? s with
  | some (type, r) => Run.reached r.reaches (.ok type)
  | none => .unexpected .typeName

/-- Follows a typing rule: a warning is reported and a refusal is an error, both at `pos`. -/
def follow {α : Type} {s : Tokens} (pos : Position) : Judgement α → Attempt s α
  | .accepted a => .ok a
  | .widened a warning => Run.after [.report .warning pos warning] (.ok a)
  | .refused problem => .fail .error pos problem

def Token.Kind.startsExpression : Token.Kind → Bool
  | .ident _ | .int _ | .double _ | .bool _ | .char _ | .string _ => true
  | .symbol text => text ∈ ["(", "+", "-", "~", "!", "++", "--", "*", "&"]
  | .keyword _ | .eof => false

/-- The type and the instruction of a literal. -/
def Token.Kind.literal? : Token.Kind → Option (ValueType × Instruction)
  | .int value => some (.int, .pushInt value)
  | .double value => some (.double, .pushDouble value)
  | .bool value => some (.bool, .pushBool value)
  | .char value => some (.char, .pushChar value)
  | .string value => some (.string, .pushString value)
  | _ => none

/-- The type and the instruction of a numeric literal behind a sign. -/
def Token.Kind.signedLiteral? (negative : Bool) : Token.Kind → Option (ValueType × Instruction)
  | .int value => some (.int, .pushInt (if negative then -value else value))
  | .double value => some (.double, .pushDouble (if negative then -value else value))
  | _ => none

end OnePass
