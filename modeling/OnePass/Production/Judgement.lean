import OnePass.Instruction
import OnePass.Problem

/-!
# Judgements

The rules of typing, apart from any program: what an operator makes of its operands, and whether a
value may go to a destination. A judgement accepts, accepts with a warning, or refuses.
-/

namespace OnePass

/-- The outcome of a typing rule. -/
inductive Judgement (α : Type) where
  | accepted (a : α)
  | widened (a : α) (warning : Problem)
  | refused (problem : Problem)

namespace Judgement

def map {α β : Type} (f : α → β) : Judgement α → Judgement β
  | accepted a => accepted (f a)
  | widened a warning => widened (f a) warning
  | refused problem => refused problem

end Judgement

/-- The common type of two operands of arithmetic. -/
def ValueType.promote (symbol : String) (lhs rhs : ValueType) : Judgement ValueType :=
  match arithmetic? lhs rhs with
  | some (.exact type) => .accepted type
  | some (.widened type) => .widened type (.widenedOperands symbol lhs rhs type)
  | none => .refused (.badOperands symbol lhs rhs)

/-- Whether a value may go to a destination of type `expected`. -/
def ValueType.allow (destination : Destination) (expected given : ValueType) : Judgement Unit :=
  match accept? expected given with
  | some (.exact _) => .accepted ()
  | some (.widened _) => .widened () (.widenedValue destination expected given)
  | none => .refused (.badValue destination expected given)

/-- The type and the instruction of an additive operation. A disjunction is of truth values. If one
operand is a string so is the result, and then a sum is a concatenation. -/
def Additive.judge (op : Additive) (lhs rhs : ValueType) : Judgement (ValueType × Instruction) :=
  if op = .or then
    if lhs = .bool ∧ rhs = .bool then .accepted (.bool, .additive op)
    else .refused (.badOperands op.symbol lhs rhs)
  else if lhs = .string ∨ rhs = .string then
    .accepted (.string, if op = .add then .concat else .additive op)
  else (ValueType.promote op.symbol lhs rhs).map (·, .additive op)

/-- The type and the instruction of a multiplicative operation. A conjunction is of truth values. -/
def Multiplicative.judge (op : Multiplicative) (lhs rhs : ValueType) :
    Judgement (ValueType × Instruction) :=
  if op = .and then
    if lhs = .bool ∧ rhs = .bool then .accepted (.bool, .multiplicative op)
    else .refused (.badOperands op.symbol lhs rhs)
  else (ValueType.promote op.symbol lhs rhs).map (·, .multiplicative op)

namespace Assignment

/-- The code before the value of an assignment: a compound one begins with the old value. -/
def preload (slot : Nat) : Assignment → List Instruction
  | plain => []
  | additive _ | multiplicative _ => [.load slot]

/-- The type of what an assignment stores, and the code that computes it from the operands. -/
def judge (variable_ value : ValueType) : Assignment → Judgement (ValueType × List Instruction)
  | plain => .accepted (value, [])
  | additive op => (op.judge variable_ value).map fun (type, i) => (type, [i])
  | multiplicative op => (op.judge variable_ value).map fun (type, i) => (type, [i])

end Assignment

/-- The code of a step by one: the new value is stored and stays. -/
def Additive.step (op : Additive) (type : ValueType) (slot : Nat) : List Instruction :=
  [if type = .double then .pushDouble .one else .pushInt 1, .additive op, .store slot]

end OnePass
