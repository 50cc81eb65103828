import OnePass.Listing
import OnePass.Production.Env
import OnePass.Proofs.Resolution

/-!
# Generation

The code of resolved programs. Expressions are evaluated from left to right on the stack. Labels are
numbered throughout a program in the order in which conditionals and loops begin, the second label
of a conditional only when its `else` is met. A function's code is not part of the code around it:
it becomes a body of its own, behind the bodies of the functions inside it.
-/

namespace OnePass

/-! ## Expressions -/

/-- The instruction that pushes a literal. -/
def Literal.instruction : Literal → Instruction
  | int value => .pushInt value
  | double value => .pushDouble value
  | bool value => .pushBool value
  | char value => .pushChar value
  | string value => .pushString value

/-- The instruction of an operator. -/
def Binary.instruction : Binary → Instruction
  | compare op => .compare op
  | additive op => .additive op
  | multiplicative op => .multiplicative op
  | concat => .concat

/-- The code of an expression, which leaves its value on the stack. -/
def Term.code : Term → List Instruction
  | literal l => [l.instruction]
  | load slot => [.load slot]
  | store slot value => value.code ++ [.store slot]
  | call link argument => argument.code ++ [.call link]
  | unary op operand => operand.code ++ [.unary op]
  | binary op lhs rhs => lhs.code ++ (rhs.code ++ [op.instruction])
  | stepBehind op one slot =>
    [.load slot, .load slot, one.instruction, .additive op, .store slot, .pop]

/-! ## Statements -/

/-- A function of a resolved program. -/
structure Function where
  link : String
  signature : Option Signature
  locals : List (String × ValueType)
  body : Stmt
deriving DecidableEq

namespace Stmt

/-- How many labels a statement takes, those of the functions inside it included. -/
def labels : Stmt → Nat
  | seq s t => s.labels + t.labels
  | define _ _ _ body => body.labels
  | ifThen _ s => s.labels + 1
  | ifElse _ s t => s.labels + t.labels + 2
  | loop _ s => s.labels + 2
  | _ => 0

/-- The code of a statement inside a loop with the given targets, if it is inside one, whose labels
begin with `n`. -/
def code (targets : Option LoopTargets) (n : Nat) : Stmt → List Instruction
  | skip => []
  | seq s t => s.code targets n ++ t.code targets (n + s.labels)
  | define _ _ _ _ => []
  | eval t => t.code ++ [.pop]
  | ifThen e s => e.code ++ .jumpUnless n :: (s.code targets (n + 1) ++ [.mark n])
  | ifElse e s t =>
    let finish := n + 1 + s.labels
    e.code ++ .jumpUnless n :: (s.code targets (n + 1) ++
      .jump finish :: .mark n :: (t.code targets (finish + 1) ++ [.mark finish]))
  | loop e s =>
    .mark n :: (e.code ++ .jumpUnless (n + 1) ::
      (s.code (some ⟨n, n + 1⟩) (n + 2) ++ [.jump n, .mark (n + 1)]))
  | exit => targets.elim [] fun l => [.jump l.exit]
  | next => targets.elim [] fun l => [.jump l.next]
  | ret value => value.elim [] Term.code ++ [.ret]

/-- The functions defined in a statement whose labels begin with `n`, inner ones first, each with
the label that its own begin with. -/
def functions (n : Nat) : Stmt → List (Function × Nat)
  | seq s t => s.functions n ++ t.functions (n + s.labels)
  | define link signature locals body =>
    body.functions n ++ [(⟨link, some signature, locals, body⟩, n)]
  | ifThen _ s => s.functions (n + 1)
  | ifElse _ s t => s.functions (n + 1) ++ t.functions (n + 1 + s.labels + 1)
  | loop _ s => s.functions (n + 2)
  | _ => []

end Stmt

/-- The body of a function whose labels begin with `n`. -/
def Function.compiled (f : Function) (n : Nat) : Body where
  name := f.link
  signature := f.signature
  locals := f.locals.toArray
  code := (f.body.code none n).toArray

/-! ## Programs -/

namespace Tree

/-- The functions of a program, the entry first, each with its first label, if the program keeps the
rules of scope and type. -/
def Statements.functions? (p : Statements) : Option (List (Function × Nat)) :=
  (p.resolve? {} {}).map fun (s, inv) => (⟨entryName, none, inv.locals, s⟩, 0) :: s.functions 0

/-- The listing of a program that keeps the rules of scope and type. -/
def Statements.listing? (p : Statements) : Option Listing :=
  p.functions?.map fun fs => ⟨fs.map fun (f, n) => f.compiled n⟩

end Tree

end OnePass
