import OnePass.Proofs.Resolution

/-!
# The meaning of resolved programs

Expressions and statements are given a meaning over any domain of values. What literals, operators
and calls mean is left open, and an operation may have no result. Expressions are evaluated from
left to right and may change the store. A statement ends normally, or leaves the loop around it, or
goes on with it, or returns from its function.
-/

namespace OnePass

/-- The meaning of literals, operators and calls, and which values a condition takes for false, as
`false` and zero. -/
structure Interpretation (V : Type) where
  literal : Literal → V
  unary : Unary → V → Option V
  binary : Binary → V → V → Option V
  call : String → V → Option V
  isFalse : V → Bool

def Store (V : Type) := Nat → V

def Store.set {V : Type} (σ : Store V) (slot : Nat) (v : V) : Store V :=
  fun k => if k = slot then v else σ k

section Meaning

variable {V : Type} (I : Interpretation V)

/-! ## Expressions -/

/-- The value of an expression and the store after it, if it has one. -/
def Term.eval : Term → Store V → Option (V × Store V)
  | literal l, σ => some (I.literal l, σ)
  | load slot, σ => some (σ slot, σ)
  | store slot value, σ => (value.eval σ).map fun (v, σ) => (v, σ.set slot v)
  | call link argument, σ =>
    (argument.eval σ).bind fun (v, σ) => (I.call link v).map fun r => (r, σ)
  | unary op operand, σ =>
    (operand.eval σ).bind fun (v, σ) => (I.unary op v).map fun r => (r, σ)
  | binary op lhs rhs, σ =>
    (lhs.eval σ).bind fun (l, σ) => (rhs.eval σ).bind fun (r, σ) =>
      (I.binary op l r).map fun v => (v, σ)
  | stepBehind op one slot, σ =>
    (I.binary (.additive op) (σ slot) (I.literal one)).map fun v => (σ slot, σ.set slot v)

/-- Whether a condition holds, and the store after it. -/
def Term.test (e : Term) (σ : Store V) : Option (Bool × Store V) :=
  (e.eval I σ).map fun (v, σ) => (!I.isFalse v, σ)

/-! ## Statements -/

/-- How a statement ends: a `break` and a `continue` are for the innermost loop around it. -/
inductive Completion (V : Type) where
  | normal
  | exited
  | continued
  | returned (value : Option V)

/-- Execution of a statement: from a store to the way it ends and the store then. -/
inductive Stmt.Exec : Stmt → Store V → Completion V → Store V → Prop
  | skip (σ : Store V) : Exec .skip σ .normal σ
  | seq {s t : Stmt} {σ σ₁ σ₂ : Store V} {k : Completion V} (first : Exec s σ .normal σ₁)
    (second : Exec t σ₁ k σ₂) : Exec (.seq s t) σ k σ₂
  | leave {s t : Stmt} {σ σ₁ : Store V} {k : Completion V} (first : Exec s σ k σ₁)
    (leaves : k ≠ .normal) : Exec (.seq s t) σ k σ₁
  | define (link : String) (signature : Signature) (locals : List (String × ValueType))
    (body : Stmt) (σ : Store V) : Exec (.define link signature locals body) σ .normal σ
  | eval {t : Term} {v : V} {σ σ₁ : Store V} (value : t.eval I σ = some (v, σ₁)) :
    Exec (.eval t) σ .normal σ₁
  | ifTrue {e : Term} {s : Stmt} {σ σ₁ σ₂ : Store V} {k : Completion V}
    (test : e.test I σ = some (true, σ₁)) (then' : Exec s σ₁ k σ₂) : Exec (.ifThen e s) σ k σ₂
  | ifFalse {e : Term} {s : Stmt} {σ σ₁ : Store V} (test : e.test I σ = some (false, σ₁)) :
    Exec (.ifThen e s) σ .normal σ₁
  | elseTrue {e : Term} {s t : Stmt} {σ σ₁ σ₂ : Store V} {k : Completion V}
    (test : e.test I σ = some (true, σ₁)) (then' : Exec s σ₁ k σ₂) : Exec (.ifElse e s t) σ k σ₂
  | elseFalse {e : Term} {s t : Stmt} {σ σ₁ σ₂ : Store V} {k : Completion V}
    (test : e.test I σ = some (false, σ₁)) (else' : Exec t σ₁ k σ₂) : Exec (.ifElse e s t) σ k σ₂
  | done {e : Term} {s : Stmt} {σ σ₁ : Store V} (test : e.test I σ = some (false, σ₁)) :
    Exec (.loop e s) σ .normal σ₁
  | again {e : Term} {s : Stmt} {σ σ₁ σ₂ σ₃ : Store V} {k k' : Completion V}
    (test : e.test I σ = some (true, σ₁)) (body : Exec s σ₁ k σ₂)
    (goesOn : k = .normal ∨ k = .continued) (rest : Exec (.loop e s) σ₂ k' σ₃) :
    Exec (.loop e s) σ k' σ₃
  | broken {e : Term} {s : Stmt} {σ σ₁ σ₂ : Store V} (test : e.test I σ = some (true, σ₁))
    (body : Exec s σ₁ .exited σ₂) : Exec (.loop e s) σ .normal σ₂
  | returned {e : Term} {s : Stmt} {σ σ₁ σ₂ : Store V} {v : Option V}
    (test : e.test I σ = some (true, σ₁)) (body : Exec s σ₁ (.returned v) σ₂) :
    Exec (.loop e s) σ (.returned v) σ₂
  | exit (σ : Store V) : Exec .exit σ .exited σ
  | next (σ : Store V) : Exec .next σ .continued σ
  | retNone (σ : Store V) : Exec (.ret none) σ (.returned none) σ
  | retSome {t : Term} {v : V} {σ σ₁ : Store V} (value : t.eval I σ = some (v, σ₁)) :
    Exec (.ret (some t)) σ (.returned (some v)) σ₁

end Meaning

end OnePass
