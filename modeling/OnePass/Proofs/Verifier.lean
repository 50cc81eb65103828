import OnePass.Proofs.Generation

/-!
# Verification of stack code

A verifier reads the code of a body from its first instruction to its last and keeps the types of
the values on the stack. It knows the types of the body's locals, the type that the body returns and
the signatures of the functions that it may call. At marks and jumps the stack is empty, so what is
known there does not depend on the way that led there.

The code of a well typed expression is verified over every stack and leaves the type of the
expression on it; the code of a well typed statement is verified over the empty stack and leaves it
empty.
-/

namespace OnePass

/-! ## The verifier -/

/-- What is known about a body: its locals, what it returns, nothing for the entry, and the
functions that it may call. -/
structure Frame where
  locals : List (String × ValueType)
  ret : Option ValueType
  signature? : String → Option Signature

namespace Frame

def type? (frame : Frame) (slot : Nat) : Option ValueType := frame.locals[slot]?.map Prod.snd

/-- Whether a body may return with a stack: a function with one value, which goes where its return
type is expected, the entry with at most one. -/
def mayReturn (frame : Frame) : List ValueType → Bool
  | [] => frame.ret.isNone
  | [given] => frame.ret.all (·.admits given)
  | _ => false

end Frame

/-- The type of an additive operation. A sum with a string is no additive operation. -/
def Additive.type? (op : Additive) (lhs rhs : ValueType) : Option ValueType :=
  if op = .or then
    if lhs = .bool ∧ rhs = .bool then some .bool else none
  else if lhs = .string ∨ rhs = .string then
    if op = .sub ∨ op = .bitOr then some .string else none
  else (ValueType.arithmetic? lhs rhs).map Agreement.type

def Multiplicative.type? (op : Multiplicative) (lhs rhs : ValueType) : Option ValueType :=
  if op = .and then
    if lhs = .bool ∧ rhs = .bool then some .bool else none
  else (ValueType.arithmetic? lhs rhs).map Agreement.type

/-- The type of an operation. -/
def Binary.type? : Binary → ValueType → ValueType → Option ValueType
  | compare _, lhs, rhs => if lhs = rhs then some .bool else none
  | additive op, lhs, rhs => op.type? lhs rhs
  | multiplicative op, lhs, rhs => op.type? lhs rhs
  | concat, lhs, rhs => if lhs = .string ∨ rhs = .string then some .string else none

/-- The types on the stack after an instruction, given those before, the top first. -/
def Instruction.retype? (frame : Frame) :
    Instruction → List ValueType → Option (List ValueType)
  | mark _, [] => some []
  | jump _, [] => some []
  | jumpUnless _, [type] => if type.isCondition then some [] else none
  | ret, stack => if frame.mayReturn stack then some [] else none
  | compare op, rhs :: lhs :: stack => ((Binary.compare op).type? lhs rhs).map (· :: stack)
  | additive op, rhs :: lhs :: stack => ((Binary.additive op).type? lhs rhs).map (· :: stack)
  | multiplicative op, rhs :: lhs :: stack =>
    ((Binary.multiplicative op).type? lhs rhs).map (· :: stack)
  | concat, rhs :: lhs :: stack => (Binary.concat.type? lhs rhs).map (· :: stack)
  | unary _, type :: stack => some (type :: stack)
  | pushInt _, stack => some (.int :: stack)
  | pushDouble _, stack => some (.double :: stack)
  | pushBool _, stack => some (.bool :: stack)
  | pushChar _, stack => some (.char :: stack)
  | pushString _, stack => some (.string :: stack)
  | load slot, stack => (frame.type? slot).map (· :: stack)
  | store slot, given :: stack =>
    (frame.type? slot).bind fun type => if type.admits given then some (type :: stack) else none
  | pop, _ :: stack => some stack
  | call link, given :: stack =>
    (frame.signature? link).bind fun signature =>
      if signature.param.admits given then some (signature.ret :: stack) else none
  | _, _ => none

/-- The types on the stack after code, read in order. -/
def verify (frame : Frame) (code : List Instruction) (stack : List ValueType) :
    Option (List ValueType) :=
  code.foldlM (fun stack i => i.retype? frame stack) stack

/-- The signature of the function with a name. The entry has none, whatever its name. -/
def Listing.signature? (l : Listing) (link : String) : Option Signature :=
  l.bodies.findSome? fun b => if b.name = link then b.signature else none

/-- What is known about a body of a listing. -/
def Listing.frame (l : Listing) (b : Body) : Frame where
  locals := b.locals.toList
  ret := b.signature.map Signature.ret
  signature? := l.signature?

/-- Whether the code of a body is verified from the empty stack to the empty stack. -/
def Listing.verifies (l : Listing) (b : Body) : Bool :=
  verify (l.frame b) b.code.toList [] = some []

/-! ## Typing -/

section Typing

variable {frame : Frame} {stack : List ValueType}

@[simp] theorem verify_nil : verify frame [] stack = some stack := rfl

@[simp] theorem verify_cons (i : Instruction) (code : List Instruction) :
    verify frame (i :: code) stack = (i.retype? frame stack).bind (verify frame code) := by
  unfold verify
  rw [List.foldlM_cons]
  rfl

@[simp] theorem verify_append (code code' : List Instruction) :
    verify frame (code ++ code') stack = (verify frame code stack).bind (verify frame code') := by
  unfold verify
  rw [List.foldlM_append]
  rfl

namespace Instruction

@[simp] theorem retype?_mark (label : Nat) : (mark label).retype? frame [] = some [] := rfl

@[simp] theorem retype?_jump (label : Nat) : (jump label).retype? frame [] = some [] := rfl

@[simp] theorem retype?_jumpUnless (label : Nat) (type : ValueType) :
    (jumpUnless label).retype? frame [type] = if type.isCondition then some [] else none := rfl

@[simp] theorem retype?_ret :
    ret.retype? frame stack = if frame.mayReturn stack then some [] else none := rfl

@[simp] theorem retype?_additive (op : Additive) (lhs rhs : ValueType) :
    (additive op).retype? frame (rhs :: lhs :: stack) = (op.type? lhs rhs).map (· :: stack) := rfl

@[simp] theorem retype?_unary (op : Unary) (type : ValueType) :
    (unary op).retype? frame (type :: stack) = some (type :: stack) := rfl

@[simp] theorem retype?_load (slot : Nat) :
    (load slot).retype? frame stack = (frame.type? slot).map (· :: stack) := rfl

@[simp] theorem retype?_store (slot : Nat) (given : ValueType) :
    (store slot).retype? frame (given :: stack) = (frame.type? slot).bind fun type =>
      if type.admits given then some (type :: stack) else none := rfl

@[simp] theorem retype?_pop (type : ValueType) :
    pop.retype? frame (type :: stack) = some stack := rfl

@[simp] theorem retype?_call (link : String) (given : ValueType) :
    (call link).retype? frame (given :: stack) = (frame.signature? link).bind fun signature =>
      if signature.param.admits given then some (signature.ret :: stack) else none := rfl

end Instruction

@[simp] theorem Literal.retype?_instruction (l : Literal) :
    l.instruction.retype? frame stack = some (l.type :: stack) := by
  cases l <;> rfl

@[simp] theorem Binary.retype?_instruction (op : Binary) (l r : ValueType) :
    op.instruction.retype? frame (r :: l :: stack) = (op.type? l r).map (· :: stack) := by
  cases op <;> rfl

/-- An expression is of a type. -/
inductive Term.HasType (frame : Frame) : Term → ValueType → Prop
  | literal (l : Literal) : HasType frame (.literal l) l.type
  | load {slot : Nat} {type : ValueType} (declared : frame.type? slot = some type) :
    HasType frame (.load slot) type
  | store {slot : Nat} {type given : ValueType} {value : Term}
    (declared : frame.type? slot = some type) (ht : HasType frame value given)
    (admits : type.admits given = true) : HasType frame (.store slot value) type
  | call {link : String} {signature : Signature} {given : ValueType} {argument : Term}
    (declared : frame.signature? link = some signature) (ht : HasType frame argument given)
    (admits : signature.param.admits given = true) :
    HasType frame (.call link argument) signature.ret
  | unary {type : ValueType} {operand : Term} (op : Unary) (ht : HasType frame operand type) :
    HasType frame (.unary op operand) type
  | binary {op : Binary} {l r type : ValueType} {lhs rhs : Term} (hl : HasType frame lhs l)
    (hr : HasType frame rhs r) (result : op.type? l r = some type) :
    HasType frame (.binary op lhs rhs) type
  | stepBehind {op : Additive} {one : Literal} {slot : Nat} {type stepped : ValueType}
    (declared : frame.type? slot = some type) (result : op.type? type one.type = some stepped)
    (admits : type.admits stepped = true) : HasType frame (.stepBehind op one slot) type

/-- The code of an expression leaves its type on the stack. -/
theorem Term.HasType.verify {t : Term} {type : ValueType} (h : t.HasType frame type) :
    ∀ stack, OnePass.verify frame t.code stack = some (type :: stack) := by
  induction h with
  | literal l => intro stack; simp [Term.code]
  | load declared => intro stack; simp [Term.code, declared]
  | store declared _ admits ih =>
    intro stack
    simp [Term.code, ih, declared, admits]
  | call declared _ admits ih =>
    intro stack
    simp [Term.code, ih, declared, admits]
  | unary op _ ih => intro stack; simp [Term.code, ih]
  | binary _ _ result ihl ihr => intro stack; simp [Term.code, ihl, ihr, result]
  | @stepBehind op one slot type stepped declared result admits =>
    intro stack
    simp [Term.code, declared, result, admits]

def Term.IsCondition (frame : Frame) (t : Term) : Prop :=
  ∃ type, t.HasType frame type ∧ type.isCondition = true

/-- A statement is well typed, inside a loop or not. A function in it is well typed with its own
locals and return type, and is known by its link. -/
def Stmt.WellTyped : Frame → Bool → Stmt → Prop
  | _, _, skip => True
  | frame, inLoop, seq s t => s.WellTyped frame inLoop ∧ t.WellTyped frame inLoop
  | frame, _, define link signature locals body =>
    frame.signature? link = some signature ∧
      body.WellTyped ⟨locals, some signature.ret, frame.signature?⟩ false
  | frame, _, eval t => ∃ type, t.HasType frame type
  | frame, inLoop, ifThen e s => e.IsCondition frame ∧ s.WellTyped frame inLoop
  | frame, inLoop, ifElse e s t =>
    e.IsCondition frame ∧ s.WellTyped frame inLoop ∧ t.WellTyped frame inLoop
  | frame, _, loop e s => e.IsCondition frame ∧ s.WellTyped frame true
  | _, inLoop, exit => inLoop = true
  | _, inLoop, next => inLoop = true
  | frame, _, ret none => frame.mayReturn [] = true
  | frame, _, ret (some t) => ∃ type, t.HasType frame type ∧ frame.mayReturn [type] = true

/-- The code of a condition and the jump behind it leave the stack empty. -/
theorem Term.IsCondition.verify {e : Term} (h : e.IsCondition frame) (label : Nat)
    (code : List Instruction) :
    OnePass.verify frame (e.code ++ .jumpUnless label :: code) [] =
      OnePass.verify frame code [] := by
  obtain ⟨type, typed, condition⟩ := h
  simp [typed.verify, condition]

/-- **The code of a well typed statement leaves the stack empty**, whatever its labels. -/
theorem Stmt.WellTyped.verify {s : Stmt} {inLoop : Bool} (h : s.WellTyped frame inLoop)
    (targets : Option LoopTargets) (n : Nat) :
    OnePass.verify frame (s.code targets n) [] = some [] := by
  induction s generalizing inLoop targets n with
  | skip => rfl
  | seq s t ihs iht => simp [Stmt.code, ihs h.1, iht h.2]
  | define link signature locals body => rfl
  | eval t =>
    obtain ⟨type, typed⟩ := h
    simp [Stmt.code, typed.verify]
  | ifThen e s ih =>
    rw [Stmt.code, h.1.verify]
    simp [ih h.2]
  | ifElse e s t ihs iht =>
    rw [Stmt.code, h.1.verify]
    simp [ihs h.2.1, iht h.2.2]
  | loop e s ih =>
    rw [Stmt.code, verify_cons, Instruction.retype?_mark, Option.bind_some, h.1.verify]
    simp [ih h.2]
  | exit => cases targets <;> simp [Stmt.code]
  | next => cases targets <;> simp [Stmt.code]
  | ret value =>
    cases value with
    | none =>
      have mayReturn : frame.mayReturn [] = true := h
      simp [Stmt.code, mayReturn]
    | some t =>
      obtain ⟨type, typed, mayReturn⟩ := h
      simp [Stmt.code, typed.verify, mayReturn]

end Typing

/-! ## Functions -/

def Function.frame (signature? : String → Option Signature) (f : Function) : Frame where
  locals := f.locals
  ret := f.signature.map Signature.ret
  signature? := signature?

/-- The functions of a well typed statement are well typed, each with what is its own. -/
theorem Stmt.WellTyped.functions {s : Stmt} {frame : Frame} {inLoop : Bool}
    (h : s.WellTyped frame inLoop) (n : Nat) :
    ∀ f ∈ s.functions n, f.1.body.WellTyped (f.1.frame frame.signature?) false := by
  induction s generalizing frame inLoop n with
  | seq s t ihs iht =>
    intro f mem
    rcases List.mem_append.1 mem with mem | mem
    · exact ihs h.1 n f mem
    · exact iht h.2 _ f mem
  | define link signature locals body ih =>
    intro f mem
    rcases List.mem_append.1 mem with mem | mem
    · exact ih h.2 n f mem
    · cases List.mem_singleton.1 mem
      exact h.2
  | ifThen e s ih => exact ih h.2 (n + 1)
  | ifElse e s t ihs iht =>
    intro f mem
    rcases List.mem_append.1 mem with mem | mem
    · exact ihs h.2.1 _ f mem
    · exact iht h.2.2 _ f mem
  | loop e s ih => exact ih h.2 (n + 2)
  | skip => intro f mem; cases mem
  | eval t => intro f mem; cases mem
  | exit => intro f mem; cases mem
  | next => intro f mem; cases mem
  | ret value => intro f mem; cases mem

end OnePass
