import OnePass.Proofs.Generation
import OnePass.Proofs.Semantics

/-!
# The stack machine

The machine executes the code of one body. Its state is the place of the next instruction, the stack
and the store. A store leaves the value on the stack, a conditional jump takes it off, and a jump
goes to the mark of its label. The machine ends at a return or behind the last instruction; it is
stuck where an operation has no result, the stack is too short or a label has no mark.

For every instruction there is a law that says how the machine ends if it stands before the
instruction, in terms of how it ends after it. The laws count steps, since the code goes back in
loops.
-/

namespace OnePass

/-! ## Execution -/

/-- A state of the machine. -/
structure Config (V : Type) where
  pc : Nat
  stack : List V
  store : Store V

/-- How the machine ended, by a return or behind the last instruction, and what was left then. -/
structure Final (V : Type) where
  returned : Bool
  stack : List V
  store : Store V

section Machine

variable {V : Type} (I : Interpretation V)

/-- What an instruction does to the stack, the top first, and to the store. Jumps and returns have
no such effect. -/
def Instruction.act? : Instruction → List V → Store V → Option (List V × Store V)
  | mark _, stack, σ => some (stack, σ)
  | compare op, r :: l :: stack, σ => (I.binary (.compare op) l r).map fun v => (v :: stack, σ)
  | additive op, r :: l :: stack, σ => (I.binary (.additive op) l r).map fun v => (v :: stack, σ)
  | multiplicative op, r :: l :: stack, σ =>
    (I.binary (.multiplicative op) l r).map fun v => (v :: stack, σ)
  | concat, r :: l :: stack, σ => (I.binary .concat l r).map fun v => (v :: stack, σ)
  | unary op, v :: stack, σ => (I.unary op v).map fun r => (r :: stack, σ)
  | pushInt value, stack, σ => some (I.literal (.int value) :: stack, σ)
  | pushDouble value, stack, σ => some (I.literal (.double value) :: stack, σ)
  | pushBool value, stack, σ => some (I.literal (.bool value) :: stack, σ)
  | pushChar value, stack, σ => some (I.literal (.char value) :: stack, σ)
  | pushString value, stack, σ => some (I.literal (.string value) :: stack, σ)
  | load slot, stack, σ => some (σ slot :: stack, σ)
  | store slot, v :: stack, σ => some (v :: stack, σ.set slot v)
  | pop, _ :: stack, σ => some (stack, σ)
  | call link, v :: stack, σ => (I.call link v).map fun r => (r :: stack, σ)
  | _, _, _ => none

def position? (code : List Instruction) (label : Nat) : Option Nat :=
  code.findIdx? (· = .mark label)

/-- The next state of the machine. -/
def Config.next? (code : List Instruction) (c : Config V) : Option (Config V) :=
  match code[c.pc]?, c.stack with
  | none, _ => none
  | some (.jump label), stack => (position? code label).map fun pc => ⟨pc, stack, c.store⟩
  | some (.jumpUnless label), v :: stack =>
    if I.isFalse v then (position? code label).map fun pc => ⟨pc, stack, c.store⟩
    else some ⟨c.pc + 1, stack, c.store⟩
  | some i, stack => (i.act? I stack c.store).map fun (stack, σ) => ⟨c.pc + 1, stack, σ⟩

/-- The machine ends within a number of steps. -/
inductive EndsWithin (code : List Instruction) : Nat → Config V → Final V → Prop
  | finish (n : Nat) (stack : List V) (σ : Store V) :
    EndsWithin code n ⟨code.length, stack, σ⟩ ⟨false, stack, σ⟩
  | ret (n : Nat) {pc : Nat} (stack : List V) (σ : Store V) (here : code[pc]? = some .ret) :
    EndsWithin code n ⟨pc, stack, σ⟩ ⟨true, stack, σ⟩
  | step {n : Nat} {c d : Config V} {f : Final V} (next : c.next? I code = some d)
    (rest : EndsWithin code n d f) : EndsWithin code (n + 1) c f

def Ends (code : List Instruction) (c : Config V) (f : Final V) : Prop :=
  ∃ n, EndsWithin I code n c f

/-- A body ends when it is executed from its first instruction on the empty stack. -/
def Body.Ends (b : Body) (σ : Store V) (f : Final V) : Prop :=
  OnePass.Ends I b.code.toList ⟨0, [], σ⟩ f

end Machine

/-! ## Laws of the instructions -/

namespace Instruction

variable {V : Type} {I : Interpretation V} {stack : List V} {σ : Store V}

@[simp] theorem act?_mark (label : Nat) : (mark label).act? I stack σ = some (stack, σ) := rfl

@[simp] theorem act?_additive (op : Additive) (l r : V) :
    (additive op).act? I (r :: l :: stack) σ =
      (I.binary (.additive op) l r).map fun v => (v :: stack, σ) := rfl

@[simp] theorem act?_unary (op : Unary) (v : V) :
    (unary op).act? I (v :: stack) σ = (I.unary op v).map fun r => (r :: stack, σ) := rfl

@[simp] theorem act?_load (slot : Nat) :
    (load slot).act? I stack σ = some (σ slot :: stack, σ) := rfl

@[simp] theorem act?_store (slot : Nat) (v : V) :
    (store slot).act? I (v :: stack) σ = some (v :: stack, σ.set slot v) := rfl

@[simp] theorem act?_pop (v : V) : pop.act? I (v :: stack) σ = some (stack, σ) := rfl

@[simp] theorem act?_call (link : String) (v : V) :
    (call link).act? I (v :: stack) σ = (I.call link v).map fun r => (r :: stack, σ) := rfl

end Instruction

/-- An instruction that only works on the stack and the store. -/
def Instruction.isPlain : Instruction → Bool
  | mark _ | jump _ | jumpUnless _ | ret => false
  | _ => true

section Laws

variable {V : Type} {I : Interpretation V} {code : List Instruction} {pc n : Nat} {stack : List V}
  {σ : Store V} {f : Final V}

/-- A bound on the steps may be raised. -/
theorem EndsWithin.mono {c : Config V} (h : EndsWithin I code n c f) {m : Nat} (le : n ≤ m) :
    EndsWithin I code m c f := by
  induction h generalizing m with
  | finish n stack σ => exact .finish m stack σ
  | ret n stack σ here => exact .ret m stack σ here
  | step next _ ih =>
    obtain ⟨m, rfl⟩ := Nat.exists_eq_add_of_le' le
    exact .step next (ih (Nat.le_add_left _ _))

/-- Behind its last instruction the code ends with what is left. -/
theorem endsWithin_length :
    EndsWithin I code n ⟨code.length, stack, σ⟩ f ↔ f = ⟨false, stack, σ⟩ := by
  constructor
  · intro h
    cases h with
    | finish => rfl
    | ret _ _ _ here => simp at here
    | step next _ => simp [Config.next?] at next
  · rintro rfl
    exact .finish n stack σ

theorem Config.next?_ret (here : code[pc]? = some .ret) :
    Config.next? I code ⟨pc, stack, σ⟩ = none := by
  unfold Config.next?
  dsimp only
  rw [here]
  rfl

/-- A return ends the code, wherever it stands. -/
theorem endsWithin_ret (here : code[pc]? = some .ret) :
    EndsWithin I code n ⟨pc, stack, σ⟩ f ↔ f = ⟨true, stack, σ⟩ := by
  constructor
  · intro h
    cases h with
    | finish => simp at here
    | ret => rfl
    | step next _ =>
      rw [Config.next?_ret here] at next
      cases next
  · rintro rfl
    exact .ret n stack σ here

/-- Before an instruction that is no return the machine takes a step. -/
theorem endsWithin_step {i : Instruction} (here : code[pc]? = some i) (noReturn : i ≠ .ret) :
    EndsWithin I code n ⟨pc, stack, σ⟩ f ↔
      ∃ m d, n = m + 1 ∧ Config.next? I code ⟨pc, stack, σ⟩ = some d ∧ EndsWithin I code m d f := by
  constructor
  · intro h
    cases h with
    | finish => simp at here
    | ret _ _ _ here' =>
      rw [here] at here'
      exact absurd (Option.some.inj here') noReturn
    | step next rest => exact ⟨_, _, rfl, next, rest⟩
  · rintro ⟨m, d, rfl, next, rest⟩
    exact .step next rest

/-- An instruction that does not jump acts on stack and store; the next one follows. -/
theorem Config.next?_act {i : Instruction} (here : code[pc]? = some i)
    (noJump : ∀ label, i ≠ .jump label ∧ i ≠ .jumpUnless label) :
    Config.next? I code ⟨pc, stack, σ⟩ =
      (i.act? I stack σ).map fun (stack, σ) => ⟨pc + 1, stack, σ⟩ := by
  unfold Config.next?
  dsimp only
  rw [here]
  split
  · rename_i missing
    cases missing
  · rename_i isJump
    exact absurd (Option.some.inj isJump) (noJump _).1
  · rename_i isJump
    exact absurd (Option.some.inj isJump) (noJump _).2
  · rename_i same _
    cases same
    rfl

/-- One step is spent on a plain instruction. -/
theorem endsWithin_plain {i : Instruction} (here : code[pc]? = some i) (plain : i.isPlain = true) :
    EndsWithin I code n ⟨pc, stack, σ⟩ f ↔
      ∃ m stack' σ', n = m + 1 ∧ i.act? I stack σ = some (stack', σ') ∧
        EndsWithin I code m ⟨pc + 1, stack', σ'⟩ f := by
  have noJump : ∀ label, i ≠ .jump label ∧ i ≠ .jumpUnless label := by
    intro label
    constructor <;> rintro rfl <;> cases plain
  rw [endsWithin_step here (by rintro rfl; cases plain), Config.next?_act here noJump]
  constructor
  · rintro ⟨m, d, rfl, acted, rest⟩
    obtain ⟨⟨stack', σ'⟩, effect, rfl⟩ := Option.map_eq_some_iff.1 acted
    exact ⟨m, stack', σ', rfl, effect, rest⟩
  · rintro ⟨m, stack', σ', rfl, effect, rest⟩
    exact ⟨m, _, rfl, by rw [effect]; rfl, rest⟩

theorem endsWithin_mark {label : Nat} (here : code[pc]? = some (.mark label)) :
    EndsWithin I code n ⟨pc, stack, σ⟩ f ↔
      ∃ m, n = m + 1 ∧ EndsWithin I code m ⟨pc + 1, stack, σ⟩ f := by
  rw [endsWithin_step here nofun, Config.next?_act here (by simp)]
  simp

/-- One step is spent on a jump to its mark. -/
theorem endsWithin_jump {label target : Nat} (here : code[pc]? = some (.jump label))
    (marked : position? code label = some target) :
    EndsWithin I code n ⟨pc, stack, σ⟩ f ↔
      ∃ m, n = m + 1 ∧ EndsWithin I code m ⟨target, stack, σ⟩ f := by
  rw [endsWithin_step here nofun]
  simp [Config.next?, here, marked]

/-- A conditional jump takes a value off the stack and leads to its mark if the value is false. -/
theorem endsWithin_jumpUnless {label target : Nat} {v : V}
    (here : code[pc]? = some (.jumpUnless label)) (marked : position? code label = some target) :
    EndsWithin I code n ⟨pc, v :: stack, σ⟩ f ↔
      ∃ m, n = m + 1 ∧
        EndsWithin I code m ⟨if I.isFalse v then target else pc + 1, stack, σ⟩ f := by
  rw [endsWithin_step here nofun]
  cases falsy : I.isFalse v <;> simp [Config.next?, here, marked, falsy]

end Laws

end OnePass
