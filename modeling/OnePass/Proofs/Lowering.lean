import OnePass.Proofs.Machine
import OnePass.Proofs.Typing

/-!
# Lowering of control flow

The machine does with the code of a statement what the statement means. Loops, conditionals, `break`
and `continue` have become marks and jumps, and the code of a function is not part of the code
around it; still the machine ends exactly if the body of the function ends, in the same way and with
the same store.

From the meaning to the machine the proof follows the execution of the statement. The other way it
follows the statement, and in a loop the number of steps that the machine still takes.
-/

namespace OnePass

/-! ## Code in its place -/

/-- The code `is` stands at `pc`. -/
def StandsAt (code : List Instruction) (pc : Nat) (is : List Instruction) : Prop :=
  is <+: code.drop pc

namespace StandsAt

variable {code is js : List Instruction} {i : Instruction} {pc : Nat}

theorem head (h : StandsAt code pc (i :: is)) : code[pc]? = some i := by
  obtain ⟨rest, split⟩ := h
  have first := congrArg (·[0]?) split
  simpa using first.symm

theorem right (h : StandsAt code pc (is ++ js)) : StandsAt code (pc + is.length) js := by
  obtain ⟨rest, split⟩ := h
  refine ⟨rest, ?_⟩
  rw [← List.drop_drop, ← split, List.append_assoc, List.drop_left]

theorem left (h : StandsAt code pc (is ++ js)) : StandsAt code pc is := by
  obtain ⟨rest, split⟩ := h
  exact ⟨js ++ rest, by rw [← split, List.append_assoc]⟩

theorem tail (h : StandsAt code pc (i :: is)) : StandsAt code (pc + 1) is := by
  have split : StandsAt code pc ([i] ++ is) := h
  exact split.right

end StandsAt

def MarkedOnce (code : List Instruction) : Prop := ∀ label, code.count (.mark label) ≤ 1

/-- A label that is marked once is found where its mark is. -/
theorem MarkedOnce.position? {code : List Instruction} (once : MarkedOnce code) {pc label : Nat}
    (here : code[pc]? = some (.mark label)) : OnePass.position? code label = some pc := by
  obtain ⟨inside, here⟩ := List.getElem?_eq_some_iff.1 here
  unfold OnePass.position?
  rw [List.findIdx?_eq_some_iff_getElem]
  refine ⟨inside, decide_eq_true here, ?_⟩
  intro j before same
  -- a mark before this one would be a second one
  have split : code = code.take pc ++ .mark label :: code.drop (pc + 1) := by
    rw [← here, ← List.drop_eq_getElem_cons inside, List.take_append_drop]
  have second : .mark label ∈ code.take pc := by
    rw [← of_decide_eq_true same]
    exact List.mem_take_iff_getElem.2 ⟨j, by omega, rfl⟩
  have count := once label
  rw [split, List.count_append, List.count_cons_self] at count
  have := List.count_pos_iff.2 second
  omega

/-! ## Expressions -/

section Lowering

variable {V : Type} {I : Interpretation V} {code : List Instruction}

/-- What plain code does to the stack and to the store. -/
def act? (I : Interpretation V) : List Instruction → List V → Store V → Option (List V × Store V)
  | [], stack, σ => some (stack, σ)
  | i :: is, stack, σ => (i.act? I stack σ).bind fun (stack, σ) => act? I is stack σ

theorem act?_append (is js : List Instruction) (stack : List V) (σ : Store V) :
    act? I (is ++ js) stack σ = (act? I is stack σ).bind fun (stack, σ) => act? I js stack σ := by
  induction is generalizing stack σ with
  | nil => rfl
  | cons i is ih =>
    simp only [List.cons_append, act?, Option.bind_assoc, ih]

@[simp] theorem Literal.act?_instruction (l : Literal) (stack : List V) (σ : Store V) :
    l.instruction.act? I stack σ = some (I.literal l :: stack, σ) := by
  cases l <;> rfl

@[simp] theorem Binary.act?_instruction (op : Binary) (l r : V) (stack : List V) (σ : Store V) :
    op.instruction.act? I (r :: l :: stack) σ =
      (I.binary op l r).map fun v => (v :: stack, σ) := by
  cases op <;> rfl

/-- The code of an expression leaves its value on the stack. -/
theorem Term.act?_code (t : Term) (stack : List V) (σ : Store V) :
    act? I t.code stack σ = (t.eval I σ).map fun (v, σ) => (v :: stack, σ) := by
  induction t generalizing stack σ with
  | literal l => simp [Term.code, Term.eval, act?]
  | load slot => rfl
  | store slot value ih =>
    rw [Term.code, act?_append, ih, Term.eval]
    cases value.eval I σ <;> rfl
  | call link argument ih =>
    rw [Term.code, act?_append, ih, Term.eval]
    rcases argument.eval I σ with _ | ⟨v, σ₁⟩
    · rfl
    · cases called : I.call link v <;> simp [act?, called]
  | unary op operand ih =>
    rw [Term.code, act?_append, ih, Term.eval]
    rcases operand.eval I σ with _ | ⟨v, σ₁⟩
    · rfl
    · cases applied : I.unary op v <;> simp [act?, applied]
  | binary op lhs rhs ihl ihr =>
    rw [Term.code, act?_append, ihl, Term.eval]
    rcases lhs.eval I σ with _ | ⟨l, σ₁⟩
    · rfl
    simp only [Option.map_some, Option.bind_some, act?_append, ihr]
    rcases rhs.eval I σ₁ with _ | ⟨r, σ₂⟩
    · rfl
    · cases applied : I.binary op l r <;> simp [act?, applied]
  | stepBehind op one slot =>
    cases stepped : I.binary (.additive op) (σ slot) (I.literal one) <;>
      simp [Term.code, Term.eval, act?, stepped]

theorem Literal.isPlain_instruction (l : Literal) : l.instruction.isPlain = true := by
  cases l <;> rfl

theorem Binary.isPlain_instruction (op : Binary) : op.instruction.isPlain = true := by
  cases op <;> rfl

theorem Term.isPlain_code (t : Term) : ∀ i ∈ t.code, i.isPlain = true := by
  induction t with
  | literal l => simp [Term.code, l.isPlain_instruction]
  | load slot => simp [Term.code, Instruction.isPlain]
  | store slot value ih => simpa [Term.code, or_imp, forall_and, Instruction.isPlain] using ih
  | call link argument ih => simpa [Term.code, or_imp, forall_and, Instruction.isPlain] using ih
  | unary op operand ih => simpa [Term.code, or_imp, forall_and, Instruction.isPlain] using ih
  | binary op lhs rhs ihl ihr =>
    simpa [Term.code, or_imp, forall_and, op.isPlain_instruction] using ⟨ihl, ihr⟩
  | stepBehind op one slot =>
    cases one <;> simp [Term.code, Literal.instruction, Instruction.isPlain]

/-- Plain code is executed to its end. -/
theorem endsWithin_code {is : List Instruction} (plain : ∀ i ∈ is, i.isPlain = true) {pc n : Nat}
    (here : StandsAt code pc is) {stack : List V} {σ : Store V} {f : Final V} :
    EndsWithin I code n ⟨pc, stack, σ⟩ f ↔
      ∃ m stack' σ', n = m + is.length ∧ act? I is stack σ = some (stack', σ') ∧
        EndsWithin I code m ⟨pc + is.length, stack', σ'⟩ f := by
  induction is generalizing pc n stack σ with
  | nil =>
    constructor
    · intro ends
      exact ⟨n, stack, σ, rfl, rfl, ends⟩
    · rintro ⟨m, stack', σ', rfl, ⟨⟩, ends⟩
      exact ends
  | cons i is ih =>
    rw [endsWithin_plain here.head (plain i List.mem_cons_self)]
    have rest := fun n stack σ => @ih (fun j mem => plain j (List.mem_cons_of_mem i mem)) (pc + 1) n
      here.tail stack σ
    constructor
    · rintro ⟨m, stack₁, σ₁, rfl, first, ends⟩
      obtain ⟨m', stack', σ', rfl, second, ends⟩ := (rest _ _ _).1 ends
      refine ⟨m', stack', σ', by rw [List.length_cons, Nat.add_assoc], ?_, ?_⟩
      · rw [act?, first]
        exact second
      · rw [List.length_cons, ← Nat.add_assoc, Nat.add_right_comm]
        exact ends
    · rintro ⟨m, stack', σ', rfl, acted, ends⟩
      obtain ⟨⟨stack₁, σ₁⟩, first, second⟩ := Option.bind_eq_some_iff.1 acted
      refine ⟨m + is.length, stack₁, σ₁, rfl, first,
        (rest _ _ _).2 ⟨m, stack', σ', rfl, second, ?_⟩⟩
      rw [List.length_cons, ← Nat.add_assoc, Nat.add_right_comm] at ends
      exact ends

/-- The machine evaluates an expression. -/
theorem Term.endsWithin_code {t : Term} {pc n : Nat} (here : StandsAt code pc t.code)
    {stack : List V} {σ : Store V} {f : Final V} :
    EndsWithin I code n ⟨pc, stack, σ⟩ f ↔
      ∃ m v σ', n = m + t.code.length ∧ t.eval I σ = some (v, σ') ∧
        EndsWithin I code m ⟨pc + t.code.length, v :: stack, σ'⟩ f := by
  rw [OnePass.endsWithin_code t.isPlain_code here, t.act?_code]
  constructor
  · rintro ⟨m, stack', σ', rfl, acted, ends⟩
    obtain ⟨⟨v, σ₁⟩, value, same⟩ := Option.map_eq_some_iff.1 acted
    cases same
    exact ⟨m, v, _, rfl, value, ends⟩
  · rintro ⟨m, v, σ', rfl, value, ends⟩
    exact ⟨m, _, σ', rfl, by rw [value]; rfl, ends⟩

/-- The machine tests a condition and goes on behind the jump, or where the jump leads. -/
theorem Term.endsWithin_test {e : Term} {pc n label target : Nat} {is : List Instruction}
    (here : StandsAt code pc (e.code ++ .jumpUnless label :: is))
    (marked : position? code label = some target) {stack : List V} {σ : Store V} {f : Final V} :
    EndsWithin I code n ⟨pc, stack, σ⟩ f ↔
      ∃ m b σ', n = m + 1 + e.code.length ∧ e.test I σ = some (b, σ') ∧
        EndsWithin I code m ⟨if b then pc + e.code.length + 1 else target, stack, σ'⟩ f := by
  have jump : ∀ (m : Nat) (v : V) (σ' : Store V),
      EndsWithin I code m ⟨pc + e.code.length, v :: stack, σ'⟩ f ↔ ∃ m', m = m' + 1 ∧
        EndsWithin I code m'
          ⟨if I.isFalse v then target else pc + e.code.length + 1, stack, σ'⟩ f :=
    fun m v σ' => endsWithin_jumpUnless here.right.head marked
  rw [Term.endsWithin_code here.left]
  unfold Term.test
  constructor
  · rintro ⟨m, v, σ', rfl, value, ends⟩
    obtain ⟨m', rfl, jumped⟩ := (jump m v σ').1 ends
    refine ⟨m', !I.isFalse v, σ', rfl, by rw [value]; rfl, ?_⟩
    cases falsy : I.isFalse v <;> simpa [falsy] using jumped
  · rintro ⟨m, b, σ', rfl, tested, ends⟩
    obtain ⟨⟨v, σ₁⟩, value, same⟩ := Option.map_eq_some_iff.1 tested
    cases same
    refine ⟨m + 1, v, _, rfl, value, (jump _ _ _).2 ⟨m, rfl, ?_⟩⟩
    cases falsy : I.isFalse v <;> simpa [falsy] using ends

/-! ## Statements

Between statements the stack is empty. -/

/-- From one place the machine comes to another and changes nothing on the way. -/
structure Leads (I : Interpretation V) (code : List Instruction) (pc target : Nat) : Prop where
  ends : ∀ {σ : Store V} {f : Final V}, Ends I code ⟨target, [], σ⟩ f → Ends I code ⟨pc, [], σ⟩ f
  inv : ∀ {n : Nat} {σ : Store V} {f : Final V}, EndsWithin I code n ⟨pc, [], σ⟩ f →
    ∃ m < n, EndsWithin I code m ⟨target, [], σ⟩ f

theorem leads_mark {pc label target : Nat} (here : code[pc]? = some (.mark label))
    (behind : target = pc + 1) : Leads I code pc target where
  ends := by
    rintro σ f ⟨n, ends⟩
    rw [behind] at ends
    exact ⟨n + 1, (endsWithin_mark here).2 ⟨n, rfl, ends⟩⟩
  inv := by
    intro n σ f ends
    obtain ⟨m, rfl, passed⟩ := (endsWithin_mark here).1 ends
    rw [← behind] at passed
    exact ⟨m, Nat.lt_succ_self m, passed⟩

theorem leads_jump {pc label target : Nat} (here : code[pc]? = some (.jump label))
    (marked : position? code label = some target) : Leads I code pc target where
  ends := fun ⟨n, ends⟩ => ⟨n + 1, (endsWithin_jump here marked).2 ⟨n, rfl, ends⟩⟩
  inv := by
    intro n σ f ends
    obtain ⟨m, rfl, jumped⟩ := (endsWithin_jump here marked).1 ends
    exact ⟨m, Nat.lt_succ_self m, jumped⟩

/-- At a place the machine tests a condition and comes to one of two other places. -/
structure Tests (I : Interpretation V) (code : List Instruction) (e : Term) (pc yes no : Nat) :
    Prop where
  ends : ∀ {b : Bool} {σ σ' : Store V} {f : Final V}, e.test I σ = some (b, σ') →
    Ends I code ⟨if b then yes else no, [], σ'⟩ f → Ends I code ⟨pc, [], σ⟩ f
  inv : ∀ {n : Nat} {σ : Store V} {f : Final V}, EndsWithin I code n ⟨pc, [], σ⟩ f →
    ∃ m b σ', m < n ∧ e.test I σ = some (b, σ') ∧
      EndsWithin I code m ⟨if b then yes else no, [], σ'⟩ f

theorem tests_code {e : Term} {pc label target : Nat} {is : List Instruction}
    (here : StandsAt code pc (e.code ++ .jumpUnless label :: is))
    (marked : position? code label = some target) :
    Tests I code e pc (pc + e.code.length + 1) target where
  ends := fun tested ⟨n, ends⟩ =>
    ⟨_, (Term.endsWithin_test here marked).2 ⟨n, _, _, rfl, tested, ends⟩⟩
  inv := by
    intro n σ f ends
    obtain ⟨m, b, σ', rfl, tested, ends⟩ := (Term.endsWithin_test here marked).1 ends
    exact ⟨m, b, σ', by omega, tested, ends⟩

/-- How the machine goes on after a statement has ended: behind its code, at a target of the loop
around it, or not at all. `E` says from where and how the machine ends. -/
def Lands (code : List Instruction) (targets : Option LoopTargets) (E : Config V → Final V → Prop)
    (stop : Nat) : Completion V → Store V → Final V → Prop
  | .normal, σ, f => E ⟨stop, [], σ⟩ f
  | .exited, σ, f => ∃ l pc, targets = some l ∧ position? code l.exit = some pc ∧ E ⟨pc, [], σ⟩ f
  | .continued, σ, f => ∃ l pc, targets = some l ∧ position? code l.next = some pc ∧ E ⟨pc, [], σ⟩ f
  | .returned v, σ, f => f = ⟨true, v.toList, σ⟩

theorem Lands.imp {targets : Option LoopTargets} {E E' : Config V → Final V → Prop}
    {stop stop' : Nat} {k : Completion V} {σ : Store V} {f : Final V}
    (h : Lands code targets E stop k σ f) (behind : E ⟨stop, [], σ⟩ f → E' ⟨stop', [], σ⟩ f)
    (away : ∀ c, E c f → E' c f) : Lands code targets E' stop' k σ f := by
  cases k with
  | normal => exact behind h
  | exited =>
    obtain ⟨l, pc, around, marked, ends⟩ := h
    exact ⟨l, pc, around, marked, away _ ends⟩
  | continued =>
    obtain ⟨l, pc, around, marked, ends⟩ := h
    exact ⟨l, pc, around, marked, away _ ends⟩
  | returned v => exact h

/-- What ends behind a jump ends before it. -/
theorem Lands.before {targets : Option LoopTargets} {stop stop' : Nat} {k : Completion V}
    {σ : Store V} {f : Final V} (h : Lands code targets (Ends I code) stop' k σ f)
    (leads : Leads I code stop stop') : Lands code targets (Ends I code) stop k σ f :=
  h.imp leads.ends fun _ => id

/-- What ends before a jump ends behind it, and within fewer steps. -/
theorem Lands.behind {targets : Option LoopTargets} {stop stop' m n : Nat} {k : Completion V}
    {σ : Store V} {f : Final V} (h : Lands code targets (EndsWithin I code m) stop k σ f)
    (leads : Leads I code stop stop') (le : m ≤ n) :
    Lands code targets (EndsWithin I code n) stop' k σ f := by
  refine h.imp ?_ fun _ ends => ends.mono le
  intro ends
  obtain ⟨m', fewer, ends'⟩ := leads.inv ends
  exact ends'.mono (by omega)

/-! ### The places of conditionals and loops -/

section Places

variable (once : MarkedOnce code) {targets : Option LoopTargets} {e : Term} {s t : Stmt}
  {pc label : Nat}

include once

/-- The code of a conditional in its place: the test, then the statement, then the mark where a test
that fails leads. -/
theorem exists_ifThen_places (here : StandsAt code pc ((Stmt.ifThen e s).code targets label)) :
    ∃ yes no, Tests I code e pc yes no ∧ StandsAt code yes (s.code targets (label + 1)) ∧
      no = yes + (s.code targets (label + 1)).length ∧
      Leads I code no (pc + ((Stmt.ifThen e s).code targets label).length) := by
  have body := here.right.tail
  have mark := body.right.head
  refine ⟨_, _, tests_code here (once.position? mark), body.left, rfl,
    leads_mark mark ?_⟩
  simp [Stmt.code]
  omega

theorem exists_ifElse_places (here : StandsAt code pc ((Stmt.ifElse e s t).code targets label)) :
    ∃ yes no stop, Tests I code e pc yes no ∧
      StandsAt code yes (s.code targets (label + 1)) ∧
      Leads I code (yes + (s.code targets (label + 1)).length) stop ∧
      StandsAt code (no + 1) (t.code targets (label + 1 + s.labels + 1)) ∧
      Leads I code no (no + 1) ∧
      stop = no + 1 + (t.code targets (label + 1 + s.labels + 1)).length ∧
      Leads I code stop (pc + ((Stmt.ifElse e s t).code targets label).length) := by
  have body := here.right.tail
  have jump := body.right
  have mark := jump.tail
  have other := mark.tail
  have finish := other.right.head
  refine ⟨_, _, _, tests_code here (once.position? mark.head), body.left,
    leads_jump jump.head (once.position? finish), other.left,
    leads_mark mark.head rfl, rfl, leads_mark finish ?_⟩
  simp [Stmt.code]
  omega

/-- The code of a loop in its place. -/
theorem exists_loop_places (here : StandsAt code pc ((Stmt.loop e s).code targets label)) :
    ∃ yes no, Leads I code pc (pc + 1) ∧ Tests I code e (pc + 1) yes no ∧
      StandsAt code yes (s.code (some ⟨label, label + 1⟩) (label + 2)) ∧
      Leads I code (yes + (s.code (some ⟨label, label + 1⟩) (label + 2)).length) pc ∧
      position? code label = some pc ∧ position? code (label + 1) = some no ∧
      Leads I code no (pc + ((Stmt.loop e s).code targets label).length) := by
  have test := here.tail
  have body := test.right.tail
  have jump := body.right
  have next := once.position? here.head
  have exit := once.position? jump.tail.head
  refine ⟨_, _, leads_mark here.head rfl, tests_code test exit, body.left,
    leads_jump jump.head next, next, exit, leads_mark jump.tail.head ?_⟩
  simp [Stmt.code]
  omega

end Places

/-! ### From the meaning to the machine -/

/-- Where the machine ends after a statement, it ends before it. -/
theorem Stmt.Exec.ends (once : MarkedOnce code) {s : Stmt} {σ σ' : Store V} {k : Completion V}
    (h : s.Exec I σ k σ') :
    ∀ {targets : Option LoopTargets} {label pc : Nat} {f : Final V},
      StandsAt code pc (s.code targets label) →
      Lands code targets (Ends I code) (pc + (s.code targets label).length) k σ' f →
      Ends I code ⟨pc, [], σ⟩ f := by
  induction h with
  | skip σ =>
    intro targets label pc f here lands
    exact lands
  | @seq s t σ σ₁ σ₂ k first second ihs iht =>
    intro targets label pc f here lands
    refine ihs here.left (iht here.right ?_)
    rw [Stmt.code, List.length_append, ← Nat.add_assoc] at lands
    exact lands
  | @leave s t σ σ₁ k first leaves ih =>
    intro targets label pc f here lands
    refine ih here.left ?_
    cases k with
    | normal => exact absurd rfl leaves
    | exited | continued | returned v => exact lands
  | define link signature locals body σ =>
    intro targets label pc f here lands
    exact lands
  | @eval t v σ σ₁ value =>
    rintro targets label pc f here ⟨n, ends⟩
    rw [Stmt.code, List.length_append, ← Nat.add_assoc] at ends
    have popped : EndsWithin I code (n + 1) ⟨pc + t.code.length, [v], σ₁⟩ f :=
      (endsWithin_plain here.right.head rfl).2 ⟨n, [], σ₁, rfl, rfl, ends⟩
    exact ⟨_, (Term.endsWithin_code here.left).2 ⟨n + 1, v, σ₁, rfl, value, popped⟩⟩
  | @ifTrue e s σ σ₁ σ₂ k test _ ih =>
    intro targets label pc f here lands
    obtain ⟨yes, no, tests, body, rfl, stop⟩ := exists_ifThen_places once here
    exact tests.ends test (ih body (lands.before stop))
  | @ifFalse e s σ σ₁ test =>
    intro targets label pc f here lands
    obtain ⟨yes, no, tests, body, rfl, stop⟩ := exists_ifThen_places once here
    exact tests.ends test (stop.ends lands)
  | @elseTrue e s t σ σ₁ σ₂ k test _ ih =>
    intro targets label pc f here lands
    obtain ⟨yes, no, _, tests, body, out, other, into, rfl, stop⟩ := exists_ifElse_places once here
    exact tests.ends test (ih body ((lands.before stop).before out))
  | @elseFalse e s t σ σ₁ σ₂ k test _ ih =>
    intro targets label pc f here lands
    obtain ⟨yes, no, _, tests, body, out, other, into, rfl, stop⟩ := exists_ifElse_places once here
    exact tests.ends test (into.ends (ih other (lands.before stop)))
  | @done e s σ σ₁ test =>
    intro targets label pc f here lands
    obtain ⟨yes, no, into, tests, body, back, next, exit, stop⟩ := exists_loop_places once here
    exact into.ends (tests.ends test (stop.ends lands))
  | @again e s σ σ₁ σ₂ σ₃ k k' test _ goesOn _ ihs ihl =>
    intro targets label pc f here lands
    obtain ⟨yes, no, into, tests, body, back, next, exit, stop⟩ := exists_loop_places once here
    have rest : Ends I code ⟨pc, [], σ₂⟩ f := ihl here lands
    refine into.ends (tests.ends test (ihs body ?_))
    rcases goesOn with rfl | rfl
    · exact back.ends rest
    · exact ⟨_, pc, rfl, next, rest⟩
  | @broken e s σ σ₁ σ₂ test _ ih =>
    intro targets label pc f here lands
    obtain ⟨yes, no, into, tests, body, back, next, exit, stop⟩ := exists_loop_places once here
    exact into.ends (tests.ends test (ih body ⟨_, no, rfl, exit, stop.ends lands⟩))
  | @returned e s σ σ₁ σ₂ v test _ ih =>
    intro targets label pc f here lands
    obtain ⟨yes, no, into, tests, body, back, next, exit, stop⟩ := exists_loop_places once here
    exact into.ends (tests.ends test (ih body lands))
  | exit σ =>
    rintro targets label pc f here ⟨l, target, rfl, marked, ends⟩
    exact (leads_jump here.head marked).ends ends
  | next σ =>
    rintro targets label pc f here ⟨l, target, rfl, marked, ends⟩
    exact (leads_jump here.head marked).ends ends
  | retNone σ =>
    rintro targets label pc f here rfl
    exact ⟨0, .ret 0 [] σ here.head⟩
  | @retSome t v σ σ₁ value =>
    rintro targets label pc f here rfl
    exact ⟨_, (Term.endsWithin_code here.left).2
      ⟨0, v, σ₁, rfl, value, .ret 0 [v] σ₁ here.right.head⟩⟩

/-! ### From the machine to the meaning -/

/-- Where there is a loop around, both its targets are marked. -/
def TargetsMarked (code : List Instruction) (targets : Option LoopTargets) : Prop :=
  ∃ l next exit, targets = some l ∧ position? code l.next = some next ∧
    position? code l.exit = some exit

/-- The machine that ends before a statement executes it, and ends after it. -/
def Executed (I : Interpretation V) (code : List Instruction) (targets : Option LoopTargets)
    (s : Stmt) (stop n : Nat) (σ : Store V) (f : Final V) : Prop :=
  ∃ k σ', s.Exec I σ k σ' ∧ Lands code targets (EndsWithin I code n) stop k σ' f

theorem Lands.mono {targets : Option LoopTargets} {stop m n : Nat} {k : Completion V} {σ : Store V}
    {f : Final V} (h : Lands code targets (EndsWithin I code m) stop k σ f) (le : m ≤ n) :
    Lands code targets (EndsWithin I code n) stop k σ f :=
  h.imp (fun ends => ends.mono le) fun _ ends => ends.mono le

/-- One round of a loop leaves a loop with fewer steps, so the induction is on them. -/
theorem executed_loop (once : MarkedOnce code) {targets : Option LoopTargets} {e : Term} {s : Stmt}
    {label pc : Nat} (here : StandsAt code pc ((Stmt.loop e s).code targets label))
    (body : ∀ {yes n : Nat} {σ : Store V} {f : Final V},
      TargetsMarked code (some ⟨label, label + 1⟩) →
      StandsAt code yes (s.code (some ⟨label, label + 1⟩) (label + 2)) →
      EndsWithin I code n ⟨yes, [], σ⟩ f →
      Executed I code (some ⟨label, label + 1⟩) s
        (yes + (s.code (some ⟨label, label + 1⟩) (label + 2)).length) n σ f) :
    ∀ (n : Nat) {σ : Store V} {f : Final V}, EndsWithin I code n ⟨pc, [], σ⟩ f →
      Executed I code targets (.loop e s)
        (pc + ((Stmt.loop e s).code targets label).length) n σ f := by
  intro n
  obtain ⟨yes, no, into, tests, inside, back, next, exit, stop⟩ :=
    exists_loop_places (I := I) once here
  induction n using Nat.strongRecOn with
  | ind n ih =>
    intro σ f ends
    obtain ⟨n₁, lt₁, ends⟩ := into.inv ends
    obtain ⟨n₂, b, σ₁, lt₂, test, ends⟩ := tests.inv ends
    cases b with
    | false =>
      obtain ⟨n₃, lt₃, ends⟩ := stop.inv ends
      exact ⟨.normal, σ₁, .done test, ends.mono (by omega)⟩
    | true =>
      have again : ∀ {m : Nat} {k : Completion V} {σ₂ : Store V}, m < n → s.Exec I σ₁ k σ₂ →
          k = .normal ∨ k = .continued → EndsWithin I code m ⟨pc, [], σ₂⟩ f →
          Executed I code targets (.loop e s)
            (pc + ((Stmt.loop e s).code targets label).length) n σ f := by
        intro m k σ₂ fewer run goesOn ends
        obtain ⟨k', σ₃, rest, lands⟩ := ih m fewer ends
        exact ⟨k', σ₃, .again test run goesOn rest, lands.mono (by omega)⟩
      obtain ⟨k, σ₂, run, lands⟩ := body ⟨_, pc, no, rfl, next, exit⟩ inside ends
      cases k with
      | normal =>
        obtain ⟨m, fewer, ends⟩ := back.inv lands
        exact again (by omega) run (.inl rfl) ends
      | continued =>
        obtain ⟨l, target, ⟨⟩, marked, ends⟩ := lands
        obtain rfl : pc = target := Option.some.inj (next.symm.trans marked)
        exact again (by omega) run (.inr rfl) ends
      | exited =>
        obtain ⟨l, target, ⟨⟩, marked, ends⟩ := lands
        obtain rfl : no = target := Option.some.inj (exit.symm.trans marked)
        obtain ⟨m, fewer, ends⟩ := stop.inv ends
        exact ⟨.normal, σ₂, .broken test run, ends.mono (by omega)⟩
      | returned v => exact ⟨.returned v, σ₂, .returned test run, lands⟩

/-- Where the machine ends before a statement, the statement is executed and the machine ends after
it. -/
theorem Stmt.executed (once : MarkedOnce code) {s : Stmt} {frame : Frame} {inLoop : Bool}
    (typed : s.WellTyped frame inLoop) {targets : Option LoopTargets}
    (around : inLoop = true → TargetsMarked code targets) {label pc n : Nat} {σ : Store V}
    {f : Final V} (here : StandsAt code pc (s.code targets label))
    (ends : EndsWithin I code n ⟨pc, [], σ⟩ f) :
    Executed I code targets s (pc + (s.code targets label).length) n σ f := by
  induction s generalizing inLoop targets label pc n σ f with
  | skip => exact ⟨.normal, σ, .skip σ, ends⟩
  | seq s t ihs iht =>
    obtain ⟨k, σ₁, first, lands⟩ := ihs typed.1 around here.left ends
    cases k with
    | normal =>
      obtain ⟨k, σ₂, second, lands⟩ := iht typed.2 around here.right lands
      refine ⟨k, σ₂, .seq first second, ?_⟩
      rw [Stmt.code, List.length_append, ← Nat.add_assoc]
      exact lands
    | exited => exact ⟨_, σ₁, .leave first (by simp), lands⟩
    | continued => exact ⟨_, σ₁, .leave first (by simp), lands⟩
    | returned v => exact ⟨_, σ₁, .leave first (by simp), lands⟩
  | define link signature locals body => exact ⟨.normal, σ, .define _ _ _ _ σ, ends⟩
  | eval t =>
    obtain ⟨m, v, σ₁, rfl, value, ends⟩ := (Term.endsWithin_code here.left).1 ends
    obtain ⟨m, stack, σ', rfl, ⟨⟩, ends⟩ := (endsWithin_plain here.right.head rfl).1 ends
    refine ⟨.normal, σ₁, .eval value, ?_⟩
    rw [Stmt.code, List.length_append, ← Nat.add_assoc]
    exact ends.mono (by omega)
  | ifThen e s ih =>
    obtain ⟨yes, no, tests, body, rfl, stop⟩ := exists_ifThen_places (I := I) once here
    obtain ⟨m, b, σ₁, lt, test, ends⟩ := tests.inv ends
    cases b with
    | true =>
      obtain ⟨k, σ₂, run, lands⟩ := ih typed.2 around body ends
      exact ⟨k, σ₂, .ifTrue test run, lands.behind stop (by omega)⟩
    | false =>
      obtain ⟨m', lt', ends⟩ := stop.inv ends
      exact ⟨.normal, σ₁, .ifFalse test, ends.mono (by omega)⟩
  | ifElse e s t ihs iht =>
    obtain ⟨yes, no, _, tests, body, out, other, into, rfl, stop⟩ :=
      exists_ifElse_places (I := I) once here
    obtain ⟨m, b, σ₁, lt, test, ends⟩ := tests.inv ends
    cases b with
    | true =>
      obtain ⟨k, σ₂, run, lands⟩ := ihs typed.2.1 around body ends
      exact ⟨k, σ₂, .elseTrue test run, (lands.behind out (Nat.le_refl m)).behind stop (by omega)⟩
    | false =>
      obtain ⟨m₁, lt₁, ends⟩ := into.inv ends
      obtain ⟨k, σ₂, run, lands⟩ := iht typed.2.2 around other ends
      exact ⟨k, σ₂, .elseFalse test run, lands.behind stop (by omega)⟩
  | loop e s ih =>
    refine executed_loop once here ?_ n ends
    intro yes n σ f marked inside ends
    exact ih typed.2 (fun _ => marked) inside ends
  | exit =>
    obtain ⟨l, next, exit, rfl, -, marked⟩ := around typed
    obtain ⟨m, fewer, ends⟩ := (leads_jump here.head marked).inv ends
    exact ⟨.exited, σ, .exit σ, l, exit, rfl, marked, ends.mono (by omega)⟩
  | next =>
    obtain ⟨l, next, exit, rfl, marked, -⟩ := around typed
    obtain ⟨m, fewer, ends⟩ := (leads_jump here.head marked).inv ends
    exact ⟨.continued, σ, .next σ, l, next, rfl, marked, ends.mono (by omega)⟩
  | ret value =>
    cases value with
    | none => exact ⟨.returned none, σ, .retNone σ, (endsWithin_ret here.head).1 ends⟩
    | some t =>
      obtain ⟨m, v, σ₁, rfl, value, ends⟩ := (Term.endsWithin_code here.left).1 ends
      exact ⟨.returned (some v), σ₁, .retSome value, (endsWithin_ret here.right.head).1 ends⟩

end Lowering

/-! ## Labels -/

theorem Term.count_mark (t : Term) (label : Nat) : t.code.count (.mark label) = 0 := by
  rw [List.count_eq_zero]
  intro mem
  exact absurd (t.isPlain_code _ mem) (by simp [Instruction.isPlain])

theorem count_mark_cons (l label : Nat) (is : List Instruction) :
    (Instruction.mark l :: is).count (.mark label) =
      is.count (.mark label) + if l = label then 1 else 0 := by
  simp [List.count_cons]

/-- The code of a statement marks its own labels only, and none twice. -/
theorem Stmt.count_mark (s : Stmt) (targets : Option LoopTargets) (n label : Nat) :
    (s.code targets n).count (.mark label) ≤ 1 ∧
      (0 < (s.code targets n).count (.mark label) → n ≤ label ∧ label < n + s.labels) := by
  induction s generalizing targets n with
  | skip => simp [Stmt.code]
  | seq s t ihs iht =>
    have hs := ihs targets n
    have ht := iht targets (n + s.labels)
    rw [Stmt.code, List.count_append, Stmt.labels]
    omega
  | define link signature locals body => simp [Stmt.code]
  | eval t => simp [Stmt.code, t.count_mark]
  | ifThen e s ih =>
    have hs := ih targets (n + 1)
    simp only [Stmt.code, Stmt.labels, List.count_append, e.count_mark, count_mark_cons,
      List.count_cons_of_ne, List.count_nil, ne_eq, reduceCtorEq, not_false_eq_true]
    split <;> omega
  | ifElse e s t ihs iht =>
    have hs := ihs targets (n + 1)
    have ht := iht targets (n + 1 + s.labels + 1)
    simp only [Stmt.code, Stmt.labels, List.count_append, e.count_mark, count_mark_cons,
      List.count_cons_of_ne, List.count_nil, ne_eq, reduceCtorEq, not_false_eq_true]
    split <;> split <;> omega
  | loop e s ih =>
    have hs := ih (some ⟨n, n + 1⟩) (n + 2)
    simp only [Stmt.code, Stmt.labels, List.count_append, e.count_mark, count_mark_cons,
      List.count_cons_of_ne, List.count_nil, ne_eq, reduceCtorEq, not_false_eq_true]
    split <;> split <;> omega
  | exit => cases targets <;> simp [Stmt.code]
  | next => cases targets <;> simp [Stmt.code]
  | ret value => cases value <;> simp [Stmt.code, Term.count_mark]

theorem Stmt.markedOnce_code (s : Stmt) (targets : Option LoopTargets) (n : Nat) :
    MarkedOnce (s.code targets n) :=
  fun label => (s.count_mark targets n label).1

/-! ## Programs -/

/-- How a body that is executed to its end leaves the machine. -/
def Completion.final? {V : Type} (σ : Store V) : Completion V → Option (Final V)
  | .normal => some ⟨false, [], σ⟩
  | .returned v => some ⟨true, v.toList, σ⟩
  | .exited => none
  | .continued => none

/-- A body is the code of a function: whatever literals, operators and calls mean, and whatever the
locals are at first, the machine ends exactly if the body of the function is executed to its end, in
the same way and with the same store. -/
def Function.LoweredTo (g : Function) (b : Body) : Prop :=
  b.name = g.link ∧ b.signature = g.signature ∧
    ∀ (V : Type) (I : Interpretation V) (σ : Store V) (f : Final V),
      b.Ends I σ f ↔ ∃ k σ', g.body.Exec I σ k σ' ∧ k.final? σ' = some f

theorem Function.loweredTo_compiled {g : Function} {frame : Frame}
    (typed : g.body.WellTyped frame false) (n : Nat) : g.LoweredTo (g.compiled n) := by
  refine ⟨rfl, rfl, fun V I σ f => ?_⟩
  have once := g.body.markedOnce_code none n
  have whole : StandsAt (g.body.code none n) 0 (g.body.code none n) := List.prefix_refl _
  unfold Body.Ends Function.compiled
  dsimp only
  constructor
  · rintro ⟨m, ends⟩
    obtain ⟨k, σ', run, lands⟩ := Stmt.executed once typed nofun whole ends
    refine ⟨k, σ', run, ?_⟩
    rw [Nat.zero_add] at lands
    cases k with
    | normal => rw [Completion.final?, endsWithin_length.1 lands]
    | exited => obtain ⟨l, pc, ⟨⟩, -⟩ := lands
    | continued => obtain ⟨l, pc, ⟨⟩, -⟩ := lands
    | returned v => rw [Completion.final?, show f = _ from lands]
  · rintro ⟨k, σ', run, final⟩
    refine run.ends once whole ?_
    rw [Nat.zero_add]
    cases k with
    | normal =>
      cases final
      exact ⟨0, .finish 0 [] σ'⟩
    | exited => cases final
    | continued => cases final
    | returned v =>
      cases final
      rfl

/-- **Lowering preserves meaning**: an accepted source text is the writing of a program, and for
every such program the bodies of the listing are the code of its functions, one by one. -/
theorem lowering_preserves_meaning (source : String) (c : Compilation)
    (compiled : compile source = .ok c) (accepted : c.accepted = true) :
    (∃ p : Tree.Statements, p.WrittenAs source) ∧
      ∀ p : Tree.Statements, p.WrittenAs source →
        ∃ fs, p.functions? = some fs ∧ c.listing.bodies.length = fs.length ∧
          ∀ (i : Nat) (g : Function × Nat) (b : Body), fs[i]? = some g →
            c.listing.bodies[i]? = some b → g.1.LoweredTo b := by
  refine ⟨exists_writtenAs compiled accepted, ?_⟩
  intro p written
  obtain ⟨fs, resolved, bodies⟩ := written.functions? compiled accepted
  refine ⟨fs, resolved, by rw [bodies, List.length_map], ?_⟩
  intro i g b function body
  have typed :=
    Tree.Statements.wellTyped_functions? resolved bodies g (List.mem_of_getElem? function)
  rw [bodies, List.getElem?_map, function] at body
  cases body
  exact Function.loweredTo_compiled typed g.2

/-- A source text with a function whose loop has a `break` and a `continue`, inside conditionals. -/
def searchSource : String :=
  "\x7b int n; int search(int k) \x7b while (k < 9) \x7b if (k == 5) break; " ++
    "if (k == 3) \x7b k = k + 2; continue; \x7d else k++; \x7d return k; \x7d n = search(0); \x7d"

theorem lowering_preserves_meaning_search :
    ∃ (c : Compilation) (p : Tree.Statements) (fs : List (Function × Nat)) (g : Function × Nat)
      (b : Body), compile searchSource = .ok c ∧ c.accepted = true ∧ p.WrittenAs searchSource ∧
      p.functions? = some fs ∧ fs[1]? = some g ∧ c.listing.bodies[1]? = some b ∧
      b.name = "search" ∧ g.1.LoweredTo b := by
  have names : acceptedNames? searchSource = some ["main", "search"] := by decide +kernel
  obtain ⟨c, compiled, accepted, listed⟩ := acceptedNames?_eq_some_iff.1 names
  obtain ⟨⟨p, written⟩, lowered⟩ := lowering_preserves_meaning searchSource c compiled accepted
  obtain ⟨fs, resolved, length, each⟩ := lowered p written
  have second : (c.listing.bodies.map Body.name)[1]? = some "search" := by rw [listed]; rfl
  rw [List.getElem?_map] at second
  obtain ⟨b, body, name⟩ := Option.map_eq_some_iff.1 second
  have inside : 1 < fs.length := by
    rw [← length]
    exact (List.getElem?_eq_some_iff.1 body).1
  have function := List.getElem?_eq_getElem inside
  exact ⟨c, p, fs, fs[1], b, compiled, accepted, written, resolved, function, body, name,
    each 1 _ b function body⟩

end OnePass
