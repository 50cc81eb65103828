import OnePass.Proofs.Lowering
import OnePass.Proofs.Phrase
import OnePass.Proofs.Reading.Expression
import OnePass.Proofs.Restoration

/-!
# Evaluation of expressions

The code of an expression computes it. If an expression is translated without a failure, its tokens
are read as one phrase only, and the machine does with the code what the phrase means: it pushes the
value, changes the store as the assignments and steps say, and leaves the rest of the stack alone.
It gets stuck exactly if the phrase has no value. This holds whatever is wrong elsewhere, and
whether or not a missing bracket is an error.

The code is given out while the tokens are read, so what was read of a sum or of a product is
carried along as a phrase whose code has been given out.
-/

namespace OnePass

/-! ## The tokens of a stream -/

def Tokens.kinds (s : Tokens) : List Token.Kind := s.front.map Token.kind

namespace Tokens

variable {s r : Tokens}

theorem Passes.kinds_eq {ks : List Token.Kind} (h : s.Passes ks r) : s.kinds = ks ++ r.kinds := by
  obtain ⟨passed, front, rfl, -⟩ := h
  rw [kinds, front, List.map_append, kinds]

theorem leading?_kinds {α : Type} {classify : String → Option α}
    (h : s.operator? classify = none) : leading? classify s.kinds = none := by
  rw [operator?_eq_none_iff] at h
  obtain ⟨front, final⟩ := s
  cases front with
  | nil => rfl
  | cons t ts => exact h

/-- A symbol that comes next and was read as an operator. -/
theorem kinds_of_operator? {α : Type} {classify : String → Option α} {op : α} {tail : s.Tail}
    (h : s.operator? classify = some (op, tail)) :
    ∃ text, classify text = some op ∧ s.kinds = .symbol text :: tail.stream.kinds := by
  obtain ⟨text, classified, passes⟩ := passes_of_operator? h
  exact ⟨text, classified, passes.kinds_eq⟩

/-- What does not begin with a sign. -/
theorem head?_kinds_ne_sign (h : s.sign? = none) (negative : Bool) :
    s.kinds.head? ≠ some (.symbol (signSymbol negative)) := by
  have unsigned := leading?_kinds h
  intro head
  cases read : s.kinds with
  | nil =>
    rw [read] at head
    cases head
  | cons k ks =>
    rw [read] at head unsigned
    cases head
    cases negative <;> cases unsigned

end Tokens

/-! ## The code of a run -/

/-- The value, if there is one, the code and the rest have a property. -/
def Run.Gives {s : Tokens} {α : Type} (x : Attempt s α)
    (P : α → List Instruction → Tokens → Prop) : Prop :=
  ∀ a, x.value = some a → P a (instructions x.events) x.rest

namespace Run.Gives

variable {s q : Tokens} {α β : Type} {P : α → List Instruction → Tokens → Prop}
  {Q : β → List Instruction → Tokens → Prop}

theorem ok {a : α} (h : P a [] s) : (Run.ok a : Attempt s α).Gives P := by
  intro b value
  cases value
  exact h

theorem fail (severity : Severity) (pos : Position) (problem : Problem) :
    (Run.fail severity pos problem : Attempt s α).Gives P := nofun

theorem reached {h : s.Reaches q} {x : Attempt q α} (hx : x.Gives P) :
    (Run.reached h x).Gives P := hx

theorem after {es : List Event} {x : Attempt s α}
    (hx : x.Gives fun a is r => P a (instructions es ++ is) r) : (Run.after es x).Gives P := by
  intro a value
  rw [Run.events_after, instructions_append]
  exact hx a value

theorem emit {is : List Instruction} {a : α} (h : P a is s) :
    (Run.emit is a : Attempt s α).Gives P :=
  .after (.ok (by rwa [instructions_emits, List.append_nil]))

theorem map {f : α → β} {x : Attempt s α} (hx : x.Gives fun a is r => Q (f a) is r) :
    (x.map f).Gives Q := by
  intro b value
  obtain ⟨a, given, rfl⟩ := Option.map_eq_some_iff.1 value
  exact hx a given

theorem imp {P' : α → List Instruction → Tokens → Prop} {x : Attempt s α} (hx : x.Gives P)
    (h : ∀ a is r, P a is r → P' a is r) : x.Gives P' :=
  fun a value => h a _ _ (hx a value)

theorem andThen {x : Attempt s α} {f : (r : Tokens) → r.left ≤ s.left → α → Attempt r β}
    (hx : x.Gives P)
    (hf : ∀ q h a is, P a is q → (f q h a).Gives fun b js r => Q b (is ++ js) r) :
    (x.andThen f).Gives Q := by
  intro b value
  cases given : x.value with
  | none =>
    rw [(Run.andThen_of_none given f).2.1] at value
    cases value
  | some a =>
    obtain ⟨events, value', rest⟩ := Run.andThen_of_some given f
    rw [events, rest, instructions_append]
    exact hf x.rest x.left_rest_le a _ (hx a given) b (value' ▸ value)

end Run.Gives

theorem follow_gives {s : Tokens} {α : Type} (pos : Position) (j : Judgement α) :
    (follow pos j : Attempt s α).Gives fun a is r => j.value? = some a ∧ is = [] ∧ r = s := by
  cases j with
  | accepted a => exact .ok ⟨rfl, rfl, rfl⟩
  | widened a warning => exact .after (.ok ⟨rfl, rfl, rfl⟩)
  | refused problem => exact .fail _ _ _

theorem expect_gives (env : Env) (symbol : String) (s : Tokens) :
    (expect env symbol s).Gives fun _ is r => is = [] ∧ s.kinds = .symbol symbol :: r.kinds := by
  unfold expect
  split
  · rename_i tail read
    exact .reached (.ok ⟨rfl, (Tokens.passes_of_symbol? read).kinds_eq⟩)
  · exact .fail _ _ _

theorem Operand.stepTarget_gives {s : Tokens} (x : Operand) (pos : Position) :
    (x.stepTarget pos : Attempt s Nat).Gives fun slot is r =>
      x.place = some slot ∧ is = [] ∧ r = s := by
  unfold stepTarget
  split
  · rename_i slot place
    split
    · exact .ok ⟨place, rfl, rfl⟩
    · exact .fail _ _ _
  · exact .fail _ _ _

/-! ## The meaning of code -/

/-- The code computes the phrase: it is plain, it has the effect of the phrase on the store, and it
leaves the value on what was on the stack before. -/
structure Phrase.ComputedBy (env : Env) (e : Phrase) (is : List Instruction) : Prop where
  plain : ∀ i ∈ is, i.isPlain = true
  acts : ∀ {V : Type} (I : Interpretation V), I.NegatesNumbers → ∀ (stack : List V) (σ : Store V),
    act? I is stack σ = (e.eval I env σ).map fun (v, σ) => (v :: stack, σ)

namespace Phrase

variable {env : Env}

/-- A variable, also behind plus signs, has its value in the store. -/
theorem eval_of_ident? {V : Type} (I : Interpretation V) {e : Phrase} {x : String}
    {type : ValueType} {slot : Nat} (isVariable : e.ident? = some x)
    (known : env.slot? x = some (type, slot)) (σ : Store V) :
    e.eval I env σ = some (σ slot, σ) := by
  induction e with
  | name y =>
    cases isVariable
    rw [eval, known]
    rfl
  | plus e ih => exact ih isVariable
  | _ => cases isVariable

theorem type?_of_ident? {e : Phrase} {x : String} (isVariable : e.ident? = some x) :
    e.type? env = (env.slot? x).map Prod.fst := by
  induction e with
  | name y =>
    cases isVariable
    rfl
  | plus e ih => exact ih isVariable
  | _ => cases isVariable

end Phrase

/-- The code of a step replaces the value of a variable by the new one. -/
theorem Additive.act?_step {V : Type} (I : Interpretation V) (op : Additive) (type : ValueType)
    (slot : Nat) (v : V) (stack : List V) (σ : Store V) :
    act? I (op.step type slot) (v :: stack) σ =
      (I.binary (.additive op) v (I.literal type.one)).map fun w => (w :: stack, σ.set slot w) := by
  have one : op.step type slot = [type.one.instruction, .additive op, .store slot] := by
    unfold step ValueType.one
    split <;> rfl
  rw [one]
  cases stepped : I.binary (.additive op) v (I.literal type.one) <;> simp [act?, stepped]

theorem Additive.isPlain_step (op : Additive) (type : ValueType) (slot : Nat) :
    ∀ i ∈ op.step type slot, i.isPlain = true := by
  unfold step
  split <;> simp [Instruction.isPlain]

/-- The operation that the typing rule chooses. -/
theorem Additive.eq_addition {op : Additive} {lhs rhs type : ValueType} {b : Binary}
    (h : op.result? lhs rhs = some (type, b)) :
    b = Phrase.addition op (some lhs) (some rhs) := by
  unfold result? at h
  unfold Phrase.addition
  split at h
  · rename_i isOr
    split at h <;> cases h
    simp [isOr]
  · split at h
    · rename_i string
      cases h
      simp [string]
    · rename_i noString
      obtain ⟨a, -, same⟩ := Option.map_eq_some_iff.1 h
      cases same
      simp [noString]

theorem Multiplicative.eq_multiplicative {op : Multiplicative} {lhs rhs type : ValueType}
    {b : Binary} (h : op.result? lhs rhs = some (type, b)) : b = .multiplicative op := by
  unfold result? at h
  split at h
  · split at h <;> cases h
    rfl
  · obtain ⟨a, -, same⟩ := Option.map_eq_some_iff.1 h
    cases same
    rfl

/-- A compound assignment takes the instruction of the operation. -/
theorem Judgement.value?_compound {j : Judgement (ValueType × Instruction)}
    {result? : Option (ValueType × Binary)} (judged : j.value? = result?.map withInstruction)
    {type : ValueType} {code : List Instruction}
    (h : (j.map fun (type, i) => (type, [i])).value? = some (type, code)) :
    ∃ b, result? = some (type, b) ∧ code = [b.instruction] := by
  rw [value?_map, judged, Option.map_map] at h
  obtain ⟨⟨type', b⟩, chosen, same⟩ := Option.map_eq_some_iff.1 h
  cases same
  exact ⟨b, chosen, rfl⟩

namespace Phrase.ComputedBy

variable {env : Env} {e l r : Phrase} {is js : List Instruction}

theorem literal (l : Literal) : (Phrase.literal l).ComputedBy env [l.instruction] where
  plain := by simp [l.isPlain_instruction]
  acts I lawful stack σ := by simp [act?, eval]

theorem name {x : String} {type : ValueType} {slot : Nat}
    (known : env.slot? x = some (type, slot)) :
    (Phrase.name x).ComputedBy env [.load slot] where
  plain := by simp [Instruction.isPlain]
  acts I lawful stack σ := by simp [act?, eval, known]

theorem plus (h : e.ComputedBy env is) : (Phrase.plus e).ComputedBy env is :=
  ⟨h.plain, fun I lawful => h.acts I lawful⟩

theorem parens (h : e.ComputedBy env is) : (Phrase.parens e).ComputedBy env is :=
  ⟨h.plain, fun I lawful => h.acts I lawful⟩

theorem unary (op : Unary) (h : e.ComputedBy env is) :
    (Phrase.unary op e).ComputedBy env (is ++ [.unary op]) where
  plain := by simpa [or_imp, forall_and, Instruction.isPlain] using h.plain
  acts I lawful stack σ := by
    rw [act?_append, h.acts I lawful, eval]
    rcases e.eval I env σ with _ | ⟨v, σ₁⟩
    · rfl
    · cases applied : I.unary op v <;> simp [act?, applied]

/-- A sign in front of code. -/
theorem signed (negative : Bool) (h : e.ComputedBy env is) :
    (Phrase.signed negative e).ComputedBy env
      (is ++ if negative then [.unary .neg] else []) := by
  cases negative with
  | false =>
    rw [if_neg Bool.false_ne_true, List.append_nil]
    exact h.plus
  | true => exact h.unary .neg

/-- A number takes its sign in. -/
theorem signedLiteral {negative : Bool} {l m : Literal} (h : l.signed? negative = some m) :
    (Phrase.signed negative (.literal l)).ComputedBy env [m.instruction] := by
  cases negative with
  | false =>
    cases l <;> cases h
    all_goals exact (ComputedBy.literal _).plus
  | true =>
    refine ⟨by simp [m.isPlain_instruction], ?_⟩
    intro V I lawful stack σ
    cases l <;> cases h
    · simp [act?, Phrase.signed, eval, lawful.int]
    · simp [act?, Phrase.signed, eval, lawful.double]

/-- Two operands from left to right, and the operation on their values. -/
theorem binary (hl : l.ComputedBy env is) (hr : r.ComputedBy env js) (b : Binary)
    (meaning : ∀ {V : Type} (I : Interpretation V) (σ : Store V), e.eval I env σ =
      (l.eval I env σ).bind fun (v, σ) => (r.eval I env σ).bind fun (w, σ) =>
        (I.binary b v w).map fun u => (u, σ)) :
    e.ComputedBy env (is ++ (js ++ [b.instruction])) where
  plain := by simpa [or_imp, forall_and, b.isPlain_instruction] using ⟨hl.plain, hr.plain⟩
  acts I lawful stack σ := by
    rw [act?_append, hl.acts I lawful, meaning]
    rcases l.eval I env σ with _ | ⟨v, σ₁⟩
    · rfl
    simp only [Option.map_some, Option.bind_some, act?_append, hr.acts I lawful]
    rcases r.eval I env σ₁ with _ | ⟨w, σ₂⟩
    · rfl
    · cases applied : I.binary b v w <;> simp [act?, applied]

theorem stepBefore {x : String} {type : ValueType} {slot : Nat} (op : Additive)
    (h : e.ComputedBy env is) (isVariable : e.ident? = some x)
    (known : env.slot? x = some (type, slot)) :
    (Phrase.stepBefore op e).ComputedBy env (is ++ op.step type slot) where
  plain := by
    simpa [or_imp, forall_and] using ⟨h.plain, op.isPlain_step type slot⟩
  acts I lawful stack σ := by
    rw [act?_append, h.acts I lawful, eval_of_ident? I isVariable known]
    simp only [Option.map_some, Option.bind_some, Additive.act?_step]
    simp [eval, step, isVariable, known, Function.comp_def]

theorem stepBehind {x : String} {type : ValueType} {slot : Nat} (op : Additive)
    (h : e.ComputedBy env is) (isVariable : e.ident? = some x)
    (known : env.slot? x = some (type, slot)) :
    (Phrase.stepBehind e op).ComputedBy env (is ++ (.load slot :: op.step type slot ++ [.pop]))
    where
  plain := by
    have := op.isPlain_step type slot
    simpa [or_imp, forall_and, Instruction.isPlain] using ⟨h.plain, this⟩
  acts I lawful stack σ := by
    rw [act?_append, h.acts I lawful, eval_of_ident? I isVariable known]
    -- The step works on the copy; the value below it stays.
    simp only [Option.map_some, Option.bind_some, List.cons_append, act?, Instruction.act?_load,
      act?_append, Additive.act?_step]
    cases stepped : I.binary (.additive op) (σ slot) (I.literal type.one) <;>
      simp [eval, step, isVariable, known, stepped]

theorem call {f link : String} {signature : Signature}
    (known : env.function? f = some (link, signature)) (h : e.ComputedBy env is) :
    (Phrase.call f e).ComputedBy env (is ++ [.call link]) where
  plain := by simpa [or_imp, forall_and, Instruction.isPlain] using h.plain
  acts I lawful stack σ := by
    rw [act?_append, h.acts I lawful, eval, known]
    simp only [Option.bind_some]
    rcases e.eval I env σ with _ | ⟨v, σ₁⟩
    · rfl
    · cases called : I.call link v <;> simp [act?, called]

/-- The old value of a variable is read before the operand is evaluated. -/
theorem compound {x : String} {slot : Nat} {op : Assignment} (h : e.ComputedBy env is) (b : Binary)
    (meaning : ∀ {V : Type} (I : Interpretation V) (σ : Store V),
      (Phrase.assign x op e).eval I env σ = (e.eval I env σ).bind fun (v, σ') =>
        (I.binary b (σ slot) v).map fun w => (w, σ'.set slot w)) :
    (Phrase.assign x op e).ComputedBy env (.load slot :: (is ++ [b.instruction, .store slot])) where
  plain := List.forall_mem_cons.2 ⟨rfl, List.forall_mem_append.2 ⟨h.plain,
    List.forall_mem_cons.2 ⟨b.isPlain_instruction, List.forall_mem_singleton.2 rfl⟩⟩⟩
  acts I lawful stack σ := by
    rw [meaning]
    simp only [act?, Instruction.act?_load, Option.bind_some, act?_append, h.acts I lawful]
    rcases e.eval I env σ with _ | ⟨v, σ₁⟩
    · rfl
    · cases applied : I.binary b (σ slot) v <;> simp [applied]

theorem assign {x : String} {type value result : ValueType} {slot : Nat} {op : Assignment}
    {code : List Instruction} (known : env.slot? x = some (type, slot))
    (typed : e.type? env = some value) (h : e.ComputedBy env is)
    (judged : (op.judge type value).value? = some (result, code)) :
    (Phrase.assign x op e).ComputedBy env (op.preload slot ++ (is ++ (code ++ [.store slot]))) := by
  cases op with
  | plain =>
    cases judged
    refine ⟨by simpa [Assignment.preload, or_imp, forall_and, Instruction.isPlain] using h.plain,
      ?_⟩
    intro V I lawful stack σ
    simp only [Assignment.preload, List.nil_append, act?_append, h.acts I lawful, eval, known,
      Option.bind_some]
    rcases e.eval I env σ with _ | ⟨v, σ₁⟩ <;> simp [act?]
  | additive op =>
    obtain ⟨b, chosen, rfl⟩ := Judgement.value?_compound (op.value?_judge type value) judged
    obtain rfl := Additive.eq_addition chosen
    exact compound h _ fun I σ => by simp [eval, known, typed]
  | multiplicative op =>
    obtain ⟨b, chosen, rfl⟩ := Judgement.value?_compound (op.value?_judge type value) judged
    obtain rfl := Multiplicative.eq_multiplicative chosen
    exact compound h _ fun I σ => by simp [eval, known]

end Phrase.ComputedBy

/-! ## Productions -/

/-- The phrase has a type, and the code computes it. -/
structure Phrase.Compiled (env : Env) (e : Phrase) (type : ValueType) (is : List Instruction) :
    Prop where
  typed : e.type? env = some type
  computed : e.ComputedBy env is

/-- The phrase is compiled to an operand, which has a place if the phrase is a variable. -/
structure Phrase.Loaded (env : Env) (e : Phrase) (x : Operand) (is : List Instruction) : Prop
    extends e.Compiled env x.type is where
  placed : x.place = (e.ident?.bind env.slot?).map Prod.snd

namespace Phrase

variable {env : Env} {e : Phrase} {is js : List Instruction}

/-- An operand in its place is a variable. -/
theorem Loaded.ident? {x : Operand} {slot : Nat} (h : e.Loaded env x is)
    (place : x.place = some slot) :
    ∃ name, e.ident? = some name ∧ env.slot? name = some (x.type, slot) := by
  have placed := h.placed
  rw [place] at placed
  obtain ⟨⟨type, slot'⟩, known, same⟩ := Option.map_eq_some_iff.1 placed.symm
  cases same
  obtain ⟨name, isVariable, known⟩ := Option.bind_eq_some_iff.1 known
  have typed := h.typed
  rw [type?_of_ident? isVariable, known] at typed
  cases typed
  exact ⟨name, isVariable, known⟩

/-- Any other operand has no place. -/
theorem Compiled.loaded {type : ValueType} (h : e.Compiled env type is)
    (noVariable : e.ident? = none) : e.Loaded env ⟨type, none⟩ is :=
  ⟨h, by rw [noVariable]; rfl⟩

theorem Compiled.add {l r : Phrase} {op : Additive} {lhs rhs type : ValueType} {i : Instruction}
    (hl : l.Compiled env lhs is) (hr : r.Compiled env rhs js)
    (judged : (op.judge lhs rhs).value? = some (type, i)) :
    (Phrase.add l op r).Compiled env type (is ++ (js ++ [i])) := by
  rw [op.value?_judge] at judged
  obtain ⟨⟨type', b⟩, chosen, same⟩ := Option.map_eq_some_iff.1 judged
  cases same
  refine ⟨by simp [type?, hl.typed, hr.typed, chosen], ?_⟩
  refine hl.computed.binary hr.computed b fun I σ => ?_
  rw [eval, hl.typed, hr.typed, ← Additive.eq_addition chosen]

theorem Compiled.multiply {l r : Phrase} {op : Multiplicative} {lhs rhs type : ValueType}
    {i : Instruction} (hl : l.Compiled env lhs is) (hr : r.Compiled env rhs js)
    (judged : (op.judge lhs rhs).value? = some (type, i)) :
    (Phrase.multiply l op r).Compiled env type (is ++ (js ++ [i])) := by
  rw [op.value?_judge] at judged
  obtain ⟨⟨type', b⟩, chosen, same⟩ := Option.map_eq_some_iff.1 judged
  cases same
  refine ⟨by simp [type?, hl.typed, hr.typed, chosen], ?_⟩
  refine hl.computed.binary hr.computed b fun I σ => ?_
  rw [eval, Multiplicative.eq_multiplicative chosen]

theorem Compiled.compare {l r : Phrase} {lhs rhs : ValueType} (op : Comparison)
    (hl : l.Compiled env lhs is) (hr : r.Compiled env rhs js) :
    (Phrase.compare l op r).Compiled env .bool (is ++ (js ++ [.compare op])) :=
  ⟨rfl, hl.computed.binary hr.computed (.compare op) fun _ _ => rfl⟩

theorem Compiled.signed {type : ValueType} (negative : Bool) (h : e.Compiled env type is) :
    (Phrase.signed negative e).Compiled env type
      (is ++ if negative then [.unary .neg] else []) :=
  ⟨by cases negative <;> exact h.typed, h.computed.signed negative⟩

end Phrase

theorem Token.Kind.signedLiteral?_eq {k : Token.Kind} {negative : Bool}
    {v : ValueType × Instruction} (h : k.signedLiteral? negative = some v) :
    ∃ l m : Literal, k = l.kind ∧ l.signed? negative = some m ∧ v = (l.type, m.instruction) := by
  cases k with
  | int value => exact ⟨.int value, _, rfl, rfl, (Option.some.inj h).symm⟩
  | double value => exact ⟨.double value, _, rfl, rfl, (Option.some.inj h).symm⟩
  | _ => cases h

theorem Token.Kind.literal?_eq {k : Token.Kind} {v : ValueType × Instruction}
    (h : k.literal? = some v) : ∃ l : Literal, k = l.kind ∧ v = (l.type, l.instruction) := by
  cases k with
  | int value => exact ⟨.int value, rfl, (Option.some.inj h).symm⟩
  | double value => exact ⟨.double value, rfl, (Option.some.inj h).symm⟩
  | bool value => exact ⟨.bool value, rfl, (Option.some.inj h).symm⟩
  | char value => exact ⟨.char value, rfl, (Option.some.inj h).symm⟩
  | string value => exact ⟨.string value, rfl, (Option.some.inj h).symm⟩
  | _ => cases h

open Phrase in
mutual

theorem expression_gives (env : Env) (s : Tokens) :
    (expression env s).Gives fun type is r =>
      ∃ e, Reads env .expression s.kinds e r.kinds ∧ e.Compiled env type is := by
  rw [expression]
  refine .andThen (additive_gives env s) ?_
  rintro q - lhs is ⟨l, readL, compiledL⟩
  split
  · rename_i noOp
    refine .ok ⟨l, .single readL (Tokens.leading?_kinds noOp), ?_⟩
    rwa [List.append_nil]
  · rename_i op p reaches shorter read
    obtain ⟨text, isOp, kinds⟩ := Tokens.kinds_of_operator? read
    refine .reached (.andThen (additive_gives env p) ?_)
    rintro _ - rhs js ⟨r, readR, compiledR⟩
    split
    · exact .emit ⟨_, .compare (kinds ▸ readL) isOp readR, compiledL.compare op compiledR⟩
    · exact .fail _ _ _
termination_by 16 * s.left + 9
decreasing_by all_goals omega

theorem additive_gives (env : Env) (s : Tokens) :
    (additive env s).Gives fun type is r =>
      ∃ e, Reads env .sum s.kinds e r.kinds ∧ e.Compiled env type is := by
  rw [additive]
  split
  · rename_i unsigned
    refine .andThen (multiplicative_gives env s) ?_
    rintro q left type is ⟨a, read, compiled⟩
    refine .imp (additiveRest_gives env type q compiled) ?_
    rintro _ _ _ ⟨e, rest, compiled'⟩
    exact ⟨e, .sum (Tokens.head?_kinds_ne_sign unsigned) read rest, compiled'⟩
  · rename_i negative p reaches shorter sign
    refine .reached (.andThen (multiplicative_gives env p) ?_)
    rintro q left type is ⟨a, read, compiled⟩
    refine .after (.imp (additiveRest_gives env type q (compiled.signed negative)) ?_)
    rintro _ js _ ⟨e, rest, compiled'⟩
    refine ⟨e, ?_, ?_⟩
    · rw [(passes_of_sign? sign).kinds_eq]
      exact .signedSum rfl read rest
    · rw [← List.append_assoc]
      cases negative <;> exact compiled'
termination_by 16 * s.left + 8
decreasing_by all_goals omega

theorem additiveRest_gives (env : Env) (lhs : ValueType) (s : Tokens) {a : Phrase}
    {is : List Instruction} (before : a.Compiled env lhs is) :
    (additiveRest env lhs s).Gives fun type js r =>
      ∃ e, Reads env (.terms a) s.kinds e r.kinds ∧ e.Compiled env type (is ++ js) := by
  rw [additiveRest]
  split
  · rename_i noOp
    refine .ok ⟨a, .noTerm (Tokens.leading?_kinds noOp), ?_⟩
    rwa [List.append_nil]
  · rename_i op p reaches shorter read
    obtain ⟨text, isOp, kinds⟩ := Tokens.kinds_of_operator? read
    refine .reached (.andThen (multiplicative_gives env p) ?_)
    rintro q left rhs js ⟨b, term, compiled⟩
    refine .andThen (follow_gives _ _) ?_
    rintro _ _ ⟨type, i⟩ _ ⟨judged, rfl, rfl⟩
    refine .after (.imp (additiveRest_gives env type _ (before.add compiled judged)) ?_)
    rintro _ ks _ ⟨e, rest, compiled'⟩
    refine ⟨e, ?_, ?_⟩
    · rw [kinds]
      exact .term isOp term rest
    · simpa using compiled'
termination_by 16 * s.left + 7
decreasing_by all_goals omega

theorem multiplicative_gives (env : Env) (s : Tokens) :
    (multiplicative env s).Gives fun type is r =>
      ∃ e, Reads env .product s.kinds e r.kinds ∧ e.Compiled env type is := by
  rw [multiplicative]
  refine .andThen (simple_gives env s) ?_
  rintro q left type is ⟨a, read, compiled⟩
  refine .imp (multiplicativeRest_gives env type q compiled) ?_
  rintro _ _ _ ⟨e, rest, compiled'⟩
  exact ⟨e, .product read rest, compiled'⟩
termination_by 16 * s.left + 6
decreasing_by all_goals omega

theorem multiplicativeRest_gives (env : Env) (lhs : ValueType) (s : Tokens) {a : Phrase}
    {is : List Instruction} (before : a.Compiled env lhs is) :
    (multiplicativeRest env lhs s).Gives fun type js r =>
      ∃ e, Reads env (.factors a) s.kinds e r.kinds ∧ e.Compiled env type (is ++ js) := by
  rw [multiplicativeRest]
  split
  · rename_i noOp
    refine .ok ⟨a, .noFactor (Tokens.leading?_kinds noOp), ?_⟩
    rwa [List.append_nil]
  · rename_i op p reaches shorter read
    obtain ⟨text, isOp, kinds⟩ := Tokens.kinds_of_operator? read
    refine .reached (.andThen (simple_gives env p) ?_)
    rintro q left rhs js ⟨b, factor, compiled⟩
    refine .andThen (follow_gives _ _) ?_
    rintro _ _ ⟨type, i⟩ _ ⟨judged, rfl, rfl⟩
    refine .after (.imp (multiplicativeRest_gives env type _ (before.multiply compiled judged)) ?_)
    rintro _ ks _ ⟨e, rest, compiled'⟩
    refine ⟨e, ?_, ?_⟩
    · rw [kinds]
      exact .factor isOp factor rest
    · simpa using compiled'
termination_by 16 * s.left + 5
decreasing_by all_goals omega

theorem simple_gives (env : Env) (s : Tokens) :
    (simple env s).Gives fun type is r =>
      ∃ e, Reads env .factor s.kinds e r.kinds ∧ e.Compiled env type is := by
  rw [simple]
  split
  · rename_i op p reaches shorter read
    obtain ⟨text, isOp, kinds⟩ := Tokens.kinds_of_operator? read
    refine .reached (.andThen (primary_gives env p) ?_)
    rintro _ - x is ⟨e, operand, loaded⟩
    refine .andThen (x.stepTarget_gives _) ?_
    rintro _ - slot _ ⟨place, rfl, rfl⟩
    obtain ⟨name, isVariable, known⟩ := loaded.ident? place
    refine .emit ⟨.stepBefore op e, ?_, loaded.typed, ?_⟩
    · rw [kinds]
      exact .stepBefore isOp operand
    · exact loaded.computed.stepBefore op isVariable known
  · rename_i noStep
    split
    · rename_i op p reaches shorter read
      obtain ⟨text, isOp, kinds⟩ := Tokens.kinds_of_operator? read
      have noStep : Additive.ofStep? text = none := by
        have := Tokens.leading?_kinds noStep
        rwa [kinds] at this
      refine .reached ?_
      split
      · rename_i isNeg
        refine .map (.imp (signed_gives env true p) ?_)
        rintro x is _ ⟨e, operand, loaded⟩
        refine ⟨.unary .neg e, ?_, loaded.toCompiled⟩
        rw [kinds]
        exact .unary noStep (isNeg ▸ isOp) operand
      · refine .andThen (primary_gives env p) ?_
        rintro _ - x is ⟨e, operand, loaded⟩
        refine .emit ⟨.unary op e, ?_, loaded.typed, loaded.computed.unary op⟩
        rw [kinds]
        exact .unary noStep isOp operand
    · rename_i noUnary
      have noStep := Tokens.leading?_kinds noStep
      have noUnary := Tokens.leading?_kinds noUnary
      refine .andThen (primary_gives env s) ?_
      rintro q - x is ⟨e, operand, loaded⟩
      split
      · rename_i ends
        refine .ok ⟨e, .plain noStep noUnary operand (Tokens.leading?_kinds ends), ?_⟩
        rw [List.append_nil]
        exact loaded.toCompiled
      · rename_i op p reaches shorter read
        obtain ⟨text, isOp, kinds⟩ := Tokens.kinds_of_operator? read
        refine .reached (.andThen (x.stepTarget_gives _) ?_)
        rintro _ - slot _ ⟨place, rfl, rfl⟩
        obtain ⟨name, isVariable, known⟩ := loaded.ident? place
        exact .emit ⟨.stepBehind e op, .stepBehind noStep noUnary (kinds ▸ operand) isOp,
          loaded.typed, loaded.computed.stepBehind op isVariable known⟩
termination_by 16 * s.left + 4
decreasing_by all_goals omega

theorem signed_gives (env : Env) (negative : Bool) (s : Tokens) :
    (signed env negative s).Gives fun x is r =>
      ∃ e, Reads env .primary s.kinds e r.kinds ∧ (Phrase.signed negative e).Loaded env x is := by
  rw [signed]
  split
  · rename_i type i tail read
    obtain ⟨⟨t, tail'⟩, next, isNumber⟩ := Option.bind_eq_some_iff.1 read
    obtain ⟨v, number, same⟩ := Option.map_eq_some_iff.1 isNumber
    cases same
    obtain ⟨l, m, kind, sign, same⟩ := Token.Kind.signedLiteral?_eq number
    cases same
    refine .reached (.emit ⟨.literal l, ?_, ?_⟩)
    · rw [(Tokens.passes_of_uncons? next).kinds_eq]
      exact .literal kind
    · have typed : (Phrase.signed negative (.literal l)).type? env = some l.type := by
        cases negative <;> rfl
      exact Compiled.loaded ⟨typed, .signedLiteral sign⟩ (by cases negative <;> rfl)
  · refine .andThen (primary_gives env s) ?_
    rintro _ - x is ⟨e, operand, loaded⟩
    split
    · rename_i isNegative
      subst isNegative
      exact .emit ⟨e, operand, (loaded.signed true).loaded rfl⟩
    · rename_i isPositive
      obtain rfl := Bool.eq_false_iff.2 isPositive
      refine .ok ⟨e, operand, ?_⟩
      rw [List.append_nil]
      exact ⟨⟨loaded.typed, loaded.computed.plus⟩, loaded.placed⟩
termination_by 16 * s.left + 3
decreasing_by all_goals omega

theorem primary_gives (env : Env) (s : Tokens) :
    (primary env s).Gives fun x is r =>
      ∃ e, Reads env .primary s.kinds e r.kinds ∧ e.Loaded env x is := by
  rw [primary]
  split
  · exact .fail _ _ _
  · rename_i t p reaches shorter read
    have kinds := (Tokens.passes_of_uncons? read).kinds_eq
    split
    · rename_i lead
      rw [Token.Kind.eq_of_parenthesis lead] at kinds
      refine .reached (.andThen (expression_gives env p) ?_)
      rintro q - type is ⟨e, inner, compiled⟩
      refine .andThen (expect_gives env ")" q) ?_
      rintro r - - _ ⟨rfl, closing⟩
      refine .ok ⟨.parens e, ?_, ?_⟩
      · rw [kinds]
        exact .parens rfl (closing ▸ inner) rfl
      · rw [List.append_nil, List.append_nil]
        exact Compiled.loaded ⟨compiled.typed, compiled.computed.parens⟩ rfl
    · refine .reached (.andThen (P := fun _ _ _ => True) (fun _ _ => trivial) ?_)
      intro _ _ _ _ _
      exact .fail _ _ _
    · rename_i negative lead
      rw [Token.Kind.eq_of_sign lead] at kinds
      refine .reached (.imp (signed_gives env negative p) ?_)
      rintro x is r ⟨e, operand, loaded⟩
      exact ⟨_, kinds ▸ .signed rfl operand, loaded⟩
    · rename_i name lead
      rw [Token.Kind.eq_of_name lead] at kinds
      rw [kinds]
      exact .reached (named_gives env name t.pos p)
    · split
      · rename_i type i isLiteral
        obtain ⟨l, kind, same⟩ := Token.Kind.literal?_eq isLiteral
        cases same
        refine .reached (.emit ⟨.literal l, ?_, Compiled.loaded ⟨rfl, .literal l⟩ rfl⟩)
        rw [kinds]
        exact .literal kind
      · exact .fail _ _ _
termination_by 16 * s.left + 2
decreasing_by all_goals omega

theorem named_gives (env : Env) (name : String) (pos : Position) (s : Tokens) :
    (named env name pos s).Gives fun x is r =>
      ∃ e, Reads env .primary (.ident name :: s.kinds) e r.kinds ∧ e.Loaded env x is := by
  rw [named]
  split
  · exact .fail _ _ _
  · exact .fail _ _ _
  · rename_i link signature meaning
    have known : env.function? name = some (link, signature) := by
      rw [Env.function?, meaning]
    split
    · exact .fail _ _ _
    · rename_i p reaches shorter read
      have kinds := (Tokens.passes_of_symbol? read).kinds_eq
      refine .reached ?_
      split
      · refine .andThen (expression_gives env p) ?_
        rintro q - given is ⟨e, argument, compiled⟩
        refine .andThen (follow_gives _ _) ?_
        rintro _ - _ _ ⟨-, rfl, rfl⟩
        refine .andThen (expect_gives env ")" _) ?_
        rintro r - _ _ ⟨rfl, closing⟩
        refine .emit ⟨.call name e, ?_, ?_⟩
        · rw [kinds]
          exact .call (by rw [known]; rfl) rfl (closing ▸ argument) rfl
        · exact Compiled.loaded ⟨by rw [type?, known]; rfl, compiled.computed.call known⟩ rfl
      · exact .fail _ _ _
  · rename_i type slot frame meaning
    split
    · exact .fail _ _ _
    · rename_i own
      have known : env.slot? name = some (type, slot) := by
        rw [Env.slot?, meaning]
        exact if_pos (not_not.1 own)
      split
      · rename_i noOp
        exact .emit ⟨.name name, .name (by rw [known]; rfl) (Tokens.leading?_kinds noOp),
          ⟨by rw [type?, known]; rfl, .name known⟩, by simp [Phrase.ident?, known]⟩
      · rename_i op p reaches shorter read
        obtain ⟨text, isOp, kinds⟩ := Tokens.kinds_of_operator? read
        refine .reached (.after (.andThen (expression_gives env p) ?_))
        rintro q - value is ⟨e, operand, compiled⟩
        refine .andThen (follow_gives _ _) ?_
        rintro _ - ⟨result, code⟩ _ ⟨judged, rfl, rfl⟩
        refine .after (.andThen (follow_gives _ _) ?_)
        rintro _ - _ _ ⟨-, rfl, rfl⟩
        refine .emit ⟨.assign name op e, ?_, ?_⟩
        · rw [kinds]
          exact .assign (by rw [known]; rfl) isOp operand
        · have computed := compiled.computed.assign known compiled.typed judged
          refine Compiled.loaded ⟨by rw [type?, known]; rfl, ?_⟩ rfl
          simpa using computed
termination_by 16 * s.left + 1
decreasing_by all_goals omega

end

/-! ## Execution -/

/-- Plain code is run through exactly if it gets stuck nowhere. -/
theorem ends_of_plain {V : Type} {I : Interpretation V} {code : List Instruction}
    (plain : ∀ i ∈ code, i.isPlain = true) {stack : List V} {σ : Store V} {f : Final V} :
    Ends I code ⟨0, stack, σ⟩ f ↔
      ∃ stack' σ', act? I code stack σ = some (stack', σ') ∧ f = ⟨false, stack', σ'⟩ := by
  have here : StandsAt code 0 code := List.prefix_refl code
  constructor
  · rintro ⟨n, ends⟩
    obtain ⟨m, stack', σ', -, acted, behind⟩ := (endsWithin_code plain here).1 ends
    rw [Nat.zero_add, endsWithin_length] at behind
    exact ⟨stack', σ', acted, behind⟩
  · rintro ⟨stack', σ', acted, rfl⟩
    refine ⟨0 + code.length, (endsWithin_code plain here).2 ⟨0, stack', σ', rfl, acted, ?_⟩⟩
    rw [Nat.zero_add]
    exact .finish 0 stack' σ'

/-- **The code of an expression computes it.** An expression that is translated without a failure is
read in one way only. Its code is added to the body, and for every meaning of the operators, every
stack and every store the machine runs through that code exactly if the phrase has a value. Then the
value lies on the old stack, and the store is that after the evaluation. -/
theorem expression_evaluates (env : Env) (s : Tokens) {type : ValueType}
    (translated : (expression env s).value = some type) :
    ∃ (e : Phrase) (code : List Instruction),
      (Reads env .expression s.kinds e (expression env s).rest.kinds ∧
        ∀ e' ls, Reads env .expression s.kinds e' ls → e' = e) ∧
      e.type? env = some type ∧
      (∀ d : Draft, d.replay (expression env s).events = d.extend { code := code }) ∧
      ∀ {V : Type} (I : Interpretation V), I.NegatesNumbers → ∀ (stack : List V) (σ : Store V),
        act? I code stack σ = (e.eval I env σ).map (fun (v, σ) => (v :: stack, σ)) ∧
        ∀ f, Ends I code ⟨0, stack, σ⟩ f ↔
          ∃ v σ', e.eval I env σ = some (v, σ') ∧ f = ⟨false, v :: stack, σ'⟩ := by
  obtain ⟨e, read, compiled⟩ := expression_gives env s type translated
  refine ⟨e, _, ⟨read, fun e' ls read' => (read.unique read').1⟩, compiled.typed,
    (expression_quiet env s).replay_instructions, ?_⟩
  intro V I lawful stack σ
  have acts := compiled.computed.acts I lawful stack σ
  refine ⟨acts, ?_⟩
  intro f
  rw [ends_of_plain compiled.computed.plain, acts]
  constructor
  · rintro ⟨stack', σ', ended, rfl⟩
    obtain ⟨⟨v, σ₁⟩, value, same⟩ := Option.map_eq_some_iff.1 ended
    cases same
    exact ⟨v, _, value, rfl⟩
  · rintro ⟨v, σ', value, rfl⟩
    exact ⟨_, σ', by rw [value]; rfl, rfl⟩

/-- Literals as values: integers are added, and numbers negated. -/
def literalValues : Interpretation Literal where
  literal := id
  unary
    | .neg, .int n => some (.int (-n))
    | .neg, .double d => some (.double (-d))
    | _, _ => none
  binary
    | .additive .add, .int m, .int n => some (.int (m + n))
    | _, _, _ => none
  call _ _ := none
  isFalse v := v = .bool false

/-- Surroundings with one variable. -/
def oneVariable : Env where
  scopes := { base := [⟨"x", .localVar .int 0 0, none⟩] }

/-- The tokens of `x++ + x;`. -/
def steppedOnce : Tokens where
  front := [⟨.ident "x", ⟨1, 1⟩⟩, ⟨.symbol "++", ⟨1, 2⟩⟩, ⟨.symbol "+", ⟨1, 5⟩⟩,
    ⟨.ident "x", ⟨1, 7⟩⟩, ⟨.symbol ";", ⟨1, 8⟩⟩]
  final := ⟨1, 9⟩

/-- From a store with 5 in `x` the code of `x++ + x` leaves 5 + 6, and 6 in `x`. -/
theorem expression_evaluates_steppedOnce :
    (expression oneVariable steppedOnce).value = some .int ∧ literalValues.NegatesNumbers ∧
    ∃ code, (∀ d : Draft,
        d.replay (expression oneVariable steppedOnce).events = d.extend { code := code }) ∧
      Ends literalValues code ⟨0, [], fun _ => .int 5⟩
        ⟨false, [.int 11], Store.set (fun _ => .int 5) 0 (.int 6)⟩ := by
  have translated : (expression oneVariable steppedOnce).value = some .int := by decide +kernel
  have lawful : literalValues.NegatesNumbers := ⟨fun _ => rfl, fun _ => rfl⟩
  have name {ks : List Token.Kind} (ends : leading? Assignment.ofSymbol? ks = none) :
      Reads oneVariable .primary (.ident "x" :: ks) (.name "x") ks := .name rfl ends
  have term : Reads oneVariable .product [.ident "x", .symbol ";"] (.name "x") [.symbol ";"] :=
    .product (.plain rfl rfl (name rfl) rfl) (.noFactor rfl)
  have whole : Reads oneVariable .expression steppedOnce.kinds
      (.add (.stepBehind (.name "x") .add) .add (.name "x")) [.symbol ";"] :=
    .single (.sum (by decide) (.product (.stepBehind rfl rfl (name rfl) rfl) (.noFactor rfl))
      (.term rfl term (.noTerm rfl))) rfl
  obtain ⟨e, code, ⟨-, only⟩, -, added, runs⟩ :=
    expression_evaluates oneVariable steppedOnce translated
  obtain rfl := only _ _ whole
  exact ⟨translated, lawful, code, added,
    ((runs literalValues lawful [] fun _ => .int 5).2 _).2 ⟨_, _, rfl, rfl⟩⟩

end OnePass
