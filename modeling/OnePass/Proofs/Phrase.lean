import OnePass.Production.Expression
import OnePass.Proofs.Semantics
import OnePass.Proofs.Stream

/-!
# Phrases

Expressions as they are written, with names instead of slots: what a list of tokens says at some
place of a program, and what it means there.

`Reads` is the grammar. Comparisons bind least, then the operators of sums, those of products, and
the operators before and behind an operand; the operators of sums and products associate to the
left. Each part takes as much as it can. A sign in front of a sum belongs to its first product, one
in front of an operand to that operand. A list of tokens is read in one way only (`Reads.unique`).

A phrase is evaluated from left to right, and every operand is. An assignment yields what it stores,
a compound one takes the old value of its variable before it evaluates its right-hand side, a step
in front yields the new value, and a step behind the old one.
-/

namespace OnePass

/-- An expression as it is written. -/
inductive Phrase where
  | literal (l : Literal)
  | name (x : String)
  | assign (x : String) (op : Assignment) (value : Phrase)
  | call (f : String) (argument : Phrase)
  | parens (e : Phrase)
  | plus (e : Phrase)
  | unary (op : Unary) (e : Phrase)
  | stepBefore (op : Additive) (e : Phrase)
  | stepBehind (e : Phrase) (op : Additive)
  | multiply (lhs : Phrase) (op : Multiplicative) (rhs : Phrase)
  | add (lhs : Phrase) (op : Additive) (rhs : Phrase)
  | compare (lhs : Phrase) (op : Comparison) (rhs : Phrase)

def Phrase.signed (negative : Bool) (e : Phrase) : Phrase :=
  if negative then .unary .neg e else .plus e

/-! ## Names -/

/-- The type and the slot of a variable of the innermost function. -/
def Env.slot? (env : Env) (x : String) : Option (ValueType × Nat) :=
  match (env.scopes.find? x).map Symbol.meaning with
  | some (.localVar type slot frame) => if frame = env.frame then some (type, slot) else none
  | _ => none

def Env.function? (env : Env) (f : String) : Option (String × Signature) :=
  match (env.scopes.find? f).map Symbol.meaning with
  | some (.function link signature) => some (link, signature)
  | _ => none

/-- A variable is no function. -/
theorem Env.function?_of_slot? {env : Env} {x : String} (h : (env.slot? x).isSome) :
    env.function? x = none := by
  unfold Env.slot? at h
  unfold Env.function?
  split at h
  · rename_i meaning
    rw [meaning]
  · cases h

/-! ## Reading -/

def leading? {α : Type} (classify : String → Option α) : List Token.Kind → Option α
  | [] => none
  | k :: _ => k.operator? classify

/-- The parts of an expression. The rest of a sum or of a product comes behind what was read of it
`before`. -/
inductive Part where
  | expression
  | sum
  | terms (before : Phrase)
  | product
  | factors (before : Phrase)
  | factor
  | primary

/-- A list of tokens begins with a part of an expression that says `e`, and goes on with the second
list. -/
inductive Reads (env : Env) : Part → List Token.Kind → Phrase → List Token.Kind → Prop
  | compare {ks ls ms : List Token.Kind} {l r : Phrase} {text : String} {op : Comparison}
    (lhs : Reads env .sum ks l (.symbol text :: ls)) (isOp : Comparison.ofSymbol? text = some op)
    (rhs : Reads env .sum ls r ms) : Reads env .expression ks (.compare l op r) ms
  | single {ks ls : List Token.Kind} {e : Phrase} (sum : Reads env .sum ks e ls)
    (ends : leading? Comparison.ofSymbol? ls = none) : Reads env .expression ks e ls
  | signedSum {ks ls ms : List Token.Kind} {a e : Phrase} {text : String} {negative : Bool}
    (isSign : text = signSymbol negative) (first : Reads env .product ks a ls)
    (rest : Reads env (.terms (.signed negative a)) ls e ms) :
    Reads env .sum (.symbol text :: ks) e ms
  | sum {ks ls ms : List Token.Kind} {a e : Phrase}
    (noSign : ∀ negative, ks.head? ≠ some (.symbol (signSymbol negative)))
    (first : Reads env .product ks a ls) (rest : Reads env (.terms a) ls e ms) :
    Reads env .sum ks e ms
  | term {ks ls ms : List Token.Kind} {a b e : Phrase} {text : String} {op : Additive}
    (isOp : Additive.ofSymbol? text = some op) (term : Reads env .product ks b ls)
    (rest : Reads env (.terms (.add a op b)) ls e ms) :
    Reads env (.terms a) (.symbol text :: ks) e ms
  | noTerm {ks : List Token.Kind} {a : Phrase} (ends : leading? Additive.ofSymbol? ks = none) :
    Reads env (.terms a) ks a ks
  | product {ks ls ms : List Token.Kind} {a e : Phrase} (first : Reads env .factor ks a ls)
    (rest : Reads env (.factors a) ls e ms) : Reads env .product ks e ms
  | factor {ks ls ms : List Token.Kind} {a b e : Phrase} {text : String} {op : Multiplicative}
    (isOp : Multiplicative.ofSymbol? text = some op) (factor : Reads env .factor ks b ls)
    (rest : Reads env (.factors (.multiply a op b)) ls e ms) :
    Reads env (.factors a) (.symbol text :: ks) e ms
  | noFactor {ks : List Token.Kind} {a : Phrase}
    (ends : leading? Multiplicative.ofSymbol? ks = none) : Reads env (.factors a) ks a ks
  | stepBefore {ks ls : List Token.Kind} {p : Phrase} {text : String} {op : Additive}
    (isOp : Additive.ofStep? text = some op) (operand : Reads env .primary ks p ls) :
    Reads env .factor (.symbol text :: ks) (.stepBefore op p) ls
  | unary {ks ls : List Token.Kind} {p : Phrase} {text : String} {op : Unary}
    (noStep : Additive.ofStep? text = none) (isOp : Unary.ofSymbol? text = some op)
    (operand : Reads env .primary ks p ls) :
    Reads env .factor (.symbol text :: ks) (.unary op p) ls
  | stepBehind {ks ls : List Token.Kind} {p : Phrase} {text : String} {op : Additive}
    (noStep : leading? Additive.ofStep? ks = none) (noUnary : leading? Unary.ofSymbol? ks = none)
    (operand : Reads env .primary ks p (.symbol text :: ls))
    (isOp : Additive.ofStep? text = some op) : Reads env .factor ks (.stepBehind p op) ls
  | plain {ks ls : List Token.Kind} {p : Phrase} (noStep : leading? Additive.ofStep? ks = none)
    (noUnary : leading? Unary.ofSymbol? ks = none) (operand : Reads env .primary ks p ls)
    (ends : leading? Additive.ofStep? ls = none) : Reads env .factor ks p ls
  | literal {ks : List Token.Kind} {k : Token.Kind} {l : Literal} (isLiteral : k = l.kind) :
    Reads env .primary (k :: ks) (.literal l) ks
  | parens {ks ls : List Token.Kind} {e : Phrase} {opening closing : String}
    (opens : opening = "(") (inner : Reads env .expression ks e (.symbol closing :: ls))
    (closes : closing = ")") : Reads env .primary (.symbol opening :: ks) (.parens e) ls
  | signed {ks ls : List Token.Kind} {p : Phrase} {text : String} {negative : Bool}
    (isSign : text = signSymbol negative) (operand : Reads env .primary ks p ls) :
    Reads env .primary (.symbol text :: ks) (.signed negative p) ls
  | name {ks : List Token.Kind} {x : String} (isVariable : (env.slot? x).isSome)
    (ends : leading? Assignment.ofSymbol? ks = none) :
    Reads env .primary (.ident x :: ks) (.name x) ks
  | assign {ks ls : List Token.Kind} {x text : String} {op : Assignment} {e : Phrase}
    (isVariable : (env.slot? x).isSome) (isOp : Assignment.ofSymbol? text = some op)
    (value : Reads env .expression ks e ls) :
    Reads env .primary (.ident x :: .symbol text :: ks) (.assign x op e) ls
  | call {ks ls : List Token.Kind} {f opening closing : String} {e : Phrase}
    (isFunction : (env.function? f).isSome) (opens : opening = "(")
    (argument : Reads env .expression ks e (.symbol closing :: ls)) (closes : closing = ")") :
    Reads env .primary (.ident f :: .symbol opening :: ks) (.call f e) ls

theorem signSymbol_inj {m n : Bool} (h : signSymbol m = signSymbol n) : m = n := by
  revert m n
  decide

/-- Different literals have different tokens. -/
theorem Literal.kind_inj {l m : Literal} (h : l.kind = m.kind) : l = m := by
  cases l <;> cases m <;> simp_all [Literal.kind]

theorem Literal.kind_ne_symbol (l : Literal) (text : String) : l.kind ≠ .symbol text := by
  cases l <;> simp [Literal.kind]

theorem Literal.kind_ne_ident (l : Literal) (x : String) : l.kind ≠ .ident x := by
  cases l <;> simp [Literal.kind]

theorem signSymbol_ne_parenthesis (negative : Bool) : signSymbol negative ≠ "(" := by
  revert negative
  decide

/-- **Tokens are read in one way only.** -/
theorem Reads.unique {env : Env} {part : Part} {ks ls ls' : List Token.Kind} {e e' : Phrase}
    (h : Reads env part ks e ls) (h' : Reads env part ks e' ls') : e' = e ∧ ls' = ls := by
  induction h generalizing e' ls' with
  | compare lhs isOp rhs ihl ihr =>
    cases h' with
    | compare lhs' isOp' rhs' =>
      obtain ⟨rfl, same⟩ := ihl lhs'
      cases same
      obtain ⟨rfl, rfl⟩ := ihr rhs'
      cases isOp.symm.trans isOp'
      exact ⟨rfl, rfl⟩
    | single sum' ends' =>
      obtain ⟨-, rfl⟩ := ihl sum'
      cases ends'.symm.trans isOp
  | single sum ends ih =>
    cases h' with
    | compare lhs' isOp' rhs' =>
      obtain ⟨-, rfl⟩ := ih lhs'
      cases ends.symm.trans isOp'
    | single sum' ends' => exact ih sum'
  | signedSum isSign first rest ihf ihr =>
    cases h' with
    | signedSum isSign' first' rest' =>
      obtain rfl := signSymbol_inj (isSign.symm.trans isSign')
      obtain ⟨rfl, rfl⟩ := ihf first'
      exact ihr rest'
    | sum noSign' => exact absurd (by rw [isSign]; rfl) (noSign' _)
  | sum noSign first rest ihf ihr =>
    cases h' with
    | signedSum isSign' => exact absurd (by rw [isSign']; rfl) (noSign _)
    | sum noSign' first' rest' =>
      obtain ⟨rfl, rfl⟩ := ihf first'
      exact ihr rest'
  | term isOp term rest iht ihr =>
    cases h' with
    | term isOp' term' rest' =>
      cases isOp.symm.trans isOp'
      obtain ⟨rfl, rfl⟩ := iht term'
      exact ihr rest'
    | noTerm ends' => cases ends'.symm.trans isOp
  | noTerm ends =>
    cases h' with
    | term isOp' => cases ends.symm.trans isOp'
    | noTerm => exact ⟨rfl, rfl⟩
  | product first rest ihf ihr =>
    cases h' with
    | product first' rest' =>
      obtain ⟨rfl, rfl⟩ := ihf first'
      exact ihr rest'
  | factor isOp factor rest ihf ihr =>
    cases h' with
    | factor isOp' factor' rest' =>
      cases isOp.symm.trans isOp'
      obtain ⟨rfl, rfl⟩ := ihf factor'
      exact ihr rest'
    | noFactor ends' => cases ends'.symm.trans isOp
  | noFactor ends =>
    cases h' with
    | factor isOp' => cases ends.symm.trans isOp'
    | noFactor => exact ⟨rfl, rfl⟩
  | stepBefore isOp operand ih =>
    cases h' with
    | stepBefore isOp' operand' =>
      cases isOp.symm.trans isOp'
      obtain ⟨rfl, rfl⟩ := ih operand'
      exact ⟨rfl, rfl⟩
    | unary noStep' => cases noStep'.symm.trans isOp
    | stepBehind noStep' => cases noStep'.symm.trans isOp
    | plain noStep' => cases noStep'.symm.trans isOp
  | unary noStep isOp operand ih =>
    cases h' with
    | stepBefore isOp' => cases noStep.symm.trans isOp'
    | unary noStep' isOp' operand' =>
      cases isOp.symm.trans isOp'
      obtain ⟨rfl, rfl⟩ := ih operand'
      exact ⟨rfl, rfl⟩
    | stepBehind _ noUnary' => cases noUnary'.symm.trans isOp
    | plain _ noUnary' => cases noUnary'.symm.trans isOp
  | stepBehind noStep noUnary operand isOp ih =>
    cases h' with
    | stepBefore isOp' => cases noStep.symm.trans isOp'
    | unary _ isOp' => cases noUnary.symm.trans isOp'
    | stepBehind _ _ operand' isOp' =>
      obtain ⟨rfl, same⟩ := ih operand'
      cases same
      cases isOp.symm.trans isOp'
      exact ⟨rfl, rfl⟩
    | plain _ _ operand' ends' =>
      obtain ⟨-, rfl⟩ := ih operand'
      cases ends'.symm.trans isOp
  | plain noStep noUnary operand ends ih =>
    cases h' with
    | stepBefore isOp' => cases noStep.symm.trans isOp'
    | unary _ isOp' => cases noUnary.symm.trans isOp'
    | stepBehind _ _ operand' isOp' =>
      obtain ⟨-, rfl⟩ := ih operand'
      cases ends.symm.trans isOp'
    | plain _ _ operand' => exact ih operand'
  | literal isLiteral =>
    cases h' with
    | literal isLiteral' =>
      obtain rfl := Literal.kind_inj (isLiteral.symm.trans isLiteral')
      exact ⟨rfl, rfl⟩
    | parens => exact absurd isLiteral.symm (Literal.kind_ne_symbol _ _)
    | signed => exact absurd isLiteral.symm (Literal.kind_ne_symbol _ _)
    | name => exact absurd isLiteral.symm (Literal.kind_ne_ident _ _)
    | assign => exact absurd isLiteral.symm (Literal.kind_ne_ident _ _)
    | call => exact absurd isLiteral.symm (Literal.kind_ne_ident _ _)
  | parens opens inner closes ih =>
    cases h' with
    | literal isLiteral' => exact absurd isLiteral'.symm (Literal.kind_ne_symbol _ _)
    | parens _ inner' _ =>
      obtain ⟨rfl, same⟩ := ih inner'
      cases same
      exact ⟨rfl, rfl⟩
    | signed isSign' => exact absurd (isSign'.symm.trans opens) (signSymbol_ne_parenthesis _)
  | signed isSign operand ih =>
    cases h' with
    | literal isLiteral' => exact absurd isLiteral'.symm (Literal.kind_ne_symbol _ _)
    | parens opens' => exact absurd (isSign.symm.trans opens') (signSymbol_ne_parenthesis _)
    | signed isSign' operand' =>
      obtain rfl := signSymbol_inj (isSign.symm.trans isSign')
      obtain ⟨rfl, rfl⟩ := ih operand'
      exact ⟨rfl, rfl⟩
  | name isVariable ends =>
    cases h' with
    | literal isLiteral' => exact absurd isLiteral'.symm (Literal.kind_ne_ident _ _)
    | name => exact ⟨rfl, rfl⟩
    | assign _ isOp' => cases ends.symm.trans isOp'
    | call isFunction' =>
      rw [Env.function?_of_slot? isVariable] at isFunction'
      cases isFunction'
  | assign isVariable isOp value ih =>
    cases h' with
    | literal isLiteral' => exact absurd isLiteral'.symm (Literal.kind_ne_ident _ _)
    | name _ ends' => cases ends'.symm.trans isOp
    | assign _ isOp' value' =>
      cases isOp.symm.trans isOp'
      obtain ⟨rfl, rfl⟩ := ih value'
      exact ⟨rfl, rfl⟩
    | call isFunction' =>
      rw [Env.function?_of_slot? isVariable] at isFunction'
      cases isFunction'
  | call isFunction opens argument closes ih =>
    cases h' with
    | literal isLiteral' => exact absurd isLiteral'.symm (Literal.kind_ne_ident _ _)
    | name isVariable' =>
      rw [Env.function?_of_slot? isVariable'] at isFunction
      cases isFunction
    | assign isVariable' =>
      rw [Env.function?_of_slot? isVariable'] at isFunction
      cases isFunction
    | call _ _ argument' _ =>
      obtain ⟨rfl, same⟩ := ih argument'
      cases same
      exact ⟨rfl, rfl⟩

/-! ## Meaning -/

namespace Phrase

/-- The type of a phrase, as far as its operators and names have one. -/
def type? (env : Env) : Phrase → Option ValueType
  | literal l => some l.type
  | name x | assign x _ _ => (env.slot? x).map Prod.fst
  | call f _ => (env.function? f).map fun (_, signature) => signature.ret
  | parens e | plus e | unary _ e | stepBefore _ e | stepBehind e _ => e.type? env
  | multiply l op r => (l.type? env).bind fun a => (r.type? env).bind fun b =>
      (op.result? a b).map Prod.fst
  | add l op r => (l.type? env).bind fun a => (r.type? env).bind fun b =>
      (op.result? a b).map Prod.fst
  | compare _ _ _ => some .bool

/-- The variable that a phrase is. A plus sign does not change that. -/
def ident? : Phrase → Option String
  | name x => some x
  | plus e => e.ident?
  | _ => none

/-- What an additive operator does with operands of the given types: with a string, `+` joins. -/
def addition (op : Additive) (lhs rhs : Option ValueType) : Binary :=
  if op = .add ∧ (lhs = some .string ∨ rhs = some .string) then .concat else .additive op

section Meaning

variable {V : Type} (I : Interpretation V) (env : Env)

/-- A variable is stepped by one. The new value is in the store; it comes with the old one. -/
def step (op : Additive) (e : Phrase) (σ : Store V) : Option (V × V × Store V) :=
  (e.ident?.bind env.slot?).bind fun (type, slot) =>
    (I.binary (.additive op) (σ slot) (I.literal type.one)).map fun v =>
      (σ slot, v, σ.set slot v)

/-- The value of a phrase and the store after it, if it has one. -/
def eval : Phrase → Store V → Option (V × Store V)
  | literal l, σ => some (I.literal l, σ)
  | name x, σ => (env.slot? x).map fun (_, slot) => (σ slot, σ)
  | assign x op value, σ => (env.slot? x).bind fun (type, slot) =>
    -- The old value is that before the right-hand side is evaluated.
    let old := σ slot
    (value.eval σ).bind fun (v, σ) =>
      (match op with
        | .plain => some v
        | .additive op => I.binary (addition op (some type) (value.type? env)) old v
        | .multiplicative op => I.binary (.multiplicative op) old v).map
      fun v => (v, σ.set slot v)
  | call f argument, σ => (env.function? f).bind fun (link, _) =>
    (argument.eval σ).bind fun (v, σ) => (I.call link v).map fun r => (r, σ)
  | parens e, σ => e.eval σ
  | plus e, σ => e.eval σ
  | unary op e, σ => (e.eval σ).bind fun (v, σ) => (I.unary op v).map fun r => (r, σ)
  | stepBefore op e, σ => (step I env op e σ).map fun (_, new, σ) => (new, σ)
  | stepBehind e op, σ => (step I env op e σ).map fun (old, _, σ) => (old, σ)
  | multiply l op r, σ => (l.eval σ).bind fun (a, σ) => (r.eval σ).bind fun (b, σ) =>
    (I.binary (.multiplicative op) a b).map fun v => (v, σ)
  | add l op r, σ => (l.eval σ).bind fun (a, σ) => (r.eval σ).bind fun (b, σ) =>
    (I.binary (addition op (l.type? env) (r.type? env)) a b).map fun v => (v, σ)
  | compare l op r, σ => (l.eval σ).bind fun (a, σ) => (r.eval σ).bind fun (b, σ) =>
    (I.binary (.compare op) a b).map fun v => (v, σ)

end Meaning

end Phrase

/-- A minus in front of a number is the number with its sign changed: for an `int` the two's
complement, for a `double` the other sign. -/
structure Interpretation.NegatesNumbers {V : Type} (I : Interpretation V) : Prop where
  int : ∀ n, I.unary .neg (I.literal (.int n)) = some (I.literal (.int (-n)))
  double : ∀ d, I.unary .neg (I.literal (.double d)) = some (I.literal (.double (-d)))

end OnePass
