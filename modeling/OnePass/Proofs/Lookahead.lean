import OnePass.Production.Expression
import OnePass.Proofs.Resolution
import OnePass.Proofs.Stream

/-!
# Lookahead

What one token of foresight decides. Behind an operand: the five families of symbols that can stand
there have different strengths, so a strength tells which reading of a symbol succeeds. A kind of
token *follows* a part of an expression with some limit if its strength is no more than the limit
and it is no opening parenthesis. Before an operand: the first token of a tree tells how the tree
begins.
-/

namespace OnePass

/-! ## Spelling -/

namespace Comparison

@[simp] theorem ofSymbol?_symbol (op : Comparison) : ofSymbol? op.symbol = some op := by
  cases op <;> rfl

theorem eq_symbol {text : String} {op : Comparison} (h : ofSymbol? text = some op) :
    text = op.symbol := by
  unfold ofSymbol? at h
  have same := List.find?_some h
  exact (of_decide_eq_true same).symm

end Comparison

namespace Additive

@[simp] theorem ofSymbol?_symbol (op : Additive) : ofSymbol? op.symbol = some op := by
  cases op <;> rfl

theorem eq_symbol {text : String} {op : Additive} (h : ofSymbol? text = some op) :
    text = op.symbol := by
  unfold ofSymbol? at h
  have same := List.find?_some h
  exact (of_decide_eq_true same).symm

end Additive

namespace Multiplicative

@[simp] theorem ofSymbol?_symbol (op : Multiplicative) : ofSymbol? op.symbol = some op := by
  cases op <;> rfl

theorem eq_symbol {text : String} {op : Multiplicative} (h : ofSymbol? text = some op) :
    text = op.symbol := by
  unfold ofSymbol? at h
  have same := List.find?_some h
  exact (of_decide_eq_true same).symm

end Multiplicative

namespace Unary

@[simp] theorem ofSymbol?_symbol (op : Unary) : ofSymbol? op.symbol = some op := by
  cases op <;> rfl

theorem eq_symbol {text : String} {op : Unary} (h : ofSymbol? text = some op) :
    text = op.symbol := by
  unfold ofSymbol? at h
  have same := List.find?_some h
  exact (of_decide_eq_true same).symm

end Unary

namespace Step

@[simp] theorem ofStep?_symbol (step : Step) : Additive.ofStep? step.symbol = some step.op := by
  cases step <;> rfl

theorem eq_symbol {text : String} {op : Additive} (h : Additive.ofStep? text = some op) :
    ∃ step : Step, text = step.symbol ∧ op = step.op := by
  unfold Additive.ofStep? at h
  split at h
  · cases h
    exact ⟨up, ‹_›, rfl⟩
  · split at h
    · cases h
      exact ⟨down, ‹_›, rfl⟩
    · cases h

end Step

namespace AssignSymbol

/-- The assignment that a symbol stands for. -/
def assignment : AssignSymbol → Assignment
  | set => .plain
  | add => .additive .add
  | sub => .additive .sub
  | mul => .multiplicative .mul
  | div => .multiplicative .div
  | rem => .multiplicative .rem

@[simp] theorem ofSymbol?_symbol (op : AssignSymbol) :
    Assignment.ofSymbol? op.symbol = some op.assignment := by
  cases op <;> rfl

theorem eq_symbol {text : String} {a : Assignment} (h : Assignment.ofSymbol? text = some a) :
    ∃ op : AssignSymbol, text = op.symbol ∧ a = op.assignment := by
  unfold Assignment.ofSymbol? at h
  repeat' split at h
  all_goals cases h
  · exact ⟨set, ‹_›, rfl⟩
  · exact ⟨add, ‹_›, rfl⟩
  · exact ⟨sub, ‹_›, rfl⟩
  · exact ⟨mul, ‹_›, rfl⟩
  · exact ⟨div, ‹_›, rfl⟩
  · exact ⟨rem, ‹_›, rfl⟩

end AssignSymbol

/-! ## Strength -/

namespace Token.Kind

/-- Only symbols are read as operators. -/
theorem exists_symbol_of_operator? {α : Type} {classify : String → Option α} {k : Token.Kind}
    {op : α} (h : k.operator? classify = some op) :
    ∃ text, k = .symbol text ∧ classify text = some op := by
  cases k with
  | symbol text => exact ⟨text, rfl, h⟩
  | _ => cases h

variable {k : Token.Kind}

theorem strength_comparison {op : Comparison} (h : k.operator? Comparison.ofSymbol? = some op) :
    k.strength = 1 := by
  obtain ⟨text, rfl, h⟩ := exists_symbol_of_operator? h
  rw [Comparison.eq_symbol h]
  cases op <;> rfl

theorem strength_additive {op : Additive} (h : k.operator? Additive.ofSymbol? = some op) :
    k.strength = 2 := by
  obtain ⟨text, rfl, h⟩ := exists_symbol_of_operator? h
  rw [Additive.eq_symbol h]
  cases op <;> rfl

theorem strength_multiplicative {op : Multiplicative}
    (h : k.operator? Multiplicative.ofSymbol? = some op) : k.strength = 3 := by
  obtain ⟨text, rfl, h⟩ := exists_symbol_of_operator? h
  rw [Multiplicative.eq_symbol h]
  cases op <;> rfl

theorem strength_step {op : Additive} (h : k.operator? Additive.ofStep? = some op) :
    k.strength = 4 := by
  obtain ⟨text, rfl, h⟩ := exists_symbol_of_operator? h
  obtain ⟨step, rfl, -⟩ := Step.eq_symbol h
  cases step <;> rfl

theorem strength_assignment {op : Assignment} (h : k.operator? Assignment.ofSymbol? = some op) :
    k.strength = 5 := by
  obtain ⟨text, rfl, h⟩ := exists_symbol_of_operator? h
  obtain ⟨op, rfl, -⟩ := AssignSymbol.eq_symbol h
  cases op <;> rfl

/-- No operator is stronger than an assignment. -/
theorem strength_le (k : Token.Kind) : k.strength ≤ 5 := by
  unfold strength
  repeat' split
  all_goals omega

/-- The token may stand behind a part of an expression with the limit `n`. -/
def Follows (k : Token.Kind) (n : Nat) : Prop := k.strength ≤ n ∧ k ≠ .symbol "("

instance (k : Token.Kind) (n : Nat) : Decidable (k.Follows n) :=
  inferInstanceAs (Decidable (_ ∧ _))

theorem Follows.mono {m n : Nat} (h : k.Follows m) (le : m ≤ n) : k.Follows n :=
  ⟨Nat.le_trans h.1 le, h.2⟩

theorem follows_comparison (op : Comparison) : (symbol op.symbol).Follows 1 := by
  cases op <;> decide

theorem follows_additive (op : Additive) : (symbol op.symbol).Follows 2 := by
  cases op <;> decide

theorem follows_multiplicative (op : Multiplicative) : (symbol op.symbol).Follows 3 := by
  cases op <;> decide

theorem follows_step (step : Step) : (symbol step.symbol).Follows 4 := by
  cases step <;> decide

/-- A closing parenthesis may follow every phrase. -/
theorem follows_closing (n : Nat) : (symbol ")").Follows n :=
  (show (symbol ")").Follows 0 by decide).mono (Nat.zero_le n)

theorem follows_semicolon (n : Nat) : (symbol ";").Follows n :=
  (show (symbol ";").Follows 0 by decide).mono (Nat.zero_le n)

/-- A primary that is led by a name begins with that name. -/
theorem eq_of_name {name : String} (h : k.primaryLead = .name name) : k = .ident name := by
  cases k with
  | ident name' =>
    cases h
    rfl
  | symbol text =>
    simp only [primaryLead] at h
    repeat' split at h
    all_goals cases h
  | _ => cases h

theorem eq_of_parenthesis (h : k.primaryLead = .parenthesis) : k = .symbol "(" := by
  cases k with
  | symbol text =>
    simp only [primaryLead] at h
    repeat' split at h
    · rename_i same
      rw [same]
    all_goals cases h
  | _ => cases h

theorem eq_of_sign {negative : Bool} (h : k.primaryLead = .sign negative) :
    k = .symbol (signSymbol negative) := by
  cases k with
  | symbol text =>
    simp only [primaryLead] at h
    repeat' split at h
    all_goals cases h
    · rename_i same
      rw [same]
      rfl
    · rename_i same
      rw [same]
      rfl
  | _ => cases h

end Token.Kind

/-! ## Readings that fail -/

namespace Tokens

variable {s : Tokens}

/-- No operator of a class is read if all of them are stronger than the token at hand. -/
theorem no_operator {α : Type} {classify : String → Option α} {n : Nat}
    (strength : ∀ op, s.current.kind.operator? classify = some op → n < s.current.kind.strength)
    (h : s.current.kind.strength ≤ n) : s.operator? classify = none := by
  rw [operator?_eq_none_iff]
  cases reading : s.current.kind.operator? classify with
  | none => rfl
  | some op => exact absurd h (Nat.not_le.2 (strength op reading))

theorem no_comparison (h : s.current.kind.strength ≤ 0) :
    s.operator? Comparison.ofSymbol? = none :=
  no_operator (fun _ h => by rw [Token.Kind.strength_comparison h]; decide) h

theorem no_additive (h : s.current.kind.strength ≤ 1) : s.operator? Additive.ofSymbol? = none :=
  no_operator (fun _ h => by rw [Token.Kind.strength_additive h]; decide) h

theorem no_multiplicative (h : s.current.kind.strength ≤ 2) :
    s.operator? Multiplicative.ofSymbol? = none :=
  no_operator (fun _ h => by rw [Token.Kind.strength_multiplicative h]; decide) h

theorem no_step (h : s.current.kind.strength ≤ 3) : s.operator? Additive.ofStep? = none :=
  no_operator (fun _ h => by rw [Token.Kind.strength_step h]; decide) h

theorem no_assignment (h : s.current.kind.strength ≤ 4) :
    s.operator? Assignment.ofSymbol? = none :=
  no_operator (fun _ h => by rw [Token.Kind.strength_assignment h]; decide) h

end Tokens

/-! ## First tokens -/

namespace Tree

/-- The first token of an operand. -/
def Primary.head : Primary → Token.Kind
  | .literal l => l.kind
  | .name x => .ident x.text
  | .assign x _ _ => .ident x.text
  | .call f _ => .ident f.text
  | .signed negative _ => .symbol (signSymbol negative)
  | .parens _ => .symbol "("

/-- The first token of a factor. -/
def Factor.head : Factor → Token.Kind
  | .stepBefore step _ => .symbol step.symbol
  | .unary op _ => .symbol op.symbol
  | .plain p => p.head
  | .stepBehind p _ => p.head

def Product.head : Product → Token.Kind
  | .mk first _ => first.head

def Sum.head : Sum → Token.Kind
  | .mk none first _ => first.head
  | .mk (some negative) _ _ => .symbol (signSymbol negative)

def Expression.head : Expression → Token.Kind
  | .sum a => a.head
  | .compare lhs _ _ => lhs.head

/-- Every phrase begins with its head. -/
theorem Primary.tokens_eq (p : Primary) : ∃ ks, p.tokens = p.head :: ks := by
  cases p <;> exact ⟨_, rfl⟩

theorem Factor.tokens_eq (f : Factor) : ∃ ks, f.tokens = f.head :: ks := by
  cases f with
  | stepBefore step p => exact ⟨_, rfl⟩
  | unary op p => exact ⟨_, rfl⟩
  | plain p => exact p.tokens_eq
  | stepBehind p step =>
    obtain ⟨ks, e⟩ := p.tokens_eq
    exact ⟨ks ++ [.symbol step.symbol], by rw [Factor.tokens, e]; rfl⟩

theorem Product.tokens_eq (p : Product) : ∃ ks, p.tokens = p.head :: ks := by
  obtain ⟨first, rest⟩ := p
  obtain ⟨ks, e⟩ := first.tokens_eq
  exact ⟨ks ++ rest.tokens, by rw [Product.tokens, e]; rfl⟩

theorem Sum.tokens_eq (a : Sum) : ∃ ks, a.tokens = a.head :: ks := by
  obtain ⟨negative, first, rest⟩ := a
  cases negative with
  | none =>
    obtain ⟨ks, e⟩ := first.tokens_eq
    exact ⟨ks ++ rest.tokens, by rw [Sum.tokens, e]; rfl⟩
  | some negative => exact ⟨_, rfl⟩

theorem Expression.tokens_eq (e : Expression) : ∃ ks, e.tokens = e.head :: ks := by
  cases e with
  | sum a => exact a.tokens_eq
  | compare lhs op rhs =>
    obtain ⟨ks, e⟩ := lhs.tokens_eq
    exact ⟨ks ++ .symbol op.symbol :: rhs.tokens, by rw [Expression.tokens, e]; rfl⟩

theorem Primary.startsExpression_head (p : Primary) : p.head.startsExpression = true := by
  cases p with
  | literal l => cases l <;> rfl
  | signed negative p => cases negative <;> rfl
  | _ => rfl

theorem Factor.startsExpression_head (f : Factor) : f.head.startsExpression = true := by
  cases f with
  | stepBefore step p => cases step <;> rfl
  | unary op p => cases op <;> rfl
  | plain p => exact p.startsExpression_head
  | stepBehind p step => exact p.startsExpression_head

/-- The head of an expression is one of the tokens that the compiler takes for its beginning. -/
theorem Expression.startsExpression_head (e : Expression) : e.head.startsExpression = true := by
  have sum (a : Sum) : a.head.startsExpression = true := by
    obtain ⟨negative, ⟨first, factors⟩, rest⟩ := a
    cases negative with
    | none => exact first.startsExpression_head
    | some negative => cases negative <;> rfl
  cases e with
  | sum a => exact sum a
  | compare lhs op rhs => exact sum lhs

/-- No primary begins with a step, so a step in front of one belongs to the factor. -/
theorem Primary.no_step_head (p : Primary) : p.head.operator? Additive.ofStep? = none := by
  cases p with
  | literal l => cases l <;> rfl
  | signed negative p => cases negative <;> rfl
  | _ => rfl

/-- Only negated primaries begin with a unary operator. -/
theorem Primary.no_unary_head {p : Primary} (h : p.isNegated = false) :
    p.head.operator? Unary.ofSymbol? = none := by
  cases p with
  | literal l => cases l <;> rfl
  | signed negative p =>
    obtain rfl : negative = false := h
    rfl
  | _ => rfl

end Tree

namespace Tokens

variable {s r : Tokens}

open OnePass.Tree

theorem no_sign_of_primary {p : Primary} (h : p.isSigned = false) (passes : s.Passes p.tokens r) :
    s.sign? = none := by
  obtain ⟨ks, e⟩ := p.tokens_eq
  rw [e] at passes
  rw [sign?, operator?_eq_none_iff, passes.current_kind]
  cases p with
  | literal l => cases l <;> rfl
  | signed negative p => cases h
  | _ => rfl

/-- A sum is read without a sign if its first product has none. -/
theorem no_sign {a : Product} (h : a.isSigned = false) (passes : s.Passes a.tokens r) :
    s.sign? = none := by
  obtain ⟨first, rest⟩ := a
  obtain ⟨q, passes, -⟩ := passes.split
  cases first with
  | stepBefore step p =>
    rw [sign?, operator?_eq_none_iff, passes.current_kind]
    cases step <;> rfl
  | unary op p =>
    rw [sign?, operator?_eq_none_iff, passes.current_kind]
    cases op with
    | neg => cases h
    | _ => rfl
  | plain p => exact no_sign_of_primary h passes
  | stepBehind p step =>
    obtain ⟨q, passes, -⟩ := passes.split
    exact no_sign_of_primary h passes

theorem no_step_of_primary {p : Primary} (passes : s.Passes p.tokens r) :
    s.operator? Additive.ofStep? = none := by
  obtain ⟨ks, e⟩ := p.tokens_eq
  rw [e] at passes
  rw [operator?_eq_none_iff, passes.current_kind]
  exact p.no_step_head

theorem no_unary {p : Primary} (h : p.isNegated = false) (passes : s.Passes p.tokens r) :
    s.operator? Unary.ofSymbol? = none := by
  obtain ⟨ks, e⟩ := p.tokens_eq
  rw [e] at passes
  rw [operator?_eq_none_iff, passes.current_kind]
  exact Primary.no_unary_head h

/-- A sign that comes first is taken for the sign of the sum. -/
theorem sign {ks : List Token.Kind} {negative : Bool}
    (passes : s.Passes (.symbol (signSymbol negative) :: ks) r) :
    ∃ tail, s.sign? = some (negative, tail) ∧ tail.stream.Passes ks r := by
  refine passes.operator ?_
  cases negative <;> rfl

end Tokens

end OnePass
