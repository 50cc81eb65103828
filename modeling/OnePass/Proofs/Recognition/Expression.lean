import OnePass.Proofs.Lookahead
import OnePass.Proofs.Verdict

/-!
# Recognizing expressions

Whatever the productions of expressions read without an error are the tokens of a greedy expression.
The tree is found from the run: each operator that a production takes becomes a node, and that the
productions called before did not take it is what makes the tree greedy.

The symbol behind an expression is known to have been refused by the productions that could take it.
It may still be one that no expression goes on with, a step or an assignment out of place, which the
surroundings will refuse.
-/

namespace OnePass

/-! ## Runs without errors -/

/-- If no error was reported, there is a value, and it and the rest have a property. -/
def Run.Gains {s : Tokens} {α : Type} (x : Attempt s α) (P : α → Tokens → Prop) : Prop :=
  ¬ Faulty x.events → ∃ a, x.value = some a ∧ P a x.rest

namespace Run.Gains

variable {s q : Tokens} {α β : Type} {P : α → Tokens → Prop} {Q : β → Tokens → Prop}

theorem ok {a : α} (h : P a s) : (Run.ok a : Attempt s α).Gains P := fun _ => ⟨a, rfl, h⟩

theorem emit {is : List Instruction} {a : α} (h : P a s) :
    (Run.emit is a : Attempt s α).Gains P := fun _ => ⟨a, rfl, h⟩

/-- An attempt with errors gains everything. -/
theorem fail (pos : Position) (problem : Problem) :
    (Run.fail .error pos problem : Attempt s α).Gains P :=
  fun clean => absurd (Faulty.head pos problem []) clean

theorem reached {h : s.Reaches q} {x : Attempt q α} (hx : x.Gains P) :
    (Run.reached h x).Gains P := hx

theorem after {es : List Event} {x : Attempt s α} (hx : x.Gains P) : (Run.after es x).Gains P :=
  fun clean => hx fun faulty => clean (faulty.right es)

theorem map {f : α → β} {x : Attempt s α} (hx : x.Gains fun a => Q (f a)) : (x.map f).Gains Q := by
  intro clean
  obtain ⟨a, value, h⟩ := hx clean
  exact ⟨f a, by simp [Run.map, value], h⟩

theorem imp {P' : α → Tokens → Prop} {x : Attempt s α} (hx : x.Gains P)
    (h : ∀ a r, P a r → P' a r) : x.Gains P' := by
  intro clean
  obtain ⟨a, value, ha⟩ := hx clean
  exact ⟨a, value, h a _ ha⟩

/-- Gains are handed on. -/
theorem andThen {x : Attempt s α} {f : (r : Tokens) → r.left ≤ s.left → α → Attempt r β}
    (hx : x.Gains P) (hf : ∀ q h a, P a q → (f q h a).Gains Q) : (x.andThen f).Gains Q := by
  intro clean
  obtain ⟨a, value, ha⟩ := hx fun faulty => clean (faulty.andThen f)
  obtain ⟨events, value', rest⟩ := Run.andThen_of_some value f
  rw [events] at clean
  rw [value', rest]
  exact hf x.rest x.left_rest_le a ha fun faulty => clean (faulty.right _)

end Run.Gains

/-- An expected symbol was there if there is no error. -/
theorem expect_gains {env : Env} (structural : env.structural = .error) (symbol : String)
    (s : Tokens) : (expect env symbol s).Gains fun _ r => s.Passes [.symbol symbol] r := by
  unfold expect
  split
  · rename_i tail read
    exact .reached (.ok (Tokens.passes_of_symbol? read))
  · rw [structural]
    exact .fail _ _

theorem identifier_gains (s : Tokens) :
    (identifier s).Gains fun v r => s.Passes [.ident v.1] r := by
  unfold identifier
  split
  · rename_i name pos tail read
    exact .reached (.ok (Tokens.passes_of_uncons? read))
  · exact .fail _ _

/-- A typing rule reads nothing. -/
theorem follow_gains {s : Tokens} {α : Type} (pos : Position) (j : Judgement α) :
    (follow pos j : Attempt s α).Gains fun _ r => r = s := by
  cases j with
  | accepted a => exact .ok rfl
  | widened a warning => exact .after (.ok rfl)
  | refused problem => exact .fail _ _

/-- Only what has a place can be stepped. -/
theorem Operand.stepTarget_gains {s : Tokens} (x : Operand) (pos : Position) :
    (x.stepTarget pos : Attempt s Nat).Gains fun _ r => r = s ∧ x.place.isSome = true := by
  unfold stepTarget
  split
  · rename_i slot place
    split
    · exact .ok ⟨rfl, by rw [place]; rfl⟩
    · exact .fail _ _
  · exact .fail _ _

/-! ## Streams of names -/

def Tokens.Named (s : Tokens) : Prop :=
  ∀ t ∈ s.front, ∀ name, t.kind = .ident name → isName name = true

/-- What is left of well spelled tokens is well spelled. -/
theorem Tokens.Named.rest {s r : Tokens} {ks : List Token.Kind} (h : s.Named)
    (passes : s.Passes ks r) : r.Named := by
  obtain ⟨passed, front, -, -⟩ := passes
  intro t mem
  exact h t (by rw [front]; exact List.mem_append_right _ mem)

/-- The next token, if it is an identifier, is a name. -/
theorem Tokens.Named.head {s : Tokens} {name : String} (h : s.Named)
    (kind : s.current.kind = .ident name) : ∃ x : Name, x.text = name := by
  obtain ⟨front, final⟩ := s
  cases front with
  | nil => cases kind
  | cons t ts => exact ⟨⟨name, h t List.mem_cons_self name kind⟩, rfl⟩

/-! ## Symbols that were refused -/

namespace Token.Kind

variable {k : Token.Kind}

/-- A strength belongs to a reading that succeeds. -/
theorem strength_cases (k : Token.Kind) :
    k.strength = 0 ∨
    (k.strength = 1 ∧ (k.operator? Comparison.ofSymbol?).isSome = true) ∨
    (k.strength = 2 ∧ (k.operator? Additive.ofSymbol?).isSome = true) ∨
    (k.strength = 3 ∧ (k.operator? Multiplicative.ofSymbol?).isSome = true) ∨
    (k.strength = 4 ∧ (k.operator? Additive.ofStep?).isSome = true) ∨
    (k.strength = 5 ∧ (k.operator? Assignment.ofSymbol?).isSome = true) := by
  cases k with
  | symbol text =>
    simp only [strength, operator?]
    repeat' split
    all_goals simp_all
  | _ => exact .inl rfl

/-- A token that is not read as an operator of a class has not the strength of the class. -/
theorem strength_ne_comparison (h : k.operator? Comparison.ofSymbol? = none) : k.strength ≠ 1 := by
  have cases := k.strength_cases
  simp only [h, Option.isSome_none, Bool.false_eq_true, and_false, false_or] at cases
  omega

theorem strength_ne_additive (h : k.operator? Additive.ofSymbol? = none) : k.strength ≠ 2 := by
  have cases := k.strength_cases
  simp only [h, Option.isSome_none, Bool.false_eq_true, and_false, false_or] at cases
  omega

theorem strength_ne_multiplicative (h : k.operator? Multiplicative.ofSymbol? = none) :
    k.strength ≠ 3 := by
  have cases := k.strength_cases
  simp only [h, Option.isSome_none, Bool.false_eq_true, and_false, false_or] at cases
  omega

theorem strength_ne_step (h : k.operator? Additive.ofStep? = none) : k.strength ≠ 4 := by
  have cases := k.strength_cases
  simp only [h, Option.isSome_none, Bool.false_eq_true, and_false, false_or] at cases
  omega

theorem strength_ne_assignment (h : k.operator? Assignment.ofSymbol? = none) : k.strength ≠ 5 := by
  have cases := k.strength_cases
  simp only [h, Option.isSome_none, Bool.false_eq_true, and_false, or_false] at cases
  omega

theorem eq_of_signedLiteral? {negative : Bool} {v : ValueType × Instruction}
    (h : k.signedLiteral? negative = some v) : ∃ l : Literal, k = l.kind := by
  cases k with
  | int value => exact ⟨.int value, rfl⟩
  | double value => exact ⟨.double value, rfl⟩
  | _ => cases h

/-- Tokens that are read as literals are those of literals. -/
theorem eq_of_literal? {v : ValueType × Instruction} (h : k.literal? = some v) :
    ∃ l : Literal, k = l.kind := by
  cases k with
  | int value => exact ⟨.int value, rfl⟩
  | double value => exact ⟨.double value, rfl⟩
  | bool value => exact ⟨.bool value, rfl⟩
  | char value => exact ⟨.char value, rfl⟩
  | string value => exact ⟨.string value, rfl⟩
  | _ => cases h

/-- The token was refused by a part of an expression with the limit `n`: it may follow the part, or
it is a step or an assignment out of place. -/
def Stops (k : Token.Kind) (n : Nat) : Prop := k.strength ≤ n ∨ 4 ≤ k.strength

theorem stops_five (k : Token.Kind) : k.Stops 5 := .inl k.strength_le

end Token.Kind

/-! ## Signs -/

namespace Tree

theorem Product.limit_le (a : Product) : a.limit ≤ 2 := by
  obtain ⟨first, rest⟩ := a
  exact Nat.min_le_left _ _

/-- A product that does not begin with a sign. -/
theorem Product.isSigned_eq_false {a : Product} {s r : Tokens} (passes : s.Passes a.tokens r)
    (h : s.sign? = none) : a.isSigned = false := by
  have primary {p : Primary} {ks : List Token.Kind} (passes : s.Passes (p.tokens ++ ks) r) :
      p.isSigned = false := by
    cases p with
    | signed negative p =>
      obtain ⟨tail, read, -⟩ := Tokens.sign passes
      rw [h] at read
      cases read
    | _ => rfl
  obtain ⟨first, rest⟩ := a
  cases first with
  | stepBefore step p => rfl
  | unary op p =>
    cases op with
    | neg =>
      have passes : s.Passes (.symbol (signSymbol true) :: (p.tokens ++ rest.tokens)) r := passes
      obtain ⟨tail, read, -⟩ := Tokens.sign passes
      rw [h] at read
      cases read
    | _ => rfl
  | plain p => exact primary passes
  | stepBehind p step =>
    have passes : s.Passes ((p.tokens ++ [.symbol step.symbol]) ++ rest.tokens) r := passes
    rw [List.append_assoc] at passes
    exact primary passes

/-- An operand that does not begin with a minus. -/
theorem Primary.isNegated_eq_false {p : Primary} {s r : Tokens} (passes : s.Passes p.tokens r)
    (h : s.operator? Unary.ofSymbol? = none) : p.isNegated = false := by
  cases p with
  | signed negative p =>
    cases negative with
    | false => rfl
    | true =>
      obtain ⟨tail, read, -⟩ := Tokens.Passes.operator passes Unary.neg.ofSymbol?_symbol
      rw [h] at read
      cases read
  | _ => rfl

end Tree

/-! ## Expressions -/

/-- The stream `r` is what remains of `s` behind the tokens of a greedy tree, and its next token was
refused by the tree. -/
structure Tokens.Spans (s : Tokens) (greedy : Bool) (tokens : List Token.Kind) (limit : Nat)
    (r : Tokens) : Prop where
  greedy : greedy = true
  passes : s.Passes tokens r
  stops : r.current.kind.Stops limit

section Recognition

open OnePass.Tree

/-- A symbol that is read as a sign. -/
theorem passes_of_sign? {s : Tokens} {negative : Bool} {tail : s.Tail}
    (h : s.sign? = some (negative, tail)) :
    s.Passes [.symbol (signSymbol negative)] tail.stream := by
  obtain ⟨text, classified, passes⟩ := Tokens.passes_of_operator? h
  have spelled : text = signSymbol negative := by
    split at classified
    · cases classified
      assumption
    · split at classified
      · cases classified
        assumption
      · cases classified
  exact spelled ▸ passes

mutual

/-- An expression without errors spans the tokens of a tree that leaves no operator behind it. -/
theorem expression_gains (env : Env) (structural : env.structural = .error) (s : Tokens)
    (named : s.Named) :
    (expression env s).Gains fun _ r =>
      ∃ e : Expression, s.Spans e.greedy e.tokens e.limit r := by
  rw [expression]
  refine .andThen (additive_gains env structural s named) ?_
  rintro q - lhs ⟨a, found⟩
  have bound : a.limit ≤ 1 := by
    obtain ⟨negative, first, rest⟩ := a
    exact Nat.min_le_left _ _
  split
  · rename_i refused
    rw [Tokens.operator?_eq_none_iff] at refused
    have := Token.Kind.strength_ne_comparison refused
    refine .ok ⟨.sum a, found.greedy, found.passes, ?_⟩
    rcases found.stops with weak | strong
    · exact .inl (by simp only [Expression.limit]; omega)
    · exact .inr strong
  · rename_i op p reaches shorter read
    obtain ⟨text, classified, symbol⟩ := Tokens.passes_of_operator? read
    obtain rfl := Comparison.eq_symbol classified
    have strength : q.current.kind.strength = 1 :=
      Token.Kind.strength_comparison (Tokens.operator?_current read)
    have lead := found.passes.trans symbol
    refine .reached (.andThen (additive_gains env structural p (named.rest lead)) ?_)
    rintro r - rhs ⟨b, found'⟩
    have greedy : (Expression.compare a op b).greedy = true := by
      simp only [Expression.greedy, found.greedy, found'.greedy, Bool.and_true, Bool.true_and,
        decide_eq_true_eq]
      rcases found.stops with weak | strong <;> omega
    have passes : s.Passes (Expression.compare a op b).tokens r := by
      have := lead.trans found'.passes
      simpa [Expression.tokens] using this
    split
    · exact .emit ⟨.compare a op b, greedy, passes, found'.stops⟩
    · exact .fail _ _
termination_by 16 * s.left + 9
decreasing_by all_goals omega

theorem additive_gains (env : Env) (structural : env.structural = .error) (s : Tokens)
    (named : s.Named) :
    (additive env s).Gains fun _ r => ∃ a : Sum, s.Spans a.greedy a.tokens a.limit r := by
  rw [additive]
  split
  · rename_i unsigned
    refine .andThen (multiplicative_gains env structural s named) ?_
    rintro q left lhs ⟨a, found⟩
    refine .imp (additiveRest_gains env structural lhs q (named.rest found.passes) a.limit
      found.stops a.limit_le) ?_
    rintro _ r ⟨rest, found'⟩
    refine ⟨.mk none a rest, ?_, found.passes.trans found'.passes, found'.stops⟩
    simp [Sum.greedy, Product.isSigned_eq_false found.passes unsigned, found.greedy, found'.greedy]
  · rename_i negative p reaches shorter read
    have sign := passes_of_sign? read
    refine .reached (.andThen (multiplicative_gains env structural p (named.rest sign)) ?_)
    rintro q left lhs ⟨a, found⟩
    have lead := sign.trans found.passes
    refine .after (.imp (additiveRest_gains env structural lhs q (named.rest lead) a.limit
      found.stops a.limit_le) ?_)
    rintro _ r ⟨rest, found'⟩
    refine ⟨.mk (some negative) a rest, ?_, ?_, found'.stops⟩
    · simp [Sum.greedy, found.greedy, found'.greedy]
    · have := lead.trans found'.passes
      simpa [Sum.tokens, signTokens] using this
termination_by 16 * s.left + 8
decreasing_by all_goals omega

/-- The terms behind a first one with the limit `n`. -/
theorem additiveRest_gains (env : Env) (structural : env.structural = .error) (lhs : ValueType)
    (s : Tokens) (named : s.Named) (n : Nat) (stops : s.current.kind.Stops n) (bound : n ≤ 2) :
    (additiveRest env lhs s).Gains fun _ r =>
      ∃ rest : Terms, s.Spans (rest.greedy n) rest.tokens (min 1 (rest.limit n)) r := by
  rw [additiveRest]
  split
  · rename_i refused
    rw [Tokens.operator?_eq_none_iff] at refused
    have := Token.Kind.strength_ne_additive refused
    refine .ok ⟨.nil, rfl, .refl s, ?_⟩
    rcases stops with weak | strong
    · exact .inl (by simp only [Terms.limit]; omega)
    · exact .inr strong
  · rename_i op p reaches shorter read
    obtain ⟨text, classified, symbol⟩ := Tokens.passes_of_operator? read
    obtain rfl := Additive.eq_symbol classified
    have strength : s.current.kind.strength = 2 :=
      Token.Kind.strength_additive (Tokens.operator?_current read)
    refine .reached (.andThen (multiplicative_gains env structural p (named.rest symbol)) ?_)
    rintro q left rhs ⟨a, found⟩
    refine .andThen (follow_gains _ _) ?_
    rintro _ _ ⟨type, i⟩ rfl
    have lead := symbol.trans found.passes
    refine .after (.imp (additiveRest_gains env structural type _ (named.rest lead) a.limit
      found.stops a.limit_le) ?_)
    rintro _ r ⟨rest, found'⟩
    refine ⟨.cons op a rest, ?_, ?_, found'.stops⟩
    · simp only [Terms.greedy, found.greedy, found'.greedy, Bool.and_true, decide_eq_true_eq]
      rcases stops with weak | strong <;> omega
    · have := lead.trans found'.passes
      simpa [Terms.tokens] using this
termination_by 16 * s.left + 7
decreasing_by all_goals omega

theorem multiplicative_gains (env : Env) (structural : env.structural = .error) (s : Tokens)
    (named : s.Named) :
    (multiplicative env s).Gains fun _ r =>
      ∃ a : Product, s.Spans a.greedy a.tokens a.limit r := by
  rw [multiplicative]
  refine .andThen (simple_gains env structural s named) ?_
  rintro q left lhs ⟨f, found⟩
  refine .imp (multiplicativeRest_gains env structural lhs q (named.rest found.passes) f.limit
    found.stops) ?_
  rintro _ r ⟨rest, found'⟩
  refine ⟨.mk f rest, ?_, found.passes.trans found'.passes, found'.stops⟩
  simp [Product.greedy, found.greedy, found'.greedy]
termination_by 16 * s.left + 6
decreasing_by all_goals omega

/-- The factors behind a first one with the limit `n`. -/
theorem multiplicativeRest_gains (env : Env) (structural : env.structural = .error)
    (lhs : ValueType) (s : Tokens) (named : s.Named) (n : Nat) (stops : s.current.kind.Stops n) :
    (multiplicativeRest env lhs s).Gains fun _ r =>
      ∃ rest : Factors, s.Spans (rest.greedy n) rest.tokens (min 2 (rest.limit n)) r := by
  rw [multiplicativeRest]
  split
  · rename_i refused
    rw [Tokens.operator?_eq_none_iff] at refused
    have := Token.Kind.strength_ne_multiplicative refused
    refine .ok ⟨.nil, rfl, .refl s, ?_⟩
    simp only [Token.Kind.Stops, Factors.limit] at stops ⊢
    omega
  · rename_i op p reaches shorter read
    obtain ⟨text, classified, symbol⟩ := Tokens.passes_of_operator? read
    obtain rfl := Multiplicative.eq_symbol classified
    have strength : s.current.kind.strength = 3 :=
      Token.Kind.strength_multiplicative (Tokens.operator?_current read)
    refine .reached (.andThen (simple_gains env structural p (named.rest symbol)) ?_)
    rintro q left rhs ⟨f, found⟩
    refine .andThen (follow_gains _ _) ?_
    rintro _ _ ⟨type, i⟩ rfl
    have lead := symbol.trans found.passes
    refine .after (.imp (multiplicativeRest_gains env structural type _ (named.rest lead) f.limit
      found.stops) ?_)
    rintro _ r ⟨rest, found'⟩
    refine ⟨.cons op f rest, ?_, ?_, found'.stops⟩
    · simp only [Factors.greedy, found.greedy, found'.greedy, Bool.and_true, decide_eq_true_eq]
      simp only [Token.Kind.Stops] at stops
      omega
    · have := lead.trans found'.passes
      simpa [Factors.tokens] using this
termination_by 16 * s.left + 5
decreasing_by all_goals omega

theorem simple_gains (env : Env) (structural : env.structural = .error) (s : Tokens)
    (named : s.Named) :
    (simple env s).Gains fun _ r => ∃ f : Factor, s.Spans f.greedy f.tokens f.limit r := by
  rw [simple]
  split
  · rename_i op q reaches shorter read
    obtain ⟨text, classified, symbol⟩ := Tokens.passes_of_operator? read
    obtain ⟨step, rfl, -⟩ := Step.eq_symbol classified
    refine .reached (.andThen (primary_gains env structural q (named.rest symbol)) ?_)
    rintro r - x ⟨p, found, -⟩
    refine .andThen (x.stepTarget_gains _) ?_
    rintro _ - slot ⟨rfl, -⟩
    exact .emit ⟨.stepBefore step p, found.greedy, symbol.trans found.passes, found.stops⟩
  · split
    · rename_i op q reaches shorter read
      obtain ⟨text, classified, symbol⟩ := Tokens.passes_of_operator? read
      obtain rfl := Unary.eq_symbol classified
      refine .reached ?_
      split
      · refine .map (.imp (signed_gains env structural true q (named.rest symbol)) ?_)
        rintro x r ⟨p, found, -⟩
        exact ⟨.unary op p, found.greedy, symbol.trans found.passes, found.stops⟩
      · refine .andThen (primary_gains env structural q (named.rest symbol)) ?_
        rintro r - x ⟨p, found, -⟩
        exact .emit ⟨.unary op p, found.greedy, symbol.trans found.passes, found.stops⟩
    · rename_i notUnary
      refine .andThen (primary_gains env structural s named) ?_
      rintro q - x ⟨p, found, place⟩
      have notNegated := Primary.isNegated_eq_false found.passes notUnary
      split
      · rename_i refused
        rw [Tokens.operator?_eq_none_iff] at refused
        have := Token.Kind.strength_ne_step refused
        refine .ok ⟨.plain p, by simp [Factor.greedy, notNegated, found.greedy], found.passes, ?_⟩
        have stops := found.stops
        simp only [Token.Kind.Stops, Factor.limit] at stops ⊢
        omega
      · rename_i op r reaches shorter read
        obtain ⟨text, classified, symbol⟩ := Tokens.passes_of_operator? read
        obtain ⟨step, rfl, -⟩ := Step.eq_symbol classified
        refine .reached (.andThen (x.stepTarget_gains _) ?_)
        rintro _ - slot ⟨rfl, placed⟩
        refine .emit
          ⟨.stepBehind p step, ?_, found.passes.trans symbol, .inl (Token.Kind.strength_le _)⟩
        simp [Factor.greedy, notNegated, found.greedy, place placed]
termination_by 16 * s.left + 4
decreasing_by all_goals omega

theorem signed_gains (env : Env) (structural : env.structural = .error) (negative : Bool)
    (s : Tokens) (named : s.Named) :
    (signed env negative s).Gains fun x r =>
      ∃ p : Primary, s.Spans p.greedy p.tokens p.limit r ∧
        (x.place.isSome = true → 4 ≤ p.limit) := by
  rw [signed]
  split
  · rename_i type i tail read
    obtain ⟨⟨t, tail'⟩, read, number⟩ := Option.bind_eq_some_iff.1 read
    obtain ⟨v, signed, e⟩ := Option.map_eq_some_iff.1 number
    cases e
    obtain ⟨l, kind⟩ := Token.Kind.eq_of_signedLiteral? signed
    have first := Tokens.passes_of_uncons? read
    rw [kind] at first
    exact .reached (.emit ⟨.literal l, ⟨rfl, first, Token.Kind.stops_five _⟩, nofun⟩)
  · refine .andThen (primary_gains env structural s named) ?_
    rintro r - x ⟨p, found, place⟩
    split
    · exact .emit ⟨p, found, nofun⟩
    · exact .ok ⟨p, found, place⟩
termination_by 16 * s.left + 3
decreasing_by all_goals omega

/-- A primary without errors. A step may follow one that has a place. -/
theorem primary_gains (env : Env) (structural : env.structural = .error) (s : Tokens)
    (named : s.Named) :
    (primary env s).Gains fun x r =>
      ∃ p : Primary, s.Spans p.greedy p.tokens p.limit r ∧
        (x.place.isSome = true → 4 ≤ p.limit) := by
  rw [primary]
  split
  · exact .fail _ _
  · rename_i t q reaches shorter read
    have first := Tokens.passes_of_uncons? read
    have current := Tokens.current_of_uncons? read
    split
    · rename_i lead
      have kind : t.kind = .symbol "(" := Token.Kind.eq_of_parenthesis lead
      rw [kind] at first
      refine .reached (.andThen (expression_gains env structural q (named.rest first)) ?_)
      rintro r - type ⟨e, found⟩
      refine .andThen (expect_gains structural ")" r) ?_
      rintro r' - _ closing
      refine .ok ⟨.parens e, ⟨found.greedy, ?_, Token.Kind.stops_five _⟩, nofun⟩
      have := first.trans (found.passes.trans closing)
      simpa [Primary.tokens] using this
    · exact .reached (.andThen (identifier_gains q) fun _ _ _ _ => .fail _ _)
    · rename_i negative lead
      have kind : t.kind = .symbol (signSymbol negative) := Token.Kind.eq_of_sign lead
      rw [kind] at first
      refine .reached (.imp (signed_gains env structural negative q (named.rest first)) ?_)
      rintro x r ⟨p, found, place⟩
      exact ⟨.signed negative p, ⟨found.greedy, first.trans found.passes, found.stops⟩, place⟩
    · rename_i name lead
      have kind : t.kind = .ident name := Token.Kind.eq_of_name lead
      obtain ⟨x, rfl⟩ := named.head (current ▸ kind)
      rw [kind] at first
      refine .reached (.imp (named_gains env structural x t.pos q (named.rest first)) ?_)
      rintro y r ⟨p, ks, tokens, found, place⟩
      refine ⟨p, ⟨found.greedy, ?_, found.stops⟩, place⟩
      rw [tokens]
      exact first.trans found.passes
    · split
      · rename_i type i literal
        obtain ⟨l, kind⟩ := Token.Kind.eq_of_literal? literal
        rw [kind] at first
        exact .reached (.emit ⟨.literal l, ⟨rfl, first, Token.Kind.stops_five _⟩, nofun⟩)
      · exact .fail _ _
termination_by 16 * s.left + 2
decreasing_by all_goals omega

/-- What begins with a name, behind it. -/
theorem named_gains (env : Env) (structural : env.structural = .error) (x : Name) (pos : Position)
    (s : Tokens) (named : s.Named) :
    (OnePass.named env x.text pos s).Gains fun y r =>
      ∃ (p : Primary) (ks : List Token.Kind), p.tokens = .ident x.text :: ks ∧
        s.Spans p.greedy ks p.limit r ∧ (y.place.isSome = true → 4 ≤ p.limit) := by
  rw [OnePass.named]
  split
  · exact .fail _ _
  · exact .fail _ _
  · rename_i link signature _
    split
    · exact .fail _ _
    · rename_i q reaches shorter read
      have opening := Tokens.passes_of_symbol? read
      refine .reached ?_
      split
      · refine .andThen (expression_gains env structural q (named.rest opening)) ?_
        rintro r - given ⟨e, found⟩
        refine .andThen (follow_gains _ _) ?_
        rintro _ - _ rfl
        refine .andThen (expect_gains structural ")" _) ?_
        rintro r' - _ closing
        refine .emit ⟨.call x e, _, rfl, ⟨found.greedy, ?_, Token.Kind.stops_five _⟩, nofun⟩
        have := opening.trans (found.passes.trans closing)
        simpa using this
      · exact .fail _ _
  · rename_i type slot frame _
    split
    · exact .fail _ _
    · split
      · rename_i refused
        rw [Tokens.operator?_eq_none_iff] at refused
        have := Token.Kind.strength_ne_assignment refused
        have := s.current.kind.strength_le
        refine .emit ⟨.name x, [], rfl, ⟨rfl, .refl s, .inl ?_⟩, fun _ => Nat.le_refl 4⟩
        simp only [Primary.limit]
        omega
      · rename_i op q reaches shorter read
        obtain ⟨text, classified, symbol⟩ := Tokens.passes_of_operator? read
        obtain ⟨op', rfl, rfl⟩ := AssignSymbol.eq_symbol classified
        refine .reached (.after
          (.andThen (expression_gains env structural q (named.rest symbol)) ?_))
        rintro r - given ⟨e, found⟩
        refine .andThen (follow_gains _ _) ?_
        rintro _ - ⟨result, code⟩ rfl
        refine .after (.andThen (follow_gains _ _) ?_)
        rintro _ - _ rfl
        exact .emit ⟨.assign x op' e, _, rfl,
          ⟨found.greedy, symbol.trans found.passes, found.stops⟩, nofun⟩
termination_by 16 * s.left + 1
decreasing_by all_goals omega

end

end Recognition

end OnePass
