import OnePass.Proofs.Reading.Expression

/-!
# Reading statements

Where the tokens of a greedy program come next, the productions of statements read exactly these
tokens. If the program keeps the rules of scope and type, the piece they add is the one that is
generated from its resolved form; if it does not, an error is reported.
-/

namespace OnePass

/-! ## Counters and inventories -/

/-- The counters agree with an inventory, and the next label is `n`. -/
structure Counters.Tallies (c : Counters) (n : Nat) (inv : Inventory) : Prop where
  labels : c.labels = n
  locals : c.locals = inv.locals.length
  defined : c.defined = inv.defined.map Name.text

theorem Name.count_map_text (names : List Name) (x : Name) :
    (names.map Name.text).count x.text = names.count x := by
  induction names with
  | nil => rfl
  | cons y names ih => simp [List.count_cons, ih, Name.text_inj]

theorem Counters.Tallies.linkName_eq {c : Counters} {n : Nat} {inv : Inventory}
    (h : c.Tallies n inv) (f : Name) : c.linkName f.text = inv.link f := by
  unfold linkName Inventory.link
  rw [h.defined, Name.count_map_text]
  cases inv.defined.count f with
  | zero => rfl
  | succ k => rfl

/-! ## Verdicts on statements -/

/-- The run adds the given piece and yields the given value, or reports an error if none is given.
-/
def Run.Decides {s : Tokens} {α : Type} (x : Run s α) (o : Option (Piece × α)) (r : Tokens) :
    Prop :=
  match o with
  | some (p, a) => x.Yields p a r
  | none => Faulty x.events

theorem Run.Decides.reached {s q r : Tokens} {α : Type} {o : Option (Piece × α)} {h : s.Reaches q}
    {x : Run q α} (hx : x.Decides o r) : (Run.reached h x).Decides o r := by
  cases o with
  | none => exact hx
  | some v => exact Yields.reached hx

/-- What a statement adds whose labels begin with `n` and which declares the variables `new`. -/
def Stmt.piece (st : Stmt) (targets : Option LoopTargets) (n : Nat)
    (new : List (String × ValueType)) : Piece where
  locals := new
  code := st.code targets n
  functions := (st.functions n).map fun (f, k) => f.compiled k

/-- The run adds the piece of the given statement and yields something that fits what else is given,
the variables that are new and the next label; or it reports an error if nothing is given. -/
def Run.Translates {s : Tokens} {α β : Type} (x : Run s α) (targets : Option LoopTargets) (n : Nat)
    (o : Option (Stmt × β)) (Fits : β → List (String × ValueType) → Nat → α → Prop) (r : Tokens) :
    Prop :=
  match o with
  | some (st, b) => ∃ a new, Fits b new (n + st.labels) a ∧ x.Yields (st.piece targets n new) a r
  | none => Faulty x.events

theorem Run.Translates.reached {s q r : Tokens} {α β : Type} {targets : Option LoopTargets}
    {n : Nat} {o : Option (Stmt × β)} {Fits : β → List (String × ValueType) → Nat → α → Prop}
    {h : s.Reaches q} {x : Run q α} (hx : x.Translates targets n o Fits r) :
    (Run.reached h x).Translates targets n o Fits r := by
  cases o with
  | none => exact hx
  | some v =>
    obtain ⟨a, new, fits, yields⟩ := hx
    exact ⟨a, new, fits, yields.reached⟩

/-- The counters fit an inventory that has grown by some variables. -/
def Counters.Fits (inv inv' : Inventory) (new : List (String × ValueType)) (n : Nat)
    (c : Counters) : Prop :=
  inv'.locals = inv.locals ++ new ∧ c.Tallies n inv'

/-- What a statement hands on fits an inventory that has grown by some variables. -/
def Outcome.Fits (inv inv' : Inventory) (new : List (String × ValueType)) (n : Nat)
    (o : Outcome) : Prop :=
  o.counters.Fits inv inv' new n

/-- What a declaration in the surroundings `env` hands on fits the context and the inventory after
it. -/
structure Declared.Fits (env : Env) (inv : Inventory) (after : Context × Inventory)
    (new : List (String × ValueType)) (n : Nat) (d : Declared) : Prop where
  counters : d.counters.Fits inv after.2 new n
  scopes : Env.Matches { env with scopes := d.scopes } after.1
  inBlock : after.1.blocks ≠ []

/-! ## Simple statements -/

section Simple

variable {env : Env} {ctx : Context} {s p q r : Tokens}

theorem condition_decides (m : env.Matches ctx) {e : Tree.Expression} (greedy : e.greedy = true)
    (opening : s.Passes [.symbol "("] p) (inside : p.Passes e.tokens q)
    (closing : q.Passes [.symbol ")"] r) :
    (condition env s).Decides
      ((e.condition? ctx).map fun t => ({ code := t.code }, some ())) r := by
  have between : q.current.kind.Follows e.limit := by
    rw [closing.current_kind]
    exact Token.Kind.follows_closing _
  have reads := expression_reads m e greedy inside between
  have opened := expect_yields env opening
  unfold condition Tree.Expression.condition?
  cases resolved : e.resolve? ctx with
  | none =>
    rw [resolved] at reads
    refine opened.faulty fun h => reads.faulty ?_
    intro q h type stuck
    split
    · refine expect_faulty m.structural ?_
      rw [stuck]
      decide
    · exact .head _ _ _
  | some v =>
    obtain ⟨type, t⟩ := v
    rw [resolved] at reads
    cases isCondition : type.isCondition with
    | false =>
      simp only [Option.bind_some, isCondition, Bool.false_eq_true, if_false]
      refine opened.andThen_faulty fun h => reads.yields.andThen_faulty fun h => ?_
      simp only [isCondition, Bool.false_eq_true, if_false]
      exact .head _ _ _
    | true =>
      simp only [Option.bind_some, isCondition, if_true]
      refine .of_eq (p := {} ++ ({ code := t.code } ++ {})) (by simp)
        (opened.andThen fun h => reads.yields.andThen fun h => ?_)
      simp only [isCondition, if_true]
      exact expect_yields env closing

/-- What follows `break` or `continue`. -/
theorem jumpStatement_decides (m : env.Matches ctx) (keyword : String) (target : LoopTargets → Nat)
    (pos : Position) (passes : s.Passes [.symbol ";"] r) :
    (jumpStatement env keyword (env.loop.map target) pos s).Decides
      (if ctx.inLoop then some ({ code := env.loop.elim [] fun l => [.jump (target l)] }, some ())
        else none) r := by
  unfold jumpStatement
  rw [← m.loop]
  cases env.loop with
  | none => exact .head _ _ _
  | some l =>
    exact .of_eq (Piece.empty_append _) ((expect_yields env passes).andThen fun h => .emit _ _)

/-- A `return` without a value. -/
theorem returnStatement_bare (m : env.Matches ctx) (pos : Position)
    (passes : s.Passes [.symbol ";"] r) :
    (returnStatement env pos s).Decides
      (if ctx.mayReturn none then some ({ code := [.ret] }, some ()) else none) r := by
  have starts : s.current.kind.startsExpression = false := by
    rw [passes.current_kind]
    rfl
  unfold returnStatement Context.mayReturn
  rw [starts, m.returns]
  cases ctx.returns.head? with
  | none => exact .after (.emits [.ret]) (.emits [.ret]) (expect_yields env passes)
  | some expected => exact .head _ _ _

/-- Whether the value is of a type that may be returned. -/
theorem returnRule_isSome (m : env.Matches ctx) (given : ValueType) :
    (match env.returns.head? with
      | some expected => ValueType.allow .returnValue expected given
      | none => .accepted ()).value?.isSome = ctx.mayReturn (some given) := by
  unfold Context.mayReturn
  rw [m.returns]
  cases ctx.returns.head? with
  | none => rfl
  | some expected => exact ValueType.isSome_allow _ _ _

/-- A `return` with a value. -/
theorem returnStatement_value (m : env.Matches ctx) (pos : Position) {e : Tree.Expression}
    (greedy : e.greedy = true) (inside : s.Passes e.tokens q)
    (closing : q.Passes [.symbol ";"] r) :
    (returnStatement env pos s).Decides
      ((e.resolve? ctx).bind fun (type, t) =>
        if ctx.mayReturn (some type) then some ({ code := t.code ++ [.ret] }, some ())
        else none) r := by
  have starts : s.current.kind.startsExpression = true := by
    obtain ⟨ks, same⟩ := e.tokens_eq
    rw [Tokens.Passes.current_kind (same ▸ inside)]
    exact e.startsExpression_head
  have between : q.current.kind.Follows e.limit := by
    rw [closing.current_kind]
    exact Token.Kind.follows_semicolon _
  have reads := expression_reads m e greedy inside between
  unfold returnStatement
  rw [if_pos starts]
  cases resolved : e.resolve? ctx with
  | none =>
    rw [resolved] at reads
    refine reads.faulty fun q h type stuck => ?_
    refine Run.Halts.faulty (.ask (follow_settles _ _) stuck) fun q h _ stuck => ?_
    refine Faulty.right (expect_faulty m.structural ?_) _
    rw [stuck]
    decide
  | some v =>
    obtain ⟨type, t⟩ := v
    rw [resolved] at reads
    have rule := returnRule_isSome m type
    simp only [Option.bind_some]
    rw [← rule]
    have settles := follow_settles (s := q) s.current.pos (match env.returns.head? with
      | some expected => ValueType.allow .returnValue expected type
      | none => .accepted ())
    revert settles
    generalize Judgement.value? _ = verdict
    intro settles
    cases verdict with
    | none => exact reads.yields.andThen_faulty fun h => Faulty.andThen settles _
    | some u =>
      refine .of_eq (p := { code := t.code } ++ ({} ++ ({ code := [.ret] } ++ {}))) (by simp)
        (reads.yields.andThen fun h => Run.Yields.andThen settles fun h => ?_)
      exact .after (.emits [.ret]) (.emits [.ret]) (expect_yields env closing)

/-- An expression whose value is dropped. -/
theorem expressionStatement_decides (m : env.Matches ctx) {e : Tree.Expression}
    (greedy : e.greedy = true) (inside : s.Passes e.tokens q)
    (closing : q.Passes [.symbol ";"] r) :
    (expressionStatement env s).Decides
      ((e.resolve? ctx).map fun (_, t) => ({ code := t.code ++ [.pop] }, some ())) r := by
  have between : q.current.kind.Follows e.limit := by
    rw [closing.current_kind]
    exact Token.Kind.follows_semicolon _
  have reads := expression_reads m e greedy inside between
  unfold expressionStatement
  cases resolved : e.resolve? ctx with
  | none =>
    rw [resolved] at reads
    refine reads.faulty fun q h type stuck => ?_
    refine Faulty.right (expect_faulty m.structural ?_) _
    rw [stuck]
    decide
  | some v =>
    rw [resolved] at reads
    refine .of_eq (p := { code := v.2.code } ++ ({ code := [.pop] } ++ {})) (by simp)
      (reads.yields.andThen fun h => ?_)
    exact .after (.emits [.pop]) (.emits [.pop]) (expect_yields env closing)

end Simple

/-! ## First tokens -/

namespace Tree

variable {env : Env} {ctx : Context}

theorem Primary.typeNamed?_head (m : env.Matches ctx) (p : Primary) :
    env.typeNamed? p.head = none := by
  cases p with
  | literal l => cases l <;> rfl
  | name x => exact m.typeNamed?_ident x
  | assign x op value => exact m.typeNamed?_ident x
  | call f argument => exact m.typeNamed?_ident f
  | signed negative p => rfl
  | parens e => rfl

theorem Expression.typeNamed?_head (m : env.Matches ctx) (e : Expression) :
    env.typeNamed? e.head = none := by
  have product (a : Product) : env.typeNamed? a.head = none := by
    obtain ⟨first, rest⟩ := a
    cases first with
    | stepBefore step p => rfl
    | unary op p => rfl
    | plain p => exact p.typeNamed?_head m
    | stepBehind p step => exact p.typeNamed?_head m
  have sum (a : Sum) : env.typeNamed? a.head = none := by
    obtain ⟨negative, first, rest⟩ := a
    cases negative with
    | none => exact product first
    | some negative => rfl
  cases e with
  | sum a => exact sum a
  | compare lhs op rhs => exact sum lhs

/-- The first token of a statement. -/
def Statement.head : Statement → Token.Kind
  | .block _ _ => .symbol "\x7b"
  | .ifThen _ _ => .keyword "if"
  | .ifElse _ _ _ => .keyword "if"
  | .loop _ _ => .keyword "while"
  | .exit => .keyword "break"
  | .next => .keyword "continue"
  | .ret _ => .keyword "return"
  | .empty => .symbol ";"
  | .eval e => e.head

theorem Statement.tokens_eq (t : Statement) : ∃ ks, t.tokens = t.head :: ks := by
  cases t with
  | ret value => cases value <;> exact ⟨_, rfl⟩
  | eval e =>
    obtain ⟨ks, same⟩ := e.tokens_eq
    exact ⟨ks ++ [.symbol ";"], by rw [Statement.tokens, same]; rfl⟩
  | _ => exact ⟨_, rfl⟩

theorem Statement.typeNamed?_head (m : env.Matches ctx) (t : Statement) :
    env.typeNamed? t.head = none := by
  cases t with
  | block ds ss => rfl
  | empty => rfl
  | eval e => exact e.typeNamed?_head m
  | _ => exact m.typeNamed?_statement (by decide)

/-- A token with which an expression begins is none of those that begin other statements. -/
theorem Expression.head_ne {e : Expression} {k : Token.Kind} (h : k.startsExpression = false) :
    e.head ≠ k := by
  intro same
  have starts := e.startsExpression_head
  rw [same, h] at starts
  cases starts

theorem Statement.head_ne {t : Statement} {k : Token.Kind}
    (h : k = .eof ∨ k = .symbol "\x7d" ∨ k = .keyword "else") : t.head ≠ k := by
  cases t with
  | eval e =>
    refine Expression.head_ne ?_
    rcases h with rfl | rfl | rfl <;> rfl
  | _ => rcases h with rfl | rfl | rfl <;> simp [Statement.head]

end Tree

/-! ## Statements without parts -/

section Plain

open OnePass.Tree

variable {env : Env} {ctx : Context} {c : Counters} {n : Nat} {inv : Inventory} {s r : Tokens}

/-- A statement that takes no labels and defines no functions, given how it is read. -/
theorem statement_of_simple {o : Option Stmt} (tallies : c.Tallies n inv)
    (first : s.current.kind ≠ .symbol "\x7b" ∧ s.current.kind ≠ .keyword "if" ∧
      s.current.kind ≠ .keyword "while")
    (plain : ∀ st, o = some st → st.labels = 0 ∧ st.functions n = [])
    (decides : (simpleStatement env s).Decides
      (o.map fun st => ({ code := st.code env.loop n }, some ())) r) :
    (statement env c s).1.Translates env.loop n (o.map (·, inv)) (Outcome.Fits inv) r := by
  rw [statement]
  simp only [Tokens.symbol?_eq_none first.1, Tokens.keyword?_eq_none first.2.1,
    Tokens.keyword?_eq_none first.2.2]
  cases o with
  | none => exact Faulty.bind decides _
  | some st =>
    obtain ⟨labels, functions⟩ := plain st rfl
    refine ⟨⟨c, true⟩, [], ⟨by simp, ?_⟩, ?_⟩
    · rw [labels]
      exact tallies
    · have yields : (simpleStatement env s).Yields { code := st.code env.loop n } (some ()) r :=
        decides
      refine .of_eq ?_ (yields.bind fun h => .pure _)
      simp [Stmt.piece, functions]

/-- The given statement, if the condition holds. -/
theorem resolved_if {b : Bool} {st : Stmt} :
    (if b then some (st, inv) else none) = (if b then some st else none).map (·, inv) := by
  cases b <;> rfl

theorem exit_translates (m : env.Matches ctx) (tallies : c.Tallies n inv)
    (passes : s.Passes Statement.exit.tokens r) :
    (statement env c s).1.Translates env.loop n (Statement.exit.resolve? ctx inv)
      (Outcome.Fits inv) r := by
  have kind : s.current.kind = .keyword "break" := Tokens.Passes.current_kind passes
  obtain ⟨⟨k, pos⟩, ⟨q, reaches, shorter⟩, read, rfl, rest⟩ :=
    Tokens.Passes.uncons passes (by simp)
  rw [Statement.resolve?, resolved_if]
  refine statement_of_simple tallies (by rw [kind]; decide) ?_ ?_
  · intro st h
    split at h <;> cases h
    exact ⟨rfl, rfl⟩
  · have decides := jumpStatement_decides m "break" LoopTargets.exit pos rest
    unfold simpleStatement
    simp only [read, Token.isKeyword, decide_true, if_true]
    refine .reached ?_
    revert decides
    cases ctx.inLoop <;> exact id

theorem next_translates (m : env.Matches ctx) (tallies : c.Tallies n inv)
    (passes : s.Passes Statement.next.tokens r) :
    (statement env c s).1.Translates env.loop n (Statement.next.resolve? ctx inv)
      (Outcome.Fits inv) r := by
  have kind : s.current.kind = .keyword "continue" := Tokens.Passes.current_kind passes
  obtain ⟨⟨k, pos⟩, ⟨q, reaches, shorter⟩, read, rfl, rest⟩ :=
    Tokens.Passes.uncons passes (by simp)
  rw [Statement.resolve?, resolved_if]
  refine statement_of_simple tallies (by rw [kind]; decide) ?_ ?_
  · intro st h
    split at h <;> cases h
    exact ⟨rfl, rfl⟩
  · have decides := jumpStatement_decides m "continue" LoopTargets.next pos rest
    unfold simpleStatement
    simp only [read, Token.isKeyword, Token.Kind.keyword.injEq, String.reduceEq,
      decide_false, Bool.false_eq_true, decide_true, if_true, if_false]
    refine .reached ?_
    revert decides
    cases ctx.inLoop <;> exact id

theorem ret_translates (m : env.Matches ctx) (tallies : c.Tallies n inv) :
    ∀ value : Option Expression, (Statement.ret value).greedy = true →
    s.Passes (Statement.ret value).tokens r →
    (statement env c s).1.Translates env.loop n ((Statement.ret value).resolve? ctx inv)
      (Outcome.Fits inv) r
  | none, _, passes => by
    have kind : s.current.kind = .keyword "return" := Tokens.Passes.current_kind passes
    obtain ⟨⟨k, pos⟩, ⟨q, reaches, shorter⟩, read, rfl, rest⟩ :=
      Tokens.Passes.uncons passes (by simp)
    rw [Statement.resolve?, resolved_if]
    refine statement_of_simple tallies (by rw [kind]; decide) ?_ ?_
    · intro st h
      split at h <;> cases h
      exact ⟨rfl, rfl⟩
    · have decides := returnStatement_bare m pos rest
      unfold simpleStatement
      simp only [read, Token.isKeyword, Token.Kind.keyword.injEq, String.reduceEq,
        decide_false, Bool.false_eq_true, decide_true, if_true, if_false]
      refine .reached ?_
      revert decides
      cases ctx.mayReturn none <;> exact id
  | some e, greedy, passes => by
    have kind : s.current.kind = .keyword "return" := Tokens.Passes.current_kind passes
    obtain ⟨⟨k, pos⟩, ⟨q, reaches, shorter⟩, read, rfl, rest⟩ :=
      Tokens.Passes.uncons passes (by simp)
    obtain ⟨p, inside, closing⟩ := Tokens.Passes.split rest
    have decides := returnStatement_value m pos greedy inside closing
    have resolved : (Statement.ret (some e)).resolve? ctx inv =
        ((e.resolve? ctx).bind fun (type, t) =>
          if ctx.mayReturn (some type) then some (Stmt.ret (some t)) else none).map (·, inv) := by
      rw [Statement.resolve?, Option.map_bind]
      congr 1
      funext x
      exact resolved_if
    rw [resolved]
    refine statement_of_simple tallies (by rw [kind]; decide) ?_ ?_
    · intro st h
      simp only [Option.bind_eq_some_iff, Option.ite_none_right_eq_some, Option.some.injEq] at h
      obtain ⟨x, -, -, rfl⟩ := h
      exact ⟨rfl, rfl⟩
    · unfold simpleStatement
      simp only [read, Token.isKeyword, Token.Kind.keyword.injEq, String.reduceEq,
        decide_false, Bool.false_eq_true, decide_true, if_true, if_false]
      refine .reached ?_
      revert decides
      cases e.resolve? ctx with
      | none => exact id
      | some x =>
        simp only [Option.bind_some]
        cases ctx.mayReturn (some x.1) <;> exact id

theorem empty_translates (tallies : c.Tallies n inv) (passes : s.Passes Statement.empty.tokens r) :
    (statement env c s).1.Translates env.loop n (Statement.empty.resolve? ctx inv)
      (Outcome.Fits inv) r := by
  have kind : s.current.kind = .symbol ";" := Tokens.Passes.current_kind passes
  obtain ⟨⟨k, pos⟩, ⟨q, reaches, shorter⟩, read, rfl, rest⟩ :=
    Tokens.Passes.uncons passes (by simp)
  obtain rfl := rest.eq_of_nil
  refine statement_of_simple (o := some .skip) tallies (by rw [kind]; decide) ?_ ?_
  · intro st h
    cases h
    exact ⟨rfl, rfl⟩
  · unfold simpleStatement
    simp only [read, Token.isKeyword, Token.isSymbol, reduceCtorEq, decide_false,
      Bool.false_eq_true, decide_true, if_true, if_false]
    exact Run.Yields.reached (.pure (some ()))

theorem eval_translates (m : env.Matches ctx) (tallies : c.Tallies n inv) {e : Expression}
    (greedy : e.greedy = true) (passes : s.Passes (Statement.eval e).tokens r) :
    (statement env c s).1.Translates env.loop n ((Statement.eval e).resolve? ctx inv)
      (Outcome.Fits inv) r := by
  obtain ⟨q, inside, closing⟩ := Tokens.Passes.split passes
  have decides := expressionStatement_decides m greedy inside closing
  obtain ⟨ks, same⟩ := e.tokens_eq
  have begins : s.Passes (e.head :: ks) q := same ▸ inside
  have kind : s.current.kind = e.head := begins.current_kind
  obtain ⟨⟨k, pos⟩, tail, read, rfl, -⟩ := begins.uncons (Expression.head_ne rfl)
  have resolved : (Statement.eval e).resolve? ctx inv =
      ((e.resolve? ctx).map fun (_, t) => Stmt.eval t).map (·, inv) := by
    rw [Statement.resolve?, Option.map_map]
    rfl
  rw [resolved]
  refine statement_of_simple tallies ?_ ?_ ?_
  · rw [kind]
    exact ⟨Expression.head_ne rfl, Expression.head_ne rfl, Expression.head_ne rfl⟩
  · intro st h
    obtain ⟨x, -, rfl⟩ := Option.map_eq_some_iff.1 h
    exact ⟨rfl, rfl⟩
  · have isKeyword (word : String) : decide (e.head = .keyword word) = false :=
      decide_eq_false (Expression.head_ne rfl)
    have isSemicolon : decide (e.head = .symbol ";") = false :=
      decide_eq_false (Expression.head_ne rfl)
    unfold simpleStatement
    simp only [read, Token.isKeyword, Token.isSymbol, isKeyword, isSemicolon,
      e.typeNamed?_head m, e.startsExpression_head, Option.isSome_none, Bool.false_eq_true,
      if_false, if_true]
    revert decides
    cases e.resolve? ctx <;> exact id

end Plain

/-! ## Declarations -/

section Declaring

open OnePass.Tree

variable {env : Env} {ctx : Context} {s r : Tokens}

theorem Env.typeName?_eq_none (h : env.typeNamed? s.current.kind = none) :
    env.typeName? s = none := by
  unfold Env.typeName?
  cases read : s.uncons? with
  | none => rfl
  | some x =>
    rw [Tokens.current_of_uncons? read] at h
    simp [h]

theorem typeName?_of_passes (m : env.Matches ctx) {w : TypeWord} {ks : List Token.Kind}
    (passes : s.Passes (w.kind :: ks) r) :
    ∃ tail, env.typeName? s = some (w.type, tail) ∧ tail.stream.Passes ks r := by
  obtain ⟨⟨k, pos⟩, tail, read, rfl, rest⟩ := passes.uncons (by simp [TypeWord.kind])
  exact ⟨tail, by simp [Env.typeName?, read, m.typeNamed?_keyword], rest⟩

theorem typeName_yields (m : env.Matches ctx) {w : TypeWord} (passes : s.Passes [w.kind] r) :
    (typeName env s).Yields {} (some w.type) r := by
  obtain ⟨⟨q, reaches, shorter⟩, read, rest⟩ := typeName?_of_passes m passes
  obtain rfl := rest.eq_of_nil
  unfold typeName
  rw [read]
  exact .reached (.pure (some w.type))

theorem identifier_yields {name : String} (passes : s.Passes [.ident name] r) :
    (identifier s).Yields {} (some (name, s.current.pos)) r := by
  obtain ⟨⟨k, pos⟩, ⟨q, reaches, shorter⟩, read, rfl, rest⟩ := passes.uncons (by simp)
  obtain rfl := rest.eq_of_nil
  rw [Tokens.current_of_uncons? read]
  unfold identifier
  rw [read]
  exact .reached (.pure (some (name, pos)))

theorem parameter_yields (m : env.Matches ctx) {w : TypeWord} {x : Name}
    (passes : s.Passes [w.kind, .ident x.text, .symbol ")"] r) :
    ∃ pos, (parameter env s).Yields {} (some ⟨w.type, x.text, pos⟩) r := by
  obtain ⟨p, typed, passes⟩ := passes.cons
  obtain ⟨q, named, closing⟩ := passes.cons
  refine ⟨p.current.pos, ?_⟩
  unfold parameter
  refine .of_eq (Piece.empty_append {}) ((typeName_yields m typed).andThen fun h => ?_)
  refine .of_eq (Piece.empty_append {}) ((identifier_yields named).andThen fun h => ?_)
  exact .of_eq (Piece.empty_append {}) ((expect_yields env closing).andThen fun h => .pure _)

end Declaring

/-! ## Statements with parts

For each construct: what it adds, given what its parts add. -/

theorem Stmt.piece_append (st st' : Stmt) (targets : Option LoopTargets) (n : Nat)
    (new new' : List (String × ValueType)) :
    st.piece targets n new ++ st'.piece targets (n + st.labels) new' =
      (Stmt.seq st st').piece targets n (new ++ new') := by
  ext1 <;> simp [Stmt.piece, Stmt.code, Stmt.functions]

section Parts

open OnePass.Tree

variable {env : Env} {ctx : Context} {c : Counters} {n : Nat} {inv : Inventory}
  {s p q r : Tokens}

theorem block_translates {ds : Declarations} {ss : Statements}
    (hds : (declarations { env with scopes := env.scopes.enter } c s).Translates env.loop n
      (ds.resolve? ctx.enter inv) (Declared.Fits { env with scopes := env.scopes.enter } inv) p)
    (hss : ∀ (d : Declared) (inside : Context) (inv' : Inventory) (k : Nat),
      Env.Matches { env with scopes := d.scopes } inside → d.counters.Tallies k inv' →
      (statements { env with scopes := d.scopes } d.counters p).Translates env.loop k
        (ss.resolve? inside inv') (Counters.Fits inv') q)
    (closing : q.Passes [.symbol "\x7d"] r) :
    (block env c s).Translates env.loop n ((Statement.block ds ss).resolve? ctx inv)
      (Outcome.Fits inv) r := by
  rw [block, Statement.resolve?]
  cases declared : ds.resolve? ctx.enter inv with
  | none =>
    rw [declared] at hds
    exact Faulty.right (Faulty.bind hds _) _
  | some v =>
    obtain ⟨st, inside, inv'⟩ := v
    rw [declared] at hds
    obtain ⟨d, new, fits, yields⟩ := hds
    have following := hss d inside inv' (n + st.labels) fits.scopes fits.counters.2
    simp only [Option.bind_some]
    cases resolved : ss.resolve? inside inv' with
    | none =>
      rw [resolved] at following
      exact Faulty.right (yields.faulty fun h => Faulty.bind following _) _
    | some w =>
      obtain ⟨st', inv''⟩ := w
      rw [resolved] at following
      obtain ⟨c', new', fits', yields'⟩ := following
      refine ⟨⟨c', true⟩, new ++ new', ⟨?_, ?_⟩, ?_⟩
      · rw [fits'.1, fits.counters.1, List.append_assoc]
      · rw [Stmt.labels, ← Nat.add_assoc]
        exact fits'.2
      · rw [← Stmt.piece_append]
        refine .of_eq (Piece.empty_append _) (.after (.scope _ .nil) (.silent rfl) ?_)
        refine yields.bind fun h => ?_
        refine .of_eq (Piece.append_empty _) (yields'.bind fun h => ?_)
        refine .of_eq (Piece.empty_append _) ((expect_yields env closing).bind fun h => ?_)
        exact .of_eq (Piece.empty_append _) (.after (.scope _ .nil) (.silent rfl) (.pure _))

/-- The counters after a label was taken. -/
theorem Counters.Tallies.withLabel (h : c.Tallies n inv) : c.withLabel.Tallies (n + 1) inv :=
  ⟨congrArg (· + 1) h.labels, h.locals, h.defined⟩

theorem ifThen_translates {e : Expression} {t : Statement} (tallies : c.Tallies n inv)
    (he : (condition env s).Decides
      ((e.condition? ctx).map fun t => ({ code := t.code }, some ())) p)
    (ht : (statement env c.withLabel p).1.Translates env.loop (n + 1) (t.resolve? ctx inv)
      (Outcome.Fits inv) r)
    (noElse : r.current.kind ≠ .keyword "else") :
    (conditional env c s).Translates env.loop n ((Statement.ifThen e t).resolve? ctx inv)
      (Outcome.Fits inv) r := by
  rw [conditional, Statement.resolve?]
  cases condition : e.condition? ctx with
  | none =>
    rw [condition] at he
    exact Faulty.bind he _
  | some term =>
    rw [condition] at he
    have he : Run.Yields _ _ _ _ := he
    simp only [Option.bind_some]
    cases resolved : t.resolve? ctx inv with
    | none =>
      rw [resolved] at ht
      exact he.faulty fun h => Faulty.right (Faulty.bind ht _) _
    | some v =>
      obtain ⟨st, inv'⟩ := v
      rw [resolved] at ht
      obtain ⟨o, new, fits, yields⟩ := ht
      refine ⟨⟨o.counters, true⟩, new, ⟨fits.1, ?_⟩, ?_⟩
      · rw [Stmt.labels, Nat.add_comm st.labels 1, ← Nat.add_assoc]
        exact fits.2
      · obtain ⟨rfl, -, -⟩ := tallies
        refine .of_eq (p := { code := term.code } ++ ({ code := [.jumpUnless c.labels] } ++
          (st.piece env.loop (c.labels + 1) new ++ ({ code := [.mark c.labels] } ++ {})))) ?_
          (he.bind fun h => ?_)
        · ext1 <;> simp [Stmt.piece, Stmt.code, Stmt.functions]
        · refine .after (.code _ (.code _ .nil)) (.append .reserveLabel (.emit _)) ?_
          refine yields.bind fun h => ?_
          simp only [Tokens.keyword?_eq_none noElse]
          exact .after (.code _ .nil) (.emit _) (.pure _)

theorem ifElse_translates {e : Expression} {t t' : Statement} (tallies : c.Tallies n inv)
    (he : (condition env s).Decides
      ((e.condition? ctx).map fun t => ({ code := t.code }, some ())) p)
    (ht : (statement env c.withLabel p).1.Translates env.loop (n + 1) (t.resolve? ctx inv)
      (Outcome.Fits inv) q)
    {tail : q.Tail} (otherwise : q.keyword? "else" = some tail)
    (ht' : ∀ (c' : Counters) (inv' : Inventory) (k : Nat), c'.Tallies k inv' →
      (statement env c' tail.stream).1.Translates env.loop k (t'.resolve? ctx inv')
        (Outcome.Fits inv') r) :
    (conditional env c s).Translates env.loop n ((Statement.ifElse e t t').resolve? ctx inv)
      (Outcome.Fits inv) r := by
  rw [conditional, Statement.resolve?]
  cases condition : e.condition? ctx with
  | none =>
    rw [condition] at he
    exact Faulty.bind he _
  | some term =>
    rw [condition] at he
    have he : Run.Yields _ _ _ _ := he
    simp only [Option.bind_some]
    cases resolved : t.resolve? ctx inv with
    | none =>
      rw [resolved] at ht
      exact he.faulty fun h => Faulty.right (Faulty.bind ht _) _
    | some v =>
      obtain ⟨st, inv'⟩ := v
      rw [resolved] at ht
      obtain ⟨o, new, fits, yields⟩ := ht
      obtain ⟨after, reaches, shorter⟩ := tail
      have following := ht' o.counters.withLabel inv' (n + 1 + st.labels + 1) fits.2.withLabel
      simp only [Option.bind_some]
      cases resolved' : t'.resolve? ctx inv' with
      | none =>
        rw [resolved'] at following
        refine he.faulty fun h => Faulty.right (yields.faulty fun h => ?_) _
        simp only [otherwise, Run.events_after, Run.events_reached]
        exact Faulty.right (Faulty.bind following _) _
      | some w =>
        obtain ⟨st', inv''⟩ := w
        rw [resolved'] at following
        obtain ⟨o', new', fits', yields'⟩ := following
        refine ⟨⟨o'.counters, true⟩, new ++ new', ⟨?_, ?_⟩, ?_⟩
        · rw [fits'.1, fits.1, List.append_assoc]
        · rw [Stmt.labels, show n + (st.labels + st'.labels + 2) =
            n + 1 + st.labels + 1 + st'.labels by omega]
          exact fits'.2
        · obtain ⟨rfl, -, -⟩ := tallies
          have finish : o.counters.labels = c.labels + 1 + st.labels := fits.2.labels
          refine .of_eq (p := { code := term.code } ++ ({ code := [.jumpUnless c.labels] } ++
            (st.piece env.loop (c.labels + 1) new ++
              ({ code := [.jump o.counters.labels, .mark c.labels] } ++
                (st'.piece env.loop (c.labels + 1 + st.labels + 1) new' ++
                  ({ code := [.mark o.counters.labels] } ++ {})))))) ?_ (he.bind fun h => ?_)
          · rw [finish]
            ext1 <;> simp [Stmt.piece, Stmt.code, Stmt.functions]
          · refine .after (.code _ (.code _ .nil)) (.append .reserveLabel (.emit _)) ?_
            refine yields.bind fun h => ?_
            simp only [otherwise]
            refine .after (.code _ (.code _ (.code _ .nil)))
              (.append .reserveLabel (.append (.emit _) (.emit _))) (.reached ?_)
            exact yields'.bind fun h => .after (.code _ .nil) (.emit _) (.pure _)

theorem loop_translates {e : Expression} {t : Statement} (tallies : c.Tallies n inv)
    (he : (condition env s).Decides
      ((e.condition? ctx).map fun t => ({ code := t.code }, some ())) p)
    (ht : (statement { env with loop := some ⟨n, n + 1⟩ } c.withLabel.withLabel p).1.Translates
      (some ⟨n, n + 1⟩) (n + 2) (t.resolve? ctx.enterLoop inv) (Outcome.Fits inv) r) :
    (loop env c s).Translates env.loop n ((Statement.loop e t).resolve? ctx inv)
      (Outcome.Fits inv) r := by
  obtain ⟨rfl, -, -⟩ := tallies
  rw [loop, Statement.resolve?]
  cases condition : e.condition? ctx with
  | none =>
    rw [condition] at he
    exact Faulty.right (Faulty.bind he _) _
  | some term =>
    rw [condition] at he
    have he : Run.Yields _ _ _ _ := he
    simp only [Option.bind_some]
    cases resolved : t.resolve? ctx.enterLoop inv with
    | none =>
      rw [resolved] at ht
      exact Faulty.right (he.faulty fun h => Faulty.right (Faulty.bind ht _) _) _
    | some v =>
      obtain ⟨st, inv'⟩ := v
      rw [resolved] at ht
      obtain ⟨o, new, fits, yields⟩ := ht
      refine ⟨⟨o.counters, true⟩, new, ⟨fits.1, ?_⟩, ?_⟩
      · rw [Stmt.labels, Nat.add_comm st.labels 2, ← Nat.add_assoc]
        exact fits.2
      · refine .of_eq (p := { code := [.mark c.labels] } ++ ({ code := term.code } ++
          ({ code := [.jumpUnless (c.labels + 1)] } ++
            (st.piece (some ⟨c.labels, c.labels + 1⟩) (c.labels + 2) new ++
              ({ code := [.jump c.labels, .mark (c.labels + 1)] } ++ {}))))) ?_
          (.after (.code _ (.code _ (.code _ .nil)))
            (.append .reserveLabel (.append .reserveLabel (.emit _))) (he.bind fun h => ?_))
        · ext1 <;> simp [Stmt.piece, Stmt.code, Stmt.functions]
        · refine .after (.code _ .nil) (.emit _) (yields.bind fun h => ?_)
          exact .after (.code _ (.code _ .nil)) (.append (.emit _) (.emit _)) (.pure _)

theorem var_translates {type : TypeWord} {x : Name} (m : env.Matches ctx)
    (inBlock : ctx.blocks ≠ []) (tallies : c.Tallies n inv)
    (passes : s.Passes [.ident x.text, .symbol ";"] r) :
    (declaration env c type.type s).Translates env.loop n
      ((Declaration.var type x).resolve? ctx inv) (Declared.Fits env inv) r := by
  obtain ⟨p, named, closing⟩ := passes.cons
  have name := identifier_yields named
  have noParenthesis : p.symbol? "(" = none := by
    refine Tokens.symbol?_eq_none ?_
    rw [closing.current_kind]
    decide
  rw [declaration, Declaration.resolve?, ← m.bindsInnermost_eq inBlock x]
  cases fresh : env.scopes.bindsInnermost x.text with
  | true =>
    refine name.faulty fun h => ?_
    simp only [fresh, if_true]
    exact .head _ _ _
  | false =>
    have symbol : env.localSymbol c x.text type.type s.current.pos =
        ⟨x.text, (Entity.slot type.type inv.locals.length ctx.frame).meaning,
          some s.current.pos⟩ := by
      rw [Env.localSymbol, tallies.locals, m.frame_eq]
      rfl
    simp only [Bool.false_eq_true, if_false]
    refine ⟨⟨env.scopes.declare (env.localSymbol c x.text type.type s.current.pos), c.withLocal⟩,
      [(x.text, type.type)], ⟨⟨rfl, ?_⟩, ?_, ?_⟩, ?_⟩
    · refine ⟨tallies.labels, ?_, tallies.defined⟩
      rw [Counters.withLocal, tallies.locals, List.length_append]
      rfl
    · rw [symbol]
      exact m.declare inBlock x _ _
    · exact List.cons_ne_nil _ _
    · refine .of_eq (p := {} ++ ({ locals := [(x.text, type.type)] } ++ ({} ++ {}))) ?_
        (name.bind fun h => ?_)
      · simp [Stmt.piece, Stmt.code, Stmt.functions]
      · simp only [fresh, Bool.false_eq_true, if_false, noParenthesis]
        refine .after (.code _ (.scope _ .nil)) (.skipLast rfl (.reserveLocal _ _)) ?_
        exact (expect_yields env closing).bind fun h => .pure _

/-- A function around a run: what the run adds becomes a function, whose parameter is its first
local. -/
theorem Run.Yields.definition {α β : Type} {x : Run s α} {piece : Piece} {a : α} (g : α → β)
    (f symbol : Symbol) (link : String) (signature : Signature) (name : String) (type : ValueType)
    (hx : x.Yields piece a r) :
    (Run.after
      [.scope (.declare f), .code (.openFunction link signature), .scope .enter,
        .code (.reserveLocal name type), .scope (.declare symbol)]
      (x.bind fun _ _ a =>
        Run.after [.scope .leave, .code .closeFunction] (.pure (g a)))).Yields
      { functions := piece.functions ++
          [{ piece with locals := (name, type) :: piece.locals }.body link (some signature)] }
      (g a) r := by
  refine ⟨congrArg g hx.value, hx.rest, ?_, ?_⟩
  · refine .append ?_ (.append hx.mild ?_)
    · exact .scope _ (.code _ (.scope _ (.code _ (.scope _ .nil))))
    · exact .scope _ (.code _ .nil)
  · have builds := Builds.definition f symbol link signature name type hx.builds
    rw [List.append_assoc] at builds
    exact builds

theorem function_translates {ret type : TypeWord} {f x : Name} {ds : Declarations}
    {ss : Statements} (m : env.Matches ctx) (inBlock : ctx.blocks ≠ []) (tallies : c.Tallies n inv)
    (opening : s.Passes [.ident f.text, .symbol "("] p)
    (parameter : p.Passes [type.kind, .ident x.text, .symbol ")"] q)
    {tail : q.Tail} (brace : q.symbol? "\x7b" = some tail)
    (hb : ∀ (env' : Env) (c' : Counters) (inside : Context) (inv' : Inventory),
      env'.Matches inside → c'.Tallies n inv' →
      (block env' c' tail.stream).Translates env'.loop n
        ((Statement.block ds ss).resolve? inside inv') (Outcome.Fits inv') r) :
    (declaration env c ret.type s).Translates env.loop n
      ((Declaration.function ret f type x ds ss).resolve? ctx inv) (Declared.Fits env inv) r := by
  obtain ⟨p', named, parenthesis⟩ := opening.cons
  obtain ⟨⟨p'', reaches, shorter⟩, read, rest⟩ := parenthesis.symbol
  obtain rfl := rest.eq_of_nil
  have name := identifier_yields named
  obtain ⟨pos, given⟩ := parameter_yields m parameter
  rw [declaration, resolve?_function, ← m.bindsInnermost_eq inBlock f]
  cases fresh : env.scopes.bindsInnermost f.text with
  | true =>
    refine name.faulty fun h => ?_
    simp only [fresh, if_true]
    exact .head _ _ _
  | false =>
    obtain ⟨q', reaches', shorter'⟩ := tail
    have declared := m.declare inBlock f (.function (inv.link f) ⟨type.type, ret.type⟩)
      (some s.current.pos)
    have link : c.linkName f.text = inv.link f := tallies.linkName_eq f
    have inner := hb _ { labels := c.labels, locals := 1, defined := f.text :: c.defined } _
      ⟨[(x.text, type.type)], f :: inv.defined⟩
      (declared.enterFunction ⟨type.type, ret.type⟩ x pos)
      ⟨tallies.labels, rfl, by rw [tallies.defined]; rfl⟩
    simp only [Bool.false_eq_true, if_false]
    revert inner
    cases resolved : (Statement.block ds ss).resolve?
      ((ctx.declare f (.function (inv.link f) ⟨type.type, ret.type⟩)).enterFunction
        ⟨type.type, ret.type⟩ x) ⟨[(x.text, type.type)], f :: inv.defined⟩ with
    | none =>
      intro inner
      refine name.faulty fun h => ?_
      simp only [fresh, Bool.false_eq_true, if_false, read, Run.events_reached]
      rw [definition]
      refine given.faulty fun h => ?_
      simp only [link]
      rw [body]
      simp only [brace]
      exact Faulty.right (Faulty.left inner _) _
    | some v =>
      rintro ⟨o, new, fits, yields⟩
      refine ⟨⟨env.scopes.declare ⟨f.text, .function (inv.link f) ⟨type.type, ret.type⟩,
        some s.current.pos⟩, { o.counters with locals := c.locals }⟩, [],
        ⟨⟨?_, ?_⟩, declared, List.cons_ne_nil _ _⟩, ?_⟩
      · exact (List.append_nil _).symm
      · exact ⟨fits.2.labels, tallies.locals, fits.2.defined⟩
      · refine .of_eq (Piece.empty_append _) (name.bind fun h => ?_)
        simp only [fresh, Bool.false_eq_true, if_false, read]
        refine .reached ?_
        rw [definition]
        refine .of_eq (Piece.empty_append _) (given.bind fun h => ?_)
        simp only [link]
        rw [body]
        simp only [brace]
        refine .of_eq ?_ (.definition _ _ _ _ _ _ _ (.reached yields))
        have locals : v.2.locals = (x.text, type.type) :: new := fits.1
        simp [Stmt.piece, Stmt.code, Stmt.functions, Piece.body, Function.compiled, locals]

end Parts

/-! ## Programs -/

/-- Statements begin with the first token of a statement, unless there are none. -/
theorem statements_first {ss : Tree.Statements} {s r : Tokens} (passes : s.Passes ss.tokens r) :
    s = r ∨ ∃ t : Tree.Statement, s.current.kind = t.head := by
  cases ss with
  | nil => exact .inl passes.eq_of_nil.symm
  | cons t ss =>
    obtain ⟨p, first, -⟩ := Tokens.Passes.split passes
    obtain ⟨ks, same⟩ := t.tokens_eq
    exact .inr ⟨t, Tokens.Passes.current_kind (same ▸ first)⟩

/-- Statements in a block and the brace behind them do not begin with the name of a type. -/
theorem statements_untyped {ss : Tree.Statements} {s q r : Tokens} (inside : s.Passes ss.tokens q)
    (closing : q.Passes [.symbol "\x7d"] r) {env : Env} {ctx : Context} (m : env.Matches ctx) :
    env.typeNamed? s.current.kind = none := by
  rcases statements_first inside with rfl | ⟨t, first⟩
  · rw [closing.current_kind]
    rfl
  · rw [first]
    exact t.typeNamed?_head m

/-- Statements do not begin with `else`, and neither does what ends them. -/
theorem statements_no_else {ss : Tree.Statements} {s r : Tokens} (passes : s.Passes ss.tokens r)
    (last : r.current.kind = .eof ∨ r.current.kind = .symbol "\x7d") :
    s.current.kind ≠ .keyword "else" := by
  rcases statements_first passes with rfl | ⟨t, first⟩
  · rcases last with last | last <;> simp [last]
  · rw [first]
    exact Tree.Statement.head_ne (.inr (.inr rfl))

/-- A statement, and then those behind it, given how these are read. -/
theorem sequence_translates {t : Tree.Statement} {ss : Tree.Statements} {env : Env} {ctx : Context}
    {n : Nat} {inv : Inventory} {s q r : Tokens} {x : Run s Outcome}
    {f : (r : Tokens) → Counters → Run r Counters} (shorter : x.rest.left < s.left)
    (hx : x.Translates env.loop n (t.resolve? ctx inv) (Outcome.Fits inv) q)
    (hf : ∀ (c' : Counters) (inv' : Inventory) (k : Nat), c'.Tallies k inv' →
      (f q c').Translates env.loop k (ss.resolve? ctx inv') (Counters.Fits inv') r) :
    (x.bindShorter shorter fun r _ o => f r o.counters).Translates env.loop n
      ((Tree.Statements.cons t ss).resolve? ctx inv) (Counters.Fits inv) r := by
  rw [Tree.Statements.resolve?]
  cases resolved : t.resolve? ctx inv with
  | none =>
    rw [resolved] at hx
    exact Faulty.left hx _
  | some v =>
    obtain ⟨st, inv'⟩ := v
    rw [resolved] at hx
    obtain ⟨o, new, fits, value, rfl, mild, builds⟩ := hx
    obtain rfl := value
    have following := hf x.value.counters inv' (n + st.labels) fits.2
    simp only [Option.bind_some]
    cases resolved' : ss.resolve? ctx inv' with
    | none =>
      rw [resolved'] at following
      exact Faulty.right following _
    | some w =>
      obtain ⟨st', inv''⟩ := w
      rw [resolved'] at following
      obtain ⟨c', new', fits', yields⟩ := following
      refine ⟨c', new ++ new', ⟨?_, ?_⟩, ?_⟩
      · rw [fits'.1, fits.1, List.append_assoc]
      · rw [Stmt.labels, ← Nat.add_assoc]
        exact fits'.2
      · rw [← Stmt.piece_append]
        exact ⟨yields.value, yields.rest, mild.append yields.mild, builds.append yields.builds⟩

section Reading

open OnePass.Tree

mutual

theorem statement_translates : ∀ (t : Statement) {env : Env} {ctx : Context} {c : Counters}
    {n : Nat} {inv : Inventory} {s r : Tokens}, env.Matches ctx → c.Tallies n inv →
    t.greedy = true → s.Passes t.tokens r → (t.endsOpen = true → r.current.kind ≠ .keyword "else") →
    (statement env c s).1.Translates env.loop n (t.resolve? ctx inv) (Outcome.Fits inv) r
  | .block ds ss, env, ctx, c, n, inv, s, r, m, tallies, greedy, passes, _ => by
    simp only [Statement.greedy, Bool.and_eq_true] at greedy
    obtain ⟨⟨q, reaches, shorter⟩, read, passes⟩ := Tokens.Passes.symbol passes
    obtain ⟨p, declared, passes⟩ := Tokens.Passes.split passes
    obtain ⟨q', inside, closing⟩ := Tokens.Passes.split passes
    have block := block_translates
      (declarations_translates ds m.enter tallies (List.cons_ne_nil _ _) greedy.1 declared
        (statements_untyped inside closing))
      (fun d inside' inv' k m' tallies' =>
        statements_translates ss m' tallies' greedy.2 inside closing.current_kind)
      closing
    rw [statement]
    simp only [read]
    exact block.reached
  | .ifThen e t, env, ctx, c, n, inv, s, r, m, tallies, greedy, passes, noElse => by
    simp only [Statement.greedy, Bool.and_eq_true] at greedy
    have kind : s.current.kind = .keyword "if" := Tokens.Passes.current_kind passes
    obtain ⟨⟨q, reaches, shorter⟩, read, passes⟩ := Tokens.Passes.keyword passes
    obtain ⟨p₁, opening, passes⟩ := passes.cons
    obtain ⟨p₂, inside, passes⟩ := Tokens.Passes.split passes
    obtain ⟨p₃, closing, passes⟩ := passes.cons
    have conditional := ifThen_translates tallies
      (condition_decides m greedy.1 opening inside closing)
      (statement_translates t m tallies.withLabel greedy.2 passes fun _ => noElse rfl) (noElse rfl)
    rw [statement, Tokens.symbol?_eq_none (by rw [kind]; decide)]
    simp only [read]
    exact conditional.reached
  | .ifElse e t t', env, ctx, c, n, inv, s, r, m, tallies, greedy, passes, noElse => by
    simp only [Statement.greedy, Bool.and_eq_true, Bool.not_eq_true'] at greedy
    have kind : s.current.kind = .keyword "if" := Tokens.Passes.current_kind passes
    obtain ⟨⟨q, reaches, shorter⟩, read, passes⟩ := Tokens.Passes.keyword passes
    obtain ⟨p₁, opening, passes⟩ := passes.cons
    obtain ⟨p₂, inside, passes⟩ := Tokens.Passes.split passes
    obtain ⟨p₃, closing, passes⟩ := passes.cons
    obtain ⟨p₄, first, passes⟩ := Tokens.Passes.split passes
    obtain ⟨tail, otherwise, second⟩ := passes.keyword
    have conditional := ifElse_translates tallies
      (condition_decides m greedy.1.1.1 opening inside closing)
      (statement_translates t m tallies.withLabel greedy.1.1.2 first fun ends => by
        rw [greedy.1.2] at ends
        cases ends)
      otherwise
      (fun c' inv' k tallies' => statement_translates t' m tallies' greedy.2 second noElse)
    rw [statement, Tokens.symbol?_eq_none (by rw [kind]; decide)]
    simp only [read]
    exact conditional.reached
  | .loop e t, env, ctx, c, n, inv, s, r, m, tallies, greedy, passes, noElse => by
    simp only [Statement.greedy, Bool.and_eq_true] at greedy
    have kind : s.current.kind = .keyword "while" := Tokens.Passes.current_kind passes
    obtain ⟨⟨q, reaches, shorter⟩, read, passes⟩ := Tokens.Passes.keyword passes
    obtain ⟨p₁, opening, passes⟩ := passes.cons
    obtain ⟨p₂, inside, passes⟩ := Tokens.Passes.split passes
    obtain ⟨p₃, closing, passes⟩ := passes.cons
    have loop := loop_translates tallies (condition_decides m greedy.1 opening inside closing)
      (statement_translates t (m.enterLoop ⟨n, n + 1⟩) tallies.withLabel.withLabel greedy.2 passes
        noElse)
    rw [statement, Tokens.symbol?_eq_none (by rw [kind]; decide),
      Tokens.keyword?_eq_none (by rw [kind]; decide)]
    simp only [read]
    exact loop.reached
  | .exit, _, _, _, _, _, _, _, m, tallies, _, passes, _ => exit_translates m tallies passes
  | .next, _, _, _, _, _, _, _, m, tallies, _, passes, _ => next_translates m tallies passes
  | .ret value, _, _, _, _, _, _, _, m, tallies, greedy, passes, _ =>
    ret_translates m tallies value greedy passes
  | .empty, _, _, _, _, _, _, _, _, tallies, _, passes, _ => empty_translates tallies passes
  | .eval _, _, _, _, _, _, _, _, m, tallies, greedy, passes, _ =>
    eval_translates m tallies greedy passes

theorem statements_translates : ∀ (ss : Statements) {env : Env} {ctx : Context} {c : Counters}
    {n : Nat} {inv : Inventory} {s r : Tokens}, env.Matches ctx → c.Tallies n inv →
    ss.greedy = true → s.Passes ss.tokens r → r.current.kind = .symbol "\x7d" →
    (statements env c s).Translates env.loop n (ss.resolve? ctx inv) (Counters.Fits inv) r
  | .nil, env, ctx, c, n, inv, s, r, m, tallies, _, passes, closing => by
    obtain rfl := passes.eq_of_nil
    rw [statements]
    simp only [Token.isSymbol, closing, decide_true, if_true]
    exact ⟨c, [], ⟨(List.append_nil _).symm, tallies⟩, .pure c⟩
  | .cons t ss, env, ctx, c, n, inv, s, r, m, tallies, greedy, passes, closing => by
    simp only [Statements.greedy, Bool.and_eq_true] at greedy
    obtain ⟨q, first, passes⟩ := Tokens.Passes.split passes
    obtain ⟨ks, same⟩ := t.tokens_eq
    have kind : s.current.kind = t.head := Tokens.Passes.current_kind (same ▸ first)
    have notClosing : decide (t.head = .symbol "\x7d") = false :=
      decide_eq_false (Statement.head_ne (.inr (.inl rfl)))
    have notEnd : decide (t.head = .eof) = false := decide_eq_false (Statement.head_ne (.inl rfl))
    have this := statement_translates t m tallies greedy.1 first
      fun _ => statements_no_else passes (.inr closing)
    rw [statements]
    simp only [Token.isSymbol, Tokens.atEnd, Token.isEof, kind, notClosing, notEnd,
      Bool.false_eq_true, if_false, dite_false]
    exact sequence_translates (f := fun r c => statements env c r) _ this
      fun c' inv' k tallies' => statements_translates ss m tallies' greedy.2 passes closing

theorem declarations_translates : ∀ (ds : Declarations) {env : Env} {ctx : Context} {c : Counters}
    {n : Nat} {inv : Inventory} {s r : Tokens}, env.Matches ctx → c.Tallies n inv →
    ctx.blocks ≠ [] → ds.greedy = true → s.Passes ds.tokens r →
    (∀ {env : Env} {ctx : Context}, env.Matches ctx → env.typeNamed? r.current.kind = none) →
    (declarations env c s).Translates env.loop n (ds.resolve? ctx inv) (Declared.Fits env inv) r
  | .nil, env, ctx, c, n, inv, s, r, m, tallies, inBlock, _, passes, untyped => by
    obtain rfl := passes.eq_of_nil
    rw [declarations, Env.typeName?_eq_none (untyped m)]
    exact ⟨⟨env.scopes, c⟩, [], ⟨⟨(List.append_nil _).symm, tallies⟩, m, inBlock⟩, .pure _⟩
  | .cons d ds, env, ctx, c, n, inv, s, r, m, tallies, inBlock, greedy, passes, untyped => by
    simp only [Declarations.greedy, Bool.and_eq_true] at greedy
    obtain ⟨q, first, passes⟩ := Tokens.Passes.split passes
    obtain ⟨type, ⟨p, reaches, shorter⟩, read, this⟩ :=
      declaration_translates d m tallies inBlock greedy.1 first
    rw [declarations, read, Declarations.resolve?]
    refine .reached ?_
    cases resolved : d.resolve? ctx inv with
    | none =>
      rw [resolved] at this
      exact Faulty.bind this _
    | some v =>
      obtain ⟨st, inside, inv'⟩ := v
      rw [resolved] at this
      obtain ⟨d', new, fits, yields⟩ := this
      have following := declarations_translates ds fits.scopes fits.counters.2 fits.inBlock
        greedy.2 passes untyped
      simp only [Option.bind_some]
      cases resolved' : ds.resolve? inside inv' with
      | none =>
        rw [resolved'] at following
        exact yields.faulty fun h => following
      | some w =>
        obtain ⟨st', inside', inv''⟩ := w
        rw [resolved'] at following
        obtain ⟨d'', new', fits', yields'⟩ := following
        refine ⟨d'', new ++ new', ⟨⟨?_, ?_⟩, fits'.scopes, fits'.inBlock⟩, ?_⟩
        · rw [fits'.counters.1, fits.counters.1, List.append_assoc]
        · rw [Stmt.labels, ← Nat.add_assoc]
          exact fits'.counters.2
        · rw [← Stmt.piece_append]
          exact yields.bind fun h => yields'

theorem declaration_translates : ∀ (d : Declaration) {env : Env} {ctx : Context} {c : Counters}
    {n : Nat} {inv : Inventory} {s r : Tokens}, env.Matches ctx → c.Tallies n inv →
    ctx.blocks ≠ [] → d.greedy = true → s.Passes d.tokens r →
    ∃ type tail, env.typeName? s = some (type, tail) ∧
      (declaration env c type tail.stream).Translates env.loop n (d.resolve? ctx inv)
        (Declared.Fits env inv) r
  | .var type x, env, ctx, c, n, inv, s, r, m, tallies, inBlock, _, passes => by
    obtain ⟨tail, read, passes⟩ := typeName?_of_passes m passes
    exact ⟨type.type, tail, read, var_translates m inBlock tallies passes⟩
  | .function ret f type x ds ss, env, ctx, c, n, inv, s, r, m, tallies, inBlock, greedy,
      passes => by
    simp only [Declaration.greedy, Bool.and_eq_true] at greedy
    obtain ⟨tail, read, passes⟩ := typeName?_of_passes m passes
    obtain ⟨p, opening, passes⟩ :=
      Tokens.Passes.splitAt [.ident f.text, .symbol "("] passes
    obtain ⟨q, parameter, passes⟩ :=
      Tokens.Passes.splitAt [type.kind, .ident x.text, .symbol ")"] passes
    obtain ⟨brace, opened, passes⟩ := passes.symbol
    obtain ⟨p', declared, passes⟩ := Tokens.Passes.split passes
    obtain ⟨q', inside, closing⟩ := Tokens.Passes.split passes
    refine ⟨ret.type, tail, read, function_translates m inBlock tallies opening parameter opened ?_⟩
    intro env' c' inside' inv' m' tallies'
    exact block_translates
      (declarations_translates ds m'.enter tallies' (List.cons_ne_nil _ _) greedy.1 declared
        (statements_untyped inside closing))
      (fun d inside' inv' k m' tallies' =>
        statements_translates ss m' tallies' greedy.2 inside closing.current_kind)
      closing

end

/-- A whole program, up to the end of the input. -/
theorem program_translates : ∀ (ss : Statements) {env : Env} {ctx : Context} {c : Counters}
    {n : Nat} {inv : Inventory} {s r : Tokens}, env.Matches ctx → c.Tallies n inv →
    ss.greedy = true → s.Passes ss.tokens r → r.current.kind = .eof →
    (program env c s).Translates env.loop n (ss.resolve? ctx inv) (Counters.Fits inv) r
  | .nil, env, ctx, c, n, inv, s, r, m, tallies, _, passes, last => by
    obtain rfl := passes.eq_of_nil
    rw [program]
    simp only [Tokens.atEnd, Token.isEof, last, decide_true, dite_true]
    exact ⟨c, [], ⟨(List.append_nil _).symm, tallies⟩, .pure c⟩
  | .cons t ss, env, ctx, c, n, inv, s, r, m, tallies, greedy, passes, last => by
    simp only [Statements.greedy, Bool.and_eq_true] at greedy
    obtain ⟨q, first, passes⟩ := Tokens.Passes.split passes
    obtain ⟨ks, same⟩ := t.tokens_eq
    have kind : s.current.kind = t.head := Tokens.Passes.current_kind (same ▸ first)
    have notEnd : decide (t.head = .eof) = false := decide_eq_false (Statement.head_ne (.inl rfl))
    have this := statement_translates t m tallies greedy.1 first
      fun _ => statements_no_else passes (.inl last)
    rw [program]
    simp only [Tokens.atEnd, Token.isEof, kind, notEnd, Bool.false_eq_true, dite_false]
    exact sequence_translates (f := fun r c => program env c r) _ this
      fun c' inv' k tallies' => program_translates ss m tallies' greedy.2 passes last

end Reading

end OnePass
