import OnePass.Proofs.Correspondence.SameText

/-!
# Corresponding statements

Whatever lawful correspondence two runs of a production of statements stand in, it goes on through
the whole production: `statement_matches` and its companions, and `program_matches`.

A statement, a block and a declaration end with a token of their own, so behind them the runs never
part for want of tokens; only the branch of an `else` depends on the token behind a statement.
-/

namespace OnePass

namespace Correspondence

variable {C : Correspondence}

/-! ## Simple statements -/

section Simple

variable {env env' : Env} {ends : Bool} {m : Nat} {s s' : Tokens}

/-- A condition leaves one value on the stack. -/
theorem condition_matches (L : C.Lawful) (henv : C.Surroundings env env') (hs : C.Stream s s') :
    C.Matches env ends 0 1 (fun _ _ => True) (condition env s) (condition env' s') := by
  refine .andThen L (expect_matches L henv hs (.inr rfl)) ?_
  rintro q - q' - _ _ hq -
  have closes (strict : env.structural = .error) (used : (expression env q).rest.front = []) :
      Faulty ((expression env q).andThen fun r _ type =>
        if type.isCondition then expect env ")" r
        else .fail .error q.current.pos (.badCondition type)).events := by
    refine .andThen_of_reports (expression_reports strict) fun h type => ?_
    split
    · exact expect_faulty_of_front strict ")" used
    · exact .head _ _ _
  rcases (L.ahead hq).current with same | lost | ⟨-, -, going, parts⟩
  · refine .andThenClose L (expression_matches L henv hq 0)
      (fun lost => closes (L.strict henv lost) (L.lost_front lost)) ?_
    rintro r - r' - type _ hr rfl
    split
    · exact expect_matches L henv hr (.inl rfl)
    · exact .fail L henv hr (L.pos same) (.badCondition type)
  · exact .faulty L.guise lost
      (closes (L.strict henv lost) ((Run.reaches _).front_eq_nil (L.lost_front lost)))
  · exact .inl (parts (Run.reaches _)
      (Run.left_rest_andThen_lt (left_rest_expression_lt env' going) _))

/-- Jumps correspond if their targets do. -/
theorem jumpStatement_matches (L : C.Lawful) (henv : C.Surroundings env env')
    (hs : C.Stream s s') (keyword : String) {target target' : Option Nat}
    (ht : Option.Rel (fun l l' => C.Passes env 0 0 [.emit (.jump l)] [.emit (.jump l')]) target
      target') {pos pos' : Position} (hp : C.Pos pos pos') :
    C.Matches env ends 0 0 (fun _ _ => True) (jumpStatement env keyword target pos s)
      (jumpStatement env' keyword target' pos' s') := by
  cases ht with
  | none => exact .fail L henv hs hp (.outsideLoop keyword)
  | some jump =>
    refine .andThen L (expect_matches L henv hs (.inr rfl)) ?_
    rintro r - r' - _ _ hr -
    exact .emit L hr jump trivial

theorem returnStatement_matches (L : C.Lawful) (henv : C.Surroundings env env')
    (hs : C.Stream s s') {pos pos' : Position} (hp : C.Pos pos pos') :
    C.Matches env ends 0 0 (fun _ _ => True) (returnStatement env pos s)
      (returnStatement env' pos' s') := by
  unfold returnStatement
  rw [L.returns henv]
  have starts : C.Lost s ∨ s'.current.kind.startsExpression = s.current.kind.startsExpression ∧
      (s.current.kind.startsExpression = true → C.Pos s.current.pos s'.current.pos) := by
    rcases (L.ahead hs).current with same | lost | ⟨eof, terminator, -, -⟩
    · exact .inr ⟨by rw [L.kind same, Token.Kind.startsExpression_rename], fun _ => L.pos same⟩
    · exact .inl lost
    · rw [eof, terminator]
      exact .inr ⟨rfl, by simp [Token.Kind.startsExpression]⟩
  rcases starts with lost | ⟨same, pos⟩
  · refine .faulty L.guise lost ?_
    rw [Tokens.current_kind_of_uncons? (Tokens.uncons?_of_front (L.lost_front lost)),
      if_neg (by simp [Token.Kind.startsExpression])]
    split
    · exact .head _ _ _
    · exact (expect_faulty_of_front (L.strict henv lost) ";" (L.lost_front lost)).right _
  rw [same]
  split
  · rename_i begins
    refine .andThenClose L (expression_matches L henv hs 0) ?_ ?_
    · intro lost
      have strict := L.strict henv lost
      refine .andThen_of_reports (expression_reports strict) fun h given => ?_
      refine .andThen_of_reports follow_reports fun h _ => ?_
      refine (expect_faulty_of_front strict ";" ?_).right _
      exact (Run.reaches _).front_eq_nil (L.lost_front lost)
    · rintro r - r' - given _ hr rfl
      refine .andThen L (follow_matches L henv hr ?_ (pos begins)) ?_
      -- Whatever the returned value is allowed to be, the same is said of it in both runs.
      · split
        · exact ValueType.nameless_allow _ _ _
        · rintro _ ⟨⟩
      · rintro p - p' - _ _ rest -
        exact .after L L.ret (expect_matches L henv rest (.inr rfl))
  · split
    · rename_i expected _
      exact .fail L henv hs hp (.missingReturnValue expected)
    · exact .after L L.ret (expect_matches L henv hs (.inr rfl))

theorem expressionStatement_matches (L : C.Lawful) (henv : C.Surroundings env env')
    (hs : C.Stream s s') :
    C.Matches env ends 0 0 (fun _ _ => True) (expressionStatement env s)
      (expressionStatement env' s') := by
  refine .andThenClose L (expression_matches L henv hs 0) ?_ ?_
  · intro lost
    refine .andThen_of_reports (expression_reports (L.strict henv lost)) fun h _ => ?_
    exact (expect_faulty_of_front (L.strict henv lost) ";" (L.lost_front lost)).right _
  · rintro r - r' - _ _ hr -
    exact .after L (L.emit 0 henv (.fixed .pop)) (expect_matches L henv hr (.inr rfl))

/-- Simple statements leave the stack as it was. -/
theorem simpleStatement_matches (L : C.Lawful) (henv : C.Surroundings env env')
    (loops : C.Jumps env env') (hs : C.Stream s s') :
    C.Matches env ends 0 0 (fun _ _ => True) (simpleStatement env s) (simpleStatement env' s') := by
  cases L.ahead hs with
  | @both t t' r r' next next' same rest =>
    unfold simpleStatement
    simp only [next, next', L.isKeyword_eq same, L.isSymbol_eq same, L.typeNamed henv same]
    unfold Jumps at loops
    split
    · refine .reached (jumpStatement_matches L henv rest "break" ?_ (L.pos same))
      generalize env.loop = o at loops ⊢
      generalize env'.loop = o' at loops ⊢
      cases loops with
      | none => exact .none
      | some jumps => exact .some jumps.1
    split
    · refine .reached (jumpStatement_matches L henv rest "continue" ?_ (L.pos same))
      generalize env.loop = o at loops ⊢
      generalize env'.loop = o' at loops ⊢
      cases loops with
      | none => exact .none
      | some jumps => exact .some jumps.2
    split
    · exact .reached (returnStatement_matches L henv rest (L.pos same))
    split
    · exact .reached (.ok L rest trivial)
    split
    · rw [Tokens.current_of_uncons? next, Tokens.current_of_uncons? next']
      exact .fail L henv hs (L.pos same) .lateDeclaration
    rw [L.kind same, Token.Kind.startsExpression_rename]
    split
    · exact expressionStatement_matches L henv hs
    · exact unexpected_matches L henv hs .statement
  | neither done done' =>
    unfold simpleStatement
    rw [done, done']
    exact unexpected_matches L henv hs .statement
  | lost lost =>
    refine .faulty L.guise lost ?_
    unfold simpleStatement
    rw [Tokens.uncons?_of_front (L.lost_front lost)]
    exact .head _ _ _
  | terminator done next' kind parts =>
    have going := Tokens.atEnd_eq_false_of_uncons? next'
    exact .inl (parts (Run.reaches _) (left_rest_simpleStatement_lt env' going))

/-! ## Declarations -/

/-- A type is read in both streams or in neither. -/
theorem typeName?_matches (L : C.Lawful) (henv : C.Surroundings env env') (hs : C.Stream s s') :
    C.Lost s ∨ (env.typeName? s = none ∧ env'.typeName? s' = none) ∨
    ∃ type r r', env.typeName? s = some (type, r) ∧ env'.typeName? s' = some (type, r') ∧
      C.ReadsType type ∧ C.Stream r.stream r'.stream := by
  rcases (L.ahead hs).lookup env.typeNamed? env'.typeNamed? (fun _ _ => L.typeNamed henv) rfl with
    lost | none | ⟨type, r, r', read, read', named, same, rest⟩
  · exact .inl lost
  · exact .inr (.inl none)
  · exact .inr (.inr ⟨type, r, r', read, read', ⟨_, _, _, _, henv, same, named⟩, rest⟩)

theorem typeName_matches (L : C.Lawful) (henv : C.Surroundings env env') (hs : C.Stream s s') :
    C.Matches env ends m m (fun a a' => a' = a ∧ C.ReadsType a) (typeName env s)
      (typeName env' s') := by
  unfold typeName
  rcases typeName?_matches L henv hs with lost | ⟨none, none'⟩ |
    ⟨type, r, r', read, read', typed, rest⟩
  · refine .faulty L.guise lost ?_
    rw [Env.typeName?, Tokens.uncons?_of_front (L.lost_front lost)]
    exact .head _ _ _
  · rw [none, none']
    exact unexpected_matches L henv hs .typeName
  · rw [read, read']
    exact .reached (.ok L rest ⟨rfl, typed⟩)

structure ParameterMatches (C : Correspondence) (p p' : Parameter) : Prop where
  type : p'.type = p.type
  name : p'.name = C.name p.name
  pos : C.Pos p.pos p'.pos
  typed : C.ReadsType p.type
  named : C.ReadsName p.name

/-- Parameters have the same type, and corresponding names. -/
theorem parameter_matches (L : C.Lawful) (henv : C.Surroundings env env') (hs : C.Stream s s') :
    C.Matches env ends 0 0 C.ParameterMatches (parameter env s) (parameter env' s') := by
  refine .andThen L (typeName_matches L henv hs) ?_
  rintro q - q' - type _ hq ⟨rfl, typed⟩
  refine .andThen L (identifier_matches L henv hq) ?_
  rintro r - r' - ⟨name, pos⟩ ⟨_, pos'⟩ hr ⟨rfl, hp, named⟩
  refine .andThen L (expect_matches L henv hr (.inl rfl)) ?_
  rintro p - p' - _ _ rest -
  exact .ok L rest ⟨rfl, rfl, hp, typed, named⟩

end Simple

/-! ## Statements -/

/-- What statements hand on and give out. -/
structure StatementMatches (C : Correspondence) (env : Env) (c : Counters) (o o' : Outcome)
    (es es' : List Event) : Prop where
  complete : o'.complete = o.complete
  counters : C.Counted env.frame o.counters o'.counters
  events : C.Closes env c es es' env.scopes o.counters

/-- What sequences of statements hand on and give out. -/
structure SequenceMatches (C : Correspondence) (env : Env) (c : Counters) (d d' : Counters)
    (es es' : List Event) : Prop where
  counters : C.Counted env.frame d d'
  events : C.Closes env c es es' env.scopes d

/-- What declarations hand on and give out. -/
structure DeclarationMatches (C : Correspondence) (env env' : Env) (c : Counters)
    (d d' : Declared) (es es' : List Event) : Prop where
  surroundings : C.Surroundings { env with scopes := d.scopes } { env' with scopes := d'.scopes }
  counters : C.Counted env.frame d.counters d'.counters
  events : C.Closes env c es es' d.scopes d.counters

/-- An attempt that works on no values is a statement, whether it goes through or not. -/
theorem LawfulStatements.tried (L : C.LawfulStatements) {env : Env} {c : Counters} {α α' : Type}
    {V : α → α' → Prop} {v : Option α} {v' : Option α'} {es es' : List Event}
    (h : Tried (C.Passes env 0 0) (C.Fails env 0) V v v' es es') :
    C.Closes env c es es' env.scopes c := by
  cases h with
  | value _ passes => exact L.passed passes
  | failure fails => exact L.failed fails

section Statements

mutual

/-- Statements correspond, by induction on the tokens left: what is claimed of a whole statement is
assembled from its parts by the laws. -/
theorem statement_matches (L : C.LawfulProgram) {env env' : Env} (henv : C.Surroundings env env')
    {c c' : Counters} (hc : C.Counted env.frame c c') {s s' : Tokens} (hs : C.Stream s s') :
    C.Runs false (C.StatementMatches env c) (statement env c s).1 (statement env' c' s').1 := by
  have used (lost : C.Lost s) : C.Runs false (C.StatementMatches env c) (statement env c s).1
      (statement env' c' s').1 := by
    refine .faulty L.guise lost ?_
    rw [statement]
    simp only [Tokens.symbol?, Tokens.keyword?, Tokens.skip?, simpleStatement,
      Tokens.uncons?_of_front (L.lost_front lost), Option.bind_none]
    exact .head _ _ _
  rw [statement, statement] at used ⊢
  rcases L.symbol hs "\x7b" (by decide) with lost | ⟨none, none'⟩ |
    ⟨⟨q, reaches, shorter⟩, ⟨q', reaches', shorter'⟩, read, read', hq⟩
  · exact used lost
  · rcases L.keyword hs "if" with lost | ⟨noIf, noIf'⟩ |
      ⟨⟨q, reaches, shorter⟩, ⟨q', reaches', shorter'⟩, read, read', hq⟩
    · exact used lost
    · rcases L.keyword hs "while" with lost | ⟨noWhile, noWhile'⟩ |
        ⟨⟨q, reaches, shorter⟩, ⟨q', reaches', shorter'⟩, read, read', hq⟩
      · exact used lost
      · simp only [none, none', noIf, noIf', noWhile, noWhile']
        refine .bind L.guise (simpleStatement_matches L.expressions henv (L.loops henv) hs) ?_
        rintro r - r' - v v' es es' hr tried
        refine .pure hr ⟨tried.isSome_eq, hc, ?_⟩
        rw [List.append_nil, List.append_nil]
        exact L.tried tried
      · simp only [none, none', noIf, noIf', read, read']
        exact .reached (loop_matches L henv hc hq)
    · simp only [none, none', read, read']
      exact .reached (conditional_matches L henv hc hq)
  · simp only [read, read']
    exact .reached (block_matches L henv hc hq)
termination_by 8 * s.left + 1
decreasing_by all_goals omega

/-- A sequence hands on the counters from one statement to the next. -/
theorem statements_matches (L : C.LawfulProgram) {env env' : Env} (henv : C.Surroundings env env')
    {c c' : Counters} (hc : C.Counted env.frame c c') {s s' : Tokens} (hs : C.Stream s s') :
    C.Runs true (C.SequenceMatches env c) (statements env c s) (statements env' c' s') := by
  rcases (L.ahead hs).current with same | lost | ⟨eof, terminator, going, parts⟩
  · have atEnd : s'.atEnd = s.atEnd := L.isEof_eq same
    rw [statements, statements]
    simp only [L.isSymbol_eq same, atEnd]
    split
    · exact .pure hs ⟨hc, L.passed L.nil⟩
    split
    · exact .pure hs ⟨hc, L.passed L.nil⟩
    rename_i going
    have shorter := (statement env c s).2 (by simpa using going)
    refine .bindShorter L.guise (.weaken L.guise (statement_matches L henv hc hs)) ?_
    rintro r less r' - o o' es es' hr ho
    refine .mono (statements_matches L henv ho.counters hr) ?_
    rintro d d' fs fs' hd
    exact ⟨hd.counters, L.followed ho.events hd.events⟩
  · exact .lost L.guise lost _ _
  · refine .inl (parts (Run.reaches _) ?_)
    rw [statements, if_neg (by simp [Token.isSymbol, terminator]), dif_neg (by simp [going])]
    exact Nat.lt_of_le_of_lt (statements env' _ (statement env' c' s').1.rest).left_rest_le
      ((statement env' c' s').2 going)
termination_by 8 * s.left + 2
decreasing_by all_goals omega

theorem block_matches (L : C.LawfulProgram) {env env' : Env} (henv : C.Surroundings env env')
    {c c' : Counters} (hc : C.Counted env.frame c c') {s s' : Tokens} (hs : C.Stream s s') :
    C.Runs false (C.StatementMatches env c) (block env c s) (block env' c' s') := by
  rw [block, block]
  refine .after L.guise ?_
  -- At the end of the tokens the brace is missing, both behind the declarations and the statements.
  refine .close L.guise (declarations_matches L (L.enter henv) hc hs) ?_ ?_
  · intro lost
    refine Faulty.right (Faulty.right (Faulty.bind ?_ _) _) _
    exact expect_faulty_of_front (L.strict henv lost) _
      ((Run.reaches _).front_eq_nil (L.lost_front lost))
  rintro q - q' - d d' es es' hq hd
  refine .close L.guise (statements_matches L hd.surroundings hd.counters hq) ?_ ?_
  · intro lost
    refine Faulty.right (Faulty.bind ?_ _) _
    exact expect_faulty_of_front (L.strict henv lost) _ (L.lost_front lost)
  rintro r - r' - c c' fs fs' hr inner
  have closing : C.Matches { env with scopes := d.scopes } false 0 0 (fun _ _ => True)
      (expect env "\x7d" r) (expect env' "\x7d" r') :=
    expect_matches L.expressions hd.surroundings hr (.inr rfl)
  refine .bind L.guise closing ?_
  rintro p - p' - v v' gs gs' hp tried
  refine .after L.guise (.pure hp ⟨tried.isSome_eq, inner.counters, ?_⟩)
  have whole := L.block (L.followed hd.events (L.followed inner.events (L.tried tried)))
  simpa using whole
termination_by 8 * s.left + 4
decreasing_by all_goals omega

/-- Declarations hand on their scopes as well. -/
theorem declarations_matches (L : C.LawfulProgram) {env env' : Env}
    (henv : C.Surroundings env env') {c c' : Counters} (hc : C.Counted env.frame c c')
    {s s' : Tokens} (hs : C.Stream s s') :
    C.Runs true (C.DeclarationMatches env env' c) (declarations env c s)
      (declarations env' c' s') := by
  rw [declarations, declarations]
  rcases typeName?_matches L.expressions henv hs with lost | ⟨none, none'⟩ |
    ⟨type, ⟨q, reaches, shorter⟩, ⟨q', reaches', shorter'⟩, read, read', typed, hq⟩
  · exact .lost L.guise lost _ _
  · rw [none, none']
    exact .pure hs ⟨henv, hc, L.passed L.nil⟩
  · rw [read, read']
    refine .reached (.bind L.guise (.weaken L.guise (declaration_matches L henv hc typed hq)) ?_)
    rintro r less r' - d d' es es' hr hd
    refine .mono (declarations_matches L hd.surroundings hd.counters hr) ?_
    rintro e e' fs fs' he
    exact ⟨he.surroundings, he.counters, L.followed hd.events he.events⟩
termination_by 8 * s.left + 3
decreasing_by all_goals omega

theorem declaration_matches (L : C.LawfulProgram) {env env' : Env} (henv : C.Surroundings env env')
    {c c' : Counters} (hc : C.Counted env.frame c c') {type : ValueType} (typed : C.ReadsType type)
    {s s' : Tokens} (hs : C.Stream s s') :
    C.Runs false (C.DeclarationMatches env env' c) (declaration env c type s)
      (declaration env' c' type s') := by
  rw [declaration, declaration]
  refine .bind L.guise (identifier_matches L.expressions henv hs (m := 0)) ?_
  rintro q less q' - v v' es es' hq tried
  have first := L.tried (c := c) tried
  cases tried with
  | failure _ =>
    refine .pure hq ⟨henv, hc, ?_⟩
    rw [List.append_nil, List.append_nil]
    exact first
  | @value v v' _ _ same _ =>
    obtain ⟨name, pos⟩ := v
    obtain ⟨_, pos'⟩ := v'
    obtain ⟨rfl, hp, named⟩ := same
    simp only [L.bindsInnermost name henv]
    split
    · refine .recover (L.redeclaration name c henv hq hp) fun reported => ?_
      exact ⟨henv, hc, L.followed first reported⟩
    · rename_i bound
      have fresh : env.scopes.bindsInnermost name = false := by simpa using bound
      have local_ := L.declareLocal name type henv hc hp
      rcases L.symbol hq "(" (by decide) with lost | ⟨none, none'⟩ |
        ⟨⟨r, reaches, shorter⟩, ⟨r', reaches', shorter'⟩, read, read', hr⟩
      · refine .faulty L.guise lost ?_
        rw [Tokens.symbol?, Tokens.skip?, Tokens.uncons?_of_front (L.lost_front lost)]
        exact ((expect_faulty_of_front (L.strict henv lost) ";" (L.lost_front lost)).left _).right _
      · simp only [none, none']
        have closing : C.Matches
            { env with scopes := env.scopes.declare (env.localSymbol c name type pos) } false 0 0
            (fun _ _ => True) (expect env ";" q) (expect env' ";" q') :=
          expect_matches L.expressions local_ hq (.inr rfl)
        refine .after L.guise (.bind L.guise closing ?_)
        rintro p - p' - _ _ fs fs' rest tried
        refine .pure rest ⟨local_, L.withLocal hc, ?_⟩
        have reserved := L.declare henv hc fresh named typed hp
        rw [List.append_nil, List.append_nil]
        exact L.followed first (L.followed reserved (L.tried tried))
      · simp only [read, read']
        refine .reached (.mono (definition_matches L henv hc fresh typed named hp hr) ?_)
        rintro d d' fs fs' hd
        exact ⟨hd.surroundings, hd.counters, L.followed first hd.events⟩
termination_by 8 * s.left + 1
decreasing_by all_goals omega

/-- A definition corresponds from its parameter on. Its body is read in a function of its own. -/
theorem definition_matches (L : C.LawfulProgram) {env env' : Env} (henv : C.Surroundings env env')
    {c c' : Counters} (hc : C.Counted env.frame c c') {name : String}
    (fresh : env.scopes.bindsInnermost name = false) {ret : ValueType} (gives : C.ReadsType ret)
    (named : C.ReadsName name) {pos pos' : Position} (hp : C.Pos pos pos') {s s' : Tokens}
    (hs : C.Stream s s') :
    C.Runs false (C.DeclarationMatches env env' c) (definition env c ret name pos s)
      (definition env' c' ret (C.name name) pos' s') := by
  rw [definition, definition]
  refine .bind L.guise (parameter_matches L.expressions henv hs) ?_
  rintro q less q' - v v' es es' hq tried
  have first := L.tried (c := c) tried
  cases tried with
  | failure _ =>
    refine .pure hq ⟨henv, hc, ?_⟩
    rw [List.append_nil, List.append_nil]
    exact first
  | @value p p' _ _ same _ =>
    obtain ⟨param, parameter, at_⟩ := p
    obtain ⟨param', parameter', at_'⟩ := p'
    obtain rfl : param = param' := same.type.symm
    obtain rfl : parameter' = C.name parameter := same.name
    obtain ⟨-, -, hat, takes, read⟩ := same
    have outside := L.declareFunction ⟨param, ret⟩ henv hc named hp
    have inside := L.declareLocal parameter param (L.inBody ret outside) (L.inFunction name hc) hat
    refine .after L.guise (.bind L.guise
      (body_matches L inside (L.withLocal (L.inFunction name hc)) hq) ?_)
    rintro r - r' - o o' fs fs' hr ho
    refine .after L.guise (.pure hr ⟨outside, L.afterFunction hc ho.counters, ?_⟩)
    have head : C.Defines env env' c c' name parameter param ret _ _ _ _ :=
      ⟨fresh, named, read, takes, gives, ⟨pos, pos', hp, rfl, rfl⟩, ⟨at_, at_', hat, rfl, rfl⟩⟩
    have whole := L.followed first (L.define henv hc head ho.events)
    simp only [List.append_assoc] at whole
    exact whole
termination_by 8 * s.left + 6
decreasing_by all_goals omega

theorem body_matches (L : C.LawfulProgram) {env env' : Env} (henv : C.Surroundings env env')
    {c c' : Counters} (hc : C.Counted env.frame c c') {s s' : Tokens} (hs : C.Stream s s') :
    C.Runs false (C.StatementMatches env c) (body env c s) (body env' c' s') := by
  rw [body, body]
  rcases L.symbol hs "\x7b" (by decide) with lost | ⟨none, none'⟩ |
    ⟨⟨q, reaches, shorter⟩, ⟨q', reaches', shorter'⟩, read, read', hq⟩
  · refine .faulty L.guise lost ?_
    rw [Tokens.symbol?, Tokens.skip?, Tokens.uncons?_of_front (L.lost_front lost)]
    exact (expect_faulty_of_front (L.strict henv lost) _ (L.lost_front lost)).left _
  · rw [none, none']
    refine .bind L.guise (expect_matches L.expressions henv hs (m := 0) (.inr rfl)) ?_
    rintro r - r' - v v' es es' hr tried
    refine .pure hr ⟨tried.isSome_eq, hc, ?_⟩
    rw [List.append_nil, List.append_nil]
    exact L.tried tried
  · rw [read, read']
    exact .reached (block_matches L henv hc hq)
termination_by 8 * s.left + 5
decreasing_by all_goals omega

theorem conditional_matches (L : C.LawfulProgram) {env env' : Env} (henv : C.Surroundings env env')
    {c c' : Counters} (hc : C.Counted env.frame c c') {s s' : Tokens} (hs : C.Stream s s') :
    C.Runs false (C.StatementMatches env c) (conditional env c s) (conditional env' c' s') := by
  rw [conditional, conditional]
  refine .bind L.guise (condition_matches L.expressions henv hs) ?_
  rintro q less q' - v v' ts ts' hq tried
  cases tried with
  | failure fails =>
    refine .pure hq ⟨rfl, hc, ?_⟩
    rw [List.append_nil, List.append_nil]
    exact L.failed fails
  | value _ test =>
    refine .after L.guise (.bind L.guise (statement_matches L henv (L.withLabel hc) hq) ?_)
    rintro r less r' - o o' es es' hr ho
    have without : C.Runs false (fun b b' fs fs' => C.StatementMatches env c b b'
        (ts ++ ([.code .reserveLabel, .emit (.jumpUnless c.labels)] ++ (es ++ fs)))
        (ts' ++ ([.code .reserveLabel, .emit (.jumpUnless c'.labels)] ++ (es' ++ fs'))))
        (Run.after [.emit (.mark c.labels)] (.pure ⟨o.counters, true⟩) : Run r Outcome)
        (Run.after [.emit (.mark c'.labels)] (.pure ⟨o'.counters, true⟩) : Run r' Outcome) := by
      refine .after L.guise (.pure hr ⟨rfl, ho.counters, ?_⟩)
      have whole := L.ifThen hc test ho.events
      simpa using whole
    rcases L.keyword hr "else" with lost | ⟨none, none'⟩ |
      ⟨⟨p, reaches, shorter⟩, ⟨p', reaches', shorter'⟩, read, read', hp⟩
    · rw [Tokens.keyword?, Tokens.skip?, Tokens.uncons?_of_front (L.lost_front lost),
        L.lost_else hr lost]
      exact without
    · rw [none, none']
      exact without
    · rw [read, read']
      refine .after L.guise (.reached (.bind L.guise
        (statement_matches L henv (L.withLabel ho.counters) hp) ?_))
      rintro t - t' - u u' fs fs' ht hu
      refine .after L.guise (.pure ht ⟨rfl, hu.counters, ?_⟩)
      have whole := L.ifElse hc test ho.events ho.counters hu.events
      simpa using whole
termination_by 8 * s.left + 2
decreasing_by all_goals omega

theorem loop_matches (L : C.LawfulProgram) {env env' : Env} (henv : C.Surroundings env env')
    {c c' : Counters} (hc : C.Counted env.frame c c') {s s' : Tokens} (hs : C.Stream s s') :
    C.Runs false (C.StatementMatches env c) (loop env c s) (loop env' c' s') := by
  rw [loop, loop]
  refine .after L.guise (.bind L.guise (condition_matches L.expressions henv hs) ?_)
  rintro q less q' - v v' ts ts' hq tried
  have counters := L.withLabel (L.withLabel hc)
  cases tried with
  | failure fails =>
    refine .after L.guise (.pure hq ⟨rfl, counters, ?_⟩)
    have whole := L.failedLoop hc fails
    simpa using whole
  | value _ test =>
    refine .after L.guise (.bind L.guise
      (statement_matches L (L.inLoop henv hc) counters hq) ?_)
    rintro r - r' - o o' es es' hr ho
    refine .after L.guise (.pure hr ⟨rfl, ho.counters, ?_⟩)
    have whole := L.loop hc test ho.events
    simpa using whole
termination_by 8 * s.left + 2
decreasing_by all_goals omega

end

/-- **Programs correspond**: two runs over corresponding streams in corresponding surroundings give
out corresponding events, unless the first is lost. -/
theorem program_matches (L : C.LawfulProgram) {env env' : Env} (henv : C.Surroundings env env')
    {c c' : Counters} (hc : C.Counted env.frame c c') {s s' : Tokens} (hs : C.Stream s s') :
    C.Runs true (C.SequenceMatches env c) (program env c s) (program env' c' s') := by
  rcases (L.ahead hs).current with same | lost | ⟨eof, terminator, going, parts⟩
  · have atEnd : s'.atEnd = s.atEnd := L.isEof_eq same
    rw [program, program]
    simp only [atEnd]
    split
    · exact .pure hs ⟨hc, L.passed L.nil⟩
    rename_i going
    have shorter := (statement env c s).2 (by simpa using going)
    refine .bindShorter L.guise (.weaken L.guise (statement_matches L henv hc hs)) ?_
    rintro r less r' - o o' es es' hr ho
    refine .mono (program_matches L henv ho.counters hr) ?_
    rintro d d' fs fs' hd
    exact ⟨hd.counters, L.followed ho.events hd.events⟩
  · exact .lost L.guise lost _ _
  · refine .inl (parts (Run.reaches _) ?_)
    rw [program, dif_neg (by simp [going])]
    exact Nat.lt_of_le_of_lt (program env' _ (statement env' c' s').1.rest).left_rest_le
      ((statement env' c' s').2 going)
termination_by s.left
decreasing_by all_goals omega

end Statements

end Correspondence

/-! ## The same text -/

namespace SameText

variable {P : SameText} {env env' : Env} {c : Counters} {es es' : List Event}

/-- Over one text both runs have the same outcome. -/
theorem outcome_eq {o o' : Outcome} (h : P.correspondence.StatementMatches env c o o' es es') :
    o' = o := by
  obtain ⟨complete, counters, -⟩ := h
  obtain ⟨d, b⟩ := o
  obtain ⟨d', b'⟩ := o'
  obtain rfl : b' = b := complete
  obtain rfl : d' = d := counters
  rfl

theorem declared_eq {d d' : Declared}
    (h : P.correspondence.DeclarationMatches env env' c d d' es es') : d' = d := by
  obtain ⟨surroundings, counters, -⟩ := h
  obtain ⟨scopes, e⟩ := d
  obtain ⟨scopes', e'⟩ := d'
  obtain rfl : scopes' = scopes := surroundings.scopes
  obtain rfl : e' = e := counters
  rfl

end SameText

end OnePass
