import OnePass.Proofs.Correspondence.Basic

/-!
# Corresponding expressions

Whatever lawful correspondence two runs of a production of expressions stand in, it goes on through
the whole production: `expression_matches` and its companions. An operand leaves one value more on
the stack, and the rest of a sum or of a product begins with the value of what was read before.
-/

namespace OnePass

/-! ## Judgements -/

def Judgement.value? {α : Type} : Judgement α → Option α
  | accepted a => some a
  | widened a _ => some a
  | refused _ => none

theorem Judgement.value?_map {α β : Type} (f : α → β) (j : Judgement α) :
    (j.map f).value? = j.value?.map f := by
  cases j <;> rfl

def Judgement.problem? {α : Type} : Judgement α → Option Problem
  | accepted _ => none
  | widened _ warning => some warning
  | refused problem => some problem

/-- The judgement speaks of types and operators, and of no names. -/
def Judgement.Nameless {α : Type} (j : Judgement α) : Prop :=
  ∀ problem ∈ j.problem?, ∀ f, problem.rename f = problem

/-- No name comes in with a change of the value. -/
theorem Judgement.Nameless.map {α β : Type} {j : Judgement α} (h : j.Nameless) (f : α → β) :
    (j.map f).Nameless := by
  cases j <;> exact h

/-- No problem of the typing rules mentions a name, so that renaming leaves their reports alone. -/
theorem ValueType.nameless_promote (symbol : String) (lhs rhs : ValueType) :
    (promote symbol lhs rhs).Nameless := by
  unfold promote
  split <;> rintro _ ⟨⟩ f <;> rfl

theorem ValueType.nameless_allow (destination : Destination) (expected given : ValueType) :
    (allow destination expected given).Nameless := by
  unfold allow
  split <;> rintro _ ⟨⟩ f <;> rfl

theorem Additive.nameless_judge (op : Additive) (lhs rhs : ValueType) :
    (op.judge lhs rhs).Nameless := by
  unfold judge
  split
  · split
    · rintro _ ⟨⟩
    · rintro _ ⟨⟩ f
      rfl
  · split
    · rintro _ ⟨⟩
    · exact (ValueType.nameless_promote _ _ _).map _

theorem Multiplicative.nameless_judge (op : Multiplicative) (lhs rhs : ValueType) :
    (op.judge lhs rhs).Nameless := by
  unfold judge
  split
  · split
    · rintro _ ⟨⟩
    · rintro _ ⟨⟩ f
      rfl
  · exact (ValueType.nameless_promote _ _ _).map _

theorem Assignment.nameless_judge (op : Assignment) (type value : ValueType) :
    (op.judge type value).Nameless := by
  cases op with
  | plain => rintro _ ⟨⟩
  | additive op => exact (op.nameless_judge type value).map _
  | multiplicative op => exact (op.nameless_judge type value).map _

/-- What an operator is translated to takes two values and leaves one. -/
theorem Additive.isOperator_judge (op : Additive) {lhs rhs : ValueType}
    {x : ValueType × Instruction} (h : (op.judge lhs rhs).value? = some x) : x.2.isOperator := by
  unfold Additive.judge at h
  split at h
  · split at h
    · cases h; rfl
    · cases h
  · split at h
    · cases h
      by_cases ho : op = .add
      · simp [ho, Instruction.isOperator]
      · simp [ho, Instruction.isOperator]
    · rw [Judgement.value?_map] at h
      obtain ⟨_, _, rfl⟩ := Option.map_eq_some_iff.1 h
      rfl

theorem Multiplicative.isOperator_judge (op : Multiplicative) {lhs rhs : ValueType}
    {x : ValueType × Instruction} (h : (op.judge lhs rhs).value? = some x) : x.2.isOperator := by
  unfold Multiplicative.judge at h
  split at h
  · split at h
    · cases h; rfl
    · cases h
  · rw [Judgement.value?_map] at h
    obtain ⟨_, _, rfl⟩ := Option.map_eq_some_iff.1 h
    rfl

theorem Assignment.isOperator_judge (op : Assignment) {type value : ValueType}
    {x : ValueType × List Instruction} (h : (op.judge type value).value? = some x) :
    ∀ i ∈ x.2, i.isOperator := by
  cases op with
  | plain =>
    cases h
    intro i hi
    cases hi
  | additive op =>
    rw [Assignment.judge, Judgement.value?_map] at h
    obtain ⟨y, hy, rfl⟩ := Option.map_eq_some_iff.1 h
    simpa using op.isOperator_judge hy
  | multiplicative op =>
    rw [Assignment.judge, Judgement.value?_map] at h
    obtain ⟨y, hy, rfl⟩ := Option.map_eq_some_iff.1 h
    simpa using op.isOperator_judge hy

/-- At the end of the input, a symbol that is still expected is an error. -/
theorem expect_faulty_of_front {env : Env} (structural : env.structural = .error) (symbol : String)
    {s : Tokens} (used : s.front = []) : Faulty (expect env symbol s).events := by
  obtain ⟨front, final⟩ := s
  obtain rfl : front = [] := used
  unfold expect
  rw [structural]
  exact .head _ _ _

/-- A typing rule that refuses reports an error. -/
theorem follow_reports {α : Type} {s : Tokens} {pos : Position} {j : Judgement α}
    (failed : (follow pos j : Attempt s α).value = none) :
    Faulty (follow pos j : Attempt s α).events := by
  cases j with
  | accepted a => cases failed
  | widened a warning => cases failed
  | refused problem => exact .head _ _ _

namespace Correspondence

variable {C : Correspondence}

/-! ## Small productions -/

section Small

variable {env env' : Env} {ends : Bool} {m k : Nat} {s s' : Tokens} {α α' : Type}
  {V : α → α' → Prop}

/-- An error about the next token. -/
theorem unexpected_resumed (L : C.Lawful) (henv : C.Surroundings env env') (hs : C.Stream s s')
    (wanted : Wanted) :
    C.Resumed (C.Fails env m) s s'
      [.report .error s.current.pos (.unexpected wanted s.current.kind)]
      [.report .error s'.current.pos (.unexpected wanted s'.current.kind)] := by
  rcases (L.ahead hs).current with same | lost | ⟨-, -, going, parts⟩
  · rw [L.kind same]
    exact L.error (.unexpected wanted s.current.kind) henv hs (L.pos same)
  · exact .inl fun _ => L.lost_parts lost s.reaches_resume (.inr (.head _ _ _))
  · exact .inl fun _ => parts s'.reaches_resume (Tokens.left_resume_lt going)

theorem unexpected_matches (L : C.Lawful) (henv : C.Surroundings env env') (hs : C.Stream s s')
    (wanted : Wanted) :
    C.Matches env ends m k V (Run.unexpected wanted : Attempt s α)
      (Run.unexpected wanted : Attempt s' α') :=
  .recover (unexpected_resumed L henv hs wanted) .failure

/-- A symbol is read in both streams or missing in both. -/
theorem expect_matches (L : C.Lawful) (henv : C.Surroundings env env') (hs : C.Stream s s')
    {symbol : String} (height : symbol = ")" ∨ m = 0) :
    C.Matches env ends m m (fun _ _ => True) (expect env symbol s) (expect env' symbol s') := by
  cases L.ahead hs with
  | @both t t' r r' next next' same rest =>
    unfold expect
    simp only [Tokens.symbol?, Tokens.skip?, next, next', Option.bind_some, L.isSymbol_eq same,
      Tokens.current_of_uncons? next, Tokens.current_of_uncons? next']
    cases t.isSymbol symbol with
    | true => exact .reached (.ok L rest trivial)
    | false => exact .recover (L.missing henv hs same height) .failure
  | neither done done' same =>
    unfold expect
    simp only [Tokens.symbol?, Tokens.skip?, done, done', Option.bind_none]
    exact .recover (L.missing henv hs same height) .failure
  | lost lost =>
    exact .faulty L.guise lost
      (expect_faulty_of_front (L.strict henv lost) symbol (L.lost_front lost))
  | terminator done next' kind parts =>
    refine .inl (parts (Run.reaches _) ?_)
    unfold expect
    split
    · exact Run.left_rest_reached_lt _ _
    · exact Run.left_rest_fail_lt (Tokens.atEnd_eq_false_of_uncons? next') _ _ _

/-- The names of two identifiers that correspond, and where they stand. -/
structure IdentifierMatches (C : Correspondence) (a a' : String × Position) : Prop where
  name : a'.1 = C.name a.1
  pos : C.Pos a.2 a'.2
  read : C.ReadsName a.1

theorem identifier_matches (L : C.Lawful) (henv : C.Surroundings env env') (hs : C.Stream s s') :
    C.Matches env ends m m C.IdentifierMatches (identifier s) (identifier s') := by
  unfold identifier
  cases L.ahead hs with
  | @both t t' r r' next next' same rest =>
    obtain ⟨kind, pos⟩ := t
    obtain ⟨kind', pos'⟩ := t'
    obtain rfl : kind' = kind.rename C.name := L.kind same
    rw [next, next']
    cases kind with
    | ident name => exact .reached (.ok L rest ⟨rfl, L.pos same, _, _, same, rfl⟩)
    | _ => exact unexpected_matches L henv hs .identifier
  | neither done done' =>
    rw [done, done']
    exact unexpected_matches L henv hs .identifier
  | lost lost =>
    rw [Tokens.uncons?_of_front (L.lost_front lost)]
    exact .faulty L.guise lost (.head _ _ _)
  | @terminator t' r' done next' kind =>
    obtain ⟨kind', pos'⟩ := t'
    obtain rfl : kind' = .symbol ";" := kind
    rw [done, next']
    exact unexpected_matches L henv hs .identifier

/-- Both runs get the same judgement. -/
theorem follow_matches (L : C.Lawful) (henv : C.Surroundings env env') (hs : C.Stream s s')
    {j : Judgement α} (nameless : j.Nameless) {pos pos' : Position} (hp : C.Pos pos pos') :
    C.Matches env ends m m (fun a a' => a' = a ∧ j.value? = some a) (follow pos j : Attempt s α)
      (follow pos' j : Attempt s' α) := by
  cases j with
  | accepted a => exact .ok L hs ⟨rfl, rfl⟩
  | widened a warning =>
    have report := L.warn (m := m) warning henv hp
    rw [nameless warning rfl C.name] at report
    exact .after L report (.ok L hs ⟨rfl, rfl⟩)
  | refused problem =>
    have report := L.error (m := m) problem henv hs hp
    rw [nameless problem rfl C.name] at report
    exact .recover report .failure

/-- What is on the stack in the two runs. -/
structure OperandMatches (C : Correspondence) (env : Env) (x x' : Operand) : Prop where
  type : x'.type = x.type
  place : Option.Rel (C.Slot env x.type) x.place x'.place

theorem OperandMatches.computed (type : ValueType) :
    C.OperandMatches env ⟨type, none⟩ ⟨type, none⟩ :=
  ⟨rfl, .none⟩

/-- What can be stepped in one run can be stepped in the other, at the corresponding slot. -/
theorem stepTarget_matches (L : C.Lawful) (henv : C.Surroundings env env') (hs : C.Stream s s')
    {x x' : Operand} (hx : C.OperandMatches env x x') {pos pos' : Position}
    (hp : C.Pos pos pos') :
    C.Matches env ends m m (C.Slot env x.type) (x.stepTarget pos : Attempt s Nat)
      (x'.stepTarget pos' : Attempt s' Nat) := by
  obtain ⟨type, place⟩ := x
  obtain ⟨type', place'⟩ := x'
  obtain ⟨rfl, placed⟩ : type' = type ∧ Option.Rel (C.Slot env type) place place' :=
    ⟨hx.type, hx.place⟩
  unfold Operand.stepTarget
  cases placed with
  | none => exact .fail L henv hs hp (.notSteppable type')
  | some owned =>
    dsimp only
    split
    · exact .ok L hs owned
    · exact .fail L henv hs hp (.notSteppable type')

end Small

/-! ## The code of the operators -/

section Code

variable {env env' : Env} {type : ValueType} {slot slot' : Nat}

/-- Two operands give way to the result. -/
theorem passes_operator (L : C.Lawful) (henv : C.Surroundings env env') (m : Nat)
    {i : Instruction} (h : i.isOperator) : C.Passes env (m + 2) (m + 1) [.emit i] [.emit i] := by
  have passes := L.emit m henv (.fixed (.operator h))
  rwa [Instruction.pops_of_isOperator h, Instruction.pushes_of_isOperator h] at passes

/-- A literal puts its value on the stack. -/
theorem passes_literal (L : C.Lawful) (henv : C.Surroundings env env') (m : Nat) {t t' : Token}
    (same : C.Tok t t') {i : Instruction} (h : t.kind.literal? = some (type, i)) :
    C.Passes env m (m + 1) [.emit i] [.emit i] := by
  have passes := L.emit m henv (.literal same h)
  have height : i.pops = 0 ∧ i.pushes = 1 := by
    cases kind : t.kind <;> rw [kind] at h <;> cases h <;> exact ⟨rfl, rfl⟩
  rwa [height.1, height.2] at passes

theorem passes_signedLiteral (L : C.Lawful) (henv : C.Surroundings env env') (m : Nat)
    {t t' : Token} (same : C.Tok t t') {negative : Bool} {i : Instruction}
    (h : t.kind.signedLiteral? negative = some (type, i)) :
    C.Passes env m (m + 1) [.emit i] [.emit i] := by
  have passes := L.emit m henv (.signedLiteral same h)
  have height : i.pops = 0 ∧ i.pushes = 1 := by
    cases kind : t.kind <;> rw [kind] at h <;> cases h <;> exact ⟨rfl, rfl⟩
  rwa [height.1, height.2] at passes

/-- A step puts the number one on the variable, and one value is left of the two. -/
theorem passes_step (L : C.Lawful) (henv : C.Surroundings env env') (m : Nat) (op : Additive)
    (owned : C.Slot env type slot slot') :
    C.Passes env (m + 1) (m + 1) (Event.emits (op.step type slot))
      (Event.emits (op.step type slot')) := by
  have one := L.emit (m + 1) henv (.fixed (.one type))
  have height : (if type = .double then Instruction.pushDouble .one else .pushInt 1).pops = 0 ∧
      (if type = .double then Instruction.pushDouble .one else .pushInt 1).pushes = 1 := by
    split <;> exact ⟨rfl, rfl⟩
  rw [height.1, height.2] at one
  exact L.append one (L.append (passes_operator L henv m rfl) (L.emit m henv (.store owned)))

/-- What an assignment loads before the value is what its operator takes with the value. -/
theorem passes_preload (L : C.Lawful) (henv : C.Surroundings env env') (m : Nat) (op : Assignment)
    (owned : C.Slot env type slot slot') :
    C.Passes env m (m + (op.preload slot).length) (Event.emits (op.preload slot))
      (Event.emits (op.preload slot')) := by
  cases op with
  | plain => exact L.nil
  | additive op => exact L.emit m henv (.load owned)
  | multiplicative op => exact L.emit m henv (.load owned)

/-- An assignment ends with its value, and with nothing of what was loaded for it. -/
theorem passes_assign (L : C.Lawful) (henv : C.Surroundings env env') (m : Nat) (op : Assignment)
    {value : ValueType} {x : ValueType × List Instruction}
    (h : (op.judge type value).value? = some x) :
    C.Passes env (m + (op.preload slot).length + 1) (m + 1) (Event.emits x.2)
      (Event.emits x.2) := by
  cases op with
  | plain =>
    cases h
    exact L.nil
  | additive op =>
    rw [Assignment.judge, Judgement.value?_map] at h
    obtain ⟨y, judged, rfl⟩ := Option.map_eq_some_iff.1 h
    exact passes_operator L henv m (op.isOperator_judge judged)
  | multiplicative op =>
    rw [Assignment.judge, Judgement.value?_map] at h
    obtain ⟨y, judged, rfl⟩ := Option.map_eq_some_iff.1 h
    exact passes_operator L henv m (op.isOperator_judge judged)

end Code

/-! ## The productions -/

section Productions

variable {env env' : Env}

mutual

/-- Expressions correspond, and leave one value on the stack. The levels of precedence go down one
after another over the same stream, and only the parts behind an operator or in parentheses have
fewer tokens. -/
theorem expression_matches (L : C.Lawful) (henv : C.Surroundings env env') {s s' : Tokens}
    (hs : C.Stream s s') (m : Nat) :
    C.Matches env true m (m + 1) Eq (expression env s) (expression env' s') := by
  rw [expression, expression]
  refine .andThen L (additive_matches L henv hs m) ?_
  rintro r - r' - lhs _ hr rfl
  rcases L.operator hr Comparison.ofSymbol? rfl with lost | ⟨none, none'⟩ |
    ⟨op, ⟨q, reaches, shorter⟩, ⟨q', reaches', shorter'⟩, read, read', hp, hq⟩
  · exact .lost L.guise lost _ _
  · rw [none, none']
    exact .ok L hr rfl
  · rw [read, read']
    refine .reached (.andThen L (additive_matches L henv hq (m + 1)) ?_)
    rintro p - p' - rhs _ rest rfl
    split
    · exact .emit L rest (L.emit m henv (.fixed (.compare op))) rfl
    · exact .fail L henv rest hp (.incomparable lhs rhs)
termination_by 16 * s.left + 9
decreasing_by all_goals omega

theorem additive_matches (L : C.Lawful) (henv : C.Surroundings env env') {s s' : Tokens}
    (hs : C.Stream s s') (m : Nat) :
    C.Matches env true m (m + 1) Eq (additive env s) (additive env' s') := by
  rw [additive, additive, Tokens.sign?, Tokens.sign?]
  rcases L.operator hs (fun text =>
      if text = "-" then some true else if text = "+" then some false else none) rfl with
    lost | ⟨none, none'⟩ |
    ⟨negative, ⟨q, reaches, shorter⟩, ⟨q', reaches', shorter'⟩, read, read', -, hq⟩
  · exact .lost L.guise lost _ _
  · rw [none, none']
    refine .andThen L (multiplicative_matches L henv hs m) ?_
    rintro r - r' - type _ hr rfl
    exact additiveRest_matches L henv type hr m
  · rw [read, read']
    refine .reached (.andThen L (multiplicative_matches L henv hq m) ?_)
    rintro r - r' - type _ hr rfl
    refine .after L ?_ (additiveRest_matches L henv type hr m)
    cases negative with
    | false => exact L.nil
    | true => exact L.emit m henv (.fixed (.unary .neg))
termination_by 16 * s.left + 8
decreasing_by all_goals omega

theorem additiveRest_matches (L : C.Lawful) (henv : C.Surroundings env env') (lhs : ValueType)
    {s s' : Tokens} (hs : C.Stream s s') (m : Nat) :
    C.Matches env true (m + 1) (m + 1) Eq (additiveRest env lhs s)
      (additiveRest env' lhs s') := by
  rw [additiveRest, additiveRest]
  rcases L.operator hs Additive.ofSymbol? rfl with lost | ⟨none, none'⟩ |
    ⟨op, ⟨q, reaches, shorter⟩, ⟨q', reaches', shorter'⟩, read, read', hp, hq⟩
  · exact .lost L.guise lost _ _
  · rw [none, none']
    exact .ok L hs rfl
  · rw [read, read']
    refine .reached (.andThen L (multiplicative_matches L henv hq (m + 1)) ?_)
    rintro p - p' - rhs _ rest rfl
    refine .andThen L (follow_matches L henv rest (op.nameless_judge lhs rhs) hp) ?_
    rintro r - r' - v _ hr ⟨rfl, judged⟩
    exact .after L (passes_operator L henv m (op.isOperator_judge judged))
      (additiveRest_matches L henv _ hr m)
termination_by 16 * s.left + 7
decreasing_by all_goals omega

theorem multiplicative_matches (L : C.Lawful) (henv : C.Surroundings env env') {s s' : Tokens}
    (hs : C.Stream s s') (m : Nat) :
    C.Matches env true m (m + 1) Eq (multiplicative env s) (multiplicative env' s') := by
  rw [multiplicative, multiplicative]
  refine .andThen L (simple_matches L henv hs m) ?_
  rintro r - r' - type _ hr rfl
  exact multiplicativeRest_matches L henv type hr m
termination_by 16 * s.left + 6
decreasing_by all_goals omega

theorem multiplicativeRest_matches (L : C.Lawful) (henv : C.Surroundings env env')
    (lhs : ValueType) {s s' : Tokens} (hs : C.Stream s s') (m : Nat) :
    C.Matches env true (m + 1) (m + 1) Eq (multiplicativeRest env lhs s)
      (multiplicativeRest env' lhs s') := by
  rw [multiplicativeRest, multiplicativeRest]
  rcases L.operator hs Multiplicative.ofSymbol? rfl with lost | ⟨none, none'⟩ |
    ⟨op, ⟨q, reaches, shorter⟩, ⟨q', reaches', shorter'⟩, read, read', hp, hq⟩
  · exact .lost L.guise lost _ _
  · rw [none, none']
    exact .ok L hs rfl
  · rw [read, read']
    refine .reached (.andThen L (simple_matches L henv hq (m + 1)) ?_)
    rintro p - p' - rhs _ rest rfl
    refine .andThen L (follow_matches L henv rest (op.nameless_judge lhs rhs) hp) ?_
    rintro r - r' - v _ hr ⟨rfl, judged⟩
    exact .after L (passes_operator L henv m (op.isOperator_judge judged))
      (multiplicativeRest_matches L henv _ hr m)
termination_by 16 * s.left + 5
decreasing_by all_goals omega

theorem simple_matches (L : C.Lawful) (henv : C.Surroundings env env') {s s' : Tokens}
    (hs : C.Stream s s') (m : Nat) :
    C.Matches env true m (m + 1) Eq (simple env s) (simple env' s') := by
  rw [simple, simple]
  rcases L.operator hs Additive.ofStep? rfl with lost | ⟨none, none'⟩ |
    ⟨op, ⟨q, reaches, shorter⟩, ⟨q', reaches', shorter'⟩, read, read', hp, hq⟩
  · exact .lost L.guise lost _ _
  · rw [none, none']
    rcases L.operator hs Unary.ofSymbol? rfl with lost | ⟨none, none'⟩ |
      ⟨op, ⟨q, reaches, shorter⟩, ⟨q', reaches', shorter'⟩, read, read', -, hq⟩
    · exact .lost L.guise lost _ _
    · simp only [none, none']
      refine .andThen L (primary_matches L henv hs m) ?_
      rintro r - r' - x x' hr hx
      rcases L.operator hr Additive.ofStep? rfl with lost | ⟨none, none'⟩ |
        ⟨op, q, q', read, read', hp, hq⟩
      · exact .lost L.guise lost _ _
      · rw [none, none']
        exact .ok L hr hx.type.symm
      · rw [read, read']
        refine .reached (.andThen L (stepTarget_matches L henv hq hx hp) ?_)
        rintro o - o' - slot slot' ho owned
        rw [hx.type]
        -- The step works on a copy, which is dropped.
        refine .emit L ho ?_ rfl
        have copied := L.append (passes_step L henv (m + 1) op owned)
          (L.emit (m + 1) henv (.fixed .pop))
        have code := L.append (L.emit (m + 1) henv (.load owned)) copied
        simpa [Event.emits, Instruction.pops, Instruction.pushes] using code
    · simp only [read, read']
      refine .reached ?_
      split
      · exact .map (signed_matches L henv true hq m) fun _ _ hx => hx.type.symm
      · refine .andThen L (primary_matches L henv hq m) ?_
        rintro r - r' - x x' hr hx
        exact .emit L hr (L.emit m henv (.fixed (.unary op))) hx.type.symm
  · rw [read, read']
    refine .reached (.andThen L (primary_matches L henv hq m) ?_)
    rintro r - r' - x x' hr hx
    refine .andThen L (stepTarget_matches L henv hr hx hp) ?_
    rintro o - o' - slot slot' ho owned
    rw [hx.type]
    exact .emit L ho (passes_step L henv m op owned) rfl
termination_by 16 * s.left + 4
decreasing_by all_goals omega

theorem signed_matches (L : C.Lawful) (henv : C.Surroundings env env') (negative : Bool)
    {s s' : Tokens} (hs : C.Stream s s') (m : Nat) :
    C.Matches env true m (m + 1) (C.OperandMatches env) (signed env negative s)
      (signed env' negative s') := by
  rw [signed, signed]
  rcases (L.ahead hs).lookup (Token.Kind.signedLiteral? negative)
      (Token.Kind.signedLiteral? negative)
      (fun t t' same => by rw [L.kind same, Token.Kind.signedLiteral?_rename]) rfl with
    lost | ⟨none, none'⟩ | ⟨⟨type, i⟩, r, r', read, read', literal, same, rest⟩
  · exact .lost L.guise lost _ _
  · rw [none, none']
    refine .andThen L (primary_matches L henv hs m) ?_
    rintro r - r' - x x' hr hx
    split
    · rw [hx.type]
      exact .emit L hr (L.emit m henv (.fixed (.unary .neg))) (.computed x.type)
    · exact .ok L hr hx
  · rw [read, read']
    exact .reached (.emit L rest (passes_signedLiteral L henv m same literal) (.computed type))
termination_by 16 * s.left + 3
decreasing_by all_goals omega

/-- Primaries correspond, with the places of their values. -/
theorem primary_matches (L : C.Lawful) (henv : C.Surroundings env env') {s s' : Tokens}
    (hs : C.Stream s s') (m : Nat) :
    C.Matches env true m (m + 1) (C.OperandMatches env) (primary env s) (primary env' s') := by
  cases L.ahead hs with
  | @both t t' r r' next next' same rest =>
    obtain ⟨q, reaches, shorter⟩ := r
    obtain ⟨q', reaches', shorter'⟩ := r'
    rw [primary, primary]
    simp only [next, next', L.kind same, Token.Kind.primaryLead_rename,
      Token.Kind.literal?_rename]
    cases t.kind.primaryLead with
    | parenthesis =>
      refine .reached (.andThen L (expression_matches L henv rest m) ?_)
      rintro r - r' - type _ hr rfl
      refine .andThen L (expect_matches L henv hr (.inl rfl)) ?_
      rintro p - p' - _ _ hp -
      exact .ok L hp (.computed type)
    | pointer symbol =>
      refine .reached (.andThen L (identifier_matches L henv rest) ?_)
      rintro r - r' - ⟨name, _⟩ ⟨_, _⟩ hr ⟨rfl, -, -⟩
      exact .fail L henv hr (L.pos same) (.pointer symbol name)
    | sign negative => exact .reached (signed_matches L henv negative rest m)
    | name name => exact .reached (named_matches L henv name (L.pos same) rest m)
    | other =>
      dsimp only [PrimaryLead.rename]
      cases literal : t.kind.literal? with
      | none => exact unexpected_matches L henv hs .expression
      | some v =>
        exact .reached (.emit L rest (passes_literal L henv m same literal) (.computed v.1))
  | neither done done' =>
    rw [primary, primary, done, done']
    exact unexpected_matches L henv hs .expression
  | lost lost => exact .lost L.guise lost _ _
  | terminator done next' kind parts =>
    have going := Tokens.atEnd_eq_false_of_uncons? next'
    exact .inl (parts (Run.reaches _) (left_rest_primary_lt env' going))
termination_by 16 * s.left + 2
decreasing_by all_goals omega

/-- What a name begins: a call, an assignment, or a variable. -/
theorem named_matches (L : C.Lawful) (henv : C.Surroundings env env') (name : String)
    {pos pos' : Position} (hp : C.Pos pos pos') {s s' : Tokens} (hs : C.Stream s s') (m : Nat) :
    C.Matches env true m (m + 1) (C.OperandMatches env) (named env name pos s)
      (named env' (C.name name) pos' s') := by
  rw [named, named]
  have meant := L.meaning name henv
  generalize (env.scopes.find? name).map Symbol.meaning = o at meant ⊢
  generalize (env'.scopes.find? (C.name name)).map Symbol.meaning = o' at meant ⊢
  cases meant with
  | none => exact .fail L henv hs hp (.undeclared name)
  | some meant =>
    cases meant with
    | type type => exact .fail L henv hs hp (.typeAsValue name)
    | function signature linked =>
      rcases L.symbol hs "(" (by decide) with lost | ⟨none, none'⟩ |
        ⟨⟨q, reaches, shorter⟩, ⟨q', reaches', shorter'⟩, read, read', hq⟩
      · exact .lost L.guise lost _ _
      · simp only [none, none']
        exact .fail L henv hs hp (.functionAsValue name)
      · simp only [read, read']
        refine .reached ?_
        rcases (L.ahead hq).current with same | lost | ⟨eof, terminator, going, parts⟩
        · rw [L.kind same, Token.Kind.startsExpression_rename]
          split
          · refine .andThen L (expression_matches L henv hq m) ?_
            rintro r - r' - given _ hr rfl
            refine .andThen L
              (follow_matches L henv hr (ValueType.nameless_allow _ _ _) (L.pos same)) ?_
            rintro p - p' - _ _ rest -
            refine .andThen L (expect_matches L henv rest (.inl rfl)) ?_
            rintro o - o' - _ _ ho -
            exact .emit L ho (L.emit m henv (.call linked)) (.computed signature.ret)
          · exact .fail L henv hq (L.pos same) (.missingArgument name signature.param)
        · exact .lost L.guise lost _ _
        · rw [eof, terminator]
          exact .inl (parts (Run.reaches _) (Run.left_rest_fail_lt going _ _ _))
    | localVar owned =>
      dsimp only
      rw [L.frame henv]
      split
      · exact .fail L henv hs hp (.foreignFrame name)
      · rename_i inside
        have owned := owned (Decidable.of_not_not inside)
        rcases L.operator hs Assignment.ofSymbol? rfl with lost | ⟨none, none'⟩ |
          ⟨op, ⟨q, reaches, shorter⟩, ⟨q', reaches', shorter'⟩, read, read', atOperator, hq⟩
        · exact .lost L.guise lost _ _
        · rw [none, none']
          exact .emit L hs (L.emit m henv (.load owned)) ⟨rfl, .some owned⟩
        · rw [read, read']
          refine .reached (.after L (passes_preload L henv m op owned) ?_)
          rcases (L.ahead hq).current with same | lost | ⟨-, -, going, parts⟩
          · refine .andThen L (expression_matches L henv hq _) ?_
            rintro r - r' - value _ hr rfl
            refine .andThen L (follow_matches L henv hr (op.nameless_judge _ value) atOperator) ?_
            rintro p - p' - v _ rest ⟨rfl, judged⟩
            refine .after L (passes_assign L henv m op judged) ?_
            refine .andThen L
              (follow_matches L henv rest (ValueType.nameless_allow _ _ _) (L.pos same)) ?_
            rintro o - o' - _ _ ho -
            exact .emit L ho (L.emit m henv (.store owned)) (.computed _)
          · exact .lost L.guise lost _ _
          -- The terminator stands in place of the value.
          · exact .inl (parts (Run.reaches _)
              (Run.left_rest_andThen_lt (left_rest_expression_lt env' going) _))
termination_by 16 * s.left + 1
decreasing_by all_goals omega

end

end Productions

end Correspondence

end OnePass
