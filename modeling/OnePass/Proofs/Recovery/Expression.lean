import OnePass.Proofs.Recovery.Attempt

/-!
# Failures in expressions

Each procedure of expressions gets through without a failure and without reading a delimiter, or
fails exactly once and stops there. The procedures are followed line by line; what the routines they
invoke do is known from the contract only.
-/

namespace OnePass

/-! ## Problems that typing rules raise -/

/-- What a typing rule warns of is a widened value; what it refuses is a failure, and not about a
block. -/
def Judgement.IsFair {α : Type} : Judgement α → Prop
  | .accepted _ => True
  | .widened _ warning => warning.isWidening
  | .refused problem => problem.isFailure ∧ problem.isUnclosed = false

theorem Judgement.IsFair.map {α β : Type} {j : Judgement α} (h : j.IsFair) (f : α → β) :
    (j.map f).IsFair := by
  cases j with
  | accepted a => trivial
  | widened a warning => exact h
  | refused problem => exact h

theorem ValueType.promote_fair (symbol : String) (lhs rhs : ValueType) :
    (promote symbol lhs rhs).IsFair := by
  unfold promote
  split
  · trivial
  · rfl
  · exact ⟨rfl, rfl⟩

theorem ValueType.allow_fair (destination : Destination) (expected given : ValueType) :
    (allow destination expected given).IsFair := by
  unfold allow
  split
  · trivial
  · rfl
  · exact ⟨rfl, rfl⟩

theorem Additive.judge_fair (op : Additive) (lhs rhs : ValueType) : (op.judge lhs rhs).IsFair := by
  unfold judge
  split
  · split
    · trivial
    · exact ⟨rfl, rfl⟩
  · split
    · trivial
    · exact (ValueType.promote_fair ..).map _

theorem Multiplicative.judge_fair (op : Multiplicative) (lhs rhs : ValueType) :
    (op.judge lhs rhs).IsFair := by
  unfold judge
  split
  · split
    · trivial
    · exact ⟨rfl, rfl⟩
  · exact (ValueType.promote_fair ..).map _

theorem Assignment.judge_fair (op : Assignment) (variable_ value : ValueType) :
    (op.judge variable_ value).IsFair := by
  cases op with
  | plain => trivial
  | additive op => exact (op.judge_fair ..).map _
  | multiplicative op => exact (op.judge_fair ..).map _

/-! ## Rules -/

namespace Script.Tries

variable {α β : Type} {x : Session}

/-- What gets through comes first. -/
theorem after {m : Script α} {k : α → Script (Option β)} {P : α → Session → Prop}
    (hm : m.Passes x P) (hk : ∀ a y, P a y → (k a).Tries y) : (m >>= k).Tries x :=
  .bind hm fun a y ⟨clean, known⟩ => (hk a y known).mono fun _ _ => clean.tried

/-- One attempt after another. -/
theorem andThen {m : Script (Option α)} {k : Option α → Script (Option β)} (hm : m.Tries x)
    (none : k none = Pure.pure none) (hk : ∀ a y, (k (some a)).Tries y) : (m >>= k).Tries x := by
  refine .bind hm fun v y tried => ?_
  cases v with
  | none =>
    rw [none]
    exact tried
  | some a => exact (hk a y).mono fun _ _ => Clean.tried tried

theorem token {k : Token → Script (Option β)} (h : (k x.token).Tries x) :
    (Script.token >>= k).Tries x :=
  h

theorem state {k : State → Script (Option β)} (h : (k x.state).Tries x) :
    (Script.state >>= k).Tries x :=
  h

/-- A routine whose contract is that of an attempt. -/
theorem invoke {routine : Routine (Option α)} (attempt : recovery routine x = Tried x) :
    (Script.invoke routine).Tries x := by
  unfold Tries
  rw [← attempt]
  exact .invoke routine

theorem ok (a : α) : (Pure.pure (some a) : Script (Option α)).Tries x := Clean.refl x

theorem map {m : Script (Option α)} (hm : m.Tries x) {f : Option α → Option β}
    (same : ∀ v, (f v).isSome = v.isSome) : (m >>= fun v => Pure.pure (f v)).Tries x := by
  refine .bind hm fun v y tried => ?_
  change Tried x (f v) y
  rwa [Tried, same]

/-- A procedure that is entered and left again. -/
theorem within {p : Procedure} {type : Option α → Option ValueType} {m : Script (Option α)}
    (hm : ∀ y, m.Tries y) : (Script.within p type m).Tries x := by
  refine after (P := fun _ _ => True) (.modify ⟨(Idle.note rfl).clean, trivial⟩) fun _ y _ => ?_
  exact .bind (hm y) fun v z tried => tried.idle (.note rfl)

end Script.Tries

section

variable {α : Type} {x : Session}

theorem advance_passes (going : x.token.isEof = false) (other : x.token.isDelimiter = false) :
    Script.advance.Passes x :=
  .modify ⟨.advance going other, trivial⟩

/-- A token that is no end of input and no delimiter is taken. -/
theorem Script.Tries.advance {k : Unit → Script (Option α)} (going : x.token.isEof = false)
    (other : x.token.isDelimiter = false) (hk : ∀ y, (k ()).Tries y) :
    (Script.advance >>= k).Tries x :=
  .after (advance_passes going other) fun _ y _ => hk y

theorem act_passes {es : List Event} (h : ∀ e ∈ es, e.isHarmless) : (Script.act es).Passes x := by
  refine .modify ⟨(Idle.record fun e he => ?_).clean, trivial⟩
  obtain ⟨event, hevent, rfl⟩ := List.mem_map.1 he
  exact h event hevent

theorem emit_passes (is : List Instruction) : (Script.emit is).Passes x := by
  refine act_passes fun e he => ?_
  obtain ⟨i, -, rfl⟩ := List.mem_map.1 he
  rfl

theorem emitFor_passes (name : Mention) (is : List Instruction) :
    (Script.emitFor name is).Passes x := by
  refine .modify ⟨(Idle.record fun e he => ?_).clean, trivial⟩
  obtain ⟨i, -, rfl⟩ := List.mem_map.1 he
  rfl

theorem lookup_meets {C : Contract} (name : String) : (Script.lookup name).Meets C
    (fun symbol y => symbol = x.state.scopes.find? name ∧ y = x.note (.query (.lookup name))) x :=
  ⟨rfl, rfl⟩

theorem lookup_passes (name : String) : (Script.lookup name).Passes x :=
  (lookup_meets name).mono fun _ _ ⟨_, same⟩ => ⟨same ▸ (Idle.note rfl).clean, trivial⟩

/-- A token is taken if it is as `p` says. -/
theorem takeIf_meets {C : Contract} (p : Token → Bool) : (Script.takeIf p).Meets C
    (fun taken y => taken = p x.token ∧ y = if p x.token then x.advance else x) x := by
  refine .token ?_
  split
  · rename_i holds
    exact ⟨holds.symm, rfl⟩
  · rename_i fails
    exact ⟨(Bool.not_eq_true _ ▸ fails : _ = false).symm, rfl⟩

theorem takeIf_passes {p : Token → Bool}
    (proper : ∀ t, p t → t.isEof = false ∧ t.isDelimiter = false) : (Script.takeIf p).Passes x := by
  refine (takeIf_meets p).mono fun _ y taken => ⟨?_, trivial⟩
  rw [taken.2]
  split
  · rename_i holds
    exact .advance (proper _ holds).1 (proper _ holds).2
  · exact .refl x

theorem equal_passes {symbol : String} (other : symbol ∉ [";", "\x7b", "\x7d"]) :
    (Script.equal symbol).Passes x :=
  takeIf_passes fun _ h =>
    ⟨Token.isEof_of_isSymbol h, Token.isDelimiter_of_symbol (Token.kind_of_isSymbol h) other⟩

/-- An operator is taken, which no delimiter is. -/
theorem operator_passes {classify : String → Option α}
    (proper : ∀ text ∈ [";", "\x7b", "\x7d"], classify text = none) :
    (Script.operator classify).Passes x := by
  refine .token ?_
  split
  · rename_i op isOperator
    cases kind : x.token.kind with
    | symbol text =>
      rw [kind] at isOperator
      have other : text ∉ [";", "\x7b", "\x7d"] := by
        intro mem
        have none := proper text mem
        cases none.symm.trans isOperator
      refine .bind (advance_passes ?_ (Token.isDelimiter_of_symbol kind other)) fun _ _ clean =>
        .pure clean
      simp [Token.isEof, kind]
    | _ =>
      rw [kind] at isOperator
      cases isOperator
  · exact .pure ⟨.refl x, trivial⟩

/-! ## Failures -/

/-- A failure is reported, and tokens are discarded. -/
theorem failed_of_discards {severity : Severity} {pos : Position} {problem : Problem}
    {ts : List Token} {y : Session} (failure : problem.isFailure)
    (closed : problem.isUnclosed = false)
    (discards : Discards (x.record [⟨.report severity pos problem, none⟩]) ts y) : Failed x y :=
  ⟨[], ⟨severity, pos, problem, [], ts⟩, [], .failure ⟨failure, by simp⟩ discards (.nil y), nofun,
    closed, rfl, rfl⟩

/-- Failing yields nothing. -/
theorem fail_meets {severity : Severity} {pos : Position} {problem : Problem}
    (failure : problem.isFailure) (closed : problem.isUnclosed = false) :
    (Script.fail severity pos problem : Script (Option α)).Meets recovery
      (fun v y => v = none ∧ Failed x y) x := by
  rintro _ y ⟨ts, discards⟩
  exact ⟨rfl, failed_of_discards failure closed discards⟩

theorem fail_tries {severity : Severity} {pos : Position} {problem : Problem}
    (failure : problem.isFailure) (closed : problem.isUnclosed = false) :
    (Script.fail severity pos problem : Script (Option α)).Tries x :=
  (fail_meets failure closed).mono fun _ _ ⟨isNone, failed⟩ => isNone ▸ failed

theorem unexpected_tries {wanted : Wanted} (other : wanted ≠ .symbol "\x7d") :
    (Script.unexpected wanted : Script (Option α)).Tries x := by
  refine .token (fail_tries rfl ?_)
  cases wanted with
  | symbol text => simpa [Problem.isUnclosed] using other
  | _ => rfl

theorem follow_tries (pos : Position) {j : Judgement α} (fair : j.IsFair) :
    (Script.follow pos j).Tries x := by
  cases j with
  | accepted a => exact .ok a
  | widened a warning =>
    refine .after (act_passes ?_) fun _ _ _ => .ok a
    have harmless : warning.isWidening := fair
    simp [Event.isHarmless, harmless]
  | refused problem => exact fail_tries fair.1 fair.2

theorem coerce_tries (destination : Destination) (expected given : ValueType) (pos : Position) :
    (Script.coerce destination expected given pos).Tries x :=
  .after (P := fun _ _ => True) (.modify ⟨(Idle.note rfl).clean, trivial⟩) fun _ _ _ =>
    follow_tries pos (ValueType.allow_fair ..)

/-- The session when the absence of a symbol has been reported. -/
def Session.miss (x : Session) (symbol : String) : Session :=
  x.record [⟨.report x.state.structural x.token.pos
    (.unexpected (.symbol symbol) x.token.kind), none⟩]

/-- A symbol is taken, or its absence is reported and tokens are discarded. -/
theorem expect_meets (symbol : String) : (Script.expect symbol).Meets recovery
    (fun v y => v = some () ∧ x.token.isSymbol symbol ∧ y = x.advance ∨
      v = none ∧ ∃ ts, Discards (x.miss symbol) ts y) x := by
  refine .bind (takeIf_meets _) ?_
  rintro taken y ⟨isTaken, same⟩
  cases taken with
  | true =>
    rw [if_pos isTaken.symm] at same
    exact .inl ⟨rfl, isTaken.symm, same⟩
  | false =>
    rw [← isTaken, if_neg Bool.false_ne_true] at same
    subst same
    exact fun _ _ discards => .inr ⟨rfl, discards⟩

theorem failed_of_miss {symbol : String} {ts : List Token} {y : Session}
    (other : symbol ≠ "\x7d") (discards : Discards (x.miss symbol) ts y) : Failed x y :=
  failed_of_discards rfl (by simpa [Problem.isUnclosed] using other) discards

theorem expect_tries {symbol : String} (other : symbol ∉ [";", "\x7b", "\x7d"]) :
    (Script.expect symbol).Tries x := by
  refine (expect_meets symbol).mono fun v y outcome => ?_
  rcases outcome with ⟨rfl, here, rfl⟩ | ⟨rfl, ts, discards⟩
  · exact Clean.advance (Token.isEof_of_isSymbol here)
      (Token.isDelimiter_of_symbol (Token.kind_of_isSymbol here) other)
  · refine failed_of_miss (fun same => other ?_) discards
    simp [same]

theorem identifier_tries : Script.identifier.Tries x := by
  refine .token ?_
  split
  · rename_i name isName
    exact .advance (by simp [Token.isEof, isName])
      (Token.isDelimiter_of_kind (by simp [isName])) fun _ => .ok _
  · exact unexpected_tries (by simp)

theorem stepTarget_tries (operand : Stateful.Operand) (pos : Position) :
    (Script.stepTarget operand pos).Tries x := by
  unfold Script.stepTarget
  split
  · split
    · exact .ok _
    · exact fail_tries rfl rfl
  · exact fail_tries rfl rfl

theorem leadingSign_passes : Script.leadingSign.Passes x := by
  refine .bind (equal_passes (by decide)) ?_
  rintro minus y ⟨clean, -⟩
  cases minus with
  | true => exact .pure ⟨clean, trivial⟩
  | false =>
    refine .bind (equal_passes (by decide)) ?_
    rintro _ z ⟨clean', -⟩
    exact .pure ⟨clean.trans clean', trivial⟩

/-! ## The routines of expressions -/

theorem comparison_passes : (Script.operator Comparison.ofSymbol?).Passes x :=
  operator_passes (by decide)

theorem additive_passes : (Script.operator Additive.ofSymbol?).Passes x :=
  operator_passes (by decide)

theorem multiplicative_passes : (Script.operator Multiplicative.ofSymbol?).Passes x :=
  operator_passes (by decide)

theorem step_passes : (Script.operator Additive.ofStep?).Passes x := operator_passes (by decide)

theorem unary_passes : (Script.operator Unary.ofSymbol?).Passes x := operator_passes (by decide)

theorem assignment_passes : (Script.operator Assignment.ofSymbol?).Passes x :=
  operator_passes (by decide)

theorem expression_tries : Script.expression.Tries x := by
  refine .within fun _ => .andThen (.invoke rfl) rfl fun lhs _ => .token ?_
  refine .after comparison_passes fun op _ _ => ?_
  cases op with
  | none => exact .ok lhs
  | some op =>
    refine .andThen (.invoke rfl) rfl fun rhs _ => ?_
    dsimp only
    split
    · exact .after (emit_passes _) fun _ _ _ => .ok _
    · exact fail_tries rfl rfl

theorem additive_tries : Script.additive.Tries x := by
  refine .within fun _ => .after leadingSign_passes fun _ _ _ => ?_
  refine .andThen (.invoke rfl) rfl fun type _ => ?_
  exact .after (emit_passes _) fun _ _ _ => .invoke rfl

theorem additiveRest_tries (lhs : ValueType) : (Script.additiveRest lhs).Tries x := by
  refine .token (.after additive_passes fun op _ _ => ?_)
  cases op with
  | none => exact .ok lhs
  | some op =>
    refine .andThen (.invoke rfl) rfl fun rhs _ => ?_
    refine .andThen (follow_tries _ (op.judge_fair lhs rhs)) rfl fun _ _ => ?_
    exact .after (emit_passes _) fun _ _ _ => .invoke rfl

theorem multiplicative_tries : Script.multiplicative.Tries x :=
  .within fun _ => .andThen (.invoke rfl) rfl fun _ _ => .invoke rfl

theorem multiplicativeRest_tries (lhs : ValueType) : (Script.multiplicativeRest lhs).Tries x := by
  refine .token (.after multiplicative_passes fun op _ _ => ?_)
  cases op with
  | none => exact .ok lhs
  | some op =>
    refine .andThen (.invoke rfl) rfl fun rhs _ => ?_
    refine .andThen (follow_tries _ (op.judge_fair lhs rhs)) rfl fun _ _ => ?_
    exact .after (emit_passes _) fun _ _ _ => .invoke rfl

theorem simple_tries : Script.simple.Tries x := by
  refine .within fun _ => .token (.after step_passes fun op _ _ => ?_)
  cases op with
  | some op =>
    refine .andThen (.invoke rfl) rfl fun operand _ => ?_
    refine .andThen (stepTarget_tries operand _) rfl fun _ _ => ?_
    exact .after (emitFor_passes _ _) fun _ _ _ => .ok _
  | none =>
    refine .after unary_passes fun op _ _ => ?_
    cases op with
    | some op =>
      dsimp only
      split
      · refine .map (.invoke rfl) fun v => ?_
        cases v <;> rfl
      · refine .andThen (.invoke rfl) rfl fun operand _ => ?_
        exact .after (emit_passes _) fun _ _ _ => .ok _
    | none =>
      refine .andThen (.invoke rfl) rfl fun operand _ => .token ?_
      refine .after step_passes fun op _ _ => ?_
      cases op with
      | none => exact .ok _
      | some op =>
        refine .andThen (stepTarget_tries operand _) rfl fun _ _ => ?_
        exact .after (emitFor_passes _ _) fun _ _ _ => .ok _

/-- A literal is no end of input and no delimiter. -/
theorem Token.proper_of_literal {t : Token} (h : (t.kind.literal?).isSome) :
    t.isEof = false ∧ t.isDelimiter = false := by
  cases kind : t.kind with
  | symbol text => simp [kind, Token.Kind.literal?] at h
  | eof => simp [kind, Token.Kind.literal?] at h
  | _ => exact ⟨by simp [isEof, kind], isDelimiter_of_kind (by simp [kind])⟩

theorem Token.proper_of_signedLiteral {t : Token} {negative : Bool}
    (h : (t.kind.signedLiteral? negative).isSome) : t.isEof = false ∧ t.isDelimiter = false := by
  refine proper_of_literal ?_
  cases kind : t.kind with
  | int value => rfl
  | double value => rfl
  | _ => simp [kind, Token.Kind.signedLiteral?] at h

/-- A literal is loaded, and taken. -/
theorem literal_tries {i : Instruction} {operand : Stateful.Operand}
    (proper : x.token.isEof = false ∧ x.token.isDelimiter = false) :
    (do Script.emit [i]; Script.advance; return some operand :
      Script (Option Stateful.Operand)).Tries x :=
  -- Emitting leaves the token at hand, so it is still the literal that is taken.
  .after (P := fun _ y => y.token = x.token)
    (.modify ⟨(Idle.record (by simp [Event.emits]; rfl)).clean, rfl⟩) fun _ _ same =>
      .advance (same ▸ proper.1) (same ▸ proper.2) fun _ => .ok _

theorem signed_tries (negative : Bool) : (Script.signed negative).Tries x := by
  refine .within fun y => .token ?_
  split
  · rename_i type i isLiteral
    exact literal_tries (Token.proper_of_signedLiteral (by rw [isLiteral]; rfl))
  · refine .andThen (.invoke rfl) rfl fun operand _ => ?_
    dsimp only
    split
    · exact .after (emit_passes _) fun _ _ _ => .ok _
    · exact .ok _

/-- What a primary begins with, unless it is a literal or nothing, is no delimiter. -/
theorem Token.proper_of_primaryLead {t : Token} (h : t.kind.primaryLead ≠ .other) :
    t.isEof = false ∧ t.isDelimiter = false := by
  cases kind : t.kind with
  | symbol text =>
    refine ⟨by simp [isEof, kind], isDelimiter_of_symbol kind fun mem => h ?_⟩
    rw [kind]
    simp only [List.mem_cons, List.not_mem_nil, or_false] at mem
    rcases mem with rfl | rfl | rfl <;> simp [Token.Kind.primaryLead]
  | ident name => exact ⟨by simp [isEof, kind], isDelimiter_of_kind (by simp [kind])⟩
  | _ => simp [kind, Token.Kind.primaryLead] at h

theorem primary_tries : Script.primary.Tries x := by
  refine .within fun y => .token ?_
  split
  · rename_i lead
    obtain ⟨going, other⟩ := Token.proper_of_primaryLead (t := y.token) (by simp [lead])
    refine .advance going other fun _ => .andThen (.invoke rfl) rfl fun type _ => ?_
    exact .andThen (expect_tries (by decide)) rfl fun _ _ => .ok _
  · rename_i symbol lead
    obtain ⟨going, other⟩ := Token.proper_of_primaryLead (t := y.token) (by simp [lead])
    refine .advance going other fun _ => .andThen identifier_tries rfl fun _ _ => ?_
    exact fail_tries rfl rfl
  · rename_i negative lead
    obtain ⟨going, other⟩ := Token.proper_of_primaryLead (t := y.token) (by simp [lead])
    exact .advance going other fun _ => .invoke rfl
  · rename_i name lead
    obtain ⟨going, other⟩ := Token.proper_of_primaryLead (t := y.token) (by simp [lead])
    exact .advance going other fun _ => .invoke rfl
  · split
    · rename_i type i isLiteral
      exact literal_tries (Token.proper_of_literal (by rw [isLiteral]; rfl))
    · exact unexpected_tries (by simp)

theorem argument_tries (name : String) (pos : Position) (signature : Signature) :
    (Script.argument name pos signature).Tries x := by
  refine .after (equal_passes (by decide)) fun opened _ _ => ?_
  cases opened with
  | false => exact fail_tries rfl rfl
  | true =>
    refine .token ?_
    split
    · refine .andThen (.invoke rfl) rfl fun given _ => ?_
      exact .andThen (coerce_tries ..) rfl fun _ _ => expect_tries (by decide)
    · exact fail_tries rfl rfl

theorem call_tries (name : String) (pos : Position) (link : String) (signature : Signature) :
    (Script.call name pos link signature).Tries x := by
  refine .within fun _ => .andThen (argument_tries ..) rfl fun _ _ => ?_
  exact .after (emitFor_passes _ _) fun _ _ _ => .ok _

theorem assignment_tries (name : String) (pos : Position) (op : Assignment) (type : ValueType)
    (slot : Nat) (opPos : Position) :
    (Script.assignment name pos op type slot opPos).Tries x := by
  refine .within fun _ => .token (.after (emitFor_passes _ _) fun _ _ _ => ?_)
  refine .andThen (.invoke rfl) rfl fun value _ => ?_
  refine .andThen (follow_tries _ (op.judge_fair type value)) rfl fun _ _ => ?_
  refine .after (emit_passes _) fun _ _ _ => .andThen (coerce_tries ..) rfl fun _ _ => ?_
  exact .after (emitFor_passes _ _) fun _ _ _ => .ok _

theorem named_tries (name : String) (pos : Position) : (Script.named name pos).Tries x := by
  refine .within fun _ => .after (lookup_passes name) fun symbol _ _ => .state ?_
  split
  · exact fail_tries rfl rfl
  · exact fail_tries rfl rfl
  · exact call_tries ..
  · split
    · exact fail_tries rfl rfl
    · refine .token (.after assignment_passes fun op _ _ => ?_)
      cases op with
      | some op => exact assignment_tries name pos op _ _ _
      | none => exact .after (emitFor_passes _ _) fun _ _ _ => .ok _

theorem condition_tries : Script.condition.Tries x := by
  refine .andThen (expect_tries (by decide)) rfl fun _ _ => .token ?_
  refine .andThen (.invoke rfl) rfl fun type _ => ?_
  dsimp only
  split
  · exact expect_tries (by decide)
  · exact fail_tries rfl rfl

end

end OnePass
