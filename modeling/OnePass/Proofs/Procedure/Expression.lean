import OnePass.Proofs.Procedure.Small

/-!
# The procedures of expressions

Each procedure of expressions does what the run on the state of the same name does. So it ends,
however freely it calls the others: a call of one that is not further down was paid for with a
token.
-/

namespace OnePass

/-! ## Instructions that are no calls -/

theorem Instruction.isCall_of_isInert {i : Instruction} (h : i.isInert) : i.isCall = false := by
  cases i with
  | call link => cases h
  | _ => rfl

theorem Instruction.isCall_of_isOperator {i : Instruction} (h : i.isOperator) : i.isCall = false :=
  isCall_of_isInert (isInert_of_isOperator h)

theorem Additive.isCall_step (op : Additive) (type : ValueType) (slot : Nat) :
    ∀ i ∈ op.step type slot, i.isCall = false := by
  intro i hi
  simp only [Additive.step, List.mem_cons, List.not_mem_nil, or_false] at hi
  rcases hi with rfl | rfl | rfl
  · split
    · rfl
    · rfl
  · rfl
  · rfl

theorem Assignment.isCall_preload (op : Assignment) (slot : Nat) :
    ∀ i ∈ op.preload slot, i.isCall = false := by
  cases op with
  | plain => simp [preload]
  | additive op => simp [preload, Instruction.isCall]
  | multiplicative op => simp [preload, Instruction.isCall]

section

variable {bound : Nat} {P : List Act → Prop} {st : State} {s : Tokens}

theorem stepTarget_realizes (x : Stateful.Operand) (pos : Position) :
    (Script.stepTarget x pos).Realizes bound st
      (x.stepTarget st pos : Move s (Option (Mention × Nat))) := by
  obtain ⟨type, place⟩ := x
  unfold Script.stepTarget Stateful.Operand.stepTarget
  cases place with
  | none => exact fail_realizes ..
  | some place =>
    dsimp only
    split
    · exact .pure _
    · exact fail_realizes ..

/-! ## Signs -/

theorem Tokens.sign?_eq_some {text : String} {negative : Bool} {r : s.Tail}
    (h : s.symbol? text = some r)
    (reading : (if text = "-" then some true else if text = "+" then some false else none) =
      some negative) : s.sign? = some (negative, r) := by
  obtain ⟨hu, holds⟩ := uncons?_of_skip? h
  have kind := Token.kind_of_isSymbol holds
  simp [sign?, operator?, hu, kind, reading]

theorem Tokens.sign?_eq_none (minus : s.symbol? "-" = none) (plus : s.symbol? "+" = none) :
    s.sign? = none := by
  have noMinus := eq_false_of_skip? (fun _ => Token.isEof_of_isSymbol) minus
  have noPlus := eq_false_of_skip? (fun _ => Token.isEof_of_isSymbol) plus
  refine operator?_eq_none_iff.2 ?_
  cases kind : s.current.kind with
  | symbol text =>
    simp only [Token.isSymbol, kind, decide_eq_false_iff_not, Token.Kind.symbol.injEq]
      at noMinus noPlus
    simp [Token.Kind.operator?, noMinus, noPlus]
  | _ => rfl

theorem Script.Realizes.leadingSign {β : Type} {negative : Bool} {r : s.Tail}
    (h : s.sign? = some (negative, r)) {k : Bool → Script β} {y : Move r.stream β}
    (hk : (k negative).Realizes bound st y) :
    (Script.leadingSign >>= k).Realizes bound st (Move.reached r.reaches y) := by
  simp only [Script.leadingSign, bind_assoc]
  cases minus : s.symbol? "-" with
  | some q =>
    obtain ⟨rfl, rfl⟩ : true = negative ∧ q = r := by
      simpa using (Tokens.sign?_eq_some minus rfl).symm.trans h
    exact .equal minus (by simpa using hk)
  | none =>
    refine .equal_none minus ?_
    cases plus : s.symbol? "+" with
    | some q =>
      obtain ⟨rfl, rfl⟩ : false = negative ∧ q = r := by
        simpa using (Tokens.sign?_eq_some plus rfl).symm.trans h
      simpa using Script.Realizes.equal plus hk
    | none =>
      rw [Tokens.sign?_eq_none minus plus] at h
      cases h

theorem Script.Realizes.leadingSign_none {β : Type} (h : s.sign? = none) {k : Bool → Script β}
    {y : Move s β} (hk : (k false).Realizes bound st y) :
    (Script.leadingSign >>= k).Realizes bound st y := by
  have absent {text : String} {negative : Bool} (reading : (if text = "-" then some true else
      if text = "+" then some false else none) = some negative) : s.symbol? text = none := by
    cases found : s.symbol? text with
    | none => rfl
    | some r =>
      rw [Tokens.sign?_eq_some found reading] at h
      cases h
  have noMinus : s.symbol? "-" = none := absent rfl
  have noPlus : s.symbol? "+" = none := absent rfl
  simp only [Script.leadingSign, bind_assoc]
  refine .equal_none noMinus ?_
  simp only [Bool.false_eq_true, if_false, bind_assoc, pure_bind]
  exact .equal_none noPlus hk

theorem Tokens.signedLiteral?_eq (s : Tokens) (negative : Bool) :
    (s.uncons?.bind fun (t, r) => (t.kind.signedLiteral? negative).map (·, r)) = none ∧
        s.current.kind.signedLiteral? negative = none ∨
      ∃ x r, (s.uncons?.bind fun (t, r) => (t.kind.signedLiteral? negative).map (·, r)) =
          some (x, r) ∧
        s.uncons? = some (s.current, r) ∧ s.current.kind.signedLiteral? negative = some x := by
  cases hu : s.uncons? with
  | none =>
    have eof := Tokens.current_kind_of_uncons? hu
    exact .inl ⟨rfl, by rw [eof]; rfl⟩
  | some x =>
    obtain ⟨t, r⟩ := x
    rw [Tokens.current_of_uncons? hu]
    cases hl : t.kind.signedLiteral? negative with
    | none => exact .inl ⟨by simp [hl], rfl⟩
    | some x => exact .inr ⟨x, r, by simp [hl], rfl, rfl⟩

end

/-! ## Calls -/

namespace Move

variable {s : Tokens} {α β : Type} {x : Move s (Option α)}
  {f : (r : Tokens) → r.left ≤ s.left → State → α → Move r (Option β)}

theorem andThen_of_none (h : x.value = none) :
    x.andThen f = reached x.reaches (pure x.state none) := by
  obtain ⟨state, value, rest, reaches⟩ := x
  cases h
  rfl

theorem andThen_of_some {a : α} (h : x.value = some a) :
    x.andThen f = reached x.reaches (f x.rest x.left_rest_le x.state a) := by
  obtain ⟨state, value, rest, reaches⟩ := x
  cases h
  rfl

theorem andThen_assoc {γ : Type} {g : (r : Tokens) → State → β → Move r (Option γ)} :
    ((x.andThen f).andThen fun r _ st b => g r st b) =
      x.andThen fun r h st a => (f r h st a).andThen fun r _ st b => g r st b := by
  obtain ⟨state, value, rest, reaches⟩ := x
  cases value with
  | none => rfl
  | some a => rfl

theorem reached_andThen {q : Tokens} (h : q.Reaches s)
    {g : (r : Tokens) → State → α → Move r (Option β)} :
    ((reached h x).andThen fun r _ st a => g r st a) =
      reached h (x.andThen fun r _ st a => g r st a) := rfl

end Move

/-- The argument of a function, with the parentheses around it. -/
def Stateful.argument (st : State) (name : String) (pos : Position) (signature : Signature)
    (s : Tokens) : Move s (Option Unit) :=
  match s.symbol? "(" with
  | none => .fail st .error pos (.functionAsValue name)
  | some ⟨q, reaches, _⟩ =>
    Move.reached reaches <|
      if q.current.kind.startsExpression then
        (expression st q).andThen fun _ _ st given =>
          (Move.carryOut st
            (follow q.current.pos (ValueType.allow .argument signature.param given))).andThen
            fun r _ st _ => .carryOut st (expect st.env ")" r)
      else .fail st .error q.current.pos (.missingArgument name signature.param)

/-- What follows the name of a function is an argument, and then the call. -/
theorem Stateful.named_function {st : State} {name link : String} {signature : Signature}
    (found : (st.scopes.find? name).map Symbol.meaning = some (.function link signature))
    (pos : Position) (s : Tokens) :
    named st name pos s = (argument st name pos signature s).andThen fun _ _ st _ =>
      .ok (st.emitFor ⟨name, pos⟩ [.call link]) ⟨signature.ret, none⟩ := by
  rw [named, found]
  unfold argument
  cases s.symbol? "(" with
  | none => rfl
  | some x =>
    obtain ⟨q, reaches, shorter⟩ := x
    dsimp only
    split
    · simp only [Move.reached_andThen, Move.andThen_assoc]
    · rfl

/-- A script does what an attempt on the state does, and where that yields a value, an argument was
checked. -/
def Script.Checks {s : Tokens} {α : Type} (m : Script (Option α)) (bound : Nat) (st : State)
    (param : ValueType) (y : Move s (Option α)) : Prop :=
  ∃ acts, m.Goes bound (fun _ => True) st s acts y.value y.state y.rest ∧
    (y.value.isSome → ArgumentChecked acts param)

namespace Script.Checks

variable {α β : Type} {bound : Nat} {st st' : State} {s r : Tokens} {as : List Act} {a : α}
  {m : Script α} {k : α → Script (Option β)} {param : ValueType}

theorem of_none {m : Script (Option α)} {y : Move s (Option α)} (h : m.Realizes bound st y)
    (none : y.value = none) : m.Checks bound st param y := by
  obtain ⟨acts, goes⟩ := h
  exact ⟨acts, goes, by simp [none]⟩

/-- Something else comes first. -/
theorem after {reaches : s.Reaches r} {y : Move r (Option β)}
    (hm : m.Goes bound (fun _ => True) st s as a st' r) (hk : (k a).Checks bound st' param y) :
    (m >>= k).Checks bound st param (Move.reached reaches y) := by
  obtain ⟨acts, goes, checked⟩ := hk
  refine ⟨as ++ acts, hm.next goes, fun h => ?_⟩
  obtain ⟨earlier, given, between, rfl, accepted, passing⟩ := checked h
  exact ⟨as ++ earlier, given, between, by simp, accepted, passing⟩

/-- Something that does nothing comes first. -/
theorem first {y : Move s (Option β)} (hm : m.Goes bound (fun _ => True) st s [] a st s)
    (hk : (k a).Checks bound st param y) : (m >>= k).Checks bound st param y := by
  obtain ⟨acts, goes, checked⟩ := hk
  exact ⟨acts, hm.first goes, checked⟩

end Script.Checks

/-- Between a check that is passed and what comes next, there is a warning at most. -/
theorem coerce_goes (bound : Nat) (st : State) (s : Tokens) (destination : Destination)
    (expected given : ValueType) (pos : Position) :
    let y : Move s (Option Unit) :=
      .carryOut st (follow pos (ValueType.allow destination expected given))
    y.value.isSome → ∃ reports, (Script.coerce destination expected given pos).Goes bound
        (fun _ => True) st s (.check destination expected given :: reports) y.value y.state y.rest ∧
      (ValueType.accept? expected given).isSome ∧ ∀ a ∈ reports, a.isPassing := by
  unfold Script.coerce ValueType.allow
  intro y passed
  cases ha : ValueType.accept? expected given with
  | none => simp [y, ha, follow, Move.carryOut, Run.fail, Run.recover] at passed
  | some agreement =>
    cases agreement with
    | exact type =>
      refine ⟨[], (check_goes destination expected given).next ?_, rfl, by simp⟩
      simp only [y, ha, follow, Move.carryOut, Run.ok, Run.events_pure]
      rw [show st.act [] = st from st.record_nil]
      exact .pure (some ())
    | widened type =>
      refine ⟨[.done ⟨.report .warning pos (.widenedValue destination expected given), none⟩],
        (check_goes destination expected given).next ?_, rfl, by simp [Act.isPassing]⟩
      simp only [y, ha]
      exact (record_goes (by simp [Entry.isPlain])).next (.pure _)

/-- The check of an argument, and the parenthesis behind it. -/
theorem accepted_checks {bound : Nat} {st : State} {s : Tokens} {param given : ValueType}
    (pos : Position) :
    (do
      let some _ ← Script.coerce .argument param given pos | return none
      Script.expect ")" : Script (Option Unit)).Checks bound st param
      ((Move.carryOut st (follow pos (ValueType.allow .argument param given))).andThen
        fun r _ st _ => .carryOut st (expect st.env ")" r) : Move s (Option Unit)) := by
  have passed := coerce_goes bound st s .argument param given pos
  have realizes : (Script.coerce .argument param given pos).Realizes bound st
    (Move.carryOut st (follow pos (ValueType.allow .argument param given)) :
        Move s (Option Unit)) := coerce_realizes ..
  generalize (Move.carryOut st (follow pos (ValueType.allow .argument param given)) :
    Move s (Option Unit)) = y at passed realizes ⊢
  obtain ⟨st', value, r, reaches⟩ := y
  cases value with
  | none => exact .of_none (.andThen realizes rfl fun _ _ _ _ => expect_realizes _) rfl
  | some _ =>
    obtain ⟨reports, goes, accepted, passing⟩ := passed rfl
    cases h : r.symbol? ")" with
    | none =>
      refine .of_none (.andThen realizes rfl fun _ _ _ _ => expect_realizes _) ?_
      simp [Move.andThen, Move.bind, Move.carryOut, expect, h, Run.fail, Run.recover]
    | some q =>
      have read : (Script.expect ")").Goes bound (fun _ => True) st' r [.read (some r.current)]
          (some ()) st' q.stream := (takeIf_goes h).next (.pure _)
      have found : (Move.carryOut st' (expect st'.env ")" r) : Move r (Option Unit)) =
          Move.reached q.reaches (.ok st' ()) := by
        unfold expect
        rw [h]
        exact congrArg (Move.mk · _ _ _) st'.record_nil
      refine ⟨(.check .argument param given :: reports) ++ [.read (some r.current)], ?_,
        fun _ => ⟨[], given, reports ++ [.read (some r.current)], rfl, accepted, ?_⟩⟩
      · rw [Move.andThen_of_some rfl]
        dsimp only at goes ⊢
        rw [found]
        exact goes.next read
      · simpa [or_imp, forall_and, Act.isPassing] using passing

/-- Reading an argument leaves the scopes as they are. -/
theorem Stateful.scopes_argument {st : State} {name link : String} {signature : Signature}
    {pos : Position} {s : Tokens} {u : Unit}
    (found : (st.scopes.find? name).map Symbol.meaning = some (.function link signature))
    (h : (argument st name pos signature s).value = some u) :
    (argument st name pos signature s).state.scopes = st.scopes := by
  have cited : (⟨name, pos⟩ : Mention).StandsIn (⟨.ident name, pos⟩ :: s.front) :=
    List.mem_cons_self
  have kept := (named_follows st.env rfl cited s (List.subset_cons_self _ _)).kept
  rw [named_function found, Move.andThen_of_some h] at kept
  exact congrArg Env.scopes kept

theorem emitCall_ends {α : Type} (st : State) (s : Tokens) (x : Mention) (link : String) (a : α) :
    (do
      Script.emitFor x [.call link]
      return a : Script α).Ends st s [.done ⟨.emit (.call link), some x⟩] a
      (st.emitFor x [.call link]) s :=
  (record_ends rfl).bind (.pure a _ s)

/-- The call is emitted for the name, and at once the procedure is left with the type that the
function returns. -/
theorem call_realizes {bound : Nat} {st : State} {name link : String} {signature : Signature}
    {pos : Position} {s : Tokens}
    (found : (st.scopes.find? name).map Symbol.meaning = some (.function link signature))
    (h : (Script.argument name pos signature).Checks (16 * s.left + Procedure.call.rank) st
      signature.param (Stateful.argument st name pos signature s))
    (lighter : 16 * s.left + Procedure.call.rank < bound) :
    (Script.call name pos link signature).Realizes bound st
      ((Stateful.argument st name pos signature s).andThen fun _ _ st _ =>
        .ok (st.emitFor ⟨name, pos⟩ [.call link]) ⟨signature.ret, none⟩) := by
  unfold Script.call
  obtain ⟨acts, goes, checked⟩ := h
  cases hv : (Stateful.argument st name pos signature s).value with
  | none =>
    rw [Move.andThen_of_none hv]
    rw [hv] at goes
    refine .within ⟨acts ++ [], goes.next ?_⟩ lighter rfl
    exact .pure none
  | some u =>
    have scopes := Stateful.scopes_argument found hv
    rw [Move.andThen_of_some hv]
    rw [hv] at goes checked
    refine ⟨_, (goes.toEnds.bind (emitCall_ends _ _ ⟨name, pos⟩ link _)).within lighter ?_⟩
    intro start total before setting
    have scopes' : start.replay (eventsOf (before ++ acts)) = st.scopes := by
      rw [eventsOf_append, Scopes.replay_append, ← setting.scopes, ← goes.carries.scopes, scopes]
    simp only [List.append_assoc]
    refine (goes.inOrder start total before setting).append ⟨?_, trivial, trivial⟩
    refine ⟨⟨name, pos⟩, signature, [], rfl, ?_, ?_, rfl⟩
    · rw [Mention.StandsFor, scopes']
      exact found
    · obtain ⟨earlier, given, between, rfl, accepted, passing⟩ := checked rfl
      exact ⟨before ++ earlier, given, between, by simp, accepted, passing⟩

mutual

theorem expression_realizes {bound : Nat} (st : State) (s : Tokens)
    (lighter : 16 * s.left + 9 < bound) :
    (Script.invoke .expression).Realizes bound st (Stateful.expression st s) := by
  rw [Stateful.expression]
  refine .invoke (.within (.andThen (additive_realizes st s (by omega)) rfl ?_) lighter rfl)
  intro r hr st lhs
  refine .token ?_
  cases h : r.operator? Comparison.ofSymbol? with
  | none => exact .operator_none h (.pure _)
  | some x =>
    obtain ⟨op, q, reaches, shorter⟩ := x
    refine .operator h (.andThen (additive_realizes st q (by omega)) rfl ?_)
    intro _ _ st rhs
    dsimp only
    split
    · exact .emit (by simp [Instruction.isCall]) (.pure _)
    · exact fail_realizes ..
termination_by 16 * s.left + 9
decreasing_by all_goals omega

theorem additive_realizes {bound : Nat} (st : State) (s : Tokens)
    (lighter : 16 * s.left + 8 < bound) :
    (Script.invoke .additive).Realizes bound st (Stateful.additive st s) := by
  rw [Stateful.additive]
  refine .invoke (.within ?_ lighter rfl)
  cases h : s.sign? with
  | none =>
    refine .leadingSign_none h (.andThen (multiplicative_realizes st s (by omega)) rfl ?_)
    intro r hr st type
    refine .emit (by simp) ?_
    rw [show st.emit (if false = true then [.unary .neg] else []) = st from st.record_nil]
    exact additiveRest_realizes st type r (by omega)
  | some x =>
    obtain ⟨negative, q, reaches, shorter⟩ := x
    refine .leadingSign h (.andThen (multiplicative_realizes st q (by omega)) rfl ?_)
    intro r hr st type
    have shorter : r.left < s.left := Nat.lt_of_le_of_lt hr shorter
    refine .emit ?_ (additiveRest_realizes _ type r (by omega))
    cases negative <;> simp [Instruction.isCall]
termination_by 16 * s.left + 8
decreasing_by all_goals omega

theorem additiveRest_realizes {bound : Nat} (st : State) (lhs : ValueType) (s : Tokens)
    (lighter : 16 * s.left + 7 < bound) :
    (Script.invoke (.additiveRest lhs)).Realizes bound st (Stateful.additiveRest st lhs s) := by
  rw [Stateful.additiveRest]
  refine .invoke (.token ?_)
  cases h : s.operator? Additive.ofSymbol? with
  | none => exact .operator_none h (.pure _)
  | some x =>
    obtain ⟨op, q, reaches, shorter⟩ := x
    refine .operator h (.andThen (multiplicative_realizes st q (by omega)) rfl ?_)
    intro p (hp : p.left ≤ q.left) st rhs
    refine .follow rfl ?_
    intro r hr st ⟨type, i⟩ hi
    have shorter : r.left < s.left := Nat.lt_of_le_of_lt (Nat.le_trans hr hp) shorter
    have plain := Instruction.isCall_of_isOperator (op.isOperator_judge hi)
    exact .emit (by simpa using plain) (additiveRest_realizes _ type r (by omega))
termination_by 16 * s.left + 7
decreasing_by all_goals omega

theorem multiplicative_realizes {bound : Nat} (st : State) (s : Tokens)
    (lighter : 16 * s.left + 6 < bound) :
    (Script.invoke .multiplicative).Realizes bound st (Stateful.multiplicative st s) := by
  rw [Stateful.multiplicative]
  refine .invoke (.within (.andThen (simple_realizes st s (by omega)) rfl ?_) lighter rfl)
  intro r _ st type
  exact multiplicativeRest_realizes st type r (by omega)
termination_by 16 * s.left + 6
decreasing_by all_goals omega

theorem multiplicativeRest_realizes {bound : Nat} (st : State) (lhs : ValueType) (s : Tokens)
    (lighter : 16 * s.left + 5 < bound) :
    (Script.invoke (.multiplicativeRest lhs)).Realizes bound st
      (Stateful.multiplicativeRest st lhs s) := by
  rw [Stateful.multiplicativeRest]
  refine .invoke (.token ?_)
  cases h : s.operator? Multiplicative.ofSymbol? with
  | none => exact .operator_none h (.pure _)
  | some x =>
    obtain ⟨op, q, reaches, shorter⟩ := x
    refine .operator h (.andThen (simple_realizes st q (by omega)) rfl ?_)
    intro p (hp : p.left ≤ q.left) st rhs
    refine .follow rfl ?_
    intro r hr st ⟨type, i⟩ hi
    have shorter : r.left < s.left := Nat.lt_of_le_of_lt (Nat.le_trans hr hp) shorter
    have plain := Instruction.isCall_of_isOperator (op.isOperator_judge hi)
    exact .emit (by simpa using plain) (multiplicativeRest_realizes _ type r (by omega))
termination_by 16 * s.left + 5
decreasing_by all_goals omega

theorem simple_realizes {bound : Nat} (st : State) (s : Tokens)
    (lighter : 16 * s.left + 4 < bound) :
    (Script.invoke .simple).Realizes bound st (Stateful.simple st s) := by
  rw [Stateful.simple]
  refine .invoke (.within (.token ?_) lighter rfl)
  cases h : s.operator? Additive.ofStep? with
  | some x =>
    obtain ⟨op, q, reaches, shorter⟩ := x
    refine .operator h (.andThen (primary_realizes st q (by omega)) rfl ?_)
    intro _ _ st x
    refine .andThen (stepTarget_realizes x _) rfl ?_
    intro _ _ st ⟨name, slot⟩
    exact .emitFor (op.isCall_step x.type slot) (.pure _)
  | none =>
    refine .operator_none h ?_
    cases h : s.operator? Unary.ofSymbol? with
    | some x =>
      obtain ⟨op, q, reaches, shorter⟩ := x
      refine .operator h ?_
      by_cases hop : op = .neg
      · simp only [hop, if_true]
        exact .map _ (signed_realizes st true q (by omega))
      · simp only [hop, if_false]
        refine .andThen (primary_realizes st q (by omega)) rfl ?_
        intro _ _ st x
        exact .emit (by simp [Instruction.isCall]) (.pure _)
    | none =>
      refine .operator_none h (.andThen (primary_realizes st s (by omega)) rfl ?_)
      intro r _ st x
      refine .token ?_
      cases h : r.operator? Additive.ofStep? with
      | none => exact .operator_none h (.pure _)
      | some z =>
        obtain ⟨op, q, reaches, shorter⟩ := z
        refine .operator h (.andThen (stepTarget_realizes x _) rfl ?_)
        intro _ _ st ⟨name, slot⟩
        refine .emitFor ?_ (.pure _)
        simpa [or_imp, forall_and, Instruction.isCall] using op.isCall_step x.type slot
termination_by 16 * s.left + 4
decreasing_by all_goals omega

theorem signed_realizes {bound : Nat} (st : State) (negative : Bool) (s : Tokens)
    (lighter : 16 * s.left + 3 < bound) :
    (Script.invoke (.signed negative)).Realizes bound st (Stateful.signed st negative s) := by
  rw [Stateful.signed]
  refine .invoke (.within (.token ?_) lighter rfl)
  rcases s.signedLiteral?_eq negative with ⟨none, unknown⟩ | ⟨x, r, some, hu, known⟩
  · rw [none, unknown]
    refine .andThen (primary_realizes st s (by omega)) rfl ?_
    intro _ _ st x
    dsimp only
    split
    · exact .emit (by simp [Instruction.isCall]) (.pure _)
    · exact .pure _
  · rw [some, known]
    have plain := Instruction.isCall_of_isInert (Token.Kind.isInert_signedLiteral known)
    exact .emit (by simpa using plain) (.advance hu (.pure _))
termination_by 16 * s.left + 3
decreasing_by all_goals omega

theorem primary_realizes {bound : Nat} (st : State) (s : Tokens)
    (lighter : 16 * s.left + 2 < bound) :
    (Script.invoke .primary).Realizes bound st (Stateful.primary st s) := by
  rw [Stateful.primary]
  refine .invoke (.within (.token ?_) lighter rfl)
  cases hu : s.uncons? with
  | none =>
    have eof := Tokens.current_kind_of_uncons? hu
    rw [eof]
    exact unexpected_realizes _
  | some x =>
    obtain ⟨t, q, reaches, shorter⟩ := x
    rw [Tokens.current_of_uncons? hu]
    dsimp only
    cases t.kind.primaryLead with
    | parenthesis =>
      refine .advance hu (.andThen (expression_realizes st q (by omega)) rfl ?_)
      intro r _ st type
      exact .andThen (expect_realizes ")") rfl fun _ _ st _ => .pure _
    | pointer symbol =>
      refine .advance hu (.andThen identifier_realizes rfl ?_)
      intro _ _ st x
      exact fail_realizes ..
    | sign negative => exact .advance hu (signed_realizes st negative q (by omega))
    | name name => exact .advance hu (named_realizes st name t.pos q (by omega))
    | other =>
      dsimp only
      cases hl : t.kind.literal? with
      | none => exact unexpected_realizes _
      | some x =>
        have plain := Instruction.isCall_of_isInert (Token.Kind.isInert_literal hl)
        exact .emit (by simpa using plain) (.advance hu (.pure _))
termination_by 16 * s.left + 2
decreasing_by all_goals omega

theorem argument_checks {bound : Nat} (st : State) (name : String) (pos : Position)
    (signature : Signature) (s : Tokens) (lighter : 16 * s.left ≤ bound) :
    (Script.argument name pos signature).Checks bound st signature.param
      (Stateful.argument st name pos signature s) := by
  unfold Script.argument Stateful.argument
  cases h : s.symbol? "(" with
  | none => exact .of_none (.equal_none h (fail_realizes ..)) rfl
  | some x =>
    obtain ⟨q, reaches, shorter⟩ := x
    refine .after (takeIf_goes h) ?_
    by_cases starts : q.current.kind.startsExpression
    · refine .first token_goes ?_
      simp only [starts, if_true]
      have realizes : (Script.invoke .expression).Realizes bound st (Stateful.expression st q) :=
        expression_realizes st q (by omega)
      cases hv : (Stateful.expression st q).value with
      | none =>
        refine .of_none (.bindAt realizes ?_) ?_
        · rw [hv]
          exact .pure none
        · rw [Move.andThen_of_none hv]
          rfl
      | some given =>
        obtain ⟨acts, goes⟩ := realizes
        rw [hv] at goes
        rw [Move.andThen_of_some hv]
        exact .after goes (accepted_checks _)
    · refine .first token_goes ?_
      simp only [starts]
      exact .of_none (fail_realizes ..) rfl
termination_by 16 * s.left
decreasing_by all_goals omega

theorem named_realizes {bound : Nat} (st : State) (name : String) (pos : Position) (s : Tokens)
    (lighter : 16 * s.left + 1 < bound) :
    (Script.invoke (.named name pos)).Realizes bound st (Stateful.named st name pos s) := by
  refine .invoke (.within (.lookup name (.state ?_)) lighter rfl)
  cases hm : (st.scopes.find? name).map Symbol.meaning with
  | none =>
    rw [Stateful.named, hm]
    exact fail_realizes ..
  | some meaning =>
    cases meaning with
    | type type =>
      rw [Stateful.named, hm]
      exact fail_realizes ..
    | function link signature =>
      rw [Stateful.named_function hm]
      exact call_realizes hm (argument_checks st name pos signature s (Nat.le_refl _))
        (Nat.lt_succ_self _)
    | localVar type slot frame =>
      rw [Stateful.named, hm]
      dsimp only
      split
      · exact fail_realizes ..
      · refine .token ?_
        cases h : s.operator? Assignment.ofSymbol? with
        | none => exact .operator_none h (.emitFor (by simp [Instruction.isCall]) (.pure _))
        | some x =>
          obtain ⟨op, q, reaches, shorter⟩ := x
          refine .operator h ?_
          dsimp only
          unfold Script.assignment
          refine .within (.token (.emitFor (op.isCall_preload slot) ?_))
            (?_ : 16 * q.left + 10 < _) rfl
          · refine .andThen (expression_realizes _ q (by omega)) rfl ?_
            intro _ _ st value
            refine .follow rfl ?_
            intro _ _ st ⟨result, code⟩ hcode
            have plain (i) (hi : i ∈ code) : i.isCall = false :=
              Instruction.isCall_of_isOperator (op.isOperator_judge hcode i hi)
            refine .emit plain ?_
            refine .andThen (coerce_realizes ..) rfl ?_
            intro _ _ st _
            exact .emitFor (by simp [Instruction.isCall]) (.pure _)
          · omega
termination_by 16 * s.left + 1
decreasing_by all_goals omega

end

end OnePass
