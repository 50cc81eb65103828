import OnePass.Proofs.Recovery.Statement
import OnePass.Proofs.Restoration
import OnePass.Proofs.Termination

/-!
# Errors are contained in their statement

A statement that is made of names, literals and symbols up to a `;` is read up to that `;` and no
further, whether it makes sense or not and wherever in it the sense is lost. Whatever was around it
is as it was before, but for the code and the reports, and the statements behind it are read as if
nothing had happened.
-/

namespace OnePass

/-- Whether a token may stand in a statement of this kind before its `;`: a name that is no type, a
literal, or a symbol that is no delimiter. -/
def Env.isFiller (env : Env) (t : Token) : Bool :=
  match t.kind with
  | .ident _ => (env.typeNamed? t.kind).isNone
  | .int _ | .double _ | .bool _ | .char _ | .string _ => true
  | .symbol _ => !t.isDelimiter
  | .keyword _ | .eof => false

namespace Env

variable {env : Env} {t : Token}

theorem isDelimiter_of_isFiller (h : env.isFiller t) : t.isDelimiter = false := by
  cases kind : t.kind with
  | symbol text => simpa [isFiller, kind] using h
  | _ => exact Token.isDelimiter_of_kind (by simp [kind])

theorem isEof_of_isFiller (h : env.isFiller t) : t.isEof = false := by
  cases kind : t.kind with
  | eof => simp [isFiller, kind] at h
  | _ => simp [Token.isEof, kind]

theorem isKeyword_of_isFiller (h : env.isFiller t) (word : String) : t.isKeyword word = false := by
  cases kind : t.kind with
  | keyword word => simp [isFiller, kind] at h
  | _ => simp [Token.isKeyword, kind]

end Env

/-- What comes before the first token of a kind, that token, and what comes behind it. -/
theorem append_cons_unique {α : Type} {p : α → Bool} {as bs cs ds : List α} {a b : α}
    (noneBefore : ∀ x ∈ as, p x = false) (here : p a) (noneBefore' : ∀ x ∈ bs, p x = false)
    (here' : p b) (h : as ++ a :: cs = bs ++ b :: ds) : as = bs ∧ a = b ∧ cs = ds := by
  induction as generalizing bs with
  | nil =>
    cases bs with
    | nil =>
      obtain ⟨same, rest⟩ := List.cons.inj h
      exact ⟨rfl, same, rest⟩
    | cons x bs =>
      obtain ⟨rfl, -⟩ := List.cons.inj h
      rw [noneBefore' _ List.mem_cons_self] at here
      cases here
  | cons x as ih =>
    cases bs with
    | nil =>
      obtain ⟨rfl, -⟩ := List.cons.inj h
      rw [noneBefore _ List.mem_cons_self] at here'
      cases here'
    | cons y bs =>
      obtain ⟨rfl, rest⟩ := List.cons.inj h
      obtain ⟨rfl, same⟩ := ih (fun z hz => noneBefore z (List.mem_cons_of_mem _ hz))
        (fun z hz => noneBefore' z (List.mem_cons_of_mem _ hz)) rest
      exact ⟨rfl, same⟩

/-! ## The course of a simple statement -/

section

variable {x x' : Session}

/-- How many things are reported that are not just widened values. -/
def complaints (es : List Event) : Nat := es.countP (!·.isHarmless)

theorem Course.complaints_act {as : List Act} (h : Course x (as.map .act) x') :
    complaints (eventsOf as) = 0 := by
  refine List.countP_eq_zero.2 fun e he => ?_
  obtain ⟨entry, hentry, rfl⟩ := List.mem_map.1 he
  obtain ⟨a, ha, same⟩ := List.mem_filterMap.1 hentry
  cases a with
  | done entry' =>
    cases same
    simp [h.proper.1 _ (List.mem_map_of_mem ha) entry rfl]
  | _ => cases same

/-- What a statement that contains no other one writes down: it reads up to and including its first
`;`, or up to the end of the input if it fails, and complains exactly if it fails. -/
theorem Concluded.acts {α : Type} {v : Option α} {acts : List Act} (h : Concluded x v x')
    (written : x'.transcript = x.transcript ++ acts) :
    complaints (eventsOf acts) = (if v.isSome then 0 else 1) ∧
    ((∃ before semi, tokensRead acts = before ++ [semi] ∧ semi.isSymbol ";" ∧
      ∀ t ∈ before, t.isSymbol ";" = false) ∨
    (∀ t ∈ tokensRead acts, t.isSymbol ";" = false) ∧ x'.token.isEof) := by
  have noSemi {as : List Act} (noDelimiter : ∀ t ∈ tokensRead as, t.isDelimiter = false) :
      ∀ t ∈ tokensRead as, t.isSymbol ";" = false :=
    fun t ht => ((Token.isDelimiter_eq_false_iff t).1 (noDelimiter t ht)).1
  cases v with
  | some a =>
    obtain ⟨as, semi, bs, course, noDelimiter, isSemi, unread⟩ := h
    obtain rfl : acts = as ++ .read (some semi) :: bs := by
      simpa only [actsOf_act, List.append_cancel_left_eq] using written.symm.trans course.written
    refine ⟨course.complaints_act, .inl ⟨tokensRead as, semi, ?_, isSemi, noSemi noDelimiter⟩⟩
    rw [← unread]
    simp [tokensRead, Act.token?]
  | none =>
    obtain ⟨as, f, bs, course, noDelimiter, closed, noRemarks, unread⟩ := h
    obtain rfl : acts = as ++ (f.acts ++ bs) := by
      simpa [actsOf_cons, Episode.acts] using written.symm.trans course.written
    have read : tokensRead (as ++ (f.acts ++ bs)) = tokensRead as ++ f.discarded := by
      simp [unread]
    obtain ⟨_, first, rest⟩ := course.split
    obtain ⟨_, failure, last⟩ := Course.split (c := [.failure f]) rest
    refine ⟨?_, ?_⟩
    · have proper := failure.proper.2 f (by simp)
      have notHarmless : (Event.report f.severity f.pos f.problem).isHarmless = false := by
        have isFailure := proper.1
        cases kind : f.problem with
        | widenedOperands | widenedValue =>
          rw [kind] at isFailure
          cases isFailure
        | _ => simp [Event.isHarmless, Problem.isWidening]
      rw [eventsOf_append, eventsOf_append, f.eventsOf_acts, noRemarks, complaints,
        List.countP_append, List.countP_append, List.countP_singleton, notHarmless]
      change complaints _ + (_ + complaints _) = _
      rw [first.complaints_act, last.complaints_act]
      rfl
    · rw [read]
      rcases course.failure_ends with ⟨skipped, semi, ends, isSemi, none⟩ | ⟨none, -⟩
      · refine .inl ⟨tokensRead as ++ skipped, semi, by rw [ends, List.append_assoc], isSemi, ?_⟩
        exact List.forall_mem_append.2 ⟨noSemi noDelimiter, none⟩
      · refine .inr ⟨List.forall_mem_append.2 ⟨noSemi noDelimiter, none⟩, ?_⟩
        refine course.isEof_of_failure (f := f) (by simp) ?_
        simpa [Failure.isTerminated] using none

/-- A statement that is no block, no conditional and no loop contains no other statement. -/
theorem statement_concludes (noBlock : x.token.isSymbol "\x7b" = false)
    (noIf : x.token.isKeyword "if" = false) (noWhile : x.token.isKeyword "while" = false) :
    Script.statement.Meets recovery
      (fun complete y => Concluded x (if complete then some () else none) y) x := by
  refine .bind (.modify (Q := fun _ y => y = x.note (.enter .statement)) rfl) fun _ y same => ?_
  subst same
  have entered : Clean x (x.note (.enter .statement)) := (Idle.note rfl).clean
  refine .bind (Q := fun complete y => Concluded x (if complete then some () else none) y) ?_
    fun complete y concluded => ?_
  · refine .token ?_
    simp only [Session.note, noBlock, noIf, noWhile, Bool.false_eq_true, if_false]
    refine .bind simpleStatement_concludes fun v y concluded => .pure ?_
    refine entered.concluded ?_
    cases v with
    | none => exact concluded
    | some _ => exact concluded
  · exact .bind (.modify (Q := fun _ z => Idle y z) (.note rfl)) fun _ _ idle =>
      .pure (concluded.idle idle)

end

/-! ## The state behind a simple statement -/

/-- A statement that is no block, no conditional and no loop only emits and reports. -/
theorem statement_onlyEmits (st : State) {s : Tokens} (noBlock : s.symbol? "\x7b" = none)
    (noIf : s.keyword? "if" = none) (noWhile : s.keyword? "while" = none) :
    ∃ entries is, (Stateful.statement st s).1.state = st.record entries ∧
      (statement st.env st.counters s).1.events = entries.map Entry.event ∧
      (statement st.env st.counters s).1.value.counters = st.counters ∧
      st.scopes.replay (entries.map Entry.event) = st.scopes ∧
      st.draft.replay (entries.map Entry.event) = st.draft.extend { code := is } ∧
      (st.record entries).counters = st.counters := by
  obtain ⟨-, -, -, entries, state, events, -⟩ :=
    simpleStatement_follows (rfl : st.env = st.env) s (List.Subset.refl _)
  have quiet := (simpleStatement_quiet st.env s)
  rw [← events] at quiet
  obtain ⟨is, draft⟩ := quiet.replay_draft st.draft
  refine ⟨entries, is, ?_, ?_, ?_, quiet.replay_scopes st.scopes, draft, quiet.counters_record⟩
  · rw [Stateful.statement, noBlock, noIf, noWhile]
    exact state
  · rw [statement, noBlock, noIf, noWhile, events]
    exact List.append_nil _
  · rw [statement, noBlock, noIf, noWhile]
    rfl

/-! ## Going on -/

namespace Script.Runs

variable {α β : Type} {x x' y : Session}

theorem bind_iff {m : Script α} {k : α → Script β} {a : α} (hm : m.Runs x a x') {b : β} :
    (m >>= k).Runs x b y ↔ (k a).Runs x' b y := by
  refine ⟨fun h => ?_, hm.bind⟩
  induction hm with
  | done => exact h
  | step _ ih =>
    cases h with
    | step rest => exact ih rest
  | calls inner _ _ ih =>
    cases h with
    | calls inner' rest =>
      obtain ⟨rfl, rfl⟩ := inner.unique inner'
      exact ih rest

theorem invoke_iff {routine : Routine α} {a : α} :
    (Script.invoke routine).Runs x a y ↔ routine.text.Runs x a y := by
  refine ⟨fun h => ?_, .invoke⟩
  cases h with
  | calls inner rest =>
    cases rest
    exact inner

theorem token_iff {k : Token → Script β} {b : β} :
    (Script.token >>= k).Runs x b y ↔ (k x.token).Runs x b y :=
  bind_iff (.step (.done _ _))

end Script.Runs

section

variable {x x' y : Session} {complete : Bool}

/-- The statements of a program go on behind a statement. -/
theorem program_goesOn (run : (Script.invoke .statement).Runs x complete x')
    (going : x.token.isEof = false) : (Script.invoke .program).Runs x () y ↔
      (Script.invoke .program).Runs x' () y := by
  refine Script.Runs.invoke_iff.trans (Script.Runs.token_iff.trans ?_)
  rw [going]
  exact run.bind_iff

/-- The statements of a block go on behind a statement. -/
theorem statements_goOn (run : (Script.invoke .statement).Runs x complete x')
    (going : x.token.isEof = false) (inside : x.token.isSymbol "\x7d" = false) :
    (Script.invoke .statements).Runs x () y ↔ (Script.invoke .statements).Runs x' () y := by
  refine Script.Runs.invoke_iff.trans (Script.Runs.token_iff.trans ?_)
  rw [going, inside]
  exact run.bind_iff

end

/-! ## What is read -/

section

variable {env : Env} {fillers : List Token} {semi : Token} {rest : List Token}

theorem ordinary_of_isFiller (isFiller : ∀ t ∈ fillers, env.isFiller t)
    (isSemi : semi.isSymbol ";") : ∀ t ∈ fillers ++ [semi], t.isEof = false ∧
      t.isSymbol "\x7b" = false ∧ t.isSymbol "\x7d" = false ∧ ∀ word, t.isKeyword word = false := by
  have kind := Token.kind_of_isSymbol isSemi
  rw [List.forall_mem_append, List.forall_mem_singleton]
  refine ⟨fun t ht => ?_, by simp [Token.isEof, kind], by simp [Token.isSymbol, kind],
    by simp [Token.isSymbol, kind], by simp [Token.isKeyword, kind]⟩
  obtain ⟨-, noOpen, noClose⟩ :=
    (Token.isDelimiter_eq_false_iff t).1 (Env.isDelimiter_of_isFiller (isFiller t ht))
  exact ⟨Env.isEof_of_isFiller (isFiller t ht), noOpen, noClose,
    Env.isKeyword_of_isFiller (isFiller t ht)⟩

/-- The first token of some that end with a `;`. -/
theorem Tokens.current_mem {s : Tokens} (fillers : List Token)
    (input : s.front = fillers ++ semi :: rest) : s.current ∈ fillers ++ [semi] := by
  rw [current, input]
  cases fillers with
  | nil => simp
  | cons t ts => simp

/-- Whoever reads up to and including the first `;`, or else up to the end of the input, reads the
fillers and the `;` behind them. -/
theorem read_of_ends {read : List Token} {r : Tokens}
    (isFiller : ∀ t ∈ fillers, env.isFiller t) (isSemi : semi.isSymbol ";")
    (input : fillers ++ semi :: rest = read ++ r.front)
    (ends : (∃ before last, read = before ++ [last] ∧ last.isSymbol ";" ∧
      ∀ t ∈ before, t.isSymbol ";" = false) ∨
      (∀ t ∈ read, t.isSymbol ";" = false) ∧ r.current.isEof) :
    read = fillers ++ [semi] ∧ r.front = rest := by
  have noSemi : ∀ t ∈ fillers, t.isSymbol ";" = false := fun t ht =>
    ((Token.isDelimiter_eq_false_iff t).1 (Env.isDelimiter_of_isFiller (isFiller t ht))).1
  rcases ends with ⟨before, last, rfl, isLast, none⟩ | ⟨none, eof⟩
  · rw [List.append_assoc] at input
    obtain ⟨rfl, rfl, same⟩ := append_cons_unique noSemi isSemi none isLast input
    exact ⟨rfl, same.symm⟩
  · -- Before the `;` there is no end of input to run into.
    have going := ordinary_of_isFiller isFiller isSemi
    rcases List.append_eq_append_iff.1 input with ⟨past, rfl, behind⟩ | ⟨left, rfl, behind⟩
    · cases past with
      | nil =>
        have current := Tokens.current_mem [] behind.symm
        rw [(going _ (List.mem_append_right _ current)).1] at eof
        cases eof
      | cons t ts =>
        obtain ⟨rfl, -⟩ := List.cons.inj behind
        rw [none semi (by simp)] at isSemi
        cases isSemi
    · have current := Tokens.current_mem left behind
      rw [(going _ (by simpa using Or.inr (List.mem_append.1 current))).1] at eof
      cases eof

end

/-- **Errors are contained in their statement.** Let a session be about to read a statement, in any
state, and let names that are no types, literals, and symbols that are no delimiters come next, then
a `;`, and then anything. Then the statement comes to its end, whether it succeeds or fails, and

* it reads these tokens and the `;`, and what comes behind is next;
* besides widened values it reports one thing if it fails, and nothing if it succeeds;
* the state is as before, but for code that is added to the innermost function, and for what is
  added to the reports and the log: no label and no local is new;
* the production of the compiler does the same;
* the statements of a program, and of a block, go on from there. -/
theorem statement_contained (x : Session) (fillers : List Token) (semi : Token) (rest : List Token)
    (input : x.pending.front = fillers ++ semi :: rest)
    (isFiller : ∀ t ∈ fillers, x.state.env.isFiller t) (isSemi : semi.isSymbol ";") :
    ∃ (complete : Bool) (x' : Session) (acts : List Act) (is : List Instruction),
      let behind : Tokens := ⟨rest, x.pending.final⟩
      let run := (statement x.state.env x.state.counters x.pending).1
      (Script.invoke .statement).Runs x complete x' ∧ x'.transcript = x.transcript ++ acts ∧
      tokensRead acts = fillers ++ [semi] ∧ x'.At behind ∧ x'.token = behind.current ∧
      complaints (eventsOf acts) = (if complete then 0 else 1) ∧
      x'.state = { x.state with
        draft := x.state.draft.extend { code := is }
        reports := x.state.reports ++ diagnostics (eventsOf acts)
        log := x.state.log ++ entriesOf acts } ∧
      x'.state.counters = x.state.counters ∧
      run.value = ⟨x.state.counters, complete⟩ ∧ run.rest = behind ∧ run.events = eventsOf acts ∧
      (∀ y, (Script.invoke .program).Runs x () y ↔ (Script.invoke .program).Runs x' () y) ∧
      ∀ y, (Script.invoke .statements).Runs x () y ↔ (Script.invoke .statements).Runs x' () y := by
  obtain ⟨going, noOpen, noClose, noKeyword⟩ :=
    ordinary_of_isFiller isFiller isSemi x.token (Tokens.current_mem fillers input)
  have absent {p : Token → Bool} (fails : p x.token = false) : x.pending.skip? p = none := by
    obtain ⟨r, next⟩ := Tokens.uncons?_current (s := x.pending) going
    have current : x.pending.current = x.token := rfl
    simp [Tokens.skip?, next, current, fails]
  -- The statement as the productions and the runs on the state have it.
  obtain ⟨entries, is, state, events, counters, scopes, draft, same⟩ := statement_onlyEmits
    x.state (absent noOpen) (absent (noKeyword "if")) (absent (noKeyword "while"))
  obtain ⟨value, rest', -⟩ := statement_performs x.state.env x.state.counters rfl rfl x.pending
    (List.Subset.refl _)
  -- The statement as the session has it.
  obtain ⟨acts, goes⟩ := statement_realizes x.state x.pending (Nat.lt_succ_self _)
  obtain ⟨x', run, at', state', written⟩ := goes.run x rfl rfl
  have concluded := (Script.Runs.invoke_iff.1 run).meets recovery_kept
    (statement_concludes noOpen (noKeyword "if") (noKeyword "while"))
  obtain ⟨complained, ends⟩ := concluded.acts written
  rw [at'.token_eq] at ends
  obtain ⟨read, front⟩ := read_of_ends isFiller isSemi (input.symm.trans goes.carries.read) ends
  have behind : (Stateful.statement x.state x.pending).1.rest = ⟨rest, x.pending.final⟩ := by
    obtain ⟨_, -, -, final⟩ := goes.carries.reaches
    rw [← front, ← final]
  rw [behind] at at' rest'
  -- What the session writes down is what the productions give out.
  obtain rfl : entriesOf acts = entries := by
    have log := goes.carries.log
    rw [state] at log
    exact (List.append_cancel_left log).symm
  rw [state] at state'
  refine ⟨_, x', acts, is, run, written, read, at', at'.token_eq, ?_, ?_, ?_, ?_, rest'.symm,
    events, fun _ => program_goesOn run going, fun _ => statements_goOn run going noClose⟩
  · rw [complained]
    cases (Stateful.statement x.state x.pending).1.value <;> rfl
  · rw [state', State.record, scopes, draft]
    rfl
  · rw [state', same]
  · exact congrArg₂ Outcome.mk counters value.symm

/-- A session before a name that is not declared and a parenthesis that was never opened; then comes
a `;`, and then a block. -/
def strayParenthesis : Session where
  source := ⟨[⟨.symbol ")", ⟨1, 3⟩⟩, ⟨.symbol ";", ⟨1, 4⟩⟩, ⟨.symbol "\x7b", ⟨1, 6⟩⟩], ⟨1, 7⟩⟩
  token := ⟨.ident "x", ⟨1, 1⟩⟩
  state := { structural := .error, scopes := {} }

theorem contained_strayParenthesis :
    strayParenthesis.pending.front = [⟨.ident "x", ⟨1, 1⟩⟩, ⟨.symbol ")", ⟨1, 3⟩⟩] ++
      ⟨.symbol ";", ⟨1, 4⟩⟩ :: [⟨.symbol "\x7b", ⟨1, 6⟩⟩] ∧
    (∀ t ∈ [⟨.ident "x", ⟨1, 1⟩⟩, ⟨.symbol ")", ⟨1, 3⟩⟩],
      strayParenthesis.state.env.isFiller t) ∧
    ∃ complete x' acts, (Script.invoke .statement).Runs strayParenthesis complete x' ∧
      x'.transcript = acts ∧
      tokensRead acts = [⟨.ident "x", ⟨1, 1⟩⟩, ⟨.symbol ")", ⟨1, 3⟩⟩, ⟨.symbol ";", ⟨1, 4⟩⟩] ∧
      x'.token = ⟨.symbol "\x7b", ⟨1, 6⟩⟩ ∧
      complaints (eventsOf acts) = (if complete then 0 else 1) := by
  have fillers : ∀ t ∈ [⟨.ident "x", ⟨1, 1⟩⟩, ⟨.symbol ")", ⟨1, 3⟩⟩],
      strayParenthesis.state.env.isFiller t := by decide
  obtain ⟨complete, x', acts, _, run, written, read, -, token, complained, -⟩ :=
    statement_contained strayParenthesis _ ⟨.symbol ";", ⟨1, 4⟩⟩ [⟨.symbol "\x7b", ⟨1, 6⟩⟩] rfl
      fillers rfl
  exact ⟨rfl, fillers, complete, x', acts, run, written, read, token, complained⟩

end OnePass
