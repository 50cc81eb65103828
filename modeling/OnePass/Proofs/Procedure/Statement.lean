import OnePass.Proofs.Procedure.Expression

/-!
# The procedures of statements

Each procedure of statements does what the run on the state of the same name does, and so does a
whole session. Where a function is begun, the tokens that were read last are those of its header.
-/

namespace OnePass

/-! ## Simple statements -/

section Simple

variable {bound : Nat}

theorem condition_realizes (st : State) (s : Tokens) (lighter : 16 * s.left + 9 < bound) :
    Script.condition.Realizes bound st (Stateful.condition st s) := by
  unfold Script.condition Stateful.condition
  refine .andThen (expect_realizes "(") rfl ?_
  intro q hq st _
  refine .token (.andThen (expression_realizes st q (by omega)) rfl ?_)
  intro r _ st type
  dsimp only
  split
  · exact expect_realizes ")"
  · exact fail_realizes ..

theorem jumpStatement_realizes (st : State) (keyword : String) (target : Option Nat)
    (pos : Position) (s : Tokens) :
    (Script.jumpStatement keyword target pos).Realizes bound st
      (Stateful.jumpStatement st keyword target pos s) := by
  cases target with
  | none => exact fail_realizes ..
  | some label =>
    unfold Script.jumpStatement Stateful.jumpStatement
    refine .andThen (expect_realizes ";") rfl ?_
    intro _ _ st _
    exact .emit (by simp [Instruction.isCall]) (.pure _)

theorem returnStatement_realizes (st : State) (pos : Position) (s : Tokens)
    (lighter : 16 * s.left + 9 < bound) :
    (Script.returnStatement pos).Realizes bound st (Stateful.returnStatement st pos s) := by
  have finish (st : State) (r : Tokens) : (do
      Script.emit [.ret]
      Script.expect ";" : Script (Option Unit)).Realizes bound st
        (Move.carryOut (st.emit [.ret]) (expect (st.emit [.ret]).env ";" r) : Move r _) :=
    .emit (by simp [Instruction.isCall]) (expect_realizes ";")
  unfold Script.returnStatement Stateful.returnStatement
  refine .state (.token ?_)
  split
  · have kept : (Stateful.expression st s).state.returns = st.returns :=
      congrArg Env.returns (expression_follows st.env rfl s (List.Subset.refl _)).kept
    refine .andThenAt (expression_realizes st s lighter) rfl ?_
    intro given
    rw [kept]
    cases st.returns.head? with
    | some expected =>
      refine .andThen (coerce_realizes ..) rfl ?_
      intro r _ st _
      exact finish st r
    | none =>
      have unchanged : (Stateful.expression st s).state.act [] = (Stateful.expression st s).state :=
        State.record_nil _
      rw [Move.andThen_of_some rfl]
      refine .of_eq (finish _ _) rfl ?_ rfl
      simp only [Move.reached, Move.carryOut, follow, Run.ok, Run.events_pure, Run.rest_pure,
        unchanged]
      rfl
  · cases st.returns.head? with
    | some expected => exact fail_realizes ..
    | none => exact finish st s

theorem simpleStatement_realizes (st : State) (s : Tokens) (lighter : 16 * s.left + 9 < bound) :
    Script.simpleStatement.Realizes bound st (Stateful.simpleStatement st s) := by
  unfold Script.simpleStatement Stateful.simpleStatement
  refine .token (.state ?_)
  cases hu : s.uncons? with
  | none =>
    have eof := Tokens.current_kind_of_uncons? hu
    have noKeyword (word : String) : s.current.isKeyword word = false := by
      simp [Token.isKeyword, eof]
    have noSymbol (text : String) : s.current.isSymbol text = false := by
      simp [Token.isSymbol, eof]
    simp only [noKeyword, noSymbol, Bool.false_eq_true, if_false]
    refine .peekType ?_
    rw [eof]
    exact unexpected_realizes _
  | some x =>
    obtain ⟨t, r⟩ := x
    rw [Tokens.current_of_uncons? hu]
    have shorter := r.shorter
    dsimp only
    split
    · exact .advance hu (jumpStatement_realizes ..)
    split
    · exact .advance hu (jumpStatement_realizes ..)
    split
    · exact .advance hu (returnStatement_realizes _ _ _ (by omega))
    split
    · exact .advance hu (.pure _)
    refine .peekType ?_
    rw [Tokens.current_of_uncons? hu]
    split
    · exact fail_realizes ..
    split
    · refine .andThen (expression_realizes st s (by omega)) rfl ?_
      intro r _ st _
      exact .emit (by simp [Instruction.isCall]) (expect_realizes ";")
    · exact unexpected_realizes _

end Simple

/-! ## Headers -/

/-- Of a step that logs nothing, only the tokens count. -/
theorem ReadLast.follow {before acts : List Act} {ts us : List Token} {st : State} {s r : Tokens}
    (h : ReadLast before ts) (carries : Carries st s acts st r) (front : s.front = us ++ r.front) :
    ReadLast (before ++ acts) (ts ++ us) := by
  obtain ⟨earlier, recent, rfl, tokens, headers⟩ := h
  have read : tokensRead acts = us := List.append_cancel_right (carries.read.symm.trans front)
  have silent : entriesOf acts = [] := List.append_right_eq_self.1 carries.log.symm
  have none : headersOf acts = [] := by
    have introduced := carries.headers
    rw [eventsOf, silent] at introduced
    exact List.forall₂_nil_right_iff.1 introduced
  refine ⟨earlier, recent ++ acts, by simp, ?_, ?_⟩
  · rw [tokensRead_append, tokens, read]
  · rw [headersOf_append, headers, none]
    rfl

section Taken

variable {α β : Type} {bound : Nat} {st : State} {s : Tokens}

/-- An attempt that yields a value has read certain tokens, and they are the last ones then. -/
theorem Script.Realizes.taken {m : Script (Option α)} {k : Option α → Script β} {x : Attempt s α}
    {spelled : α → List Token → Prop} {a : α} {ts : List Token} {y : Move x.rest β}
    (hm : m.Realizes bound st (Move.carryOut st x)) (takes : x.Takes spelled)
    (value : x.value = some a)
    (hk : ∀ us, spelled a us → (k (some a)).Realizes bound st y (ReadLast · (ts ++ us))) :
    (m >>= k).Realizes bound st (Move.reached x.reaches y) (ReadLast · ts) := by
  obtain ⟨events, us, front, spells⟩ := takes a value
  obtain ⟨as, goes⟩ := hm
  obtain ⟨bs, goes'⟩ := hk us spells
  have unchanged : (Move.carryOut st x).state = st := by
    rw [Move.carryOut, events]
    exact st.record_nil
  rw [unchanged, show (Move.carryOut st x).value = some a from value] at goes
  exact ⟨as ++ bs, (goes.mono (Nat.le_refl _) fun _ _ => trivial).bind goes'
    fun before h => h.follow goes.carries front⟩

theorem Move.bind_carryOut {x : Attempt s α} {a : α}
    {f : (r : Tokens) → r.left ≤ s.left → State → Option α → Move r β} (events : x.events = [])
    (value : x.value = some a) : (Move.carryOut st x).bind f =
      Move.reached x.reaches (f x.rest x.left_rest_le st (some a)) := by
  obtain ⟨_, _, rest, reaches⟩ := x
  cases events
  cases value
  have unchanged : st.act [] = st := st.record_nil
  simp only [Move.carryOut, Move.bind, unchanged]
  rfl

end Taken

/-- What is done when a function is begun, before its parameter. -/
def State.openingEvents (st : State) (ret : ValueType) (name : String) (pos : Position)
    (p : Parameter) : List Event :=
  [.scope (.declare ⟨name, .function (st.counters.linkName name) ⟨p.type, ret⟩, some pos⟩),
    .code (.openFunction (st.counters.linkName name) ⟨p.type, ret⟩), .scope .enter]

/-- A function is declared and opened whose header was just read. -/
theorem openFunction_goes {bound : Nat} {st : State} {s : Tokens} {ret : ValueType} {name : String}
    {pos : Position} {p : Parameter} {first second : Token} {opening closing : Position}
    (hret : st.env.typeNamed? first.kind = some ret)
    (hparam : st.env.typeNamed? second.kind = some p.type) :
    (Script.openFunction ret name pos p).Goes bound
      (ReadLast · [first, ⟨.ident name, pos⟩, ⟨.symbol "(", opening⟩, second,
        ⟨.ident p.name, p.pos⟩, ⟨.symbol ")", closing⟩]) st s
      (.header ⟨ret, name, pos, p⟩ ::
        (st.openingEvents ret name pos p).map fun e => .done { event := e }) ()
      ({ st with defined := name :: st.defined }.act (st.openingEvents ret name pos p)) s where
  carries := {
    reaches := .refl s
    read := rfl
    log := rfl
    scopes := rfl
    calls := fun _ => rfl
    headers := .cons ⟨st.counters.linkName name, rfl⟩ .nil }
  run x hs hst := by
    subst hst
    refine ⟨_, .bind (.modify _ x) (.bind (.bind (.look _) (.done _ _)) (.bind (.modify _ _)
      (.modify _ _))), hs, rfl, ?_⟩
    simp [Session.record, Session.note, State.openingEvents]
  inOrder start total before setting := by
    refine ⟨⟨⟨first, second, opening, closing, setting.past, ?_, ?_⟩, _, _, rfl⟩, trivial, trivial,
      trivial, trivial⟩
    · rw [← setting.scopes]
      exact hret
    · rw [← setting.scopes]
      exact hparam

/-! ## Declarations -/

section Declared

variable {β : Type} {bound : Nat} {P : List Act → Prop} {st : State} {s : Tokens}

/-- What is known of the acts before may be forgotten. -/
theorem Script.Realizes.forget {m : Script β} {y : Move s β} (h : m.Realizes bound st y) :
    m.Realizes bound st y P :=
  h.mono (Nat.le_refl _) fun _ _ => trivial

theorem Script.Realizes.expected {text : String} {r : s.Tail} (h : s.symbol? text = some r)
    {k : Option Unit → Script β} {y : Move r.stream β} (hk : (k (some ())).Realizes bound st y) :
    (Script.expect text >>= k).Realizes bound st (Move.reached r.reaches y) := by
  obtain ⟨acts, goes⟩ := hk
  have read : (Script.expect text).Goes bound (fun _ => True) st s [.read (some s.current)]
      (some ()) st r.stream := (takeIf_goes h).next (.pure _)
  exact ⟨_, read.next goes⟩

theorem Script.Realizes.bindLocal {name : String} {type : ValueType} {pos : Position}
    {k : Unit → Script β} {y : Move s β}
    (hk : (k ()).Realizes bound (st.bindLocal name type pos) y) :
    (Script.bindLocal name type pos >>= k).Realizes bound st y := by
  unfold Script.bindLocal
  rw [bind_assoc]
  exact .state (.act (by simp [Entry.isPlain, Env.localSymbol]) hk)

theorem act_realizes {es : List Event} (plain : ∀ e ∈ es, (Entry.mk e none).isPlain) :
    (Script.act es).Realizes bound st (Move.pure (st.act es) () : Move s Unit) := by
  refine ⟨_, record_goes fun e he => ?_⟩
  obtain ⟨event, hevent, rfl⟩ := List.mem_map.1 he
  exact plain event hevent

theorem isPlain_redeclaration (env : Env) (name : String) (pos : Position) :
    ∀ e ∈ redeclaration env name pos, (Entry.mk e none).isPlain := by
  intro e he
  unfold redeclaration at he
  split at he
  · rcases List.mem_cons.1 he with rfl | he
    · rfl
    · obtain rfl := List.mem_singleton.1 he
      rfl
  · obtain rfl := List.mem_singleton.1 he
    rfl

theorem checkFresh_realizes {name : String} (bound' : st.scopes.bindsInnermost name)
    (pos : Position) : (Script.checkFresh name pos).Realizes bound st
      (Move.carryOut st (.recover (redeclaration st.env name pos) none) :
        Move s (Option Unit)) := by
  unfold Script.checkFresh
  refine .query _ (.state ?_)
  rw [if_pos bound']
  refine .lookup name (.act (isPlain_redeclaration _ _ _) ?_)
  exact .of_eq (.bind (synchronize_realizes s) fun _ _ _ _ => .pure none) rfl rfl rfl

theorem checkFresh_goes {name : String} (fresh : ¬ st.scopes.bindsInnermost name)
    (pos : Position) :
    (Script.checkFresh name pos).Goes bound P st s [.query (.innermost name)] (some ()) st s := by
  unfold Script.checkFresh
  refine (query_goes (.innermost name)).next (state_goes.first ?_)
  rw [if_neg fresh]
  exact .pure _

theorem ReadLast.nil (before : List Act) : ReadLast before [] :=
  ⟨before, [], by simp, rfl, rfl⟩

theorem ReadLast.query {before : List Act} {ts : List Token} (h : ReadLast before ts) (q : Query) :
    ReadLast (before ++ [.query q]) ts := by
  obtain ⟨earlier, recent, rfl, tokens, headers⟩ := h
  refine ⟨earlier, recent ++ [.query q], by simp, ?_, ?_⟩
  · rw [tokensRead_append, tokens]
    exact List.append_nil ts
  · rw [headersOf_append, headers]
    rfl

theorem ReadLast.read {before : List Act} {ts : List Token} (h : ReadLast before ts) (t : Token) :
    ReadLast (before ++ [.read (some t)]) (ts ++ [t]) := by
  obtain ⟨earlier, recent, rfl, tokens, headers⟩ := h
  refine ⟨earlier, recent ++ [.read (some t)], by simp, ?_, ?_⟩
  · rw [tokensRead_append, tokens]
    rfl
  · rw [headersOf_append, headers]
    rfl

theorem Script.Realizes.fresh {name : String} {pos : Position} {ts : List Token}
    (h : ¬ st.scopes.bindsInnermost name) {k : Option Unit → Script β} {y : Move s β}
    (hk : (k (some ())).Realizes bound st y (ReadLast · ts)) :
    (Script.checkFresh name pos >>= k).Realizes bound st y (ReadLast · ts) :=
  still (checkFresh_goes h pos) hk fun _ last => last.query _

theorem Script.Realizes.equalLast {text : String} {ts : List Token} {r : s.Tail}
    (h : s.symbol? text = some r) {k : Bool → Script β} {y : Move r.stream β}
    (hk : ∀ pos, (k true).Realizes bound st y (ReadLast · (ts ++ [⟨.symbol text, pos⟩]))) :
    (Script.equal text >>= k).Realizes bound st (Move.reached r.reaches y) (ReadLast · ts) := by
  obtain ⟨-, holds⟩ := Tokens.uncons?_of_skip? h
  have kind := Token.kind_of_isSymbol holds
  refine takeIf h (hk s.current.pos) fun before last => ?_
  rw [← kind]
  exact last.read s.current

end Declared

mutual

theorem statement_realizes {bound : Nat} (st : State) (s : Tokens)
    (lighter : 16 * s.left + 11 < bound) :
    (Script.invoke .statement).Realizes bound st (Stateful.statement st s).1 := by
  rw [Stateful.statement]
  refine .invoke (.within (.token ?_) lighter rfl)
  cases hb : s.symbol? "\x7b" with
  | some x =>
    obtain ⟨q, reaches, shorter⟩ := x
    rw [if_pos (Tokens.uncons?_of_skip? hb).2]
    have block : Script.compound.Realizes (16 * s.left + 11) st (Stateful.body st s) :=
      compound_realizes st s (by omega)
    rwa [Stateful.body, hb] at block
  | none =>
    have noBrace := Tokens.eq_false_of_skip? (fun _ => Token.isEof_of_isSymbol) hb
    simp only [noBrace, Bool.false_eq_true, if_false]
    cases hi : s.keyword? "if" with
    | some x =>
      obtain ⟨q, reaches, shorter⟩ := x
      obtain ⟨hu, isIf⟩ := Tokens.uncons?_of_skip? hi
      rw [if_pos isIf]
      exact .advance hu (conditional_realizes st q (by omega))
    | none =>
      have noIf := Tokens.eq_false_of_skip? (fun _ => Token.isEof_of_isKeyword) hi
      simp only [noIf, Bool.false_eq_true, if_false]
      cases hw : s.keyword? "while" with
      | some x =>
        obtain ⟨q, reaches, shorter⟩ := x
        obtain ⟨hu, isWhile⟩ := Tokens.uncons?_of_skip? hw
        rw [if_pos isWhile]
        exact .advance hu (loop_realizes st q (by omega))
      | none =>
        have noWhile := Tokens.eq_false_of_skip? (fun _ => Token.isEof_of_isKeyword) hw
        simp only [noWhile, Bool.false_eq_true, if_false]
        exact .bind (simpleStatement_realizes st s (by omega)) fun _ _ _ _ => .pure _
termination_by 16 * s.left + 11
decreasing_by all_goals omega

theorem statements_realizes {bound : Nat} (st : State) (s : Tokens)
    (lighter : 16 * s.left + 11 < bound) :
    (Script.invoke .statements).Realizes bound st (Stateful.statements st s) := by
  rw [Stateful.statements]
  refine .invoke (.token ?_)
  split
  · exact .pure _
  · split
    · have atEnd : s.atEnd = true := ‹_›
      rw [dif_pos atEnd]
      exact .pure _
    · have more : ¬s.atEnd = true := ‹_›
      rw [dif_neg more]
      refine .bindShorter (statement_realizes st s lighter) ?_
      intro r shorter st _
      exact statements_realizes st r (by omega)
termination_by 16 * s.left + 12
decreasing_by all_goals omega

theorem compound_realizes {bound : Nat} (st : State) (s : Tokens) (lighter : 16 * s.left ≤ bound) :
    Script.compound.Realizes bound st (Stateful.body st s) := by
  unfold Script.compound
  rw [Stateful.body]
  cases hb : s.symbol? "\x7b" with
  | none =>
    have missing : (expect st.env "\x7b" s).value = none := by
      simp [expect, hb, Run.fail, Run.recover]
    refine .bindAt (expect_realizes _) ?_
    rw [show (Move.carryOut st (expect st.env "\x7b" s)).value = none from missing]
    exact .pure _
  | some x =>
    obtain ⟨q, reaches, shorter⟩ := x
    dsimp only
    rw [Stateful.block]
    refine .expected hb (.act (by simp [Entry.isPlain]) (.bind (declarations_realizes _ q ?_) ?_))
    · omega
    intro r hr st _
    have shorter : r.left < s.left := Nat.lt_of_le_of_lt hr shorter
    refine .bind (statements_realizes st r (by omega)) ?_
    intro _ _ st _
    refine .bind (expect_realizes _) ?_
    intro _ _ st v
    exact .act (by simp [Entry.isPlain]) (.pure _)
termination_by 16 * s.left + 10
decreasing_by all_goals omega

theorem declarations_realizes {bound : Nat} (st : State) (s : Tokens)
    (lighter : 16 * s.left + 12 < bound) :
    (Script.invoke .declarations).Realizes bound st (Stateful.declarations st s) := by
  rw [Stateful.declarations]
  refine .invoke (.peekType ?_)
  rcases st.env.typeName?_eq s with ⟨none, unknown⟩ | ⟨type, ⟨q, reaches, shorter⟩, some, hu, known⟩
  · rw [none, unknown]
    exact .pure _
  · rw [some, known]
    have shorter : (Stateful.declaration st type q).rest.left < s.left :=
      Nat.lt_of_le_of_lt (Move.left_rest_le _) shorter
    refine .bindAt (f := fun r _ st _ => Stateful.declarations st r)
      (declaration_realizes st s some lighter) ?_
    exact declarations_realizes (Stateful.declaration st type q).state
      (Stateful.declaration st type q).rest (by omega)
termination_by 16 * s.left + 13
decreasing_by all_goals omega

theorem declaration_realizes {bound : Nat} (st : State) (s : Tokens) {type : ValueType}
    {r : s.Tail} (named : st.env.typeName? s = some (type, r))
    (lighter : 16 * s.left + 12 < bound) : (Script.invoke .declaration).Realizes bound st
      (Move.reached r.reaches (Stateful.declaration st type r.stream)) := by
  have read : typeName st.env s = Run.reached r.reaches (.ok type) := by
    unfold typeName
    rw [named]
  have shorter := r.shorter
  refine .invoke (.within (.mono ?_ (Nat.le_refl _) fun before _ => ReadLast.nil before) lighter
    rfl)
  refine .taken (read ▸ typeName_realizes) (read ▸ typeName_takes st.env s) rfl ?_
  rintro _ ⟨first, rfl, hret⟩
  exact declarator_realizes st r.stream hret (by omega)
termination_by 16 * s.left + 12
decreasing_by all_goals omega

theorem declarator_realizes {bound : Nat} (st : State) (s : Tokens) {type : ValueType}
    {first : Token} (hret : st.env.typeNamed? first.kind = some type)
    (lighter : 16 * s.left + 12 < bound) :
    (do
      let some (name, pos) ← Script.identifier | return ()
      let some _ ← Script.checkFresh name pos | return ()
      if ← Script.equal "(" then Script.definition type name pos
      else
        Script.bindLocal name type pos
        let _ ← Script.expect ";"
        return () : Script Unit).Realizes bound st (Stateful.declaration st type s)
      (ReadLast · [first]) := by
  rw [Stateful.declaration]
  cases hv : (identifier s).value with
  | none =>
    refine .forget (.bindAt identifier_realizes ?_)
    rw [show (Move.carryOut st (identifier s)).value = none from hv]
    exact .pure _
  | some x =>
    rw [Move.bind_carryOut (identifier_takes s x hv).1 hv]
    refine .taken identifier_realizes (identifier_takes s) hv ?_
    rintro _ rfl
    obtain ⟨name, pos⟩ := x
    have shorter : (identifier s).rest.left ≤ s.left := (identifier s).left_rest_le
    generalize (identifier s).rest = q at shorter ⊢
    dsimp only
    split
    · rename_i declared
      refine .forget (.of_eq (.bindAt (f := fun _ _ st _ => .pure st ())
        (checkFresh_realizes declared pos) ?_) rfl rfl rfl)
      exact .pure _
    · rename_i fresh
      refine .fresh fresh ?_
      cases hp : q.symbol? "(" with
      | some x =>
        obtain ⟨r, reaches, shorter'⟩ := x
        exact .equalLast hp fun opening => definition_realizes st r hret (by omega)
      | none =>
        refine .forget (.equal_none hp (.bindLocal ?_))
        exact .bind (expect_realizes ";") fun _ _ _ _ => .pure _
termination_by 16 * s.left + 12
decreasing_by all_goals omega

theorem definition_realizes {bound : Nat} (st : State) (s : Tokens) {ret : ValueType}
    {name : String} {pos opening : Position} {first : Token}
    (hret : st.env.typeNamed? first.kind = some ret) (lighter : 16 * s.left + 12 < bound) :
    (Script.definition ret name pos).Realizes bound st (Stateful.definition st ret name pos s)
      (ReadLast · [first, ⟨.ident name, pos⟩, ⟨.symbol "(", opening⟩]) := by
  unfold Script.definition
  rw [Stateful.definition]
  cases hv : (parameter st.env s).value with
  | none =>
    refine .forget (.bindAt parameter_realizes ?_)
    rw [show (Move.carryOut st (parameter st.env s)).value = none from hv]
    exact .pure _
  | some p =>
    rw [Move.bind_carryOut (parameter_takes st.env s p hv).1 hv]
    refine .taken parameter_realizes (parameter_takes st.env s) hv ?_
    rintro _ ⟨second, closing, rfl, hparam⟩
    have shorter : (parameter st.env s).rest.left ≤ s.left := (parameter st.env s).left_rest_le
    generalize (parameter st.env s).rest = q at shorter ⊢
    refine .state (.still (openFunction_goes hret hparam) (.adjust rfl rfl (.bindLocal ?_))
      fun _ _ => trivial)
    refine .bind (compound_realizes _ q (by omega)) ?_
    intro _ _ ended _
    exact .adjust rfl rfl (act_realizes (by simp [Entry.isPlain]))
termination_by 16 * s.left + 11
decreasing_by all_goals omega

theorem conditional_realizes {bound : Nat} (st : State) (s : Tokens)
    (lighter : 16 * s.left + 11 < bound) :
    Script.conditional.Realizes bound st (Stateful.conditional st s) := by
  unfold Script.conditional
  rw [Stateful.conditional]
  refine .bind (condition_realizes st s (by omega)) ?_
  intro q hq st v
  cases v with
  | none => exact .pure _
  | some _ =>
    refine .state (.act (by simp [Entry.isPlain, Event.emit]) ?_)
    refine .bind (statement_realizes _ q (by omega)) ?_
    intro r hr st _
    cases he : r.keyword? "else" with
    | none => exact .equalKeyword_none he (.emit (by simp [Instruction.isCall]) (.pure _))
    | some x =>
      obtain ⟨p, reaches, shorter⟩ := x
      refine .equalKeyword he (.state (.act (by simp [Entry.isPlain, Event.emit]) ?_))
      refine .bind (statement_realizes _ p (by omega)) ?_
      intro _ _ st _
      exact .emit (by simp [Instruction.isCall]) (.pure _)
termination_by 16 * s.left + 12
decreasing_by all_goals omega

theorem guarded_realizes {bound : Nat} (st : State) (next exit : Nat) (s : Tokens)
    (lighter : 16 * s.left + 11 < bound) :
    (Script.guarded next exit).Realizes bound st
      ((Stateful.condition st s).bind fun q _ st v =>
        match v with
        | none => .pure st false
        | some () =>
          (Stateful.statement (st.emit [.jumpUnless exit]) q).1.bind fun _ _ st _ =>
            .pure (st.emit [.jump next]) true) := by
  unfold Script.guarded
  refine .bind (condition_realizes st s (by omega)) ?_
  intro q hq st v
  cases v with
  | none => exact .pure _
  | some _ =>
    refine .emit (by simp [Instruction.isCall]) (.bind (statement_realizes _ q (by omega)) ?_)
    intro _ _ st _
    exact .emit (by simp [Instruction.isCall]) (.pure _)
termination_by 16 * s.left + 12
decreasing_by all_goals omega

theorem loop_realizes {bound : Nat} (st : State) (s : Tokens)
    (lighter : 16 * s.left + 11 < bound) :
    Script.loop.Realizes bound st (Stateful.loop st s) := by
  unfold Script.loop
  rw [Stateful.loop]
  refine .state (.act (by simp [Entry.isPlain]) (.state (.act (by simp [Entry.isPlain]) ?_)))
  rw [State.act_append]
  refine .adjust rfl rfl (.emit (by simp [Instruction.isCall]) ?_)
  refine .bind (guarded_realizes _ _ _ s lighter) ?_
  intro _ _ st complete
  exact .adjust rfl rfl (.emit (by simp [Instruction.isCall]) (.pure _))
termination_by 16 * s.left + 13
decreasing_by all_goals omega

end

theorem program_realizes {bound : Nat} (st : State) (s : Tokens)
    (lighter : 16 * s.left + 11 < bound) :
    (Script.invoke .program).Realizes bound st (Stateful.program st s) := by
  rw [Stateful.program]
  refine .invoke (.token ?_)
  split
  · have atEnd : s.atEnd = true := ‹_›
    rw [dif_pos atEnd]
    exact .pure _
  · have more : ¬s.atEnd = true := ‹_›
    rw [dif_neg more]
    refine .bindShorter (statement_realizes st s lighter) ?_
    intro r shorter st _
    exact program_realizes st r (by omega)
termination_by s.left
decreasing_by all_goals omega

/-! ## Whole sessions -/

/-- The script of a whole session does what the run on the state does, and then accepts the program
if no error was reported and the input is at its end. -/
theorem parse_goes (structural : Severity) (scopes : Scopes) (s : Tokens) :
    ∃ acts, Script.parse.Goes (16 * s.left + 12) (fun _ => True) { structural, scopes } s acts
      (Diagnostic.errorCount (Stateful.parse structural scopes s).state.reports = 0 ∧
        (Stateful.parse structural scopes s).rest.current.isEof)
      (Stateful.parse structural scopes s).state (Stateful.parse structural scopes s).rest := by
  unfold Script.parse Stateful.parse
  obtain ⟨acts, goes⟩ := program_realizes (State.act { structural, scopes }
    (ValueType.primitives.map fun x => .scope (.bindBase x.1 x.2))) s
    (Nat.lt_succ_self _)
  refine ⟨_, (record_goes ?_).next (goes.next ((query_goes .errorCount).next
    (state_goes.first (token_goes.first (.pure _)))))⟩
  intro e he
  obtain ⟨event, hevent, rfl⟩ := List.mem_map.1 he
  obtain ⟨x, -, rfl⟩ := List.mem_map.1 hevent
  rfl

/-- What the run on the state leaves is what the pass gives out. -/
theorem parse_reports (structural : Severity) (scopes : Scopes) (s : Tokens) :
    (Stateful.parse structural scopes s).state.reports =
      (Pass.run structural scopes s).diagnostics := by
  obtain ⟨-, -, entries, state, events, -⟩ :=
    parse_performs structural scopes s (List.Subset.refl _)
  rw [state]
  change diagnostics _ ++ diagnostics (entries.map Entry.event) = _
  rw [State.events_act, events, ← diagnostics_append]
  rfl

theorem parse_atEnd (structural : Severity) (scopes : Scopes) (s : Tokens) :
    (Stateful.parse structural scopes s).rest.atEnd = true := by
  rw [(parse_log structural scopes s).1]
  exact program_atEnd _ {} s

/-- A session that was started on a source has come to its end, and what is written down in it. -/
structure Session.Completes (x : Session) (structural : Severity) (scopes : Scopes)
    (source : Tokens) : Prop where
  parsed : Session.Parses structural scopes source (Pass.run structural scopes source).accepted x
  state : x.state = (Stateful.parse structural scopes source).state
  log : entriesOf x.transcript = x.state.log
  bindings : x.state.scopes = scopes.replay (eventsOf x.transcript)
  events : eventsOf x.transcript = (Pass.run structural scopes source).events
  tokens : tokensRead x.transcript = source.front.takeWhile (!·.isEof)
  headers : List.Forall₂ Header.Introduces (headersOf x.transcript)
    (functionsIn (eventsOf x.transcript))
  begins : x.transcript.head? = some (.read none)
  inOrder : InOrder scopes [.read none] x.transcript.tail

/-- **Every session comes to its end**, and does what the pass gives out. -/
theorem Session.completes (structural : Severity) (scopes : Scopes) (source : Tokens) :
    ∃ x : Session, x.Completes structural scopes source := by
  obtain ⟨acts, goes⟩ := parse_goes structural scopes source
  obtain ⟨x, run, at', state, written⟩ := goes.run (start source { structural, scopes })
    (start_at source _) rfl
  have transcript : x.transcript = .read none :: acts := written
  obtain ⟨rest, log, -, -⟩ := parse_log structural scopes source
  have entries : entriesOf x.transcript = x.state.log := by
    rw [state, goes.carries.log, transcript]
    rfl
  have atEnd := parse_atEnd structural scopes source
  refine ⟨x, ?_, state, entries, ?_, ?_, ?_, ?_, by rw [transcript]; rfl, ?_⟩
  · rw [parse_reports, rest] at run
    exact run
  · rw [state, goes.carries.scopes, transcript]
    rfl
  · rw [eventsOf, entries, state, log]
  · rw [goes.carries.reaches.takeWhile_eq atEnd goes.carries.read, transcript]
    rfl
  · rw [transcript]
    exact goes.carries.headers
  · rw [transcript]
    refine goes.inOrder scopes source.left [.read none] ⟨?_, rfl, ?_, trivial⟩
    · exact (Nat.zero_add _).symm
    · intro q n isOpen
      cases isOpen

/-- All that is written down in a session is in order, but for its first act. -/
theorem Session.Completes.fits {x : Session} {structural : Severity} {scopes : Scopes}
    {source : Tokens} (h : x.Completes structural scopes source) {before after : List Act} {a : Act}
    (split : x.transcript = before ++ a :: after) (later : a ≠ .read none) :
    a.Fits scopes before after := by
  have begins := h.begins
  have inOrder := h.inOrder
  rw [split] at begins inOrder
  cases before with
  | nil => exact absurd (Option.some.inj begins) later
  | cons b before =>
    obtain rfl : b = .read none := Option.some.inj begins
    exact inOrder.moment

end OnePass
