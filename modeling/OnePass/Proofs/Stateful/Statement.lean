import OnePass.Proofs.Balance
import OnePass.Proofs.Severity
import OnePass.Proofs.Stateful.Expression

/-!
# Statements on the state

The productions of statements, blocks and declarations, on a state that goes along. What is opened
is closed again at one place, whichever way the part in between ends.
-/

namespace OnePass

theorem Move.left_rest_reached_lt {s : Tokens} {α : Type} (t : s.Tail) (x : Move t.stream α) :
    (Move.reached t.reaches x).rest.left < s.left :=
  Nat.lt_of_le_of_lt x.left_rest_le t.shorter

namespace Stateful

mutual

/-- A statement, and whether it was read to its end. -/
def statement (st : State) (s : Tokens) :
    { x : Move s Bool // s.atEnd = false → x.rest.left < s.left } :=
  match s.symbol? "\x7b" with
  | some ⟨q, reaches, shorter⟩ =>
    ⟨Move.reached reaches (block st q), fun _ => Move.left_rest_reached_lt ⟨q, reaches, shorter⟩ _⟩
  | none =>
    match s.keyword? "if" with
    | some ⟨q, reaches, shorter⟩ =>
      ⟨Move.reached reaches (conditional st q),
        fun _ => Move.left_rest_reached_lt ⟨q, reaches, shorter⟩ _⟩
    | none =>
      match s.keyword? "while" with
      | some ⟨q, reaches, shorter⟩ =>
        ⟨Move.reached reaches (loop st q),
          fun _ => Move.left_rest_reached_lt ⟨q, reaches, shorter⟩ _⟩
      | none =>
        ⟨(simpleStatement st s).bind fun _ _ st v => .pure st v.isSome, fun h => by
          have shorter := left_rest_simpleStatement_lt st.env h
          rwa [← (simpleStatement_follows rfl s (List.Subset.refl _)).rest] at shorter⟩
termination_by 8 * s.left + 1

/-- Statements up to the end of a block. -/
def statements (st : State) (s : Tokens) : Move s Unit :=
  if s.current.isSymbol "\x7d" then .pure st ()
  else if h : s.atEnd then .pure st ()
  else
    let x := statement st s
    x.1.bindShorter (x.2 (by simpa using h)) fun r _ st _ => statements st r
termination_by 8 * s.left + 2

/-- What follows the opening brace of a block. -/
def block (st : State) (s : Tokens) : Move s Bool :=
  (declarations (st.act [.scope .enter]) s).bind fun q _ st _ =>
    (statements st q).bind fun r _ st _ =>
      (Move.carryOut st (expect st.env "\x7d" r)).bind fun _ _ st v =>
        .pure (st.act [.scope .leave]) v.isSome
termination_by 8 * s.left + 4

/-- The declarations at the beginning of a block. -/
def declarations (st : State) (s : Tokens) : Move s Unit :=
  match st.env.typeName? s with
  | none => .pure st ()
  | some (type, ⟨q, reaches, _⟩) =>
    Move.reached reaches <| (declaration st type q).bind fun r _ st _ => declarations st r
termination_by 8 * s.left + 3

/-- What follows the type in a declaration. -/
def declaration (st : State) (type : ValueType) (s : Tokens) : Move s Unit :=
  (Move.carryOut st (identifier s)).bind fun q _ st v =>
    match v with
    | none => .pure st ()
    | some (name, pos) =>
      if st.scopes.bindsInnermost name then
        .carryOut st (.recover (redeclaration st.env name pos) ())
      else
        match q.symbol? "(" with
        | some ⟨r, reaches, _⟩ => Move.reached reaches <| definition st type name pos r
        | none =>
          let bound := st.bindLocal name type pos
          (Move.carryOut bound (expect bound.env ";" q)).bind fun _ _ st _ => .pure st ()
termination_by 8 * s.left + 1

/-- What follows the opening parenthesis in the definition of a function. -/
def definition (st : State) (ret : ValueType) (name : String) (pos : Position) (s : Tokens) :
    Move s Unit :=
  (Move.carryOut st (parameter st.env s)).bind fun q _ st v =>
    match v with
    | none => .pure st ()
    | some p =>
      (body (st.beginFunction ret name pos p) q).bind fun _ _ ended _ =>
        .pure (ended.endFunction st.loops) ()
termination_by 8 * s.left + 6

/-- The body of a function: a block. -/
def body (st : State) (s : Tokens) : Move s Bool :=
  match s.symbol? "\x7b" with
  | some ⟨q, reaches, _⟩ => Move.reached reaches <| block st q
  | none => (Move.carryOut st (expect st.env "\x7b" s)).bind fun _ _ st v => .pure st v.isSome
termination_by 8 * s.left + 5

/-- What follows `if`. -/
def conditional (st : State) (s : Tokens) : Move s Bool :=
  (condition st s).bind fun q _ st v =>
    match v with
    | none => .pure st false
    | some () =>
      let otherwise := st.draft.nextLabel
      (statement (st.act [.code .reserveLabel, .emit (.jumpUnless otherwise)]) q).1.bind
        fun r _ st _ =>
          match r.keyword? "else" with
          | none => .pure (st.emit [.mark otherwise]) true
          | some ⟨p, reaches, _⟩ =>
            let finish := st.draft.nextLabel
            Move.reached reaches <|
              (statement (st.act
                [.code .reserveLabel, .emit (.jump finish), .emit (.mark otherwise)]) p).1.bind
                fun _ _ st _ => .pure (st.emit [.mark finish]) true
termination_by 8 * s.left + 2

/-- What follows `while`. The loop is around its condition already. -/
def loop (st : State) (s : Tokens) : Move s Bool :=
  let next := st.draft.nextLabel
  let exit := (st.act [.code .reserveLabel]).draft.nextLabel
  let inside := (st.act [.code .reserveLabel, .code .reserveLabel]).enterLoop ⟨next, exit⟩
  Move.bind
    ((condition (inside.emit [.mark next]) s).bind fun q _ st v =>
      match v with
      | none => .pure st false
      | some () =>
        (statement (st.emit [.jumpUnless exit]) q).1.bind fun _ _ st _ =>
          .pure (st.emit [.jump next]) true)
    fun _ _ ended complete => .pure (ended.leaveLoop.emit [.mark exit]) complete
termination_by 8 * s.left + 2

end

/-- Statements up to the end of the input. -/
def program (st : State) (s : Tokens) : Move s Unit :=
  if h : s.atEnd then .pure st ()
  else
    let x := statement st s
    x.1.bindShorter (x.2 (by simpa using h)) fun r _ st _ => program st r
termination_by s.left

/-- Reads a program, beginning with the given scopes, in which the primitive types are bound
first. -/
def parse (structural : Severity) (scopes : Scopes) (s : Tokens) : Move s Unit :=
  program (State.act { structural, scopes }
    (ValueType.primitives.map fun (name, type) => .scope (.bindBase name type))) s

end Stateful

/-! ## Justified logs -/

/-- Every reference in a log is justified at its moment; `scopes` are open and `frame` functions at
the beginning. -/
def Noted : Scopes → Nat → List Entry → Prop
  | _, _, [] => True
  | scopes, frame, e :: log =>
    e.Justified scopes frame ∧ Noted (scopes.replay [e.event]) (e.event.depthAfter frame) log

namespace Noted

variable {scopes : Scopes} {frame : Nat}

theorem append {es fs : List Entry} (he : Noted scopes frame es)
    (hf : Noted (scopes.replay (es.map Entry.event)) (depthAfter frame (es.map Entry.event)) fs) :
    Noted scopes frame (es ++ fs) := by
  induction es generalizing scopes frame with
  | nil => exact hf
  | cons e es ih =>
    refine ⟨he.1, ih he.2 ?_⟩
    rw [← Scopes.replay_append]
    exact hf

/-- What is done without a name refers to nothing. -/
theorem act {es : List Event} (plain : ∀ e ∈ es, e.isReference = false) :
    Noted scopes frame (es.map fun e => { event := e }) := by
  induction es generalizing scopes frame with
  | nil => trivial
  | cons e es ih =>
    exact ⟨Entry.justified_of_plain (plain e (by simp)), ih fun e he => plain e (by simp [he])⟩

/-- The entries of a quiet run are all made in the same scopes. -/
theorem of_quiet {env : Env} {entries : List Entry} (quiet : Quiet env (entries.map Entry.event))
    (justified : ∀ e ∈ entries, e.Justified scopes frame) : Noted scopes frame entries := by
  induction entries with
  | nil => trivial
  | cons e entries ih =>
    obtain ⟨event, cause⟩ := e
    cases quiet with
    | report severity pos problem quiet =>
      exact ⟨justified _ (by simp), ih quiet fun e he => justified e (by simp [he])⟩
    | emit _ quiet =>
      exact ⟨justified _ (by simp), ih quiet fun e he => justified e (by simp [he])⟩

end Noted

/-! ## Runs that perform a production -/

/-- The state after some entries, by which the given functions are defined. -/
def State.advance (st : State) (entries : List Entry) (defined : List String) : State :=
  { st.record entries with defined }

theorem State.advance_append (st : State) (es fs : List Entry) (before after : List String) :
    (st.advance es before).advance fs after = st.advance (es ++ fs) after := by
  unfold advance
  rw [← record_append]
  rfl

theorem State.record_eq_advance (st : State) (es : List Entry) :
    st.record es = st.advance es st.defined := rfl

/-- A run on the state does what a production gives out. What the production hands on by its value
is `out`, and `view` is what the run yields. -/
structure Move.Enacts {s : Tokens} {α β : Type} (y : Move s β) (source : List Token) (st : State)
    (x : Run s α) (out : α → Declared) (view : α → β) : Prop where
  value : y.value = view x.value
  rest : y.rest = x.rest
  log : ∃ entries, y.state = st.advance entries (out x.value).counters.defined ∧
    entries.map Entry.event = x.events ∧ Noted st.scopes st.returns.length entries ∧
    ∀ e ∈ entries, e.Cites source

/-- If a run on the state may read tokens of a source only, it does what a production gives out. -/
def Move.Performs {s : Tokens} {α β : Type} (y : Move s β) (source : List Token) (st : State)
    (x : Run s α) (out : α → Declared) (view : α → β) : Prop :=
  s.front ⊆ source → y.Enacts source st x out view

theorem Entry.cites_append {source : List Token} {es fs : List Entry}
    (he : ∀ e ∈ es, e.Cites source) (hf : ∀ e ∈ fs, e.Cites source) :
    ∀ e ∈ es ++ fs, e.Cites source :=
  fun e mem => (List.mem_append.1 mem).elim (he e) (hf e)

/-- What is done without a name. -/
theorem Entry.cites_act (source : List Token) (es : List Event) :
    ∀ e ∈ es.map fun event => ({ event } : Entry), e.Cites source := by
  intro e mem
  obtain ⟨event, -, rfl⟩ := List.mem_map.1 mem
  exact nofun

theorem Quiet.counters_record {env : Env} {st : State} {entries : List Entry}
    (quiet : Quiet env (entries.map Entry.event)) : (st.record entries).counters = st.counters := by
  simp [State.counters, State.record, Draft.nextLabel_replay, quiet.reservedIn,
    quiet.nextSlot_replay]

/-- What a production sees and counts after a run is what it hands on. -/
theorem Move.Enacts.handsOn {source : List Token} {env : Env} {c : Counters} {st : State}
    {s : Tokens} {α β : Type} {out : α → Declared} {view : α → β} {y : Move s β} {x : Run s α}
    (hy : y.Enacts source st x out view) (he : st.env = env) (hc : st.counters = c)
    (ht : x.Traced env c out) :
    y.state.env = { env with scopes := (out x.value).scopes } ∧
      y.state.counters = (out x.value).counters := by
  obtain ⟨entries, hstate, hevents, -⟩ := hy.log
  subst he hc
  have scopes : (st.record entries).scopes = (out x.value).scopes := by
    rw [← ht.replay_scopes, ← hevents]
    rfl
  have labels : (st.record entries).draft.nextLabel = (out x.value).counters.labels := by
    rw [ht.labels_eq, ← hevents]
    exact Draft.nextLabel_replay _ _
  have locals : (st.record entries).draft.nextSlot = (out x.value).counters.locals := by
    rw [← ht.nextSlot_replay (d := st.draft) rfl, ← hevents]
    rfl
  constructor
  · simp only [hstate, State.advance, State.env, scopes]
    rfl
  · simp only [hstate, State.advance, State.counters, labels, locals]

namespace Move.Performs

variable {source : List Token} {env : Env} {c : Counters} {st : State} {s r : Tokens}
  {α β γ δ : Type} {out : α → Declared} {view : α → β} {out' : γ → Declared} {view' : γ → δ}

theorem pure {a : α} {b : β} (hb : b = view a) (hd : st.defined = (out a).counters.defined) :
    (Move.pure st b : Move s β).Performs source st (Run.pure a) out view :=
  fun _ => ⟨hb, rfl, [], by simp [Move.pure, State.advance, ← hd], rfl, trivial, by simp⟩

theorem reached (h : s.Reaches r) {y : Move r β} {x : Run r α}
    (hy : y.Performs source st x out view) :
    (Move.reached h y).Performs source st (Run.reached h x) out view := by
  intro hs
  obtain ⟨value, rest, log⟩ := hy (List.Subset.trans h.subset hs)
  exact ⟨value, rest, log⟩

/-- Entries that are recorded first; as many functions are open after them. -/
theorem record {entries : List Entry} {y : Move s β} {x : Run s α}
    (noted : Noted st.scopes st.returns.length entries) (cited : ∀ e ∈ entries, e.Cites source)
    (level : depthAfter st.returns.length (entries.map Entry.event) = st.returns.length)
    (hy : y.Performs source (st.record entries) x out view) :
    y.Performs source st (Run.after (entries.map Entry.event) x) out view := by
  intro hs
  obtain ⟨value, rest, later, hstate, hevents, hlater, cited'⟩ := hy hs
  refine ⟨value, rest, entries ++ later, ?_, ?_, noted.append ?_, Entry.cites_append cited cited'⟩
  · rw [hstate, State.record_eq_advance, State.advance_append]
    rfl
  · rw [List.map_append, hevents]
    rfl
  · rwa [level]

/-- Events that refer to nothing come first. -/
theorem act (es : List Event) {y : Move s β} {x : Run s α}
    (plain : ∀ e ∈ es, e.isReference = false)
    (level : depthAfter st.returns.length es = st.returns.length)
    (hy : y.Performs source (st.act es) x out view) :
    y.Performs source st (Run.after es x) out view := by
  have whole := record (.act plain) (Entry.cites_act source es) (by rwa [State.events_act]) hy
  rwa [State.events_act] at whole

/-- Reports that are followed by a new start behind the next `;`. -/
theorem recover {es : List Event} {a : α} {b : β} (plain : ∀ e ∈ es, e.isReference = false)
    (hb : b = view a) (hd : st.defined = (out a).counters.defined) :
    (Move.carryOut st (Run.recover es b) : Move s β).Performs source st (Run.recover es a) out
      view := by
  refine fun _ => ⟨hb, rfl, _, ?_, State.events_act es, .act plain, Entry.cites_act source es⟩
  simp only [Run.recover, ← hd]
  rfl

/-- One run after another, where `P` is known of what is left. -/
theorem chain {y : Move s β} {x : Run s α} {P : Tokens → Prop} (hp : P y.rest) (hq : P x.rest)
    {f : (r : Tokens) → P r → State → β → Move r δ} {g : (r : Tokens) → P r → α → Run r γ}
    (he : st.env = env) (hc : st.counters = c) (hy : y.Performs source st x out view)
    (ht : x.Traced env c out)
    (hf : ∀ h st', st'.env = { env with scopes := (out x.value).scopes } →
      st'.counters = (out x.value).counters →
      (f x.rest h st' (view x.value)).Performs source st' (g x.rest h x.value) out' view')
    {reaches : s.Reaches (f y.rest hp y.state y.value).rest}
    {reaches' : s.Reaches (g x.rest hq x.value).rest} :
    ({ f y.rest hp y.state y.value with reaches := reaches } : Move s δ).Performs source st
      { g x.rest hq x.value with
        events := x.events ++ (g x.rest hq x.value).events, reaches := reaches' } out' view' := by
  intro hs
  have hy := hy hs
  obtain ⟨henv, hcounters⟩ := hy.handsOn he hc ht
  have level := ht.depthAfter_eq st.returns.length
  have left := List.Subset.trans x.reaches.subset hs
  obtain ⟨state, value, rest, _⟩ := y
  obtain ⟨hvalue, hrest, entries, hstate, hevents, noted, cited⟩ := hy
  cases hvalue
  cases hrest
  cases hstate
  obtain ⟨hvalue', hrest', later, hstate', hevents', noted', cited'⟩ := hf hp _ henv hcounters left
  refine ⟨hvalue', hrest', entries ++ later, ?_, ?_, noted.append ?_,
    Entry.cites_append cited cited'⟩
  · rw [← State.advance_append]
    exact hstate'
  · rw [List.map_append, hevents, hevents']
  · rw [hevents, level, ← hevents]
    exact noted'

theorem bind {y : Move s β} {x : Run s α}
    {f : (r : Tokens) → r.left ≤ s.left → State → β → Move r δ}
    {g : (r : Tokens) → r.left ≤ s.left → α → Run r γ} (he : st.env = env) (hc : st.counters = c)
    (hy : y.Performs source st x out view) (ht : x.Traced env c out)
    (hf : ∀ h st', st'.env = { env with scopes := (out x.value).scopes } →
      st'.counters = (out x.value).counters →
      (f x.rest h st' (view x.value)).Performs source st' (g x.rest h x.value) out' view') :
    (y.bind f).Performs source st (x.bind g) out' view' :=
  chain (P := fun r => r.left ≤ s.left) y.left_rest_le x.left_rest_le he hc hy ht hf

theorem bindShorter {y : Move s β} {x : Run s α} {hp : y.rest.left < s.left}
    {hq : x.rest.left < s.left} {f : (r : Tokens) → r.left < s.left → State → β → Move r δ}
    {g : (r : Tokens) → r.left < s.left → α → Run r γ} (he : st.env = env) (hc : st.counters = c)
    (hy : y.Performs source st x out view) (ht : x.Traced env c out)
    (hf : ∀ h st', st'.env = { env with scopes := (out x.value).scopes } →
      st'.counters = (out x.value).counters →
      (f x.rest h st' (view x.value)).Performs source st' (g x.rest h x.value) out' view') :
    (y.bindShorter hp f).Performs source st (x.bindShorter hq g) out' view' :=
  chain (P := fun r => r.left < s.left) hp hq he hc hy ht hf

/-- An attempt, and then whatever its value leads to. -/
theorem attempt {y : Move s (Option β)} {x : Attempt s β}
    {f : (r : Tokens) → r.left ≤ s.left → State → Option β → Move r δ}
    {g : (r : Tokens) → r.left ≤ s.left → Option β → Run r γ} (hc : st.counters = c)
    (hy : y.Follows source env st x Eq) (he : st.env = env) (quiet : Quiet env x.events)
    (hf : ∀ r h st' v, st'.env = env → st'.counters = c → st'.loops = st.loops →
      (f r h st' v).Performs source st' (g r h v) out' view') :
    (y.bind f).Performs source st (x.bind g) out' view' := by
  subst he
  intro hs
  obtain ⟨state, value, rest, reaches⟩ := y
  obtain ⟨events, value', rest', reaches'⟩ := x
  obtain ⟨kept, hvalue, hrest, entries, hstate, hevents, noted⟩ := hy hs
  cases hrest
  cases hstate
  cases hevents
  have same : value = value' := by
    cases hvalue with
    | none => rfl
    | some h => rw [h]
  subst same
  have level := (Trace.quiet (c := c) quiet).depthAfter_eq st.returns.length
  have later := record (.of_quiet quiet fun e he => (noted e he).1) (fun e he => (noted e he).2)
    level (hf rest reaches.left_le _ value kept (quiet.counters_record.trans hc) rfl)
    (List.Subset.trans reaches.subset hs)
  exact ⟨later.value, later.rest, later.log⟩

end Move.Performs

/-! ## Every production is performed -/

theorem isReference_redeclaration (env : Env) (name : String) (pos : Position) :
    ∀ e ∈ redeclaration env name pos, e.isReference = false := by
  intro e he
  unfold redeclaration at he
  split at he
  · rcases List.mem_cons.1 he with rfl | he
    · rfl
    · obtain rfl := List.mem_singleton.1 he
      rfl
  · obtain rfl := List.mem_singleton.1 he
    rfl

theorem State.counters_bindLocal (st : State) (name : String) (type : ValueType)
    (pos : Position) : (st.bindLocal name type pos).counters = st.counters.withLocal := by
  have slot := st.draft.nextSlot_reserveLocal name type
  have label := st.draft.nextLabel_replay [.code (.reserveLocal name type)]
  simpa [counters, bindLocal, act, record, Counters.withLocal, Draft.apply, slot] using label

@[simp] theorem Draft.nextLabel_emit (d : Draft) (i : Instruction) :
    (d.emit i).nextLabel = d.nextLabel := by
  rw [emit_eq]
  simp [nextLabel, size_marksAfter]

@[simp] theorem Draft.nextLabel_reserveLabel (d : Draft) :
    d.reserveLabel.nextLabel = d.nextLabel + 1 := by
  simp [nextLabel, reserveLabel]

section Function

variable {source : List Token} {env : Env} {c : Counters} {st : State} (he : st.env = env)
  (hc : st.counters = c) {ret : ValueType} {name : String} {pos : Position} {p : Parameter}
  {f symbol : Symbol}
  (hf : f = c.functionSymbol name ⟨p.type, ret⟩ pos)
  (hs : symbol = (env.inFunction f ret).localSymbol (c.inFunction name) p.name p.type p.pos)
include he hc hf hs

/-- What the beginning of a function does, as events. -/
theorem State.beginFunction_eq : st.beginFunction ret name pos p =
    { st with defined := name :: st.defined, loops := [], returns := ret :: st.returns }.act
      [.scope (.declare f), .code (.openFunction (c.linkName name) ⟨p.type, ret⟩), .scope .enter,
        .code (.reserveLocal p.name p.type), .scope (.declare symbol)] := by
  subst he hc hf hs
  exact State.act_append { st with
    defined := name :: st.defined, loops := [], returns := ret :: st.returns } [_, _, _] [_, _]

theorem State.env_beginFunction : (st.beginFunction ret name pos p).env =
    { env.inFunction f ret with scopes := (env.inFunction f ret).scopes.declare symbol } := by
  subst he hc hf hs
  rfl

theorem State.counters_beginFunction :
    (st.beginFunction ret name pos p).counters = (c.inFunction name).withLocal := by
  subst he hc hf hs
  rw [beginFunction, counters_bindLocal]
  rfl

/-- A function: its body is performed from the state at its beginning, and then it is ended. -/
theorem Move.Performs.function {s : Tokens} {y : Move s Bool} {x : Run s Outcome}
    {inside : Env} (hy : y.Performs source (st.beginFunction ret name pos p) x inside.handOn
      Outcome.complete) (scopes : Scopes) :
    (y.bind fun _ _ ended _ => .pure (ended.endFunction st.loops) ()).Performs source st
      (Run.after
        [.scope (.declare f), .code (.openFunction (c.linkName name) ⟨p.type, ret⟩), .scope .enter,
          .code (.reserveLocal p.name p.type), .scope (.declare symbol)] <|
        x.bind fun _ _ o => Run.after [.scope .leave, .code .closeFunction]
          (.pure ⟨scopes, { o.counters with locals := c.locals }⟩))
      id fun _ => () := by
  intro read
  obtain ⟨-, hrest, entries, hstate, hevents, noted, cited⟩ := hy read
  rw [State.beginFunction_eq he hc hf hs] at hstate noted
  have last : ∀ e ∈ [(⟨.scope .leave, none⟩ : Entry), ⟨.code .closeFunction, none⟩],
      e.Cites source :=
    Entry.cites_act source [.scope .leave, .code .closeFunction]
  refine ⟨rfl, hrest, _ ++ entries ++ [⟨.scope .leave, none⟩, ⟨.code .closeFunction, none⟩], ?_,
    ?_, .append (.append (.act ?_) noted) ?_,
    Entry.cites_append (Entry.cites_append (Entry.cites_act _ _) cited) last⟩
  · change y.state.endFunction st.loops = _
    rw [hstate]
    -- Loops and return types are again those before, and the functions defined since stay so.
    change ((st.act _).advance entries _).act _ = _
    simp only [State.act, State.record_eq_advance, State.advance_append]
    rfl
  · simp [← hevents]
  · simp [Event.isReference]
  · exact ⟨Entry.justified_of_plain rfl, Entry.justified_of_plain rfl, trivial⟩

end Function

section Loop

variable {source : List Token} {env : Env} {c : Counters} {st : State} (s : Tokens)

/-- A condition does not depend on the loop around it. -/
theorem condition_inLoop : condition (env.inLoop c) s = condition env s :=
  (condition_alike env env.structural (some ⟨c.labels, c.labels + 1⟩) s).eq.symm

/-- What is read in a loop, and the mark of its end at one place. -/
theorem loop_eq : loop env c s =
    Run.after [.code .reserveLabel, .code .reserveLabel, .emit (.mark c.labels)]
      (Run.bind
        ((condition env s).bind fun q _ v =>
          match v with
          | none => .pure ⟨c.withLabel.withLabel, false⟩
          | some () =>
            Run.after [.emit (.jumpUnless (c.labels + 1))] <|
              (statement (env.inLoop c) c.withLabel.withLabel q).1.bind fun _ _ o =>
                Run.after [.emit (.jump c.labels)] (.pure ⟨o.counters, true⟩))
        fun _ _ o => Run.after [.emit (.mark (c.labels + 1))] (.pure o)) := by
  rw [loop]
  generalize condition env s = x
  obtain ⟨events, value, rest, reaches⟩ := x
  cases value with
  | none => simp [Run.after, Run.bind, Run.pure]
  | some _ => simp [Run.after, Run.bind, Run.pure, Env.inLoop]

variable {s}

/-- A loop: what it contains is performed inside of it, and then its end is marked. -/
theorem Move.Performs.looped {y : Move s Bool} {x : Run s Outcome}
    (hy : y.Performs source (((st.act [.code .reserveLabel, .code .reserveLabel]).enterLoop
      ⟨c.labels, c.labels + 1⟩).emit [.mark c.labels]) x env.handOn Outcome.complete) :
    (y.bind fun _ _ ended complete =>
        .pure (ended.leaveLoop.emit [.mark (c.labels + 1)]) complete).Performs source st
      (Run.after [.code .reserveLabel, .code .reserveLabel, .emit (.mark c.labels)]
        (x.bind fun _ _ o => Run.after [.emit (.mark (c.labels + 1))] (.pure o)))
      env.handOn Outcome.complete := by
  intro hs
  obtain ⟨hvalue, hrest, entries, hstate, hevents, noted, cited⟩ := hy hs
  have start : Noted st.scopes st.returns.length [⟨.code .reserveLabel, none⟩,
      ⟨.code .reserveLabel, none⟩, ⟨.emit (.mark c.labels), none⟩] :=
    ⟨Entry.justified_of_plain rfl, Entry.justified_of_plain rfl, Entry.justified_of_plain rfl,
      trivial⟩
  have last (scopes : Scopes) (frame : Nat) :
      Noted scopes frame [⟨.emit (.mark (c.labels + 1)), none⟩] :=
    ⟨Entry.justified_of_plain rfl, trivial⟩
  have first := Entry.cites_act source
    [.code .reserveLabel, .code .reserveLabel, .emit (.mark c.labels)]
  have closing := Entry.cites_act source [.emit (.mark (c.labels + 1))]
  refine ⟨hvalue, hrest, _, ?_, ?_, (start.append noted).append (last _ _),
    Entry.cites_append (Entry.cites_append first cited) closing⟩
  · change y.state.leaveLoop.emit _ = _
    rw [hstate]
    -- The loops are again those before.
    change (State.advance ((st.act _).act (Event.emits [_])) entries _).act _ = _
    rw [State.act_append]
    simp only [State.act, State.record_eq_advance, State.advance_append]
    rfl
  · simp [← hevents]

end Loop

section Statements

variable {source : List Token}

mutual

theorem statement_performs (env : Env) (c : Counters) {st : State} (he : st.env = env)
    (hc : st.counters = c) (s : Tokens) :
    (Stateful.statement st s).1.Performs source st (statement env c s).1 env.handOn
      Outcome.complete := by
  rw [Stateful.statement, statement]
  cases s.symbol? "\x7b" with
  | some x =>
    obtain ⟨q, reaches, shorter⟩ := x
    exact .reached reaches (block_performs env c he hc q)
  | none =>
    cases s.keyword? "if" with
    | some x =>
      obtain ⟨q, reaches, shorter⟩ := x
      exact .reached reaches (conditional_performs env c he hc q)
    | none =>
      cases s.keyword? "while" with
      | some x =>
        obtain ⟨q, reaches, shorter⟩ := x
        exact .reached reaches (loop_performs env c he hc q)
      | none =>
        dsimp only
        refine .attempt hc (simpleStatement_follows he s) he (simpleStatement_quiet env s) ?_
        rintro _ _ st v _ rfl _
        exact .pure rfl rfl
termination_by 8 * s.left + 1
decreasing_by all_goals omega

theorem statements_performs (env : Env) (c : Counters) {st : State} (he : st.env = env)
    (hc : st.counters = c) (s : Tokens) :
    (Stateful.statements st s).Performs source st (statements env c s) (Declared.mk env.scopes)
      fun _ => () := by
  rw [Stateful.statements, statements]
  split
  · exact .pure rfl (congrArg Counters.defined hc)
  · split
    · exact .pure rfl (congrArg Counters.defined hc)
    · rename_i h
      have shorter := (statement env c s).2 (by simpa using h)
      refine .bindShorter he hc (statement_performs env c he hc s) (statement_traced env c s) ?_
      intro _ st he hc
      exact statements_performs env _ he hc _
termination_by 8 * s.left + 2
decreasing_by all_goals omega

theorem block_performs (env : Env) (c : Counters) {st : State} (he : st.env = env)
    (hc : st.counters = c) (s : Tokens) :
    (Stateful.block st s).Performs source st (block env c s) env.handOn Outcome.complete := by
  rw [Stateful.block, block]
  refine .act [.scope .enter] (by simp [Event.isReference]) rfl ?_
  have inside : (st.act [.scope .enter]).env = { env with scopes := env.scopes.enter } := by
    subst he
    rfl
  refine .bind inside hc (declarations_performs _ c inside hc s) (declarations_traced _ c s) ?_
  intro hle st he hc
  refine .bind he hc (statements_performs _ _ he hc _) (statements_traced _ _ _) ?_
  intro _ st he hc
  refine .attempt hc (expect_follows he _ _) he (expect_quiet _ _ _ _) ?_
  intro _ _ st v he hc _
  exact .act [.scope .leave] (by simp [Event.isReference]) rfl
    (.pure rfl (congrArg Counters.defined hc))
termination_by 8 * s.left + 4
decreasing_by all_goals omega

theorem declarations_performs (env : Env) (c : Counters) {st : State} (he : st.env = env)
    (hc : st.counters = c) (s : Tokens) :
    (Stateful.declarations st s).Performs source st (declarations env c s) id fun _ => () := by
  rw [Stateful.declarations, declarations, he]
  cases env.typeName? s with
  | none => exact .pure rfl (congrArg Counters.defined hc)
  | some x =>
    obtain ⟨type, q, reaches, shorter⟩ := x
    refine .reached reaches ?_
    refine .bind he hc (declaration_performs env c he hc type q)
      (declaration_traced env c type q) ?_
    intro hle st he hc
    exact declarations_performs _ _ he hc _
termination_by 8 * s.left + 3
decreasing_by all_goals omega

theorem declaration_performs (env : Env) (c : Counters) {st : State} (he : st.env = env)
    (hc : st.counters = c) (type : ValueType) (s : Tokens) :
    (Stateful.declaration st type s).Performs source st (declaration env c type s) id
      fun _ => () := by
  rw [Stateful.declaration, declaration]
  refine .attempt hc (identifier_follows he s) he (identifier_quiet env s) ?_
  intro q hle st v he hc _
  cases v with
  | none => exact .pure rfl (congrArg Counters.defined hc)
  | some x =>
    obtain ⟨name, pos⟩ := x
    dsimp only
    rw [he, show st.scopes = env.scopes from congrArg Env.scopes he]
    split
    · exact .recover (isReference_redeclaration env name pos) rfl (congrArg Counters.defined hc)
    · cases q.symbol? "(" with
      | some x =>
        obtain ⟨r, reaches, shorter⟩ := x
        exact .reached reaches (definition_performs env c he hc type name pos r)
      | none =>
        have bound : (st.bindLocal name type pos).env =
            { env with scopes := env.scopes.declare (env.localSymbol c name type pos) } := by
          subst he hc
          rfl
        have counted : (st.bindLocal name type pos).counters = c.withLocal := by
          rw [State.counters_bindLocal, hc]
        unfold State.bindLocal at bound counted ⊢
        rw [he, hc] at bound counted ⊢
        refine .act _ (by simp [Event.isReference]) rfl ?_
        refine .attempt counted (expect_follows bound _ _) bound (expect_quiet _ _ _ _) ?_
        intro _ _ st _ _ hc _
        exact .pure rfl (congrArg Counters.defined hc)
termination_by 8 * s.left + 1
decreasing_by all_goals omega

theorem definition_performs (env : Env) (c : Counters) {st : State} (he : st.env = env)
    (hc : st.counters = c) (ret : ValueType) (name : String) (pos : Position) (s : Tokens) :
    (Stateful.definition st ret name pos s).Performs source st (definition env c ret name pos s) id
      fun _ => () := by
  rw [Stateful.definition, definition]
  refine .attempt hc (parameter_follows he s) he (parameter_quiet env s) ?_
  intro q hle st v he hc _
  cases v with
  | none => exact .pure rfl (congrArg Counters.defined hc)
  | some p =>
    exact .function he hc rfl rfl (body_performs _ _ (State.env_beginFunction he hc rfl rfl)
      (State.counters_beginFunction he hc rfl rfl) q) _
termination_by 8 * s.left + 6
decreasing_by all_goals omega

theorem body_performs (env : Env) (c : Counters) {st : State} (he : st.env = env)
    (hc : st.counters = c) (s : Tokens) :
    (Stateful.body st s).Performs source st (body env c s) env.handOn Outcome.complete := by
  rw [Stateful.body, body]
  cases s.symbol? "\x7b" with
  | some x =>
    obtain ⟨q, reaches, shorter⟩ := x
    exact .reached reaches (block_performs env c he hc q)
  | none =>
    refine .attempt hc (expect_follows he _ s) he (expect_quiet env env _ s) ?_
    intro _ _ st v _ hc _
    exact .pure rfl (congrArg Counters.defined hc)
termination_by 8 * s.left + 5
decreasing_by all_goals omega

theorem conditional_performs (env : Env) (c : Counters) {st : State} (he : st.env = env)
    (hc : st.counters = c) (s : Tokens) :
    (Stateful.conditional st s).Performs source st (conditional env c s) env.handOn
      Outcome.complete := by
  rw [Stateful.conditional, conditional]
  refine .attempt hc (condition_follows he s) he (condition_quiet env s) ?_
  intro q hle st v he hc _
  cases v with
  | none => exact .pure rfl (congrArg Counters.defined hc)
  | some _ =>
    dsimp only
    rw [show st.draft.nextLabel = c.labels from congrArg Counters.labels hc]
    have counted : (st.act [.code .reserveLabel, .emit (.jumpUnless c.labels)]).counters =
        c.withLabel := by
      subst hc
      simp [State.counters, State.act, State.record, Draft.apply, Counters.withLabel]
    have seen : (st.act [.code .reserveLabel, .emit (.jumpUnless c.labels)]).env = env := he
    refine .act _ (by simp [Event.isReference, Event.emit, Instruction.isReference]) rfl
      (.bind seen counted (statement_performs env _ seen counted q) (statement_traced env _ q) ?_)
    intro hle' st he hc
    cases (statement env c.withLabel q).1.rest.keyword? "else" with
    | none =>
      exact .act _ (by simp [Event.isReference, Event.emit, Instruction.isReference]) rfl
        (.pure rfl (congrArg Counters.defined hc))
    | some x =>
      obtain ⟨p, reaches, shorter⟩ := x
      dsimp only
      rw [show st.draft.nextLabel = _ from congrArg Counters.labels hc]
      have counted : (st.act [.code .reserveLabel,
          .emit (.jump (statement env c.withLabel q).1.value.counters.labels),
          .emit (.mark c.labels)]).counters =
          (statement env c.withLabel q).1.value.counters.withLabel := by
        rw [show (statement env c.withLabel q).1.value.counters = st.counters from hc.symm]
        simp [State.counters, State.act, State.record, Draft.apply, Counters.withLabel]
      have seen : (st.act [.code .reserveLabel,
          .emit (.jump (statement env c.withLabel q).1.value.counters.labels),
          .emit (.mark c.labels)]).env = env := he
      refine .act _ (by simp [Event.isReference, Event.emit, Instruction.isReference]) rfl
        (.reached reaches (.bind seen counted (statement_performs env _ seen counted p)
          (statement_traced env _ p) ?_))
      intro _ st he hc
      exact .act _ (by simp [Event.isReference, Event.emit, Instruction.isReference]) rfl
        (.pure rfl (congrArg Counters.defined hc))
termination_by 8 * s.left + 2
decreasing_by all_goals omega

theorem loop_performs (env : Env) (c : Counters) {st : State} (he : st.env = env)
    (hc : st.counters = c) (s : Tokens) :
    (Stateful.loop st s).Performs source st (loop env c s) env.handOn Outcome.complete := by
  have next : st.draft.nextLabel = c.labels := congrArg Counters.labels hc
  have exit : (st.act [.code .reserveLabel]).draft.nextLabel = c.labels + 1 := by
    rw [← next]
    exact st.draft.nextLabel_reserveLabel
  rw [Stateful.loop, loop_eq, next, exit]
  refine .looped ?_
  have seen : (((st.act [.code .reserveLabel, .code .reserveLabel]).enterLoop
      ⟨c.labels, c.labels + 1⟩).emit [.mark c.labels]).env = env.inLoop c := by
    subst he
    rfl
  have counted : (((st.act [.code .reserveLabel, .code .reserveLabel]).enterLoop
      ⟨c.labels, c.labels + 1⟩).emit [.mark c.labels]).counters = c.withLabel.withLabel := by
    subst hc
    simp [State.counters, State.emit, State.act, State.record, State.enterLoop, Draft.apply,
      Counters.withLabel, Event.emits]
  have guard : Move.Follows _ source _ _ _ _ := condition_follows seen s
  rw [condition_inLoop] at guard
  refine .attempt counted guard seen (condition_inLoop (c := c) s ▸ (condition_quiet _ s)) ?_
  intro q hle st v he hc _
  cases v with
  | none => exact .pure rfl (congrArg Counters.defined hc)
  | some _ =>
    have seen : (st.emit [.jumpUnless (c.labels + 1)]).env = env.inLoop c := he
    have counted : (st.emit [.jumpUnless (c.labels + 1)]).counters = c.withLabel.withLabel := by
      rw [← hc]
      simp [State.counters, State.emit, State.act, State.record, Event.emits]
    refine .act _ (by simp [Event.isReference, Event.emit, Instruction.isReference]) rfl
      (.bind seen counted (statement_performs _ _ seen counted q) (statement_traced _ _ q) ?_)
    intro _ st he hc
    exact .act _ (by simp [Event.isReference, Event.emit, Instruction.isReference]) rfl
      (.pure rfl (congrArg Counters.defined hc))
termination_by 8 * s.left + 2
decreasing_by all_goals omega

end

theorem program_performs (env : Env) (c : Counters) {st : State} (he : st.env = env)
    (hc : st.counters = c) (s : Tokens) :
    (Stateful.program st s).Performs source st (program env c s) (Declared.mk env.scopes)
      fun _ => () := by
  rw [Stateful.program, program]
  split
  · exact .pure rfl (congrArg Counters.defined hc)
  · rename_i h
    have shorter := (statement env c s).2 (by simpa using h)
    refine .bindShorter he hc (statement_performs env c he hc s) (statement_traced env c s) ?_
    intro _ st he hc
    exact program_performs env _ he hc _
termination_by s.left
decreasing_by all_goals omega

theorem parse_performs (structural : Severity) (scopes : Scopes) (s : Tokens) :
    (Stateful.parse structural scopes s).Performs source
      (State.act { structural, scopes }
        (ValueType.primitives.map fun (name, type) => .scope (.bindBase name type)))
      (program { scopes := scopes.withPrimitives, structural } {} s)
      (Declared.mk scopes.withPrimitives) fun _ => () :=
  program_performs _ _ rfl rfl s

end Statements

/-- The log of a whole run has the events of the pass, and every reference in it is justified. -/
theorem parse_log (structural : Severity) (scopes : Scopes) (s : Tokens) :
    (Stateful.parse structural scopes s).rest = (Pass.run structural scopes s).rest ∧
      (Stateful.parse structural scopes s).state.log.map Entry.event =
        (Pass.run structural scopes s).events ∧
      (Stateful.parse structural scopes s).state.draft =
        Draft.replay {} (Pass.run structural scopes s).events ∧
      Noted scopes 0 (Stateful.parse structural scopes s).state.log ∧
      ∀ e ∈ (Stateful.parse structural scopes s).state.log, e.Cites s.front := by
  obtain ⟨-, rest, entries, state, events, noted, cited⟩ :=
    parse_performs structural scopes s (List.Subset.refl s.front)
  have bound : Noted scopes 0 ((ValueType.primitives.map fun (name, type) =>
      Event.scope (.bindBase name type)).map fun e => { event := e }) := by
    refine .act fun e he => ?_
    obtain ⟨x, -, rfl⟩ := List.mem_map.1 he
    rfl
  rw [state]
  refine ⟨rest, ?_, ?_, bound.append noted, Entry.cites_append (Entry.cites_act _ _) cited⟩
  · change (List.map _ _ ++ entries).map Entry.event = _
    rw [List.map_append, State.events_act, events]
    rfl
  · change (Draft.replay {} _).replay (entries.map Entry.event) = _
    rw [State.events_act, events, ← Draft.replay_append]
    rfl

/-- Every name in the log stands in the list that was read. -/
theorem parse_cites (structural : Severity) (scopes : Scopes) (ts : List Token) :
    ∀ e ∈ (Stateful.parse structural scopes (.ofList ts)).state.log, e.Cites ts := by
  intro e mem x cause
  obtain ⟨-, -, -, -, cited⟩ := parse_log structural scopes (.ofList ts)
  exact (Tokens.front_ofList_sublist ts).subset (cited e mem x cause)

end OnePass
