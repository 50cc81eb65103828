import OnePass.Production.Statement

/-!
# The state of the compiler

The productions are told what is around them and give out events, so what is open at some moment is
nowhere to be seen. Here is the other telling of them: one state is handed from production to
production and changed as it goes. Scopes are opened and closed in it, the targets of loops and the
return types of functions are pushed and popped, labels and slots are taken from the draft, and
everything that is done goes into a log.

The log says more than the events. An instruction that refers to a variable or to a function is
entered with the name in the source that it is emitted for.

Only `State.record` changes scopes, draft, reports and log, and it touches nothing else. The
productions on this state are in the modules beside this one, each with the proof that it does
exactly what the production of the same name gives out.
-/

namespace OnePass

/-- A name as it stands in the source. -/
structure Mention where
  name : String
  pos : Position

/-- Something that was done, and the name on whose account, if there is one. -/
structure Entry where
  event : Event
  cause : Option Mention := none

/-- The state of the compiler between two tokens. -/
structure State where
  /-- The severity of a missing bracket or terminator. -/
  structural : Severity
  scopes : Scopes
  /-- The targets of `continue` and `break` in the innermost function, innermost loop first. -/
  loops : List LoopTargets := []
  /-- The return types of the functions around, innermost first. -/
  returns : List ValueType := []
  /-- The names of all functions defined so far. -/
  defined : List String := []
  draft : Draft := {}
  reports : List Diagnostic := []
  log : List Entry := []

namespace State

def env (st : State) : Env := ⟨st.scopes, st.loops.head?, st.returns, st.structural⟩

def counters (st : State) : Counters := ⟨st.draft.nextLabel, st.draft.nextSlot, st.defined⟩

/-- Does what some entries say, and logs them. -/
def record (st : State) (entries : List Entry) : State :=
  { st with
    scopes := st.scopes.replay (entries.map Entry.event)
    draft := st.draft.replay (entries.map Entry.event)
    reports := st.reports ++ diagnostics (entries.map Entry.event)
    log := st.log ++ entries }

def act (st : State) (es : List Event) : State := st.record (es.map fun e => { event := e })

def emit (st : State) (is : List Instruction) : State := st.act (Event.emits is)

def emitFor (st : State) (x : Mention) (is : List Instruction) : State :=
  st.record (is.map fun i => ⟨.emit i, some x⟩)

/-- Gives a variable the next slot of the innermost function, and declares it. -/
def bindLocal (st : State) (name : String) (type : ValueType) (pos : Position) : State :=
  st.act [.code (.reserveLocal name type),
    .scope (.declare (st.env.localSymbol st.counters name type pos))]

def enterLoop (st : State) (targets : LoopTargets) : State :=
  { st with loops := targets :: st.loops }

def leaveLoop (st : State) : State := { st with loops := st.loops.tail }

/-- Begins a function: it is declared and opened, its return type counts from here and no loop
around it does, and in a new scope its parameter is the first local. -/
def beginFunction (st : State) (ret : ValueType) (name : String) (pos : Position)
    (p : Parameter) : State :=
  let signature : Signature := ⟨p.type, ret⟩
  let link := st.counters.linkName name
  let opened := { st with defined := name :: st.defined }.act
    [.scope (.declare ⟨name, .function link signature, some pos⟩),
      .code (.openFunction link signature), .scope .enter]
  { opened with loops := [], returns := ret :: st.returns }.bindLocal p.name p.type p.pos

/-- Ends a function, back into the loops that were around it. -/
def endFunction (st : State) (loops : List LoopTargets) : State :=
  { st with loops, returns := st.returns.tail }.act [.scope .leave, .code .closeFunction]

variable (st : State)

@[simp] theorem record_nil : st.record [] = st := by simp [record]

theorem record_append (es fs : List Entry) : (st.record es).record fs = st.record (es ++ fs) := by
  simp [record]

theorem act_append (es fs : List Event) : (st.act es).act fs = st.act (es ++ fs) := by
  simp only [act, record_append, List.map_append]

/-- What was done without a name is done like an event of the productions. -/
theorem events_act (es : List Event) :
    (es.map fun e => ({ event := e } : Entry)).map Entry.event = es := by
  simp [Function.comp_def]

theorem events_emitFor (x : Mention) (is : List Instruction) :
    (is.map fun i => (⟨.emit i, some x⟩ : Entry)).map Entry.event = Event.emits is := by
  simp [Event.emits, Function.comp_def]

end State

/-- The run of a production from a state: the state and the value it ends with, and where. -/
structure Move (s : Tokens) (α : Type) where
  state : State
  value : α
  rest : Tokens
  reaches : s.Reaches rest

namespace Move

variable {s r : Tokens} {α β : Type}

def pure (st : State) (a : α) : Move s α := ⟨st, a, s, .refl s⟩

/-- Goes on with `f` where the first run stopped, in the state it left. -/
def bind (x : Move s α) (f : (r : Tokens) → r.left ≤ s.left → State → α → Move r β) : Move s β :=
  let y := f x.rest x.reaches.left_le x.state x.value
  ⟨y.state, y.value, y.rest, x.reaches.trans y.reaches⟩

/-- Goes on with `f`, given that fewer tokens are left than before. -/
def bindShorter (x : Move s α) (shorter : x.rest.left < s.left)
    (f : (r : Tokens) → r.left < s.left → State → α → Move r β) : Move s β :=
  let y := f x.rest shorter x.state x.value
  ⟨y.state, y.value, y.rest, x.reaches.trans y.reaches⟩

/-- Runs on a stream that was reached from `s`. -/
def reached (h : s.Reaches r) (x : Move r α) : Move s α :=
  { x with reaches := h.trans x.reaches }

/-- Does what a run gives out, on no name's account. -/
def carryOut (st : State) (x : Run s α) : Move s α := ⟨st.act x.events, x.value, x.rest, x.reaches⟩

def ok (st : State) (a : α) : Move s (Option α) := pure st (some a)

/-- Goes on with the value, if there is one. -/
def andThen (x : Move s (Option α))
    (f : (r : Tokens) → r.left ≤ s.left → State → α → Move r (Option β)) : Move s (Option β) :=
  bind x fun r h st v =>
    match v with
    | none => pure st none
    | some a => f r h st a

def map (f : α → β) (x : Move s (Option α)) : Move s (Option β) :=
  { x with value := x.value.map f }

def fail (st : State) (severity : Severity) (pos : Position) (problem : Problem) :
    Move s (Option α) :=
  carryOut st (.fail severity pos problem)

theorem left_rest_le (x : Move s α) : x.rest.left ≤ s.left := x.reaches.left_le

end Move

end OnePass
