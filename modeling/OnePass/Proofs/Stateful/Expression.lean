import OnePass.Proofs.Lookahead
import OnePass.Proofs.Quiet
import OnePass.Proofs.Stateful.State

/-!
# Expressions on the state

The productions of expressions and simple statements, on a state that goes along. `Follows` says
that such a run does what the production gives out, entry for event, and that every reference in the
log is justified: the name on whose account it was emitted stands for that variable, in the
innermost function, or for that function. The name also stands in the source, at the position that
the log gives.
-/

namespace OnePass

namespace Stateful

/-- What a primary leaves on the stack: its type, and the name and the slot it was just loaded from,
if it was. -/
structure Operand where
  type : ValueType
  place : Option (Mention × Nat) := none

/-- The name and the slot of an operand that a step may change. -/
def Operand.stepTarget {s : Tokens} (st : State) (x : Operand) (pos : Position) :
    Move s (Option (Mention × Nat)) :=
  match x.place with
  | some place =>
    if x.type.isNumeric then .ok st place else .fail st .error pos (.notSteppable x.type)
  | none => .fail st .error pos (.notSteppable x.type)

mutual

/-- An expression. -/
def expression (st : State) (s : Tokens) : Move s (Option ValueType) :=
  (additive st s).andThen fun r _ st lhs =>
    match r.operator? Comparison.ofSymbol? with
    | none => .ok st lhs
    | some (op, ⟨q, reaches, _⟩) =>
      Move.reached reaches <| (additive st q).andThen fun _ _ st rhs =>
        if lhs = rhs then .ok (st.emit [.compare op]) .bool
        else .fail st .error r.current.pos (.incomparable lhs rhs)
termination_by 16 * s.left + 9

/-- A sum. -/
def additive (st : State) (s : Tokens) : Move s (Option ValueType) :=
  match s.sign? with
  | none => (multiplicative st s).andThen fun r _ st type => additiveRest st type r
  | some (negative, ⟨q, reaches, _⟩) =>
    Move.reached reaches <| (multiplicative st q).andThen fun r _ st type =>
      additiveRest (st.emit (if negative then [.unary .neg] else [])) type r
termination_by 16 * s.left + 8

/-- The terms of a sum after its first ones. -/
def additiveRest (st : State) (lhs : ValueType) (s : Tokens) : Move s (Option ValueType) :=
  match s.operator? Additive.ofSymbol? with
  | none => .ok st lhs
  | some (op, ⟨q, reaches, _⟩) =>
    Move.reached reaches <| (multiplicative st q).andThen fun _ _ st rhs =>
      (Move.carryOut st (follow s.current.pos (op.judge lhs rhs))).andThen fun r _ st (type, i) =>
        additiveRest (st.emit [i]) type r
termination_by 16 * s.left + 7

def multiplicative (st : State) (s : Tokens) : Move s (Option ValueType) :=
  (simple st s).andThen fun r _ st type => multiplicativeRest st type r
termination_by 16 * s.left + 6

/-- The factors of a product after its first ones. -/
def multiplicativeRest (st : State) (lhs : ValueType) (s : Tokens) : Move s (Option ValueType) :=
  match s.operator? Multiplicative.ofSymbol? with
  | none => .ok st lhs
  | some (op, ⟨q, reaches, _⟩) =>
    Move.reached reaches <| (simple st q).andThen fun _ _ st rhs =>
      (Move.carryOut st (follow s.current.pos (op.judge lhs rhs))).andThen fun r _ st (type, i) =>
        multiplicativeRest (st.emit [i]) type r
termination_by 16 * s.left + 5

/-- A factor. A step is on account of the name that was just loaded. -/
def simple (st : State) (s : Tokens) : Move s (Option ValueType) :=
  match s.operator? Additive.ofStep? with
  | some (op, ⟨q, reaches, _⟩) =>
    Move.reached reaches <| (primary st q).andThen fun _ _ st x =>
      (x.stepTarget st s.current.pos).andThen fun _ _ st (name, slot) =>
        .ok (st.emitFor name (op.step x.type slot)) x.type
  | none =>
    match s.operator? Unary.ofSymbol? with
    | some (op, ⟨q, reaches, _⟩) =>
      Move.reached reaches <|
        if op = .neg then (signed st true q).map Operand.type
        else (primary st q).andThen fun _ _ st x => .ok (st.emit [.unary op]) x.type
    | none =>
      (primary st s).andThen fun r _ st x =>
        match r.operator? Additive.ofStep? with
        | none => .ok st x.type
        | some (op, ⟨_, reaches, _⟩) =>
          Move.reached reaches <|
            (x.stepTarget st r.current.pos).andThen fun _ _ st (name, slot) =>
              .ok (st.emitFor name (.load slot :: op.step x.type slot ++ [.pop])) x.type
termination_by 16 * s.left + 4

/-- What follows a sign. -/
def signed (st : State) (negative : Bool) (s : Tokens) : Move s (Option Operand) :=
  match s.uncons?.bind fun (t, r) => (t.kind.signedLiteral? negative).map (·, r) with
  | some ((type, i), r) => Move.reached r.reaches (.ok (st.emit [i]) ⟨type, none⟩)
  | none =>
    (primary st s).andThen fun _ _ st x =>
      if negative then .ok (st.emit [.unary .neg]) ⟨x.type, none⟩ else .ok st x
termination_by 16 * s.left + 3

/-- An operand. -/
def primary (st : State) (s : Tokens) : Move s (Option Operand) :=
  match s.uncons? with
  | none => .carryOut st (.unexpected .expression)
  | some (t, ⟨q, reaches, _⟩) =>
    match t.kind.primaryLead with
    | .parenthesis =>
      Move.reached reaches <| (expression st q).andThen fun r _ st type =>
        (Move.carryOut st (expect st.env ")" r)).andThen fun _ _ st _ => .ok st ⟨type, none⟩
    | .pointer symbol =>
      Move.reached reaches <| (Move.carryOut st (identifier q)).andThen fun _ _ st (name, _) =>
        .fail st .error t.pos (.pointer symbol name)
    | .sign negative => Move.reached reaches <| signed st negative q
    | .name name => Move.reached reaches <| named st name t.pos q
    | .other =>
      match t.kind.literal? with
      | some (type, i) => Move.reached reaches (.ok (st.emit [i]) ⟨type, none⟩)
      | none => .carryOut st (.unexpected .expression)
termination_by 16 * s.left + 2

/-- What follows a name in an expression. -/
def named (st : State) (name : String) (pos : Position) (s : Tokens) : Move s (Option Operand) :=
  match (st.scopes.find? name).map Symbol.meaning with
  | none => .fail st .error pos (.undeclared name)
  | some (.type _) => .fail st .error pos (.typeAsValue name)
  | some (.function link signature) =>
    match s.symbol? "(" with
    | none => .fail st .error pos (.functionAsValue name)
    | some ⟨q, reaches, _⟩ =>
      Move.reached reaches <|
        if q.current.kind.startsExpression then
          (expression st q).andThen fun _ _ st given =>
            (Move.carryOut st
              (follow q.current.pos (ValueType.allow .argument signature.param given))).andThen
              fun r _ st _ => (Move.carryOut st (expect st.env ")" r)).andThen fun _ _ st _ =>
                .ok (st.emitFor ⟨name, pos⟩ [.call link]) ⟨signature.ret, none⟩
        else .fail st .error q.current.pos (.missingArgument name signature.param)
  | some (.localVar type slot frame) =>
    if frame ≠ st.returns.length then .fail st .error pos (.foreignFrame name)
    else
      match s.operator? Assignment.ofSymbol? with
      | none => .ok (st.emitFor ⟨name, pos⟩ [.load slot]) ⟨type, some (⟨name, pos⟩, slot)⟩
      | some (op, ⟨q, reaches, _⟩) =>
        Move.reached reaches <|
          (expression (st.emitFor ⟨name, pos⟩ (op.preload slot)) q).andThen fun _ _ st value =>
            (Move.carryOut st (follow s.current.pos (op.judge type value))).andThen
              fun _ _ st (result, code) =>
                (Move.carryOut (st.emit code)
                  (follow q.current.pos (ValueType.allow .assignment type result))).andThen
                  fun _ _ st _ => .ok (st.emitFor ⟨name, pos⟩ [.store slot]) ⟨type, none⟩
termination_by 16 * s.left + 1

end

/-- What is in the parentheses behind `if` and `while`. -/
def condition (st : State) (s : Tokens) : Move s (Option Unit) :=
  (Move.carryOut st (expect st.env "(" s)).andThen fun q _ st _ =>
    (expression st q).andThen fun r _ st type =>
      if type.isCondition then .carryOut st (expect st.env ")" r)
      else .fail st .error q.current.pos (.badCondition type)

/-- What follows `break` or `continue`. -/
def jumpStatement (st : State) (keyword : String) (target : Option Nat) (pos : Position)
    (s : Tokens) : Move s (Option Unit) :=
  match target with
  | none => .fail st .error pos (.outsideLoop keyword)
  | some label =>
    (Move.carryOut st (expect st.env ";" s)).andThen fun _ _ st _ => .ok (st.emit [.jump label]) ()

/-- What follows `return`. -/
def returnStatement (st : State) (pos : Position) (s : Tokens) : Move s (Option Unit) :=
  if s.current.kind.startsExpression then
    (expression st s).andThen fun _ _ st given =>
      (Move.carryOut st (follow s.current.pos (match st.returns.head? with
        | some expected => ValueType.allow .returnValue expected given
        | none => .accepted ()))).andThen fun r _ st _ =>
          .carryOut (st.emit [.ret]) (expect st.env ";" r)
  else
    match st.returns.head? with
    | some expected => .fail st .error pos (.missingReturnValue expected)
    | none => .carryOut (st.emit [.ret]) (expect st.env ";" s)

def expressionStatement (st : State) (s : Tokens) : Move s (Option Unit) :=
  (expression st s).andThen fun r _ st _ => .carryOut (st.emit [.pop]) (expect st.env ";" r)

/-- A statement that contains no other statement. -/
def simpleStatement (st : State) (s : Tokens) : Move s (Option Unit) :=
  match s.uncons? with
  | none => .carryOut st (.unexpected .statement)
  | some (t, r) =>
    if t.isKeyword "break" then
      Move.reached r.reaches <|
        jumpStatement st "break" (st.loops.head?.map LoopTargets.exit) t.pos r.stream
    else if t.isKeyword "continue" then
      Move.reached r.reaches <|
        jumpStatement st "continue" (st.loops.head?.map LoopTargets.next) t.pos r.stream
    else if t.isKeyword "return" then
      Move.reached r.reaches <| returnStatement st t.pos r.stream
    else if t.isSymbol ";" then Move.reached r.reaches (.ok st ())
    else if (st.env.typeNamed? t.kind).isSome then
      .fail st .error s.current.pos .lateDeclaration
    else if t.kind.startsExpression then expressionStatement st s
    else .carryOut st (.unexpected .statement)

end Stateful

/-! ## References -/

/-- Whether an instruction refers to a variable or to a function. -/
def Instruction.isReference : Instruction → Bool
  | .load _ | .store _ | .call _ => true
  | _ => false

def Event.isReference : Event → Bool
  | .code (.emit i) => i.isReference
  | _ => false

/-- What an instruction refers to, in the code of a function with the given frame. -/
def Instruction.RefersTo (frame : Nat) : Instruction → Meaning → Prop
  | .load slot, .localVar _ k f | .store slot, .localVar _ k f => k = slot ∧ f = frame
  | .call link, .function l _ => l = link
  | _, _ => False

def Mention.StandsFor (x : Mention) (scopes : Scopes) (meaning : Meaning) : Prop :=
  (scopes.find? x.name).map Symbol.meaning = some meaning

/-- A reference is on account of a name that stands for what it refers to. -/
def Entry.Justified (scopes : Scopes) (frame : Nat) (entry : Entry) : Prop :=
  ∀ i, entry.event = .emit i → i.isReference → ∃ x meaning,
    entry.cause = some x ∧ x.StandsFor scopes meaning ∧ i.RefersTo frame meaning

/-- What refers to nothing needs no name. -/
theorem Entry.justified_of_plain {scopes : Scopes} {frame : Nat} {entry : Entry}
    (h : entry.event.isReference = false) : entry.Justified scopes frame := by
  intro i hi href
  rw [hi] at h
  exact absurd href (by simpa [Event.isReference, Event.emit] using h)

def Mention.StandsIn (x : Mention) (source : List Token) : Prop := ⟨.ident x.name, x.pos⟩ ∈ source

/-- If there is a name on whose account something was done, it stands in the source. -/
def Entry.Cites (source : List Token) (entry : Entry) : Prop :=
  ∀ x, entry.cause = some x → x.StandsIn source

def Run.OnlyReports {s : Tokens} {α : Type} (x : Run s α) : Prop :=
  ∀ e ∈ x.events, ∃ severity pos problem, e = .report severity pos problem

namespace Run.OnlyReports

variable {s r : Tokens} {α β : Type}

theorem ok (a : α) : (Run.ok a : Attempt s α).OnlyReports := by
  intro e he
  cases he

theorem fail (severity : Severity) (pos : Position) (problem : Problem) :
    (Run.fail severity pos problem : Attempt s α).OnlyReports := by
  intro e he
  exact ⟨severity, pos, problem, List.mem_singleton.1 he⟩

theorem reached (h : s.Reaches r) {x : Run r α} (hx : x.OnlyReports) :
    (Run.reached h x).OnlyReports := hx

theorem andThen {x : Attempt s α} {f : (r : Tokens) → r.left ≤ s.left → α → Attempt r β}
    (hx : x.OnlyReports) (hf : ∀ r h a, (f r h a).OnlyReports) : (x.andThen f).OnlyReports := by
  cases hv : x.value with
  | none =>
    intro e he
    rw [(Run.andThen_of_none hv f).1] at he
    exact hx e he
  | some a =>
    intro e he
    rw [(Run.andThen_of_some hv f).1] at he
    rcases List.mem_append.1 he with he | he
    · exact hx e he
    · exact hf _ _ _ e he

end Run.OnlyReports

theorem expect_onlyReports (env : Env) (symbol : String) (s : Tokens) :
    (expect env symbol s).OnlyReports := by
  unfold expect
  split
  · exact .reached _ (.ok ())
  · exact .fail _ _ _

theorem identifier_onlyReports (s : Tokens) : (identifier s).OnlyReports := by
  unfold identifier
  split
  · exact .reached _ (.ok _)
  · exact .fail _ _ _

theorem typeName_onlyReports (env : Env) (s : Tokens) : (typeName env s).OnlyReports := by
  unfold typeName
  split
  · exact .reached _ (.ok _)
  · exact .fail _ _ _

theorem follow_onlyReports {α : Type} {s : Tokens} (pos : Position) (j : Judgement α) :
    (follow pos j : Attempt s α).OnlyReports := by
  cases j with
  | accepted a => exact .ok a
  | widened a warning => exact Run.OnlyReports.fail (s := s) (α := α) .warning pos warning
  | refused problem => exact .fail _ _ _

theorem parameter_onlyReports (env : Env) (s : Tokens) : (parameter env s).OnlyReports := by
  refine .andThen (typeName_onlyReports env s) ?_
  intro q _ type
  refine .andThen (identifier_onlyReports q) ?_
  intro r _ _
  refine .andThen (expect_onlyReports env _ r) ?_
  intro _ _ _
  exact .ok _

/-- Where no scope changes, a production sees what it saw before. -/
theorem State.env_record (st : State) {entries : List Entry}
    (h : ∀ e ∈ entries, e.event.change? = none) : (st.record entries).env = st.env := by
  have none_changed : (entries.map Entry.event).filterMap Event.change? = [] := by
    rw [List.filterMap_eq_nil_iff]
    intro e he
    obtain ⟨entry, hmem, rfl⟩ := List.mem_map.1 he
    exact h entry hmem
  have scopes_eq : (st.record entries).scopes = st.scopes := by
    simp only [State.record, Scopes.replay, none_changed, List.foldl_nil]
  simp only [State.env, scopes_eq]
  rfl

/-! ## Runs that follow an attempt -/

/-- A run on the state does what an attempt gives out, and leaves the surroundings as they were. Its
value is related to that of the attempt. -/
structure Move.Copies {s : Tokens} {α β : Type} (y : Move s (Option β)) (source : List Token)
    (env : Env) (st : State) (x : Attempt s α) (R : β → α → Prop) : Prop where
  kept : y.state.env = env
  value : Option.Rel R y.value x.value
  rest : y.rest = x.rest
  log : ∃ entries, y.state = st.record entries ∧ entries.map Entry.event = x.events ∧
    ∀ e ∈ entries, e.Justified env.scopes env.frame ∧ e.Cites source

/-- If a run on the state may read tokens of a source only, it does what an attempt gives out. -/
def Move.Follows {s : Tokens} {α β : Type} (y : Move s (Option β)) (source : List Token)
    (env : Env) (st : State) (x : Attempt s α) (R : β → α → Prop) : Prop :=
  s.front ⊆ source → y.Copies source env st x R

namespace Move.Follows

variable {source : List Token} {env : Env} {st : State} {s r : Tokens} {α β γ δ : Type}
  {R : β → α → Prop} {T : δ → γ → Prop}

/-- A run may be examined under the assumption about its tokens. -/
theorem assuming {y : Move s (Option β)} {x : Attempt s α}
    (h : s.front ⊆ source → y.Follows source env st x R) : y.Follows source env st x R :=
  fun hs => h hs hs

theorem ok (h : st.env = env) {b : β} {a : α} (hr : R b a) :
    (Move.ok st b : Move s (Option β)).Follows source env st (Run.ok a) R :=
  fun _ => ⟨h, .some hr, rfl, [], by simp [Move.ok, Move.pure], rfl, by simp⟩

theorem reached (h : s.Reaches r) {y : Move r (Option β)} {x : Attempt r α}
    (hy : y.Follows source env st x R) :
    (Move.reached h y).Follows source env st (Run.reached h x) R := by
  intro hs
  obtain ⟨kept, value, rest, log⟩ := hy (List.Subset.trans h.subset hs)
  exact ⟨kept, value, rest, log⟩

theorem fail (h : st.env = env) (severity : Severity) (pos : Position) (problem : Problem) :
    (Move.fail st severity pos problem : Move s (Option β)).Follows source env st
      (Run.fail severity pos problem : Attempt s α) R := by
  refine fun _ => ⟨h, .none, rfl, [⟨.report severity pos problem, none⟩], rfl, rfl, ?_⟩
  intro e he
  obtain rfl := List.mem_singleton.1 he
  exact ⟨Entry.justified_of_plain rfl, nofun⟩

/-- What gives out reports only can be carried out as it is. -/
theorem carryOut {U : α → α → Prop} (h : st.env = env) {x : Attempt s α} (only : x.OnlyReports)
    (hu : ∀ a, x.value = some a → U a a) : (Move.carryOut st x).Follows source env st x U := by
  refine fun _ => ⟨?_, ?_, rfl, _, rfl, State.events_act x.events, ?_⟩
  · rw [← h]
    refine st.env_record ?_
    intro e he
    obtain ⟨event, hmem, rfl⟩ := List.mem_map.1 he
    obtain ⟨severity, pos, problem, rfl⟩ := only event hmem
    rfl
  · cases hv : x.value with
    | none => simp [Move.carryOut, hv]
    | some a => simpa [Move.carryOut, hv] using hu a hv
  · intro e he
    obtain ⟨event, hmem, rfl⟩ := List.mem_map.1 he
    obtain ⟨severity, pos, problem, rfl⟩ := only event hmem
    exact ⟨Entry.justified_of_plain rfl, nofun⟩

/-- Entries that are recorded first. -/
theorem record {entries : List Entry} {y : Move s (Option β)} {x : Attempt s α}
    (noted : ∀ e ∈ entries, e.Justified env.scopes env.frame ∧ e.Cites source)
    (hy : y.Follows source env (st.record entries) x R) :
    y.Follows source env st (Run.after (entries.map Entry.event) x) R := by
  intro hs
  obtain ⟨kept, value, rest, later, hstate, hevents, hlater⟩ := hy hs
  refine ⟨kept, value, rest, entries ++ later, ?_, ?_, ?_⟩
  · rw [hstate, State.record_append]
  · rw [List.map_append, hevents]
    rfl
  · intro e he
    rcases List.mem_append.1 he with he | he
    · exact noted e he
    · exact hlater e he

theorem andThen {y : Move s (Option β)} {x : Attempt s α}
    {f : (r : Tokens) → r.left ≤ s.left → State → β → Move r (Option δ)}
    {g : (r : Tokens) → r.left ≤ s.left → α → Attempt r γ} (hy : y.Follows source env st x R)
    (hf : ∀ r h st' b a, st'.env = env → R b a →
      (f r h st' b).Follows source env st' (g r h a) T) :
    (y.andThen f).Follows source env st (x.andThen g) T := by
  intro hs
  obtain ⟨state, value, rest, reaches⟩ := y
  obtain ⟨events, value', rest', reaches'⟩ := x
  obtain ⟨kept, hvalue, hrest, entries, hstate, hevents, noted⟩ := hy hs
  cases hrest
  cases hstate
  cases hevents
  cases hvalue with
  | none =>
    refine ⟨kept, .none, rfl, entries, rfl, ?_, noted⟩
    simp [Run.andThen]
  | @some b a hr =>
    have later := record noted (hf rest reaches.left_le (st.record entries) b a kept hr)
      (List.Subset.trans reaches.subset hs)
    exact ⟨later.kept, later.value, later.rest, later.log⟩

/-- Instructions that refer to nothing are emitted first. -/
theorem emit (is : List Instruction) {y : Move s (Option β)} {x : Attempt s α} (h : st.env = env)
    (plain : ∀ i ∈ is, i.isReference = false)
    (hy : (st.emit is).env = env → y.Follows source env (st.emit is) x R) :
    y.Follows source env st (Run.after (Event.emits is) x) R := by
  have mem {e : Entry} (he : e ∈ (Event.emits is).map fun e => ({ event := e } : Entry)) :
      ∃ i ∈ is, e = ⟨.emit i, none⟩ := by
    simp only [Event.emits, List.map_map, List.mem_map, Function.comp_apply] at he
    obtain ⟨i, hi, rfl⟩ := he
    exact ⟨i, hi, rfl⟩
  have kept : (st.emit is).env = env := by
    rw [← h]
    refine st.env_record ?_
    intro e he
    obtain ⟨i, -, rfl⟩ := mem he
    rfl
  have whole := record (fun e he => ?_) (hy kept)
  · rwa [State.events_act] at whole
  · obtain ⟨i, hi, rfl⟩ := mem he
    exact ⟨Entry.justified_of_plain (plain i hi), nofun⟩

/-- Instructions are emitted first on account of a name that stands for what they refer to. -/
theorem emitFor (is : List Instruction) {m : Mention} {meaning : Meaning}
    {y : Move s (Option β)} {x : Attempt s α} (h : st.env = env)
    (stands : m.StandsFor env.scopes meaning) (cited : m.StandsIn source)
    (refers : ∀ i ∈ is, i.isReference → i.RefersTo env.frame meaning)
    (hy : (st.emitFor m is).env = env → y.Follows source env (st.emitFor m is) x R) :
    y.Follows source env st (Run.after (Event.emits is) x) R := by
  have kept : (st.emitFor m is).env = env := by
    rw [← h]
    refine st.env_record ?_
    intro e he
    obtain ⟨i, -, rfl⟩ := List.mem_map.1 he
    rfl
  have whole := record (fun e he => ?_) (hy kept)
  · rwa [State.events_emitFor] at whole
  · obtain ⟨i, hi, rfl⟩ := List.mem_map.1 he
    refine ⟨?_, ?_⟩
    · intro j hj href
      cases hj
      exact ⟨m, meaning, rfl, stands, refers i hi href⟩
    · rintro x ⟨⟩
      exact cited

theorem map {U : δ → γ → Prop} {y : Move s (Option β)} {x : Attempt s α} {f : β → δ} {g : α → γ}
    (hy : y.Follows source env st x R) (hr : ∀ b a, R b a → U (f b) (g a)) :
    (y.map f).Follows source env st (x.map g) U := by
  intro hs
  obtain ⟨state, value, rest, reaches⟩ := y
  obtain ⟨events, value', rest', reaches'⟩ := x
  obtain ⟨kept, related, same, log⟩ := hy hs
  refine ⟨kept, ?_, same, log⟩
  cases related with
  | none => exact .none
  | some h => exact .some (hr _ _ h)

end Move.Follows

/-! ## Small productions -/

section Small

variable {source : List Token} {env : Env} {st : State} (h : st.env = env) {s : Tokens}
include h

theorem expect_follows (symbol : String) (s : Tokens) :
    (Move.carryOut st (expect st.env symbol s)).Follows source env st (expect env symbol s) Eq := by
  rw [h]
  exact .carryOut h (expect_onlyReports env symbol s) fun _ _ => rfl

theorem identifier_follows (s : Tokens) :
    (Move.carryOut st (identifier s)).Follows source env st (identifier s) Eq :=
  .carryOut h (identifier_onlyReports s) fun _ _ => rfl

theorem parameter_follows (s : Tokens) :
    (Move.carryOut st (parameter st.env s)).Follows source env st (parameter env s) Eq := by
  rw [h]
  exact .carryOut h (parameter_onlyReports env s) fun _ _ => rfl

theorem follow_follows {α : Type} (pos : Position) (j : Judgement α) :
    (Move.carryOut st (follow pos j : Attempt s α)).Follows source env st (follow pos j)
      fun b a => b = a ∧ j.value? = some b := by
  refine .carryOut h (follow_onlyReports pos j) ?_
  intro a ha
  refine ⟨rfl, ?_⟩
  cases j with
  | accepted b => exact ha
  | widened b warning => exact ha
  | refused problem => cases ha

end Small

/-! ## Expressions -/

theorem Instruction.isReference_of_isInert {i : Instruction} (h : i.isInert) :
    i.isReference = false := by
  cases i <;> first | rfl | cases h

theorem Instruction.isReference_of_isOperator {i : Instruction} (h : i.isOperator) :
    i.isReference = false :=
  isReference_of_isInert (isInert_of_isOperator h)

/-- The references in the code of a step are to the variable. -/
theorem Additive.refersTo_step (op : Additive) (type : ValueType) (slot frame : Nat) :
    ∀ i ∈ op.step type slot, i.isReference → i.RefersTo frame (.localVar type slot frame) := by
  intro i hi href
  simp only [Additive.step, List.mem_cons, List.not_mem_nil, or_false] at hi
  rcases hi with rfl | rfl | rfl
  · split at href
    · cases href
    · cases href
  · cases href
  · exact ⟨rfl, rfl⟩

theorem Assignment.refersTo_preload (op : Assignment) (type : ValueType) (slot frame : Nat) :
    ∀ i ∈ op.preload slot, i.isReference → i.RefersTo frame (.localVar type slot frame) := by
  intro i hi _
  cases op with
  | plain => cases hi
  | additive op =>
    obtain rfl := List.mem_singleton.1 hi
    exact ⟨rfl, rfl⟩
  | multiplicative op =>
    obtain rfl := List.mem_singleton.1 hi
    exact ⟨rfl, rfl⟩

/-- An operand on the state is that of the productions; the name it was loaded from stands for its
place. -/
structure Stateful.Operand.Fits (source : List Token) (env : Env) (x : Stateful.Operand)
    (y : OnePass.Operand) : Prop where
  type : x.type = y.type
  place : x.place.map Prod.snd = y.place
  stands : ∀ m slot, x.place = some (m, slot) →
    m.StandsFor env.scopes (.localVar x.type slot env.frame) ∧ m.StandsIn source

/-- An operand that was not just loaded. -/
theorem Stateful.Operand.Fits.computed (source : List Token) (env : Env) (type : ValueType) :
    Stateful.Operand.Fits source env ⟨type, none⟩ ⟨type, none⟩ :=
  ⟨rfl, rfl, fun _ _ h => by cases h⟩

section Expressions

variable {source : List Token}

theorem stepTarget_follows {env : Env} {st : State} (h : st.env = env) {s : Tokens}
    {x : Stateful.Operand} {y : Operand} (fits : x.Fits source env y) (pos : Position) :
    (x.stepTarget st pos : Move s (Option (Mention × Nat))).Follows source env st (y.stepTarget pos)
      fun b slot => b.2 = slot ∧ b.1.StandsFor env.scopes (.localVar x.type slot env.frame) ∧
        b.1.StandsIn source := by
  obtain ⟨type, place⟩ := x
  obtain ⟨type', place'⟩ := y
  obtain ⟨rfl, rfl, stands⟩ := fits
  unfold Stateful.Operand.stepTarget Operand.stepTarget
  cases place with
  | none => exact .fail h _ _ _
  | some place =>
    dsimp only [Option.map_some]
    split
    · exact .ok h ⟨rfl, stands _ _ rfl⟩
    · exact .fail h _ _ _

mutual

theorem expression_follows (env : Env) {st : State} (h : st.env = env) (s : Tokens) :
    (Stateful.expression st s).Follows source env st (expression env s) Eq := by
  rw [Stateful.expression, expression]
  refine .andThen (additive_follows env h s) ?_
  rintro r _ st lhs _ h rfl
  cases r.operator? Comparison.ofSymbol? with
  | none => exact .ok h rfl
  | some x =>
    obtain ⟨op, q, reaches, shorter⟩ := x
    refine .reached _ (.andThen (additive_follows env h q) ?_)
    rintro _ _ st rhs _ h rfl
    split
    · exact .emit [.compare op] h (by simp [Instruction.isReference]) fun h => .ok h rfl
    · exact .fail h _ _ _
termination_by 16 * s.left + 9
decreasing_by all_goals omega

theorem additive_follows (env : Env) {st : State} (h : st.env = env) (s : Tokens) :
    (Stateful.additive st s).Follows source env st (additive env s) Eq := by
  rw [Stateful.additive, additive]
  cases s.sign? with
  | none =>
    refine .andThen (multiplicative_follows env h s) ?_
    rintro r _ st type _ h rfl
    exact additiveRest_follows env h type r
  | some x =>
    obtain ⟨negative, q, reaches, shorter⟩ := x
    refine .reached _ (.andThen (multiplicative_follows env h q) ?_)
    rintro r _ st type _ h rfl
    cases negative with
    | false => exact .emit [] h (by simp) fun h => additiveRest_follows env h type r
    | true =>
      exact .emit [.unary .neg] h (by simp [Instruction.isReference]) fun h =>
        additiveRest_follows env h type r
termination_by 16 * s.left + 8
decreasing_by all_goals omega

theorem additiveRest_follows (env : Env) {st : State} (h : st.env = env) (lhs : ValueType)
    (s : Tokens) :
    (Stateful.additiveRest st lhs s).Follows source env st (additiveRest env lhs s) Eq := by
  rw [Stateful.additiveRest, additiveRest]
  cases s.operator? Additive.ofSymbol? with
  | none => exact .ok h rfl
  | some x =>
    obtain ⟨op, q, reaches, shorter⟩ := x
    refine .reached _ (.andThen (multiplicative_follows env h q) ?_)
    rintro p hp st rhs _ h rfl
    refine .andThen (follow_follows h _ _) ?_
    rintro r hr st ⟨type, i⟩ _ h ⟨rfl, hi⟩
    have plain := Instruction.isReference_of_isOperator (op.isOperator_judge hi)
    exact .emit [i] h (by simpa using plain) fun h => additiveRest_follows env h type r
termination_by 16 * s.left + 7
decreasing_by all_goals omega

theorem multiplicative_follows (env : Env) {st : State} (h : st.env = env) (s : Tokens) :
    (Stateful.multiplicative st s).Follows source env st (multiplicative env s) Eq := by
  rw [Stateful.multiplicative, multiplicative]
  refine .andThen (simple_follows env h s) ?_
  rintro r _ st type _ h rfl
  exact multiplicativeRest_follows env h type r
termination_by 16 * s.left + 6
decreasing_by all_goals omega

theorem multiplicativeRest_follows (env : Env) {st : State} (h : st.env = env) (lhs : ValueType)
    (s : Tokens) :
    (Stateful.multiplicativeRest st lhs s).Follows source env st
      (multiplicativeRest env lhs s) Eq := by
  rw [Stateful.multiplicativeRest, multiplicativeRest]
  cases s.operator? Multiplicative.ofSymbol? with
  | none => exact .ok h rfl
  | some x =>
    obtain ⟨op, q, reaches, shorter⟩ := x
    refine .reached _ (.andThen (simple_follows env h q) ?_)
    rintro p hp st rhs _ h rfl
    refine .andThen (follow_follows h _ _) ?_
    rintro r hr st ⟨type, i⟩ _ h ⟨rfl, hi⟩
    have plain := Instruction.isReference_of_isOperator (op.isOperator_judge hi)
    exact .emit [i] h (by simpa using plain) fun h => multiplicativeRest_follows env h type r
termination_by 16 * s.left + 5
decreasing_by all_goals omega

theorem simple_follows (env : Env) {st : State} (h : st.env = env) (s : Tokens) :
    (Stateful.simple st s).Follows source env st (simple env s) Eq := by
  rw [Stateful.simple, simple]
  cases s.operator? Additive.ofStep? with
  | some x =>
    obtain ⟨op, q, reaches, shorter⟩ := x
    refine .reached _ (.andThen (primary_follows env h q) ?_)
    rintro _ _ st x y h fits
    refine .andThen (stepTarget_follows h fits _) ?_
    rintro _ _ st ⟨name, slot⟩ _ h ⟨rfl, stands, cited⟩
    rw [← fits.type]
    exact .emitFor _ h stands cited (op.refersTo_step _ _ _) fun h => .ok h rfl
  | none =>
    cases s.operator? Unary.ofSymbol? with
    | some x =>
      obtain ⟨op, q, reaches, shorter⟩ := x
      refine .reached _ ?_
      by_cases hop : op = .neg
      · simp only [hop, if_true]
        exact .map (signed_follows env h true q) fun x y fits => fits.type
      · simp only [hop, if_false]
        refine .andThen (primary_follows env h q) ?_
        rintro _ _ st x y h fits
        exact .emit [.unary op] h (by simp [Instruction.isReference]) fun h => .ok h fits.type
    | none =>
      refine .andThen (primary_follows env h s) ?_
      rintro r _ st x y h fits
      cases r.operator? Additive.ofStep? with
      | none => exact .ok h fits.type
      | some z =>
        obtain ⟨op, q, reaches, shorter⟩ := z
        refine .reached _ (.andThen (stepTarget_follows h fits _) ?_)
        rintro _ _ st ⟨name, slot⟩ _ h ⟨rfl, stands, cited⟩
        rw [← fits.type]
        refine .emitFor _ h stands cited ?_ fun h => .ok h rfl
        intro i hi href
        simp only [List.cons_append, List.mem_cons, List.mem_append, List.not_mem_nil,
          or_false] at hi
        rcases hi with rfl | hi | rfl
        · exact ⟨rfl, rfl⟩
        · exact op.refersTo_step _ _ _ i hi href
        · cases href
termination_by 16 * s.left + 4
decreasing_by all_goals omega

theorem signed_follows (env : Env) {st : State} (h : st.env = env) (negative : Bool) (s : Tokens) :
    (Stateful.signed st negative s).Follows source env st (signed env negative s)
      (Stateful.Operand.Fits source env) := by
  rw [Stateful.signed, signed]
  cases hl : s.uncons?.bind fun (t, r) => (t.kind.signedLiteral? negative).map (·, r) with
  | some x =>
    obtain ⟨⟨type, i⟩, r⟩ := x
    obtain ⟨⟨t, r'⟩, _, ht⟩ := Option.bind_eq_some_iff.1 hl
    obtain ⟨x, hx, hxr⟩ := Option.map_eq_some_iff.1 ht
    cases hxr
    have plain := Instruction.isReference_of_isInert (Token.Kind.isInert_signedLiteral hx)
    exact .reached _ (.emit [i] h (by simpa using plain) fun h => .ok h (.computed source env type))
  | none =>
    refine .andThen (primary_follows env h s) ?_
    rintro _ _ st x y h fits
    split
    · rw [← fits.type]
      exact .emit [.unary .neg] h (by simp [Instruction.isReference]) fun h =>
        .ok h (.computed source env x.type)
    · exact .ok h fits
termination_by 16 * s.left + 3
decreasing_by all_goals omega

theorem primary_follows (env : Env) {st : State} (h : st.env = env) (s : Tokens) :
    (Stateful.primary st s).Follows source env st (primary env s)
      (Stateful.Operand.Fits source env) := by
  refine .assuming fun hs => ?_
  rw [Stateful.primary, primary]
  cases next : s.uncons? with
  | none => exact .fail h _ _ _
  | some x =>
    obtain ⟨t, q, reaches, shorter⟩ := x
    dsimp only
    cases lead : t.kind.primaryLead with
    | parenthesis =>
      refine .reached _ (.andThen (expression_follows env h q) ?_)
      rintro r _ st type _ h rfl
      refine .andThen (expect_follows h _ _) ?_
      rintro _ _ st _ _ h _
      exact .ok h (.computed source env type)
    | pointer symbol =>
      refine .reached _ (.andThen (identifier_follows h q) ?_)
      rintro _ _ st x _ h rfl
      exact .fail h _ _ _
    | sign negative => exact .reached _ (signed_follows env h negative q)
    | name name =>
      have cited : (⟨name, t.pos⟩ : Mention).StandsIn source := by
        have read := hs (Tokens.mem_of_uncons? next)
        rwa [Mention.StandsIn, ← Token.Kind.eq_of_name lead]
      exact .reached _ (named_follows env h cited q)
    | other =>
      dsimp only
      cases hl : t.kind.literal? with
      | none => exact .fail h _ _ _
      | some x =>
        have plain := Instruction.isReference_of_isInert (Token.Kind.isInert_literal hl)
        exact .reached _ (.emit [x.2] h (by simpa using plain) fun h =>
          .ok h (.computed source env x.1))
termination_by 16 * s.left + 2
decreasing_by all_goals omega

theorem named_follows (env : Env) {st : State} (h : st.env = env) {name : String}
    {pos : Position} (cited : (⟨name, pos⟩ : Mention).StandsIn source) (s : Tokens) :
    (Stateful.named st name pos s).Follows source env st (named env name pos s)
      (Stateful.Operand.Fits source env) := by
  have hscopes : st.scopes = env.scopes := congrArg Env.scopes h
  have hframe : st.returns.length = env.frame := congrArg Env.frame h
  rw [Stateful.named, named, hscopes, hframe]
  cases hm : (env.scopes.find? name).map Symbol.meaning with
  | none => exact .fail h _ _ _
  | some meaning =>
    have stands : (⟨name, pos⟩ : Mention).StandsFor env.scopes meaning := hm
    cases meaning with
    | type type => exact .fail h _ _ _
    | function link signature =>
      dsimp only
      cases s.symbol? "(" with
      | none => exact .fail h _ _ _
      | some x =>
        obtain ⟨q, reaches, shorter⟩ := x
        refine .reached _ ?_
        split
        · refine .andThen (expression_follows env h q) ?_
          rintro _ _ st given _ h rfl
          refine .andThen (follow_follows h _ _) ?_
          rintro r _ st _ _ h _
          refine .andThen (expect_follows h _ _) ?_
          rintro _ _ st _ _ h _
          refine .emitFor [.call link] h stands cited ?_ fun h =>
            .ok h (.computed source env signature.ret)
          intro i hi _
          obtain rfl := List.mem_singleton.1 hi
          rfl
        · exact .fail h _ _ _
    | localVar type slot frame =>
      dsimp only
      split
      · exact .fail h _ _ _
      · rename_i hf
        obtain rfl := Decidable.of_not_not hf
        cases s.operator? Assignment.ofSymbol? with
        | none =>
          refine .emitFor [.load slot] h stands cited ?_ fun h => .ok h ⟨rfl, rfl, ?_⟩
          · intro i hi _
            obtain rfl := List.mem_singleton.1 hi
            exact ⟨rfl, rfl⟩
          · intro m k hk
            cases hk
            exact ⟨stands, cited⟩
        | some x =>
          obtain ⟨op, q, reaches, shorter⟩ := x
          refine .reached _ (.emitFor _ h stands cited (op.refersTo_preload _ _ _) fun h => ?_)
          refine .andThen (expression_follows env h q) ?_
          rintro _ _ st value _ h rfl
          refine .andThen (follow_follows h _ _) ?_
          rintro _ _ st ⟨result, code⟩ _ h ⟨rfl, hcode⟩
          have plain : ∀ i ∈ code, i.isReference = false := fun i hi =>
            Instruction.isReference_of_isOperator (op.isOperator_judge hcode i hi)
          refine .emit code h plain fun h => .andThen (follow_follows h _ _) ?_
          rintro _ _ st _ _ h _
          refine .emitFor [.store slot] h stands cited ?_ fun h => .ok h (.computed source env type)
          intro i hi _
          obtain rfl := List.mem_singleton.1 hi
          exact ⟨rfl, rfl⟩
termination_by 16 * s.left + 1
decreasing_by all_goals omega

end

end Expressions

/-! ## Simple statements -/

section Simple

variable {source : List Token} {env : Env} {st : State} (h : st.env = env)
include h

theorem condition_follows (s : Tokens) :
    (Stateful.condition st s).Follows source env st (condition env s) Eq := by
  refine .andThen (expect_follows h _ _) ?_
  rintro q _ st _ _ h _
  refine .andThen (expression_follows env h q) ?_
  rintro r _ st type _ h rfl
  split
  · exact expect_follows h _ _
  · exact .fail h _ _ _

theorem jumpStatement_follows (keyword : String) (target : Option Nat) (pos : Position)
    (s : Tokens) :
    (Stateful.jumpStatement st keyword target pos s).Follows source env st
      (jumpStatement env keyword target pos s) Eq := by
  cases target with
  | none => exact .fail h _ _ _
  | some label =>
    refine .andThen (expect_follows h _ _) ?_
    rintro _ _ st _ _ h _
    exact .emit [.jump label] h (by simp [Instruction.isReference]) fun h => .ok h rfl

theorem returnStatement_follows (pos : Position) (s : Tokens) :
    (Stateful.returnStatement st pos s).Follows source env st (returnStatement env pos s) Eq := by
  have plain : ∀ i ∈ [Instruction.ret], i.isReference = false := by simp [Instruction.isReference]
  unfold Stateful.returnStatement returnStatement
  split
  · refine .andThen (expression_follows env h s) ?_
    rintro _ _ st given _ h rfl
    rw [show st.returns = env.returns from congrArg Env.returns h]
    refine .andThen (follow_follows h _ _) ?_
    rintro r _ st _ _ h _
    exact .emit [.ret] h plain fun h => expect_follows h _ _
  · rw [show st.returns = env.returns from congrArg Env.returns h]
    cases env.returns.head? with
    | some expected => exact .fail h _ _ _
    | none => exact .emit [.ret] h plain fun h => expect_follows h _ _

theorem expressionStatement_follows (s : Tokens) :
    (Stateful.expressionStatement st s).Follows source env st (expressionStatement env s) Eq := by
  refine .andThen (expression_follows env h s) ?_
  rintro r _ st _ _ h _
  exact .emit [.pop] h (by simp [Instruction.isReference]) fun h => expect_follows h _ _

theorem simpleStatement_follows (s : Tokens) :
    (Stateful.simpleStatement st s).Follows source env st (simpleStatement env s) Eq := by
  unfold Stateful.simpleStatement simpleStatement
  rw [h, show st.loops.head? = env.loop from congrArg Env.loop h]
  cases s.uncons? with
  | none => exact .fail h _ _ _
  | some x =>
    obtain ⟨t, r⟩ := x
    dsimp only
    split
    · exact .reached _ (jumpStatement_follows h _ _ _ _)
    split
    · exact .reached _ (jumpStatement_follows h _ _ _ _)
    split
    · exact .reached _ (returnStatement_follows h _ _)
    split
    · exact .reached _ (.ok h rfl)
    split
    · exact .fail h _ _ _
    split
    · exact expressionStatement_follows h s
    · exact .fail h _ _ _

end Simple

end OnePass
