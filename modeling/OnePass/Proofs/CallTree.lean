import OnePass.Proofs.Balance
import OnePass.Proofs.Stream

/-!
# The tree of calls

Which productions a production runs, in which surroundings and on which stream, and what it has
given out before: `Call.Makes` has one rule for each place where the grammar of statements names
another production, and `Call.Leads` follows a whole branch of the tree. What a pass does at one
place, say at one declaration, can so be stated of every such place.

Along a branch the events of a call are part of the events of the whole (`Call.Leads.exists_after`),
and its scopes are those that the events before it have led to (`Call.Leads.scopes`).
-/

namespace OnePass

/-! ## What comes next -/

section Equations

variable {env : Env} {c : Counters} {s : Tokens} {q : s.Tail}

theorem program_of_atEnd (ends : s.atEnd = true) : program env c s = .pure c := by
  rw [program, dif_pos ends]

theorem program_of_going (going : s.atEnd = false) :
    program env c s = (statement env c s).1.bind fun r _ o => program env o.counters r := by
  rw [program, dif_neg (by simp [going])]
  rfl

theorem statement_of_brace (read : s.symbol? "\x7b" = some q) :
    (statement env c s).1 = Run.reached q.reaches (block env c q.stream) := by
  rw [statement, read]

theorem statement_of_if (read : s.keyword? "if" = some q) :
    (statement env c s).1 = Run.reached q.reaches (conditional env c q.stream) := by
  have kind := (Tokens.passes_of_keyword? read).current_kind
  rw [statement, Tokens.symbol?_eq_none (by simp [kind])]
  dsimp only
  rw [read]

theorem statement_of_while (read : s.keyword? "while" = some q) :
    (statement env c s).1 = Run.reached q.reaches (loop env c q.stream) := by
  have kind := (Tokens.passes_of_keyword? read).current_kind
  rw [statement, Tokens.symbol?_eq_none (by simp [kind]), Tokens.keyword?_eq_none (by simp [kind])]
  dsimp only
  rw [read]

theorem statement_of_none (noBlock : s.symbol? "\x7b" = none) (noIf : s.keyword? "if" = none)
    (noWhile : s.keyword? "while" = none) :
    (statement env c s).1 = (simpleStatement env s).bind fun _ _ v => .pure ⟨c, v.isSome⟩ := by
  rw [statement, noBlock]
  dsimp only
  rw [noIf]
  dsimp only
  rw [noWhile]

theorem statements_of_going (more : s.current.isSymbol "\x7d" = false) (going : s.atEnd = false) :
    statements env c s = (statement env c s).1.bind fun r _ o => statements env o.counters r := by
  rw [statements, if_neg (by simp [more]), dif_neg (by simp [going])]
  rfl

theorem declarations_of_type {type : ValueType} (read : env.typeName? s = some (type, q)) :
    declarations env c s = Run.reached q.reaches ((declaration env c type q.stream).bind
      fun r _ d => declarations { env with scopes := d.scopes } d.counters r) := by
  rw [declarations, read]

theorem exists_name_of_identifier {name : String} {pos : Position}
    (h : (identifier s).value = some (name, pos)) :
    ∃ q, s.uncons? = some (⟨.ident name, pos⟩, q) := by
  unfold identifier at h
  split at h
  · rename_i q read
    cases h
    exact ⟨q, read⟩
  · cases h

/-- What was read without a report is gone on with. -/
theorem Run.bind_reached_ok {r : Tokens} {α β : Type} (h : s.Reaches r) (a : α)
    (f : (r : Tokens) → r.left ≤ s.left → Option α → Run r β) :
    (Run.reached h (.ok a)).bind f = Run.reached h (f r h.left_le (some a)) := rfl

section Declaration

variable {type : ValueType} {name : String} {pos : Position}
  (read : s.uncons? = some (⟨.ident name, pos⟩, q))

include read

theorem identifier_of_name : identifier s = Run.reached q.reaches (.ok (name, pos)) := by
  rw [identifier, read]

/-- A name that is bound in the innermost scope is refused. -/
theorem declaration_of_bound (bound : env.scopes.bindsInnermost name = true) :
    declaration env c type s =
      Run.reached q.reaches (.recover (redeclaration env name pos) ⟨env.scopes, c⟩) := by
  rw [declaration, identifier_of_name read, Run.bind_reached_ok]
  dsimp only
  rw [if_pos bound]

theorem declaration_of_function (fresh : env.scopes.bindsInnermost name = false)
    {p : q.stream.Tail} (opening : q.stream.symbol? "(" = some p) :
    declaration env c type s = Run.reached q.reaches
      (Run.reached p.reaches (definition env c type name pos p.stream)) := by
  rw [declaration, identifier_of_name read, Run.bind_reached_ok]
  dsimp only
  rw [if_neg (by simp [fresh]), opening]

theorem declaration_of_local (fresh : env.scopes.bindsInnermost name = false)
    (noParameter : q.stream.symbol? "(" = none) :
    declaration env c type s =
      Run.reached q.reaches (Run.after [.code (.reserveLocal name type),
          .scope (.declare (env.localSymbol c name type pos))]
        ((expect env ";" q.stream).bind fun _ _ _ =>
          .pure ⟨env.scopes.declare (env.localSymbol c name type pos), c.withLocal⟩)) := by
  rw [declaration, identifier_of_name read, Run.bind_reached_ok]
  dsimp only
  rw [if_neg (by simp [fresh]), noParameter]

end Declaration

end Equations

/-! ## Calls -/

/-- The productions in which there may be a declaration. -/
inductive Production where
  | program | statement | statements | block | conditional | loop | declarations
  | declaration (type : ValueType)

/-- A production, its surroundings, and the stream that it is run on. -/
structure Call where
  production : Production
  env : Env
  counters : Counters
  stream : Tokens

namespace Call

/-- What a call gives out. -/
def events (x : Call) : List Event :=
  match x.production with
  | .program => (program x.env x.counters x.stream).events
  | .statement => (statement x.env x.counters x.stream).1.events
  | .statements => (statements x.env x.counters x.stream).events
  | .block => (block x.env x.counters x.stream).events
  | .conditional => (conditional x.env x.counters x.stream).events
  | .loop => (loop x.env x.counters x.stream).events
  | .declarations => (declarations x.env x.counters x.stream).events
  | .declaration type => (declaration x.env x.counters type x.stream).events

/-- The first call gives out some events, and then makes the second one. -/
inductive Makes : Call → List Event → Call → Prop
  | statement {env : Env} {c : Counters} {s : Tokens} (going : s.atEnd = false) :
    Makes ⟨.program, env, c, s⟩ [] ⟨.statement, env, c, s⟩
  | program {env : Env} {c : Counters} {s : Tokens} {o : Run s Outcome} (going : s.atEnd = false)
    (first : o = (statement env c s).1) :
    Makes ⟨.program, env, c, s⟩ o.events ⟨.program, env, o.value.counters, o.rest⟩
  | block {env : Env} {c : Counters} {s : Tokens} {q : s.Tail}
    (read : s.symbol? "\x7b" = some q) :
    Makes ⟨.statement, env, c, s⟩ [] ⟨.block, env, c, q.stream⟩
  | conditional {env : Env} {c : Counters} {s : Tokens} {q : s.Tail}
    (read : s.keyword? "if" = some q) :
    Makes ⟨.statement, env, c, s⟩ [] ⟨.conditional, env, c, q.stream⟩
  | loop {env : Env} {c : Counters} {s : Tokens} {q : s.Tail}
    (read : s.keyword? "while" = some q) :
    Makes ⟨.statement, env, c, s⟩ [] ⟨.loop, env, c, q.stream⟩
  | inner {env : Env} {c : Counters} {s : Tokens} (more : s.current.isSymbol "\x7d" = false)
    (going : s.atEnd = false) :
    Makes ⟨.statements, env, c, s⟩ [] ⟨.statement, env, c, s⟩
  | statements {env : Env} {c : Counters} {s : Tokens} {o : Run s Outcome}
    (more : s.current.isSymbol "\x7d" = false) (going : s.atEnd = false)
    (first : o = (statement env c s).1) :
    Makes ⟨.statements, env, c, s⟩ o.events ⟨.statements, env, o.value.counters, o.rest⟩
  | declarations {env : Env} {c : Counters} {s : Tokens} :
    Makes ⟨.block, env, c, s⟩ [.scope .enter]
      ⟨.declarations, { env with scopes := env.scopes.enter }, c, s⟩
  | body {env : Env} {c : Counters} {s : Tokens} {d : Run s Declared}
    (first : d = OnePass.declarations { env with scopes := env.scopes.enter } c s) :
    Makes ⟨.block, env, c, s⟩ (.scope .enter :: d.events)
      ⟨.statements, { env with scopes := d.value.scopes }, d.value.counters, d.rest⟩
  | branch {env : Env} {c : Counters} {s : Tokens} (read : (condition env s).value = some ()) :
    Makes ⟨.conditional, env, c, s⟩
      ((condition env s).events ++ [.code .reserveLabel, .emit (.jumpUnless c.labels)])
      ⟨.statement, env, c.withLabel, (condition env s).rest⟩
  | alternative {env : Env} {c : Counters} {s : Tokens} (read : (condition env s).value = some ())
    {o : Run (condition env s).rest Outcome}
    (first : o = (OnePass.statement env c.withLabel (condition env s).rest).1) {p : o.rest.Tail}
    (read' : o.rest.keyword? "else" = some p) :
    Makes ⟨.conditional, env, c, s⟩
      ((condition env s).events ++ [.code .reserveLabel, .emit (.jumpUnless c.labels)] ++
        o.events ++
        [.code .reserveLabel, .emit (.jump o.value.counters.labels), .emit (.mark c.labels)])
      ⟨.statement, env, o.value.counters.withLabel, p.stream⟩
  | repeated {env : Env} {c : Counters} {s : Tokens} (read : (condition env s).value = some ()) :
    Makes ⟨.loop, env, c, s⟩
      ([.code .reserveLabel, .code .reserveLabel, .emit (.mark c.labels)] ++
        (condition env s).events ++ [.emit (.jumpUnless (c.labels + 1))])
      ⟨.statement, env.inLoop c, c.withLabel.withLabel, (condition env s).rest⟩
  | declaration {env : Env} {c : Counters} {s : Tokens} {type : ValueType} {q : s.Tail}
    (read : env.typeName? s = some (type, q)) :
    Makes ⟨.declarations, env, c, s⟩ [] ⟨.declaration type, env, c, q.stream⟩
  | further {env : Env} {c : Counters} {s : Tokens} {type : ValueType} {q : s.Tail}
    (read : env.typeName? s = some (type, q)) {d : Run q.stream Declared}
    (first : d = OnePass.declaration env c type q.stream) :
    Makes ⟨.declarations, env, c, s⟩ d.events
      ⟨.declarations, { env with scopes := d.value.scopes }, d.value.counters, d.rest⟩
  | function {env : Env} {c : Counters} {s : Tokens} {type : ValueType} {name : String}
    {pos : Position} {q : s.Tail} (read : s.uncons? = some (⟨.ident name, pos⟩, q))
    (fresh : env.scopes.bindsInnermost name = false) {o : q.stream.Tail}
    (opening : q.stream.symbol? "(" = some o) {p : Parameter}
    (header : (parameter env o.stream).value = some p) {r : (parameter env o.stream).rest.Tail}
    (brace : (parameter env o.stream).rest.symbol? "\x7b" = some r) {f symbol : Symbol}
    (hf : f = c.functionSymbol name ⟨p.type, type⟩ pos)
    (hs : symbol = (env.inFunction f type).localSymbol (c.inFunction name) p.name p.type p.pos) :
    Makes ⟨.declaration type, env, c, s⟩
      ((parameter env o.stream).events ++
        [.scope (.declare f), .code (.openFunction (c.linkName name) ⟨p.type, type⟩),
          .scope .enter, .code (.reserveLocal p.name p.type), .scope (.declare symbol)])
      ⟨.block, { env.inFunction f type with
          scopes := (env.inFunction f type).scopes.declare symbol },
        (c.inFunction name).withLocal, r.stream⟩

/-- The first call gives out some events, and the second one is then made in it, perhaps by one
that it makes itself. -/
inductive Leads (x : Call) : List Event → Call → Prop
  | refl : Leads x [] x
  | step {before es : List Event} {y z : Call} (path : Leads x before y) (makes : y.Makes es z) :
    Leads x (before ++ es) z

/-- What a call that is made gives out is part of what the call gives out that makes it. -/
theorem Makes.exists_after {x y : Call} {es : List Event} (h : x.Makes es y) :
    ∃ after, x.events = es ++ (y.events ++ after) := by
  cases h with
  | statement going =>
    rw [events, program_of_going going]
    exact ⟨_, rfl⟩
  | program going first =>
    rw [events, program_of_going going, ← first]
    exact ⟨[], by simp [events]⟩
  | block read =>
    rw [events, statement_of_brace read]
    exact ⟨[], by simp [events]⟩
  | conditional read =>
    rw [events, statement_of_if read]
    exact ⟨[], by simp [events]⟩
  | loop read =>
    rw [events, statement_of_while read]
    exact ⟨[], by simp [events]⟩
  | inner more going =>
    rw [events, statements_of_going more going]
    exact ⟨_, rfl⟩
  | statements more going first =>
    rw [events, statements_of_going more going, ← first]
    exact ⟨[], by simp [events]⟩
  | declarations =>
    rw [events, OnePass.block]
    exact ⟨_, rfl⟩
  | body first =>
    rw [events, OnePass.block, ← first]
    exact ⟨_, by simp [events]; rfl⟩
  | branch read =>
    rw [events, OnePass.conditional, Run.events_bind, read]
    exact ⟨_, by simp [events]; rfl⟩
  | alternative read first read' =>
    rw [events, OnePass.conditional, Run.events_bind, read, Run.events_after, Run.events_bind,
      ← first, read']
    exact ⟨_, by simp [events]; rfl⟩
  | repeated read =>
    rw [events, OnePass.loop, Run.events_after, Run.events_bind, read]
    exact ⟨_, by simp [events, Env.inLoop]; rfl⟩
  | declaration read =>
    rw [events, declarations_of_type read]
    exact ⟨_, rfl⟩
  | further read first =>
    rw [events, declarations_of_type read, ← first]
    exact ⟨[], by simp [events]⟩
  | function read fresh opening header brace hf hs =>
    subst hs hf
    dsimp only [events]
    rw [declaration_of_function read fresh opening, Run.events_reached, Run.events_reached,
      definition, Run.events_bind, header, Run.events_after, Run.events_bind, OnePass.body, brace]
    refine ⟨[.scope .leave, .code .closeFunction], ?_⟩
    rw [List.append_assoc]
    rfl

/-- The scopes of a call that is made are those that were led to. -/
theorem Makes.scopes {x y : Call} {es : List Event} (h : x.Makes es y) :
    y.env.scopes = x.env.scopes.replay es := by
  cases h with
  | program _ first =>
    subst first
    exact (statement_traced _ _ _).replay_scopes.symm
  | statements _ _ first =>
    subst first
    exact (statement_traced _ _ _).replay_scopes.symm
  | body first =>
    subst first
    exact (declarations_traced _ _ _).replay_scopes.symm
  | @branch env _ s => simp [(condition_quiet env s).replay_scopes]
  | @alternative env c s _ _ first =>
    subst first
    have kept := (statement_traced env c.withLabel (condition env s).rest).replay_scopes
    simp [(condition_quiet env s).replay_scopes, kept, Env.handOn]
  | @repeated env _ s => simp [(condition_quiet env s).replay_scopes, Env.inLoop]
  | further _ first =>
    subst first
    exact (declaration_traced _ _ _ _).replay_scopes.symm
  | @function env _ _ _ _ _ _ _ _ o =>
    simp [(parameter_quiet env o.stream).replay_scopes, Scopes.apply, Env.inFunction]
  | _ => rfl

/-- A call that is made goes on with the stream of the call that makes it. -/
theorem Makes.reaches {x y : Call} {es : List Event} (h : x.Makes es y) :
    x.stream.Reaches y.stream := by
  cases h with
  | statement => exact .refl _
  | @program _ _ _ o => exact o.reaches
  | @block _ _ _ q => exact q.reaches
  | @conditional _ _ _ q => exact q.reaches
  | @loop _ _ _ q => exact q.reaches
  | inner => exact .refl _
  | @statements _ _ _ o => exact o.reaches
  | declarations => exact .refl _
  | @body _ _ _ d => exact d.reaches
  | branch => exact (condition _ _).reaches
  | @alternative _ _ _ _ o _ p => exact ((condition _ _).reaches.trans o.reaches).trans p.reaches
  | repeated => exact (condition _ _).reaches
  | @declaration _ _ _ _ q => exact q.reaches
  | @further _ _ _ _ q _ d => exact q.reaches.trans d.reaches
  | @function _ _ _ _ _ _ q _ _ o _ p _ r =>
    exact ((q.reaches.trans o.reaches).trans (parameter _ _).reaches).trans r.reaches

namespace Leads

variable {x y : Call} {before : List Event}

theorem exists_after (h : x.Leads before y) :
    ∃ after, x.events = before ++ (y.events ++ after) := by
  induction h with
  | refl => exact ⟨[], by simp⟩
  | step _ makes ih =>
    obtain ⟨after, events⟩ := ih
    obtain ⟨more, events'⟩ := makes.exists_after
    exact ⟨more ++ after, by rw [events, events']; simp⟩

theorem scopes (h : x.Leads before y) : y.env.scopes = x.env.scopes.replay before := by
  induction h with
  | refl => rfl
  | step _ makes ih => rw [makes.scopes, ih, Scopes.replay_append]

end Leads

end Call

end OnePass
