import OnePass.Proofs.Quiet

/-!
# Traces

The shape of everything that a run of the compiler gives out, whatever it reads. Between quiet
events stand blocks, declarations, function bodies, conditionals and loops, each with all of its
events: a failure inside a construct never keeps the construct from giving out its own last ones.

`Trace env c es scopes c'` says that `es` has this shape in the surroundings `env` with counters
`c`, and that `scopes` and `c'` are handed on. Every production gives out a trace
(`statement_traced` and its companions, `program_traced`), so what is to be shown for all inputs can
be shown by induction on traces, without a look at the grammar.
-/

namespace OnePass

/-- What a run gives out, and the scopes and counters it hands on. -/
inductive Trace : Env → Counters → List Event → Scopes → Counters → Prop
  | quiet {env : Env} {c : Counters} {es : List Event} (events : Quiet env es) :
    Trace env c es env.scopes c
  | append {env : Env} {c c' c'' : Counters} {es fs : List Event} {scopes scopes' : Scopes}
    (first : Trace env c es scopes c')
    (second : Trace { env with scopes := scopes } c' fs scopes' c'') :
    Trace env c (es ++ fs) scopes' c''
  | block {env : Env} {c c' : Counters} {es : List Event} {scopes : Scopes}
    (inner : Trace { env with scopes := env.scopes.enter } c es scopes c') :
    Trace env c (.scope .enter :: es ++ [.scope .leave]) env.scopes c'
  | declare {env : Env} {c : Counters} {name : String} {type : ValueType} {pos : Position}
    (fresh : env.scopes.bindsInnermost name = false) :
    Trace env c
      [.code (.reserveLocal name type), .scope (.declare (env.localSymbol c name type pos))]
      (env.scopes.declare (env.localSymbol c name type pos)) c.withLocal
  | define {env : Env} {c c' : Counters} {es : List Event} {scopes : Scopes} {name : String}
    {ret : ValueType} {pos : Position} {p : Parameter} {f symbol : Symbol}
    (fresh : env.scopes.bindsInnermost name = false)
    (hf : f = c.functionSymbol name ⟨p.type, ret⟩ pos)
    (hs : symbol = (env.inFunction f ret).localSymbol (c.inFunction name) p.name p.type p.pos)
    (inner : Trace
      { env.inFunction f ret with scopes := (env.inFunction f ret).scopes.declare symbol }
      (c.inFunction name).withLocal es scopes c') :
    Trace env c
      ([.scope (.declare f), .code (.openFunction (c.linkName name) ⟨p.type, ret⟩), .scope .enter,
          .code (.reserveLocal p.name p.type), .scope (.declare symbol)] ++
        es ++ [.scope .leave, .code .closeFunction])
      (env.scopes.declare f) { c' with locals := c.locals }
  | ifThen {env : Env} {c c' : Counters} {es : List Event}
    (inner : Trace env c.withLabel es env.scopes c') :
    Trace env c
      ([.code .reserveLabel, .emit (.jumpUnless c.labels)] ++ es ++ [.emit (.mark c.labels)])
      env.scopes c'
  | ifElse {env : Env} {c c' c'' : Counters} {es fs : List Event}
    (inner : Trace env c.withLabel es env.scopes c')
    (other : Trace env c'.withLabel fs env.scopes c'') :
    Trace env c
      ([.code .reserveLabel, .emit (.jumpUnless c.labels)] ++ es ++
        [.code .reserveLabel, .emit (.jump c'.labels), .emit (.mark c.labels)] ++ fs ++
        [.emit (.mark c'.labels)])
      env.scopes c''
  | loop {env : Env} {c c' : Counters} {es fs : List Event} (condition : Quiet env es)
    (inner : Trace (env.inLoop c) c.withLabel.withLabel fs env.scopes c') :
    Trace env c
      ([.code .reserveLabel, .code .reserveLabel, .emit (.mark c.labels)] ++ es ++
        [.emit (.jumpUnless (c.labels + 1))] ++ fs ++
        [.emit (.jump c.labels), .emit (.mark (c.labels + 1))])
      env.scopes c'
  | failedLoop {env : Env} {c : Counters} {es : List Event} (condition : Quiet env es) :
    Trace env c
      ([.code .reserveLabel, .code .reserveLabel, .emit (.mark c.labels)] ++ es ++
        [.emit (.mark (c.labels + 1))])
      env.scopes c.withLabel.withLabel

namespace Trace

variable {env : Env} {c c' : Counters} {es fs : List Event} {scopes : Scopes}

theorem of_eq (h : Trace env c es scopes c') (e : es = fs) : Trace env c fs scopes c' := e ▸ h

end Trace

/-- A run gives out a trace; `out` says what its value hands on. -/
def Run.Traced {s : Tokens} {α : Type} (x : Run s α) (env : Env) (c : Counters)
    (out : α → Declared) : Prop :=
  Trace env c x.events (out x.value).scopes (out x.value).counters

/-- What a statement hands on: the scopes are those before it. -/
def Env.handOn (env : Env) (o : Outcome) : Declared := ⟨env.scopes, o.counters⟩

/-! ## The trace of every production -/

/-- The report of a redeclaration is quiet. -/
theorem redeclaration_quiet (env : Env) (name : String) (pos : Position) :
    Quiet env (redeclaration env name pos) := by
  unfold redeclaration
  refine .report _ _ _ ?_
  split
  · exact .report _ _ _ .nil
  · exact .nil

/-- The claim that whole statements give out traces. -/
def tracing : Correspondence :=
  (quieting fun env c es _ scopes c' => Trace env c es scopes c').correspondence

/-- Traces obey the laws of programs: there is one constructor for each construct. -/
theorem tracing_lawful : tracing.LawfulProgram where
  expressions := quieting_lawful
  loops := quieting_jumps
  redeclaration name c _ hs _ := SameText.same_resumed hs (.quiet (redeclaration_quiet _ _ _))
  passed := .quiet
  failed := .quiet
  followed := .append
  block := .block
  declare _ _ fresh _ _ _ := .declare fresh
  define {_ _ _ _ _ _ _ _ _ parameter param} _ _ _ _ _ _ _ head inner := by
    obtain ⟨pos, _, -, hf, -⟩ := head.function
    obtain ⟨at_, _, -, hs, -⟩ := head.symbol
    exact Trace.define (p := ⟨param, parameter, at_⟩) head.fresh hf hs inner
  ifThen _ test inner := (Trace.append (.quiet test) (.ifThen inner)).of_eq (by simp)
  ifElse _ test inner _ other :=
    (Trace.append (.quiet test) (.ifElse inner other)).of_eq (by simp)
  loop _ test inner := .loop test inner
  failedLoop _ test := .failedLoop test

section

open Correspondence

variable (env : Env) (c : Counters)

theorem tracing_refl : tracing.Surroundings env env := .refl env trivial rfl rfl

theorem tracing_stream (s : Tokens) : tracing.Stream s s := ⟨rfl, fun _ _ => trivial⟩

/-- A statement gives out a trace. -/
theorem statement_traced (s : Tokens) : (statement env c s).1.Traced env c env.handOn :=
  ((statement_matches tracing_lawful (tracing_refl env) (rfl : c = c)
    (tracing_stream s)).resolve_left id).2.events

theorem statements_traced (s : Tokens) :
    (statements env c s).Traced env c (Declared.mk env.scopes) :=
  ((statements_matches tracing_lawful (tracing_refl env) (rfl : c = c)
    (tracing_stream s)).resolve_left id).2.events

/-- So do declarations, which hand on their scopes. -/
theorem declarations_traced (s : Tokens) : (declarations env c s).Traced env c id :=
  ((declarations_matches tracing_lawful (tracing_refl env) (rfl : c = c)
    (tracing_stream s)).resolve_left id).2.events

/-- Whatever the type, there are surroundings in which a word names it. -/
theorem tracing_readsType (type : ValueType) : tracing.ReadsType type :=
  ⟨{ scopes := { host := fun _ => some type } }, _, ⟨.ident "", .start⟩, _, tracing_refl _,
    ⟨rfl, trivial⟩, rfl⟩

theorem declaration_traced (type : ValueType) (s : Tokens) :
    (declaration env c type s).Traced env c id :=
  ((declaration_matches tracing_lawful (tracing_refl env) (rfl : c = c) (tracing_readsType type)
    (tracing_stream s)).resolve_left id).2.events

/-- A program gives out a trace. -/
theorem program_traced (s : Tokens) : (program env c s).Traced env c (Declared.mk env.scopes) :=
  ((program_matches tracing_lawful (tracing_refl env) (rfl : c = c)
    (tracing_stream s)).resolve_left id).2.events

end

end OnePass
