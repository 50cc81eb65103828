import OnePass.Proofs.Correspondence.Guise

/-!
# Corresponding runs

Much of what holds of every run of the compiler has the same proof: two runs of each production are
followed side by side. What corresponds in the surroundings of the two, and what is claimed of their
events, differs from case to case. A property of single runs is the case where both are the same.

A `Correspondence` says all this. Its laws say what has to hold of it, one for each thing that a
production can do: `LawfulSettings` of the surroundings, `LawfulEvents` of the events of
expressions, and `LawfulStatements` of those of statements. That all productions obey a lawful
correspondence is proved once, in the modules beside this one.
-/

namespace OnePass

/-! ## Instructions -/

namespace Instruction

/-- How many values an instruction takes off the stack. -/
def pops : Instruction → Nat
  | compare _ | additive _ | multiplicative _ | concat => 2
  | jumpUnless _ | unary _ | store _ | pop | call _ => 1
  | _ => 0

/-- How many values an instruction puts on the stack. -/
def pushes : Instruction → Nat
  | mark _ | jump _ | jumpUnless _ | ret | pop => 0
  | _ => 1

/-- Whether an instruction computes with what is on the stack and nothing else. -/
def isOperator : Instruction → Bool
  | .additive _ | .multiplicative _ | .concat => true
  | _ => false

theorem pops_of_isOperator {i : Instruction} (h : i.isOperator) : i.pops = 2 := by
  cases i <;> simp_all [isOperator, pops]

theorem pushes_of_isOperator {i : Instruction} (h : i.isOperator) : i.pushes = 1 := by
  cases i <;> simp_all [isOperator, pushes]

/-- Whether an instruction is complete in itself: it has no slot, link or label, and the next one
follows. -/
def isInert : Instruction → Bool
  | .load _ | .store _ | .call _ | .mark _ | .jump _ | .jumpUnless _ | .ret => false
  | _ => true

theorem isInert_of_isOperator {i : Instruction} (h : i.isOperator) : i.isInert := by
  cases i <;> simp_all [isOperator, isInert]

end Instruction

/-- An instruction that does not depend on where it stands. -/
inductive Instruction.IsFixed : Instruction → Prop
  | operator {i : Instruction} (h : i.isOperator) : IsFixed i
  | compare (op : Comparison) : IsFixed (.compare op)
  | unary (op : Unary) : IsFixed (.unary op)
  | one (type : ValueType) : IsFixed (if type = .double then .pushDouble .one else .pushInt 1)
  | pop : IsFixed .pop

theorem Instruction.IsFixed.isInert {i : Instruction} (h : i.IsFixed) : i.isInert := by
  cases h with
  | operator h => exact isInert_of_isOperator h
  | one type => split <;> rfl
  | _ => rfl

theorem Token.Kind.isInert_literal {k : Token.Kind} {x : ValueType × Instruction}
    (h : k.literal? = some x) : x.2.isInert := by
  cases k <;> cases h <;> rfl

theorem Token.Kind.isInert_signedLiteral {k : Token.Kind} {negative : Bool}
    {x : ValueType × Instruction} (h : k.signedLiteral? negative = some x) : x.2.isInert := by
  cases k <;> cases h <;> rfl

/-! ## Surroundings -/

/-- The symbol of a function that is defined next. -/
def Counters.functionSymbol (c : Counters) (name : String) (signature : Signature)
    (pos : Position) : Symbol :=
  ⟨name, .function (c.linkName name) signature, some pos⟩

/-- The surroundings of a parameter: the function is visible, loops around it are not. -/
def Env.inFunction (env : Env) (function : Symbol) (ret : ValueType) : Env :=
  { env with
    scopes := (env.scopes.declare function).enter
    loop := none
    returns := ret :: env.returns }

def Counters.inFunction (c : Counters) (name : String) : Counters :=
  { c with locals := 0, defined := name :: c.defined }

def Env.inLoop (env : Env) (c : Counters) : Env :=
  { env with loop := some ⟨c.labels, c.labels + 1⟩ }

/-! ## Correspondences -/

/-- Two runs of the compiler side by side: what corresponds in what they read and in what they know,
and what is claimed of what they give out. -/
structure Correspondence extends Guise where
  Surroundings : Env → Env → Prop
  /-- The slots of a variable of a type in the innermost function. -/
  Slot : Env → ValueType → Nat → Nat → Prop
  /-- The links of a function that is visible. -/
  Link : Env → String → String → Prop
  /-- How far the runs have counted inside so many functions. -/
  Counted : (frame : Nat) → Counters → Counters → Prop
  /-- The events of attempts that go through, with so many values on the stack before and after. -/
  Passes : Env → Nat → Nat → List Event → List Event → Prop
  /-- The events of attempts that are given up, with so many values on the stack before. -/
  Fails : Env → Nat → List Event → List Event → Prop
  /-- The events of whole statements and declarations. The scopes and the counters are those that
  the first run hands on. -/
  Closes : Env → Counters → List Event → List Event → Scopes → Counters → Prop

namespace Correspondence

/-- What a name stands for in two surroundings. -/
inductive Meant (C : Correspondence) (env : Env) : Meaning → Meaning → Prop
  | type (type : ValueType) : Meant C env (.type type) (.type type)
  | localVar {type : ValueType} {slot slot' frame : Nat}
    (owned : frame = env.frame → C.Slot env type slot slot') :
    Meant C env (.localVar type slot frame) (.localVar type slot' frame)
  | function {link link' : String} (signature : Signature) (linked : C.Link env link link') :
    Meant C env (.function link signature) (.function link' signature)

/-- The instructions that expressions emit. -/
inductive Emitted (C : Correspondence) (env : Env) : Instruction → Instruction → Prop
  | fixed {i : Instruction} (h : i.IsFixed) : Emitted C env i i
  | literal {t t' : Token} {type : ValueType} {i : Instruction} (same : C.Tok t t')
    (h : t.kind.literal? = some (type, i)) : Emitted C env i i
  | signedLiteral {t t' : Token} {negative : Bool} {type : ValueType} {i : Instruction}
    (same : C.Tok t t') (h : t.kind.signedLiteral? negative = some (type, i)) : Emitted C env i i
  | load {type : ValueType} {slot slot' : Nat} (h : C.Slot env type slot slot') :
    Emitted C env (.load slot) (.load slot')
  | store {type : ValueType} {slot slot' : Nat} (h : C.Slot env type slot slot') :
    Emitted C env (.store slot) (.store slot')
  | call {link link' : String} (h : C.Link env link link') :
    Emitted C env (.call link) (.call link')

/-- A name that is read in the first run. -/
def ReadsName (C : Correspondence) (name : String) : Prop :=
  ∃ t t', C.Tok t t' ∧ t.kind = .ident name

/-- A type whose name is read in the first run. -/
def ReadsType (C : Correspondence) (type : ValueType) : Prop :=
  ∃ env env' t t', C.Surroundings env env' ∧ C.Tok t t' ∧ env.typeNamed? t.kind = some type

structure LawfulSettings (C : Correspondence) : Prop where
  returns {env env' : Env} : C.Surroundings env env' → env'.returns = env.returns
  strict {env env' : Env} {s : Tokens} :
    C.Surroundings env env' → C.Lost s → env.structural = .error
  meaning {env env' : Env} (name : String) : C.Surroundings env env' →
    Option.Rel (C.Meant env) ((env.scopes.find? name).map Symbol.meaning)
      ((env'.scopes.find? (C.name name)).map Symbol.meaning)
  typeNamed {env env' : Env} {t t' : Token} : C.Surroundings env env' → C.Tok t t' →
    env'.typeNamed? t'.kind = env.typeNamed? t.kind
  bindsInnermost {env env' : Env} (name : String) : C.Surroundings env env' →
    env'.scopes.bindsInnermost (C.name name) = env.scopes.bindsInnermost name
  enter {env env' : Env} : C.Surroundings env env' →
    C.Surroundings { env with scopes := env.scopes.enter }
      { env' with scopes := env'.scopes.enter }
  declareLocal {env env' : Env} {c c' : Counters} {pos pos' : Position} (name : String)
    (type : ValueType) : C.Surroundings env env' → C.Counted env.frame c c' → C.Pos pos pos' →
    C.Surroundings { env with scopes := env.scopes.declare (env.localSymbol c name type pos) }
      { env' with
        scopes := env'.scopes.declare (env'.localSymbol c' (C.name name) type pos') }
  declareFunction {env env' : Env} {c c' : Counters} {name : String} {pos pos' : Position}
    (signature : Signature) : C.Surroundings env env' → C.Counted env.frame c c' →
    C.ReadsName name → C.Pos pos pos' →
    C.Surroundings { env with scopes := env.scopes.declare (c.functionSymbol name signature pos) }
      { env' with
        scopes := env'.scopes.declare (c'.functionSymbol (C.name name) signature pos') }
  inBody {env env' : Env} (ret : ValueType) : C.Surroundings env env' →
    C.Surroundings
      { env with scopes := env.scopes.enter, loop := none, returns := ret :: env.returns }
      { env' with scopes := env'.scopes.enter, loop := none, returns := ret :: env'.returns }
  inLoop {env env' : Env} {c c' : Counters} : C.Surroundings env env' →
    C.Counted env.frame c c' → C.Surroundings (env.inLoop c) (env'.inLoop c')
  withLabel {frame : Nat} {c c' : Counters} :
    C.Counted frame c c' → C.Counted frame c.withLabel c'.withLabel
  withLocal {frame : Nat} {c c' : Counters} :
    C.Counted frame c c' → C.Counted frame c.withLocal c'.withLocal
  inFunction {frame : Nat} {c c' : Counters} (name : String) : C.Counted frame c c' →
    C.Counted (frame + 1) (c.inFunction name) (c'.inFunction (C.name name))
  afterFunction {frame : Nat} {c c' d d' : Counters} :
    C.Counted frame c c' → C.Counted (frame + 1) d d' →
    C.Counted frame { d with locals := c.locals } { d' with locals := c'.locals }

/-- Both runs are inside as many functions. -/
theorem LawfulSettings.frame {C : Correspondence} (L : C.LawfulSettings) {env env' : Env}
    (henv : C.Surroundings env env') : env'.frame = env.frame := by
  rw [Env.frame, Env.frame, L.returns henv]

/-- One law for each thing that expressions do. -/
structure LawfulEvents (C : Correspondence) : Prop where
  nil {env : Env} {m : Nat} : C.Passes env m m [] []
  append {env : Env} {m k l : Nat} {es es' fs fs' : List Event} :
    C.Passes env m k es es' → C.Passes env k l fs fs' → C.Passes env m l (es ++ fs) (es' ++ fs')
  append_fails {env : Env} {m k : Nat} {es es' fs fs' : List Event} :
    C.Passes env m k es es' → C.Fails env k fs fs' → C.Fails env m (es ++ fs) (es' ++ fs')
  emit {env env' : Env} {i i' : Instruction} (m : Nat) : C.Surroundings env env' →
    C.Emitted env i i' → C.Passes env (m + i.pops) (m + i.pushes) [.emit i] [.emit i']
  /-- A return takes everything off. -/
  ret {env : Env} {m : Nat} : C.Passes env m 0 [.emit .ret] [.emit .ret]
  warn {env env' : Env} {m : Nat} {pos pos' : Position} (problem : Problem) :
    C.Surroundings env env' → C.Pos pos pos' →
    C.Passes env m m [.report .warning pos problem]
      [.report .warning pos' (problem.rename C.name)]
  error {env env' : Env} {s s' : Tokens} {m : Nat} {pos pos' : Position} (problem : Problem) :
    C.Surroundings env env' → C.Stream s s' → C.Pos pos pos' →
    C.Resumed (C.Fails env m) s s' [.report .error pos problem]
      [.report .error pos' (problem.rename C.name)]
  /-- Where values are on the stack, only a `)` can be missing. -/
  missing {env env' : Env} {s s' : Tokens} {m : Nat} {text : String} {t t' : Token} :
    C.Surroundings env env' → C.Stream s s' → C.Tok t t' → text = ")" ∨ m = 0 →
    C.Resumed (C.Fails env m) s s'
      [.report env.structural t.pos (.unexpected (.symbol text) t.kind)]
      [.report env'.structural t'.pos (.unexpected (.symbol text) t'.kind)]

/-- What the productions of expressions need. -/
structure Lawful (C : Correspondence) : Prop extends
  guise : Guise.Lawful C.toGuise, LawfulSettings C, LawfulEvents C

/-- Both are inside a loop or neither is, and jumps to the targets of the innermost one
correspond. -/
def Jumps (C : Correspondence) (env env' : Env) : Prop :=
  Option.Rel (fun t t' => C.Passes env 0 0 [.emit (.jump t.exit)] [.emit (.jump t'.exit)] ∧
    C.Passes env 0 0 [.emit (.jump t.next)] [.emit (.jump t'.next)]) env.loop env'.loop

/-- What two runs have read and know at the body of a function: the symbols of the function and of
its parameter, which is the first local. -/
structure Defines (C : Correspondence) (env env' : Env) (c c' : Counters)
    (name parameter : String) (param ret : ValueType) (f f' symbol symbol' : Symbol) : Prop where
  fresh : env.scopes.bindsInnermost name = false
  named : C.ReadsName name
  read : C.ReadsName parameter
  takes : C.ReadsType param
  gives : C.ReadsType ret
  function : ∃ pos pos', C.Pos pos pos' ∧ f = c.functionSymbol name ⟨param, ret⟩ pos ∧
    f' = c'.functionSymbol (C.name name) ⟨param, ret⟩ pos'
  symbol : ∃ pos pos', C.Pos pos pos' ∧
    symbol = (env.inFunction f ret).localSymbol (c.inFunction name) parameter param pos ∧
    symbol' = (env'.inFunction f' ret).localSymbol (c'.inFunction (C.name name))
      (C.name parameter) param pos'

/-- One law for each thing that statements do. -/
structure LawfulStatements (C : Correspondence) : Prop where
  loops {env env' : Env} : C.Surroundings env env' → C.Jumps env env'
  redeclaration {env env' : Env} {s s' : Tokens} {pos pos' : Position} (name : String)
    (c : Counters) : C.Surroundings env env' → C.Stream s s' → C.Pos pos pos' →
    C.Resumed (fun es es' => C.Closes env c es es' env.scopes c) s s'
      (redeclaration env name pos) (redeclaration env' (C.name name) pos')
  passed {env : Env} {c : Counters} {es es' : List Event} :
    C.Passes env 0 0 es es' → C.Closes env c es es' env.scopes c
  failed {env : Env} {c : Counters} {es es' : List Event} :
    C.Fails env 0 es es' → C.Closes env c es es' env.scopes c
  followed {env : Env} {c c₁ c₂ : Counters} {es es' fs fs' : List Event} {scopes scopes₁ : Scopes} :
    C.Closes env c es es' scopes c₁ → C.Closes { env with scopes } c₁ fs fs' scopes₁ c₂ →
    C.Closes env c (es ++ fs) (es' ++ fs') scopes₁ c₂
  block {env : Env} {c c₁ : Counters} {es es' : List Event} {scopes : Scopes} :
    C.Closes { env with scopes := env.scopes.enter } c es es' scopes c₁ →
    C.Closes env c (.scope .enter :: es ++ [.scope .leave])
      (.scope .enter :: es' ++ [.scope .leave]) env.scopes c₁
  declare {env env' : Env} {c c' : Counters} {name : String} {type : ValueType}
    {pos pos' : Position} : C.Surroundings env env' → C.Counted env.frame c c' →
    env.scopes.bindsInnermost name = false → C.ReadsName name → C.ReadsType type →
    C.Pos pos pos' →
    C.Closes env c
      [.code (.reserveLocal name type), .scope (.declare (env.localSymbol c name type pos))]
      [.code (.reserveLocal (C.name name) type),
        .scope (.declare (env'.localSymbol c' (C.name name) type pos'))]
      (env.scopes.declare (env.localSymbol c name type pos)) c.withLocal
  define {env env' : Env} {c c' c₁ : Counters} {es es' : List Event} {scopes : Scopes}
    {name parameter : String} {param ret : ValueType} {f f' symbol symbol' : Symbol} :
    C.Surroundings env env' → C.Counted env.frame c c' →
    C.Defines env env' c c' name parameter param ret f f' symbol symbol' →
    C.Closes
      { env.inFunction f ret with scopes := (env.inFunction f ret).scopes.declare symbol }
      (c.inFunction name).withLocal es es' scopes c₁ →
    C.Closes env c
      ([.scope (.declare f), .code (.openFunction (c.linkName name) ⟨param, ret⟩), .scope .enter,
          .code (.reserveLocal parameter param), .scope (.declare symbol)] ++
        es ++ [.scope .leave, .code .closeFunction])
      ([.scope (.declare f'), .code (.openFunction (c'.linkName (C.name name)) ⟨param, ret⟩),
          .scope .enter, .code (.reserveLocal (C.name parameter) param),
          .scope (.declare symbol')] ++
        es' ++ [.scope .leave, .code .closeFunction])
      (env.scopes.declare f) { c₁ with locals := c.locals }
  ifThen {env : Env} {c c' c₁ : Counters} {ts ts' es es' : List Event} :
    C.Counted env.frame c c' → C.Passes env 0 1 ts ts' →
    C.Closes env c.withLabel es es' env.scopes c₁ →
    C.Closes env c
      (ts ++ [.code .reserveLabel, .emit (.jumpUnless c.labels)] ++ es ++
        [.emit (.mark c.labels)])
      (ts' ++ [.code .reserveLabel, .emit (.jumpUnless c'.labels)] ++ es' ++
        [.emit (.mark c'.labels)])
      env.scopes c₁
  ifElse {env : Env} {c c' c₁ c₁' c₂ : Counters} {ts ts' es es' fs fs' : List Event} :
    C.Counted env.frame c c' → C.Passes env 0 1 ts ts' →
    C.Closes env c.withLabel es es' env.scopes c₁ → C.Counted env.frame c₁ c₁' →
    C.Closes env c₁.withLabel fs fs' env.scopes c₂ →
    C.Closes env c
      (ts ++ [.code .reserveLabel, .emit (.jumpUnless c.labels)] ++ es ++
        [.code .reserveLabel, .emit (.jump c₁.labels), .emit (.mark c.labels)] ++ fs ++
        [.emit (.mark c₁.labels)])
      (ts' ++ [.code .reserveLabel, .emit (.jumpUnless c'.labels)] ++ es' ++
        [.code .reserveLabel, .emit (.jump c₁'.labels), .emit (.mark c'.labels)] ++ fs' ++
        [.emit (.mark c₁'.labels)])
      env.scopes c₂
  loop {env : Env} {c c' c₁ : Counters} {ts ts' es es' : List Event} :
    C.Counted env.frame c c' → C.Passes env 0 1 ts ts' →
    C.Closes (env.inLoop c) c.withLabel.withLabel es es' env.scopes c₁ →
    C.Closes env c
      ([.code .reserveLabel, .code .reserveLabel, .emit (.mark c.labels)] ++ ts ++
        [.emit (.jumpUnless (c.labels + 1))] ++ es ++
        [.emit (.jump c.labels), .emit (.mark (c.labels + 1))])
      ([.code .reserveLabel, .code .reserveLabel, .emit (.mark c'.labels)] ++ ts' ++
        [.emit (.jumpUnless (c'.labels + 1))] ++ es' ++
        [.emit (.jump c'.labels), .emit (.mark (c'.labels + 1))])
      env.scopes c₁
  failedLoop {env : Env} {c c' : Counters} {ts ts' : List Event} :
    C.Counted env.frame c c' → C.Fails env 0 ts ts' →
    C.Closes env c
      ([.code .reserveLabel, .code .reserveLabel, .emit (.mark c.labels)] ++ ts ++
        [.emit (.mark (c.labels + 1))])
      ([.code .reserveLabel, .code .reserveLabel, .emit (.mark c'.labels)] ++ ts' ++
        [.emit (.mark (c'.labels + 1))])
      env.scopes c.withLabel.withLabel

/-- What all productions need. -/
structure LawfulProgram (C : Correspondence) : Prop extends
  expressions : Lawful C, LawfulStatements C

/-- Both attempts yield values that are related, or neither does. -/
inductive Tried {α α' : Type} (P F : List Event → List Event → Prop) (V : α → α' → Prop) :
    Option α → Option α' → List Event → List Event → Prop
  | value {a : α} {a' : α'} {es es' : List Event} (related : V a a') (passes : P es es') :
    Tried P F V (some a) (some a') es es'
  | failure {es es' : List Event} (fails : F es es') : Tried P F V none none es es'

namespace Tried

variable {α α' : Type} {P F : List Event → List Event → Prop} {V : α → α' → Prop} {v : Option α}
  {v' : Option α'} {es es' : List Event}

/-- Related values are the same if the relation says so. -/
theorem value_eq {V : α → α → Prop} {v v' : Option α} (h : Tried P F V v v' es es')
    (same : ∀ a a', V a a' → a' = a) : v' = v := by
  cases h with
  | value related _ => rw [same _ _ related]
  | failure _ => rfl

/-- Both attempts have a value or none has. -/
theorem isSome_eq (h : Tried P F V v v' es es') : v'.isSome = v.isSome := by
  cases h <;> rfl

/-- Where the same is claimed of success and of failure. -/
theorem events (h : Tried P P V v v' es es') : P es es' := by
  cases h with
  | value _ passes => exact passes
  | failure fails => exact fails

end Tried

/-- Attempts inside an expression, with `m` values on the stack before and `k` after. -/
def Matches (C : Correspondence) (env : Env) (ends : Bool) (m k : Nat) {s s' : Tokens}
    {α α' : Type} (V : α → α' → Prop) (x : Attempt s α) (y : Attempt s' α') : Prop :=
  C.Runs ends (Tried (C.Passes env m k) (C.Fails env m) V) x y

/-! ## Attempts -/

namespace Matches

variable {C : Correspondence} {env env' : Env} {ends : Bool} {m k l : Nat} {s s' q q' : Tokens}
  {α α' β β' : Type} {V : α → α' → Prop} {W : β → β' → Prop}

theorem ok (L : C.Lawful) {a : α} {a' : α'} (hs : C.Stream s s') (h : V a a') :
    C.Matches env ends m m V (Run.ok a : Attempt s α) (Run.ok a' : Attempt s' α') :=
  .pure hs (.value h L.nil)

theorem reached {h : s.Reaches q} {h' : s'.Reaches q'} {x : Attempt q α} {y : Attempt q' α'}
    (hx : C.Matches env ends m k V x y) :
    C.Matches env ends m k V (Run.reached h x) (Run.reached h' y) :=
  hx

/-- Events may be put in front, if they lead from one height of the stack to the next. -/
theorem after (L : C.Lawful) {es es' : List Event} {x : Attempt s α} {y : Attempt s' α'}
    (he : C.Passes env m k es es') (hx : C.Matches env ends k l V x y) :
    C.Matches env ends m l V (Run.after es x) (Run.after es' y) := by
  refine Guise.Runs.after L.guise (Guise.Runs.mono hx ?_)
  rintro _ _ fs fs' (⟨related, passes⟩ | fails)
  · exact .value related (L.append he passes)
  · exact .failure (L.append_fails he fails)

theorem emit (L : C.Lawful) {is is' : List Instruction} {a : α} {a' : α'} (hs : C.Stream s s')
    (he : C.Passes env m k (Event.emits is) (Event.emits is')) (h : V a a') :
    C.Matches env ends m k V (Run.emit is a : Attempt s α) (Run.emit is' a' : Attempt s' α') :=
  .after L he (.ok L hs h)

theorem map {f : α → β} {f' : α' → β'} {x : Attempt s α} {y : Attempt s' α'}
    (hx : C.Matches env ends m k V x y) (hf : ∀ a a', V a a' → W (f a) (f' a')) :
    C.Matches env ends m k W (x.map f) (y.map f') := by
  refine Or.imp id (And.imp id fun tried => ?_) hx
  change Tried _ _ _ (x.value.map f) (y.value.map f') _ _
  generalize x.value = v at tried ⊢
  generalize y.value = v' at tried ⊢
  rcases tried with ⟨related, passes⟩ | fails
  · exact .value (hf _ _ related) passes
  · exact .failure fails

section AndThen

variable {x : Attempt s α} {y : Attempt s' α'}
  {f : (r : Tokens) → r.left ≤ s.left → α → Attempt r β}
  {f' : (r : Tokens) → r.left ≤ s'.left → α' → Attempt r β'}

/-- What a successful attempt is followed by; a failed one is followed by nothing. -/
theorem continued (L : C.Lawful)
    (hf : ∀ r h r' h' a a', C.Stream r r' → V a a' →
      C.Matches env ends k l W (f r h a) (f' r' h' a'))
    (r : Tokens) (h : r.left ≤ s.left) (r' : Tokens) (h' : r'.left ≤ s'.left) (v : Option α)
    (v' : Option α') (es es' : List Event) (stream : C.Stream r r')
    (tried : Tried (C.Passes env m k) (C.Fails env m) V v v' es es') :
    C.Runs ends (fun b b' fs fs' =>
        Tried (C.Passes env m l) (C.Fails env m) W b b' (es ++ fs) (es' ++ fs'))
      (match v with | none => .pure none | some a => f r h a)
      (match v' with | none => .pure none | some a => f' r' h' a) := by
  rcases tried with ⟨related, passes⟩ | fails
  · refine Guise.Runs.mono (hf r h r' h' _ _ stream related) ?_
    rintro _ _ fs fs' (⟨related, later⟩ | fails)
    · exact .value related (L.append passes later)
    · exact .failure (L.append_fails passes fails)
  · refine .pure stream (.failure ?_)
    rwa [List.append_nil, List.append_nil]

/-- **One attempt behind another**: the heights join, and a failure of the first is one of both. -/
theorem andThen (L : C.Lawful) (hx : C.Matches env ends m k V x y)
    (hf : ∀ r h r' h' a a', C.Stream r r' → V a a' →
      C.Matches env ends k l W (f r h a) (f' r' h' a')) :
    C.Matches env ends m l W (x.andThen f) (y.andThen f') :=
  Guise.Runs.bind L.guise hx (continued L hf)

/-- An attempt that may want for tokens, and behind it something that then reports an error. -/
theorem andThenClose (L : C.Lawful) (hx : C.Matches env true m k V x y)
    (closes : C.Lost x.rest → Faulty (x.andThen f).events)
    (hf : ∀ r h r' h' a a', C.Stream r r' → V a a' →
      C.Matches env ends k l W (f r h a) (f' r' h' a')) :
    C.Matches env ends m l W (x.andThen f) (y.andThen f') :=
  Guise.Runs.close L.guise hx closes (continued L hf)

end AndThen

/-- A failure at corresponding positions. -/
theorem fail (L : C.Lawful) (henv : C.Surroundings env env') (hs : C.Stream s s')
    {pos pos' : Position} (hp : C.Pos pos pos') (problem : Problem) :
    C.Matches env ends m k V (Run.fail .error pos problem : Attempt s α)
      (Run.fail .error pos' (problem.rename C.name) : Attempt s' α') :=
  .recover (L.error problem henv hs hp) .failure

end Matches

end Correspondence

end OnePass
