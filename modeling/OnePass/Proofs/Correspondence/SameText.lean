import Mathlib.Data.List.Forall2
import OnePass.Proofs.Correspondence.Expression

/-!
# Two runs on the same text

The correspondences in which names, positions, slots and links are the same in both runs. If nothing
else is said, the streams are the same as well, and then a claim about pairs of runs is a claim
about single ones. The first such claim is that an expression that is given up has reported it
(`expression_reports`).

Where something is claimed of each event by itself, all laws of events follow from what the single
events are (`SameText.lawfulEvents`, `SameText.lawfulStatements`).
-/

namespace OnePass

/-- A name means a variable of the innermost function. -/
def Env.Owns (env : Env) (type : ValueType) (slot : Nat) : Prop :=
  ∃ name, (env.scopes.find? name).map Symbol.meaning = some (.localVar type slot env.frame)

/-- A name means the function that is called by a link. -/
def Env.Links (env : Env) (link : String) : Prop :=
  ∃ name signature, (env.scopes.find? name).map Symbol.meaning = some (.function link signature)

theorem Env.typeNamed?_congr {env env' : Env} (h : env'.scopes = env.scopes) (k : Token.Kind) :
    env'.typeNamed? k = env.typeNamed? k := by
  unfold typeNamed?
  rw [h]

theorem Env.localSymbol_congr {env env' : Env} (h : env'.frame = env.frame) (c : Counters)
    (name : String) (type : ValueType) (pos : Position) :
    env'.localSymbol c name type pos = env.localSymbol c name type pos := by
  rw [localSymbol, localSymbol, h]

/-- Reading only uses up tokens. -/
theorem Tokens.Reaches.subset {s r : Tokens} (h : s.Reaches r) : r.front ⊆ s.front := by
  obtain ⟨passed, front, -⟩ := h
  rw [front]
  exact List.subset_append_right passed r.front

theorem Tokens.mem_of_uncons? {s : Tokens} {t : Token} {r : s.Tail} (h : s.uncons? = some (t, r)) :
    t ∈ s.front := by
  unfold uncons? at h
  split at h
  · cases h
  · rename_i u us front
    split at h
    · cases h
    · cases h
      exact front ▸ List.mem_cons_self

/-- What is left to say of a correspondence in which the text is the same. -/
structure SameText where
  /-- What is known of the tokens. -/
  Good : Token → Prop := fun _ => True
  Stream : Tokens → Tokens → Prop := fun s s' => s' = s ∧ ∀ t ∈ s.front, Good t
  Parted : Bool → List Event → Tokens → Tokens → Prop := fun _ _ _ _ => False
  /-- What is known of the scopes. -/
  Fit : Scopes → Prop := fun _ => True
  Loops : Option LoopTargets → Option LoopTargets → Prop := Eq
  Severities : Severity → Severity → Prop := Eq
  Passes : Env → Nat → Nat → List Event → List Event → Prop := fun _ _ _ _ _ => True
  Fails : Env → Nat → List Event → List Event → Prop := fun _ _ _ _ => True
  Closes : Env → Counters → List Event → List Event → Scopes → Counters → Prop :=
    fun _ _ _ _ _ _ => True

namespace SameText

structure Surroundings (P : SameText) (env env' : Env) : Prop where
  fit : P.Fit env.scopes
  scopes : env'.scopes = env.scopes
  returns : env'.returns = env.returns
  loop : P.Loops env.loop env'.loop
  structural : P.Severities env.structural env'.structural

/-- Both runs may start from the same surroundings. -/
theorem Surroundings.refl {P : SameText} (env : Env) (fit : P.Fit env.scopes)
    (loop : P.Loops env.loop env.loop) (structural : P.Severities env.structural env.structural) :
    P.Surroundings env env :=
  ⟨fit, rfl, rfl, loop, structural⟩

def correspondence (P : SameText) : Correspondence where
  name := id
  Pos := Eq
  Tok t t' := t' = t ∧ P.Good t
  Stream := P.Stream
  Lost _ := False
  Parted := P.Parted
  Surroundings := P.Surroundings
  Slot env type slot slot' := slot' = slot ∧ env.Owns type slot
  Link env link link' := link' = link ∧ env.Links link
  Counted _ c c' := c' = c
  Passes := P.Passes
  Fails := P.Fails
  Closes := P.Closes

/-! ## The same stream -/

/-- Both runs read the same stream. -/
def same (Good : Token → Prop) : Guise where
  name := id
  Pos := Eq
  Tok t t' := t' = t ∧ Good t
  Stream s s' := s' = s ∧ ∀ t ∈ s.front, Good t
  Lost _ := False
  Parted _ _ _ _ := False

section Same

variable {Good : Token → Prop}

/-- Two streams over one text have the same token at hand. -/
theorem same_ahead (eof : ∀ pos, Good ⟨.eof, pos⟩) {s s' : Tokens}
    (h : (same Good).Stream s s') : (same Good).Ahead s s' := by
  obtain ⟨rfl, good⟩ := h
  cases next : s'.uncons? with
  | none =>
    refine .neither next next ⟨rfl, ?_⟩
    obtain ⟨front, final⟩ := s'
    cases front with
    | nil => exact eof final
    | cons t ts => exact good t List.mem_cons_self
  | some v =>
    exact .both next next ⟨rfl, good _ (Tokens.mem_of_uncons? next)⟩
      ⟨rfl, fun t mem => good t (v.2.reaches.subset mem)⟩

/-- A run that reads the same text never gets lost. -/
theorem same_lawful (eof : ∀ pos, Good ⟨.eof, pos⟩) : (same Good).Lawful where
  kind := by
    rintro t _ ⟨rfl, -⟩
    exact (Token.Kind.rename_id _).symm
  pos := by
    rintro t _ ⟨rfl, -⟩
    rfl
  ahead := same_ahead eof
  lost_front := nofun
  lost_parts := nofun
  lost_else _ := nofun
  parted_mono := id
  shut := nofun
  parted_left parted _ _ := parted
  parted_right := id

/-- After a failure both runs go on at the same token. -/
theorem same_resumed {F : List Event → List Event → Prop} {s s' : Tokens} {es es' : List Event}
    (h : (same Good).Stream s s') (hf : F es es') : (same Good).Resumed F s s' es es' := by
  obtain ⟨rfl, good⟩ := h
  exact .inr ⟨⟨rfl, fun t mem => good t (s'.reaches_resume.subset mem)⟩, hf⟩

end Same

/-! ## Surroundings -/

section Settings

variable {P : SameText}

/-- The same instructions are emitted in both runs. -/
theorem eq_of_emitted {env : Env} {i i' : Instruction} (h : P.correspondence.Emitted env i i') :
    i' = i := by
  cases h with
  | fixed _ => rfl
  | literal _ _ => rfl
  | signedLiteral _ _ => rfl
  | load h => rw [h.1]
  | store h => rw [h.1]
  | call h => rw [h.1]

/-- A name means the same in both runs, and what it means is visible in the first. -/
theorem meaning {env env' : Env} (h : P.Surroundings env env') (name : String) :
    Option.Rel (P.correspondence.Meant env) ((env.scopes.find? name).map Symbol.meaning)
      ((env'.scopes.find? name).map Symbol.meaning) := by
  rw [h.scopes]
  cases found : (env.scopes.find? name).map Symbol.meaning with
  | none => exact .none
  | some meaning =>
    refine .some ?_
    cases meaning with
    | type type => exact .type type
    | localVar type slot frame =>
      refine .localVar fun inside => ⟨rfl, name, ?_⟩
      rw [found, inside]
    | function link signature => exact .function signature ⟨rfl, name, signature, found⟩

theorem Surroundings.frame {env env' : Env} (h : P.Surroundings env env') :
    env'.frame = env.frame := by
  rw [Env.frame, Env.frame, h.returns]

/-- The declarations of a run keep what is known of the scopes. -/
structure Keeps (P : SameText) : Prop where
  enter {s : Scopes} : P.Fit s → P.Fit s.enter := by exact fun _ => trivial
  declareLocal {s : Scopes} (name : String) (type : ValueType) (slot frame : Nat)
    (pos : Position) : P.Fit s → P.Fit (s.declare ⟨name, .localVar type slot frame, some pos⟩) := by
    exact fun _ _ _ _ _ _ => trivial
  declareFunction {s : Scopes} {name : String} (c : Counters) (signature : Signature)
    (pos : Position) : P.Fit s → P.correspondence.ReadsName name →
    P.Fit (s.declare (c.functionSymbol name signature pos)) := by exact fun _ _ _ _ _ => trivial
  noLoop : P.Loops none none := by rfl
  sameLoop (t : LoopTargets) : P.Loops (some t) (some t) := by exact fun _ => rfl

/-- Over one text, surroundings that stay fit obey all laws of surroundings. -/
theorem lawfulSettings (keeps : P.Keeps) : P.correspondence.LawfulSettings where
  returns henv := henv.returns
  strict _ := nofun
  meaning name henv := meaning henv name
  typeNamed := by
    rintro env env' t _ henv ⟨rfl, -⟩
    exact Env.typeNamed?_congr henv.scopes _
  bindsInnermost name henv := by
    rw [← henv.scopes]
    rfl
  enter henv :=
    ⟨keeps.enter henv.fit, congrArg Scopes.enter henv.scopes, henv.returns, henv.loop,
      henv.structural⟩
  declareLocal := by
    rintro env env' c _ pos _ name type henv rfl rfl
    refine ⟨keeps.declareLocal _ _ _ _ _ henv.fit, ?_, henv.returns, henv.loop, henv.structural⟩
    change Scopes.declare env'.scopes (env'.localSymbol _ name type _) = _
    rw [henv.scopes, Env.localSymbol_congr henv.frame]
  declareFunction := by
    rintro env env' c _ name pos _ signature henv rfl read rfl
    exact ⟨keeps.declareFunction _ _ _ henv.fit read, congrArg (Scopes.declare · _) henv.scopes,
      henv.returns, henv.loop, henv.structural⟩
  inBody ret henv :=
    ⟨keeps.enter henv.fit, congrArg Scopes.enter henv.scopes, congrArg (ret :: ·) henv.returns,
      keeps.noLoop, henv.structural⟩
  inLoop := by
    rintro env env' c _ henv rfl
    exact ⟨henv.fit, henv.scopes, henv.returns, keeps.sameLoop _, henv.structural⟩
  withLabel h := congrArg Counters.withLabel h
  withLocal h := congrArg Counters.withLocal h
  inFunction name h := congrArg (Counters.inFunction · name) h
  afterFunction := by
    rintro frame c _ d _ rfl rfl
    rfl

end Settings

/-! ## Claims about single events -/

/-- What a run gives out, event by event, and where it comes from. -/
inductive Given (P : SameText) : Event → Prop
  | emit {env env' : Env} {i : Instruction} (henv : P.Surroundings env env')
    (h : P.correspondence.Emitted env i i) : Given P (.emit i)
  | ret : Given P (.emit .ret)
  | jump (label : Nat) : Given P (.emit (.jump label))
  | jumpUnless (label : Nat) : Given P (.emit (.jumpUnless label))
  | mark (label : Nat) : Given P (.emit (.mark label))
  | report (severity : Severity) (pos : Position) (problem : Problem) :
    Given P (.report severity pos problem)
  | scope (change : Scopes.Change) : Given P (.scope change)
  | reserveLabel : Given P (.code .reserveLabel)
  | reserveLocal {name : String} {type : ValueType} (named : P.correspondence.ReadsName name)
    (typed : P.correspondence.ReadsType type) : Given P (.code (.reserveLocal name type))
  | openFunction {name : String} {param ret : ValueType} (c : Counters)
    (named : P.correspondence.ReadsName name) (takes : P.correspondence.ReadsType param)
    (gives : P.correspondence.ReadsType ret) :
    Given P (.code (.openFunction (c.linkName name) ⟨param, ret⟩))
  | closeFunction : Given P (.code .closeFunction)

/-- The claim that the events are related one by one. -/
def each (P : SameText) (R : Event → Event → Prop) : SameText :=
  { P with
    Passes := fun _ _ _ => List.Forall₂ R
    Fails := fun _ _ => List.Forall₂ R
    Closes := fun _ _ es es' _ _ => List.Forall₂ R es es' }

section Each

variable {P : SameText} {R : Event → Event → Prop}

/-- What has to hold of the single events. -/
structure Relates (P : SameText) (R : Event → Event → Prop) : Prop where
  given {e : Event} : (P.each R).Given e → R e e
  missing {a b : Severity} (pos : Position) (problem : Problem) :
    P.Severities a b → R (.report a pos problem) (.report b pos problem)
  resumed {F : List Event → List Event → Prop} {s s' : Tokens} {es es' : List Event} :
    P.Stream s s' → F es es' → (P.each R).correspondence.Resumed F s s' es es'

/-- Each event that a production gives out by itself is related to itself. -/
theorem Relates.all (h : P.Relates R) {es : List Event} (given : ∀ e ∈ es, (P.each R).Given e) :
    List.Forall₂ R es es :=
  List.forall₂_same.2 fun e mem => h.given (given e mem)

/-- A relation of single events that holds where it must obeys the laws of events. -/
theorem lawfulEvents (h : P.Relates R) : (P.each R).correspondence.LawfulEvents where
  nil := .nil
  append he hf := List.rel_append he hf
  append_fails he hf := List.rel_append he hf
  emit m henv emitted := by
    obtain rfl := eq_of_emitted emitted
    exact .cons (h.given (.emit henv emitted)) .nil
  ret := .cons (h.given .ret) .nil
  warn problem _ hp := by
    obtain rfl := hp
    rw [show problem.rename (P.each R).correspondence.name = problem from problem.rename_id]
    exact .cons (h.given (.report _ _ _)) .nil
  error problem _ hs hp := by
    obtain rfl := hp
    rw [show problem.rename (P.each R).correspondence.name = problem from problem.rename_id]
    exact h.resumed hs (.cons (h.given (.report _ _ _)) .nil)
  missing henv hs same _ := by
    obtain ⟨rfl, -⟩ := same
    exact h.resumed hs (.cons (h.missing _ _ henv.structural) .nil)

/-- And those of statements, if both runs jump to the same targets. -/
theorem lawfulStatements (h : P.Relates R) (loops : ∀ {a b}, P.Loops a b → b = a) :
    (P.each R).correspondence.LawfulStatements where
  loops {env env'} henv := by
    rw [Correspondence.Jumps, loops henv.loop]
    cases env.loop with
    | none => exact .none
    | some t => exact .some ⟨.cons (h.given (.jump _)) .nil, .cons (h.given (.jump _)) .nil⟩
  redeclaration {env env'} _ _ pos _ name _ henv hs hp := by
    obtain rfl := hp
    have same : redeclaration env' name pos = redeclaration env name pos := by
      rw [redeclaration, redeclaration, henv.scopes]
    refine h.resumed hs ?_
    change List.Forall₂ R _ (redeclaration env' name pos)
    rw [same]
    refine h.all ?_
    unfold redeclaration
    split <;> simp [Given.report]
  passed := id
  failed := id
  followed he hf := List.rel_append he hf
  block inner :=
    List.rel_append (.cons (h.given (.scope _)) inner) (.cons (h.given (.scope _)) .nil)
  declare {env env'} _ _ _ _ _ _ henv hc _ named typed hp := by
    obtain rfl := hc
    obtain rfl := hp
    refine .cons (h.given (.reserveLocal named typed)) (.cons ?_ .nil)
    rw [Env.localSymbol_congr henv.frame]
    exact h.given (.scope _)
  define {env env'} _ _ _ _ _ _ _ _ _ ret _ _ _ _ henv hc head inner := by
    obtain rfl := hc
    obtain ⟨pos, _, rfl, rfl, rfl⟩ := head.function
    obtain ⟨pos', _, rfl, rfl, rfl⟩ := head.symbol
    have same (f : Symbol) : (env'.inFunction f ret).frame = (env.inFunction f ret).frame :=
      congrArg (· + 1) henv.frame
    refine List.rel_append (List.rel_append ?_ inner) (h.all ?_)
    · rw [Env.localSymbol_congr (same _)]
      refine h.all ?_
      simp [Given.scope, Given.openFunction _ head.named head.takes head.gives,
        Given.reserveLocal head.read head.takes]
    · simp [Given.scope, Given.closeFunction]
  ifThen hc test inner := by
    obtain rfl := hc
    refine List.rel_append (List.rel_append (List.rel_append test (h.all ?_)) inner) (h.all ?_)
    · simp [Given.reserveLabel, Given.jumpUnless]
    · simp [Given.mark]
  ifElse hc test inner hc' other := by
    obtain rfl := hc
    obtain rfl := hc'
    refine List.rel_append (List.rel_append (List.rel_append
      (List.rel_append (List.rel_append test (h.all ?_)) inner) (h.all ?_)) other) (h.all ?_)
    · simp [Given.reserveLabel, Given.jumpUnless]
    · simp [Given.reserveLabel, Given.jump, Given.mark]
    · simp [Given.mark]
  loop hc test inner := by
    obtain rfl := hc
    refine List.rel_append (List.rel_append (List.rel_append
      (List.rel_append (h.all ?_) test) (h.all ?_)) inner) (h.all ?_)
    · simp [Given.reserveLabel, Given.mark]
    · simp [Given.jumpUnless]
    · simp [Given.jump, Given.mark]
  failedLoop hc test := by
    obtain rfl := hc
    refine List.rel_append (List.rel_append (h.all ?_) test) (h.all ?_)
    · simp [Given.reserveLabel, Given.mark]
    · simp [Given.mark]

end Each

end SameText

/-! ## Failures are reported -/

/-- An attempt that is given up where a missing symbol is an error has reported an error. -/
def reporting : SameText where
  Fails env _ es _ := env.structural = .error → Faulty es

theorem reporting_lawful : reporting.correspondence.Lawful where
  toLawfulSettings := SameText.lawfulSettings {}
  guise := SameText.same_lawful fun _ => trivial
  nil := trivial
  append _ _ := trivial
  append_fails _ fails strict := (fails strict).right _
  emit _ _ _ := trivial
  ret := trivial
  warn _ _ _ := trivial
  error _ _ hs _ := SameText.same_resumed hs fun _ => .head _ _ _
  missing henv hs _ _ := SameText.same_resumed hs fun strict => by
    rw [strict]
    exact .head _ _ _

/-- **No silent failure**: an expression without a value has reported an error, as long as
structural problems are errors. -/
theorem expression_reports {env : Env} (strict : env.structural = .error) {s : Tokens}
    (failed : (expression env s).value = none) : Faulty (expression env s).events := by
  have stream : reporting.correspondence.Stream s s := ⟨rfl, fun _ _ => trivial⟩
  obtain ⟨-, tried⟩ := (Correspondence.expression_matches reporting_lawful
    (SameText.Surroundings.refl env trivial rfl rfl) stream 0).resolve_left id
  rw [failed] at tried
  cases tried with
  | failure fails => exact fails strict

end OnePass
