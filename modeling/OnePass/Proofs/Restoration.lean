import OnePass.Proofs.Stateful.Statement

/-!
# Restoration

Whatever a production reads and wherever it fails, it leaves open what it found open. A statement
gives back the scopes as they were, the loops and the return types around it, and the functions of
the draft, of which only the innermost one may have grown. A declaration adds at most one symbol to
the innermost scope. An expression only adds code.

The runs are those on the state; each mirrors the production of the same name, so this is about the
productions that compile a program.
-/

namespace OnePass

/-- The functions open in `d'` are those open in `d`; the innermost one may have more locals and
code. -/
def Draft.SameOpen (d d' : Draft) : Prop :=
  ∃ p : Piece, d'.opened = (d.extend p).opened ∧ d'.entry = (d.extend p).entry

theorem Builds.sameOpen {es : List Event} {p : Piece} (h : Builds es p) (d : Draft) :
    d.SameOpen (d.replay es) := by
  obtain ⟨marks, hd⟩ := h d
  exact ⟨p, by rw [hd], by rw [hd]⟩

def Event.instruction? : Event → Option Instruction
  | .code (.emit i) => some i
  | _ => none

def instructions (es : List Event) : List Instruction := es.filterMap Event.instruction?

@[simp] theorem instructions_append (es fs : List Event) :
    instructions (es ++ fs) = instructions es ++ instructions fs := List.filterMap_append

@[simp] theorem instructions_emits (is : List Instruction) :
    instructions (Event.emits is) = is := by
  induction is with
  | nil => rfl
  | cons i is ih => exact congrArg (i :: ·) ih

@[simp] theorem instructions_emit (i : Instruction) : instructions [.emit i] = [i] := rfl

/-- Quiet events only add their instructions. -/
theorem Quiet.replay_instructions {env : Env} {es : List Event} (h : Quiet env es) (d : Draft) :
    d.replay es = d.extend { code := instructions es } := by
  induction h generalizing d with
  | nil => exact d.extend_empty.symm
  | report severity pos problem _ ih => exact ih d
  | @emit es i permitted _ ih =>
    -- A mark is not permitted, so no label is counted.
    have marks : Draft.marksAfter d.marks i = (d.extend { code := [i] }).marks := by
      have kept : (d.extend { code := [i] }).marks = d.marks := d.marks_modifyCurrent _
      rw [kept]
      cases i with
      | mark label => cases permitted
      | _ => rfl
    have unmarked : d.emit i = d.extend { code := [i] } := by
      rw [Draft.emit_eq, marks]
    rw [Draft.replay_emit, unmarked, ih, ← Draft.extend_append, Piece.code_append_code]
    rfl

/-- Quiet events only add code. -/
theorem Quiet.replay_draft {env : Env} {es : List Event} (h : Quiet env es) (d : Draft) :
    ∃ is, d.replay es = d.extend { code := is } :=
  ⟨instructions es, h.replay_instructions d⟩

/-- What was open is open again, and nothing else; the scopes are not spoken of here. -/
structure State.Restored (st st' : State) : Prop where
  loops : st'.loops = st.loops
  returns : st'.returns = st.returns
  functions : st.draft.SameOpen st'.draft

/-- Nothing is changed but the code of the innermost function, the reports and the log. -/
structure State.OnlyEmitted (st st' : State) : Prop where
  scopes : st'.scopes = st.scopes
  loops : st'.loops = st.loops
  returns : st'.returns = st.returns
  defined : st'.defined = st.defined
  draft : ∃ is, st'.draft = st.draft.extend { code := is }

/-- A run on the state that reads what a production reads, and logs the events it gives out. -/
def Move.Mirrors {s : Tokens} {α β : Type} (y : Move s β) (st : State) (x : Run s α) : Prop :=
  y.rest = x.rest ∧
    ∃ entries, y.state.log = st.log ++ entries ∧ entries.map Entry.event = x.events

/-- A run that performs a production mirrors it, and restores what its trace does. -/
theorem Move.Enacts.restored {s : Tokens} {α β : Type} {y : Move s β} {source : List Token}
    {st : State} {x : Run s α} {out : α → Declared} {view : α → β}
    (h : y.Enacts source st x out view)
    (ht : x.Traced st.env st.counters out) :
    y.Mirrors st x ∧ st.Restored y.state ∧ y.state.scopes = (out x.value).scopes := by
  obtain ⟨p, hp, -⟩ := ht.builds
  have functions := hp.sameOpen st.draft
  have scopes := ht.replay_scopes
  obtain ⟨-, hrest, entries, hstate, hevents, -⟩ := h
  rw [← hevents] at functions scopes
  rw [Move.Mirrors, hstate]
  exact ⟨⟨hrest, entries, rfl, hevents⟩, ⟨rfl, rfl, functions⟩, scopes⟩

/-- A run that mirrors an attempt and only emits. -/
def Move.OnlyEmits {s : Tokens} {α β : Type} (y : Move s (Option β)) (st : State)
    (x : Attempt s α) : Prop :=
  y.Mirrors st x ∧ st.OnlyEmitted y.state

theorem Move.Copies.onlyEmits {s : Tokens} {α β : Type} {y : Move s (Option β)}
    {source : List Token} {st : State} {x : Attempt s α} {R : β → α → Prop}
    (h : y.Copies source st.env st x R)
    (quiet : Quiet st.env x.events) : y.OnlyEmits st x := by
  obtain ⟨-, -, hrest, entries, hstate, hevents, -⟩ := h
  rw [← hevents] at quiet
  rw [Move.OnlyEmits, Move.Mirrors, hstate]
  exact ⟨⟨hrest, entries, rfl, hevents⟩,
    ⟨quiet.replay_scopes st.scopes, rfl, rfl, rfl, quiet.replay_draft st.draft⟩⟩

theorem definition_scopes (env : Env) (c : Counters) (ret : ValueType) (name : String)
    (pos : Position) (s : Tokens) :
    (definition env c ret name pos s).value.scopes = env.scopes ∨
      ∃ symbol, (definition env c ret name pos s).value.scopes = env.scopes.declare symbol := by
  rw [definition]
  cases hv : (parameter env s).value with
  | none => exact .inl (by simp [hv])
  | some p => exact .inr ⟨c.functionSymbol name ⟨p.type, ret⟩ pos, by simp [hv]; rfl⟩

/-- A declaration hands on the scopes as they were, or with one symbol more. -/
theorem declaration_scopes (env : Env) (c : Counters) (type : ValueType) (s : Tokens) :
    (declaration env c type s).value.scopes = env.scopes ∨
      ∃ symbol, (declaration env c type s).value.scopes = env.scopes.declare symbol := by
  rw [declaration]
  cases hv : (identifier s).value with
  | none => exact .inl (by simp [hv])
  | some x =>
    simp only [Run.value_bind, hv]
    split
    · exact .inl rfl
    · cases (identifier s).rest.symbol? "(" with
      | none => exact .inr ⟨env.localSymbol c x.1 type x.2, rfl⟩
      | some tail => exact definition_scopes env c type x.1 x.2 tail.stream

/-- From every state and on every stream, on success and on failure alike, a production restores
what is scoped. -/
theorem productions_restore :
    -- A statement gives back scopes, loops, return types and open functions.
    (∀ (st : State) (s : Tokens),
      let y := (Stateful.statement st s).1
      y.Mirrors st (statement st.env st.counters s).1 ∧ st.Restored y.state ∧
        y.state.scopes = st.scopes) ∧
    -- A declaration adds at most one symbol, to the innermost scope.
    (∀ (st : State) (type : ValueType) (s : Tokens),
      let y := Stateful.declaration st type s
      y.Mirrors st (declaration st.env st.counters type s) ∧ st.Restored y.state ∧
        (y.state.scopes = st.scopes ∨ ∃ symbol, y.state.scopes = st.scopes.declare symbol)) ∧
    -- Expressions and their parts only emit.
    (∀ (st : State) (s : Tokens),
      (Stateful.expression st s).OnlyEmits st (expression st.env s) ∧
      (Stateful.additive st s).OnlyEmits st (additive st.env s) ∧
      (∀ lhs, (Stateful.additiveRest st lhs s).OnlyEmits st (additiveRest st.env lhs s)) ∧
      (Stateful.multiplicative st s).OnlyEmits st (multiplicative st.env s) ∧
      (∀ lhs, (Stateful.multiplicativeRest st lhs s).OnlyEmits st
        (multiplicativeRest st.env lhs s)) ∧
      (Stateful.simple st s).OnlyEmits st (simple st.env s) ∧
      (∀ negative, (Stateful.signed st negative s).OnlyEmits st (signed st.env negative s)) ∧
      (Stateful.primary st s).OnlyEmits st (primary st.env s) ∧
      (∀ name pos, (Stateful.named st name pos s).OnlyEmits st (named st.env name pos s)) ∧
      (Stateful.condition st s).OnlyEmits st (condition st.env s)) ∧
    -- So after a whole program only the primitive types are new, and only the entry is open.
    (∀ (structural : Severity) (scopes : Scopes) (s : Tokens),
      let y := Stateful.parse structural scopes s
      let pass := Pass.run structural scopes s
      y.rest = pass.rest ∧ y.state.log.map Entry.event = pass.events ∧
        y.state.draft = Draft.replay {} pass.events ∧
        y.state.scopes = { scopes with
          base := (ValueType.primitives.map fun (name, type) => ⟨name, .type type, none⟩).reverse ++
            scopes.base } ∧
        y.state.loops = [] ∧ y.state.returns = [] ∧ y.state.draft.opened = []) := by
  refine ⟨?_, ?_, ?_, ?_⟩
  · intro st s
    exact (statement_performs _ _ rfl rfl s (List.Subset.refl _)).restored (statement_traced _ _ s)
  · intro st type s
    obtain ⟨mirrors, restored, scopes⟩ :=
      (declaration_performs _ _ rfl rfl type s (List.Subset.refl _)).restored
        (declaration_traced _ _ type s)
    refine ⟨mirrors, restored, ?_⟩
    rw [scopes]
    exact declaration_scopes st.env st.counters type s
  · intro st s
    have all : s.front ⊆ s.front := List.Subset.refl _
    have cited (name : String) (pos : Position) :
        (⟨name, pos⟩ : Mention).StandsIn (⟨.ident name, pos⟩ :: s.front) := List.mem_cons_self
    exact ⟨(expression_follows _ rfl s all).onlyEmits (expression_quiet _ s),
      (additive_follows _ rfl s all).onlyEmits (additive_quiet _ s),
      fun lhs => (additiveRest_follows _ rfl lhs s all).onlyEmits (additiveRest_quiet _ lhs s),
      (multiplicative_follows _ rfl s all).onlyEmits (multiplicative_quiet _ s),
      fun lhs =>
        (multiplicativeRest_follows _ rfl lhs s all).onlyEmits (multiplicativeRest_quiet _ lhs s),
      (simple_follows _ rfl s all).onlyEmits (simple_quiet _ s),
      fun negative => (signed_follows _ rfl negative s all).onlyEmits (signed_quiet _ negative s),
      (primary_follows _ rfl s all).onlyEmits (primary_quiet _ s),
      fun name pos => (named_follows _ rfl (cited name pos) s (List.subset_cons_self _ _)).onlyEmits
        (named_quiet _ name pos s),
      (condition_follows rfl s all).onlyEmits (condition_quiet _ s)⟩
  · intro structural scopes s
    have traced := program_traced { scopes := scopes.withPrimitives, structural } {} s
    obtain ⟨-, restored, left⟩ :=
      (parse_performs structural scopes s (List.Subset.refl _)).restored traced
    obtain ⟨rest, events, draft, -⟩ := parse_log structural scopes s
    obtain ⟨p, opened, -⟩ := restored.functions
    exact ⟨rest, events, draft, left, restored.loops, restored.returns, opened⟩

end OnePass
