import OnePass.Proofs.Parallel.Transfer

/-!
# Programs side by side

A transfer is a lawful correspondence of runs. They part where the first run has reported an error
and the second one may have more tokens to read, or where the first one has used up its tokens and a
decision depends on the next. A statement, a block and a declaration end with a token of their own,
so behind them the first run is never lost in the second way; only the branch of an `else` depends
on the token behind a statement, and no `else` comes first among the tokens that the second pass has
behind those of the first.

So two passes over corresponding tokens do corresponding things, and a pass over tokens with more
behind them does what a pass without errors does over the former, and then goes on with the rest.
-/

namespace OnePass

namespace Transfer

def correspondence (ρ : Transfer) : Correspondence where
  name := ρ.name
  Pos := ρ.pos
  Tok := Token.Carried ρ
  Stream := Tokens.Carried ρ
  Lost := Tokens.Lost ρ
  Parted ends es r _ := ρ.more ≠ [] ∧ (Faulty es ∨ ends = true ∧ r.front = [])
  Surroundings := Env.Carried ρ
  Slot env _ slot slot' := slot' = slot + ρ.shift env.frame
  Link _ := ρ.Links
  Counted := Counters.Carried ρ
  Passes env _ _ := ρ.Carries env.frame
  Fails env _ := ρ.Carries env.frame
  Closes env _ es es' _ _ := ρ.Carries env.frame es es'

variable {ρ : Transfer}

/-! ## Streams -/

theorem ahead {s s' : Tokens} (hs : s.Carried ρ s') : ρ.correspondence.Ahead s s' := by
  by_cases lost : s.Lost ρ
  · exact .lost lost
  · rcases hs.uncons lost with ⟨done, done'⟩ | ⟨t, r, t', r', next, next', same, rest⟩
    · exact .neither done done' (hs.current lost)
    · exact .both next next' same rest

/-- No `else` is found behind the end of the first stream. -/
theorem keyword_else_of_lost {s s' : Tokens} (hs : s.Carried ρ s') (lost : s.Lost ρ) :
    s'.keyword? "else" = none := by
  obtain ⟨front, final⟩ := s
  obtain ⟨front', final'⟩ := s'
  obtain rfl : front = [] := lost.2
  obtain ⟨ts, rfl, carried⟩ := hs.front
  cases carried
  have noElse := ρ.noElse
  cases more : ρ.more with
  | nil => exact absurd more lost.1
  | cons t ts =>
    rw [more] at noElse
    have other : t.isKeyword "else" = false := by
      simpa [Token.isKeyword] using noElse t rfl
    cases eof : t.isEof <;> simp [Tokens.keyword?, Tokens.skip?, Tokens.uncons?, eof, other]

theorem lawfulGuise (ρ : Transfer) : ρ.correspondence.toGuise.Lawful where
  kind := Token.Carried.kind
  pos := Token.Carried.pos
  ahead := ahead
  lost_front := And.right
  lost_parts lost reaches why :=
    ⟨lost.1, why.symm.imp id fun ends => ⟨ends, reaches.front_eq_nil lost.2⟩⟩
  lost_else := keyword_else_of_lost
  parted_mono parted := ⟨parted.1, .inl (parted.2.resolve_right nofun)⟩
  shut := by
    rintro es r r' ⟨more, faulty | ⟨-, used⟩⟩
    · exact .inl fun _ => ⟨more, .inl faulty⟩
    · exact .inr ⟨more, used⟩
  parted_left parted reaches _ :=
    ⟨parted.1, parted.2.imp (·.left _) (And.imp id reaches.front_eq_nil)⟩
  parted_right parted := ⟨parted.1, parted.2.imp (·.right _) id⟩

/-- Reports, one of them an error where the first run may get lost. -/
theorem resumed {frame : Nat} {s s' : Tokens} {es es' : List Event} (hs : s.Carried ρ s')
    (he : ρ.Carries frame es es') (error : ρ.more ≠ [] → Faulty es) :
    ρ.correspondence.Resumed (ρ.Carries frame) s s' es es' := by
  by_cases more : ρ.more = []
  · exact .inr ⟨hs.resume more, he⟩
  · exact .inl fun _ => ⟨more, .inl (error more)⟩

/-! ## Surroundings -/

theorem meant {env env' : Env} (henv : env.Carried ρ env') (name : String) :
    Option.Rel (ρ.correspondence.Meant env) ((env.scopes.find? name).map Symbol.meaning)
      ((env'.scopes.find? (ρ.name name)).map Symbol.meaning) := by
  have found := henv.scopes.find? name
  generalize env.scopes.find? name = o at found ⊢
  generalize env'.scopes.find? (ρ.name name) = o' at found ⊢
  cases found with
  | none => exact .none
  | @some y y' same =>
    have meaning := same.meaning
    refine .some ?_
    generalize y.meaning = m at meaning ⊢
    generalize y'.meaning = m' at meaning ⊢
    cases meaning with
    | type type => exact .type type
    | localVar type slot frame => exact .localVar fun inside => by rw [inside]; rfl
    | function links signature => exact .function signature links

theorem links_of_readsName {frame : Nat} {c c' : Counters} (hc : c.Carried ρ frame c')
    {name : String} (read : ρ.correspondence.ReadsName name) :
    ρ.Links (c.linkName name) (c'.linkName (ρ.name name)) := by
  obtain ⟨t, _, carried, kind⟩ := read
  exact hc.links ⟨name, carried.named name kind⟩

theorem lawfulSettings (ρ : Transfer) : ρ.correspondence.LawfulSettings where
  returns := Env.Carried.returns
  strict henv lost := henv.strict lost.1
  meaning name henv := meant henv name
  typeNamed henv := henv.typeNamed?
  bindsInnermost name henv := henv.scopes.bindsInnermost name
  enter henv := henv.withScopes henv.scopes.enter
  declareLocal name type henv hc hp :=
    henv.withScopes (henv.scopes.declare (henv.localSymbol hc name type hp))
  declareFunction signature henv hc read hp :=
    henv.withScopes (henv.scopes.declare
      ⟨rfl, .function (links_of_readsName hc read) signature, .some hp⟩)
  inBody ret henv :=
    ⟨henv.scopes.enter, rfl, congrArg (ret :: ·) henv.returns, henv.structural, henv.strict⟩
  inLoop henv hc := henv.inLoop hc
  withLabel := Counters.Carried.withLabel
  withLocal := Counters.Carried.withLocal
  inFunction name h := h.inFunction name
  afterFunction hc hd := ⟨hd.labels, hc.locals, hd.defined⟩

/-! ## Events -/

theorem carried_of_isInert {i : Instruction} {shift : Nat} (h : i.isInert) :
    i.Carried ρ shift i := by
  cases i <;> first | rfl | cases h

theorem carried_of_emitted {env : Env} {i i' : Instruction}
    (h : ρ.correspondence.Emitted env i i') : i.Carried ρ (ρ.shift env.frame) i' := by
  cases h with
  | fixed h => exact carried_of_isInert h.isInert
  | literal _ h => exact carried_of_isInert (Token.Kind.isInert_literal h)
  | signedLiteral _ h => exact carried_of_isInert (Token.Kind.isInert_signedLiteral h)
  | load same => exact congrArg _ same
  | store same => exact congrArg _ same
  | call links => exact ⟨_, links, rfl⟩

theorem lawfulEvents (ρ : Transfer) : ρ.correspondence.LawfulEvents where
  nil := .nil
  append := .append
  append_fails := .append
  emit _ _ emitted := .emit (carried_of_emitted emitted) .nil
  ret := .emit rfl .nil
  warn problem _ hp := .report .warning hp problem
  error problem _ hs hp := resumed hs (.report .error hp problem) fun _ => .head _ _ _
  missing {env env' s s' m text t t'} henv hs same _ := by
    rw [henv.structural, same.kind]
    refine resumed hs (.report _ same.pos (.unexpected (.symbol text) t.kind)) fun more => ?_
    rw [henv.strict more]
    exact .head _ _ _

theorem redeclaration_carries {ρ : Transfer} {env env' : Env} (henv : env.Carried ρ env')
    (name : String) {pos pos' : Position} (hp : ρ.pos pos pos') {frame : Nat} :
    ρ.Carries frame (redeclaration env name pos) (redeclaration env' (ρ.name name) pos') := by
  refine .append (.report .error hp (.redeclared name)) ?_
  have found := henv.scopes.find? name
  generalize env.scopes.find? name = o at found ⊢
  generalize env'.scopes.find? (ρ.name name) = o' at found ⊢
  cases found with
  | none => exact .nil
  | @some y y' same =>
    have declared := same.declared
    simp only [Option.bind_some]
    generalize y.declared = v at declared ⊢
    generalize y'.declared = v' at declared ⊢
    cases declared with
    | none => exact .nil
    | some hp => exact .report .note hp (.previousDeclaration name)

theorem lawful (ρ : Transfer) : ρ.correspondence.LawfulProgram where
  guise := ρ.lawfulGuise
  toLawfulSettings := ρ.lawfulSettings
  toLawfulEvents := ρ.lawfulEvents
  loops {env env'} henv := by
    rw [Correspondence.Jumps, henv.loop]
    cases env.loop with
    | none => exact .none
    | some t => exact .some ⟨.emit rfl .nil, .emit rfl .nil⟩
  redeclaration name _ henv hs hp :=
    resumed hs (redeclaration_carries henv name hp) fun _ => .head _ _ _
  passed := id
  failed := id
  followed := .append
  block inner := .append (.scope _ _ inner) (.scope _ _ .nil)
  declare {_ _ _ _ name type _ _} _ _ _ _ _ _ := .reserveLocal name type (.scope _ _ .nil)
  define _ hc head inner := .definition (links_of_readsName hc head.named) _ _ _ inner
  ifThen hc test inner := by
    rw [hc.labels]
    exact .append (.append (.append test (.reserveLabel (.emit rfl .nil))) inner) (.emit rfl .nil)
  ifElse hc test inner hc₁ other := by
    rw [hc.labels, hc₁.labels]
    exact .append (.append (.append (.append (.append test (.reserveLabel (.emit rfl .nil))) inner)
      (.reserveLabel (.emit rfl (.emit rfl .nil)))) other) (.emit rfl .nil)
  loop hc test inner := by
    rw [hc.labels, Nat.add_right_comm]
    exact .append (.append (.append (.append (.reserveLabel (.reserveLabel (.emit rfl .nil))) test)
      (.emit rfl .nil)) inner) (.emit rfl (.emit rfl .nil))
  failedLoop hc test := by
    rw [hc.labels, Nat.add_right_comm]
    exact .append (.append (.reserveLabel (.reserveLabel (.emit rfl .nil))) test) (.emit rfl .nil)

end Transfer

/-! ## Programs -/

section Programs

open Correspondence

variable {ρ : Transfer}

/-- Passes over corresponding tokens do corresponding things. -/
theorem program_carries (none : ρ.more = []) {env env' : Env} (henv : env.Carried ρ env')
    {c c' : Counters} (hc : c.Carried ρ env.frame c') {s s' : Tokens} (hs : s.Carried ρ s') :
    ρ.Carries env.frame (program env c s).events (program env' c' s').events := by
  rcases program_matches ρ.lawful henv hc hs with ⟨more, -⟩ | ⟨-, same⟩
  · exact absurd none more
  · exact same.events

/-- A pass without errors is the beginning of every pass that has more tokens to read. -/
theorem program_continues {env env' : Env} (henv : env.Carried ρ env') {c c' : Counters}
    (hc : c.Carried ρ env.frame c') {s s' : Tokens} (hs : s.Carried ρ s')
    (noEof : ∀ t ∈ s.front, t.isEof = false) (proper : ¬ Faulty (program env c s).events) :
    ∃ es c₁, ρ.Carries env.frame (program env c s).events es ∧
      (program env c s).value.Carried ρ env.frame c₁ ∧
      (program env' c' s').events = es ++ (program env' c₁ ⟨ρ.more, s'.final⟩).events := by
  rw [program] at proper ⊢
  split at proper
  · rename_i atEnd
    rw [dif_pos atEnd]
    have used : s.front = [] := by
      obtain ⟨front, final⟩ := s
      cases front with
      | nil => rfl
      | cons t ts => exact absurd ((noEof t List.mem_cons_self).symm.trans atEnd) Bool.false_ne_true
    obtain ⟨ts, front, carried⟩ := hs.front
    rw [used] at carried
    cases carried
    obtain ⟨front', final'⟩ := s'
    obtain rfl : front' = ρ.more := front
    exact ⟨[], c', .nil, hc, rfl⟩
  · rename_i going
    rw [dif_neg going]
    have shorter := (statement env c s).2 (by simpa using going)
    have found : ¬ s.Lost ρ := fun lost => by
      obtain ⟨front, final⟩ := s
      obtain rfl : front = [] := lost.2
      exact going rfl
    have going' : ¬ s'.atEnd = true := by
      rw [Tokens.atEnd, (hs.current found).isEof]
      exact going
    rcases statement_matches ρ.lawful henv hc hs with ⟨-, faulty | ⟨open_, -⟩⟩ | ⟨rest, first⟩
    · exact absurd (faulty.left _) proper
    · cases open_
    · obtain ⟨passed, front, -, -⟩ := (statement env c s).1.reaches
      obtain ⟨es, c₁, carries, counters, events⟩ := program_continues henv first.counters
        rest (fun t mem => noEof t (by rw [front]; exact List.mem_append_right _ mem))
        (fun faulty => proper (faulty.right _))
      refine ⟨_, c₁, Transfer.Carries.append first.events carries, counters, ?_⟩
      obtain ⟨-, -, -, final⟩ := (statement env' c' s').1.reaches
      rw [program, dif_neg going', List.append_assoc, ← final, ← events]
      rfl
termination_by s.left
decreasing_by all_goals omega

end Programs

end OnePass
