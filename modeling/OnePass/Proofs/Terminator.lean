import OnePass.Proofs.CallTree
import OnePass.Proofs.Recognition.Expression
import OnePass.Proofs.Severity
import OnePass.Proofs.Translation
import OnePass.Proofs.Truncation

/-!
# A missing last terminator

A program that is accepted and ends with a terminator is compiled without it as well, if a missing
terminator is only a warning. The statement that it ended is given up, but its code has been given
out before the terminator was looked for, and the constructs around it give out their last
instructions all the same. Jumps are the exception: they are given out behind their terminator, so
without it they are lost. Main theorem `run_unterminated`.
-/

namespace OnePass

/-! ## The last statement -/

/-- The statement that begins at a stream ends with the simple statement that begins at `l`, which
has the surroundings `inner`. -/
inductive EndsWith : Env → Counters → Tokens → Env → Tokens → Prop
  | simple {env : Env} {c : Counters} {s : Tokens} (noBlock : s.symbol? "\x7b" = none)
    (noIf : s.keyword? "if" = none) (noWhile : s.keyword? "while" = none) : EndsWith env c s env s
  | ifThen {env inner : Env} {c : Counters} {s l : Tokens} {q : s.Tail}
    (read : s.keyword? "if" = some q)
    (noElse :
      (statement env c.withLabel (condition env q.stream).rest).1.rest.keyword? "else" = none)
    (last : EndsWith env c.withLabel (condition env q.stream).rest inner l) :
    EndsWith env c s inner l
  | ifElse {env inner : Env} {c : Counters} {s l : Tokens} {q : s.Tail}
    (read : s.keyword? "if" = some q) {o : Run (condition env q.stream).rest Outcome}
    (first : o = (statement env c.withLabel (condition env q.stream).rest).1) {p : o.rest.Tail}
    (read' : o.rest.keyword? "else" = some p)
    (last : EndsWith env o.value.counters.withLabel p.stream inner l) : EndsWith env c s inner l
  | loop {env inner : Env} {c : Counters} {s l : Tokens} {q : s.Tail}
    (read : s.keyword? "while" = some q)
    (last : EndsWith (env.inLoop c) c.withLabel.withLabel (condition env q.stream).rest inner l) :
    EndsWith env c s inner l

/-- The last statement of the program that begins at a stream ends with the simple statement that
begins at `l`, which has the surroundings `inner`. -/
inductive LastStatement : Env → Counters → Tokens → Env → Tokens → Prop
  | last {env inner : Env} {c : Counters} {s l : Tokens}
    (done : (statement env c s).1.rest.atEnd = true) (ends : EndsWith env c s inner l) :
    LastStatement env c s inner l
  | later {env inner : Env} {c : Counters} {s l : Tokens}
    (going : (statement env c s).1.rest.atEnd = false)
    (behind : LastStatement env (statement env c s).1.value.counters (statement env c s).1.rest
      inner l) :
    LastStatement env c s inner l

/-- The code of a simple statement that is given out behind its terminator. -/
def Env.jump (env : Env) (first : Token) : List Instruction :=
  if first.isKeyword "break" then ((env.loop.map LoopTargets.exit).map .jump).toList
  else if first.isKeyword "continue" then ((env.loop.map LoopTargets.next).map .jump).toList
  else []

/-! ## Runs without errors -/

/-- What goes on at the end of the input with something that cannot be found there. -/
theorem Run.Gains.faulty_of_atEnd {s : Tokens} {α β : Type} {P : α → Tokens → Prop}
    {x : Attempt s α} {f : (r : Tokens) → r.left ≤ s.left → α → Attempt r β} (hx : x.Gains P)
    (ends : s.atEnd = true) (needs : ∀ r h a, r.atEnd = true → Faulty (f r h a).events) :
    Faulty (x.andThen f).events := by
  by_cases clean : Faulty x.events
  · exact clean.andThen f
  · obtain ⟨a, value, -⟩ := hx clean
    rw [(Run.andThen_of_some value f).1]
    exact (needs _ _ a (x.reaches.atEnd ends)).right _

section Clean

variable {env : Env} (strict : env.structural = .error)

include strict

theorem expression_yields (s : Tokens) : (expression env s).Gains fun _ _ => True := by
  intro clean
  cases value : (expression env s).value with
  | none => exact absurd (expression_reports strict value) clean
  | some type => exact ⟨type, rfl, trivial⟩

theorem condition_yields (s : Tokens) : (condition env s).Gains fun _ _ => True := by
  refine .andThen (expect_gains strict "(" s) ?_
  rintro q - _ -
  refine .andThen (expression_yields strict q) ?_
  rintro r - type -
  split
  · exact .imp (expect_gains strict ")" r) fun _ _ _ => trivial
  · exact .fail _ _

/-- At the end of the input no symbol is found. -/
theorem faulty_expect_of_atEnd {s : Tokens} (ends : s.atEnd = true) (symbol : String) :
    Faulty (expect env symbol s).events := by
  have eof : s.current.kind = .eof := of_decide_eq_true ends
  exact expect_faulty strict (by simp [eof])

end Clean

/-- At the end of the input no statement is found. -/
theorem faulty_statement_of_atEnd (env : Env) (c : Counters) {s : Tokens} (ends : s.atEnd = true) :
    Faulty (statement env c s).1.events := by
  have eof : s.current.kind = .eof := of_decide_eq_true ends
  rw [statement_of_none (Tokens.symbol?_eq_none (by simp [eof]))
    (Tokens.keyword?_eq_none (by simp [eof])) (Tokens.keyword?_eq_none (by simp [eof])),
    simpleStatement, (Tokens.uncons?_eq_none_iff s).2 ends]
  exact .head _ _ _

/-! ## What is lost with the terminator -/

/-- Where nothing is an error, no severity changes. -/
theorem eq_of_relabeled {b : Severity} {es fs : List Event}
    (h : List.Forall₂ (Event.Relabeled .error b) es fs) (clean : ¬ Faulty es) : fs = es := by
  induction h with
  | nil => rfl
  | cons first _ ih =>
    cases first with
    | same => rw [ih fun faulty => clean (faulty.right [_])]
    | report pos problem => exact absurd (Faulty.head _ _ _) clean

/-- The run reports no error, and reads the input to its end. -/
structure Run.Completes {t : Tokens} {α : Type} (y : Run t α) : Prop where
  clean : ¬ Faulty y.events
  done : y.rest.atEnd = true

namespace Run.Completes

variable {t r : Tokens} {α β : Type}

theorem next {y : Run t α} {g : (r : Tokens) → r.left ≤ t.left → α → Run r β}
    (h : (y.bind g).Completes) : (g y.rest y.left_rest_le y.value).Completes :=
  ⟨fun faulty => h.clean (faulty.right _), h.done⟩

theorem of_after {es : List Event} {y : Run t α} (h : (Run.after es y).Completes) : y.Completes :=
  ⟨fun faulty => h.clean (faulty.right es), h.done⟩

theorem of_reached {h : t.Reaches r} {y : Run r α} (hy : (Run.reached h y).Completes) :
    y.Completes :=
  ⟨hy.clean, hy.done⟩

end Run.Completes

/-- The first run, on the stream without its terminator, does what the second one does, but reports
the missing terminator in place of the instructions `lost`, and then comes to its end. -/
structure Run.Misses {s t : Tokens} {α β : Type} (x : Run s α) (y : Run t β)
    (lost : List Instruction) (b : Severity) : Prop where
  events : ∃ before p pos after, Builds before p ∧
    y.events = before ++ Event.emits (lost ++ after) ∧
    x.events = before ++ .report b pos (.unexpected (.symbol ";") .eof) :: Event.emits after
  rest : x.rest.atEnd = true

namespace Run.Misses

variable {s t q r : Tokens} {α α' β β' : Type} {lost : List Instruction} {b : Severity}

theorem reached {h : s.Reaches q} {h' : t.Reaches r} {x : Run q α} {y : Run r α'}
    (hx : x.Misses y lost b) : (Run.reached h x).Misses (Run.reached h' y) lost b :=
  ⟨hx.events, hx.rest⟩

/-- Both runs give out the same events first. -/
theorem after {es : List Event} {p : Piece} (builds : Builds es p) {x : Run s α} {y : Run t α'}
    (hx : x.Misses y lost b) : (Run.after es x).Misses (Run.after es y) lost b := by
  obtain ⟨before, p', pos, after, builds', events, events'⟩ := hx.events
  refine ⟨⟨es ++ before, p ++ p', pos, after, builds.append builds', ?_, ?_⟩, hx.rest⟩
  · rw [Run.events_after, events, List.append_assoc]
  · rw [Run.events_after, events', List.append_assoc]

/-- Both runs give out the same instructions at last. -/
theorem bind {x : Run s α} {y : Run t α'} {f : (r : Tokens) → r.left ≤ s.left → α → Run r β}
    {g : (r : Tokens) → r.left ≤ t.left → α' → Run r β'} (hx : x.Misses y lost b)
    (is : List Instruction)
    (hf : (f x.rest x.left_rest_le x.value).events = Event.emits is)
    (hg : (g y.rest y.left_rest_le y.value).events = Event.emits is) :
    (x.bind f).Misses (y.bind g) lost b := by
  obtain ⟨before, p, pos, after, builds, events, events'⟩ := hx.events
  refine ⟨⟨before, p, pos, after ++ is, builds, ?_, ?_⟩, ?_⟩
  · rw [Run.events_bind, hg, events]
    simp [Event.emits]
  · rw [Run.events_bind, hf, events']
    simp [Event.emits]
  · exact (f x.rest x.left_rest_le x.value).reaches.atEnd hx.rest

/-- Before the terminator is missed, both runs do the same. -/
theorem behind {x z : Run s α} {y : Run t α} {a : α} {p : Piece}
    {f : (r : Tokens) → r.left ≤ s.left → α → Run r β}
    {g : (r : Tokens) → r.left ≤ t.left → α → Run r β'} (completes : (y.bind g).Completes)
    (lags : x.Lags y) (alike : x.Alike z .error b) (builds : Builds y.events p)
    (value : y.value = a) (going : y.rest.atEnd = false)
    (hf : (g y.rest y.left_rest_le a).Completes → z.rest.Lacks y.rest →
      (f z.rest z.left_rest_le a).Misses (g y.rest y.left_rest_le a) lost b) :
    (z.bind f).Misses (y.bind g) lost b := by
  subst value
  obtain ⟨events, value, rest⟩ := lags going
  have same : z.events = y.events := by
    rw [← events]
    refine eq_of_relabeled alike.events fun faulty => completes.clean (Faulty.bind ?_ g)
    rwa [← events]
  rw [alike.rest] at rest
  rw [alike.value] at value
  have misses := hf completes.next rest
  rw [← value] at misses
  obtain ⟨before, p', pos, after, builds', events', events''⟩ := misses.events
  refine ⟨⟨y.events ++ before, p ++ p', pos, after, builds.append builds', ?_, ?_⟩, misses.rest⟩
  · rw [Run.events_bind, ← value, events', List.append_assoc]
  · rw [Run.events_bind, same, events'', List.append_assoc]

/-- The same for attempts, if what comes next cannot be found at the end of the input. -/
theorem andThen {env : Env} {x z : Attempt s α} {y : Attempt t α}
    {f : (r : Tokens) → r.left ≤ s.left → α → Attempt r β}
    {g : (r : Tokens) → r.left ≤ t.left → α → Attempt r β'} (completes : (y.andThen g).Completes)
    (lags : x.Lags y) (alike : x.Alike z .error b) (quiet : Quiet env y.events)
    (gains : y.Gains fun _ _ => True)
    (needs : ∀ r h a, r.atEnd = true → Faulty (g r h a).events)
    (hf : ∀ a, (g y.rest y.left_rest_le a).Completes → z.rest.Lacks y.rest →
      (f z.rest z.left_rest_le a).Misses (g y.rest y.left_rest_le a) lost b) :
    (z.andThen f).Misses (y.andThen g) lost b := by
  obtain ⟨a, value, -⟩ := gains fun faulty => completes.clean (faulty.andThen g)
  obtain ⟨p, builds, -⟩ := quiet.builds
  refine .behind (a := some a) completes lags alike builds value ?_ (hf a)
  cases ends : y.rest.atEnd with
  | false => rfl
  | true =>
    have next := completes.next
    rw [value] at next
    exact absurd (needs _ _ a ends) next.clean

end Run.Misses

/-! ## Simple statements -/

section Simple

variable {env : Env} {s t : Tokens} {b : Severity} (strict : env.structural = .error)
  (hs : s.Lacks t)

include strict hs

/-- The last token is looked for and read in the longer stream, and missed in the shorter one. -/
theorem terminator_missed (completes : (expect env ";" t).Completes) :
    (expect env ";" t).events = [] ∧ s.atEnd = true ∧
    ∃ pos, expect { env with structural := b } ";" s =
      .fail b pos (.unexpected (.symbol ";") .eof) := by
  cases read : t.symbol? ";" with
  | none =>
    refine absurd ?_ completes.clean
    rw [expect, read, strict]
    exact .head _ _ _
  | some r =>
    have long : expect env ";" t = Run.reached r.reaches (.ok ()) := by rw [expect, read]
    rw [long] at completes ⊢
    have ends := hs.atEnd_of_skip read completes.done
    have eof := (hs.current_of_atEnd ends).1
    refine ⟨rfl, ends, s.current.pos, ?_⟩
    rw [expect, Tokens.symbol?_eq_none (by simp [eof]), eof]

theorem terminator_misses (completes : (expect env ";" t).Completes) :
    (expect { env with structural := b } ";" s).Misses (expect env ";" t) [] b := by
  obtain ⟨events, ends, pos, short⟩ := terminator_missed strict hs completes (b := b)
  rw [short]
  exact ⟨⟨[], {}, pos, [], .nil, events, rfl⟩, s.reaches_resume.atEnd ends⟩

/-- A jump is given out behind its terminator. -/
theorem jumpStatement_misses {keyword : String} {target : Option Nat} {pos : Position}
    (completes : (jumpStatement env keyword target pos t).Completes) :
    (jumpStatement { env with structural := b } keyword target pos s).Misses
      (jumpStatement env keyword target pos t) (target.map .jump).toList b := by
  cases target with
  | none => exact absurd (Faulty.head _ _ _) completes.clean
  | some label =>
    have clean : ¬ Faulty (expect env ";" t).events := fun faulty =>
      completes.clean (faulty.andThen _)
    obtain ⟨_, value, -⟩ := expect_gains strict ";" t clean
    obtain ⟨long, -, rest⟩ := Run.andThen_of_some value
      fun r _ _ => (.emit [.jump label] () : Attempt r Unit)
    have done := completes.done
    rw [jumpStatement, rest] at done
    obtain ⟨events, ends, pos, short⟩ := terminator_missed strict hs ⟨clean, done⟩ (b := b)
    refine ⟨⟨[], {}, pos, [], .nil, ?_, ?_⟩, ?_⟩
    · rw [jumpStatement, long, events]
      rfl
    · rw [jumpStatement, short]
      rfl
    · rw [jumpStatement, short]
      exact s.reaches_resume.atEnd ends

theorem expressionStatement_misses (completes : (expressionStatement env t).Completes) :
    (expressionStatement { env with structural := b } s).Misses (expressionStatement env t) []
      b := by
  refine .andThen completes (expression_lags env hs) (strict ▸ expression_alike env b env.loop s)
    (expression_quiet env t) (expression_yields strict t) ?_ ?_
  · intro r _ _ ends
    exact (faulty_expect_of_atEnd strict ends ";").right [.emit .pop]
  · intro type completes rest
    exact .after (.emit .pop) (terminator_misses strict rest completes.of_after)

theorem returnStatement_misses {pos : Position}
    (completes : (returnStatement env pos t).Completes) :
    (returnStatement { env with structural := b } pos s).Misses (returnStatement env pos t) []
      b := by
  have needs (r : Tokens) (ends : r.atEnd = true) :
      Faulty (Run.after [.emit .ret] (expect env ";" r)).events :=
    (faulty_expect_of_atEnd strict ends ";").right [.emit .ret]
  unfold returnStatement at completes ⊢
  rw [hs.startsExpression_eq]
  cases starts : t.current.kind.startsExpression with
  | true =>
    rw [if_pos starts] at completes
    rw [if_pos rfl, if_pos rfl, hs.current_eq (hs.going_of_startsExpression starts)]
    refine .andThen completes (expression_lags env hs) (strict ▸ expression_alike env b env.loop s)
      (expression_quiet env t) (expression_yields strict t) ?_ ?_
    · intro r _ given ends
      exact (follow_gains _ _).faulty_of_atEnd ends fun r _ _ => needs r
    · intro given completes rest
      refine .andThen completes (follow_lags rest _ _) (.refl _)
        (follow_quiet env _ _)
        (.imp (follow_gains _ _) fun _ _ _ => trivial) (fun r _ _ => needs r) ?_
      intro _ completes rest
      exact .after (.emit .ret) (terminator_misses strict rest completes.of_after)
  | false =>
    rw [if_neg (by simp [starts])] at completes
    rw [if_neg (by simp), if_neg (by simp)]
    dsimp only
    cases returns : env.returns.head? with
    | some expected =>
      rw [returns] at completes
      exact absurd (Faulty.head _ _ _) completes.clean
    | none =>
      rw [returns] at completes
      exact .after (.emit .ret) (terminator_misses strict hs completes.of_after)

/-- A simple statement that is not empty loses its jump only. -/
theorem simpleStatement_misses (completes : (simpleStatement env t).Completes)
    (proper : t.current.kind ≠ .symbol ";") :
    (simpleStatement { env with structural := b } s).Misses (simpleStatement env t)
      (env.jump t.current) b := by
  rcases hs.uncons with ⟨ends, -⟩ | ⟨x, r, r', read, read', rest⟩
  · exact absurd (hs.current_of_atEnd ends).2 proper
  · have current : t.current = x := Tokens.current_of_uncons? read'
    rw [current] at proper ⊢
    unfold simpleStatement at completes ⊢
    rw [read'] at completes
    rw [read, read']
    dsimp only at completes ⊢
    rw [show Env.typeNamed? { env with structural := b } x.kind = env.typeNamed? x.kind from rfl]
    unfold Env.jump
    split at completes
    · rename_i isBreak
      simp only [isBreak, if_true]
      exact .reached (jumpStatement_misses strict rest completes.of_reached)
    rename_i noBreak
    simp only [noBreak, Bool.false_eq_true, if_false]
    split at completes
    · rename_i isContinue
      simp only [isContinue, if_true]
      exact .reached (jumpStatement_misses strict rest completes.of_reached)
    rename_i noContinue
    simp only [noContinue, Bool.false_eq_true, if_false]
    split at completes
    · rename_i isReturn
      simp only [isReturn, if_true]
      exact .reached (returnStatement_misses strict rest completes.of_reached)
    rename_i noReturn
    have notEmpty : x.isSymbol ";" = false := by simpa [Token.isSymbol] using proper
    simp only [noReturn, notEmpty, Bool.false_eq_true, if_false] at completes ⊢
    split at completes
    · exact absurd (Faulty.head _ _ _) completes.clean
    rename_i noType
    rw [if_neg noType, if_neg noType]
    split at completes
    · rename_i starts
      rw [if_pos starts, if_pos starts]
      exact expressionStatement_misses strict hs completes
    · exact absurd (Faulty.head _ _ _) completes.clean

end Simple

/-! ## Statements -/

section Statements

variable {env : Env} {c : Counters} {t : Tokens} (strict : env.structural = .error)

include strict

/-- What a conditional is made of that reads the input to its end: a condition and a branch, or a
condition and two branches. -/
theorem conditional_completes (completes : (conditional env c t).Completes) :
    ¬ Faulty (condition env t).events ∧ (condition env t).value = some () ∧
      (condition env t).rest.atEnd = false ∧
      ((statement env c.withLabel (condition env t).rest).1.Completes ∧
          (statement env c.withLabel (condition env t).rest).1.rest.keyword? "else" = none ∨
        ∃ o p, o = (statement env c.withLabel (condition env t).rest).1 ∧ ¬ Faulty o.events ∧
          o.rest.atEnd = false ∧ o.rest.keyword? "else" = some p ∧
          (statement env o.value.counters.withLabel p.stream).1.Completes) := by
  rw [conditional] at completes
  have clean : ¬ Faulty (condition env t).events := fun faulty => completes.clean (faulty.bind _)
  obtain ⟨_, value, -⟩ := condition_yields strict t clean
  have branches := completes.next
  rw [value] at branches
  replace branches := branches.of_after
  have cleanBranch := fun faulty => branches.clean (Faulty.bind faulty _)
  refine ⟨clean, value, ?_, ?_⟩
  · cases ends : (condition env t).rest.atEnd with
    | false => rfl
    | true => exact absurd (faulty_statement_of_atEnd env _ ends) cleanBranch
  · have behind := branches.next
    cases read : (statement env c.withLabel (condition env t).rest).1.rest.keyword? "else" with
    | none =>
      rw [read] at behind
      exact .inl ⟨⟨cleanBranch, behind.done⟩, rfl⟩
    | some p =>
      rw [read] at behind
      replace behind := behind.of_after.of_reached
      have kind := (Tokens.passes_of_keyword? read).current_kind
      exact .inr ⟨_, p, rfl, cleanBranch, by simp [Tokens.atEnd, Token.isEof, kind], read,
        fun faulty => behind.clean (faulty.bind _), behind.done⟩

/-- What a loop is made of that reads the input to its end. -/
theorem loop_completes (completes : (loop env c t).Completes) :
    ¬ Faulty (condition env t).events ∧ (condition env t).value = some () ∧
      (condition env t).rest.atEnd = false ∧
      (statement (env.inLoop c) c.withLabel.withLabel (condition env t).rest).1.Completes := by
  rw [loop] at completes
  replace completes := completes.of_after
  have clean : ¬ Faulty (condition env t).events := fun faulty => completes.clean (faulty.bind _)
  obtain ⟨_, value, -⟩ := condition_yields strict t clean
  have body := completes.next
  rw [value] at body
  replace body := body.of_after
  have cleanBody := fun faulty => body.clean (Faulty.bind faulty _)
  refine ⟨clean, value, ?_, cleanBody, body.done⟩
  cases ends : (condition env t).rest.atEnd with
  | false => rfl
  | true => exact absurd (faulty_statement_of_atEnd _ _ ends) cleanBody

/-- What is read as another symbol is not the last token. -/
theorem expect_going {symbol : String} (other : symbol ≠ ";")
    (lacks : t.atEnd = false → ∃ s : Tokens, s.Lacks t)
    (clean : ¬ Faulty (expect env symbol t).events) : (expect env symbol t).rest.atEnd = false := by
  have kind : t.current.kind = .symbol symbol := by
    by_contra missing
    exact clean (expect_faulty strict missing)
  obtain ⟨s, hs⟩ := lacks (by simp [Tokens.atEnd, Token.isEof, kind])
  have going : s.atEnd = false := by
    cases ends : s.atEnd with
    | false => rfl
    | true =>
      rw [(hs.current_of_atEnd ends).2] at kind
      exact absurd (Token.Kind.symbol.inj kind).symm other
  unfold expect at clean ⊢
  cases read : t.symbol? symbol with
  | none =>
    rw [read, strict] at clean
    exact absurd (Faulty.head _ _ _) clean
  | some r =>
    cases done : r.stream.atEnd with
    | false => exact done
    | true => rw [hs.atEnd_of_skip read done] at going; cases going

/-- A block does not end with a terminator. -/
theorem block_going {s : Tokens} (hs : s.Lacks t) (clean : ¬ Faulty (block env c t).events) :
    (block env c t).rest.atEnd = false := by
  rw [block] at clean ⊢
  refine expect_going strict (by decide) (fun going => ?_) fun faulty =>
    clean ((((faulty.left _).right _).right _).right _)
  have inside := (statements _ _ _).reaches.going going
  obtain ⟨-, -, lacks⟩ := declarations_lags _ c hs inside
  obtain ⟨-, -, lacks'⟩ := statements_lags _ _ lacks going
  exact ⟨_, lacks'⟩

end Statements

/-- Every statement without errors whose last token is the terminator ends with a simple one. -/
theorem exists_endsWith (env : Env) (strict : env.structural = .error) (c : Counters) {s t : Tokens}
    (hs : s.Lacks t) (completes : (statement env c t).1.Completes) :
    ∃ inner l, EndsWith env c t inner l := by
  rcases hs.symbol "\x7b" (by decide) with ⟨-, noBlock⟩ | ⟨q', q, -, read, behind⟩
  · rcases hs.keyword "if" with ⟨-, noIf⟩ | ⟨q', q, -, read, behind⟩
    · rcases hs.keyword "while" with ⟨-, noWhile⟩ | ⟨q', q, -, read, behind⟩
      · exact ⟨env, t, .simple noBlock noIf noWhile⟩
      · rw [statement_of_while read] at completes
        obtain ⟨-, -, going, body⟩ := loop_completes strict completes.of_reached
        obtain ⟨-, -, rest⟩ := condition_lags env behind going
        have shorter := q.shorter
        have le := (condition env q.stream).left_rest_le
        obtain ⟨inner, l, ends⟩ := exists_endsWith (env.inLoop c) strict _ rest body
        exact ⟨inner, l, .loop read ends⟩
    · rw [statement_of_if read] at completes
      obtain ⟨-, -, going, branches⟩ := conditional_completes strict completes.of_reached
      obtain ⟨-, -, rest⟩ := condition_lags env behind going
      have shorter := q.shorter
      have le := (condition env q.stream).left_rest_le
      rcases branches with ⟨branch, noElse⟩ | ⟨o, p, first, -, going, read', branch⟩
      · obtain ⟨inner, l, ends⟩ := exists_endsWith env strict _ rest branch
        exact ⟨inner, l, .ifThen read noElse ends⟩
      · have lags := statement_lags env c.withLabel rest
        rw [← first] at lags
        obtain ⟨-, -, rest'⟩ := lags going
        obtain ⟨p', -, behind'⟩ := rest'.exists_keyword read'
        have shorter' := p.shorter
        have le' := o.left_rest_le
        obtain ⟨inner, l, ends⟩ := exists_endsWith env strict _ behind' branch
        exact ⟨inner, l, .ifElse read first read' ends⟩
  · rw [statement_of_brace read] at completes
    have going := block_going strict behind completes.clean
    rw [show (block env c q.stream).rest.atEnd = true from completes.done] at going
    cases going
termination_by t.left
decreasing_by all_goals omega

section Surroundings

variable {env : Env} {c : Counters} {s t : Tokens} {lost : List Instruction} {b : Severity}
  (strict : env.structural = .error) (hs : s.Lacks t)

include strict hs

/-- A condition is read in both streams. -/
theorem condition_misses {β β' : Type} {f : (r : Tokens) → r.left ≤ s.left → Option Unit → Run r β}
    {g : (r : Tokens) → r.left ≤ t.left → Option Unit → Run r β'}
    (completes : ((condition env t).bind g).Completes) (value : (condition env t).value = some ())
    (going : (condition env t).rest.atEnd = false)
    (hf : ∀ (r : Tokens) (h : r.left ≤ s.left), r.Lacks (condition env t).rest →
      (f r h (some ())).Misses (g _ (condition env t).left_rest_le (some ())) lost b) :
    ((condition { env with structural := b } s).bind f).Misses ((condition env t).bind g) lost
      b := by
  obtain ⟨p, builds, -⟩ := (condition_quiet env t).builds
  refine .behind completes (condition_lags env hs)
    (strict ▸ condition_alike env b env.loop s) builds value going ?_
  intro _ rest
  exact hf _ _ rest

theorem conditional_misses (completes : (conditional env c t).Completes)
    (noElse : (statement env c.withLabel (condition env t).rest).1.rest.keyword? "else" = none)
    (branch : ∀ {r : Tokens}, r.Lacks (condition env t).rest →
      (statement env c.withLabel (condition env t).rest).1.Completes →
      (statement { env with structural := b } c.withLabel r).1.Misses
        (statement env c.withLabel (condition env t).rest).1 lost b) :
    (conditional { env with structural := b } c s).Misses (conditional env c t) lost b := by
  obtain ⟨-, value, going, branches⟩ := conditional_completes strict completes
  rw [conditional] at completes ⊢
  rw [conditional]
  refine condition_misses strict hs completes value going fun r _ rest => ?_
  refine .after (.append .reserveLabel (.emit _)) ?_
  rcases branches with ⟨first, -⟩ | ⟨_, _, rfl, -, -, isElse, -⟩
  · have misses := branch rest first
    have eof : (statement _ _ _).1.rest.current.kind = .eof := of_decide_eq_true misses.rest
    refine .bind misses [.mark c.labels] ?_ ?_
    · rw [Tokens.keyword?_eq_none (by rw [eof]; simp)]
      rfl
    · rw [noElse]
      rfl
  · rw [noElse] at isElse
    cases isElse

theorem alternative_misses {o : Run (condition env t).rest Outcome} {p : o.rest.Tail}
    (completes : (conditional env c t).Completes)
    (first : o = (statement env c.withLabel (condition env t).rest).1)
    (read : o.rest.keyword? "else" = some p)
    (branch : ∀ {r : Tokens}, r.Lacks p.stream →
      (statement env o.value.counters.withLabel p.stream).1.Completes →
      (statement { env with structural := b } o.value.counters.withLabel r).1.Misses
        (statement env o.value.counters.withLabel p.stream).1 lost b) :
    (conditional { env with structural := b } c s).Misses (conditional env c t) lost b := by
  obtain ⟨-, value, going, branches⟩ := conditional_completes strict completes
  rw [conditional] at completes ⊢
  rw [conditional]
  refine condition_misses strict hs completes value going fun r _ rest => ?_
  refine .after (.append .reserveLabel (.emit _)) ?_
  subst first
  rcases branches with ⟨-, noElse⟩ | ⟨_, _, rfl, -, going', isElse, second⟩
  · rw [read] at noElse
    cases noElse
  · obtain rfl := Option.some.inj (read.symm.trans isElse)
    have inner := completes.next
    rw [value] at inner
    obtain ⟨_, builds, -⟩ := (statement_traced env c.withLabel (condition env t).rest).builds
    refine .behind inner.of_after (statement_lags env c.withLabel rest)
      (strict ▸ statement_alike env b c.withLabel r) builds rfl going' ?_
    intro _ rest'
    obtain ⟨p', found, behind⟩ := rest'.exists_keyword read
    rw [found, read]
    refine .after (.append .reserveLabel (.append (.emit _) (.emit _))) (.reached ?_)
    exact .bind (branch behind second) [.mark _] rfl rfl

theorem loop_misses (completes : (loop env c t).Completes)
    (body : ∀ {r : Tokens}, r.Lacks (condition env t).rest →
      (statement (env.inLoop c) c.withLabel.withLabel (condition env t).rest).1.Completes →
      (statement { env.inLoop c with structural := b } c.withLabel.withLabel r).1.Misses
        (statement (env.inLoop c) c.withLabel.withLabel (condition env t).rest).1 lost b) :
    (loop { env with structural := b } c s).Misses (loop env c t) lost b := by
  obtain ⟨-, value, going, inside⟩ := loop_completes strict completes
  rw [loop] at completes ⊢
  rw [loop]
  refine .after (.append .reserveLabel (.append .reserveLabel (.emit _))) ?_
  refine condition_misses strict hs completes.of_after value going fun r _ rest => ?_
  refine .after (.emit _) ?_
  exact .bind (body rest inside) [.jump c.labels, .mark (c.labels + 1)] rfl rfl

end Surroundings

/-- What surrounds the last simple statement gives out its own instructions all the same. The
induction follows the way down to that statement. -/
theorem EndsWith.misses {env inner : Env} {c : Counters} {t l : Tokens} {b : Severity}
    (ends : EndsWith env c t inner l) (proper : l.current.kind ≠ .symbol ";") {s : Tokens}
    (strict : env.structural = .error) (hs : s.Lacks t)
    (completes : (statement env c t).1.Completes) :
    (statement { env with structural := b } c s).1.Misses (statement env c t).1
      (inner.jump l.current) b := by
  induction ends generalizing s with
  | @simple env c t noBlock noIf noWhile =>
    have noBlock' := (hs.symbol_eq_none_iff (by decide)).2 noBlock
    have noIf' := hs.keyword_eq_none_iff.2 noIf
    have noWhile' := hs.keyword_eq_none_iff.2 noWhile
    rw [statement_of_none noBlock noIf noWhile] at completes ⊢
    rw [statement_of_none noBlock' noIf' noWhile']
    refine .bind (simpleStatement_misses strict hs ?_ proper) [] rfl rfl
    exact ⟨fun faulty => completes.clean (faulty.bind _), completes.done⟩
  | ifThen read noElse _ ih =>
    obtain ⟨q', read', behind⟩ := hs.exists_keyword read
    rw [statement_of_if read] at completes ⊢
    rw [statement_of_if read']
    exact .reached (conditional_misses strict behind completes.of_reached noElse (ih proper strict))
  | ifElse read first isElse _ ih =>
    obtain ⟨q', read', behind⟩ := hs.exists_keyword read
    rw [statement_of_if read] at completes ⊢
    rw [statement_of_if read']
    exact .reached
      (alternative_misses strict behind completes.of_reached first isElse (ih proper strict))
  | loop read _ ih =>
    obtain ⟨q', read', behind⟩ := hs.exists_keyword read
    rw [statement_of_while read] at completes ⊢
    rw [statement_of_while read']
    exact .reached (loop_misses strict behind completes.of_reached (ih proper strict))

/-- The simple statement at the end is without errors too. -/
theorem EndsWith.completes {env inner : Env} {c : Counters} {t l : Tokens}
    (ends : EndsWith env c t inner l) (strict : env.structural = .error)
    (completes : (statement env c t).1.Completes) : (simpleStatement inner l).Completes := by
  induction ends with
  | simple noBlock noIf noWhile =>
    rw [statement_of_none noBlock noIf noWhile] at completes
    exact ⟨fun faulty => completes.clean (faulty.bind _), completes.done⟩
  | ifThen read noElse _ ih =>
    rw [statement_of_if read] at completes
    obtain ⟨-, -, -, branches⟩ := conditional_completes strict completes.of_reached
    rcases branches with ⟨branch, -⟩ | ⟨_, _, rfl, -, -, isElse, -⟩
    · exact ih strict branch
    · rw [noElse] at isElse
      cases isElse
  | ifElse read first isElse _ ih =>
    rw [statement_of_if read] at completes
    obtain ⟨-, -, -, branches⟩ := conditional_completes strict completes.of_reached
    subst first
    rcases branches with ⟨-, noElse⟩ | ⟨_, _, rfl, -, -, isElse', branch⟩
    · rw [isElse] at noElse
      cases noElse
    · obtain rfl := Option.some.inj (isElse.symm.trans isElse')
      exact ih strict branch
  | loop read _ ih =>
    rw [statement_of_while read] at completes
    obtain ⟨-, -, -, body⟩ := loop_completes strict completes.of_reached
    exact ih strict body

/-- In an empty statement the terminator is all there is. -/
theorem EndsWith.eq_of_terminator {env inner : Env} {c : Counters} {t l : Tokens}
    (ends : EndsWith env c t inner l) (terminator : t.current.kind = .symbol ";") : l = t := by
  have noKeyword {word : String} {q : t.Tail} (read : t.keyword? word = some q) : False := by
    rw [(Tokens.passes_of_keyword? read).current_kind] at terminator
    cases terminator
  cases ends with
  | simple => rfl
  | ifThen read => exact (noKeyword read).elim
  | ifElse read => exact (noKeyword read).elim
  | loop read => exact (noKeyword read).elim

/-- A jump has a target, if no error was reported. -/
theorem jump_eq_nil_iff {env : Env} {l : Tokens} (completes : (simpleStatement env l).Completes) :
    env.jump l.current = [] ↔
      l.current.kind ≠ .keyword "break" ∧ l.current.kind ≠ .keyword "continue" := by
  cases read : l.uncons? with
  | none =>
    rw [simpleStatement, read] at completes
    exact absurd (Faulty.head _ _ _) completes.clean
  | some v =>
    obtain ⟨x, r⟩ := v
    rw [simpleStatement, read] at completes
    rw [Tokens.current_of_uncons? read]
    dsimp only at completes
    cases target : env.loop with
    | none =>
      rw [target] at completes
      split at completes
      · exact absurd (Faulty.head _ _ _) completes.clean
      split at completes
      · exact absurd (Faulty.head _ _ _) completes.clean
      · simp_all [Env.jump, Token.isKeyword]
    | some targets =>
      simp only [Env.jump, Token.isKeyword, target, decide_eq_true_eq]
      split_ifs <;> simp_all

/-! ## Programs -/

theorem exists_lastStatement {env : Env} (strict : env.structural = .error) (c : Counters)
    {s t : Tokens} (hs : s.Lacks t) (completes : (program env c t).Completes) :
    ∃ inner l, LastStatement env c t inner l := by
  rw [program_of_going hs.atEnd_eq] at completes
  have clean := fun faulty => completes.clean (Faulty.bind faulty _)
  have shorter := (statement env c t).2 hs.atEnd_eq
  cases going : (statement env c t).1.rest.atEnd with
  | true =>
    obtain ⟨inner, l, ends⟩ := exists_endsWith env strict c hs ⟨clean, going⟩
    exact ⟨inner, l, .last going ends⟩
  | false =>
    obtain ⟨-, -, rest⟩ := statement_lags env c hs going
    obtain ⟨inner, l, last⟩ := exists_lastStatement strict _ rest completes.next
    exact ⟨inner, l, .later going last⟩
termination_by t.left
decreasing_by exact shorter

namespace LastStatement

variable {env inner : Env} {c : Counters} {t l : Tokens} (last : LastStatement env c t inner l)
  (strict : env.structural = .error)

include last strict

theorem completes (completes : (program env c t).Completes) (going : t.atEnd = false) :
    (simpleStatement inner l).Completes := by
  induction last with
  | last done ends =>
    rw [program_of_going going] at completes
    exact ends.completes strict ⟨fun faulty => completes.clean (faulty.bind _), done⟩
  | later going' _ ih =>
    rw [program_of_going going] at completes
    exact ih completes.next going'

/-- Without its last terminator a program loses what its last statement loses. -/
theorem misses {b : Severity} {s : Tokens} (hs : s.Lacks t)
    (completes : (program env c t).Completes) (proper : l.current.kind ≠ .symbol ";") :
    (program { env with structural := b } c s).Misses (program env c t) (inner.jump l.current)
      b := by
  induction last generalizing s with
  | @last inner c t l done ends =>
    have going : s.atEnd = false := by
      cases atEnd : s.atEnd with
      | false => rfl
      | true =>
        have terminator := (hs.current_of_atEnd atEnd).2
        rw [ends.eq_of_terminator terminator] at proper
        exact absurd terminator proper
    rw [program_of_going hs.atEnd_eq] at completes ⊢
    rw [program_of_going going]
    have misses := ends.misses proper strict hs (b := b)
      ⟨fun faulty => completes.clean (faulty.bind _), done⟩
    refine .bind misses [] ?_ ?_
    · rw [program_of_atEnd misses.rest]
      rfl
    · rw [program_of_atEnd done]
      rfl
  | @later inner c t l going' _ ih =>
    have shorter := (statement env c t).2 hs.atEnd_eq
    have going : s.atEnd = false := by
      cases atEnd : s.atEnd with
      | false => rfl
      | true =>
        obtain ⟨-, -, rest⟩ := statement_lags env c hs going'
        have one := hs.left_eq_one atEnd
        have one' := rest.left_eq_one ((statement env c s).1.reaches.atEnd atEnd)
        omega
    rw [program_of_going hs.atEnd_eq] at completes ⊢
    rw [program_of_going going]
    obtain ⟨_, builds, -⟩ := (statement_traced env c t).builds
    refine .behind completes (statement_lags env c hs) (strict ▸ statement_alike env b c s) builds
      rfl going' ?_
    intro completes rest
    exact ih rest completes proper

end LastStatement

/-! ## Passes -/

section Passes

variable (scopes : Scopes) {s t : Tokens} {lost : List Instruction} {b : Severity}

/-- What the program loses is lost to the listing, and nothing else. -/
theorem listing_of_misses
    (misses : (program { scopes := scopes.withPrimitives, structural := b } {} s).Misses
      (program { scopes := scopes.withPrimitives, structural := .error } {} t) lost b) :
    ∃ (entry : Body) (functions : List Body) (before after : List Instruction),
      (Pass.run .error scopes t).listing =
        .ok ⟨{ entry with code := (before ++ lost ++ after).toArray } :: functions⟩ ∧
      (Pass.run b scopes s).listing =
        .ok ⟨{ entry with code := (before ++ after).toArray } :: functions⟩ := by
  obtain ⟨before, p, pos, after, builds, events, events'⟩ := misses.events
  have long := builds.append (.emits (lost ++ after))
  rw [← events] at long
  have short := builds.append ((Builds.emits after).skip (e := .report b pos
    (.unexpected (.symbol ";") .eof)) rfl)
  rw [← events'] at short
  refine ⟨p.body entryName none, p.functions, p.code, after, ?_, ?_⟩
  · rw [Pass.listing_run_eq _ _ long]
    simp [Piece.body]
  · rw [Pass.listing_run_eq _ _ short]
    simp [Piece.body]

/-- The one new diagnostic is that of the missing terminator. -/
theorem diagnostics_of_misses
    (misses : (program { scopes := scopes.withPrimitives, structural := b } {} s).Misses
      (program { scopes := scopes.withPrimitives, structural := .error } {} t) lost b) :
    ∃ pos, (Pass.run b scopes s).diagnostics = (Pass.run .error scopes t).diagnostics ++
      [⟨b, pos, (Problem.unexpected (.symbol ";") .eof).message⟩] := by
  obtain ⟨before, p, pos, after, -, events, events'⟩ := misses.events
  have run (a : Severity) (r : Tokens) : (Pass.run a scopes r).diagnostics =
      diagnostics (program { scopes := scopes.withPrimitives, structural := a } {} r).events := rfl
  have silent (is : List Instruction) : diagnostics (Event.emits is) = [] := by
    simp [diagnostics, Event.emits, Event.emit, Event.diagnostic?]
  have append (es fs : List Event) : diagnostics (es ++ fs) = diagnostics es ++ diagnostics fs :=
    List.filterMap_append
  refine ⟨pos, ?_⟩
  rw [run, run, events, events', append, append, silent, List.append_nil]
  exact congrArg (diagnostics before ++ _ :: ·) (silent after)

end Passes

/-- **What a missing last terminator costs**: a program that is accepted and whose last token is the
terminator of a statement is accepted without that terminator too, if structural problems are
warnings. The one new diagnostic is the warning about the terminator. The listing is the same but
for the jump that a last `break` or `continue` gives out behind its terminator: that jump is lost,
so the listings are equal exactly if the last statement is none of these. -/
theorem run_unterminated (scopes : Scopes) (ts rest : List Token) (last : Token)
    (terminator : last.kind = .symbol ";") (proper : ∀ t ∈ ts, t.isEof = false)
    (ended : ∀ t ∈ rest.head?, t.isEof = true)
    (accepted : (Pass.run .error scopes (.ofList (ts ++ last :: rest))).accepted = true) :
    (∃ inner l, LastStatement { scopes := scopes.withPrimitives, structural := .error } {}
      (.ofList (ts ++ last :: rest)) inner l) ∧
    ∀ inner l, LastStatement { scopes := scopes.withPrimitives, structural := .error } {}
        (.ofList (ts ++ last :: rest)) inner l → l.current.kind ≠ .symbol ";" →
      (Pass.run .warning scopes (.ofList (ts ++ rest))).accepted = true ∧
      (∃ pos, (Pass.run .warning scopes (.ofList (ts ++ rest))).diagnostics =
        (Pass.run .error scopes (.ofList (ts ++ last :: rest))).diagnostics ++
          [⟨.warning, pos, (Problem.unexpected (.symbol ";") .eof).message⟩]) ∧
      (∃ (entry : Body) (functions : List Body) (before after : List Instruction),
        (Pass.run .error scopes (.ofList (ts ++ last :: rest))).listing =
          .ok ⟨{ entry with code := (before ++ inner.jump l.current ++ after).toArray } ::
            functions⟩ ∧
        (Pass.run .warning scopes (.ofList (ts ++ rest))).listing =
          .ok ⟨{ entry with code := (before ++ after).toArray } :: functions⟩) ∧
      ((Pass.run .warning scopes (.ofList (ts ++ rest))).listing =
          (Pass.run .error scopes (.ofList (ts ++ last :: rest))).listing ↔
        l.current.kind ≠ .keyword "break" ∧ l.current.kind ≠ .keyword "continue") := by
  have lacks := Tokens.lacks_ofList terminator proper ended
  generalize Tokens.ofList (ts ++ last :: rest) = t at accepted lacks ⊢
  generalize Tokens.ofList (ts ++ rest) = s at lacks ⊢
  have completes :
      (program { scopes := scopes.withPrimitives, structural := .error } {} t).Completes :=
    ⟨fun faulty => ((Pass.accepted_iff _).1 accepted).1 (faulty.right _), program_atEnd _ _ _⟩
  refine ⟨exists_lastStatement rfl {} lacks completes, ?_⟩
  intro inner l found nonempty
  have misses := found.misses rfl lacks completes nonempty (b := .warning)
  obtain ⟨entry, functions, before, after, long, short⟩ := listing_of_misses scopes misses
  obtain ⟨pos, reported⟩ := diagnostics_of_misses scopes misses
  refine ⟨?_, ⟨pos, reported⟩, ⟨entry, functions, before, after, long, short⟩, ?_⟩
  · rw [Pass.accepted_run_iff, reported]
    intro d mem
    rcases List.mem_append.1 mem with mem | mem
    · exact (Pass.accepted_run_iff _ _ _).1 accepted d mem
    · rw [List.mem_singleton.1 mem]
      simp
  · rw [← jump_eq_nil_iff (found.completes rfl completes lacks.atEnd_eq), long, short]
    simp

/-- A loop in the second branch of a conditional, up to the last terminator:
`if (1) 2; else while (3) return 4`. -/
def lastReturn : List Token :=
  [.keyword "if", .symbol "(", .int 1, .symbol ")", .int 2, .symbol ";", .keyword "else",
    .keyword "while", .symbol "(", .int 3, .symbol ")", .keyword "return", .int 4].map (⟨·, .start⟩)

theorem run_unterminated_lastReturn :
    (Pass.run .error {}
      (.ofList (lastReturn ++ [⟨.symbol ";", .start⟩, ⟨.eof, .start⟩]))).accepted = true ∧
    (Pass.run .warning {} (.ofList (lastReturn ++ [⟨.eof, .start⟩]))).accepted = true ∧
    (Pass.run .warning {} (.ofList (lastReturn ++ [⟨.eof, .start⟩]))).listing =
      (Pass.run .error {}
        (.ofList (lastReturn ++ [⟨.symbol ";", .start⟩, ⟨.eof, .start⟩]))).listing := by
  have accepted : (Pass.run .error {}
      (.ofList (lastReturn ++ [⟨.symbol ";", .start⟩, ⟨.eof, .start⟩]))).accepted = true := by
    decide +kernel
  have found : ∃ inner l, LastStatement
      { scopes := Scopes.withPrimitives {}, structural := .error } {}
      (.ofList (lastReturn ++ [⟨.symbol ";", .start⟩, ⟨.eof, .start⟩])) inner l ∧
      l.current.kind = .keyword "return" := by
    refine ⟨_, _, .last (by decide +kernel) (.ifElse (Option.some_get (by decide +kernel)).symm rfl
      (Option.some_get (by decide +kernel)).symm (.loop (Option.some_get (by decide +kernel)).symm
        (.simple ?_ ?_ ?_))), ?_⟩
    · exact Option.isNone_iff_eq_none.1 (by decide +kernel)
    · exact Option.isNone_iff_eq_none.1 (by decide +kernel)
    · exact Option.isNone_iff_eq_none.1 (by decide +kernel)
    · decide +kernel
  obtain ⟨inner, l, last, kind⟩ := found
  obtain ⟨-, costs⟩ := run_unterminated {} lastReturn [⟨.eof, .start⟩] ⟨.symbol ";", .start⟩ rfl
    (by decide) (by decide) accepted
  obtain ⟨accepted', -, -, listing⟩ := costs inner l last (by rw [kind]; decide)
  exact ⟨accepted, accepted', listing.2 (by rw [kind]; decide)⟩

/-- A jump out of a loop, up to its terminator: `while (1) break`. -/
def lastBreak : List Token :=
  [.keyword "while", .symbol "(", .int 1, .symbol ")", .keyword "break"].map (⟨·, .start⟩)

/-- With its terminator the program leaves the loop in the first round; without it the jump out of
the loop is missing. -/
theorem listing_ne_lastBreak :
    (Pass.run .error {} (.ofList (lastBreak ++ [⟨.symbol ";", .start⟩, ⟨.eof, .start⟩]))).accepted =
      true ∧
    (Pass.run .warning {} (.ofList (lastBreak ++ [⟨.eof, .start⟩]))).accepted = true ∧
    (Pass.run .error {} (.ofList (lastBreak ++ [⟨.symbol ";", .start⟩, ⟨.eof, .start⟩]))).listing =
      .ok ⟨[{ name := entryName, signature := none, code :=
        #[.mark 0, .pushInt 1, .jumpUnless 1, .jump 1, .jump 0, .mark 1] }]⟩ ∧
    (Pass.run .warning {} (.ofList (lastBreak ++ [⟨.eof, .start⟩]))).listing =
      .ok ⟨[{ name := entryName, signature := none, code :=
        #[.mark 0, .pushInt 1, .jumpUnless 1, .jump 0, .mark 1] }]⟩ ∧
    (Pass.run .warning {} (.ofList (lastBreak ++ [⟨.eof, .start⟩]))).listing ≠
      (Pass.run .error {}
        (.ofList (lastBreak ++ [⟨.symbol ";", .start⟩, ⟨.eof, .start⟩]))).listing := by
  decide +kernel

end OnePass
