import Mathlib.Data.List.Forall2
import OnePass.Proofs.Labels

/-!
# The severity of a missing symbol

The severity of a missing bracket or terminator is a label and nothing else. Two passes that differ
in it read the same tokens, give out the same events but for that label, and end at the same place;
so they have the same listing, and their diagnostics differ in nothing but the label.

The argument follows the productions with both passes side by side. Expressions do not look at the
loop around them either, so for them the two surroundings may differ in that as well.
-/

namespace OnePass

/-- The same event, but that a report of severity `a` may have severity `b`. -/
inductive Event.Relabeled (a b : Severity) : Event → Event → Prop
  | same (e : Event) : Relabeled a b e e
  | report (pos : Position) (problem : Problem) :
    Relabeled a b (.report a pos problem) (.report b pos problem)

/-- Two runs on the same tokens with the same outcome, whose events differ in a severity. -/
structure Run.Alike {s : Tokens} {α : Type} (x y : Run s α) (a b : Severity) : Prop where
  value : x.value = y.value
  rest : x.rest = y.rest
  events : List.Forall₂ (Event.Relabeled a b) x.events y.events

theorem Run.Alike.refl {s : Tokens} {α : Type} {a b : Severity} (x : Run s α) : x.Alike x a b :=
  ⟨rfl, rfl, List.forall₂_same.2 fun e _ => .same e⟩

/-- Runs that differ in no severity are equal. -/
theorem Run.Alike.eq {s : Tokens} {α : Type} {a : Severity} {x y : Run s α}
    (hx : x.Alike y a a) : x = y := by
  obtain ⟨es, v, r, reaches⟩ := x
  obtain ⟨es', v', r', reaches'⟩ := y
  obtain ⟨rfl, rfl, events⟩ := hx
  have same : List.Forall₂ (· = ·) es es' := by
    refine events.imp ?_
    rintro e e' (_ | _) <;> rfl
  rw [List.forall₂_eq_eq_eq] at same
  subst same
  rfl

/-! ## The correspondence -/

/-- Two runs that differ in the severity of a missing symbol, and may differ in the loops around
them. -/
def relabeling (a b : Severity) (Loops : Option LoopTargets → Option LoopTargets → Prop) :
    SameText :=
  SameText.each { Loops, Severities := fun x y => x = a ∧ y = b } (Event.Relabeled a b)

section

variable {a b : Severity} {Loops : Option LoopTargets → Option LoopTargets → Prop}

theorem relabeling_relates :
    SameText.Relates { Loops, Severities := fun x y => x = a ∧ y = b } (Event.Relabeled a b) where
  given _ := .same _
  missing pos problem severities := by
    obtain ⟨rfl, rfl⟩ := severities
    exact .report pos problem
  resumed hs := SameText.same_resumed hs

theorem relabeling_lawful (noLoop : Loops none none) (sameLoop : ∀ t, Loops (some t) (some t)) :
    (relabeling a b Loops).correspondence.Lawful where
  toLawfulSettings := SameText.lawfulSettings { noLoop := noLoop, sameLoop := sameLoop }
  guise := SameText.same_lawful fun _ => trivial
  toLawfulEvents := SameText.lawfulEvents relabeling_relates

theorem relabeling_lawfulProgram : (relabeling a b Eq).correspondence.LawfulProgram where
  expressions := relabeling_lawful rfl fun _ => rfl
  toLawfulStatements := SameText.lawfulStatements relabeling_relates Eq.symm

end

/-! ## Productions -/

section

open Correspondence

variable {a b : Severity} {Loops : Option LoopTargets → Option LoopTargets → Prop}

theorem relabeling_stream (s : Tokens) : (relabeling a b Loops).correspondence.Stream s s :=
  ⟨rfl, fun _ _ => trivial⟩

theorem relabeling_surroundings {env : Env} {targets : Option LoopTargets}
    (loops : Loops env.loop targets) :
    (relabeling env.structural b Loops).correspondence.Surroundings env
      { env with structural := b, loop := targets } :=
  ⟨trivial, rfl, rfl, loops, rfl, rfl⟩

theorem Run.Alike.of_matches {env : Env} {m k : Nat} {s : Tokens} {α : Type} {V : α → α → Prop}
    {x y : Attempt s α} (h : (relabeling a b Loops).correspondence.Matches env true m k V x y)
    (same : ∀ v v', V v v' → v' = v) : Run.Alike x y a b := by
  obtain ⟨⟨rest, -⟩, tried⟩ := h.resolve_left id
  exact ⟨(tried.value_eq same).symm, rest.symm, tried.events⟩

end

section

open Correspondence

variable (env : Env) (b : Severity)

/-- Expressions do not look at the loop around them. -/
theorem expression_alike (targets : Option LoopTargets) (s : Tokens) :
    (expression env s).Alike (expression { env with structural := b, loop := targets } s)
      env.structural b := by
  have lawful := @relabeling_lawful env.structural b (fun _ _ => True) trivial fun _ => trivial
  exact .of_matches (expression_matches lawful (relabeling_surroundings trivial)
    (relabeling_stream s) 0) fun _ _ => Eq.symm

theorem condition_alike (targets : Option LoopTargets) (s : Tokens) :
    (condition env s).Alike (condition { env with structural := b, loop := targets } s)
      env.structural b := by
  have lawful := @relabeling_lawful env.structural b (fun _ _ => True) trivial fun _ => trivial
  exact .of_matches (condition_matches lawful (relabeling_surroundings trivial)
    (relabeling_stream s)) fun _ _ _ => rfl

theorem statement_alike (c : Counters) (s : Tokens) :
    (statement env c s).1.Alike (statement { env with structural := b } c s).1
      env.structural b := by
  obtain ⟨⟨rest, -⟩, same⟩ := (statement_matches relabeling_lawfulProgram
    (relabeling_surroundings rfl) (rfl : c = c) (relabeling_stream s)).resolve_left id
  exact ⟨(SameText.outcome_eq same).symm, rest.symm, same.events⟩

theorem program_alike (c : Counters) (s : Tokens) :
    (program env c s).Alike (program { env with structural := b } c s) env.structural b := by
  obtain ⟨⟨rest, -⟩, same⟩ := (program_matches relabeling_lawfulProgram
    (relabeling_surroundings rfl) (rfl : c = c) (relabeling_stream s)).resolve_left id
  exact ⟨same.counters.symm, rest.symm, same.events⟩

end

/-! ## Passes -/

/-- A program is read to the end of the input. -/
theorem program_atEnd (env : Env) (c : Counters) (s : Tokens) :
    (program env c s).rest.atEnd = true := by
  rw [program]
  split
  · rename_i atEnd
    exact atEnd
  · rename_i going
    have shorter := (statement env c s).2 (by simpa using going)
    exact program_atEnd env (statement env c s).1.value.counters (statement env c s).1.rest
termination_by s.left
decreasing_by all_goals omega

/-- The same diagnostic, but that severity `a` may have become severity `b`. -/
def Diagnostic.Relabeled (a b : Severity) (d d' : Diagnostic) : Prop :=
  d.pos = d'.pos ∧ d.message = d'.message ∧
    (d.severity = d'.severity ∨ d.severity = a ∧ d'.severity = b)

section Relabeled

variable {a b : Severity} {es fs : List Event}

/-- Steps of the draft have no severity. -/
theorem Draft.replay_relabeled (h : List.Forall₂ (Event.Relabeled a b) es fs) (d : Draft) :
    d.replay es = d.replay fs := by
  have steps : es.filterMap Event.command? = fs.filterMap Event.command? := by
    induction h with
    | nil => rfl
    | cons first _ ih =>
      cases first with
      | same e => rw [List.filterMap_cons, List.filterMap_cons, ih]
      | report pos problem => exact ih
  rw [Draft.replay, Draft.replay, steps]

theorem diagnostics_relabeled (h : List.Forall₂ (Event.Relabeled a b) es fs) :
    List.Forall₂ (Diagnostic.Relabeled a b) (diagnostics es) (diagnostics fs) := by
  refine List.rel_filterMap (R := Event.Relabeled a b) ?_ h
  rintro e f (_ | ⟨pos, problem⟩)
  · cases e.diagnostic? with
    | none => exact .none
    | some d => exact .some ⟨rfl, rfl, .inl rfl⟩
  · exact .some ⟨rfl, rfl, .inr ⟨rfl, rfl⟩⟩

end Relabeled

namespace Pass

variable (a b : Severity) (scopes : Scopes) (s : Tokens)

theorem run_alike :
    List.Forall₂ (Event.Relabeled a b) (run a scopes s).events (run b scopes s).events := by
  have alike := program_alike { scopes := scopes.withPrimitives, structural := a } b {} s
  exact List.rel_append (List.forall₂_same.2 fun e _ => .same e) alike.events

theorem listing_relabeled : (run a scopes s).listing = (run b scopes s).listing := by
  rw [listing, listing, Draft.replay_relabeled (run_alike a b scopes s)]

/-- A pass accepts exactly if it reports no error. -/
theorem accepted_run_iff :
    (run a scopes s).accepted = true ↔ ∀ d ∈ (run a scopes s).diagnostics, d.severity ≠ .error := by
  have atEnd : (run a scopes s).rest.atEnd = true := program_atEnd _ {} s
  simp [accepted, atEnd, Diagnostic.errorCount, List.countP_eq_zero]

end Pass

/-- A text that can be scanned is compiled to the listing and the diagnostics of a pass. -/
theorem compile_of_scan {source : String} {ts : List Token} (scanned : scan source = .ok ts)
    (structural : Severity) (scopes : Scopes) :
    ∃ c, compile source structural scopes = .ok c ∧
      (Pass.run structural scopes (.ofList ts)).listing = .ok c.listing ∧
      c.accepted = (Pass.run structural scopes (.ofList ts)).accepted ∧
      c.diagnostics = (Pass.run structural scopes (.ofList ts)).diagnostics := by
  have listed := Pass.listing_eq structural scopes (.ofList ts)
  unfold compile
  rw [scanned]
  dsimp only
  generalize Pass.run structural scopes (.ofList ts) = pass at listed ⊢
  rw [listed]
  exact ⟨_, rfl, rfl, rfl, rfl⟩

/-- Where severity `error` may have become another one, no error comes in. -/
theorem Diagnostic.Relabeled.clean {b : Severity} {ds ds' : List Diagnostic}
    (h : List.Forall₂ (Diagnostic.Relabeled .error b) ds ds')
    (clean : ∀ d ∈ ds, d.severity ≠ .error) : ∀ d ∈ ds', d.severity ≠ .error := by
  induction h with
  | nil => simp
  | cons first _ ih =>
    obtain ⟨notError, rest⟩ := List.forall_mem_cons.1 clean
    refine List.forall_mem_cons.2 ⟨?_, ih rest⟩
    obtain ⟨-, -, same | ⟨wasError, -⟩⟩ := first
    · rwa [← same]
    · exact absurd wasError notError

/-- **The severity of a missing symbol is only a label**: whatever the source text and the scopes,
two severities give the same lexical error, or the same listing with diagnostics that differ at most
in this severity. A compilation accepts exactly if it reports no error, so what is accepted with
severity `error` is accepted with any other. -/
theorem severity_only_labels (source : String) (scopes : Scopes) (a b : Severity) :
    ((∃ cause, compile source a scopes = .error (.lexical cause) ∧
        compile source b scopes = .error (.lexical cause)) ∨
      ∃ c c', compile source a scopes = .ok c ∧ compile source b scopes = .ok c' ∧
        c.listing = c'.listing ∧
        List.Forall₂ (Diagnostic.Relabeled a b) c.diagnostics c'.diagnostics ∧
        (c.accepted = true ↔ ∀ d ∈ c.diagnostics, d.severity ≠ .error) ∧
        (c'.accepted = true ↔ ∀ d ∈ c'.diagnostics, d.severity ≠ .error)) ∧
    ∀ c, compile source .error scopes = .ok c → c.accepted = true →
      ∃ c', compile source b scopes = .ok c' ∧ c'.accepted = true := by
  cases scanned : scan source with
  | error cause =>
    have fails (severity : Severity) :
        compile source severity scopes = .error (.lexical cause) := by
      rw [compile, scanned]
    refine ⟨.inl ⟨cause, fails a, fails b⟩, ?_⟩
    intro c compiled
    rw [fails] at compiled
    cases compiled
  | ok ts =>
    have relabeled (a b : Severity) :=
      diagnostics_relabeled (Pass.run_alike a b scopes (.ofList ts))
    refine ⟨.inr ?_, ?_⟩
    · obtain ⟨c, compiled, listed, accepted, reported⟩ := compile_of_scan scanned a scopes
      obtain ⟨c', compiled', listed', accepted', reported'⟩ := compile_of_scan scanned b scopes
      refine ⟨c, c', compiled, compiled', ?_, ?_, ?_, ?_⟩
      · rw [Pass.listing_relabeled a b, listed'] at listed
        exact Except.ok.inj listed.symm
      · rw [reported, reported']
        exact relabeled a b
      · rw [accepted, reported, Pass.accepted_run_iff]
      · rw [accepted', reported', Pass.accepted_run_iff]
    · intro c compiled accepts
      obtain ⟨c₁, compiled₁, -, accepted₁, -⟩ := compile_of_scan scanned .error scopes
      obtain ⟨c', compiled', -, accepted', -⟩ := compile_of_scan scanned b scopes
      obtain rfl : c₁ = c := Except.ok.inj (compiled₁.symm.trans compiled)
      refine ⟨c', compiled', ?_⟩
      rw [accepted₁, Pass.accepted_run_iff] at accepts
      rw [accepted', Pass.accepted_run_iff]
      exact Diagnostic.Relabeled.clean (relabeled .error b) accepts

end OnePass
