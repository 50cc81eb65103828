import OnePass.Proofs.Correspondence.Statement

/-!
# Quiet events

Expressions, conditions and simple statements only report and emit instructions. They neither open
nor close anything, and what they emit is tied to the surroundings: a slot belongs to a variable of
the innermost function that is visible by some name, a call goes to a function that is visible, and
a jump leads to a target of the innermost loop. They never mark a label.

Everything that later holds of all runs of the compiler begins with this.
-/

namespace OnePass

/-- The instructions that may stand between the structured parts of a program. -/
def Env.Permits (env : Env) : Instruction → Prop
  | .mark _ | .jumpUnless _ => False
  | .jump label => ∃ t, env.loop = some t ∧ (label = t.next ∨ label = t.exit)
  | .load slot | .store slot => ∃ type, env.Owns type slot
  | .call link =>
    ∃ name signature, (env.scopes.find? name).map Symbol.meaning = some (.function link signature)
  | _ => True

/-- Reports, and instructions that the surroundings permit. -/
inductive Quiet (env : Env) : List Event → Prop
  | nil : Quiet env []
  | report {es : List Event} (severity : Severity) (pos : Position) (problem : Problem) :
    Quiet env es → Quiet env (.report severity pos problem :: es)
  | emit {es : List Event} {i : Instruction} :
    env.Permits i → Quiet env es → Quiet env (.emit i :: es)

namespace Quiet

variable {env : Env}

/-- Quiet events stay quiet side by side. -/
theorem append {es fs : List Event} (he : Quiet env es) (hf : Quiet env fs) :
    Quiet env (es ++ fs) := by
  induction he with
  | nil => exact hf
  | report severity pos problem _ ih => exact .report severity pos problem ih
  | emit hi _ ih => exact .emit hi ih

end Quiet

/-! ## The correspondence -/

/-- The claim that events are quiet, with any claim about those of whole statements. -/
def quieting (Closes : Env → Counters → List Event → List Event → Scopes → Counters → Prop) :
    SameText where
  Passes env _ _ es _ := Quiet env es
  Fails env _ es _ := Quiet env es
  Closes := Closes

section

variable {Closes : Env → Counters → List Event → List Event → Scopes → Counters → Prop}
  {env : Env}

theorem Env.permits_of_isInert (env : Env) {i : Instruction} (h : i.isInert) : env.Permits i := by
  cases i <;> trivial

/-- Whatever an expression emits is permitted in its surroundings: slots and links come from visible
symbols. -/
theorem permits_of_emitted {P : SameText} {i : Instruction}
    (h : P.correspondence.Emitted env i i) : env.Permits i := by
  cases h with
  | fixed h => exact env.permits_of_isInert h.isInert
  | literal _ h => exact env.permits_of_isInert (Token.Kind.isInert_literal h)
  | signedLiteral _ h => exact env.permits_of_isInert (Token.Kind.isInert_signedLiteral h)
  | @load type _ _ h => exact ⟨type, h.2⟩
  | @store type _ _ h => exact ⟨type, h.2⟩
  | call h => exact h.2

/-- Quiet events obey the laws of expressions, whatever is claimed of whole statements. -/
theorem quieting_lawful : (quieting Closes).correspondence.Lawful where
  toLawfulSettings := SameText.lawfulSettings {}
  guise := SameText.same_lawful fun _ => trivial
  nil := .nil
  append he hf := Quiet.append he hf
  append_fails he hf := Quiet.append he hf
  emit _ _ emitted := by
    obtain rfl := SameText.eq_of_emitted emitted
    exact .emit (permits_of_emitted emitted) .nil
  ret := .emit trivial .nil
  warn _ _ _ := .report _ _ _ .nil
  error _ _ hs _ := SameText.same_resumed hs (.report _ _ _ .nil)
  missing _ hs _ _ := SameText.same_resumed hs (.report _ _ _ .nil)

/-- The jumps of a loop lead to its own targets. -/
theorem quieting_jumps {env env' : Env}
    (h : (quieting Closes).correspondence.Surroundings env env') :
    (quieting Closes).correspondence.Jumps env env' := by
  have same : env.loop = env'.loop := h.loop
  rw [Correspondence.Jumps, ← same]
  cases loop : env.loop with
  | none => exact .none
  | some t => exact .some ⟨.emit ⟨t, loop, .inr rfl⟩ .nil, .emit ⟨t, loop, .inl rfl⟩ .nil⟩

/-- A run that corresponds to itself gives out quiet events. -/
theorem Quiet.of_matches {m k : Nat} {s : Tokens} {α : Type} {V : α → α → Prop}
    {x : Attempt s α} (h : (quieting Closes).correspondence.Matches env true m k V x x) :
    Quiet env x.events :=
  (h.resolve_left id).2.events

end

/-! ## Expressions and simple statements -/

section

open Correspondence

variable (env : Env)

/-- Quiet events, and nothing claimed of whole statements. -/
def quietly : Correspondence := (quieting fun _ _ _ _ _ _ => True).correspondence

theorem quietly_lawful : quietly.Lawful := quieting_lawful

theorem quietly_refl : quietly.Surroundings env env := .refl env trivial rfl rfl

theorem quietly_stream (s : Tokens) : quietly.Stream s s := ⟨rfl, fun _ _ => trivial⟩

/-- An expression gives out quiet events, and so does each of its parts. -/
theorem expression_quiet (s : Tokens) : Quiet env (expression env s).events :=
  .of_matches (expression_matches quietly_lawful (quietly_refl env) (quietly_stream s) 0)

theorem additive_quiet (s : Tokens) : Quiet env (additive env s).events :=
  .of_matches (additive_matches quietly_lawful (quietly_refl env) (quietly_stream s) 0)

theorem additiveRest_quiet (lhs : ValueType) (s : Tokens) :
    Quiet env (additiveRest env lhs s).events :=
  .of_matches (additiveRest_matches quietly_lawful (quietly_refl env) lhs (quietly_stream s) 0)

theorem multiplicative_quiet (s : Tokens) : Quiet env (multiplicative env s).events :=
  .of_matches (multiplicative_matches quietly_lawful (quietly_refl env) (quietly_stream s) 0)

theorem multiplicativeRest_quiet (lhs : ValueType) (s : Tokens) :
    Quiet env (multiplicativeRest env lhs s).events :=
  .of_matches
    (multiplicativeRest_matches quietly_lawful (quietly_refl env) lhs (quietly_stream s) 0)

theorem simple_quiet (s : Tokens) : Quiet env (simple env s).events :=
  .of_matches (simple_matches quietly_lawful (quietly_refl env) (quietly_stream s) 0)

theorem signed_quiet (negative : Bool) (s : Tokens) : Quiet env (signed env negative s).events :=
  .of_matches (signed_matches quietly_lawful (quietly_refl env) negative (quietly_stream s) 0)

theorem primary_quiet (s : Tokens) : Quiet env (primary env s).events :=
  .of_matches (primary_matches quietly_lawful (quietly_refl env) (quietly_stream s) 0)

theorem named_quiet (name : String) (pos : Position) (s : Tokens) :
    Quiet env (named env name pos s).events :=
  .of_matches (named_matches quietly_lawful (quietly_refl env) name rfl (quietly_stream s) 0)

theorem condition_quiet (s : Tokens) : Quiet env (condition env s).events :=
  .of_matches (condition_matches quietly_lawful (quietly_refl env) (quietly_stream s))

/-- A simple statement opens and closes nothing. -/
theorem simpleStatement_quiet (s : Tokens) : Quiet env (simpleStatement env s).events :=
  .of_matches (simpleStatement_matches quietly_lawful (quietly_refl env)
    (quieting_jumps (quietly_refl env)) (quietly_stream s))

/-! ## Declarations -/

/-- Also in other surroundings than those that give the severity. -/
theorem expect_quiet (outer : Env) (symbol : String) (s : Tokens) :
    Quiet env (expect outer symbol s).events := by
  unfold expect
  split
  · exact .nil
  · exact .report _ _ _ .nil

theorem identifier_quiet (s : Tokens) : Quiet env (identifier s).events :=
  .of_matches (identifier_matches quietly_lawful (quietly_refl env) (quietly_stream s) (m := 0))

theorem follow_quiet {α : Type} {s : Tokens} (pos : Position) (j : Judgement α) :
    Quiet env (follow pos j : Attempt s α).events := by
  cases j with
  | accepted a => exact .nil
  | widened a warning => exact .report _ _ _ .nil
  | refused problem => exact .report _ _ _ .nil

theorem parameter_quiet (s : Tokens) : Quiet env (parameter env s).events :=
  .of_matches (parameter_matches quietly_lawful (quietly_refl env) (quietly_stream s))

end

end OnePass
