import OnePass.Proofs.Labels

/-!
# Balance

What a trace opens it closes. Replayed, it leaves the scopes that it hands on, it takes as many
slots of the innermost function as it counts, and no function stays open that was not open before.
-/

namespace OnePass

variable {env : Env} {c c' : Counters} {es : List Event} {scopes : Scopes}

/-! ## Scopes -/

namespace Scopes

@[simp] theorem replay_change (s : Scopes) (change : Change) (es : List Event) :
    s.replay (.scope change :: es) = (s.apply change).replay es := rfl

@[simp] theorem replay_code (s : Scopes) (command : Draft.Command) (es : List Event) :
    s.replay (.code command :: es) = s.replay es := rfl

@[simp] theorem replay_emit (s : Scopes) (i : Instruction) (es : List Event) :
    s.replay (.emit i :: es) = s.replay es := rfl

/-- Declarations in the innermost scope are gone when it is left. -/
theorem leave_declareAll (s : Scopes) (new : List Symbol) :
    (new.foldl declare s.enter).leave = s := by
  have inside : ∃ scope, new.foldl declare s.enter = { s with inner := scope :: s.inner } := by
    suffices ∀ scope, ∃ scope', new.foldl declare { s with inner := scope :: s.inner } =
        { s with inner := scope' :: s.inner } from this []
    induction new with
    | nil => exact fun scope => ⟨scope, rfl⟩
    | cons y new ih => exact fun scope => ih (y :: scope)
  obtain ⟨scope, h⟩ := inside
  rw [h]
  rfl

end Scopes

/-- The scopes that a trace hands on have new symbols in the innermost scope and no other
change. -/
theorem Trace.declares (h : Trace env c es scopes c') :
    ∃ new : List Symbol, scopes = new.foldl Scopes.declare env.scopes := by
  induction h with
  | append _ _ ih₁ ih₂ =>
    obtain ⟨new, rfl⟩ := ih₁
    obtain ⟨later, rfl⟩ := ih₂
    exact ⟨new ++ later, by simp⟩
  | @declare env c name type pos _ => exact ⟨[env.localSymbol c name type pos], rfl⟩
  | @define _ _ _ _ _ _ _ _ _ f _ _ _ _ _ => exact ⟨[f], rfl⟩
  | _ => exact ⟨[], rfl⟩

theorem Quiet.replay_scopes (h : Quiet env es) (s : Scopes) : s.replay es = s := by
  induction h with
  | nil => rfl
  | report severity pos problem _ ih => exact ih
  | emit _ _ ih => exact ih

/-- The scopes after a trace are those that it hands on. -/
theorem Trace.replay_scopes (h : Trace env c es scopes c') : env.scopes.replay es = scopes := by
  induction h with
  | quiet events => exact events.replay_scopes _
  | append _ _ ih₁ ih₂ => rw [Scopes.replay_append, ih₁, ih₂]
  | @block env _ _ es _ inner ih =>
    obtain ⟨new, rfl⟩ := inner.declares
    have left := env.scopes.leave_declareAll new
    simpa [Scopes.apply, ih] using left
  | declare _ => rfl
  | @define env _ _ es _ _ _ _ _ f symbol _ _ _ inner ih =>
    obtain ⟨new, rfl⟩ := inner.declares
    -- The parameter is one more symbol of the scope that is left.
    have left := (env.scopes.declare f).leave_declareAll (symbol :: new)
    have ended : ((env.scopes.declare f).enter.declare symbol).replay es =
        new.foldl Scopes.declare ((env.scopes.declare f).enter.declare symbol) := ih
    simpa [Scopes.apply, ended] using left
  | ifThen _ ih => simpa using ih
  | ifElse _ _ ih₁ ih₂ => simp [ih₁, ih₂]
  | loop condition _ ih => simpa [condition.replay_scopes, Env.inLoop] using ih
  | failedLoop condition => simp [condition.replay_scopes]

/-! ## Open functions -/

/-- How many functions are open after an event, if there were `n`. -/
def Event.depthAfter (n : Nat) : Event → Nat
  | .code (.openFunction _ _) => n + 1
  | .code .closeFunction => n - 1
  | _ => n

/-- How many functions are open after some events, if there were `n`. -/
def depthAfter (n : Nat) (es : List Event) : Nat := es.foldl Event.depthAfter n

namespace Draft

variable (d : Draft)

theorem length_opened_modifyCurrent (f : Body → Body) :
    (d.modifyCurrent f).opened.length = d.opened.length := by
  unfold modifyCurrent
  split
  · simp_all
  · simp_all

theorem length_opened_apply (command : Command) :
    (d.apply command).opened.length = Event.depthAfter d.opened.length (.code command) := by
  cases command with
  | reserveLocal name type => exact d.length_opened_modifyCurrent _
  | reserveLabel => rfl
  | emit i =>
    rw [apply, emit_eq]
    exact d.length_opened_modifyCurrent _
  | openFunction link signature => rfl
  | closeFunction =>
    simp only [apply, closeFunction, Event.depthAfter]
    split
    · simp_all
    · simp_all

/-- As many functions are open in a draft as the events say. -/
theorem length_opened_replay (es : List Event) :
    (d.replay es).opened.length = depthAfter d.opened.length es := by
  induction es generalizing d with
  | nil => rfl
  | cons e es ih =>
    rw [replay_cons, ih]
    cases e with
    | scope change => rfl
    | report severity pos problem => rfl
    | code command =>
      change depthAfter (d.apply command).opened.length es = _
      rw [length_opened_apply]
      rfl

end Draft

/-- What adds a piece to every draft leaves as many functions open as there were. -/
theorem Builds.depthAfter_eq {p : Piece} (h : Builds es p) (n : Nat) : depthAfter n es = n := by
  obtain ⟨marks, hd⟩ := h { opened := List.replicate n { name := "", signature := none } }
  have opened := Draft.length_opened_replay
    { opened := List.replicate n { name := "", signature := none } } es
  rw [hd] at opened
  have kept := Draft.length_opened_modifyCurrent
    { opened := List.replicate n { name := "", signature := none } } (·.extend p)
  simpa [Draft.extend, kept] using opened.symm

theorem Trace.depthAfter_eq (h : Trace env c es scopes c') (n : Nat) : depthAfter n es = n := by
  obtain ⟨p, hp, -⟩ := h.builds
  exact hp.depthAfter_eq n

/-! ## Slots -/

namespace Draft

variable (d : Draft)

theorem nextSlot_extend (p : Piece) (marks : Array Nat) :
    nextSlot { d.extend p with marks } = d.nextSlot + p.locals.length := by
  obtain ⟨opened, entry, closed, old⟩ := d
  cases opened with
  | nil => simp [nextSlot, current, extend, modifyCurrent, Body.extend]
  | cons b outer => simp [nextSlot, current, extend, modifyCurrent, Body.extend]

@[simp] theorem nextSlot_emit (i : Instruction) : (d.emit i).nextSlot = d.nextSlot := by
  rw [emit_eq, nextSlot_extend]
  rfl

@[simp] theorem nextSlot_reserveLabel : d.reserveLabel.nextSlot = d.nextSlot := rfl

@[simp] theorem nextSlot_reserveLocal (name : String) (type : ValueType) :
    (d.reserveLocal name type).nextSlot = d.nextSlot + 1 := by
  rw [reserveLocal_eq, nextSlot_extend]
  rfl

@[simp] theorem replay_change (change : Scopes.Change) (es : List Event) :
    d.replay (.scope change :: es) = d.replay es := rfl

@[simp] theorem replay_report (severity : Severity) (pos : Position) (problem : Problem)
    (es : List Event) : d.replay (.report severity pos problem :: es) = d.replay es := rfl

@[simp] theorem replay_emit (i : Instruction) (es : List Event) :
    d.replay (.emit i :: es) = (d.emit i).replay es := rfl

@[simp] theorem replay_code (command : Command) (es : List Event) :
    d.replay (.code command :: es) = (d.apply command).replay es := rfl

end Draft

@[simp] theorem Counters.locals_withLabel (c : Counters) : c.withLabel.locals = c.locals := rfl

theorem Quiet.nextSlot_replay (h : Quiet env es) (d : Draft) :
    (d.replay es).nextSlot = d.nextSlot := by
  induction h generalizing d with
  | nil => rfl
  | report severity pos problem _ ih => exact ih d
  | emit _ _ ih => simp [ih]

/-- The next slot after a trace is the one that it counts to. -/
theorem Trace.nextSlot_replay (h : Trace env c es scopes c') {d : Draft}
    (hd : d.nextSlot = c.locals) : (d.replay es).nextSlot = c'.locals := by
  induction h generalizing d with
  | quiet events => rw [events.nextSlot_replay, hd]
  | append _ _ ih₁ ih₂ =>
    rw [Draft.replay_append]
    exact ih₂ (ih₁ hd)
  | block _ ih => simpa using ih hd
  | declare _ => simp [Draft.apply, hd, Counters.withLocal]
  | @define _ _ _ es _ _ _ _ p f symbol _ _ _ inner _ =>
    -- Its locals are not those of the function around it.
    obtain ⟨piece, hp, -⟩ := inner.builds
    obtain ⟨marks, whole⟩ := Builds.definition f symbol _ _ p.name p.type hp d
    rw [whole, Draft.nextSlot_extend]
    simpa using hd
  | ifThen _ ih =>
    simp only [List.cons_append, List.nil_append, Draft.replay_code, Draft.replay_emit,
      Draft.replay_append, Draft.replay_nil, Draft.nextSlot_emit]
    exact ih (by simpa [Draft.apply] using hd)
  | ifElse _ _ ih₁ ih₂ =>
    simp only [List.cons_append, List.nil_append, Draft.replay_code, Draft.replay_emit,
      Draft.replay_append, Draft.replay_nil, Draft.nextSlot_emit]
    refine ih₂ ?_
    simpa [Draft.apply] using ih₁ (by simpa [Draft.apply] using hd)
  | loop condition _ ih =>
    simp only [List.cons_append, List.nil_append, Draft.replay_code, Draft.replay_emit,
      Draft.replay_append, Draft.replay_nil, Draft.nextSlot_emit]
    exact ih (by simpa [Draft.apply, condition.nextSlot_replay] using hd)
  | failedLoop condition => simpa [Draft.apply, condition.nextSlot_replay] using hd

end OnePass
