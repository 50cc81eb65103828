import OnePass.Proofs.Procedure.Transcript

/-!
# Contracts of routines

What a script does from a session, in terms of what the routines do that it invokes. A contract says
of each routine how the session it leaves is related to the one it was invoked on. A script meets a
postcondition under a contract if it does so whatever its routines leave, as long as they keep to
the contract.

The routines invoke one another without any measure, so a contract cannot be proved by recursion on
them. It is proved on the runs that come to an end: if the text of each routine keeps to the
contract whenever the routines it invokes do, every run does (`Script.Runs.meets`).
-/

namespace OnePass

/-- What each routine promises of the session it leaves, and of its value. -/
abbrev Contract := ∀ {β : Type}, Routine β → Session → β → Session → Prop

/-- From the session `x`, a script ends as `Q` says, if the routines keep to the contract. -/
def Script.Meets (C : Contract) {α : Type} : Script α → (α → Session → Prop) → Session → Prop
  | .done a, Q, x => Q a x
  | .step f next, Q, x => (next (f x).1).Meets C Q (f x).2
  | .calls routine next, Q, x => ∀ b y, C routine x b y → (next b).Meets C Q y

namespace Script.Meets

variable {C : Contract} {α β : Type} {m : Script α} {k : α → Script β} {x : Session}

theorem mono {Q Q' : α → Session → Prop} (h : m.Meets C Q x) (hQ : ∀ a y, Q a y → Q' a y) :
    m.Meets C Q' x := by
  induction m generalizing x with
  | done a => exact hQ a x h
  | step f next ih => exact ih _ h
  | calls routine next ih => exact fun b y kept => ih b (h b y kept)

/-- One script after another. -/
theorem bind {Q : α → Session → Prop} {Q' : β → Session → Prop} (h : m.Meets C Q x)
    (hk : ∀ a y, Q a y → (k a).Meets C Q' y) : (m >>= k).Meets C Q' x := by
  induction m generalizing x with
  | done a => exact hk a x h
  | step f next ih => exact ih _ h
  | calls routine next ih => exact fun b y kept => ih b (h b y kept)

theorem pure {Q : α → Session → Prop} {a : α} (h : Q a x) : (Pure.pure a : Script α).Meets C Q x :=
  h

theorem invoke (routine : Routine α) : (Script.invoke routine).Meets C (C routine x) x :=
  fun _ _ kept => kept

theorem token {k : Token → Script β} {Q : β → Session → Prop} (h : (k x.token).Meets C Q x) :
    (Script.token >>= k).Meets C Q x :=
  h

theorem state {k : State → Script β} {Q : β → Session → Prop} (h : (k x.state).Meets C Q x) :
    (Script.state >>= k).Meets C Q x :=
  h

theorem modify {f : Session → Session} {Q : Unit → Session → Prop} (h : Q () (f x)) :
    (Script.modify f).Meets C Q x :=
  h

end Script.Meets

/-- The text of each routine keeps to the contract, if the routines it invokes do. -/
def Contract.Kept (C : Contract) : Prop :=
  ∀ {β : Type} (routine : Routine β) (x : Session), routine.text.Meets C (C routine x) x

/-- **A contract that is kept holds of every run.** -/
theorem Script.Runs.meets {C : Contract} (kept : C.Kept) {α : Type} {m : Script α} {x y : Session}
    {a : α} {Q : α → Session → Prop} (run : m.Runs x a y) (h : m.Meets C Q x) : Q a y := by
  induction run with
  | done a x => exact h
  | step _ ih => exact ih h
  | @calls _ _ routine _ x _ _ _ _ _ _ ihInner ih => exact ih (h _ _ (ihInner (kept routine x)))

end OnePass
