import OnePass.Compilation
import OnePass.Proofs.Piece
import OnePass.Proofs.Trace

/-!
# Labels

Whatever the compiler reads, its labels are in order: a label is used only after it was reserved,
every reserved label is marked exactly once, and a mark stands in the same function as the jumps to
it. So a draft can always be finished, and only a lexical error ends a compilation.

The argument is an induction on traces. A conditional and a loop mark their own labels exactly once
on each path, and what they enclose accounts for the labels reserved inside. A jump leads either to
a mark within the same construct or to the loop around it, and a function body has no loop around
it.
-/

namespace OnePass

def Instruction.label? : Instruction → Option Nat
  | .mark label | .jump label | .jumpUnless label => some label
  | _ => none

def Instruction.target? : Instruction → Option Nat
  | .jump label | .jumpUnless label => some label
  | _ => none

def Event.label? : Event → Option Nat
  | .code (.emit i) => i.label?
  | _ => none

/-- The labels named in a list of events are reserved before, given that there are `n` at first. -/
def LabelsKnown : Nat → List Event → Prop
  | _, [] => True
  | n, e :: es =>
    (∀ label, e.label? = some label → label < n) ∧
      LabelsKnown (if e = .code .reserveLabel then n + 1 else n) es

def reservedIn (es : List Event) : Nat := es.count (.code .reserveLabel)

def marksIn (label : Nat) (es : List Event) : Nat := es.count (.emit (.mark label))

section Small

variable (c : Counters) (name : String) (i j : Instruction)

@[simp] theorem Counters.labels_withLabel : c.withLabel.labels = c.labels + 1 := rfl

@[simp] theorem Counters.labels_withLocal : c.withLocal.labels = c.labels := rfl

@[simp] theorem Counters.labels_inFunction : (c.inFunction name).labels = c.labels := rfl

@[simp] theorem Event.label?_emit : (Event.emit i).label? = i.label? := rfl

@[simp] theorem Event.emit_eq_emit : Event.emit i = Event.emit j ↔ i = j := by
  simp [Event.emit]

@[simp] theorem Event.emit_ne_reserveLabel : Event.emit i ≠ .code .reserveLabel := by
  simp [Event.emit]

@[simp] theorem Event.code_eq_emit (command : Draft.Command) :
    Event.code command = Event.emit i ↔ command = .emit i := by
  simp [Event.emit]

@[simp] theorem Event.scope_ne_emit (change : Scopes.Change) :
    Event.scope change ≠ Event.emit i := by
  simp [Event.emit]

@[simp] theorem Event.report_ne_emit (severity : Severity) (pos : Position) (problem : Problem) :
    Event.report severity pos problem ≠ Event.emit i := by
  simp [Event.emit]

end Small

section Counting

variable (n label : Nat) (e : Event) (es fs : List Event)

@[simp] theorem reservedIn_nil : reservedIn [] = 0 := rfl

@[simp] theorem marksIn_nil : marksIn label [] = 0 := rfl

@[simp] theorem reservedIn_append : reservedIn (es ++ fs) = reservedIn es + reservedIn fs :=
  List.count_append

@[simp] theorem marksIn_append : marksIn label (es ++ fs) = marksIn label es + marksIn label fs :=
  List.count_append

@[simp] theorem reservedIn_cons :
    reservedIn (e :: es) = (if e = .code .reserveLabel then 1 else 0) + reservedIn es := by
  simp [reservedIn, List.count_cons, Nat.add_comm]

@[simp] theorem marksIn_cons :
    marksIn label (e :: es) = (if e = .emit (.mark label) then 1 else 0) + marksIn label es := by
  simp [marksIn, List.count_cons, Nat.add_comm]

@[simp] theorem labelsKnown_nil : LabelsKnown n [] := trivial

@[simp] theorem labelsKnown_emit (i : Instruction) :
    LabelsKnown n (.emit i :: es) ↔ (∀ label ∈ i.label?, label < n) ∧ LabelsKnown n es := by
  simp [LabelsKnown]

@[simp] theorem labelsKnown_reserveLabel :
    LabelsKnown n (.code .reserveLabel :: es) ↔ LabelsKnown (n + 1) es := by
  simp [LabelsKnown, Event.label?]

/-- Events that neither name nor reserve a label do not matter. -/
theorem labelsKnown_cons (hl : e.label? = none) (hr : e ≠ .code .reserveLabel) :
    LabelsKnown n (e :: es) ↔ LabelsKnown n es := by
  simp [LabelsKnown, hl, hr]

@[simp] theorem labelsKnown_scope (change : Scopes.Change) :
    LabelsKnown n (.scope change :: es) ↔ LabelsKnown n es :=
  labelsKnown_cons n _ es rfl (by simp)

@[simp] theorem labelsKnown_report (severity : Severity) (pos : Position) (problem : Problem) :
    LabelsKnown n (.report severity pos problem :: es) ↔ LabelsKnown n es :=
  labelsKnown_cons n _ es rfl (by simp)

@[simp] theorem labelsKnown_reserveLocal (name : String) (type : ValueType) :
    LabelsKnown n (.code (.reserveLocal name type) :: es) ↔ LabelsKnown n es :=
  labelsKnown_cons n _ es rfl (by simp)

@[simp] theorem labelsKnown_openFunction (link : String) (signature : Signature) :
    LabelsKnown n (.code (.openFunction link signature) :: es) ↔ LabelsKnown n es :=
  labelsKnown_cons n _ es rfl (by simp)

@[simp] theorem labelsKnown_closeFunction :
    LabelsKnown n (.code .closeFunction :: es) ↔ LabelsKnown n es :=
  labelsKnown_cons n _ es rfl (by simp)

@[simp] theorem labelsKnown_append :
    LabelsKnown n (es ++ fs) ↔ LabelsKnown n es ∧ LabelsKnown (n + reservedIn es) fs := by
  induction es generalizing n with
  | nil => simp [LabelsKnown]
  | cons e es ih =>
    by_cases h : e = .code .reserveLabel
    · subst h
      simp [ih, Nat.add_assoc]
    · simp [LabelsKnown, h, ih, and_assoc]

end Counting

/-! ## Jumps of a piece -/

def IsLoopTarget (loop : Option LoopTargets) (label : Nat) : Prop :=
  ∃ t, loop = some t ∧ (label = t.next ∨ label = t.exit)

/-- The jumps in a function lead to marks in it. -/
def Body.JumpsWithin (b : Body) : Prop :=
  ∀ i ∈ b.code, ∀ label, i.target? = some label → .mark label ∈ b.code

/-- The jumps in a piece lead to marks in it or to labels `outside`, and those in its functions to
marks in the same function. -/
structure Piece.JumpsWithin (p : Piece) (outside : Nat → Prop) : Prop where
  code : ∀ i ∈ p.code, ∀ label, i.target? = some label → .mark label ∈ p.code ∨ outside label
  functions : ∀ b ∈ p.functions, b.JumpsWithin

namespace Piece.JumpsWithin

variable {p q : Piece} {O O' : Nat → Prop}

theorem append (hp : p.JumpsWithin O) (hq : q.JumpsWithin O) : (p ++ q).JumpsWithin O := by
  constructor
  · intro i hi label hl
    rw [code_append, List.mem_append] at hi ⊢
    rcases hi with hi | hi
    · exact (hp.code i hi label hl).imp_left .inl
    · exact (hq.code i hi label hl).imp_left .inr
  · intro b hb
    exact (List.mem_append.1 hb).elim (hp.functions b) (hq.functions b)

theorem instructions {is : List Instruction}
    (h : ∀ i ∈ is, ∀ label, i.target? = some label → O label) :
    Piece.JumpsWithin { code := is } O :=
  ⟨fun i hi label hl => .inr (h i hi label hl), by simp⟩

/-- Labels that are marked in a piece are no longer outside. -/
theorem close (hp : p.JumpsWithin O) (h : ∀ label, O label → .mark label ∈ p.code ∨ O' label) :
    p.JumpsWithin O' := by
  refine ⟨?_, hp.functions⟩
  intro i hi label hl
  rcases hp.code i hi label hl with hm | ho
  · exact .inl hm
  · exact h label ho

end Piece.JumpsWithin

/-! ## Labels of a trace -/

section Quiet

variable {env : Env} {es : List Event}

theorem Quiet.reservedIn (h : Quiet env es) : reservedIn es = 0 := by
  induction h with
  | nil => rfl
  | report severity pos problem _ ih => simp [ih]
  | emit _ _ ih => simp [ih]

theorem Quiet.marksIn (h : Quiet env es) (label : Nat) : marksIn label es = 0 := by
  induction h with
  | nil => rfl
  | report severity pos problem _ ih => simp [ih]
  | @emit es i hi _ ih =>
    have hne : i ≠ .mark label := by
      rintro rfl
      exact hi
    simp [hne, ih]

theorem Quiet.builds (h : Quiet env es) :
    ∃ p, Builds es p ∧ p.JumpsWithin (IsLoopTarget env.loop) := by
  induction h with
  | nil => exact ⟨{}, .nil, .instructions (by simp)⟩
  | report severity pos problem _ ih =>
    obtain ⟨p, hp, jp⟩ := ih
    exact ⟨_, .append (.silent rfl) hp, .append (.instructions (by simp)) jp⟩
  | @emit es i hi _ ih =>
    obtain ⟨p, hp, jp⟩ := ih
    refine ⟨_, .append (.emit i) hp, .append (.instructions ?_) jp⟩
    intro j hj label hl
    obtain rfl := List.mem_singleton.1 hj
    cases j with
    | jump _ => cases hl; exact hi
    | jumpUnless _ => exact hi.elim
    | _ => cases hl

/-- The targets of the loop around are among the labels reserved. -/
def Env.TargetsBelow (env : Env) (n : Nat) : Prop :=
  ∀ t, env.loop = some t → t.next < n ∧ t.exit < n

theorem Env.TargetsBelow.mono {n m : Nat} (h : env.TargetsBelow n) (hm : n ≤ m) :
    env.TargetsBelow m := by
  intro t hloop
  have := h t hloop
  omega

theorem Quiet.labelsKnown {n : Nat} (h : Quiet env es) (ht : env.TargetsBelow n) :
    LabelsKnown n es := by
  induction h with
  | nil => trivial
  | report severity pos problem _ ih => simpa using ih
  | @emit es i hi _ ih =>
    rw [labelsKnown_emit]
    refine ⟨?_, ih⟩
    intro label hl
    cases i with
    | jump target =>
      cases hl
      obtain ⟨t, hloop, rfl | rfl⟩ := hi
      · exact (ht t hloop).1
      · exact (ht t hloop).2
    | mark _ => exact hi.elim
    | jumpUnless _ => exact hi.elim
    | _ => cases hl

end Quiet

namespace Trace

variable {env : Env} {c c' : Counters} {es : List Event} {scopes : Scopes}

/-- The counter of labels counts the labels reserved. -/
theorem labels_eq (h : Trace env c es scopes c') : c'.labels = c.labels + reservedIn es := by
  induction h with
  | quiet events => rw [events.reservedIn]; rfl
  | append _ _ ih₁ ih₂ => rw [ih₂, ih₁, reservedIn_append, Nat.add_assoc]
  | block _ ih => simpa using ih
  | declare _ => simp
  | define _ _ _ _ ih => simpa using ih
  | ifThen _ ih => simp [ih]; omega
  | ifElse _ _ ih₁ ih₂ => simp [ih₁, ih₂]; omega
  | loop condition _ ih => simp [ih, condition.reservedIn]; omega
  | failedLoop condition => simp [condition.reservedIn]

/-- A trace marks the labels that it reserves, each of them once, and no other. -/
theorem marksIn_eq (h : Trace env c es scopes c') (label : Nat) :
    marksIn label es = if c.labels ≤ label ∧ label < c'.labels then 1 else 0 := by
  induction h with
  | quiet events => rw [events.marksIn]; simp
  | append h₁ h₂ ih₁ ih₂ =>
    have := h₁.labels_eq
    have := h₂.labels_eq
    rw [marksIn_append, ih₁, ih₂]
    grind
  | block _ ih => simpa using ih
  | declare _ =>
    simp
    grind
  | define _ _ _ _ ih =>
    simp at ih ⊢
    grind
  | ifThen h ih =>
    have := h.labels_eq
    simp [ih] at this ⊢
    grind
  | ifElse h₁ h₂ ih₁ ih₂ =>
    have := h₁.labels_eq
    have := h₂.labels_eq
    simp [ih₁, ih₂] at *
    grind
  | loop condition h ih =>
    have := h.labels_eq
    simp [ih, condition.marksIn] at this ⊢
    grind
  | failedLoop condition =>
    simp [condition.marksIn]
    grind

/-- A trace names labels only after they are reserved, if that holds of the loop around it. -/
theorem labelsKnown (h : Trace env c es scopes c') (ht : env.TargetsBelow c.labels) :
    LabelsKnown c.labels es := by
  induction h with
  | quiet events => exact events.labelsKnown ht
  | append h₁ _ ih₁ ih₂ =>
    rw [labelsKnown_append, ← h₁.labels_eq]
    refine ⟨ih₁ ht, ih₂ (ht.mono ?_)⟩
    have := h₁.labels_eq
    omega
  | block _ ih => simpa using ih ht
  | declare _ => simp
  | define _ _ _ _ ih => simpa using ih (by intro t hloop; cases hloop)
  | ifThen h ih =>
    have e := h.labels_eq
    have inner := ih (ht.mono (by simp))
    simp [Instruction.label?] at e inner ⊢
    exact ⟨inner, by omega⟩
  | ifElse h₁ h₂ ih₁ ih₂ =>
    have e₁ := h₁.labels_eq
    have e₂ := h₂.labels_eq
    have inner := ih₁ (ht.mono (by simp))
    have other := ih₂ (ht.mono (by simp at e₁ ⊢; omega))
    simp [Instruction.label?] at e₁ e₂ inner other ⊢
    rw [e₁] at other
    exact ⟨inner, by omega, by omega, other, by omega⟩
  | loop condition h ih =>
    have e := h.labels_eq
    have guard := condition.labelsKnown (ht.mono (Nat.le_add_right _ 2))
    have inner := ih (by
      intro t hloop
      cases hloop
      simp only [Counters.labels_withLabel]
      omega)
    simp only [Counters.labels_withLabel, List.cons_append, List.nil_append, List.append_assoc,
      labelsKnown_reserveLabel, labelsKnown_emit, Instruction.label?, Option.mem_def,
      Option.some.injEq, forall_eq', labelsKnown_append, condition.reservedIn, Nat.add_zero,
      Nat.lt_add_one, labelsKnown_nil, and_true, true_and] at e inner ⊢
    exact ⟨by omega, guard, inner, by omega, by omega⟩
  | failedLoop condition =>
    have guard := condition.labelsKnown (ht.mono (Nat.le_add_right _ 2))
    simp only [List.cons_append, List.nil_append, labelsKnown_reserveLabel, labelsKnown_emit,
      Instruction.label?, Option.mem_def, Option.some.injEq, forall_eq', labelsKnown_append,
      condition.reservedIn, Nat.add_zero, Nat.lt_add_one, labelsKnown_nil, and_self, and_true]
    exact ⟨by omega, guard⟩

/-- What a trace builds jumps only to marks in the same function, or to the loop around. -/
theorem builds (h : Trace env c es scopes c') :
    ∃ p, Builds es p ∧ p.JumpsWithin (IsLoopTarget env.loop) := by
  induction h with
  | quiet events => exact events.builds
  | append _ _ ih₁ ih₂ =>
    obtain ⟨p, hp, jp⟩ := ih₁
    obtain ⟨q, hq, jq⟩ := ih₂
    exact ⟨p ++ q, hp.append hq, jp.append jq⟩
  | block _ ih =>
    obtain ⟨p, hp, jp⟩ := ih
    exact ⟨p, .skipLast rfl (.skip rfl hp), jp⟩
  | declare _ => exact ⟨_, .skipLast rfl (.reserveLocal _ _), by simp, by simp⟩
  | define _ _ _ _ ih =>
    obtain ⟨p, hp, jp⟩ := ih
    refine ⟨_, .definition _ _ _ _ _ _ hp, by simp, ?_⟩
    intro b hb
    rcases List.mem_append.1 hb with hb | hb
    · exact jp.functions b hb
    · obtain rfl := List.mem_singleton.1 hb
      -- No loop is around the body, so its jumps lead to its own marks.
      intro i hi label hl
      rcases jp.code i (by simpa [Piece.body] using hi) label hl with hm | ⟨t, ht, _⟩
      · simpa [Piece.body] using hm
      · cases ht
  | @ifThen env c _ _ _ ih =>
    obtain ⟨p, hp, jp⟩ := ih
    refine ⟨_, .append (.append (.append .reserveLabel (.emit _)) hp) (.emit _), ?_⟩
    refine .close (O := fun label => label = c.labels ∨ IsLoopTarget env.loop label) ?_ ?_
    · refine .append (.append (.instructions ?_) (jp.close ?_)) (.instructions ?_)
      · simp [Instruction.target?]
      · exact fun _ h => .inr (.inr h)
      · simp [Instruction.target?]
    · rintro label (rfl | h)
      · simp
      · exact .inr h
  | @ifElse env c c' _ _ _ _ _ ih₁ ih₂ =>
    obtain ⟨p, hp, jp⟩ := ih₁
    obtain ⟨q, hq, jq⟩ := ih₂
    have middle : Builds [.code .reserveLabel, .emit (.jump c'.labels), .emit (.mark c.labels)]
        { code := [.jump c'.labels, .mark c.labels] } :=
      .append .reserveLabel (.append (.emit _) (.emit _))
    refine ⟨_, .append (.append (.append (.append (.append .reserveLabel (.emit _)) hp) middle) hq)
      (.emit _), ?_⟩
    refine .close (O := fun label => label = c.labels ∨ label = c'.labels ∨
      IsLoopTarget env.loop label) ?_ ?_
    · refine .append (.append (.append (.append (.instructions ?_) (jp.close ?_))
        (.instructions ?_)) (jq.close ?_)) (.instructions ?_)
      · simp [Instruction.target?]
      · exact fun _ h => .inr (.inr (.inr h))
      · simp [Instruction.target?]
      · exact fun _ h => .inr (.inr (.inr h))
      · simp [Instruction.target?]
    · rintro label (rfl | rfl | h)
      · simp
      · simp
      · exact .inr h
  | @loop env c _ _ _ condition _ ih =>
    obtain ⟨g, hg, jg⟩ := condition.builds
    obtain ⟨p, hp, jp⟩ := ih
    have start : Builds [.code .reserveLabel, .code .reserveLabel, .emit (.mark c.labels)]
        { code := [.mark c.labels] } :=
      .append .reserveLabel (.append .reserveLabel (.emit _))
    have last : Builds [.emit (.jump c.labels), .emit (.mark (c.labels + 1))]
        { code := [.jump c.labels, .mark (c.labels + 1)] } :=
      .append (.emit _) (.emit _)
    refine ⟨_, .append (.append (.append (.append start hg) (.emit _)) hp) last, ?_⟩
    refine .close (O := fun label => label = c.labels ∨ label = c.labels + 1 ∨
      IsLoopTarget env.loop label) ?_ ?_
    · refine .append (.append (.append (.append (.instructions ?_) (jg.close ?_))
        (.instructions ?_)) (jp.close ?_)) (.instructions ?_)
      · simp [Instruction.target?]
      · exact fun _ h => .inr (.inr (.inr h))
      · simp [Instruction.target?]
      · rintro label ⟨t, ht, rfl | rfl⟩
        · cases ht
          exact .inr (.inl rfl)
        · cases ht
          exact .inr (.inr (.inl rfl))
      · simp [Instruction.target?]
    · rintro label (rfl | rfl | h)
      · simp
      · simp
      · exact .inr h
  | @failedLoop _ c _ condition =>
    obtain ⟨g, hg, jg⟩ := condition.builds
    have start : Builds [.code .reserveLabel, .code .reserveLabel, .emit (.mark c.labels)]
        { code := [.mark c.labels] } :=
      .append .reserveLabel (.append .reserveLabel (.emit _))
    refine ⟨_, .append (.append start hg) (.emit _), ?_⟩
    refine .append (.append (.instructions ?_) jg) (.instructions ?_)
    · simp [Instruction.target?]
    · simp [Instruction.target?]

end Trace

/-! ## Labels of a draft -/

namespace Draft

theorem replay_cons (d : Draft) (e : Event) (es : List Event) :
    d.replay (e :: es) = (d.replay [e]).replay es :=
  d.replay_append [e] es

theorem marks_modifyCurrent (d : Draft) (f : Body → Body) :
    (d.modifyCurrent f).marks = d.marks := by
  obtain ⟨opened, entry, closed, marks⟩ := d
  cases opened <;> rfl

theorem marks_closeFunction (d : Draft) : d.closeFunction.marks = d.marks := by
  obtain ⟨opened, entry, closed, marks⟩ := d
  cases opened <;> rfl

theorem marks_emit (d : Draft) (i : Instruction) : (d.emit i).marks = marksAfter d.marks i := by
  rw [emit_eq]

/-- The counts of marks after one event. -/
theorem marks_replay_single (d : Draft) (e : Event) :
    (d.replay [e]).marks =
      match e with
      | .code .reserveLabel => d.marks.push 0
      | .code (.emit i) => marksAfter d.marks i
      | _ => d.marks := by
  cases e with
  | scope change => rfl
  | report severity pos problem => rfl
  | code command =>
    cases command with
    | reserveLocal name type =>
      exact d.marks_modifyCurrent fun b => { b with locals := b.locals.push (name, type) }
    | reserveLabel => rfl
    | emit i => exact marks_emit d i
    | openFunction link signature => rfl
    | closeFunction => exact marks_closeFunction d

theorem size_marksAfter (marks : Array Nat) (i : Instruction) :
    (marksAfter marks i).size = marks.size := by
  cases i <;> simp [marksAfter]

/-- Labels are numbered in the order in which they are reserved. -/
theorem nextLabel_replay (d : Draft) (es : List Event) :
    (d.replay es).nextLabel = d.nextLabel + reservedIn es := by
  induction es generalizing d with
  | nil => rfl
  | cons e es ih =>
    rw [replay_cons, ih, reservedIn_cons]
    unfold nextLabel
    rw [marks_replay_single]
    split
    · simp; omega
    · simp [size_marksAfter]
    · rename_i hne _
      rw [if_neg hne, Nat.zero_add]

theorem getD_marksAfter {marks : Array Nat} {i : Instruction}
    (h : ∀ label ∈ i.label?, label < marks.size) (label : Nat) :
    (marksAfter marks i).getD label 0 =
      marks.getD label 0 + if i = .mark label then 1 else 0 := by
  cases i with
  | mark l =>
    have hl : l < marks.size := h l rfl
    simp only [marksAfter, Array.getD_eq_getD_getElem?, Array.getElem?_modify]
    by_cases e : l = label
    · subst e
      simp [hl]
    · simp [e]
  | _ => simp [marksAfter]

/-- A label that is known when it is marked has all its marks counted. -/
theorem getD_marks_replay {d : Draft} {es : List Event} (h : LabelsKnown d.nextLabel es)
    (label : Nat) : (d.replay es).marks.getD label 0 = d.marks.getD label 0 + marksIn label es := by
  induction es generalizing d with
  | nil => rfl
  | cons e es ih =>
    have next := d.nextLabel_replay [e]
    have known : LabelsKnown (d.replay [e]).nextLabel es := by
      have := h.2
      rw [next, reservedIn_cons, reservedIn_nil]
      split at this <;> simp_all
    rw [replay_cons, ih known, marks_replay_single, marksIn_cons, ← Nat.add_assoc]
    congr 1
    split
    · -- A label that is reserved now has no marks yet.
      simp only [Array.getD_eq_getD_getElem?, Array.getElem?_push]
      by_cases hl : label = d.marks.size
      · simp [hl]
      · simp [hl]
    · rename_i i
      rw [getD_marksAfter (h.1)]
      simp
    · rename_i hr he
      have hne : e ≠ .emit (.mark label) := he (.mark label)
      simp [hne]

def marked (d : Draft) (label : Nat) : Nat :=
  (d.bodies.flatMap (·.code.toList)).count (.mark label)

theorem marked_eq (d : Draft) (label : Nat) :
    d.marked label = (d.entry.code.toList.count (.mark label) +
      (d.closed.flatMap (·.code.toList)).count (.mark label)) +
      (d.opened.flatMap (·.code.toList)).count (.mark label) := by
  have rev (l : List Body) : (l.reverse.flatMap (·.code.toList)).count (.mark label) =
      (l.flatMap (·.code.toList)).count (.mark label) :=
    ((List.reverse_perm l).flatMap_right _).count_eq _
  simp [marked, bodies, List.flatMap_append, List.count_append, rev, Nat.add_assoc]

theorem marked_replay_single (d : Draft) (e : Event) (label : Nat) :
    (d.replay [e]).marked label = d.marked label + marksIn label [e] := by
  obtain ⟨opened, entry, closed, marks⟩ := d
  cases e with
  | scope change => simp; rfl
  | report severity pos problem => simp; rfl
  | code command =>
    cases command with
    | emit i =>
      change (emit _ i).marked label = _
      rw [emit_eq, marked_eq, marked_eq]
      cases opened with
      | nil => simp [extend, modifyCurrent, Body.extend, List.count_cons]; omega
      | cons b outer => simp [extend, modifyCurrent, Body.extend, List.count_cons]; omega
    | reserveLocal name type =>
      change (reserveLocal _ name type).marked label = _
      rw [reserveLocal_eq, marked_eq, marked_eq]
      cases opened with
      | nil => simp [extend, modifyCurrent, Body.extend]
      | cons b outer => simp [extend, modifyCurrent, Body.extend]
    | reserveLabel => simp; rfl
    | openFunction link signature =>
      change (openFunction _ link signature).marked label = _
      rw [marked_eq, marked_eq]
      simp [openFunction]
    | closeFunction =>
      change (closeFunction _).marked label = _
      rw [marked_eq, marked_eq]
      cases opened with
      | nil => simp [closeFunction]
      | cons b outer => simp [closeFunction]; omega

/-- Every mark goes to one function. -/
theorem marked_replay (d : Draft) (es : List Event) (label : Nat) :
    (d.replay es).marked label = d.marked label + marksIn label es := by
  induction es generalizing d with
  | nil => rfl
  | cons e es ih =>
    rw [replay_cons, ih, marked_replay_single, marksIn_cons, marksIn_cons, marksIn_nil]
    omega

theorem faultFrom?_eq_none {counts : List Nat} (h : ∀ n ∈ counts, n = 1) (label : Nat) :
    faultFrom? label counts = none := by
  induction counts generalizing label with
  | nil => rfl
  | cons n counts ih =>
    obtain rfl := h n (by simp)
    exact ih (fun m hm => h m (by simp [hm])) (label + 1)

/-- A draft whose reserved labels have one mark each can be finished. -/
theorem finish_eq {d : Draft} (h : ∀ label < d.nextLabel, d.marks.getD label 0 = 1) :
    d.finish = .ok ⟨d.bodies⟩ := by
  have none : d.fault? = none := by
    refine faultFrom?_eq_none ?_ 0
    intro n hn
    obtain ⟨label, hl, rfl⟩ := List.mem_iff_getElem.1 hn
    have := h label (by simpa [nextLabel] using hl)
    simpa [Array.getD_eq_getD_getElem?, show label < d.marks.size by simpa using hl] using this
  simp [finish, none]

end Draft

def Reserves (es : List Event) (label : Nat) : Prop :=
  ∃ before after, es = before ++ .code .reserveLabel :: after ∧
    (Draft.replay {} before).nextLabel = label

theorem reserves_iff (es : List Event) (label : Nat) :
    Reserves es label ↔ label < reservedIn es := by
  unfold Reserves
  simp only [Draft.nextLabel_replay]
  change (∃ before after, es = before ++ .code .reserveLabel :: after ∧
    0 + reservedIn before = label) ↔ _
  simp only [Nat.zero_add]
  constructor
  · rintro ⟨before, after, rfl, rfl⟩
    rw [reservedIn_append, reservedIn_cons, if_pos rfl]
    omega
  · intro h
    induction es generalizing label with
    | nil => cases h
    | cons e es ih =>
      by_cases he : e = .code .reserveLabel
      · subst he
        cases label with
        | zero => exact ⟨[], es, rfl, rfl⟩
        | succ label =>
          obtain ⟨before, after, rfl, rfl⟩ := ih label (by simp at h; omega)
          exact ⟨_ :: before, after, rfl, by simp; omega⟩
      · obtain ⟨before, after, rfl, rfl⟩ := ih label (by simpa [he] using h)
        exact ⟨e :: before, after, rfl, by simp [he]⟩

/-! ## Labels of a pass -/

namespace Pass

variable (structural : Severity) (scopes : Scopes) (s : Tokens)

/-- The events of a pass are those of a program, but for names bound at first. -/
theorem labels_run :
    LabelsKnown 0 (run structural scopes s).events ∧
    (∀ label, label < reservedIn (run structural scopes s).events →
      marksIn label (run structural scopes s).events = 1) ∧
    ∃ p, Builds (run structural scopes s).events p ∧ p.JumpsWithin fun _ => False := by
  have trace := program_traced { scopes := scopes.withPrimitives, structural } {} s
  have events : (run structural scopes s).events =
      (ValueType.primitives.map fun p => .scope (.bindBase p.1 p.2)) ++
        (program { scopes := scopes.withPrimitives, structural } {} s).events := rfl
  generalize program { scopes := scopes.withPrimitives, structural } {} s = x at trace events
  rw [events]
  refine ⟨?_, ?_, ?_⟩
  · have known := trace.labelsKnown (by intro t ht; cases ht)
    simpa [ValueType.primitives] using known
  · intro label hl
    have counted := trace.labels_eq
    have marked := trace.marksIn_eq label
    simp [ValueType.primitives] at hl counted marked ⊢
    rw [marked, if_pos (by omega)]
  · obtain ⟨p, hp, jp⟩ := trace.builds
    refine ⟨p, ?_, jp.close ?_⟩
    · exact .skip rfl (.skip rfl (.skip rfl (.skip rfl (.skip rfl hp))))
    · rintro label ⟨t, ht, _⟩
      cases ht

/-- A pass always has a listing. -/
theorem listing_eq :
    (run structural scopes s).listing =
      .ok ⟨(Draft.replay {} (run structural scopes s).events).bodies⟩ := by
  obtain ⟨known, once, -⟩ := labels_run structural scopes s
  refine Draft.finish_eq ?_
  intro label hl
  rw [Draft.nextLabel_replay] at hl
  rw [Draft.getD_marks_replay (d := {}) known, once label (by simpa [Draft.nextLabel] using hl)]
  simp

/-- The listing of a pass, by what its program adds to the entry. -/
theorem listing_run_eq {s : Tokens} {p : Piece}
    (h : Builds (program { scopes := scopes.withPrimitives, structural } {} s).events p) :
    (run structural scopes s).listing = .ok ⟨p.body entryName none :: p.functions⟩ := by
  have builds : Builds (run structural scopes s).events p :=
    .skip rfl (.skip rfl (.skip rfl (.skip rfl (.skip rfl h))))
  rw [listing_eq, builds.bodies_replay]

/-- In the listing of a pass the labels are in order. -/
theorem listing_run :
    ∃ listing, (run structural scopes s).listing = .ok listing ∧
      (∀ label, label < reservedIn (run structural scopes s).events →
        (listing.bodies.flatMap (·.code.toList)).count (.mark label) = 1) ∧
      ∀ body ∈ listing.bodies, body.JumpsWithin := by
  obtain ⟨-, once, p, hp, jp⟩ := labels_run structural scopes s
  refine ⟨_, listing_eq structural scopes s, ?_, ?_⟩
  · intro label hl
    have := Draft.marked_replay {} (run structural scopes s).events label
    rw [once label hl] at this
    simpa [Draft.marked, Draft.bodies] using this
  · rw [hp.bodies_replay]
    intro body hb
    rcases List.mem_cons.1 hb with rfl | hb
    · intro i hi label hl
      rcases jp.code i (by simpa [Piece.body] using hi) label hl with hm | hf
      · simpa [Piece.body] using hm
      · exact hf.elim
    · exact jp.functions body hb

end Pass

/-- **Labels are in order on every input**: whatever the tokens, the scopes and the severity, a
label is named only after it was reserved, every reserved label has exactly one mark in the whole
listing, and that mark stands in the same function as the jumps to it. So a pass always has a
listing, and a compilation fails exactly if the scan of the source does. -/
theorem labels_disciplined (structural : Severity) (scopes : Scopes) (ts : List Token) :
    (∀ before i after label,
      (Pass.run structural scopes (.ofList ts)).events = before ++ .emit i :: after →
        i.label? = some label → Reserves before label) ∧
    (∃ listing, (Pass.run structural scopes (.ofList ts)).listing = .ok listing ∧
      (∀ label, Reserves (Pass.run structural scopes (.ofList ts)).events label →
        (listing.bodies.flatMap (·.code.toList)).count (.mark label) = 1) ∧
      ∀ body ∈ listing.bodies, body.JumpsWithin) ∧
    ∀ source error, compile source structural scopes = .error error ↔
      ∃ cause, scan source = .error cause ∧ error = .lexical cause := by
  refine ⟨?_, ?_, ?_⟩
  · intro before i after label split hl
    obtain ⟨known, _⟩ := Pass.labels_run structural scopes (.ofList ts)
    rw [split, labelsKnown_append] at known
    have := ((labelsKnown_emit _ _ _).1 known.2).1 label hl
    exact (reserves_iff before label).2 (by omega)
  · obtain ⟨listing, hok, once, within⟩ := Pass.listing_run structural scopes (.ofList ts)
    refine ⟨listing, hok, ?_, within⟩
    intro label hr
    exact once label ((reserves_iff _ label).1 hr)
  · intro source error
    unfold compile
    cases hs : scan source with
    | error cause =>
      simp
      exact eq_comm
    | ok tokens =>
      obtain ⟨listing, hok, _⟩ := Pass.listing_run structural scopes (.ofList tokens)
      simp [hok]

end OnePass
