import OnePass.Proofs.Procedure.Small
import OnePass.Proofs.Recovery.Contract

/-!
# The course of a session

A transcript, read as a sequence of episodes. Most are single acts: a token is accepted, code is
emitted, something is looked up. A failure is an episode by itself: it is reported, and then tokens
are discarded up to and including the next `;`, or up to the end of the input.

A course says how one session leads to another through such episodes. Tokens are taken only before
the end of the input, and nothing is reported on the way but widened values, unless it belongs to a
failure. So errors can be counted by failures, and failures by the tokens they discard.
-/

namespace OnePass

/-- Whether a problem is no more than that a value is widened. -/
def Problem.isWidening : Problem → Bool
  | .widenedOperands _ _ _ _ | .widenedValue _ _ _ => true
  | _ => false

/-- Whether a production gives up that reports a problem. -/
def Problem.isFailure : Problem → Bool
  | .widenedOperands _ _ _ _ | .widenedValue _ _ _ | .previousDeclaration _ => false
  | _ => true

/-- Whether a problem is that a block is not closed. -/
def Problem.isUnclosed : Problem → Bool
  | .unexpected (.symbol text) _ => text = "\x7d"
  | _ => false

/-- Whether an event reports nothing but a warning that a value is widened. -/
def Event.isHarmless : Event → Bool
  | .report severity _ problem => severity = .warning && problem.isWidening
  | _ => true

/-- Whether an event is a note on where a name was declared before. -/
def Event.isAside : Event → Bool
  | .report .note _ (.previousDeclaration _) => true
  | _ => false

/-- Whether an act takes no token, and reports nothing but that a value is widened. -/
def Act.isRemark : Act → Bool
  | .read _ => false
  | .done entry => entry.event.isHarmless
  | _ => true

/-- A failure: what is reported, what is remarked on it, and the tokens that are discarded. -/
structure Failure where
  severity : Severity
  pos : Position
  problem : Problem
  remarks : List Event
  discarded : List Token

namespace Failure

/-- What is entered into the log for a failure. -/
def entries (f : Failure) : List Entry :=
  { event := .report f.severity f.pos f.problem } :: f.remarks.map fun e => { event := e }

def acts (f : Failure) : List Act :=
  f.entries.map .done ++ f.discarded.map fun t => .read (some t)

@[simp] theorem tokensRead_acts (f : Failure) : tokensRead f.acts = f.discarded := by
  rw [acts, tokensRead_append, tokensRead_done, tokensRead]
  simp [Act.token?, Function.comp_def]

@[simp] theorem eventsOf_acts (f : Failure) :
    eventsOf f.acts = .report f.severity f.pos f.problem :: f.remarks := by
  have unread : entriesOf (f.discarded.map fun t => Act.read (some t)) = [] := by
    simp [entriesOf, Act.entry?, Function.comp_def]
  rw [acts, eventsOf_append, eventsOf, eventsOf, unread, entriesOf_done]
  simp [entries, Function.comp_def]

/-- Whether the tokens that are discarded include a `;`. -/
def isTerminated (f : Failure) : Bool := f.discarded.any (·.isSymbol ";")

/-- Whether the failure is that a block is not closed. -/
def isUnclosed (f : Failure) : Bool := f.problem.isUnclosed

/-- Whether a failure runs into the end of the input, and not because a block is not closed. -/
def isStray (f : Failure) : Bool := !f.isTerminated && !f.isUnclosed

/-- A failure is what its report says, and the remarks on it are only notes. -/
def IsProper (f : Failure) : Prop :=
  f.problem.isFailure ∧ ∀ e ∈ f.remarks, e.isAside

end Failure

/-- A part of a transcript: an act that belongs to no failure, or a failure as a whole. -/
inductive Episode where
  | act (a : Act)
  | failure (f : Failure)

namespace Episode

def acts : Episode → List Act
  | act a => [a]
  | failure f => f.acts

def failure? : Episode → Option Failure
  | act _ => none
  | failure f => some f

def accepts (text : String) : Episode → Bool
  | act (.read (some t)) => t.isSymbol text
  | _ => false

/-- Whether the end of a block is accepted, or reported to be missing. -/
def closes : Episode → Bool
  | failure f => f.isUnclosed
  | e => e.accepts "\x7d"

end Episode

def actsOf (c : List Episode) : List Act := c.flatMap Episode.acts

def failuresOf (c : List Episode) : List Failure := c.filterMap Episode.failure?

theorem actsOf_cons (e : Episode) (c : List Episode) : actsOf (e :: c) = e.acts ++ actsOf c := rfl

@[simp] theorem actsOf_append (c d : List Episode) : actsOf (c ++ d) = actsOf c ++ actsOf d :=
  List.flatMap_append

@[simp] theorem actsOf_act (as : List Act) : actsOf (as.map .act) = as := by
  rw [actsOf, List.flatMap_map]
  exact List.flatMap_singleton' as

@[simp] theorem failuresOf_nil : failuresOf [] = [] := rfl

@[simp] theorem failuresOf_append (c d : List Episode) :
    failuresOf (c ++ d) = failuresOf c ++ failuresOf d :=
  List.filterMap_append

@[simp] theorem failuresOf_cons_act (a : Act) (c : List Episode) :
    failuresOf (.act a :: c) = failuresOf c :=
  rfl

@[simp] theorem failuresOf_cons_failure (f : Failure) (c : List Episode) :
    failuresOf (.failure f :: c) = f :: failuresOf c :=
  rfl

@[simp] theorem failuresOf_act (as : List Act) : failuresOf (as.map .act) = [] := by
  rw [failuresOf, List.filterMap_map, List.filterMap_eq_nil_iff]
  exact fun _ _ => rfl

/-- Tokens are discarded up to and including the next `;`, or up to the end of the input. -/
inductive Discards : Session → List Token → Session → Prop
  | atEnd {x : Session} (eof : x.token.isEof) : Discards x [] x
  | terminator {x : Session} (here : x.token.isSymbol ";") : Discards x [x.token] x.advance
  | other {x y : Session} {ts : List Token} (going : x.token.isEof = false)
    (before : x.token.isSymbol ";" = false) (rest : Discards x.advance ts y) :
    Discards x (x.token :: ts) y

/-- One session leads to another through some episodes. -/
inductive Course : Session → List Episode → Session → Prop
  | nil (x : Session) : Course x [] x
  | adjust {x y : Session} {c : List Episode} (f : State → State)
    (rest : Course { x with state := f x.state } c y) : Course x c y
  | remark {x y : Session} {c : List Episode} {a : Act} (isRemark : a.isRemark)
    (rest : Course (x.note a) c y) : Course x (.act a :: c) y
  | read {x y : Session} {c : List Episode} (going : x.token.isEof = false)
    (rest : Course x.advance c y) : Course x (.act (.read (some x.token)) :: c) y
  | failure {x y z : Session} {c : List Episode} {f : Failure} (proper : f.IsProper)
    (discards : Discards (x.record f.entries) f.discarded y) (rest : Course y c z) :
    Course x (.failure f :: c) z

/-! ## Discarding -/

namespace Discards

variable {x y : Session} {ts : List Token}

theorem written (h : Discards x ts y) :
    y.transcript = x.transcript ++ ts.map fun t => .read (some t) := by
  induction h with
  | atEnd => simp
  | terminator => rfl
  | other _ _ _ ih => simp [ih, Session.advance]

/-- What is discarded ends with its first `;`, or has none and runs into the end of the input. -/
theorem ends (h : Discards x ts y) :
    (∃ before semi, ts = before ++ [semi] ∧ semi.isSymbol ";" ∧
      ∀ t ∈ before, t.isSymbol ";" = false) ∨
    (∀ t ∈ ts, t.isSymbol ";" = false) ∧ y.token.isEof := by
  induction h with
  | atEnd eof => exact .inr ⟨nofun, eof⟩
  | @terminator x here => exact .inl ⟨[], x.token, rfl, here, nofun⟩
  | @other x _ _ _ other _ ih =>
    rcases ih with ⟨before, semi, rfl, isSemi, none⟩ | ⟨none, eof⟩
    · exact .inl ⟨x.token :: before, semi, rfl, isSemi, by simpa [other] using none⟩
    · exact .inr ⟨by simpa [other] using none, eof⟩

theorem eq_of_isEof (h : Discards x ts y) (eof : x.token.isEof) : ts = [] ∧ y = x := by
  cases h with
  | atEnd => exact ⟨rfl, rfl⟩
  | terminator here =>
    rw [Token.isEof_of_isSymbol here] at eof
    cases eof
  | other going =>
    rw [going] at eof
    cases eof

/-- Without a `;` the end of the input is reached. -/
theorem isEof_of_not_any (h : Discards x ts y) (none : ts.any (·.isSymbol ";") = false) :
    y.token.isEof := by
  rcases h.ends with ⟨before, semi, rfl, isSemi, -⟩ | ⟨-, eof⟩
  · simp [isSemi] at none
  · exact eof

end Discards

/-! ## Courses -/

namespace Course

variable {x y z : Session} {c d : List Episode}

theorem append (hc : Course x c y) (hd : Course y d z) : Course x (c ++ d) z := by
  induction hc with
  | nil => exact hd
  | adjust f _ ih => exact .adjust f (ih hd)
  | remark isRemark _ ih => exact .remark isRemark (ih hd)
  | read going _ ih => exact .read going (ih hd)
  | failure proper discards _ ih => exact .failure proper discards (ih hd)

theorem split (h : Course x (c ++ d) z) : ∃ y, Course x c y ∧ Course y d z := by
  generalize whole : c ++ d = e at h
  induction h generalizing c with
  | nil x =>
    obtain ⟨rfl, rfl⟩ := List.append_eq_nil_iff.1 whole
    exact ⟨x, .nil x, .nil x⟩
  | adjust f _ ih =>
    obtain ⟨y, first, last⟩ := ih whole
    exact ⟨y, .adjust f first, last⟩
  | @remark x _ _ _ isRemark rest ih =>
    cases c with
    | nil =>
      obtain rfl : d = _ := whole
      exact ⟨x, .nil x, .remark isRemark rest⟩
    | cons e c =>
      obtain ⟨rfl, later⟩ := List.cons.inj whole
      obtain ⟨y, first, last⟩ := ih later
      exact ⟨y, .remark isRemark first, last⟩
  | @read x _ _ going rest ih =>
    cases c with
    | nil =>
      obtain rfl : d = _ := whole
      exact ⟨x, .nil x, .read going rest⟩
    | cons e c =>
      obtain ⟨rfl, later⟩ := List.cons.inj whole
      obtain ⟨y, first, last⟩ := ih later
      exact ⟨y, .read going first, last⟩
  | @failure x _ _ _ _ proper discards rest ih =>
    cases c with
    | nil =>
      obtain rfl : d = _ := whole
      exact ⟨x, .nil x, .failure proper discards rest⟩
    | cons e c =>
      obtain ⟨rfl, later⟩ := List.cons.inj whole
      obtain ⟨y, first, last⟩ := ih later
      exact ⟨y, .failure proper discards first, last⟩

/-- What is written down on the way is what the episodes say. -/
theorem written (h : Course x c y) : y.transcript = x.transcript ++ actsOf c := by
  induction h with
  | nil x => exact (List.append_nil _).symm
  | adjust _ _ ih => exact ih
  | remark _ _ ih => simpa [actsOf, Episode.acts, Session.note] using ih
  | read _ _ ih => simpa [actsOf, Episode.acts, Session.advance] using ih
  | failure _ discards _ ih =>
    rw [ih, discards.written]
    simp [actsOf, Episode.acts, Failure.acts, Session.record]

/-- Nothing is read at the end of the input, so it stays. -/
theorem eof (h : Course x c y) (eof : x.token.isEof) :
    y.token.isEof ∧ tokensRead (actsOf c) = [] := by
  induction h with
  | nil x => exact ⟨eof, rfl⟩
  | adjust _ _ ih => exact ih eof
  | @remark _ _ _ a isRemark _ ih =>
    obtain ⟨stays, none⟩ := ih eof
    refine ⟨stays, ?_⟩
    cases a with
    | read _ => cases isRemark
    | _ => exact none
  | read going =>
    rw [going] at eof
    cases eof
  | @failure _ _ _ _ f _ discards _ ih =>
    obtain ⟨nothing, rfl⟩ := discards.eq_of_isEof eof
    obtain ⟨stays, none⟩ := ih eof
    refine ⟨stays, ?_⟩
    rw [actsOf_cons, tokensRead_append, none, Episode.acts, f.tokensRead_acts, nothing]
    rfl

/-- No act is a failure but those of failures, and failures are proper. -/
theorem proper (h : Course x c y) :
    (∀ a, .act a ∈ c → ∀ entry, a = .done entry → entry.event.isHarmless) ∧
    ∀ f, .failure f ∈ c → f.IsProper := by
  induction h with
  | nil => exact ⟨by simp, by simp⟩
  | adjust _ _ ih => exact ih
  | remark isRemark _ ih =>
    refine ⟨?_, by simpa using ih.2⟩
    intro a mem entry same
    rcases List.mem_cons.1 mem with here | later
    · cases here
      subst same
      exact isRemark
    · exact ih.1 a later entry same
  | read _ _ ih => exact ⟨by simpa using ih.1, by simpa using ih.2⟩
  | failure proper _ _ ih => exact ⟨by simpa using ih.1, by simpa using And.intro proper ih.2⟩

/-- A failure discards its own `;`, or nothing is read any more behind it. -/
theorem failure_ends {before after : List Episode} {f : Failure}
    (h : Course x (before ++ .failure f :: after) y) :
    (∃ skipped semi, f.discarded = skipped ++ [semi] ∧ semi.isSymbol ";" ∧
      ∀ t ∈ skipped, t.isSymbol ";" = false) ∨
    (∀ t ∈ f.discarded, t.isSymbol ";" = false) ∧ tokensRead (actsOf after) = [] := by
  obtain ⟨x₁, -, rest⟩ := h.split
  clear h
  generalize whole : Episode.failure f :: after = e at rest
  induction rest with
  | nil => cases whole
  | adjust _ _ ih => exact ih whole
  | remark => cases whole
  | read => cases whole
  | failure _ discards rest =>
    cases whole
    exact discards.ends.imp_right fun last => ⟨last.1, (rest.eof last.2).2⟩

/-- A failure that is not terminated runs into the end of the input. -/
theorem isEof_of_failure (h : Course x c y) {f : Failure} (mem : .failure f ∈ c)
    (notTerminated : f.isTerminated = false) : y.token.isEof := by
  induction h with
  | nil => cases mem
  | adjust _ _ ih => exact ih mem
  | remark _ _ ih => exact ih (by simpa using mem)
  | read _ _ ih => exact ih (by simpa using mem)
  | failure _ discards rest ih =>
    rcases List.mem_cons.1 mem with here | later
    · cases here
      exact (rest.eof (discards.isEof_of_not_any notTerminated)).1
    · exact ih later

theorem remarks {as : List Act} (h : ∀ a ∈ as, a.isRemark) :
    Course x (as.map .act) { x with transcript := x.transcript ++ as } := by
  induction as generalizing x with
  | nil =>
    rw [List.append_nil]
    exact .nil x
  | cons a as ih =>
    obtain ⟨first, rest⟩ := List.forall_mem_cons.1 h
    refine .remark first ?_
    simpa [Session.note] using ih (x := x.note a) rest

theorem record {es : List Entry} (h : ∀ e ∈ es, e.event.isHarmless) :
    Course x ((es.map Act.done).map .act) (x.record es) := by
  refine .adjust (·.record es) (.remarks ?_)
  intro a ha
  obtain ⟨e, he, rfl⟩ := List.mem_map.1 ha
  exact h e he

theorem advance (going : x.token.isEof = false) :
    Course x ([.read (some x.token)].map .act) x.advance :=
  .read going (.nil _)

theorem note {a : Act} (h : a.isRemark) : Course x ([a].map .act) (x.note a) :=
  .remark h (.nil _)

end Course

end OnePass
