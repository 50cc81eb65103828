import OnePass.Proofs.Procedure.Script

/-!
# Transcripts

What a transcript tells: the tokens that were read, the entries of the log, the headers of
functions, and the calls that are still open. `Act.Fits` says when an act is in order after those
before it:

* only a token that is no end of input is given up for the next one;
* a procedure is entered again, or one above it, only after a token was read;
* when a header was read, its six tokens are the last ones, and belong to no other header; at once
  its function is declared, and its body begun;
* a call is emitted for a name that stands for the function, after its argument was accepted for the
  parameter of that function, and at once the procedure is left with the type that the function
  returns.

`InOrder` says this of a whole piece of a transcript.
-/

namespace OnePass

namespace Act

/-- The token that was given up for the next one. -/
def token? : Act → Option Token
  | read current => current
  | _ => none

def entry? : Act → Option Entry
  | done entry => some entry
  | _ => none

def header? : Act → Option Header
  | header h => some h
  | _ => none

end Act

def tokensRead (acts : List Act) : List Token := acts.filterMap Act.token?

def entriesOf (acts : List Act) : List Entry := acts.filterMap Act.entry?

def eventsOf (acts : List Act) : List Event := (entriesOf acts).map Entry.event

def headersOf (acts : List Act) : List Header := acts.filterMap Act.header?

/-- How many tokens were read, and the calls that are open, innermost first, each with how many
tokens were read when it began. -/
structure Calls where
  count : Nat := 0
  opened : List (Procedure × Nat) := []

/-- Follows an act. -/
def Calls.follow (c : Calls) : Act → Calls
  | .read current => { c with count := c.count + current.toList.length }
  | .enter p => { c with opened := (p, c.count) :: c.opened }
  | .leave _ => { c with opened := c.opened.tail }
  | _ => c

def callsAfter (acts : List Act) : Calls := acts.foldl Calls.follow {}

section Append

variable (as bs : List Act)

@[simp] theorem tokensRead_append : tokensRead (as ++ bs) = tokensRead as ++ tokensRead bs :=
  List.filterMap_append

@[simp] theorem entriesOf_append : entriesOf (as ++ bs) = entriesOf as ++ entriesOf bs :=
  List.filterMap_append

@[simp] theorem eventsOf_append : eventsOf (as ++ bs) = eventsOf as ++ eventsOf bs := by
  simp [eventsOf]

@[simp] theorem headersOf_append : headersOf (as ++ bs) = headersOf as ++ headersOf bs :=
  List.filterMap_append

@[simp] theorem callsAfter_append :
    callsAfter (as ++ bs) = bs.foldl Calls.follow (callsAfter as) :=
  List.foldl_append

end Append

theorem Calls.count_foldl (c : Calls) (acts : List Act) :
    (acts.foldl Calls.follow c).count = c.count + (tokensRead acts).length := by
  induction acts generalizing c with
  | nil => rfl
  | cons a acts ih =>
    rw [List.foldl_cons, ih]
    cases a with
    | read current =>
      cases current with
      | none => rfl
      | some t =>
        change c.count + 1 + _ = c.count + ((tokensRead acts).length + 1)
        omega
    | _ => rfl

/-- The count of the open calls is that of the tokens. -/
theorem count_callsAfter (acts : List Act) :
    (callsAfter acts).count = (tokensRead acts).length := by
  rw [callsAfter, Calls.count_foldl]
  exact Nat.zero_add _

/-! ## Acts in order -/

/-- Some tokens were read at last, and no header with them or since. -/
def ReadLast (before : List Act) (tokens : List Token) : Prop :=
  ∃ earlier recent, before = earlier ++ recent ∧ tokensRead recent = tokens ∧ headersOf recent = []

/-- The tokens that were read at last spell a header, in which the scopes know both types. -/
def Header.Spelled (h : Header) (scopes : Scopes) (before : List Act) : Prop :=
  ∃ first second opening closing,
    ReadLast before [first, ⟨.ident h.name, h.pos⟩, ⟨.symbol "(", opening⟩, second,
      ⟨.ident h.parameter.name, h.parameter.pos⟩, ⟨.symbol ")", closing⟩] ∧
    Env.typeNamed? { scopes } first.kind = some h.ret ∧
    Env.typeNamed? { scopes } second.kind = some h.parameter.type

/-- The function of a header is declared, its body is begun, and a scope is entered for it. -/
def Header.Begins (h : Header) (after : List Act) : Prop :=
  ∃ link later, after =
    .done { event := .scope (.declare ⟨h.name, .function link h.signature, some h.pos⟩) } ::
    .done { event := .code (.openFunction link h.signature) } ::
    .done { event := .scope .enter } :: later

/-- An act that may stand between the check of an argument and its call. -/
def Act.isPassing : Act → Bool
  | read _ | done ⟨.report _ _ _, _⟩ => true
  | _ => false

/-- The last thing that was checked is an argument of a type that the parameter admits. -/
def ArgumentChecked (before : List Act) (param : ValueType) : Prop :=
  ∃ earlier given between, before = earlier ++ .check .argument param given :: between ∧
    (ValueType.accept? param given).isSome ∧ ∀ a ∈ between, a.isPassing

/-- An act is in order between those before it and those behind it; the scopes were `start` at
first. -/
def Act.Fits (start : Scopes) (before after : List Act) : Act → Prop
  | read current => ∃ t, current = some t ∧ t.isEof = false
  | enter p => ∀ q n, (q, n) ∈ (callsAfter before).opened → q.rank ≤ p.rank →
    n < (tokensRead before).length
  | header h => h.Spelled (start.replay (eventsOf before)) before ∧ h.Begins after
  | done ⟨.code (.emit (.call link)), cause⟩ => ∃ x signature later, cause = some x ∧
    x.StandsFor (start.replay (eventsOf before)) (.function link signature) ∧
    ArgumentChecked before signature.param ∧ after = .leave (some signature.ret) :: later
  | _ => True

def InOrder (start : Scopes) : List Act → List Act → Prop
  | _, [] => True
  | before, a :: acts => a.Fits start before acts ∧ InOrder start (before ++ [a]) acts

/-- More acts behind it do not bring an act out of order. -/
theorem Act.Fits.longer {start : Scopes} {before after : List Act} {a : Act}
    (h : a.Fits start before after) (more : List Act) : a.Fits start before (after ++ more) := by
  unfold Fits at h ⊢
  split at h
  · exact h
  · exact h
  · obtain ⟨spelled, link, later, rfl⟩ := h
    exact ⟨spelled, link, later ++ more, rfl⟩
  · obtain ⟨x, signature, later, cause, stands, checked, rfl⟩ := h
    exact ⟨x, signature, later ++ more, cause, stands, checked, rfl⟩
  · trivial

namespace InOrder

variable {start : Scopes} {before as bs : List Act}

theorem append (ha : InOrder start before as) (hb : InOrder start (before ++ as) bs) :
    InOrder start before (as ++ bs) := by
  induction as generalizing before with
  | nil => simpa using hb
  | cons a as ih =>
    refine ⟨ha.1.longer bs, ih ha.2 ?_⟩
    simpa using hb

/-- Acts that are in order are so at every moment. -/
theorem moment {a : Act} (h : InOrder start before (as ++ a :: bs)) :
    a.Fits start (before ++ as) bs := by
  induction as generalizing before with
  | nil => simpa using h.1
  | cons a' as ih =>
    have later := ih h.2
    rwa [List.append_assoc] at later

end InOrder

end OnePass
