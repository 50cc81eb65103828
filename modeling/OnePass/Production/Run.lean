import OnePass.Tokens
import OnePass.Production.Event

/-!
# Runs of a production

A production reads from a token stream, gives out events and yields a value. Its run keeps the proof
that what remains was reached without passing an end of input, so productions can be recursive in
the number of tokens left.

An attempt is a run that may fail. A failure has been reported, and the stream has been resumed
behind the next `;`, before the attempt yields nothing.
-/

namespace OnePass

/-- The run of a production on the stream `s`. -/
structure Run (s : Tokens) (α : Type) where
  events : List Event
  value : α
  rest : Tokens
  reaches : s.Reaches rest

/-- A run that yields a value unless it failed. -/
abbrev Attempt (s : Tokens) (α : Type) := Run s (Option α)

namespace Run

variable {s r : Tokens} {α β : Type}

def pure (a : α) : Run s α := ⟨[], a, s, .refl s⟩

def bind (x : Run s α) (f : (r : Tokens) → r.left ≤ s.left → α → Run r β) : Run s β :=
  let y := f x.rest x.reaches.left_le x.value
  ⟨x.events ++ y.events, y.value, y.rest, x.reaches.trans y.reaches⟩

/-- Runs `f` on what the first run left, given that this is less than before. -/
def bindShorter (x : Run s α) (shorter : x.rest.left < s.left)
    (f : (r : Tokens) → r.left < s.left → α → Run r β) : Run s β :=
  let y := f x.rest shorter x.value
  ⟨x.events ++ y.events, y.value, y.rest, x.reaches.trans y.reaches⟩

/-- Gives out events first. -/
def after (es : List Event) (x : Run s α) : Run s α := { x with events := es ++ x.events }

/-- Runs on a stream that was reached from `s`. -/
def reached (h : s.Reaches r) (x : Run r α) : Run s α := { x with reaches := h.trans x.reaches }

/-- Gives out reports, and resumes the stream behind the next `;`. -/
def recover (es : List Event) (a : α) : Run s α := ⟨es, a, s.resume, s.reaches_resume⟩

theorem left_rest_le (x : Run s α) : x.rest.left ≤ s.left := x.reaches.left_le

/-! ## Attempts -/

def ok (a : α) : Attempt s α := pure (some a)

/-- Goes on with the value, if there is one. -/
def andThen (x : Attempt s α) (f : (r : Tokens) → r.left ≤ s.left → α → Attempt r β) :
    Attempt s β :=
  bind x fun r h v =>
    match v with
    | none => pure none
    | some a => f r h a

def map (f : α → β) (x : Attempt s α) : Attempt s β := { x with value := x.value.map f }

def emit (is : List Instruction) (a : α) : Attempt s α := after (Event.emits is) (ok a)

def fail (severity : Severity) (pos : Position) (problem : Problem) : Attempt s α :=
  recover [.report severity pos problem] none

/-- Reports an error about the next token and gives up. -/
def unexpected (wanted : Wanted) : Attempt s α :=
  fail .error s.current.pos (.unexpected wanted s.current.kind)

/-! ## What the combinators do -/

@[simp] theorem events_pure (a : α) : (pure a : Run s α).events = [] := rfl

@[simp] theorem value_pure (a : α) : (pure a : Run s α).value = a := rfl

@[simp] theorem rest_pure (a : α) : (pure a : Run s α).rest = s := rfl

@[simp] theorem events_bind (x : Run s α) (f : (r : Tokens) → r.left ≤ s.left → α → Run r β) :
    (x.bind f).events = x.events ++ (f x.rest x.left_rest_le x.value).events := rfl

@[simp] theorem value_bind (x : Run s α) (f : (r : Tokens) → r.left ≤ s.left → α → Run r β) :
    (x.bind f).value = (f x.rest x.left_rest_le x.value).value := rfl

@[simp] theorem rest_bind (x : Run s α) (f : (r : Tokens) → r.left ≤ s.left → α → Run r β) :
    (x.bind f).rest = (f x.rest x.left_rest_le x.value).rest := rfl

@[simp] theorem events_after (es : List Event) (x : Run s α) :
    (after es x).events = es ++ x.events := rfl

@[simp] theorem value_after (es : List Event) (x : Run s α) : (after es x).value = x.value := rfl

@[simp] theorem rest_after (es : List Event) (x : Run s α) : (after es x).rest = x.rest := rfl

@[simp] theorem events_reached (h : s.Reaches r) (x : Run r α) :
    (reached h x).events = x.events := rfl

@[simp] theorem value_reached (h : s.Reaches r) (x : Run r α) : (reached h x).value = x.value := rfl

@[simp] theorem rest_reached (h : s.Reaches r) (x : Run r α) : (reached h x).rest = x.rest := rfl

/-- A failed attempt is not gone on with: it stays where it is. -/
theorem andThen_of_none {x : Attempt s α} (h : x.value = none)
    (f : (r : Tokens) → r.left ≤ s.left → α → Attempt r β) :
    (x.andThen f).events = x.events ∧ (x.andThen f).value = none ∧ (x.andThen f).rest = x.rest := by
  simp [andThen, h]

/-- An attempt that yields a value is gone on with from where it stopped. -/
theorem andThen_of_some {x : Attempt s α} {a : α} (h : x.value = some a)
    (f : (r : Tokens) → r.left ≤ s.left → α → Attempt r β) :
    (x.andThen f).events = x.events ++ (f x.rest x.left_rest_le a).events ∧
      (x.andThen f).value = (f x.rest x.left_rest_le a).value ∧
      (x.andThen f).rest = (f x.rest x.left_rest_le a).rest := by
  simp [andThen, h]

end Run

end OnePass
