import OnePass.Proofs.Generation
import OnePass.Proofs.Piece
import OnePass.Proofs.Quiet
import OnePass.Proofs.Stream

/-!
# Verdicts

What a run says about the text it has read. Either an error was reported, or all reports are
warnings and the run has added a known piece to the draft. Each combinator of runs gets one rule, so
that a production is followed from step to step with the expected result of the whole before one's
eyes.
-/

namespace OnePass

/-- Nothing but warnings was reported. -/
def Mild (es : List Event) : Prop :=
  ∀ severity pos problem, Event.report severity pos problem ∈ es → severity = .warning

namespace Mild

variable {es fs : List Event}

theorem nil : Mild [] := by
  intro severity pos problem mem
  cases mem

/-- Warnings stay warnings side by side. -/
theorem append (he : Mild es) (hf : Mild fs) : Mild (es ++ fs) := by
  intro severity pos problem mem
  rcases List.mem_append.1 mem with mem | mem
  · exact he severity pos problem mem
  · exact hf severity pos problem mem

/-- Events that report nothing. -/
theorem of_silent (h : ∀ e ∈ es, e.diagnostic? = none) : Mild es := by
  intro severity pos problem mem
  cases h _ mem

theorem emits (is : List Instruction) : Mild (Event.emits is) := by
  refine of_silent ?_
  intro e mem
  obtain ⟨i, -, rfl⟩ := List.mem_map.1 mem
  rfl

theorem code (command : Draft.Command) (h : Mild es) : Mild (.code command :: es) := by
  intro severity pos problem mem
  rcases List.mem_cons.1 mem with same | mem
  · cases same
  · exact h severity pos problem mem

theorem scope (change : Scopes.Change) (h : Mild es) : Mild (.scope change :: es) := by
  intro severity pos problem mem
  rcases List.mem_cons.1 mem with same | mem
  · cases same
  · exact h severity pos problem mem

/-- Warnings are no errors. -/
theorem not_faulty (h : Mild es) : ¬ Faulty es := by
  rintro ⟨pos, problem, mem⟩
  cases h _ _ _ mem

end Mild

/-! ## Runs -/

/-- The run yields `a` and stops at `r`; it has added the piece `p` and reported nothing but
warnings. -/
structure Run.Yields {s : Tokens} {α : Type} (x : Run s α) (p : Piece) (a : α) (r : Tokens) :
    Prop where
  value : x.value = a
  rest : x.rest = r
  mild : Mild x.events
  builds : Builds x.events p

namespace Run.Yields

variable {s q r : Tokens} {α β : Type} {p p' : Piece} {a : α} {b : β}

theorem pure (a : α) : (Run.pure a : Run s α).Yields {} a s := ⟨rfl, rfl, .nil, .nil⟩

theorem reached {h : s.Reaches q} {x : Run q α} (hx : x.Yields p a r) :
    (Run.reached h x).Yields p a r :=
  ⟨hx.value, hx.rest, hx.mild, hx.builds⟩

theorem after {es : List Event} {x : Run s α} (mild : Mild es) (builds : Builds es p)
    (hx : x.Yields p' a r) : (Run.after es x).Yields (p ++ p') a r :=
  ⟨hx.value, hx.rest, mild.append hx.mild, builds.append hx.builds⟩

/-- The pieces of one run and the next are joined. -/
theorem bind {x : Run s α} {f : (r : Tokens) → r.left ≤ s.left → α → Run r β}
    (hx : x.Yields p a q) (hf : ∀ h, (f q h a).Yields p' b r) :
    (x.bind f).Yields (p ++ p') b r := by
  obtain ⟨rfl, rfl, mild, builds⟩ := hx
  have hy := hf x.left_rest_le
  exact ⟨hy.value, hy.rest, mild.append hy.mild, builds.append hy.builds⟩

theorem andThen {x : Attempt s α} {f : (r : Tokens) → r.left ≤ s.left → α → Attempt r β}
    (hx : x.Yields p (some a) q) (hf : ∀ h, (f q h a).Yields p' (some b) r) :
    (x.andThen f).Yields (p ++ p') (some b) r :=
  bind hx hf

theorem emit (is : List Instruction) (a : α) :
    (Run.emit is a : Attempt s α).Yields { code := is } (some a) s := by
  have := after (.emits is) (.emits is) (pure (s := s) (some a))
  rwa [Piece.append_empty] at this

theorem of_eq {x : Run s α} (h : p = p') (hx : x.Yields p a r) : x.Yields p' a r := h ▸ hx

/-- What comes after a run without errors may still find one. -/
theorem faulty {x : Run s α} {f : (r : Tokens) → r.left ≤ s.left → α → Run r β}
    (hx : x.Yields p a q) (hf : ∀ h, Faulty (f q h a).events) : Faulty (x.bind f).events := by
  obtain ⟨rfl, rfl, -, -⟩ := hx
  exact (hf x.left_rest_le).right _

/-- An error behind a success is an error of the whole. -/
theorem andThen_faulty {x : Attempt s α} {f : (r : Tokens) → r.left ≤ s.left → α → Attempt r β}
    (hx : x.Yields p (some a) q) (hf : ∀ h, Faulty (f q h a).events) :
    Faulty (x.andThen f).events :=
  faulty hx hf

end Run.Yields

/-! ## Attempts that add no code -/

/-- The attempt succeeds with the value given, without adding code, or reports an error if none is
given. -/
def Run.Settles {s : Tokens} {α : Type} (x : Attempt s α) (o : Option α) (r : Tokens) : Prop :=
  match o with
  | some a => x.Yields {} (some a) r
  | none => Faulty x.events

namespace Run.Settles

variable {s r : Tokens} {α : Type}

theorem ok (a : α) : (Run.ok a : Attempt s α).Settles (some a) s := Yields.pure (some a)

theorem fail (pos : Position) (problem : Problem) :
    (Run.fail .error pos problem : Attempt s α).Settles none r :=
  Faulty.head pos problem []

end Run.Settles

/-- A typing rule settles by itself whether the attempt goes on. -/
theorem follow_settles {s : Tokens} {α : Type} (pos : Position) (j : Judgement α) :
    (follow pos j : Attempt s α).Settles j.value? s := by
  cases j with
  | accepted a => exact .ok a
  | widened a warning =>
    have mild : Mild [.report .warning pos warning] := by
      intro severity pos problem mem
      cases List.mem_singleton.1 mem
      rfl
    exact .after mild (.silent rfl) (.pure (some a))
  | refused problem => exact .fail pos problem

/-- Whether a value can be stepped is settled by its place and its type. -/
theorem Operand.stepTarget_settles {s : Tokens} (x : Operand) (pos : Position) :
    (x.stepTarget pos : Attempt s Nat).Settles x.steppable? s := by
  unfold Operand.stepTarget Operand.steppable?
  cases x.place with
  | none =>
    rw [ite_self]
    exact .fail _ _
  | some slot =>
    dsimp only
    split
    · exact .ok slot
    · exact .fail _ _

/-- An expected symbol that is there is passed without a word. -/
theorem expect_yields {s r : Tokens} (env : Env) {symbol : String}
    (passes : s.Passes [.symbol symbol] r) : (expect env symbol s).Yields {} (some ()) r := by
  obtain ⟨⟨q, reaches, shorter⟩, read, rest⟩ := passes.symbol
  obtain rfl := rest.eq_of_nil
  unfold expect
  rw [read]
  exact .reached (.pure (some ()))

/-- One that is missing is an error. -/
theorem expect_faulty {s : Tokens} {env : Env} {symbol : String}
    (structural : env.structural = .error) (h : s.current.kind ≠ .symbol symbol) :
    Faulty (expect env symbol s).events := by
  unfold expect
  rw [Tokens.symbol?_eq_none h, structural]
  exact .head _ _ _

/-! ## Attempts that cannot be completed -/

/-- An error was reported, or the attempt has stopped before an opening parenthesis. Nothing that
follows an expression begins with one, so the error is only a matter of time. -/
def Run.Halts {s : Tokens} {α : Type} (x : Attempt s α) : Prop :=
  Faulty x.events ∨ x.value.isSome = true ∧ x.rest.current.kind = .symbol "("

namespace Run.Halts

variable {s q : Tokens} {α β : Type}

theorem ok {a : α} (h : s.current.kind = .symbol "(") : (Run.ok a : Attempt s α).Halts :=
  .inr ⟨rfl, h⟩

theorem emit {is : List Instruction} {a : α} (h : s.current.kind = .symbol "(") :
    (Run.emit is a : Attempt s α).Halts :=
  .inr ⟨rfl, h⟩

theorem fail (pos : Position) (problem : Problem) :
    (Run.fail .error pos problem : Attempt s α).Halts :=
  .inl (.head pos problem [])

theorem after {es : List Event} {x : Attempt s α} (hx : x.Halts) : (Run.after es x).Halts :=
  hx.imp (fun faulty => faulty.right es) id

theorem map (f : α → β) {x : Attempt s α} (hx : x.Halts) : (x.map f).Halts := by
  refine hx.imp id ?_
  rintro ⟨some, stuck⟩
  exact ⟨by simpa [Run.map] using some, stuck⟩

theorem andThen {x : Attempt s α} {f : (r : Tokens) → r.left ≤ s.left → α → Attempt r β}
    (hx : x.Halts) (hf : ∀ q h a, q.current.kind = .symbol "(" → (f q h a).Halts) :
    (x.andThen f).Halts := by
  rcases hx with faulty | ⟨some, stuck⟩
  · exact .inl (faulty.andThen f)
  · obtain ⟨a, value⟩ := Option.isSome_iff_exists.1 some
    obtain ⟨events, value', rest⟩ := Run.andThen_of_some value f
    rw [Run.Halts, events, value', rest]
    exact (hf x.rest x.left_rest_le a stuck).imp (fun faulty => faulty.right _) id

/-- What follows finds the parenthesis out of place. -/
theorem faulty {x : Attempt s α} {f : (r : Tokens) → r.left ≤ s.left → α → Attempt r β}
    (hx : x.Halts) (hf : ∀ q h a, q.current.kind = .symbol "(" → Faulty (f q h a).events) :
    Faulty (x.andThen f).events := by
  rcases hx with faulty | ⟨some, stuck⟩
  · exact faulty.andThen f
  · obtain ⟨a, value⟩ := Option.isSome_iff_exists.1 some
    rw [(Run.andThen_of_some value f).1]
    exact (hf x.rest x.left_rest_le a stuck).right _

/-- Before an opening parenthesis a question of type or place settles nothing. -/
theorem ask {a? : Option α} {x : Attempt s α} (hx : x.Settles a? s)
    (h : s.current.kind = .symbol "(") : x.Halts := by
  cases a? with
  | none => exact .inl hx
  | some a =>
    have rest : x.rest = s := Yields.rest hx
    exact .inr ⟨by rw [Yields.value hx]; rfl, rest.symm ▸ h⟩

end Run.Halts

/-! ## Attempts that add the code of an expression -/

/-- Behind the code `pre`, the attempt completes the code of the given expression and succeeds with
the given value, or cannot be completed if none is given. -/
def Run.Reads {s : Tokens} {α : Type} (x : Attempt s α) (pre : List Instruction)
    (o : Option (α × Term)) (r : Tokens) : Prop :=
  match o with
  | some (a, t) => ∃ code, t.code = pre ++ code ∧ x.Yields { code } (some a) r
  | none => x.Halts

namespace Run.Reads

variable {s q r : Tokens} {α β : Type} {pre : List Instruction} {o : Option (α × Term)}
  {o' : Option (β × Term)}

theorem ok {a : α} {t : Term} (h : t.code = pre) :
    (Run.ok a : Attempt s α).Reads pre (some (a, t)) s :=
  ⟨[], by rw [h, List.append_nil], .pure (some a)⟩

theorem emit {is : List Instruction} {a : α} {t : Term} (h : t.code = pre ++ is) :
    (Run.emit is a : Attempt s α).Reads pre (some (a, t)) s :=
  ⟨is, h, .emit is a⟩

theorem fail (pos : Position) (problem : Problem) :
    (Run.fail .error pos problem : Attempt s α).Reads pre none r :=
  Halts.fail pos problem

theorem reached {h : s.Reaches q} {x : Attempt q α} (hx : x.Reads pre o r) :
    (Run.reached h x).Reads pre o r := by
  cases o with
  | none => exact hx
  | some v =>
    obtain ⟨code, e, hx⟩ := hx
    exact ⟨code, e, hx.reached⟩

theorem emits (is : List Instruction) {x : Attempt s α} (hx : x.Reads (pre ++ is) o r) :
    (Run.after (Event.emits is) x).Reads pre o r := by
  cases o with
  | none => exact Halts.after hx
  | some v =>
    obtain ⟨code, e, hx⟩ := hx
    exact ⟨is ++ code, by rw [e, List.append_assoc], .after (.emits is) (.emits is) hx⟩

theorem map (f : α → β) {x : Attempt s α} (hx : x.Reads pre o r) :
    (x.map f).Reads pre (o.map fun v => (f v.1, v.2)) r := by
  cases o with
  | none => exact Halts.map f hx
  | some v =>
    obtain ⟨code, e, hx⟩ := hx
    exact ⟨code, e, by simp [Run.map, hx.value], hx.rest, hx.mild, hx.builds⟩

theorem yields {x : Attempt s α} {a : α} {t : Term} (hx : x.Reads [] (some (a, t)) r) :
    x.Yields { code := t.code } (some a) r := by
  obtain ⟨code, e, hx⟩ := hx
  obtain rfl : t.code = code := e
  exact hx

/-- Code that was added, and then the rest of an expression. -/
theorem after_yields {code : List Instruction} {a : α} {x : Attempt s α}
    {f : (r : Tokens) → r.left ≤ s.left → α → Attempt r β} (hx : x.Yields { code } (some a) q)
    (hf : ∀ h, (f q h a).Reads (pre ++ code) o' r) : (x.andThen f).Reads pre o' r := by
  obtain ⟨value, rfl, mild, builds⟩ := hx
  have hy := hf x.left_rest_le
  obtain ⟨events, value', rest⟩ := Run.andThen_of_some value f
  cases o' with
  | none =>
    rw [Run.Reads, Run.Halts, events, value', rest]
    exact hy.imp (fun faulty => faulty.right _) id
  | some w =>
    obtain ⟨more, e, hy⟩ := hy
    refine ⟨code ++ more, by rw [e, List.append_assoc], value'.trans hy.value, rest.trans hy.rest,
      ?_, ?_⟩
    · rw [events]
      exact mild.append hy.mild
    · rw [events]
      exact builds.append hy.builds

/-- Something that adds no code, and then the rest of an expression. -/
theorem after_silence {a : α} {x : Attempt s α}
    {f : (r : Tokens) → r.left ≤ s.left → α → Attempt r β} (hx : x.Yields {} (some a) q)
    (hf : ∀ h, (f q h a).Reads pre o' r) : (x.andThen f).Reads pre o' r := by
  refine after_yields hx ?_
  rw [List.append_nil]
  exact hf

/-- A part of an expression, and then the rest of it. -/
theorem andThen {x : Attempt s α} {f : (r : Tokens) → r.left ≤ s.left → α → Attempt r β}
    (hx : x.Reads [] o q) (hnone : o = none → o' = none)
    (hstuck : ∀ q h a, q.current.kind = .symbol "(" → (f q h a).Halts)
    (hsome : ∀ a t, o = some (a, t) → ∀ h, (f q h a).Reads (pre ++ t.code) o' r) :
    (x.andThen f).Reads pre o' r := by
  cases o with
  | none =>
    rw [hnone rfl]
    exact Halts.andThen hx hstuck
  | some v =>
    exact after_yields hx.yields (hsome v.1 v.2 rfl)

/-- A question of type or place, and then the rest of an expression. -/
theorem ask {a? : Option α} {x : Attempt s α}
    {f : (r : Tokens) → r.left ≤ s.left → α → Attempt r β} (hx : x.Settles a? q)
    (hnone : a? = none → o' = none) (hsome : ∀ a, a? = some a → ∀ h, (f q h a).Reads pre o' r) :
    (x.andThen f).Reads pre o' r := by
  cases a? with
  | none =>
    rw [hnone rfl]
    exact .inl (Faulty.andThen hx f)
  | some a =>
    exact after_silence hx (hsome a rfl)

end Run.Reads

end OnePass
