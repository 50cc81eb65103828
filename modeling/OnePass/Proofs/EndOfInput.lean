import Mathlib.Data.List.TakeWhile
import OnePass.Proofs.Procedure.Statement

/-!
# The end of the input

A session reads every token before the first end of input, and none behind it. What comes behind is
never looked at, so a session on tokens with more behind their end of input and a session without
write down the very same transcript.
-/

namespace OnePass

/-! ## Streams that end -/

namespace Tokens

variable {pre rest : List Token} {e : Token}

/-- What stands behind the first end of input, if anything, does not count. -/
theorem cut_eq_of_front {s : Tokens} (noEof : ∀ t ∈ pre, t.isEof = false) (eof : e.isEof)
    (behind : s.front = pre ∧ s.final = e.pos ∨ ∃ more, s.front = pre ++ e :: more) :
    s.cut = ⟨pre, e.pos⟩ := by
  have before : ∀ t ∈ pre, (!t.isEof) = true := by simpa using noEof
  have none : pre.find? Token.isEof = none := by simpa using noEof
  rcases behind with ⟨front, final⟩ | ⟨more, front⟩
  · rw [cut, front, final, none, List.takeWhile_eq_self_iff.2 before]
    rfl
  · rw [cut, front, List.takeWhile_append_of_pos before, List.find?_append, none]
    simp [eof]

theorem ofList_concat (ts : List Token) (t : Token) :
    ofList (ts ++ [t]) = if t.isEof then ⟨ts, t.pos⟩ else ⟨ts ++ [t], t.pos⟩ := by
  simp [ofList]

theorem cut_ofList (noEof : ∀ t ∈ pre, t.isEof = false) (eof : e.isEof) (rest : List Token) :
    (ofList (pre ++ [e] ++ rest)).cut = ⟨pre, e.pos⟩ := by
  refine cut_eq_of_front noEof eof ?_
  rcases rest.eq_nil_or_concat' with rfl | ⟨more, t, rfl⟩
  · rw [List.append_nil, ofList_concat, if_pos eof]
    exact .inl ⟨rfl, rfl⟩
  · rw [← List.append_assoc, ofList_concat]
    split
    · exact .inr ⟨more, by simp⟩
    · exact .inr ⟨more ++ [t], by simp⟩

end Tokens

/-! ## Reading -/

/-- What was at hand when a token was taken from the source. -/
def Act.taken? : Act → Option (Option Token)
  | read current => some current
  | _ => none

/-- What was at hand, for every token that was taken from the source. -/
def takings (acts : List Act) : List (Option Token) := acts.filterMap Act.taken?

theorem InOrder.takings_eq {start : Scopes} {before acts : List Act}
    (h : InOrder start before acts) : takings acts = (tokensRead acts).map some := by
  induction acts generalizing before with
  | nil => rfl
  | cons a acts ih =>
    have rest := ih h.2
    cases a with
    | read current =>
      obtain ⟨t, rfl, -⟩ := h.1
      exact congrArg (some t :: ·) rest
    | _ => exact rest

/-- Where a session stops that has read all of the input. -/
theorem Tokens.Reaches.current_eq {s r : Tokens} {e : Token} (h : s.Reaches r)
    (atEnd : r.atEnd = true) (noEof : ∀ t ∈ s.front, t.isEof = false) (final : s.final = e.pos)
    (eof : e.isEof) : r.front = [] ∧ r.current = e := by
  obtain ⟨passed, front, -, same⟩ := h
  obtain ⟨rest, final'⟩ := r
  cases rest with
  | nil =>
    obtain ⟨kind, pos⟩ := e
    obtain rfl : kind = .eof := by simpa [Token.isEof] using eof
    exact ⟨rfl, by rw [current, same, final]⟩
  | cons t ts =>
    have going := noEof t (by simp [front])
    exact absurd (going.symm.trans atEnd) Bool.false_ne_true

/-- **A session reads all of the input, and nothing behind its end.** Let tokens without an end of
input come before an end of input `e`, and let anything come behind. For every severity, initial
scopes and host, the session with what comes behind and the session without it

* accept or refuse alike, write down the same transcript, of tokens read, queries, and everything
  done to scopes, draft and reports, and end in the same state;
* take as many tokens from the source as there are before `e`, and one more: the first with nothing
  at hand, each later one with the token at hand that came before, never with an end of input;
* end with `e` at hand, so that a program is accepted exactly if no error was reported.

The pass over either stream gives out the events of that transcript. -/
theorem reads_exactly_input (structural : Severity) (scopes : Scopes) (pre : List Token) (e : Token)
    (rest : List Token) (noEof : ∀ t ∈ pre, t.isEof = false) (eof : e.isEof) :
    ∃ (accepted : Bool) (x x' : Session),
      let pass := Pass.run structural scopes (.ofList (pre ++ [e] ++ rest))
      let pass' := Pass.run structural scopes (.ofList (pre ++ [e]))
      Session.Parses structural scopes (.ofList (pre ++ [e] ++ rest)) accepted x ∧
      Session.Parses structural scopes (.ofList (pre ++ [e])) accepted x' ∧
      x.transcript = x'.transcript ∧ x.state = x'.state ∧
      takings x.transcript = none :: pre.map some ∧ x.token = e ∧ x'.token = e ∧
      (accepted = true ↔ Diagnostic.errorCount x.state.reports = 0) ∧
      pass.accepted = accepted ∧ pass'.accepted = accepted ∧
      pass.events = eventsOf x.transcript ∧ pass'.events = eventsOf x.transcript ∧
      x.state.scopes = scopes.replay pass.events ∧ x.state.draft = Draft.replay {} pass.events ∧
      x.state.reports = pass.diagnostics := by
  obtain ⟨acts, goes⟩ := parse_goes structural scopes ⟨pre, e.pos⟩
  obtain ⟨empty, current⟩ := goes.carries.reaches.current_eq (parse_atEnd _ _ _) noEof rfl eof
  rw [current] at goes
  generalize Stateful.parse structural scopes ⟨pre, e.pos⟩ = y at goes empty current
  have read : tokensRead acts = pre := by
    have whole := goes.carries.read
    rw [empty, List.append_nil] at whole
    exact whole.symm
  -- Up to the first end of input all sources are the same, so the same acts are done on them.
  have alike (source : Tokens) (same : source.cut = ⟨pre, e.pos⟩) : ∃ x,
      x.Completes structural scopes source ∧ x.token = e ∧ x.state = y.state ∧
        x.transcript = .read none :: acts ∧ Session.Parses structural scopes source
          (Diagnostic.errorCount y.state.reports = 0 ∧ e.isEof) x := by
    have started : (Session.start source { structural, scopes }).At ⟨pre, e.pos⟩ :=
      ((Session.start_at source _).trans same).trans
        (Tokens.cut_eq_of_front noEof eof (.inl ⟨rfl, rfl⟩)).symm
    obtain ⟨x, run, at', state, written⟩ := goes.run _ started rfl
    obtain ⟨x', completes⟩ := Session.completes structural scopes source
    obtain rfl : x' = x := (completes.parsed.unique run).2
    exact ⟨x', completes, at'.token_eq.trans current, state, written, run⟩
  obtain ⟨x, completes, token, state, written, run⟩ := alike _ (Tokens.cut_ofList noEof eof rest)
  obtain ⟨x', completes', token', state', written', run'⟩ :=
    alike _ (by simpa using Tokens.cut_ofList noEof eof [])
  have accepted {source : Tokens} {x : Session} (completes : x.Completes structural scopes source)
      (run : Session.Parses structural scopes source
        (Diagnostic.errorCount y.state.reports = 0 ∧ e.isEof) x) :
      (Pass.run structural scopes source).accepted =
        decide (Diagnostic.errorCount y.state.reports = 0 ∧ e.isEof) :=
    (completes.parsed.unique run).1
  refine ⟨_, x, x', run, run', written.trans written'.symm, state.trans state'.symm, ?_, token,
    token', ?_, accepted completes run, accepted completes' run', completes.events.symm, ?_, ?_, ?_,
    ?_⟩
  · have inOrder := completes.inOrder
    rw [written] at inOrder ⊢
    rw [← read]
    exact congrArg (none :: ·) inOrder.takings_eq
  · simp [state, eof]
  · rw [written, ← written']
    exact completes'.events.symm
  · rw [completes.bindings, completes.events]
  · rw [completes.state]
    exact (parse_log structural scopes _).2.2.1
  · rw [completes.state]
    exact parse_reports structural scopes _

/-- The header of a function that breaks off behind its opening parenthesis. -/
def brokenHeader : List Token :=
  [⟨.symbol "\x7b", ⟨1, 1⟩⟩, ⟨.keyword "int", ⟨1, 3⟩⟩, ⟨.ident "f", ⟨1, 7⟩⟩, ⟨.symbol "(", ⟨1, 8⟩⟩]

/-- What would complete the function, but stands behind the end of the input. -/
def missedBody : List Token :=
  [⟨.keyword "int", ⟨2, 1⟩⟩, ⟨.ident "x", ⟨2, 5⟩⟩, ⟨.symbol ")", ⟨2, 6⟩⟩, ⟨.symbol "\x7b", ⟨2, 8⟩⟩,
    ⟨.symbol "\x7d", ⟨2, 9⟩⟩, ⟨.symbol "\x7d", ⟨2, 11⟩⟩, ⟨.eof, ⟨2, 12⟩⟩]

theorem reads_exactly_brokenHeader :
    (∀ t ∈ brokenHeader, t.isEof = false) ∧ (⟨.eof, ⟨1, 9⟩⟩ : Token).isEof ∧
    ∃ (accepted : Bool) (x x' : Session),
      Session.Parses .error {} (.ofList (brokenHeader ++ [⟨.eof, ⟨1, 9⟩⟩] ++ missedBody))
        accepted x ∧
      Session.Parses .error {} (.ofList (brokenHeader ++ [⟨.eof, ⟨1, 9⟩⟩])) accepted x' ∧
      x.transcript = x'.transcript ∧ takings x.transcript = none :: brokenHeader.map some ∧
      x.token = ⟨.eof, ⟨1, 9⟩⟩ := by
  have proper : ∀ t ∈ brokenHeader, t.isEof = false := by decide
  obtain ⟨accepted, x, x', run, run', same, -, taken, token, -⟩ :=
    reads_exactly_input .error {} brokenHeader ⟨.eof, ⟨1, 9⟩⟩ missedBody proper rfl
  exact ⟨proper, rfl, accepted, x, x', run, run', same, taken, token⟩

end OnePass
