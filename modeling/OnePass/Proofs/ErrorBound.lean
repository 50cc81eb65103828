import OnePass.Proofs.Procedure.Statement
import OnePass.Proofs.Recovery.Statement

/-!
# How many errors there can be

After a failure tokens are discarded up to the next `;`, so what went wrong once is not reported
again and again. A whole session is a course of episodes in which each failure has a `;` of its own,
or is one of the failures at the end of the input: one for each block that is left open there, and
one more. So the errors are counted by the `;` and the opening braces of the input.
-/

namespace OnePass

/-! ## Counting -/

theorem errorCount_eq_zero {es : List Event}
    (h : ∀ e ∈ es, ∀ pos problem, e ≠ .report .error pos problem) :
    Diagnostic.errorCount (diagnostics es) = 0 := by
  refine List.countP_eq_zero.2 fun d hd => ?_
  obtain ⟨e, he, same⟩ := List.mem_filterMap.1 hd
  cases e with
  | report severity pos problem =>
    obtain rfl : ⟨severity, pos, problem.message⟩ = d := Option.some.inj same
    have other : severity ≠ .error := fun isError => h _ he pos problem (by rw [isError])
    simpa using other
  | _ => cases same

theorem Event.ne_error_of_isHarmless {e : Event} (h : e.isHarmless) (pos : Position)
    (problem : Problem) : e ≠ .report .error pos problem := by
  rintro rfl
  simp [isHarmless] at h

theorem Event.ne_error_of_isAside {e : Event} (h : e.isAside) (pos : Position)
    (problem : Problem) : e ≠ .report .error pos problem := by
  rintro rfl
  simp [isAside] at h

theorem Failure.errorCount_le {f : Failure} (h : f.IsProper) :
    Diagnostic.errorCount (diagnostics (eventsOf f.acts)) ≤ 1 := by
  have remarks : (diagnostics f.remarks).countP (·.severity = .error) = 0 :=
    errorCount_eq_zero fun e he => Event.ne_error_of_isAside (h.2 e he)
  have first : diagnostics (eventsOf f.acts) =
      ⟨f.severity, f.pos, f.problem.message⟩ :: diagnostics f.remarks := by
    rw [f.eventsOf_acts]
    rfl
  rw [first, Diagnostic.errorCount, List.countP_cons, remarks]
  split <;> omega

/-- Every error belongs to a failure. -/
theorem Course.errorCount_le {x y : Session} {c : List Episode} (h : Course x c y) :
    Diagnostic.errorCount (diagnostics (eventsOf (actsOf c))) ≤ (failuresOf c).length := by
  obtain ⟨harmless, proper⟩ := h.proper
  clear h
  induction c with
  | nil => exact Nat.le_refl 0
  | cons e c ih =>
    have rest := ih (fun a ha => harmless a (List.mem_cons_of_mem e ha))
      (fun f hf => proper f (List.mem_cons_of_mem e hf))
    rw [actsOf_cons, eventsOf_append, diagnostics_append, Diagnostic.errorCount, List.countP_append]
    change Diagnostic.errorCount _ + Diagnostic.errorCount _ ≤ _
    cases e with
    | act a =>
      have none : Diagnostic.errorCount (diagnostics (eventsOf [a])) = 0 := by
        refine errorCount_eq_zero fun e he => Event.ne_error_of_isHarmless ?_
        obtain ⟨entry, hentry, rfl⟩ := List.mem_map.1 he
        obtain ⟨a', ha', same⟩ := List.mem_filterMap.1 hentry
        obtain rfl := List.mem_singleton.1 ha'
        cases a' with
        | done entry' =>
          cases same
          exact harmless _ List.mem_cons_self entry rfl
        | _ => cases same
      rw [failuresOf_cons_act, Episode.acts, none]
      omega
    | failure f =>
      have one := Failure.errorCount_le (proper f List.mem_cons_self)
      rw [failuresOf_cons_failure, Episode.acts, List.length_cons]
      omega

/-- A failure has a `;` of its own, or a block that is not closed, or is a stray one. -/
theorem length_failuresOf_le (c : List Episode) :
    (failuresOf c).length ≤ (tokensRead (actsOf c)).countP (·.isSymbol ";") +
      c.countP Episode.closes + strays c := by
  induction c with
  | nil => exact Nat.zero_le _
  | cons e c ih =>
    rw [actsOf_cons, tokensRead_append, List.countP_append, List.countP_cons]
    cases e with
    | act a =>
      rw [failuresOf_cons_act, strays, failuresOf_cons_act, ← strays]
      omega
    | failure f =>
      rw [failuresOf_cons_failure, strays, failuresOf_cons_failure, List.countP_cons, ← strays,
        List.length_cons, Episode.acts, f.tokensRead_acts]
      change _ ≤ _ + _ + (_ + if f.isUnclosed then 1 else 0) + _
      cases terminated : f.isTerminated with
      | true =>
        have own : 0 < f.discarded.countP (·.isSymbol ";") :=
          List.countP_pos_iff.2 (List.any_eq_true.1 terminated)
        omega
      | false =>
        rw [Failure.isStray, terminated]
        cases f.isUnclosed <;> simp <;> omega

/-- What is accepted is read. -/
theorem countP_accepts_le (text : String) (c : List Episode) :
    c.countP (Episode.accepts text) ≤ (tokensRead (actsOf c)).countP (·.isSymbol text) := by
  induction c with
  | nil => exact Nat.le_refl 0
  | cons e c ih =>
    rw [actsOf_cons, tokensRead_append, List.countP_append, List.countP_cons]
    have one : (if e.accepts text then 1 else 0) ≤
        (tokensRead e.acts).countP (·.isSymbol text) := by
      cases e with
      | failure f => exact Nat.zero_le _
      | act a =>
        cases a with
        | read current =>
          cases current with
          | none => exact Nat.zero_le _
          | some t => exact Nat.le_of_eq List.countP_singleton.symm
        | _ => exact Nat.zero_le _
    omega

/-! ## Sessions -/

theorem parse_books {x : Session} : Script.parse.Books 1 x := by
  refine .after (act_passes ?_) fun _ y _ => ?_
  · intro e he
    obtain ⟨_, -, rfl⟩ := List.mem_map.1 he
    rfl
  · refine .before (.invoke fun _ z (booked : Booked y.allowance y z) => ?_) fun _ z => ?_
    · refine booked.mono ?_
      unfold Session.allowance
      split <;> omega
    · exact .bind (.modify (Idle.note rfl).clean) fun _ _ clean =>
        .state (.token (.pure ⟨clean, trivial⟩))

/-- **Errors do not come in avalanches.** For every list of tokens, severity of what is missing,
initial scopes and host, the session is a course of episodes that reads the tokens before the first
end of input, in order, and

* everything that is reported, but for widened values, belongs to one of the failures of the course,
  and each of these is reported once;
* a failure discards tokens up to and including their first `;`, which is its own since no token is
  read twice, or it discards no `;` and nothing is read behind it any more;
* of the latter failures at most one is not that a block is not closed;
* at every moment, blocks were closed or found not to be closed no more often than opened;
* so there are no more errors than failures, and no more than there are `;` and opening braces
  before the first end of input, and one. -/
theorem errors_bounded (structural : Severity) (scopes : Scopes) (ts : List Token) :
    ∃ (x : Session) (c : List Episode),
      let pass := Pass.run structural scopes (.ofList ts)
      let input := ts.takeWhile (!·.isEof)
      Session.Parses structural scopes (.ofList ts) pass.accepted x ∧
      x.transcript = .read none :: actsOf c ∧ eventsOf (actsOf c) = pass.events ∧
      tokensRead (actsOf c) = input ∧
      (∀ a, .act a ∈ c → ∀ entry, a = .done entry → entry.event.isHarmless) ∧
      (∀ f, .failure f ∈ c → f.IsProper) ∧
      (∀ before f after, c = before ++ .failure f :: after →
        (∃ skipped semi, f.discarded = skipped ++ [semi] ∧ semi.isSymbol ";" ∧
          ∀ t ∈ skipped, t.isSymbol ";" = false) ∨
        (∀ t ∈ f.discarded, t.isSymbol ";" = false) ∧ tokensRead (actsOf after) = []) ∧
      (failuresOf c).countP (fun f => !f.isTerminated && !f.isUnclosed) ≤ 1 ∧
      (∀ before after, c = before ++ after →
        before.countP Episode.closes ≤ before.countP (Episode.accepts "\x7b")) ∧
      Diagnostic.errorCount pass.diagnostics ≤ (failuresOf c).length ∧
      Diagnostic.errorCount pass.diagnostics ≤
        input.countP (·.isSymbol ";") + input.countP (·.isSymbol "\x7b") + 1 := by
  obtain ⟨x, completes⟩ := Session.completes structural scopes (.ofList ts)
  obtain ⟨c, course, nested, few⟩ := completes.parsed.meets recovery_kept parse_books
  have written : x.transcript = .read none :: actsOf c := course.written
  have events : eventsOf (actsOf c) = (Pass.run structural scopes (.ofList ts)).events := by
    rw [← completes.events, written]
    rfl
  have read : tokensRead (actsOf c) = ts.takeWhile (!·.isEof) := by
    rw [← Tokens.takeWhile_ofList, ← completes.tokens, written]
    rfl
  have errors : Diagnostic.errorCount (Pass.run structural scopes (.ofList ts)).diagnostics ≤
      (failuresOf c).length := by
    rw [Pass.diagnostics, ← events]
    exact course.errorCount_le
  refine ⟨x, c, completes.parsed, written, events, read, course.proper.1, course.proper.2, ?_, few,
    nested, errors, ?_⟩
  · rintro before f after rfl
    exact course.failure_ends
  · have failures := length_failuresOf_le c
    have opened := countP_accepts_le "\x7b" c
    have closed := nested c [] (List.append_nil c).symm
    rw [read] at failures opened
    omega

end OnePass
