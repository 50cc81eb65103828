import OnePass.Proofs.Procedure.Statement

/-!
# Termination

The procedures of the compiler call one another freely, take tokens without looking where the input
ends, and go on after a failure as if nothing had happened. All the same a session comes to its end,
because something is read on every way round: a statement or a declaration that is begun takes a
token whether it succeeds or fails, and no procedure is entered again before a token was read.
-/

namespace OnePass

namespace Session

/-- How many tokens a session has before it, up to the first end of input. -/
def left (x : Session) : Nat := x.pending.left

theorem At.left_eq {x : Session} {s : Tokens} (h : x.At s) : x.left = s.left :=
  Tokens.left_eq_of_cut h

end Session

/-- A script that does what a run on the state does, does it from every session. -/
theorem Script.Realizes.run {α : Type} {m : Script α} {bound : Nat} {x : Session}
    {y : Move x.pending α} (h : m.Realizes bound x.state y) :
    ∃ x', m.Runs x y.value x' ∧ x'.left = y.rest.left := by
  obtain ⟨acts, goes⟩ := h
  obtain ⟨x', run, at', -, -⟩ := goes.run x rfl rfl
  exact ⟨x', run, at'.left_eq⟩

/-- A statement takes a token if there is one. -/
theorem Session.statement_progress (x : Session) (going : x.token.isEof = false) :
    ∃ complete x', (Script.invoke .statement).Runs x complete x' ∧
      x'.left = (statement x.state.env x.state.counters x.pending).1.rest.left ∧
      x'.left < x.left := by
  obtain ⟨x', run, left⟩ :=
    (statement_realizes x.state x.pending (Nat.lt_succ_self _)).run
  rw [(statement_performs _ _ rfl rfl x.pending (List.Subset.refl _)).rest] at left
  refine ⟨_, x', run, left, ?_⟩
  rw [left]
  exact (statement _ _ x.pending).2 going

/-- A declaration takes a token if the token at hand names a type. -/
theorem Session.declaration_progress (x : Session) {type : ValueType} {x₁ : Session}
    (named : Script.peekType.Runs x (some type) x₁) :
    ∃ x' r, (Script.invoke .declaration).Runs x () x' ∧
      x.state.env.typeName? x.pending = some (type, r) ∧
      x'.left = (declaration x.state.env x.state.counters type r.stream).rest.left ∧
      x'.left < x.left := by
  have peeked : Script.peekType.Realizes 0 x.state (Move.pure x.state _ : Move x.pending _) :=
    peekType_realizes
  obtain ⟨x₂, run, -⟩ := peeked.run
  have known : x.state.env.typeNamed? x.token.kind = some type :=
    (run.unique named).1
  rcases x.state.env.typeName?_eq x.pending with ⟨-, unknown⟩ | ⟨type', r, read, -, known'⟩
  · exact absurd (known.symm.trans unknown) nofun
  · obtain rfl : type' = type := Option.some.inj (known'.symm.trans known)
    obtain ⟨x', run, left⟩ :=
      (declaration_realizes x.state x.pending read (Nat.lt_succ_self _)).run
    have performed : (Stateful.declaration x.state type' r.stream).rest = _ :=
      (declaration_performs _ _ rfl rfl type' r.stream (List.Subset.refl _)).rest
    refine ⟨x', r, run, read, left.trans (congrArg Tokens.left performed), ?_⟩
    rw [left]
    exact Nat.lt_of_le_of_lt (Stateful.declaration x.state type' r.stream).left_rest_le r.shorter

/-- **The compiler terminates, and makes progress on the way.** For every list of tokens, severity,
initial scopes and host,

* the session comes to its end, though nothing in its procedures bounds their recursion, in one way
  only, and it gives out what the pass gives out;
* in it, a procedure is entered within a call of itself, or of one further down, only after a token
  was read in that call: no way from an expression down to its operands leads back to an expression
  or to an operand before.

From every session whatsoever, a statement that is begun before the end of the input, and a
declaration that is begun where a type is named, come to their end, whether they fail or not. They
leave as many tokens as the productions do, and these are fewer tokens before the first end of input
than there were. -/
theorem parse_terminates :
    (∀ (structural : Severity) (scopes : Scopes) (ts : List Token), ∃ x : Session,
      let pass := Pass.run structural scopes (.ofList ts)
      Session.Parses structural scopes (.ofList ts) pass.accepted x ∧
      (∀ accepted y, Session.Parses structural scopes (.ofList ts) accepted y →
        accepted = pass.accepted ∧ y = x) ∧
      eventsOf x.transcript = pass.events ∧
      ∀ before p after, x.transcript = before ++ .enter p :: after →
        ∀ q n, (q, n) ∈ (callsAfter before).opened → q.rank ≤ p.rank →
          n < (tokensRead before).length) ∧
    (∀ x : Session, x.token.isEof = false →
      ∃ complete x', (Script.invoke .statement).Runs x complete x' ∧
        x'.left = (statement x.state.env x.state.counters x.pending).1.rest.left ∧
        x'.left < x.left) ∧
    ∀ (x x₁ : Session) (type : ValueType), Script.peekType.Runs x (some type) x₁ →
      ∃ x' r, (Script.invoke .declaration).Runs x () x' ∧
        x.state.env.typeName? x.pending = some (type, r) ∧
        x'.left = (declaration x.state.env x.state.counters type r.stream).rest.left ∧
        x'.left < x.left := by
  refine ⟨fun structural scopes ts => ?_, Session.statement_progress,
    fun x _ _ named => x.declaration_progress named⟩
  obtain ⟨x, completes⟩ := Session.completes structural scopes (.ofList ts)
  refine ⟨x, completes.parsed, fun _ _ run => run.unique completes.parsed, completes.events, ?_⟩
  intro before p after split
  exact completes.fits split nofun

end OnePass
