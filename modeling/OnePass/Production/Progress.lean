import OnePass.Production.Simple

/-!
# Progress

Expressions and simple statements read at least one token whenever there is one: a production either
passes its first token, or fails there and resumes behind a later `;`. This is what lets a sequence
of statements end.
-/

namespace OnePass

namespace Run

variable {s : Tokens} {α β : Type}

theorem left_rest_reached_lt (t : s.Tail) (x : Run t.stream α) :
    (reached t.reaches x).rest.left < s.left :=
  Nat.lt_of_le_of_lt x.left_rest_le t.shorter

theorem left_rest_bind_le (x : Run s α) (f : (r : Tokens) → r.left ≤ s.left → α → Run r β) :
    (x.bind f).rest.left ≤ x.rest.left :=
  left_rest_le (s := x.rest) _

theorem left_rest_andThen_le (x : Attempt s α)
    (f : (r : Tokens) → r.left ≤ s.left → α → Attempt r β) :
    (x.andThen f).rest.left ≤ x.rest.left :=
  left_rest_bind_le x _

theorem left_rest_andThen_lt {x : Attempt s α} (h : x.rest.left < s.left)
    (f : (r : Tokens) → r.left ≤ s.left → α → Attempt r β) :
    (x.andThen f).rest.left < s.left :=
  Nat.lt_of_le_of_lt (left_rest_andThen_le x f) h

theorem left_rest_fail_lt (h : s.atEnd = false) (severity : Severity) (pos : Position)
    (problem : Problem) : (fail severity pos problem : Attempt s α).rest.left < s.left :=
  Tokens.left_resume_lt h

end Run

open Run

theorem left_rest_primary_lt (env : Env) {s : Tokens} (h : s.atEnd = false) :
    (primary env s).rest.left < s.left := by
  rw [primary]
  split
  · exact left_rest_fail_lt h _ _ _
  · rename_i t q reaches shorter _
    split
    · exact left_rest_reached_lt ⟨q, reaches, shorter⟩ _
    · exact left_rest_reached_lt ⟨q, reaches, shorter⟩ _
    · exact left_rest_reached_lt ⟨q, reaches, shorter⟩ _
    · exact left_rest_reached_lt ⟨q, reaches, shorter⟩ _
    · split
      · exact left_rest_reached_lt ⟨q, reaches, shorter⟩ _
      · exact left_rest_fail_lt h _ _ _

theorem left_rest_simple_lt (env : Env) {s : Tokens} (h : s.atEnd = false) :
    (simple env s).rest.left < s.left := by
  rw [simple]
  split
  · rename_i q reaches shorter _
    exact left_rest_reached_lt ⟨q, reaches, shorter⟩ _
  · split
    · rename_i q reaches shorter _
      exact left_rest_reached_lt ⟨q, reaches, shorter⟩ _
    · exact left_rest_andThen_lt (left_rest_primary_lt env h) _

theorem left_rest_multiplicative_lt (env : Env) {s : Tokens} (h : s.atEnd = false) :
    (multiplicative env s).rest.left < s.left := by
  rw [multiplicative]
  exact left_rest_andThen_lt (left_rest_simple_lt env h) _

theorem left_rest_additive_lt (env : Env) {s : Tokens} (h : s.atEnd = false) :
    (additive env s).rest.left < s.left := by
  rw [additive]
  split
  · exact left_rest_andThen_lt (left_rest_multiplicative_lt env h) _
  · rename_i q reaches shorter _
    exact left_rest_reached_lt ⟨q, reaches, shorter⟩ _

theorem left_rest_expression_lt (env : Env) {s : Tokens} (h : s.atEnd = false) :
    (expression env s).rest.left < s.left := by
  rw [expression]
  exact left_rest_andThen_lt (left_rest_additive_lt env h) _

/-- A simple statement reads at least one token if there is one. -/
theorem left_rest_simpleStatement_lt (env : Env) {s : Tokens} (h : s.atEnd = false) :
    (simpleStatement env s).rest.left < s.left := by
  unfold simpleStatement
  split
  · exact left_rest_fail_lt h _ _ _
  · rename_i t r _
    split
    · exact left_rest_reached_lt r _
    split
    · exact left_rest_reached_lt r _
    split
    · exact left_rest_reached_lt r _
    split
    · exact left_rest_reached_lt r _
    split
    · exact left_rest_fail_lt h _ _ _
    split
    · exact left_rest_andThen_lt (left_rest_expression_lt env h) _
    · exact left_rest_fail_lt h _ _ _

end OnePass
