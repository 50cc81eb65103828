import OnePass.Proofs.Correspondence.Statement

/-!
# Truncated streams

A stream may lack the terminator that is the last token of another one. A production notices this
only where it would read that terminator: up to there the two runs do the same, since no lookahead
asks for a terminator, and it ends an expression just as the end of the input does. Once the run on
the longer stream has come to the end of the input, nothing is said any more.
-/

namespace OnePass

namespace Tokens

/-- The first stream is the second one without its last token, a terminator. -/
inductive Lacks : Tokens → Tokens → Prop
  | here {s t : Tokens} {last : Token} (ends : s.atEnd = true)
    (terminator : last.kind = .symbol ";") (ends' : t.atEnd = true) :
    Lacks s ⟨last :: t.front, t.final⟩
  | there {s t : Tokens} {x : Token} (proper : x.isEof = false) (rest : Lacks s t) :
    Lacks ⟨x :: s.front, s.final⟩ ⟨x :: t.front, t.final⟩

theorem left_eq_zero_iff (s : Tokens) : s.left = 0 ↔ s.atEnd = true := by
  obtain ⟨front, final⟩ := s
  cases front with
  | nil => simp [left, atEnd, current, Token.isEof]
  | cons x front => by_cases h : x.isEof <;> simp [left, atEnd, current, h]

/-- Behind an end of input nothing is reached. -/
theorem Reaches.atEnd {s r : Tokens} (h : s.Reaches r) (ends : s.atEnd = true) :
    r.atEnd = true := by
  have none : s.left = 0 := (left_eq_zero_iff s).2 ends
  exact (left_eq_zero_iff r).1 (Nat.le_zero.1 (none ▸ h.left_le))

theorem Reaches.going {s r : Tokens} (h : s.Reaches r) (ahead : r.atEnd = false) :
    s.atEnd = false := by
  cases ends : s.atEnd with
  | false => rfl
  | true => rw [h.atEnd ends] at ahead; cases ahead

namespace Lacks

variable {s t : Tokens}

/-- Only the tokens before the first end of input count. -/
theorem of_takeWhile {last : Token} (terminator : last.kind = .symbol ";")
    (h : t.front.takeWhile (!·.isEof) = s.front.takeWhile (!·.isEof) ++ [last]) : s.Lacks t := by
  obtain ⟨front', final'⟩ := t
  induction front' generalizing s with
  | nil => simp at h
  | cons y front' ih =>
    cases eof : y.isEof with
    | true => simp [eof] at h
    | false =>
      rw [List.takeWhile_cons_of_pos (by simpa using eof)] at h
      cases ends : s.atEnd with
      | true =>
        have none := List.length_eq_zero_iff.1 ((left_eq_zero_iff s).2 ends)
        rw [none] at h
        obtain ⟨rfl, none'⟩ := List.cons.inj h
        refine .here (t := ⟨front', final'⟩) ends terminator ?_
        exact (left_eq_zero_iff _).1 (List.length_eq_zero_iff.2 none')
      | false =>
        obtain ⟨_ | ⟨x, front⟩, final⟩ := s
        · simp [atEnd, current, Token.isEof] at ends
        · have proper : x.isEof = false := ends
          rw [List.takeWhile_cons_of_pos (by simpa using proper)] at h
          obtain ⟨rfl, rest⟩ := List.cons.inj h
          exact .there proper (ih (s := ⟨front, final⟩) rest)

/-- The longer stream has at least the terminator left. -/
theorem atEnd_eq (h : s.Lacks t) : t.atEnd = false := by
  cases h with
  | here ends terminator => simp [atEnd, current, Token.isEof, terminator]
  | there proper => exact proper

/-- The streams begin with the same token, or the shorter one has come to its end. -/
theorem current_eq (h : s.Lacks t) (going : s.atEnd = false) : s.current = t.current := by
  cases h with
  | here ends => simp [ends] at going
  | there => rfl

theorem current_of_atEnd (h : s.Lacks t) (ends : s.atEnd = true) :
    s.current.kind = .eof ∧ t.current.kind = .symbol ";" := by
  refine ⟨of_decide_eq_true ends, ?_⟩
  cases h with
  | here _ terminator => exact terminator
  | there proper => simp [atEnd, current, proper] at ends

/-- At the end of the shorter stream, the terminator is all that is left of the longer one. -/
theorem left_eq_one (h : s.Lacks t) (ends : s.atEnd = true) : t.left = 1 := by
  cases h with
  | @here s t last _ terminator ends' =>
    have proper : last.isEof = false := by simp [Token.isEof, terminator]
    have none : t.left = 0 := (left_eq_zero_iff t).2 ends'
    unfold left at none ⊢
    simp [proper, none]
  | there proper => simp [atEnd, current, proper] at ends

/-- Going on, the streams have the same token, or the longer one has the terminator and the shorter
one nothing. -/
theorem uncons (h : s.Lacks t) :
    (s.atEnd = true ∧ ∃ x r, t.uncons? = some (x, r) ∧ x.kind = .symbol ";" ∧
      r.stream.atEnd = true) ∨
    ∃ x r r', s.uncons? = some (x, r) ∧ t.uncons? = some (x, r') ∧
      r.stream.Lacks r'.stream := by
  cases h with
  | @here s t last ends terminator ends' =>
    have proper : last.isEof = false := by simp [Token.isEof, terminator]
    refine .inl ⟨ends, last, ?_⟩
    simp only [uncons?, proper]
    exact ⟨_, rfl, terminator, ends'⟩
  | @there s t x proper rest =>
    refine .inr ⟨x, ?_⟩
    simp only [uncons?, proper]
    exact ⟨_, _, rfl, rfl, rest⟩

theorem skip (h : s.Lacks t) {p : Token → Bool}
    (silent : ∀ x, x.kind = .symbol ";" → p x = false) :
    (s.skip? p = none ∧ t.skip? p = none) ∨
    ∃ r r', s.skip? p = some r ∧ t.skip? p = some r' ∧ r.stream.Lacks r'.stream := by
  rcases h.uncons with ⟨ends, x, r, read, terminator, -⟩ | ⟨x, r, r', read, read', rest⟩
  · refine .inl ⟨?_, ?_⟩
    · rw [skip?, (uncons?_eq_none_iff s).2 ends, Option.bind_none]
    · simp [skip?, read, silent x terminator]
  · by_cases found : p x = true
    · exact .inr ⟨r, r', by simp [skip?, read, found], by simp [skip?, read', found], rest⟩
    · exact .inl ⟨by simp [skip?, read, found], by simp [skip?, read', found]⟩

/-- A token that is the last one of the longer stream is its terminator. -/
theorem atEnd_of_skip (h : s.Lacks t) {p : Token → Bool} {r : t.Tail} (read : t.skip? p = some r)
    (done : r.stream.atEnd = true) : s.atEnd = true := by
  rcases h.uncons with ⟨ends, -⟩ | ⟨x, q, q', -, read', rest⟩
  · exact ends
  · obtain ⟨-, rfl⟩ : p x = true ∧ q' = r := by simpa [skip?, read'] using read
    rw [rest.atEnd_eq] at done
    cases done

theorem symbol (h : s.Lacks t) (text : String) (other : text ≠ ";") :
    (s.symbol? text = none ∧ t.symbol? text = none) ∨
    ∃ r r', s.symbol? text = some r ∧ t.symbol? text = some r' ∧ r.stream.Lacks r'.stream := by
  refine h.skip fun x terminator => ?_
  simp [Token.isSymbol, terminator, Ne.symm other]

theorem keyword (h : s.Lacks t) (word : String) :
    (s.keyword? word = none ∧ t.keyword? word = none) ∨
    ∃ r r', s.keyword? word = some r ∧ t.keyword? word = some r' ∧ r.stream.Lacks r'.stream :=
  h.skip fun x terminator => by simp [Token.isKeyword, terminator]

theorem symbol_eq_none_iff (h : s.Lacks t) {text : String} (other : text ≠ ";") :
    s.symbol? text = none ↔ t.symbol? text = none := by
  rcases h.symbol text other with ⟨none, none'⟩ | ⟨r, r', read, read', -⟩
  · simp [none, none']
  · simp [read, read']

theorem keyword_eq_none_iff (h : s.Lacks t) {word : String} :
    s.keyword? word = none ↔ t.keyword? word = none := by
  rcases h.keyword word with ⟨none, none'⟩ | ⟨r, r', read, read', -⟩
  · simp [none, none']
  · simp [read, read']

/-- A keyword is read in both streams. -/
theorem exists_keyword (h : s.Lacks t) {word : String} {r : t.Tail}
    (read : t.keyword? word = some r) :
    ∃ r', s.keyword? word = some r' ∧ r'.stream.Lacks r.stream := by
  rcases h.keyword word with ⟨-, none⟩ | ⟨r', q, read', found, rest⟩
  · rw [read] at none
    cases none
  · obtain rfl : r = q := Option.some.inj (read.symm.trans found)
    exact ⟨r', read', rest⟩

/-- Where the shorter stream has come to its end, the longer one is resumed at its end. -/
theorem resume_atEnd (h : s.Lacks t) (ends : s.atEnd = true) : t.resume.atEnd = true := by
  cases h with
  | @here s t last _ terminator ends' =>
    have proper : last.isEof = false := by simp [Token.isEof, terminator]
    have closes : last.isSymbol ";" = true := by simp [Token.isSymbol, terminator]
    simp only [Tokens.resume, skipStatement, proper, closes, Bool.false_eq_true, if_false, if_true]
    exact ends'
  | there proper => simp [atEnd, current, proper] at ends

/-- Behind the next terminator the streams differ as before, unless that was the last one. -/
theorem resume (h : s.Lacks t) (going : t.resume.atEnd = false) : s.resume.Lacks t.resume := by
  induction h with
  | here ends terminator ends' =>
    rw [resume_atEnd (.here ends terminator ends') ends] at going
    cases going
  | @there s t x proper rest ih =>
    simp only [Tokens.resume, skipStatement, proper, Bool.false_eq_true, if_false] at going ⊢
    split at going
    · rename_i closes
      simp only [closes, if_true]
      exact rest
    · rename_i closes
      simp only [closes, Bool.false_eq_true, if_false]
      exact ih going

end Lacks

/-- A list without the terminator that stands last before its end of input. -/
theorem lacks_ofList {ts rest : List Token} {last : Token} (terminator : last.kind = .symbol ";")
    (proper : ∀ t ∈ ts, t.isEof = false) (ended : ∀ t ∈ rest.head?, t.isEof = true) :
    (ofList (ts ++ rest)).Lacks (ofList (ts ++ last :: rest)) := by
  have none : rest.takeWhile (!·.isEof) = [] := by
    cases rest with
    | nil => rfl
    | cons e rest => simp [ended e rfl]
  have passed : ∀ t ∈ ts, (!t.isEof) = true := by simpa using proper
  refine .of_takeWhile terminator ?_
  rw [takeWhile_ofList, takeWhile_ofList, List.takeWhile_append_of_pos passed,
    List.takeWhile_append_of_pos passed, none,
    List.takeWhile_cons_of_pos (by simp [Token.isEof, terminator]), none, List.append_nil]

end Tokens

section StartsExpression

variable {s t : Tokens} (hs : s.Lacks t)

include hs

/-- Whether an expression begins here is seen by the next token. -/
theorem Tokens.Lacks.startsExpression_eq :
    s.current.kind.startsExpression = t.current.kind.startsExpression := by
  cases ends : s.atEnd with
  | false => rw [hs.current_eq ends]
  | true =>
    obtain ⟨eof, terminator⟩ := hs.current_of_atEnd ends
    rw [eof, terminator]
    rfl

theorem Tokens.Lacks.going_of_startsExpression
    (starts : t.current.kind.startsExpression = true) : s.atEnd = false := by
  cases ends : s.atEnd with
  | false => rfl
  | true =>
    rw [(hs.current_of_atEnd ends).2] at starts
    exact absurd starts (by decide)

end StartsExpression

/-! ## Runs -/

/-- While the terminator is still ahead, the first run does what the second one does, and the
terminator is what it lacks. -/
def Run.Lags {s t : Tokens} {α : Type} (x : Run s α) (y : Run t α) : Prop :=
  y.rest.atEnd = false → x.events = y.events ∧ x.value = y.value ∧ x.rest.Lacks y.rest

/-- The two runs part where the second one comes to the end of the input. -/
def lacking : SameText :=
  SameText.each { Stream := Tokens.Lacks, Parted := fun _ _ _ r' => r'.atEnd = true } Eq

theorem lacking_guise : lacking.correspondence.toGuise.Lawful where
  kind := by
    rintro t _ ⟨rfl, -⟩
    exact (Token.Kind.rename_id _).symm
  pos := by
    rintro t _ ⟨rfl, -⟩
    rfl
  ahead {s s'} hs := by
    rcases Tokens.Lacks.uncons hs with ⟨ends, x, r, read, terminator, -⟩ |
      ⟨x, r, r', read, read', rest⟩
    · refine .terminator ((Tokens.uncons?_eq_none_iff s).2 ends) read terminator ?_
      intro _ _ _ q' _ shorter
      have one := Tokens.Lacks.left_eq_one hs ends
      exact (Tokens.left_eq_zero_iff q').1 (by omega)
    · exact .both read read' ⟨rfl, trivial⟩ rest
  lost_front := nofun
  lost_parts := nofun
  lost_else _ := nofun
  parted_mono := id
  shut ends := .inl fun _ => ends
  parted_left ends _ reaches := reaches.atEnd ends
  parted_right := id

theorem lacking_resumed {F : List Event → List Event → Prop} {s s' : Tokens} {es es' : List Event}
    (hs : s.Lacks s') (hf : F es es') : lacking.correspondence.Resumed F s s' es es' := by
  cases ends : s'.resume.atEnd with
  | true => exact .inl fun _ => ends
  | false => exact .inr ⟨hs.resume ends, hf⟩

theorem lacking_relates :
    SameText.Relates { Stream := Tokens.Lacks, Parted := fun _ _ _ r' => r'.atEnd = true } Eq where
  given _ := rfl
  missing pos problem same := congrArg (Event.report · pos problem) same
  resumed := lacking_resumed

theorem lacking_lawful : lacking.correspondence.LawfulProgram where
  toLawfulSettings := SameText.lawfulSettings {}
  guise := lacking_guise
  toLawfulEvents := SameText.lawfulEvents lacking_relates
  toLawfulStatements := SameText.lawfulStatements lacking_relates Eq.symm

theorem Run.Lags.of_runs {s t : Tokens} {α : Type}
    {Q : α → α → List Event → List Event → Prop} {x : Run s α} {y : Run t α}
    (h : lacking.correspondence.Runs true Q x y)
    (same : ∀ a a' es es', Q a a' es es' → a' = a ∧ List.Forall₂ Eq es es') : x.Lags y := by
  intro going
  rcases h with ends | ⟨rest, holds⟩
  · exact absurd (going.symm.trans ends) Bool.false_ne_true
  · obtain ⟨value, events⟩ := same _ _ _ _ holds
    rw [List.forall₂_eq_eq_eq] at events
    exact ⟨events, value.symm, rest⟩

/-! ## Productions -/

section

open Correspondence

variable (env : Env) (c : Counters) {s t : Tokens} (hs : s.Lacks t)

theorem lacking_refl : lacking.correspondence.Surroundings env env := .refl env trivial rfl rfl

include hs

theorem expression_lags : (expression env s).Lags (expression env t) :=
  .of_runs (expression_matches lacking_lawful.expressions (lacking_refl env) hs 0)
    fun _ _ _ _ tried => ⟨tried.value_eq fun _ _ => Eq.symm, tried.events⟩

theorem condition_lags : (condition env s).Lags (condition env t) :=
  .of_runs (condition_matches lacking_lawful.expressions (lacking_refl env) hs)
    fun _ _ _ _ tried => ⟨tried.value_eq fun _ _ _ => rfl, tried.events⟩

theorem follow_lags {α : Type} (pos : Position) (j : Judgement α) :
    (follow pos j : Attempt s α).Lags (follow pos j : Attempt t α) := by
  intro going
  cases j with
  | accepted a => exact ⟨rfl, rfl, hs⟩
  | widened a warning => exact ⟨rfl, rfl, hs⟩
  | refused problem => exact ⟨rfl, rfl, hs.resume going⟩

theorem statement_lags : (statement env c s).1.Lags (statement env c t).1 :=
  .of_runs (.weaken lacking_guise
    (statement_matches lacking_lawful (lacking_refl env) (rfl : c = c) hs))
    fun _ _ _ _ same => ⟨SameText.outcome_eq same, same.events⟩

theorem statements_lags : (statements env c s).Lags (statements env c t) :=
  .of_runs (statements_matches lacking_lawful (lacking_refl env) (rfl : c = c) hs)
    fun _ _ _ _ same => ⟨same.counters, same.events⟩

theorem declarations_lags : (declarations env c s).Lags (declarations env c t) :=
  .of_runs (declarations_matches lacking_lawful (lacking_refl env) (rfl : c = c) hs)
    fun _ _ _ _ same => ⟨SameText.declared_eq same, same.events⟩

end

end OnePass
