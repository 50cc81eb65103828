import OnePass.Token.Basic

/-!
# Token streams

A stream is a list of tokens with an end of input behind it that is read again and again. An end of
input may also stand inside the list; the compiler stops at the first one, so what is left to it is
the number of tokens before that.

`Reaches` says how the compiler may move: over tokens that are no end of input, and never back.
-/

namespace OnePass

/-- The tokens still to come, and the position of the end of input behind them. -/
structure Tokens where
  front : List Token
  final : Position

namespace Tokens

/-- The stream of a list of tokens. If the list does not end with an end of input, one is added at
the position of its last token. -/
def ofList (ts : List Token) : Tokens :=
  match ts.getLast? with
  | none => ⟨[], .start⟩
  | some t => if t.isEof then ⟨ts.dropLast, t.pos⟩ else ⟨ts, t.pos⟩

def current (s : Tokens) : Token :=
  match s.front with
  | [] => ⟨.eof, s.final⟩
  | t :: _ => t

def next (s : Tokens) : Token × Tokens :=
  (s.current, { s with front := s.front.tail })

def atEnd (s : Tokens) : Bool := s.current.isEof

/-- How many tokens come before the first end of input. -/
def left (s : Tokens) : Nat := (s.front.takeWhile (!·.isEof)).length

/-- `r` is what remains of `s` after some tokens, none of them an end of input. -/
def Reaches (s r : Tokens) : Prop :=
  ∃ passed : List Token, s.front = passed ++ r.front ∧ (∀ t ∈ passed, t.isEof = false) ∧
    r.final = s.final

namespace Reaches

theorem refl (s : Tokens) : s.Reaches s := ⟨[], by simp⟩

theorem trans {s r q : Tokens} : s.Reaches r → r.Reaches q → s.Reaches q
  | ⟨ps, hs, hps, fs⟩, ⟨qs, hr, hqs, fr⟩ =>
    ⟨ps ++ qs, by rw [hs, hr, List.append_assoc], by
      intro t ht
      exact (List.mem_append.1 ht).elim (hps t) (hqs t), fr.trans fs⟩

/-- The tokens passed are those that are no longer left. -/
theorem left_eq {s r : Tokens} (h : s.Reaches r) :
    ∃ passed : List Token, s.front = passed ++ r.front ∧ s.left = passed.length + r.left := by
  obtain ⟨passed, hs, hp, _⟩ := h
  refine ⟨passed, hs, ?_⟩
  unfold left
  rw [hs, List.takeWhile_append_of_pos (by simpa using hp), List.length_append]

theorem left_le {s r : Tokens} (h : s.Reaches r) : r.left ≤ s.left := by
  obtain ⟨_, _, e⟩ := h.left_eq
  omega

end Reaches

/-- What remains of a stream after at least one token. -/
structure Tail (s : Tokens) where
  stream : Tokens
  reaches : s.Reaches stream
  shorter : stream.left < s.left

/-- The next token and what follows it, unless the stream is at its end. -/
def uncons? (s : Tokens) : Option (Token × Tail s) :=
  match h : s.front with
  | [] => none
  | t :: ts =>
    if he : t.isEof then none
    else some (t, {
      stream := ⟨ts, s.final⟩
      reaches := ⟨[t], by simp [h], by simpa using he, rfl⟩
      shorter := by simp [left, h, he] })

/-- There is no token to go on with exactly at an end of input. -/
theorem uncons?_eq_none_iff (s : Tokens) : s.uncons? = none ↔ s.atEnd = true := by
  obtain ⟨front, final⟩ := s
  cases front with
  | nil => simp [uncons?, atEnd, current, Token.isEof]
  | cons t ts =>
    by_cases h : t.isEof
    · simp [uncons?, atEnd, current, h]
    · simp [uncons?, atEnd, current, h]

/-- Going on reads the next token, which is no end of input. -/
theorem next_eq_of_uncons? {s : Tokens} {t : Token} {r : s.Tail} (h : s.uncons? = some (t, r)) :
    s.next = (t, r.stream) ∧ t.isEof = false := by
  obtain ⟨front, final⟩ := s
  cases front with
  | nil => simp [uncons?] at h
  | cons u us =>
    by_cases hu : u.isEof
    · simp [uncons?, hu] at h
    · simp only [uncons?, hu, dif_neg, Bool.false_eq_true, not_false_eq_true, Option.some.injEq,
        Prod.mk.injEq] at h
      obtain ⟨rfl, rfl⟩ := h
      exact ⟨rfl, by simpa using hu⟩

/-- What follows the next token, if that token satisfies `p`. -/
def skip? (s : Tokens) (p : Token → Bool) : Option (Tail s) :=
  s.uncons?.bind fun (t, r) => if p t then some r else none

/-- What follows the given symbol, if it comes next. -/
def symbol? (s : Tokens) (text : String) : Option (Tail s) := s.skip? (·.isSymbol text)

/-- What follows the given keyword, if it comes next. -/
def keyword? (s : Tokens) (word : String) : Option (Tail s) := s.skip? (·.isKeyword word)

/-- The operator that comes next, by a reading of symbols. -/
def operator? {α : Type} (s : Tokens) (classify : String → Option α) : Option (α × Tail s) :=
  s.uncons?.bind fun (t, r) =>
    match t.kind with
    | .symbol text => (classify text).map (·, r)
    | _ => none

/-- The tokens behind the next `;`, or from the first end of input on if that comes before. -/
def skipStatement : List Token → List Token
  | [] => []
  | t :: ts => if t.isEof then t :: ts else if t.isSymbol ";" then ts else skipStatement ts

theorem reaches_skipStatement (ts : List Token) (final : Position) :
    Reaches ⟨ts, final⟩ ⟨skipStatement ts, final⟩ := by
  induction ts with
  | nil => exact .refl _
  | cons t ts ih =>
    unfold skipStatement
    split
    · exact .refl _
    · rename_i h
      have step : Reaches ⟨t :: ts, final⟩ ⟨ts, final⟩ := ⟨[t], rfl, by simpa using h, rfl⟩
      split
      · exact step
      · exact step.trans ih

/-- The stream behind the next `;`, or at its end if that comes before. -/
def resume (s : Tokens) : Tokens := { s with front := skipStatement s.front }

theorem reaches_resume (s : Tokens) : s.Reaches s.resume :=
  reaches_skipStatement s.front s.final

theorem left_resume_lt {s : Tokens} (h : s.atEnd = false) : s.resume.left < s.left := by
  obtain ⟨front, final⟩ := s
  cases front with
  | nil => simp [atEnd, current, Token.isEof] at h
  | cons t ts =>
    have ht : t.isEof = false := h
    have tail : left ⟨t :: ts, final⟩ = left ⟨ts, final⟩ + 1 := by simp [left, ht]
    rw [tail, Nat.lt_succ_iff]
    unfold resume skipStatement
    simp only [ht, Bool.false_eq_true, if_false]
    split
    · exact Nat.le_refl _
    · exact (reaches_skipStatement ts final).left_le

end Tokens

end OnePass
