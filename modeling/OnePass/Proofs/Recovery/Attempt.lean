import OnePass.Proofs.Recovery.Course

/-!
# Attempts and their failures

The contract of every routine as to failures. A routine that may fail either gets through without a
failure, or has exactly one, and nothing is read behind what that discards. A routine that does not
hand on its failures may have had many, but at most one that ran into the end of the input without a
block to blame; and blocks are closed, or found not to be, no more often than they were opened.
-/

namespace OnePass

/-! ## Delimiters -/

/-- Whether a token ends a statement, or begins or ends a block. -/
def Token.isDelimiter (t : Token) : Bool :=
  t.isSymbol ";" || t.isSymbol "\x7b" || t.isSymbol "\x7d"

theorem Token.isDelimiter_eq_false_iff (t : Token) : t.isDelimiter = false ↔
    t.isSymbol ";" = false ∧ t.isSymbol "\x7b" = false ∧ t.isSymbol "\x7d" = false := by
  simp [isDelimiter, and_assoc]

theorem Token.isDelimiter_of_symbol {t : Token} {text : String} (h : t.kind = .symbol text)
    (other : text ∉ [";", "\x7b", "\x7d"]) : t.isDelimiter = false := by
  simp only [List.mem_cons, List.not_mem_nil, or_false, not_or] at other
  simp [isDelimiter, isSymbol, h, other]

/-- What is no symbol is no delimiter. -/
theorem Token.isDelimiter_of_kind {t : Token} (h : ∀ text, t.kind ≠ .symbol text) :
    t.isDelimiter = false := by
  simp [isDelimiter, isSymbol, h]

/-! ## Outcomes of an attempt -/

/-- Some acts lead from one session to another, without a failure, and no delimiter is read. -/
def Clean (x y : Session) : Prop :=
  ∃ as : List Act, Course x (as.map .act) y ∧ ∀ t ∈ tokensRead as, t.isDelimiter = false

/-- After acts that read no delimiter there is one failure, without remarks and not about the end of
a block; nothing is read behind it. -/
def Failed (x y : Session) : Prop :=
  ∃ (as : List Act) (f : Failure) (bs : List Act),
    Course x (as.map .act ++ .failure f :: bs.map .act) y ∧
      (∀ t ∈ tokensRead as, t.isDelimiter = false) ∧ f.isUnclosed = false ∧ f.remarks = [] ∧
      tokensRead bs = []

/-- The outcome of an attempt: with a value there was no failure, without one there was one. -/
def Tried {α : Type} (x : Session) (v : Option α) (y : Session) : Prop :=
  if v.isSome then Clean x y else Failed x y

namespace Clean

variable {x y z : Session}

theorem refl (x : Session) : Clean x x := ⟨[], .nil x, nofun⟩

theorem trans (h : Clean x y) (h' : Clean y z) : Clean x z := by
  obtain ⟨as, ha, noDelimiter⟩ := h
  obtain ⟨bs, hb, noDelimiter'⟩ := h'
  refine ⟨as ++ bs, by simpa using ha.append hb, ?_⟩
  rw [tokensRead_append, List.forall_mem_append]
  exact ⟨noDelimiter, noDelimiter'⟩

theorem failed (h : Clean x y) (h' : Failed y z) : Failed x z := by
  obtain ⟨as, ha, noDelimiter⟩ := h
  obtain ⟨as', f, bs, hb, noDelimiter', kind⟩ := h'
  refine ⟨as ++ as', f, bs, by simpa using ha.append hb, ?_, kind⟩
  rw [tokensRead_append, List.forall_mem_append]
  exact ⟨noDelimiter, noDelimiter'⟩

theorem tried {α : Type} {v : Option α} (h : Clean x y) (h' : Tried y v z) : Tried x v z := by
  cases v with
  | none => exact h.failed h'
  | some a => exact h.trans h'

theorem advance (going : x.token.isEof = false) (other : x.token.isDelimiter = false) :
    Clean x x.advance :=
  ⟨[.read (some x.token)], .advance going, by simpa [tokensRead, Act.token?] using other⟩

end Clean

/-- Some acts lead from one session to another, without a failure, and nothing is read. -/
def Idle (x y : Session) : Prop :=
  ∃ as : List Act, Course x (as.map .act) y ∧ tokensRead as = []

namespace Idle

variable {x y z : Session}

theorem note {a : Act} (h : a.isRemark) : Idle x (x.note a) := by
  refine ⟨[a], .note h, ?_⟩
  cases a with
  | read _ => cases h
  | _ => rfl

theorem record {es : List Entry} (h : ∀ e ∈ es, e.event.isHarmless) : Idle x (x.record es) :=
  ⟨es.map .done, .record h, tokensRead_done es⟩

theorem adjust (f : State → State) : Idle x { x with state := f x.state } :=
  ⟨[], .adjust f (.nil _), rfl⟩

theorem clean (h : Idle x y) : Clean x y := by
  obtain ⟨as, course, unread⟩ := h
  exact ⟨as, course, by simp [unread]⟩

end Idle

/-- Nothing is read behind a failure, still. -/
theorem Failed.idle {x y z : Session} (h : Failed x y) (h' : Idle y z) : Failed x z := by
  obtain ⟨as, f, bs, course, noDelimiter, closed, noRemarks, unread⟩ := h
  obtain ⟨bs', course', unread'⟩ := h'
  refine ⟨as, f, bs ++ bs', by simpa using course.append course', noDelimiter, closed, noRemarks,
    ?_⟩
  rw [tokensRead_append, unread, unread']
  rfl

theorem Tried.idle {α : Type} {x y z : Session} {v : Option α} (h : Tried x v y) (h' : Idle y z) :
    Tried x v z := by
  cases v with
  | none => exact Failed.idle h h'
  | some b => exact Clean.trans h h'.clean

/-! ## Books -/

/-- Among the first of some episodes, however many, blocks are closed or found not to be closed no
more often than they were opened. -/
def Nested (c : List Episode) : Prop :=
  ∀ d e, c = d ++ e → d.countP Episode.closes ≤ d.countP (Episode.accepts "\x7b")

/-- How many failures ran into the end of the input with no block to blame. -/
def strays (c : List Episode) : Nat := (failuresOf c).countP Failure.isStray

/-- One session leads to another with at most `n` stray failures. -/
def Booked (n : Nat) (x y : Session) : Prop :=
  ∃ c, Course x c y ∧ Nested c ∧ strays c ≤ n

/-- How many stray failures are still to be expected: none at the end of the input. -/
def Session.allowance (x : Session) : Nat := if x.token.isEof then 0 else 1

@[simp] theorem strays_append (c d : List Episode) : strays (c ++ d) = strays c + strays d := by
  simp [strays]

theorem Nested.append {c d : List Episode} (hc : Nested c) (hd : Nested d) : Nested (c ++ d) := by
  intro e e' whole
  rcases List.append_eq_append_iff.1 whole with ⟨a, rfl, rfl⟩ | ⟨a, rfl, rfl⟩
  · rw [List.countP_append, List.countP_append]
    exact Nat.add_le_add (hc c [] (List.append_nil c).symm) (hd a e' rfl)
  · exact hc e a rfl

theorem Nested.of_open {c : List Episode} (h : ∀ e ∈ c, e.closes = false) : Nested c := by
  rintro d e rfl
  have none : d.countP Episode.closes = 0 :=
    List.countP_eq_zero.2 fun e he => by simp [h e (List.mem_append_left _ he)]
  omega

/-- A block: its end closes what its beginning opened. -/
theorem Nested.block {a b : Episode} {c d : List Episode} (opens : a.accepts "\x7b")
    (still : a.closes = false) (hc : Nested c) (hd : ∀ e ∈ d, e.closes = false) :
    Nested (a :: c ++ b :: d) := by
  intro e e' whole
  cases e with
  | nil => exact Nat.le_refl _
  | cons f e =>
    obtain ⟨rfl, inner⟩ := List.cons.inj whole
    rw [List.countP_cons_of_neg (by simp [still]), List.countP_cons_of_pos opens]
    rcases List.append_eq_append_iff.1 inner with ⟨t, rfl, behind⟩ | ⟨t, rfl, -⟩
    · have all := hc c [] (List.append_nil c).symm
      have last : t.countP Episode.closes ≤ 1 := by
        cases t with
        | nil => exact Nat.zero_le _
        | cons g t =>
          obtain ⟨rfl, rfl⟩ := List.cons.inj behind
          have none : t.countP Episode.closes = 0 :=
            List.countP_eq_zero.2 fun e he => by simp [hd e (List.mem_append_left _ he)]
          rw [List.countP_cons, none]
          split <;> omega
      rw [List.countP_append, List.countP_append]
      omega
    · exact Nat.le_succ_of_le (hc e t rfl)

theorem closes_act {as : List Act} (h : ∀ t ∈ tokensRead as, t.isSymbol "\x7d" = false) :
    ∀ e ∈ as.map Episode.act, e.closes = false := by
  intro e he
  obtain ⟨a, ha, rfl⟩ := List.mem_map.1 he
  cases a with
  | read current =>
    cases current with
    | none => rfl
    | some t => exact h t (List.mem_filterMap.2 ⟨_, ha, rfl⟩)
  | _ => rfl

namespace Booked

variable {x y z : Session} {n m : Nat}

theorem mono (h : Booked n x y) (le : n ≤ m) : Booked m x y := by
  obtain ⟨c, course, nested, few⟩ := h
  exact ⟨c, course, nested, Nat.le_trans few le⟩

theorem append (h : Booked n x y) (h' : Booked m y z) : Booked (n + m) x z := by
  obtain ⟨c, hc, nested, few⟩ := h
  obtain ⟨d, hd, nested', few'⟩ := h'
  exact ⟨c ++ d, hc.append hd, nested.append nested', by rw [strays_append]; omega⟩

/-- Before the end of the input no failure can have been a stray one. -/
theorem of_going (h : Booked n x y) (going : y.token.isEof = false) : Booked 0 x y := by
  obtain ⟨c, course, nested, -⟩ := h
  refine ⟨c, course, nested, ?_⟩
  rw [Nat.le_zero, strays, List.countP_eq_zero]
  intro f hf stray
  obtain ⟨e, he, same⟩ := List.mem_filterMap.1 hf
  cases e with
  | act a => cases same
  | failure f' =>
    cases same
    rw [Failure.isStray, Bool.and_eq_true, Bool.not_eq_true', Bool.not_eq_true'] at stray
    rw [course.isEof_of_failure he stray.1] at going
    cases going

/-- What goes on with the allowance that is left stays within the bounds. -/
theorem andThen (h : Booked 1 x y) (h' : Booked y.allowance y z) : Booked 1 x z := by
  unfold Session.allowance at h'
  split at h'
  · exact h.append h'
  · rename_i going
    exact (h.of_going (Bool.not_eq_true _ ▸ going)).append h'

/-- The allowance does not grow. -/
theorem trans (h : Booked x.allowance x y) (h' : Booked y.allowance y z) :
    Booked x.allowance x z := by
  by_cases eof : x.token.isEof
  · have none : x.allowance = 0 := if_pos eof
    rw [none] at h ⊢
    have none' : y.allowance = 0 := by
      obtain ⟨c, course, -⟩ := h
      exact if_pos (course.eof eof).1
    rw [none'] at h'
    exact h.append h'
  · have one : x.allowance = 1 := if_neg eof
    rw [one] at h ⊢
    exact h.andThen h'

end Booked

/-- Acts that read no end of a block. -/
theorem Course.booked {x y : Session} {as : List Act} (h : Course x (as.map .act) y)
    (noEnd : ∀ t ∈ tokensRead as, t.isSymbol "\x7d" = false) : Booked 0 x y :=
  ⟨as.map .act, h, .of_open (closes_act noEnd), by simp [strays]⟩

theorem Clean.booked {x y : Session} (h : Clean x y) : Booked 0 x y := by
  obtain ⟨as, course, noDelimiter⟩ := h
  exact course.booked fun t ht => ((Token.isDelimiter_eq_false_iff t).1 (noDelimiter t ht)).2.2

/-- A single failure, which is not about the end of a block. -/
theorem Course.booked_failure {x y : Session} (as bs : List Act) {f : Failure}
    (h : Course x (as.map .act ++ .failure f :: bs.map .act) y)
    (noDelimiter : ∀ t ∈ tokensRead as, t.isDelimiter = false) (closed : f.isUnclosed = false)
    (unread : tokensRead bs = []) : Booked 1 x y := by
  refine ⟨_, h, .of_open ?_, ?_⟩
  · rw [List.forall_mem_append, List.forall_mem_cons]
    refine ⟨closes_act fun t ht => ?_, closed, closes_act (by simp [unread])⟩
    exact ((Token.isDelimiter_eq_false_iff t).1 (noDelimiter t ht)).2.2
  · have only : failuresOf (as.map .act ++ .failure f :: bs.map .act) = [f] := by simp
    rw [strays, only]
    exact List.countP_le_length

theorem Failed.booked {x y : Session} (h : Failed x y) : Booked 1 x y := by
  obtain ⟨as, f, bs, course, noDelimiter, closed, -, unread⟩ := h
  exact course.booked_failure as bs noDelimiter closed unread

theorem Tried.booked {α : Type} {x y : Session} {v : Option α} (h : Tried x v y) :
    Booked 1 x y := by
  cases v with
  | none => exact Failed.booked h
  | some a => exact (Clean.booked h).mono (Nat.zero_le 1)

/-! ## The contract -/

/-- What each routine promises as to failures. -/
def recovery {β : Type} : Routine β → Session → β → Session → Prop
  | .synchronize, x, _, y => ∃ ts, Discards x ts y
  | .expression, x, v, y => Tried x v y
  | .additive, x, v, y => Tried x v y
  | .additiveRest _, x, v, y => Tried x v y
  | .multiplicative, x, v, y => Tried x v y
  | .multiplicativeRest _, x, v, y => Tried x v y
  | .simple, x, v, y => Tried x v y
  | .signed _, x, v, y => Tried x v y
  | .primary, x, v, y => Tried x v y
  | .named _ _, x, v, y => Tried x v y
  | .statement, x, _, y => Booked 1 x y
  | .statements, x, _, y => Booked x.allowance x y
  | .declarations, x, _, y => Booked x.allowance x y
  | .declaration, x, _, y => Booked 1 x y
  | .program, x, _, y => Booked x.allowance x y

/-- From `x` a script gets through without a failure, and `P` holds in the end. -/
def Script.Passes {α : Type} (m : Script α) (x : Session)
    (P : α → Session → Prop := fun _ _ => True) : Prop :=
  m.Meets recovery (fun a y => Clean x y ∧ P a y) x

/-- From `x` a script gets through or fails once. -/
def Script.Tries {α : Type} (m : Script (Option α)) (x : Session) : Prop :=
  m.Meets recovery (Tried x) x

end OnePass
