import OnePass.Proofs.Recovery.Expression

/-!
# Failures in statements

A simple statement reads its `;` last, or fails before. Blocks, conditionals, loops and definitions
go on after what failed inside of them; the books are kept all the same, because whatever goes on at
the end of the input finds nothing to fail at but blocks that are not closed.

In the end all routines keep to the contract (`recovery_kept`), so every session does.
-/

namespace OnePass

/-! ## Terminators -/

/-- The outcome of a statement that contains no other one: its `;` is the last token that is read,
and the only delimiter, or it failed. -/
def Concluded {α : Type} (x : Session) (v : Option α) (y : Session) : Prop :=
  if v.isSome then
    ∃ (as : List Act) (semi : Token) (bs : List Act),
      Course x ((as ++ .read (some semi) :: bs).map .act) y ∧
        (∀ t ∈ tokensRead as, t.isDelimiter = false) ∧ semi.isSymbol ";" ∧ tokensRead bs = []
  else Failed x y

/-- From `x` a script reads its `;` last, or fails once. -/
def Script.Concludes {α : Type} (m : Script (Option α)) (x : Session) : Prop :=
  m.Meets recovery (Concluded x) x

/-- What comes before without a failure belongs to the statement. -/
theorem Clean.concluded {α : Type} {x y z : Session} {v : Option α} (h : Clean x y)
    (h' : Concluded y v z) : Concluded x v z := by
  cases v with
  | none => exact h.failed h'
  | some a =>
    obtain ⟨as, course, noDelimiter⟩ := h
    obtain ⟨as', semi, bs, course', noDelimiter', isSemi, unread⟩ := h'
    refine ⟨as ++ as', semi, bs, by simpa using course.append course', ?_, isSemi, unread⟩
    rw [tokensRead_append, List.forall_mem_append]
    exact ⟨noDelimiter, noDelimiter'⟩

/-- A simple statement has at most one stray failure. -/
theorem Concluded.booked {α : Type} {x y : Session} {v : Option α} (h : Concluded x v y) :
    Booked 1 x y := by
  cases v with
  | none => exact Failed.booked h
  | some a =>
    obtain ⟨as, semi, bs, course, noDelimiter, isSemi, unread⟩ := h
    refine (course.booked ?_).mono (Nat.zero_le 1)
    have read : tokensRead (as ++ .read (some semi) :: bs) = tokensRead as ++ [semi] := by
      rw [← unread]
      simp [tokensRead, Act.token?]
    rw [read, List.forall_mem_append, List.forall_mem_singleton]
    refine ⟨fun t ht => ((Token.isDelimiter_eq_false_iff t).1 (noDelimiter t ht)).2.2, ?_⟩
    simp [Token.isSymbol, Token.kind_of_isSymbol isSemi]

/-- And so does what comes after without reading. -/
theorem Concluded.idle {α : Type} {x y z : Session} {v : Option α} (h : Concluded x v y)
    (h' : Idle y z) : Concluded x v z := by
  cases v with
  | none => exact Failed.idle h h'
  | some a =>
    obtain ⟨as, semi, bs, course, noDelimiter, isSemi, unread⟩ := h
    obtain ⟨bs', course', unread'⟩ := h'
    refine ⟨as, semi, bs ++ bs', by simpa using course.append course', noDelimiter, isSemi, ?_⟩
    rw [tokensRead_append, unread, unread']
    rfl

section

variable {α β : Type} {x : Session}

namespace Script.Concludes

theorem token {k : Token → Script (Option β)} (h : (k x.token).Concludes x) :
    (Script.token >>= k).Concludes x :=
  h

theorem state {k : State → Script (Option β)} (h : (k x.state).Concludes x) :
    (Script.state >>= k).Concludes x :=
  h

theorem after {m : Script α} {k : α → Script (Option β)} {P : α → Session → Prop}
    (hm : m.Passes x P) (hk : ∀ a y, P a y → (k a).Concludes y) : (m >>= k).Concludes x :=
  .bind hm fun a y ⟨clean, known⟩ => (hk a y known).mono fun _ _ => clean.concluded

/-- A step that may fail, and then the rest of the statement. -/
theorem andThen {m : Script (Option α)} {k : Option α → Script (Option β)} (hm : m.Tries x)
    (none : k none = Pure.pure none) (hk : ∀ a y, (k (some a)).Concludes y) :
    (m >>= k).Concludes x := by
  refine .bind hm fun v y tried => ?_
  cases v with
  | none =>
    rw [none]
    exact tried
  | some a => exact (hk a y).mono fun _ _ => Clean.concluded tried

end Script.Concludes

/-- A failure concludes a statement. -/
theorem fail_concludes {severity : Severity} {pos : Position} {problem : Problem}
    (failure : problem.isFailure) (closed : problem.isUnclosed = false) :
    (Script.fail severity pos problem : Script (Option α)).Concludes x :=
  (fail_meets failure closed).mono fun _ _ ⟨isNone, failed⟩ => isNone ▸ failed

theorem concluded_advance (v : α) (isSemi : x.token.isSymbol ";") :
    Concluded x (some v) x.advance :=
  ⟨[], x.token, [], .advance (Token.isEof_of_isSymbol isSemi), nofun, isSemi, rfl⟩

/-- The terminator concludes a statement, or it is missing. -/
theorem terminator_concludes : (Script.expect ";").Concludes x := by
  refine (expect_meets ";").mono fun v y outcome => ?_
  rcases outcome with ⟨rfl, here, rfl⟩ | ⟨rfl, ts, discards⟩
  · exact concluded_advance () here
  · exact failed_of_miss (by decide) discards

theorem jumpStatement_concludes (keyword : String) (target : Option Nat) (pos : Position) :
    (Script.jumpStatement keyword target pos).Concludes x := by
  unfold Script.jumpStatement
  cases target with
  | none => exact fail_concludes rfl rfl
  | some label =>
    refine .bind terminator_concludes fun v y concluded => ?_
    cases v with
    | none => exact concluded
    | some _ => exact concluded.idle (.record (by simp [Event.emits, Event.isHarmless, Event.emit]))

theorem returnStatement_concludes (pos : Position) :
    (Script.returnStatement pos).Concludes x := by
  refine .state (.token ?_)
  split
  · refine .andThen (.invoke rfl) rfl fun given _ => ?_
    dsimp only
    split
    · refine .andThen (coerce_tries ..) rfl fun _ _ => ?_
      exact .after (emit_passes _) fun _ _ _ => terminator_concludes
    · exact .after (emit_passes _) fun _ _ _ => terminator_concludes
  · split
    · exact fail_concludes rfl rfl
    · exact .after (emit_passes _) fun _ _ _ => terminator_concludes

/-- The type that is named at hand is looked up, and the token stays. -/
theorem peekType_passes : Script.peekType.Passes x fun type y =>
    y.token = x.token ∧ (type.isSome → x.token.isEof = false ∧ x.token.isDelimiter = false) := by
  have proper (other : ∀ text, x.token.kind ≠ .symbol text) (going : x.token.kind ≠ .eof) :
      x.token.isEof = false ∧ x.token.isDelimiter = false :=
    ⟨by simpa [Token.isEof] using going, Token.isDelimiter_of_kind other⟩
  refine .token ?_
  split
  · rename_i word isWord
    refine .bind (lookup_meets word) ?_
    rintro symbol y ⟨-, rfl⟩
    refine .pure ?_
    exact ⟨(Idle.note rfl).clean, rfl, fun _ => proper (by simp [isWord]) (by simp [isWord])⟩
  · rename_i name isName
    have named := proper (by simp [isName]) (by simp [isName])
    refine .bind (lookup_meets name) ?_
    rintro symbol y ⟨-, rfl⟩
    have looked : Clean x (x.note (.query (.lookup name))) := (Idle.note rfl).clean
    split
    · exact .pure ⟨looked, rfl, fun _ => named⟩
    · exact ⟨looked.trans (Idle.note rfl).clean, rfl, fun _ => named⟩
  · exact .pure ⟨.refl x, rfl, by simp⟩

/-- **Simple statements end with their terminator**, or with one failure that skips it. -/
theorem simpleStatement_concludes : Script.simpleStatement.Concludes x := by
  have advanced {word : String} (isWord : x.token.isKeyword word) : Script.advance.Passes x :=
    advance_passes (Token.isEof_of_isKeyword isWord) (Token.isDelimiter_of_kind
      (by rw [show x.token.kind = .keyword word by simpa [Token.isKeyword] using isWord]; simp))
  refine .token (.state ?_)
  split
  · exact .after (advanced ‹_›) fun _ _ _ => jumpStatement_concludes ..
  split
  · exact .after (advanced ‹_›) fun _ _ _ => jumpStatement_concludes ..
  split
  · exact .after (advanced ‹_›) fun _ _ _ => returnStatement_concludes _
  split
  · exact concluded_advance () ‹_›
  · refine .after peekType_passes fun type y _ => ?_
    split
    · exact fail_concludes rfl rfl
    split
    · refine .andThen (.invoke rfl) rfl fun _ _ => ?_
      exact .after (emit_passes _) fun _ _ _ => terminator_concludes
    · exact .token (fail_concludes rfl rfl)

/-! ## Declarations -/

theorem typeName_tries : Script.typeName.Tries x := by
  refine .after peekType_passes ?_
  rintro type y ⟨same, proper⟩
  cases type with
  | none => exact unexpected_tries (by simp)
  | some type =>
    rw [← same] at proper
    exact .advance (proper rfl).1 (proper rfl).2 fun _ => .ok type

theorem parameter_tries : Script.parameter.Tries x :=
  .andThen typeName_tries rfl fun _ _ => .andThen identifier_tries rfl fun _ _ =>
    .andThen (expect_tries (by decide)) rfl fun _ _ => .ok _

theorem bindLocal_passes (name : String) (type : ValueType) (pos : Position) :
    (Script.bindLocal name type pos).Passes x :=
  .state (act_passes (by simp [Event.isHarmless]))

theorem adjust_passes (f : State → State) : (Script.adjust f).Passes x :=
  .modify ⟨(Idle.adjust f).clean, trivial⟩

theorem openFunction_passes (ret : ValueType) (name : String) (pos : Position) (p : Parameter) :
    (Script.openFunction ret name pos p).Passes x := by
  refine .bind (Q := fun _ y => Clean x y) (.modify (Idle.note rfl).clean) fun _ y clean => ?_
  refine .state (.bind (adjust_passes _) fun _ z adjusted => ?_)
  refine (act_passes (by simp [Event.isHarmless])).mono fun _ _ acted => ?_
  exact ⟨clean.trans (adjusted.1.trans acted.1), trivial⟩

/-! ## Books of a script -/

/-- From `x` a script ends with at most `n` stray failures. -/
def Script.Books {α : Type} (n : Nat) (m : Script α) (x : Session) : Prop :=
  m.Meets recovery (fun _ y => Booked n x y) x

theorem Booked.refl (n : Nat) (x : Session) : Booked n x x :=
  (Clean.refl x).booked.mono (Nat.zero_le n)

/-- Acts without failures cost nothing. -/
theorem Clean.andBooked {y z : Session} {n : Nat} (h : Clean x y) (h' : Booked n y z) :
    Booked n x z :=
  Nat.zero_add n ▸ h.booked.append h'

theorem Booked.andClean {y z : Session} {n : Nat} (h : Booked n x y) (h' : Clean y z) :
    Booked n x z :=
  h.append h'.booked

/-- A second declaration of a name fails, with a note on the first one. -/
theorem checkFresh_meets (name : String) (pos : Position) :
    (Script.checkFresh name pos).Meets recovery
      (fun v y => if v.isSome then Clean x y else Booked 1 x y) x := by
  have queried : Clean x (x.note (.query (.innermost name))) := (Idle.note rfl).clean
  refine .bind (.modify (Q := fun _ y => Clean x y) queried) fun _ y queried => .state ?_
  split
  · refine .bind (lookup_passes name) ?_
    rintro _ z ⟨looked, -⟩ _ z' ⟨ts, discards⟩
    refine (queried.trans looked).andBooked ?_
    have course := Course.failure (f := ⟨.error, pos, .redeclared name, _, ts⟩) ⟨rfl, ?_⟩ discards
      (.nil z')
    · exact course.booked_failure [] [] (List.forall_mem_nil _) rfl rfl
    split
    · simp [Event.isAside]
    · simp
  · exact .pure queried

namespace Script.Books

variable {n : Nat}

theorem token {k : Token → Script β} (h : (k x.token).Books n x) : (Script.token >>= k).Books n x :=
  h

theorem state {k : State → Script β} (h : (k x.state).Books n x) : (Script.state >>= k).Books n x :=
  h

theorem pure (a : α) : (Pure.pure a : Script α).Books n x := .refl n x

theorem after {m : Script α} {k : α → Script β} {P : α → Session → Prop} (hm : m.Passes x P)
    (hk : ∀ a y, P a y → (k a).Books n y) : (m >>= k).Books n x :=
  .bind hm fun a y ⟨clean, known⟩ => (hk a y known).mono fun _ _ => clean.andBooked

/-- What gets through comes last. -/
theorem before {m : Script α} {k : α → Script β} (hm : m.Books n x) (hk : ∀ a y, (k a).Passes y) :
    (m >>= k).Books n x :=
  .bind hm fun a y booked => (hk a y).mono fun _ _ ⟨clean, _⟩ => booked.andClean clean

/-- An attempt, and what its value leads to; the failure is the only one if there is one. -/
theorem checked {m : Script (Option α)} {k : Option α → Script β} {b : β}
    (hm : m.Meets recovery (fun v y => if v.isSome then Clean x y else Booked 1 x y) x)
    (none : k none = Pure.pure b) (hk : ∀ a y, (k (some a)).Books 1 y) : (m >>= k).Books 1 x := by
  refine .bind hm fun v y outcome => ?_
  cases v with
  | none =>
    rw [none]
    exact outcome
  | some a => exact (hk a y).mono fun _ _ => Clean.andBooked outcome

theorem andThen {m : Script (Option α)} {k : Option α → Script β} {b : β} (hm : m.Tries x)
    (none : k none = Pure.pure b) (hk : ∀ a y, (k (some a)).Books 1 y) : (m >>= k).Books 1 x := by
  refine checked (hm.mono fun v y tried => ?_) none hk
  cases v with
  | none => exact tried.booked
  | some a => exact tried

theorem invoke {routine : Routine α} (contract : ∀ v y, recovery routine x v y → Booked n x y) :
    (Script.invoke routine).Books n x :=
  (Meets.invoke routine).mono contract

/-- A procedure that is entered and left again. -/
theorem within {p : Procedure} {type : α → Option ValueType} {m : Script α}
    (hm : ∀ y, y.token = x.token → m.Books n y) : (Script.within p type m).Books n x := by
  refine after (P := fun _ y => y.token = x.token) (.modify ⟨(Idle.note rfl).clean, rfl⟩)
    fun _ y same => before (hm y same) fun v z => ?_
  exact .bind (.modify (Idle.note rfl).clean) fun _ _ clean => .pure ⟨clean, trivial⟩

end Script.Books

theorem Script.Concludes.books {m : Script (Option α)} (h : m.Concludes x) : m.Books 1 x :=
  h.mono fun _ _ => Concluded.booked

/-! ## Statements -/

/-- What a block consists of: its beginning, what is inside, its end, and remarks. -/
theorem Booked.block {y z z' : Session} {b : Episode} (opens : x.token.isSymbol "\x7b")
    (inner : Booked 1 x.advance y) (ends : Course y [b] z) (noStray : strays [b] = 0)
    (idle : Idle z z') : Booked 1 x z' := by
  obtain ⟨c, course, nested, few⟩ := inner
  obtain ⟨as, last, unread⟩ := idle
  refine ⟨.act (.read (some x.token)) :: c ++ b :: as.map .act, ?_, ?_, ?_⟩
  · exact .read (Token.isEof_of_isSymbol opens) (course.append (ends.append last))
  · refine .block opens ?_ nested (closes_act (by simp [unread]))
    simp [Episode.closes, Episode.accepts, Token.isSymbol, Token.kind_of_isSymbol opens]
  · have only : strays (.act (.read (some x.token)) :: c ++ b :: as.map .act) =
        strays c + (strays [b] + strays (as.map .act)) := by
      rw [← strays_append, ← strays_append]
      rfl
    have none : strays (as.map .act) = 0 := by simp [strays]
    omega

/-- A block has at most one stray failure: its parts share their allowance, and a brace that is
missing has a block to blame. -/
theorem compound_books : Script.compound.Books 1 x := by
  refine .bind (expect_meets "\x7b") fun v y outcome => ?_
  rcases outcome with ⟨rfl, opens, rfl⟩ | ⟨rfl, ts, discards⟩
  · have entered : (Script.act [.scope .enter]).Passes x.advance :=
      act_passes (by simp [Event.isHarmless])
    refine .bind entered ?_
    rintro _ y₁ ⟨clean, -⟩
    refine .bind (.invoke .declarations) fun _ y₂ (declared : Booked y₁.allowance y₁ y₂) => ?_
    refine .bind (.invoke .statements) fun _ y₃ (stated : Booked y₂.allowance y₂ y₃) => ?_
    have inner : Booked 1 x.advance y₃ :=
      clean.andBooked ((declared.trans stated).mono (by unfold Session.allowance; split <;> omega))
    refine .bind (expect_meets "\x7d") fun v z outcome => ?_
    have left (w : Session) : Idle w (w.record [⟨.scope .leave, none⟩]) :=
      .record (by simp [Event.isHarmless])
    rcases outcome with ⟨rfl, closes, rfl⟩ | ⟨rfl, ts, discards⟩
    · exact .block opens inner (.advance (Token.isEof_of_isSymbol closes)) rfl (left _)
    · refine .block opens inner (b := .failure ⟨_, _, _, [], ts⟩)
        (.failure ⟨rfl, by simp⟩ discards (.nil _)) ?_ (left _)
      simp [strays, Failure.isStray, Failure.isUnclosed, Problem.isUnclosed]
  · exact (failed_of_miss (by decide) discards).booked

/-- A conditional, with or without `else`: a failure of the first branch that is stray leaves no
token for a second one. -/
theorem conditional_books : Script.conditional.Books 1 x := by
  refine .andThen condition_tries rfl fun _ _ => .state ?_
  refine .after (act_passes (by simp [Event.isHarmless, Event.emit])) fun _ x _ => ?_
  refine .bind (Q := fun _ y => Booked 1 x y) (.invoke .statement) fun _ y booked => ?_
  refine .bind (takeIf_meets _) ?_
  rintro taken z ⟨isTaken, same⟩
  cases taken with
  | false =>
    rw [← isTaken, if_neg Bool.false_ne_true] at same
    subst same
    exact .bind (emit_passes _) fun _ _ emitted => .pure (booked.andClean emitted.1)
  | true =>
    -- There is an `else`, so the first branch did not run into the end of the input.
    rw [if_pos isTaken.symm] at same
    subst same
    have isElse : y.token.isKeyword "else" := isTaken.symm
    have going := Token.isEof_of_isKeyword isElse
    have taken : Clean y y.advance := .advance going (Token.isDelimiter_of_kind
      (by simp [show y.token.kind = .keyword "else" by simpa [Token.isKeyword] using isElse]))
    have first : Booked 0 x y.advance := (booked.of_going going).andClean taken
    suffices rest : Script.Books 1 _ y.advance from
      rest.mono fun _ _ second => Nat.zero_add 1 ▸ first.append second
    refine .state (.after (act_passes (by simp [Event.isHarmless, Event.emit])) fun _ _ _ => ?_)
    refine .before (.invoke fun _ _ => id) fun _ _ => ?_
    exact .bind (emit_passes _) fun _ _ clean => .pure clean

theorem guarded_books (next exit : Nat) : (Script.guarded next exit).Books 1 x := by
  refine .andThen condition_tries rfl fun _ _ => .after (emit_passes _) fun _ _ _ => ?_
  refine .before (.invoke fun _ _ => id) fun _ _ => ?_
  exact .bind (emit_passes _) fun _ _ clean => .pure clean

/-- A loop fails in its condition or in its body, not in both. -/
theorem loop_books : Script.loop.Books 1 x := by
  have reserved {y : Session} : (Script.act [.code .reserveLabel]).Passes y :=
    act_passes (by simp [Event.isHarmless])
  refine .state (.after reserved fun _ _ _ => .state (.after reserved fun _ _ _ => ?_))
  refine .after (adjust_passes _) fun _ _ _ => .after (emit_passes _) fun _ _ _ => ?_
  refine .before (guarded_books _ _) fun _ _ => ?_
  refine .bind (adjust_passes _) fun _ _ left => ?_
  exact .bind (emit_passes _) fun _ _ marked => .pure ⟨left.1.trans marked.1, trivial⟩

/-- Every statement stays within one stray failure. -/
theorem statement_books : Script.statement.Books 1 x := by
  refine .within fun y _ => .token ?_
  have advanced {word : String} (isWord : y.token.isKeyword word) : Script.advance.Passes y :=
    advance_passes (Token.isEof_of_isKeyword isWord) (Token.isDelimiter_of_kind
      (by rw [show y.token.kind = .keyword word by simpa [Token.isKeyword] using isWord]; simp))
  split
  · exact compound_books
  split
  · exact .after (advanced ‹_›) fun _ _ _ => conditional_books
  split
  · exact .after (advanced ‹_›) fun _ _ _ => loop_books
  · exact .before simpleStatement_concludes.books fun _ z => .pure ⟨.refl z, trivial⟩

/-- A statement, and what goes on behind it. -/
theorem andMore_books {routine : Routine Unit} (going : x.token.isEof = false)
    (contract : ∀ x v y, recovery routine x v y → Booked x.allowance x y) :
    (do let _ ← Script.invoke .statement; Script.invoke routine : Script Unit).Books x.allowance
      x := by
  intro _ y (first : Booked 1 x y) _ z rest
  rw [Session.allowance, if_neg (by simp [going])]
  exact first.andThen (contract _ _ _ rest)

/-- A sequence shares one allowance. -/
theorem statements_books : Script.statements.Books x.allowance x := by
  refine .token ?_
  split
  · exact .pure ()
  split
  · exact .pure ()
  · exact andMore_books (Bool.not_eq_true _ ▸ ‹¬x.token.isEof = true›) fun _ _ _ => id

theorem program_books : Script.program.Books x.allowance x := by
  refine .token ?_
  split
  · exact .pure ()
  · exact andMore_books (Bool.not_eq_true _ ▸ ‹¬x.token.isEof = true›) fun _ _ _ => id

theorem declarations_books : Script.declarations.Books x.allowance x := by
  refine .bind peekType_passes ?_
  rintro type y ⟨clean, same, proper⟩
  split
  · rename_i isType
    intro _ z (first : Booked 1 y z) _ w (rest : Booked z.allowance z w)
    rw [Session.allowance, if_neg (by simp [(proper isType).1])]
    exact clean.andBooked (first.andThen rest)
  · exact .pure (clean.booked.mono (Nat.zero_le _))

theorem definition_books (ret : ValueType) (name : String) (pos : Position) :
    (Script.definition ret name pos).Books 1 x := by
  refine .andThen parameter_tries rfl fun p _ => .state ?_
  refine .after (openFunction_passes ..) fun _ _ _ => .after (adjust_passes _) fun _ _ _ => ?_
  refine .after (bindLocal_passes ..) fun _ _ _ => .before compound_books fun _ _ => ?_
  refine .bind (adjust_passes _) fun _ _ left => ?_
  exact (act_passes (by simp [Event.isHarmless])).mono fun _ _ closed =>
    ⟨left.1.trans closed.1, trivial⟩

/-- Every declaration stays within one stray failure. -/
theorem declaration_books : Script.declaration.Books 1 x := by
  refine .within fun _ _ => .andThen typeName_tries rfl fun type _ => ?_
  refine .andThen identifier_tries rfl fun v _ => ?_
  refine .checked (checkFresh_meets v.1 v.2) rfl fun _ _ => ?_
  refine .after (equal_passes (by decide)) fun isFunction _ _ => ?_
  cases isFunction with
  | true => exact definition_books ..
  | false =>
    refine .after (bindLocal_passes ..) fun _ _ _ => ?_
    exact .before terminator_concludes.books fun _ z => .pure ⟨.refl z, trivial⟩

/-! ## All routines -/

/-- Synchronization discards tokens up to and including the next terminator. -/
theorem synchronize_discards : Script.synchronize.Meets recovery
    (fun _ y => ∃ ts, Discards x ts y) x := by
  refine .token ?_
  split
  · exact .pure ⟨[], .atEnd ‹_›⟩
  · rename_i going
    rw [Bool.not_eq_true] at going
    refine .bind (.modify (Q := fun _ y => y = x.advance) rfl) fun _ y same => ?_
    subst same
    split
    · exact .pure ⟨[x.token], .terminator ‹_›⟩
    · rename_i other
      rw [Bool.not_eq_true] at other
      rintro _ y ⟨ts, rest⟩
      exact ⟨x.token :: ts, .other going other rest⟩

/-- **All routines keep to the contract as to failures.** -/
theorem recovery_kept : Contract.Kept recovery := by
  intro _ routine x
  cases routine with
  | synchronize => exact synchronize_discards
  | expression => exact expression_tries
  | additive => exact additive_tries
  | additiveRest lhs => exact additiveRest_tries lhs
  | multiplicative => exact multiplicative_tries
  | multiplicativeRest lhs => exact multiplicativeRest_tries lhs
  | simple => exact simple_tries
  | signed negative => exact signed_tries negative
  | primary => exact primary_tries
  | named name pos => exact named_tries name pos
  | statement => exact statement_books
  | statements => exact statements_books
  | declarations => exact declarations_books
  | declaration => exact declaration_books
  | program => exact program_books

end

end OnePass
