import Mathlib.Data.List.Forall2
import OnePass.Proofs.Procedure.Transcript

/-!
# Scripts that agree with runs on the state

`Script.Realizes m bound st y` says that the script `m` ends, with what the run `y` yields and in
the state that `y` leaves, whenever it is started in the state `st` with the tokens of `y` before
it. These may be followed by anything behind their first end of input: the acts that are written
down do not depend on it. They are in order, provided that the calls that are open at the beginning
have a weight of at least `bound`.
-/

namespace OnePass

/-! ## Streams up to their end -/

namespace Tokens

/-- A stream as far as its first end of input. -/
def cut (s : Tokens) : Tokens :=
  ⟨s.front.takeWhile (!·.isEof), ((s.front.find? Token.isEof).map Token.pos).getD s.final⟩

theorem current_cut (s : Tokens) : s.cut.current = s.current := by
  obtain ⟨front, final⟩ := s
  cases front with
  | nil => rfl
  | cons t ts =>
    by_cases h : t.isEof
    · obtain ⟨kind, pos⟩ := t
      have : kind = .eof := by simpa [Token.isEof] using h
      simp [cut, current, this, Token.isEof]
    · simp [cut, current, h]

theorem cut_cons {t : Token} (h : t.isEof = false) (ts : List Token) (final : Position) :
    cut ⟨t :: ts, final⟩ = ⟨t :: (cut ⟨ts, final⟩).front, (cut ⟨ts, final⟩).final⟩ := by
  simp [cut, h]

theorem cut_of_uncons? {s : Tokens} {t : Token} {r : s.Tail} (h : s.uncons? = some (t, r)) :
    s.cut = ⟨t :: r.stream.cut.front, r.stream.cut.final⟩ := by
  obtain ⟨hnext, ht⟩ := next_eq_of_uncons? h
  obtain ⟨front, final⟩ := s
  cases front with
  | nil => simp [uncons?] at h
  | cons u us =>
    simp only [next, current, List.tail_cons, Prod.mk.injEq] at hnext
    obtain ⟨rfl, hstream⟩ := hnext
    rw [cut_cons ht, hstream]

theorem front_of_uncons? {s : Tokens} {t : Token} {r : s.Tail} (h : s.uncons? = some (t, r)) :
    s.front = t :: r.stream.front := by
  have next := (next_eq_of_uncons? h).1
  obtain ⟨front, final⟩ := s
  cases front with
  | nil => simp [uncons?] at h
  | cons u us =>
    simp only [Tokens.next, Tokens.current, List.tail_cons, Prod.mk.injEq] at next
    rw [← next.2, next.1]

/-- An end of input as the only token is no different from none. -/
theorem cut_next (s : Tokens) : cut ⟨s.next.1 :: s.next.2.front, s.next.2.final⟩ = s.cut := by
  obtain ⟨front, final⟩ := s
  cases front with
  | nil => simp [next, current, cut, Token.isEof]
  | cons t ts => rfl

/-- Streams that are equal up to their first end of input. -/
theorem left_eq_of_cut {s r : Tokens} (h : s.cut = r.cut) : s.left = r.left :=
  congrArg (·.front.length) h

end Tokens

namespace Session

/-- The tokens from the one at hand on. -/
def pending (x : Session) : Tokens := ⟨x.token :: x.source.front, x.source.final⟩

/-- Up to the first end of input, a session has the tokens of `s` before it. -/
def At (x : Session) (s : Tokens) : Prop := x.pending.cut = s.cut

theorem start_at (source : Tokens) (st : State) : (start source st).At source :=
  source.cut_next

theorem At.token_eq {x : Session} {s : Tokens} (h : x.At s) : x.token = s.current := by
  rw [← s.current_cut, ← h, Tokens.current_cut]
  rfl

theorem At.advance {x : Session} {s : Tokens} (h : x.At s) {t : Token} {r : s.Tail}
    (hs : s.uncons? = some (t, r)) : x.advance.At r.stream := by
  have token : x.token = t := by
    rw [h.token_eq, Tokens.current_of_uncons? hs]
  have noEof : x.token.isEof = false := token ▸ (Tokens.next_eq_of_uncons? hs).2
  have before : x.pending.cut = s.cut := h
  rw [pending, Tokens.cut_cons noEof, Tokens.cut_of_uncons? hs] at before
  have behind : x.source.cut = r.stream.cut := by
    simp only [Tokens.mk.injEq, List.cons.injEq] at before
    obtain ⟨⟨-, front⟩, final⟩ := before
    calc x.source.cut = ⟨x.source.cut.front, x.source.cut.final⟩ := rfl
      _ = ⟨r.stream.cut.front, r.stream.cut.final⟩ := by rw [front, final]
  exact x.source.cut_next.trans behind

end Session

/-! ## What acts lead to -/

def Event.function? : Event → Option Symbol
  | .scope (.declare ⟨name, .function link signature, pos⟩) =>
    some ⟨name, .function link signature, pos⟩
  | _ => none

def functionsIn (es : List Event) : List Symbol := es.filterMap Event.function?

@[simp] theorem functionsIn_append (es fs : List Event) :
    functionsIn (es ++ fs) = functionsIn es ++ functionsIn fs :=
  List.filterMap_append

/-- A header introduces the symbol of its function. -/
def Header.Introduces (h : Header) (f : Symbol) : Prop :=
  ∃ link, f = ⟨h.name, .function link h.signature, some h.pos⟩

/-- Some acts carry one state and stream to others. -/
structure Carries (st : State) (s : Tokens) (acts : List Act) (st' : State) (r : Tokens) :
    Prop where
  reaches : s.Reaches r
  read : s.front = tokensRead acts ++ r.front
  log : st'.log = st.log ++ entriesOf acts
  scopes : st'.scopes = st.scopes.replay (eventsOf acts)
  calls : ∀ c : Calls, (acts.foldl Calls.follow c).opened = c.opened
  headers : List.Forall₂ Header.Introduces (headersOf acts) (functionsIn (eventsOf acts))

namespace Carries

variable {st st' st'' : State} {s r q : Tokens} {as bs : List Act}

theorem nil (st : State) (s : Tokens) : Carries st s [] st s :=
  ⟨.refl s, rfl, by simp [entriesOf], rfl, fun _ => rfl, .nil⟩

/-- The tokens that were read are those that are no longer left. -/
theorem left_eq (h : Carries st s as st' r) : s.left = (tokensRead as).length + r.left := by
  obtain ⟨passed, front, left⟩ := h.reaches.left_eq
  have same : passed = tokensRead as := List.append_cancel_right (front ▸ h.read)
  rw [left, same]

theorem append (ha : Carries st s as st' r) (hb : Carries st' r bs st'' q) :
    Carries st s (as ++ bs) st'' q where
  reaches := ha.reaches.trans hb.reaches
  read := by rw [ha.read, hb.read, tokensRead_append, List.append_assoc]
  log := by rw [hb.log, ha.log, entriesOf_append, List.append_assoc]
  scopes := by rw [hb.scopes, ha.scopes, eventsOf_append, Scopes.replay_append]
  calls c := by rw [List.foldl_append, hb.calls, ha.calls]
  headers := by
    rw [headersOf_append, eventsOf_append, functionsIn_append]
    exact List.rel_append ha.headers hb.headers

end Carries

/-- What holds before some acts: so many tokens are left of `total`, the scopes come from `start`,
and the open calls have a weight of at least `bound`. Of the acts before, `P` is known. -/
structure Setting (bound : Nat) (P : List Act → Prop) (start : Scopes) (total : Nat)
    (before : List Act) (st : State) (s : Tokens) : Prop where
  counted : total = (tokensRead before).length + s.left
  scopes : st.scopes = start.replay (eventsOf before)
  calls : ∀ q n, (q, n) ∈ (callsAfter before).opened → bound + 16 * n ≤ 16 * total + q.rank
  past : P before

namespace Setting

variable {bound bound' : Nat} {P P' : List Act → Prop} {start : Scopes} {total : Nat}
  {before acts : List Act} {st st' : State} {s r : Tokens}

theorem weaken (h : Setting bound' P' start total before st s) (hb : bound ≤ bound')
    (hP : P' before → P before) : Setting bound P start total before st s where
  counted := h.counted
  scopes := h.scopes
  calls q n hq := by
    have := h.calls q n hq
    omega
  past := hP h.past

/-- What holds after acts that lead somewhere. -/
theorem follow (h : Setting bound P start total before st s) (carries : Carries st s acts st' r)
    (hP : P before → P' (before ++ acts)) :
    Setting bound P' start total (before ++ acts) st' r where
  counted := by
    rw [h.counted, carries.left_eq, tokensRead_append, List.length_append, Nat.add_assoc]
  scopes := by rw [carries.scopes, h.scopes, eventsOf_append, Scopes.replay_append]
  calls := by
    rw [callsAfter_append, carries.calls]
    exact h.calls
  past := hP h.past

end Setting

/-- An entry that neither calls a function nor declares one. -/
def Entry.isPlain (e : Entry) : Bool :=
  match e.event with
  | .code (.emit (.call _)) | .scope (.declare ⟨_, .function _ _, _⟩) => false
  | _ => true

/-- A script ends, goes from one state and stream to others, and writes down certain acts. -/
structure Script.Ends {β : Type} (m : Script β) (st : State) (s : Tokens) (acts : List Act) (b : β)
    (st' : State) (r : Tokens) : Prop where
  carries : Carries st s acts st' r
  run : ∀ x : Session, x.At s → x.state = st → ∃ x', m.Runs x b x' ∧
    x'.At r ∧ x'.state = st' ∧ x'.transcript = x.transcript ++ acts

/-- A script ends, and what it writes down is in order. -/
structure Script.Goes {β : Type} (m : Script β) (bound : Nat) (P : List Act → Prop) (st : State)
    (s : Tokens) (acts : List Act) (b : β) (st' : State) (r : Tokens) : Prop
    extends m.Ends st s acts b st' r where
  inOrder : ∀ start total before, Setting bound P start total before st s →
    InOrder start before acts

/-- A script does what a run on the state does, if `P` holds of the acts before. -/
def Script.Realizes {s : Tokens} {β : Type} (m : Script β) (bound : Nat) (st : State)
    (y : Move s β) (P : List Act → Prop := fun _ => True) : Prop :=
  ∃ acts, m.Goes bound P st s acts y.value y.state y.rest

/-! ## One script after another -/

theorem Script.Ends.bind {α β : Type} {st st' st'' : State} {s r q : Tokens} {as bs : List Act}
    {a : α} {b : β} {m : Script α} {k : α → Script β} (hm : m.Ends st s as a st' r)
    (hk : (k a).Ends st' r bs b st'' q) : (m >>= k).Ends st s (as ++ bs) b st'' q where
  carries := hm.carries.append hk.carries
  run x hs hst := by
    obtain ⟨x₁, run₁, at₁, state₁, written₁⟩ := hm.run x hs hst
    obtain ⟨x₂, run₂, at₂, state₂, written₂⟩ := hk.run x₁ at₁ state₁
    refine ⟨x₂, run₁.bind run₂, at₂, state₂, ?_⟩
    rw [written₂, written₁, List.append_assoc]

theorem Script.Ends.pure {α : Type} (a : α) (st : State) (s : Tokens) :
    (Pure.pure a : Script α).Ends st s [] a st s where
  carries := .nil st s
  run x hs hst := ⟨x, .done a x, hs, hst, by simp⟩

namespace Script.Goes

variable {α β : Type} {bound bound' : Nat} {P P' : List Act → Prop} {st st' st'' : State}
  {s r q : Tokens} {as bs : List Act} {a : α} {b : β} {m : Script α} {k : α → Script β}

theorem pure (a : α) : (Pure.pure a : Script α).Goes bound P st s [] a st s where
  toEnds := .pure a st s
  inOrder _ _ _ _ := trivial

theorem bind (hm : m.Goes bound P st s as a st' r)
    (hk : (k a).Goes bound P' st' r bs b st'' q)
    (hP : ∀ before, P before → P' (before ++ as)) :
    (m >>= k).Goes bound P st s (as ++ bs) b st'' q where
  toEnds := hm.toEnds.bind hk.toEnds
  inOrder start total before setting :=
    (hm.inOrder start total before setting).append
      (hk.inOrder start total _ (setting.follow hm.carries (hP _)))

/-- What comes next need not know of anything before. -/
theorem next (hm : m.Goes bound P st s as a st' r)
    (hk : (k a).Goes bound (fun _ => True) st' r bs b st'' q) :
    (m >>= k).Goes bound P st s (as ++ bs) b st'' q :=
  hm.bind hk fun _ _ => trivial

/-- A step that does nothing comes first. -/
theorem first (hm : m.Goes bound P st s [] a st' s) (hk : (k a).Goes bound P st' s bs b st'' q) :
    (m >>= k).Goes bound P st s bs b st'' q :=
  hm.bind hk fun before h => by rwa [List.append_nil]

theorem mono (h : m.Goes bound P st s as a st' r) (hb : bound ≤ bound')
    (hP : ∀ before, P' before → P before) : m.Goes bound' P' st s as a st' r where
  carries := h.carries
  inOrder start total before setting :=
    h.inOrder start total before (setting.weaken hb (hP _))
  run := h.run

end Script.Goes

/-! ## Single steps -/

section Steps

variable {bound : Nat} {P : List Act → Prop} {st : State} {s : Tokens}

theorem token_goes : Script.token.Goes bound P st s [] s.current st s where
  carries := .nil st s
  run x hs hst := by
    refine ⟨x, ?_, hs, hst, by simp⟩
    rw [← hs.token_eq]
    exact (Script.Runs.look x).bind (.done x.token x)
  inOrder _ _ _ _ := trivial

theorem state_goes : Script.state.Goes bound P st s [] st st s where
  carries := .nil st s
  inOrder _ _ _ _ := trivial
  run x hs hst := by
    refine ⟨x, ?_, hs, hst, by simp⟩
    rw [← hst]
    exact (Script.Runs.look x).bind (.done x.state x)

theorem adjust_goes {f : State → State} (scopes : (f st).scopes = st.scopes)
    (log : (f st).log = st.log) : (Script.adjust f).Goes bound P st s [] () (f st) s where
  carries := ⟨.refl s, rfl, by simp [log, entriesOf], scopes, fun _ => rfl, .nil⟩
  inOrder _ _ _ _ := trivial
  run x hs hst := ⟨{ x with state := f x.state }, .modify _ x, hs, by rw [hst], by simp⟩

theorem advance_goes {t : Token} {r : s.Tail} (h : s.uncons? = some (t, r)) :
    Script.advance.Goes bound P st s [.read (some t)] () st r.stream where
  carries := ⟨r.reaches, Tokens.front_of_uncons? h, by simp [entriesOf, Act.entry?], rfl,
    fun _ => rfl, .nil⟩
  inOrder _ _ _ _ := ⟨⟨t, rfl, (Tokens.next_eq_of_uncons? h).2⟩, trivial⟩
  run x hs hst := by
    refine ⟨x.advance, .modify _ x, hs.advance h, hst, ?_⟩
    rw [Session.advance, hs.token_eq, Tokens.current_of_uncons? h]

/-- Something that is written down, and is in order. -/
theorem note_goes {a : Act} (still : Carries st s [a] st s)
    (fits : ∀ start total before, Setting bound P start total before st s →
      a.Fits start before []) : (Script.note a).Goes bound P st s [a] () st s where
  carries := still
  inOrder start total before setting := ⟨fits start total before setting, trivial⟩
  run x hs hst := ⟨x.note a, .modify _ x, hs, hst, rfl⟩

theorem query_goes (query : Query) :
    (Script.note (.query query)).Goes bound P st s [.query query] () st s :=
  note_goes ⟨.refl s, rfl, by simp [entriesOf, Act.entry?], rfl, fun _ => rfl, .nil⟩
    fun _ _ _ _ => trivial

theorem check_goes (destination : Destination) (expected given : ValueType) :
    (Script.note (.check destination expected given)).Goes bound P st s
      [.check destination expected given] () st s :=
  note_goes ⟨.refl s, rfl, by simp [entriesOf, Act.entry?], rfl, fun _ => rfl, .nil⟩
    fun _ _ _ _ => trivial

end Steps

/-! ## Entries -/

section Entries

variable (es : List Entry)

@[simp] theorem tokensRead_done : tokensRead (es.map .done) = [] := by
  rw [tokensRead, List.filterMap_map, List.filterMap_eq_nil_iff]
  exact fun _ _ => rfl

@[simp] theorem entriesOf_done : entriesOf (es.map .done) = es := by
  rw [entriesOf, List.filterMap_map]
  exact List.filterMap_some

@[simp] theorem headersOf_done : headersOf (es.map .done) = [] := by
  rw [headersOf, List.filterMap_map, List.filterMap_eq_nil_iff]
  exact fun _ _ => rfl

theorem follow_done (c : Calls) : (es.map Act.done).foldl Calls.follow c = c := by
  induction es generalizing c with
  | nil => rfl
  | cons e es ih => exact ih c

end Entries

def Instruction.isCall : Instruction → Bool
  | .call _ => true
  | _ => false

theorem Entry.isPlain_emit {i : Instruction} (h : i.isCall = false) (cause : Option Mention) :
    (Entry.mk (.emit i) cause).isPlain := by
  cases i with
  | call link => cases h
  | _ => rfl

theorem Entry.function?_of_plain {e : Entry} (h : e.isPlain) : e.event.function? = none := by
  obtain ⟨event, cause⟩ := e
  cases event with
  | scope change =>
    cases change with
    | declare symbol =>
      obtain ⟨name, meaning, pos⟩ := symbol
      cases meaning with
      | function link signature => cases h
      | _ => rfl
    | _ => rfl
  | _ => rfl

theorem Entry.fits_of_plain {e : Entry} (h : e.isPlain) (start : Scopes)
    (before after : List Act) : (Act.done e).Fits start before after := by
  obtain ⟨event, cause⟩ := e
  cases event with
  | code command =>
    cases command with
    | emit i =>
      cases i with
      | call link => cases h
      | _ => trivial
    | _ => trivial
  | _ => trivial

theorem InOrder.of_plain {es : List Entry} (plain : ∀ e ∈ es, e.isPlain) (start : Scopes)
    (before : List Act) : InOrder start before (es.map .done) := by
  induction es generalizing before with
  | nil => trivial
  | cons e es ih =>
    obtain ⟨first, rest⟩ := List.forall_mem_cons.1 plain
    exact ⟨e.fits_of_plain first start before _, ih rest _⟩

theorem functionsIn_of_plain {es : List Entry} (plain : ∀ e ∈ es, e.isPlain) :
    functionsIn (es.map Entry.event) = [] := by
  rw [functionsIn, List.filterMap_map, List.filterMap_eq_nil_iff]
  exact fun e he => e.function?_of_plain (plain e he)

theorem record_ends {st : State} {s : Tokens} {es : List Entry}
    (noFunction : functionsIn (es.map Entry.event) = []) :
    (Script.record es).Ends st s (es.map .done) () (st.record es) s where
  carries := {
    reaches := .refl s
    read := by simp
    log := by simp [State.record]
    scopes := by simp [State.record, eventsOf]
    calls := fun c => by rw [follow_done]
    headers := by
      rw [headersOf_done, eventsOf, entriesOf_done, noFunction]
      exact .nil }
  run x hs hst := ⟨x.record es, .modify _ x, hs, by rw [← hst]; rfl, rfl⟩

theorem record_goes {bound : Nat} {P : List Act → Prop} {st : State} {s : Tokens}
    {es : List Entry} (plain : ∀ e ∈ es, e.isPlain) :
    (Script.record es).Goes bound P st s (es.map .done) () (st.record es) s where
  toEnds := record_ends (functionsIn_of_plain plain)
  inOrder start _ before _ := .of_plain plain start before

/-! ## Procedures that are entered and left -/

section Within

variable {α : Type} {bound : Nat} {P : List Act → Prop} {start : Scopes} {total : Nat}
  {before acts : List Act} {st st' : State} {s r : Tokens} {p : Procedure}

/-- A procedure of less weight than the open calls may be entered. -/
theorem Setting.fits_enter (h : Setting bound P start total before st s)
    (lighter : 16 * s.left + p.rank < bound) : (Act.enter p).Fits start before acts := by
  intro q n isOpen above
  have counted := h.counted
  have weight := h.calls q n isOpen
  omega

theorem Setting.enter (h : Setting bound P start total before st s)
    (lighter : 16 * s.left + p.rank < bound) :
    Setting (16 * s.left + p.rank) (fun _ => True) start total (before ++ [.enter p]) st s := by
  have tokens : tokensRead (before ++ [.enter p]) = tokensRead before :=
    (tokensRead_append ..).trans (List.append_nil _)
  have events : eventsOf (before ++ [.enter p]) = eventsOf before :=
    (eventsOf_append ..).trans (List.append_nil _)
  have counted := h.counted
  refine ⟨by rw [tokens, counted], by rw [events, h.scopes], ?_, trivial⟩
  intro q n isOpen
  rw [callsAfter_append] at isOpen
  rcases List.mem_cons.1 isOpen with same | outer
  · cases same
    rw [count_callsAfter]
    omega
  · have weight := h.calls q n outer
    omega

/-- Where a procedure is entered and left does not matter to what it leads to. -/
theorem Carries.within (h : Carries st s acts st' r) (type : Option ValueType) :
    Carries st s (.enter p :: (acts ++ [.leave type])) st' r := by
  have entries : entriesOf (.enter p :: (acts ++ [.leave type])) = entriesOf acts :=
    (entriesOf_append acts [.leave type]).trans (List.append_nil _)
  have events : eventsOf (.enter p :: (acts ++ [.leave type])) = eventsOf acts := by
    rw [eventsOf, entries, eventsOf]
  have tokens : tokensRead (.enter p :: (acts ++ [.leave type])) = tokensRead acts :=
    (tokensRead_append acts [.leave type]).trans (List.append_nil _)
  have headers : headersOf (.enter p :: (acts ++ [.leave type])) = headersOf acts :=
    (headersOf_append acts [.leave type]).trans (List.append_nil _)
  refine ⟨h.reaches, by rw [tokens, h.read], by rw [entries, h.log], by rw [events, h.scopes],
    fun c => ?_, by rw [headers, events]; exact h.headers⟩
  rw [List.foldl_cons, List.foldl_append]
  exact congrArg List.tail (h.calls (c.follow (.enter p)))

/-- A procedure is entered, runs, and is left. The order of what it writes down may depend on how it
is left. -/
theorem Script.Ends.within {type : α → Option ValueType} {text : Script α} {a : α}
    (h : text.Ends st s acts a st' r) (lighter : 16 * s.left + p.rank < bound)
    (inOrder : ∀ start total before,
      Setting (16 * s.left + p.rank) (fun _ => True) start total before st s →
      InOrder start before (acts ++ [.leave (type a)])) :
    (Script.within p type text).Goes bound P st s (.enter p :: (acts ++ [.leave (type a)])) a
      st' r where
  carries := h.carries.within (type a)
  run x hs hst := by
    obtain ⟨x', run, at', state, written⟩ := h.run (x.note (.enter p)) hs hst
    refine ⟨x'.note (.leave (type a)), ?_, at', state, by simp [Session.note, written]⟩
    exact .bind (.modify _ x) (.bind run (.bind (.modify _ x') (.done a _)))
  inOrder start total before setting :=
    ⟨setting.fits_enter lighter, inOrder start total _ (setting.enter lighter)⟩

end Within

/-! ## Scripts that realize a run -/

namespace Script.Realizes

variable {α β : Type} {bound bound' : Nat} {P P' : List Act → Prop} {st st' : State}
  {s r : Tokens} {as : List Act} {a : α} {m : Script α}

theorem mono {y : Move s α} (h : m.Realizes bound st y P) (hb : bound ≤ bound')
    (hP : ∀ before, P' before → P before) : m.Realizes bound' st y P' := by
  obtain ⟨acts, goes⟩ := h
  exact ⟨acts, goes.mono hb hP⟩

theorem pure (a : α) : (Pure.pure a : Script α).Realizes bound st (Move.pure st a : Move s α) P :=
  ⟨[], .pure a⟩

theorem of_eq {y y' : Move s α} (h : m.Realizes bound st y P) (value : y.value = y'.value)
    (state : y.state = y'.state) (rest : y.rest = y'.rest) : m.Realizes bound st y' P := by
  unfold Script.Realizes at h ⊢
  rwa [← value, ← state, ← rest]

section Continued

variable {k : α → Script β}

/-- A step that reads nothing comes first. -/
theorem still {y : Move s β} (hm : m.Goes bound P st s as a st' s)
    (hk : (k a).Realizes bound st' y P') (hP : ∀ before, P before → P' (before ++ as)) :
    (m >>= k).Realizes bound st y P := by
  obtain ⟨acts, goes⟩ := hk
  exact ⟨as ++ acts, hm.bind goes hP⟩

theorem token {k : Token → Script β} {y : Move s β} (hk : (k s.current).Realizes bound st y P) :
    (Script.token >>= k).Realizes bound st y P := by
  obtain ⟨acts, goes⟩ := hk
  exact ⟨acts, token_goes.first goes⟩

theorem state {k : State → Script β} {y : Move s β} (hk : (k st).Realizes bound st y P) :
    (Script.state >>= k).Realizes bound st y P := by
  obtain ⟨acts, goes⟩ := hk
  exact ⟨acts, state_goes.first goes⟩

theorem adjust {f : State → State} {k : Unit → Script β} {y : Move s β}
    (scopes : (f st).scopes = st.scopes) (log : (f st).log = st.log)
    (hk : (k ()).Realizes bound (f st) y) : (Script.adjust f >>= k).Realizes bound st y :=
  still (adjust_goes scopes log) hk fun _ _ => trivial

theorem query (query : Query) {k : Unit → Script β} {y : Move s β}
    (hk : (k ()).Realizes bound st y) : (Script.note (.query query) >>= k).Realizes bound st y :=
  still (query_goes query) hk fun _ _ => trivial

theorem check (destination : Destination) (expected given : ValueType) {k : Unit → Script β}
    {y : Move s β} (hk : (k ()).Realizes bound st y) :
    (Script.note (.check destination expected given) >>= k).Realizes bound st y :=
  still (check_goes destination expected given) hk fun _ _ => trivial

theorem record {es : List Entry} {k : Unit → Script β} {y : Move s β}
    (plain : ∀ e ∈ es, e.isPlain) (hk : (k ()).Realizes bound (st.record es) y) :
    (Script.record es >>= k).Realizes bound st y :=
  still (record_goes plain) hk fun _ _ => trivial

theorem act {es : List Event} {k : Unit → Script β} {y : Move s β}
    (plain : ∀ e ∈ es, (Entry.mk e none).isPlain) (hk : (k ()).Realizes bound (st.act es) y) :
    (Script.act es >>= k).Realizes bound st y := by
  refine record (fun e he => ?_) hk
  obtain ⟨event, hevent, rfl⟩ := List.mem_map.1 he
  exact plain event hevent

theorem emit {is : List Instruction} {k : Unit → Script β} {y : Move s β}
    (plain : ∀ i ∈ is, i.isCall = false) (hk : (k ()).Realizes bound (st.emit is) y) :
    (Script.emit is >>= k).Realizes bound st y := by
  refine act (fun e he => ?_) hk
  obtain ⟨i, hi, rfl⟩ := List.mem_map.1 he
  exact Entry.isPlain_emit (plain i hi) none

theorem emitFor {x : Mention} {is : List Instruction} {k : Unit → Script β} {y : Move s β}
    (plain : ∀ i ∈ is, i.isCall = false) (hk : (k ()).Realizes bound (st.emitFor x is) y) :
    (Script.emitFor x is >>= k).Realizes bound st y := by
  refine record (fun e he => ?_) hk
  obtain ⟨i, hi, rfl⟩ := List.mem_map.1 he
  exact Entry.isPlain_emit (plain i hi) (some x)

/-- The next token is taken first. -/
theorem advance {t : Token} {r : s.Tail} (h : s.uncons? = some (t, r)) {k : Unit → Script β}
    {y : Move r.stream β} (hk : (k ()).Realizes bound st y) :
    (Script.advance >>= k).Realizes bound st (Move.reached r.reaches y) := by
  obtain ⟨acts, goes⟩ := hk
  exact ⟨_, (advance_goes h).bind goes fun _ _ => trivial⟩

/-- One run after another. -/
theorem bindKnowing {x : Move s α} {f : (r : Tokens) → r.left ≤ s.left → State → α → Move r β}
    (hm : m.Realizes bound st x) (hk : (k x.value).Realizes bound x.state
      (f x.rest x.left_rest_le x.state x.value) P')
    (hP : ∀ before acts, P before → Carries st s acts x.state x.rest → P' (before ++ acts)) :
    (m >>= k).Realizes bound st (x.bind f) P := by
  obtain ⟨as, goes⟩ := hm
  obtain ⟨bs, goes'⟩ := hk
  exact ⟨as ++ bs, (goes.mono (Nat.le_refl _) fun _ _ => trivial).bind goes'
    fun before h => hP before as h goes.carries⟩

theorem bindAt {x : Move s α} {f : (r : Tokens) → r.left ≤ s.left → State → α → Move r β}
    (hm : m.Realizes bound st x)
    (hk : (k x.value).Realizes bound x.state (f x.rest x.left_rest_le x.state x.value)) :
    (m >>= k).Realizes bound st (x.bind f) :=
  bindKnowing hm hk fun _ _ _ _ => trivial

theorem bind {x : Move s α} {f : (r : Tokens) → r.left ≤ s.left → State → α → Move r β}
    (hm : m.Realizes bound st x)
    (hk : ∀ r h st a, (k a).Realizes bound st (f r h st a)) :
    (m >>= k).Realizes bound st (x.bind f) :=
  bindAt hm (hk _ _ _ _)

theorem bindShorter {x : Move s α} {shorter : x.rest.left < s.left}
    {f : (r : Tokens) → r.left < s.left → State → α → Move r β} (hm : m.Realizes bound st x)
    (hk : ∀ r h st a, (k a).Realizes bound st (f r h st a)) :
    (m >>= k).Realizes bound st (x.bindShorter shorter f) := by
  obtain ⟨as, goes⟩ := hm
  obtain ⟨bs, goes'⟩ := hk x.rest shorter x.state x.value
  exact ⟨as ++ bs, goes.bind goes' fun _ _ => trivial⟩

end Continued

/-- The value is changed, if there is one. -/
theorem map {m : Script (Option α)} {x : Move s (Option α)} (f : α → β)
    (hm : m.Realizes bound st x) :
    (m >>= fun v => Pure.pure (v.map f) : Script (Option β)).Realizes bound st (x.map f) := by
  obtain ⟨acts, goes⟩ := hm
  exact ⟨acts ++ [], goes.next (.pure _)⟩

theorem andThenAt {m : Script (Option α)} {k : Option α → Script (Option β)}
    {x : Move s (Option α)} {f : (r : Tokens) → r.left ≤ s.left → State → α → Move r (Option β)}
    (hm : m.Realizes bound st x) (none : k none = Pure.pure none)
    (hk : ∀ a, (k (some a)).Realizes bound x.state (f x.rest x.left_rest_le x.state a)) :
    (m >>= k).Realizes bound st (x.andThen f) := by
  refine bindAt hm ?_
  cases x.value with
  | none =>
    rw [none]
    exact .pure _
  | some a => exact hk a

/-- An attempt, and what its value leads to if there is one. -/
theorem andThen {m : Script (Option α)} {k : Option α → Script (Option β)} {x : Move s (Option α)}
    {f : (r : Tokens) → r.left ≤ s.left → State → α → Move r (Option β)}
    (hm : m.Realizes bound st x) (none : k none = Pure.pure none)
    (hk : ∀ r h st a, (k (some a)).Realizes bound st (f r h st a)) :
    (m >>= k).Realizes bound st (x.andThen f) :=
  andThenAt hm none fun a => hk _ _ _ a

/-- A routine does what its script does. -/
theorem invoke {routine : Routine α} {y : Move s α} (h : routine.text.Realizes bound st y P) :
    (Script.invoke routine).Realizes bound st y P := by
  obtain ⟨acts, goes⟩ := h
  refine ⟨acts, ⟨goes.carries, ?_⟩, goes.inOrder⟩
  intro x hs hst
  obtain ⟨x', run, result⟩ := goes.run x hs hst
  exact ⟨x', .invoke run, result⟩

/-- A procedure that is entered and left again. -/
theorem within {p : Procedure} {rank : Nat} {type : α → Option ValueType} {y : Move s α}
    (h : m.Realizes (16 * s.left + rank) st y) (lighter : 16 * s.left + rank < bound)
    (hp : p.rank = rank) : (Script.within p type m).Realizes bound st y P := by
  obtain ⟨acts, goes⟩ := h
  subst hp
  exact ⟨_, goes.toEnds.within lighter fun start total before setting =>
    (goes.inOrder start total before setting).append ⟨trivial, trivial⟩⟩

end Script.Realizes

end OnePass
