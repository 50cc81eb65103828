import OnePass.Proofs.Procedure.Agreement

/-!
# Small procedures

The procedures that read at most one token, recovery, and what it is to enter a procedure and leave
it again. Each does what the production of the same name gives out.
-/

namespace OnePass

namespace Tokens

variable {s : Tokens}

/-- Unless it is the end, the token at hand is the one that is taken next. -/
theorem uncons?_current (h : s.current.isEof = false) : ∃ r, s.uncons? = some (s.current, r) := by
  cases hu : s.uncons? with
  | none =>
    have atEnd : s.current.isEof = true := s.uncons?_eq_none_iff.1 hu
    rw [h] at atEnd
    cases atEnd
  | some x =>
    obtain ⟨t, r⟩ := x
    exact ⟨r, by rw [current_of_uncons? hu]⟩

theorem uncons?_of_skip? {p : Token → Bool} {r : s.Tail} (h : s.skip? p = some r) :
    s.uncons? = some (s.current, r) ∧ p s.current := by
  unfold skip? at h
  obtain ⟨⟨t, tail⟩, hu, hp⟩ := Option.bind_eq_some_iff.1 h
  dsimp only at hp
  split at hp
  · rename_i holds
    cases hp
    rw [current_of_uncons? hu]
    exact ⟨hu, holds⟩
  · cases hp

theorem eq_false_of_skip? {p : Token → Bool} (proper : ∀ t, p t → t.isEof = false)
    (h : s.skip? p = none) : p s.current = false := by
  by_contra holds
  rw [Bool.not_eq_false] at holds
  obtain ⟨r, hu⟩ := uncons?_current (proper _ holds)
  simp [skip?, hu, holds] at h

end Tokens

theorem Token.kind_of_isSymbol {t : Token} {text : String} (h : t.isSymbol text) :
    t.kind = .symbol text := by
  simpa [isSymbol] using h

theorem Token.isEof_of_isSymbol {t : Token} {text : String} (h : t.isSymbol text) :
    t.isEof = false := by
  simp [isEof, kind_of_isSymbol h]

theorem Token.isEof_of_isKeyword {t : Token} {word : String} (h : t.isKeyword word) :
    t.isEof = false := by
  have : t.kind = .keyword word := by simpa [isKeyword] using h
  simp [isEof, this]

section

variable {α β : Type} {bound : Nat} {P P' : List Act → Prop} {st : State} {s : Tokens}

/-! ## Recovery -/

/-- Synchronization reads on to the place where the stream resumes. -/
theorem synchronize_realizes (s : Tokens) : (Script.invoke .synchronize).Realizes bound st
    (⟨st, (), s.resume, s.reaches_resume⟩ : Move s Unit) := by
  obtain ⟨front, final⟩ := s
  induction front with
  | nil => exact .invoke (.token (.pure ()))
  | cons t ts ih =>
    refine .invoke (.token ?_)
    by_cases eof : t.isEof
    · simp only [Tokens.current, eof, if_true]
      refine .of_eq (.pure ()) rfl rfl ?_
      simp [Move.pure, Tokens.resume, Tokens.skipStatement, eof]
    · obtain ⟨⟨rest, reaches, shorter⟩, next⟩ :=
        Tokens.uncons?_current (s := ⟨t :: ts, final⟩) (by simpa [Tokens.current] using eof)
      obtain rfl : ⟨ts, final⟩ = rest := (Prod.ext_iff.1 (Tokens.next_eq_of_uncons? next).1).2
      simp only [Tokens.current, eof]
      by_cases terminator : t.isSymbol ";"
      · simp only [terminator, if_true]
        refine .of_eq (.advance next (.pure ())) rfl rfl ?_
        simp [Move.reached, Move.pure, Tokens.resume, Tokens.skipStatement, eof, terminator]
      · simp only [terminator]
        refine .of_eq (.advance next ih) rfl rfl ?_
        simp [Move.reached, Tokens.resume, Tokens.skipStatement, eof, terminator]

/-- A failure is reported and then synchronized. -/
theorem fail_realizes (severity : Severity) (pos : Position) (problem : Problem) :
    (Script.fail severity pos problem : Script (Option α)).Realizes bound st
      (Move.fail st severity pos problem : Move s (Option α)) := by
  unfold Script.fail
  refine .record (by simp [Entry.isPlain]) ?_
  refine .of_eq (.bind (synchronize_realizes s) fun _ _ _ _ => .pure none) rfl rfl rfl

theorem unexpected_realizes (wanted : Wanted) :
    (Script.unexpected wanted : Script (Option α)).Realizes bound st
      (Move.carryOut st (.unexpected wanted) : Move s (Option α)) := by
  unfold Script.unexpected
  exact .token (fail_realizes ..)

/-- A typing rule is followed by its report. -/
theorem follow_realizes (pos : Position) (j : Judgement α) :
    (Script.follow pos j).Realizes bound st
      (Move.carryOut st (follow pos j) : Move s (Option α)) := by
  cases j with
  | accepted a =>
    refine .of_eq (.pure (some a)) rfl ?_ rfl
    simp [Move.pure, Move.carryOut, follow, Run.ok, State.act]
  | widened a warning =>
    unfold Script.follow
    exact .record (by simp [Entry.isPlain]) (.of_eq (.pure (some a)) rfl rfl rfl)
  | refused problem => exact fail_realizes ..

/-- A typing rule, and what its outcome leads to if there is one. -/
theorem Script.Realizes.follow {pos : Position} {j : Judgement α}
    {k : Option α → Script (Option β)}
    {f : (r : Tokens) → r.left ≤ s.left → State → α → Move r (Option β)}
    (none : k none = Pure.pure none)
    (hk : ∀ r h st a, j.value? = some a → (k (some a)).Realizes bound st (f r h st a)) :
    (Script.follow pos j >>= k).Realizes bound st
      ((Move.carryOut st (OnePass.follow pos j)).andThen f) := by
  refine .bindAt (follow_realizes pos j) ?_
  cases j with
  | accepted a => exact hk _ _ _ a rfl
  | widened a warning => exact hk _ _ _ a rfl
  | refused problem =>
    change (k Option.none).Realizes bound _ _
    rw [none]
    exact .pure _

theorem coerce_realizes (destination : Destination) (expected given : ValueType) (pos : Position) :
    (Script.coerce destination expected given pos).Realizes bound st
      (Move.carryOut st (follow pos (ValueType.allow destination expected given)) :
        Move s (Option Unit)) := by
  unfold Script.coerce
  exact .check destination expected given (follow_realizes pos _)

/-! ## Reading a token -/

/-- A token that is wanted is read. -/
theorem takeIf_goes {p : Token → Bool} {r : s.Tail} (h : s.skip? p = some r) :
    (Script.takeIf p).Goes bound P st s [.read (some s.current)] true st r.stream := by
  obtain ⟨hu, holds⟩ := Tokens.uncons?_of_skip? h
  refine token_goes.first ?_
  rw [if_pos holds]
  exact (advance_goes hu).next (.pure true)

/-- One that is not wanted stays where it is, and nothing is done. -/
theorem takeIf_goes_of_false {p : Token → Bool} (h : p s.current = false) :
    (Script.takeIf p).Goes bound P st s [] false st s := by
  refine token_goes.first ?_
  rw [if_neg (by simp [h])]
  exact .pure false

/-- An operator of the class is read. -/
theorem operator_goes {classify : String → Option α} {op : α} {r : s.Tail}
    (h : s.operator? classify = some (op, r)) :
    (Script.operator classify).Goes bound P st s [.read (some s.current)] (some op) st
      r.stream := by
  obtain ⟨⟨t, tail⟩, hu, reading⟩ := Option.bind_eq_some_iff.1 h
  obtain rfl := Tokens.current_of_uncons? hu
  have same : tail = r := by
    dsimp only at reading
    split at reading
    · obtain ⟨_, -, e⟩ := Option.map_eq_some_iff.1 reading
      cases e
      rfl
    · cases reading
  subst same
  refine token_goes.first ?_
  rw [Tokens.operator?_current h]
  exact (advance_goes hu).next (.pure _)

theorem operator_goes_of_none {classify : String → Option α} (h : s.operator? classify = none) :
    (Script.operator classify).Goes bound P st s [] none st s := by
  refine token_goes.first ?_
  rw [Tokens.operator?_eq_none_iff.1 h]
  exact .pure none

namespace Script.Realizes

theorem takeIf {p : Token → Bool} {r : s.Tail} (h : s.skip? p = some r) {k : Bool → Script β}
    {y : Move r.stream β} (hk : (k true).Realizes bound st y P')
    (hP : ∀ before, P before → P' (before ++ [.read (some s.current)])) :
    (Script.takeIf p >>= k).Realizes bound st (Move.reached r.reaches y) P := by
  obtain ⟨acts, goes⟩ := hk
  exact ⟨_, (takeIf_goes h).bind goes hP⟩

theorem takeIf_false {p : Token → Bool} (h : p s.current = false) {k : Bool → Script β}
    {y : Move s β} (hk : (k false).Realizes bound st y P) :
    (Script.takeIf p >>= k).Realizes bound st y P := by
  obtain ⟨acts, goes⟩ := hk
  exact ⟨acts, (takeIf_goes_of_false h).first goes⟩

theorem equal {text : String} {r : s.Tail} (h : s.symbol? text = some r) {k : Bool → Script β}
    {y : Move r.stream β} (hk : (k true).Realizes bound st y) :
    (Script.equal text >>= k).Realizes bound st (Move.reached r.reaches y) :=
  takeIf h hk fun _ _ => trivial

theorem equal_none {text : String} (h : s.symbol? text = none) {k : Bool → Script β} {y : Move s β}
    (hk : (k false).Realizes bound st y P) : (Script.equal text >>= k).Realizes bound st y P :=
  takeIf_false (Tokens.eq_false_of_skip? (fun _ => Token.isEof_of_isSymbol) h) hk

theorem equalKeyword {word : String} {r : s.Tail} (h : s.keyword? word = some r)
    {k : Bool → Script β} {y : Move r.stream β} (hk : (k true).Realizes bound st y) :
    (Script.equalKeyword word >>= k).Realizes bound st (Move.reached r.reaches y) :=
  takeIf h hk fun _ _ => trivial

theorem equalKeyword_none {word : String} (h : s.keyword? word = none) {k : Bool → Script β}
    {y : Move s β} (hk : (k false).Realizes bound st y) :
    (Script.equalKeyword word >>= k).Realizes bound st y :=
  takeIf_false (Tokens.eq_false_of_skip? (fun _ => Token.isEof_of_isKeyword) h) hk

theorem operator {classify : String → Option α} {op : α} {r : s.Tail}
    (h : s.operator? classify = some (op, r)) {k : Option α → Script β} {y : Move r.stream β}
    (hk : (k (some op)).Realizes bound st y) :
    (Script.operator classify >>= k).Realizes bound st (Move.reached r.reaches y) := by
  obtain ⟨acts, goes⟩ := hk
  exact ⟨_, (operator_goes h).bind goes fun _ _ => trivial⟩

theorem operator_none {classify : String → Option α} (h : s.operator? classify = none)
    {k : Option α → Script β} {y : Move s β} (hk : (k none).Realizes bound st y) :
    (Script.operator classify >>= k).Realizes bound st y := by
  obtain ⟨acts, goes⟩ := hk
  exact ⟨acts, (operator_goes_of_none h).first goes⟩

end Script.Realizes

theorem expect_realizes (text : String) : (Script.expect text).Realizes bound st
    (Move.carryOut st (expect st.env text s) : Move s (Option Unit)) := by
  unfold Script.expect expect
  cases h : s.symbol? text with
  | some r =>
    refine .of_eq (.equal h (.pure (some ()))) rfl ?_ rfl
    exact st.record_nil.symm
  | none => exact .equal_none h (.token (.state (fail_realizes ..)))

theorem identifier_realizes : Script.identifier.Realizes bound st
    (Move.carryOut st (identifier s) : Move s (Option (String × Position))) := by
  unfold Script.identifier identifier
  refine .token ?_
  cases h : s.uncons? with
  | none =>
    have eof := Tokens.current_kind_of_uncons? h
    rw [eof]
    exact unexpected_realizes _
  | some x =>
    obtain ⟨⟨kind, pos⟩, r⟩ := x
    rw [Tokens.current_of_uncons? h]
    cases kind with
    | ident name =>
      refine .of_eq (.advance h (.pure (some (name, pos)))) rfl ?_ rfl
      exact st.record_nil.symm
    | _ => exact unexpected_realizes _

/-! ## Names -/

/-- A name is looked up without reading. -/
theorem lookup_goes (name : String) :
    (Script.lookup name).Goes bound P st s [.query (.lookup name)] (st.scopes.find? name) st s :=
  (query_goes (.lookup name)).next (state_goes.first (.pure _))

theorem Script.Realizes.lookup (name : String) {k : Option Symbol → Script β} {y : Move s β}
    (hk : (k (st.scopes.find? name)).Realizes bound st y) :
    (Script.lookup name >>= k).Realizes bound st y :=
  still (lookup_goes name) hk fun _ _ => trivial

/-- A look at the next token for a type reads nothing. -/
theorem peekType_realizes : Script.peekType.Realizes bound st
    (Move.pure st (st.env.typeNamed? s.current.kind) : Move s (Option ValueType)) := by
  unfold Script.peekType
  refine .token ?_
  cases kind : s.current.kind with
  | keyword word => exact .lookup word (.pure _)
  | ident name =>
    refine .lookup name ?_
    cases found : st.scopes.find? name with
    | some symbol =>
      refine .of_eq (.pure symbol.type?) ?_ rfl rfl
      simp [Move.pure, Env.typeNamed?, State.env, found]
    | none =>
      refine .query (.host name) (.state (.of_eq (.pure (st.scopes.host name)) ?_ rfl rfl))
      simp [Move.pure, Env.typeNamed?, State.env, found]
  | _ => exact .pure none

/-- The type that the token at hand names is asked for first. -/
theorem Script.Realizes.peekType {k : Option ValueType → Script β} {y : Move s β}
    (hk : (k (st.env.typeNamed? s.current.kind)).Realizes bound st y) :
    (Script.peekType >>= k).Realizes bound st y := by
  obtain ⟨acts, goes⟩ : Script.peekType.Realizes bound st (Move.pure st _ : Move s _) :=
    peekType_realizes
  exact still goes hk fun _ _ => trivial

/-- Whether a type comes next is told by the token at hand. -/
theorem Env.typeName?_eq (env : Env) (s : Tokens) :
    env.typeName? s = none ∧ env.typeNamed? s.current.kind = none ∨
      ∃ type r, env.typeName? s = some (type, r) ∧ s.uncons? = some (s.current, r) ∧
        env.typeNamed? s.current.kind = some type := by
  unfold Env.typeName?
  cases h : s.uncons? with
  | none =>
    have eof := Tokens.current_kind_of_uncons? h
    exact .inl ⟨rfl, by rw [eof]; rfl⟩
  | some x =>
    obtain ⟨t, r⟩ := x
    rw [Tokens.current_of_uncons? h]
    cases named : env.typeNamed? t.kind with
    | none => exact .inl ⟨by simp [named], rfl⟩
    | some type => exact .inr ⟨type, r, by simp [named], rfl, rfl⟩

theorem typeName_realizes : Script.typeName.Realizes bound st
    (Move.carryOut st (typeName st.env s) : Move s (Option ValueType)) := by
  unfold Script.typeName typeName
  refine .peekType ?_
  rcases st.env.typeName?_eq s with ⟨none, unknown⟩ | ⟨type, r, some, hu, known⟩
  · rw [none, unknown]
    exact unexpected_realizes _
  · rw [some, known]
    refine .of_eq (.advance hu (.pure _)) rfl ?_ rfl
    exact st.record_nil.symm

/-! ## What an attempt has read -/

/-- If an attempt yields a value, it has given out nothing, and read certain tokens. -/
def Run.Takes (x : Attempt s α) (spelled : α → List Token → Prop) : Prop :=
  ∀ a, x.value = some a → x.events = [] ∧
    ∃ tokens, s.front = tokens ++ x.rest.front ∧ spelled a tokens

namespace Run.Takes

theorem ok {spelled : α → List Token → Prop} {a : α} (h : spelled a []) :
    (Run.ok a : Attempt s α).Takes spelled := by
  rintro _ ⟨⟩
  exact ⟨rfl, [], rfl, h⟩

theorem fail {spelled : α → List Token → Prop} (severity : Severity) (pos : Position)
    (problem : Problem) : (Run.fail severity pos problem : Attempt s α).Takes spelled :=
  nofun

theorem token {spelled : α → List Token → Prop} {t : Token} {r : s.Tail}
    (h : s.uncons? = some (t, r)) {a : α} (ha : spelled a [t]) :
    (Run.reached r.reaches (Run.ok a)).Takes spelled := by
  rintro _ ⟨⟩
  exact ⟨rfl, [t], Tokens.front_of_uncons? h, ha⟩

/-- What is taken in turn is spelled by the tokens of both, in order. -/
theorem andThen {x : Attempt s α} {f : (r : Tokens) → r.left ≤ s.left → α → Attempt r β}
    {first : α → List Token → Prop} {second : α → β → List Token → Prop} (hx : x.Takes first)
    (hf : ∀ r h a, (f r h a).Takes (second a)) :
    (x.andThen f).Takes fun b tokens =>
      ∃ a ts us, tokens = ts ++ us ∧ first a ts ∧ second a b us := by
  intro b hb
  cases hv : x.value with
  | none =>
    rw [(Run.andThen_of_none hv f).2.1] at hb
    cases hb
  | some a =>
    obtain ⟨events, value, rest⟩ := Run.andThen_of_some hv f
    obtain ⟨quiet, ts, front, hts⟩ := hx a hv
    obtain ⟨quiet', us, front', hus⟩ := hf _ x.left_rest_le a b (value ▸ hb)
    refine ⟨by rw [events, quiet, quiet']; rfl, ts ++ us, ?_, a, ts, us, rfl, hts, hus⟩
    rw [front, front', rest, List.append_assoc]

end Run.Takes

/-- A type is spelled by one token. -/
theorem typeName_takes (env : Env) (s : Tokens) : (typeName env s).Takes fun type tokens =>
    ∃ t, tokens = [t] ∧ env.typeNamed? t.kind = some type := by
  unfold typeName
  rcases env.typeName?_eq s with ⟨none, -⟩ | ⟨type, r, some, hu, known⟩
  · rw [none]
    exact .fail _ _ _
  · rw [some]
    exact .token hu ⟨_, rfl, known⟩

/-- A name is spelled by one token, which gives its position. -/
theorem identifier_takes (s : Tokens) : (identifier s).Takes fun x tokens =>
    tokens = [⟨.ident x.1, x.2⟩] := by
  unfold identifier
  split
  · rename_i hu
    exact .token hu rfl
  · exact .fail _ _ _

theorem expect_takes (env : Env) (text : String) (s : Tokens) : (expect env text s).Takes
    fun _ tokens => ∃ pos, tokens = [⟨.symbol text, pos⟩] := by
  unfold expect
  split
  · rename_i h
    obtain ⟨hu, holds⟩ := Tokens.uncons?_of_skip? h
    exact .token hu ⟨s.current.pos, by rw [← Token.kind_of_isSymbol holds]⟩
  · exact .fail _ _ _

/-- A parameter is spelled by three tokens, up to its closing parenthesis. -/
theorem parameter_takes (env : Env) (s : Tokens) : (parameter env s).Takes fun p tokens =>
    ∃ t closing, tokens = [t, ⟨.ident p.name, p.pos⟩, ⟨.symbol ")", closing⟩] ∧
      env.typeNamed? t.kind = some p.type := by
  have whole : (parameter env s).Takes fun p tokens =>
      ∃ type ts us, tokens = ts ++ us ∧ (∃ t, ts = [t] ∧ env.typeNamed? t.kind = some type) ∧
      ∃ (x : String × Position) (ts' us' : List Token), us = ts' ++ us' ∧
        ts' = [⟨.ident x.1, x.2⟩] ∧
      ∃ _ : Unit, ∃ ts'' us'', us' = ts'' ++ us'' ∧ (∃ pos, ts'' = [⟨.symbol ")", pos⟩]) ∧
        p = ⟨type, x.1, x.2⟩ ∧ us'' = [] :=
    (typeName_takes env s).andThen fun q _ type => (identifier_takes q).andThen fun r _ x =>
      (expect_takes env ")" r).andThen fun _ _ _ => .ok ⟨rfl, rfl⟩
  intro p hp
  obtain ⟨events, tokens, front, type, _, _, rfl, ⟨t, rfl, known⟩, x, _, _, rfl, rfl, _, _, _, rfl,
    ⟨closing, rfl⟩, rfl, rfl⟩ := whole p hp
  exact ⟨events, _, front, t, closing, rfl, known⟩

/-- What gives out nothing unless it fails, and what its value leads to if there is one. -/
theorem Script.Realizes.carriedOut {m : Script (Option α)} {k : Option α → Script (Option β)}
    {x : Attempt s α} {f : (r : Tokens) → r.left ≤ s.left → α → Attempt r β}
    {spelled : α → List Token → Prop} (takes : x.Takes spelled)
    (hm : m.Realizes bound st (Move.carryOut st x)) (none : k none = Pure.pure none)
    (hk : ∀ r h a, (k (some a)).Realizes bound st (Move.carryOut st (f r h a))) :
    (m >>= k).Realizes bound st (Move.carryOut st (x.andThen f)) := by
  obtain ⟨events, value, rest, reaches⟩ := x
  cases value with
  | none =>
    obtain ⟨acts, goes⟩ := hm
    refine ⟨acts ++ [], goes.next ?_⟩
    simpa [Run.andThen, Move.carryOut, none] using Script.Goes.pure _
  | some a =>
    obtain ⟨rfl, -⟩ := takes a rfl
    obtain ⟨acts, goes⟩ := hm
    obtain ⟨acts', goes'⟩ := hk rest reaches.left_le a
    refine ⟨acts ++ acts', goes.next ?_⟩
    simpa [Run.andThen, Move.carryOut, State.act] using goes'

theorem parameter_realizes : Script.parameter.Realizes bound st
    (Move.carryOut st (parameter st.env s) : Move s (Option Parameter)) := by
  unfold Script.parameter parameter
  refine .carriedOut (typeName_takes st.env s) typeName_realizes rfl fun q _ type => ?_
  refine .carriedOut (identifier_takes q) identifier_realizes rfl fun r _ (name, pos) => ?_
  refine .carriedOut (expect_takes st.env ")" r) (expect_realizes ")") rfl fun _ _ _ => ?_
  exact .of_eq (.pure _) rfl st.record_nil.symm rfl

end

end OnePass
