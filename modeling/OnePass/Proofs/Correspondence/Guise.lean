import OnePass.Production.Statement
import OnePass.Proofs.Stream

/-!
# Two streams side by side

Two runs of a production are followed side by side, from one combinator to the next. A `Guise` says
what corresponds in what they read, and `Guise.Lawful` lists what has to hold of it. The second
stream may differ from the first in the spelling of names and in positions, and it may go on where
the first one ends. There the runs part, and nothing is claimed of them any more.

`Runs` is a claim about a pair of runs, with one rule for each combinator, and one lemma for each
way to look at the next token.
-/

namespace OnePass

/-! ## Renaming -/

def Token.Kind.rename (f : String → String) : Token.Kind → Token.Kind
  | .ident name => .ident (f name)
  | k => k

def PrimaryLead.rename (f : String → String) : PrimaryLead → PrimaryLead
  | .name x => .name (f x)
  | lead => lead

/-- The problem with the names in it renamed. -/
def Problem.rename (f : String → String) : Problem → Problem
  | .unexpected wanted found => .unexpected wanted (found.rename f)
  | .redeclared name => .redeclared (f name)
  | .previousDeclaration name => .previousDeclaration (f name)
  | .undeclared name => .undeclared (f name)
  | .foreignFrame name => .foreignFrame (f name)
  | .typeAsValue name => .typeAsValue (f name)
  | .functionAsValue name => .functionAsValue (f name)
  | .missingArgument name type => .missingArgument (f name) type
  | .pointer symbol name => .pointer symbol (f name)
  | p => p

namespace Token.Kind

variable (f : String → String) (k : Token.Kind)

@[simp] theorem rename_id : k.rename id = k := by
  cases k <;> rfl

@[simp] theorem rename_eq_eof : k.rename f = .eof ↔ k = .eof := by
  cases k <;> simp [rename]

@[simp] theorem rename_eq_symbol (text : String) :
    k.rename f = .symbol text ↔ k = .symbol text := by
  cases k <;> simp [rename]

@[simp] theorem rename_eq_keyword (word : String) :
    k.rename f = .keyword word ↔ k = .keyword word := by
  cases k <;> simp [rename]

@[simp] theorem startsExpression_rename : (k.rename f).startsExpression = k.startsExpression := by
  cases k <;> rfl

/-- Literals have no names in them. -/
@[simp] theorem literal?_rename : (k.rename f).literal? = k.literal? := by
  cases k <;> rfl

@[simp] theorem signedLiteral?_rename (negative : Bool) :
    (k.rename f).signedLiteral? negative = k.signedLiteral? negative := by
  cases k <;> rfl

@[simp] theorem primaryLead_rename : (k.rename f).primaryLead = k.primaryLead.rename f := by
  cases k with
  | symbol text =>
    simp only [rename, primaryLead]
    repeat' split
    all_goals rfl
  | _ => rfl

/-- Nor have operators. -/
@[simp] theorem operator?_rename {α : Type} (classify : String → Option α) :
    (k.rename f).operator? classify = k.operator? classify := by
  cases k <;> rfl

end Token.Kind

@[simp] theorem Problem.rename_id (problem : Problem) : problem.rename id = problem := by
  cases problem <;> simp [rename]

/-! ## Errors -/

/-- An error was reported. -/
def Faulty (es : List Event) : Prop :=
  ∃ pos problem, Event.report .error pos problem ∈ es

namespace Faulty

variable {es fs : List Event}

theorem head (pos : Position) (problem : Problem) (es : List Event) :
    Faulty (.report .error pos problem :: es) :=
  ⟨pos, problem, by simp⟩

theorem left (h : Faulty es) (fs : List Event) : Faulty (es ++ fs) := by
  obtain ⟨pos, problem, mem⟩ := h
  exact ⟨pos, problem, List.mem_append_left fs mem⟩

theorem right (h : Faulty fs) (es : List Event) : Faulty (es ++ fs) := by
  obtain ⟨pos, problem, mem⟩ := h
  exact ⟨pos, problem, List.mem_append_right es mem⟩

/-- An error stays reported, whatever comes after it. -/
theorem bind {s : Tokens} {α β : Type} {x : Run s α} (hx : Faulty x.events)
    (f : (r : Tokens) → r.left ≤ s.left → α → Run r β) : Faulty (x.bind f).events :=
  hx.left _

/-- An error stays, whatever comes behind it. -/
theorem andThen {s : Tokens} {α β : Type} {x : Attempt s α} (hx : Faulty x.events)
    (f : (r : Tokens) → r.left ≤ s.left → α → Attempt r β) : Faulty (x.andThen f).events :=
  hx.left _

/-- An attempt that reports its failures, and behind it something that reports an error where the
attempt stopped. -/
theorem andThen_of_reports {s : Tokens} {α β : Type} {x : Attempt s α}
    {f : (r : Tokens) → r.left ≤ s.left → α → Attempt r β}
    (reports : x.value = none → Faulty x.events) (closes : ∀ h a, Faulty (f x.rest h a).events) :
    Faulty (x.andThen f).events := by
  cases value : x.value with
  | none => exact (reports value).andThen f
  | some a =>
    rw [(Run.andThen_of_some value f).1]
    exact (closes _ a).right _

end Faulty

/-! ## Guises -/

/-- How the tokens of two runs correspond. -/
structure Guise where
  /-- The name that stands for a name. -/
  name : String → String
  /-- The positions that correspond. -/
  Pos : Position → Position → Prop
  Tok : Token → Token → Prop
  Stream : Tokens → Tokens → Prop
  /-- The first stream is used up where the second one goes on. -/
  Lost : Tokens → Prop
  /-- Nothing is claimed any more of runs of which the first has given out some events, and that
  have stopped at some streams. With `ends` this may be for want of tokens. -/
  Parted : (ends : Bool) → List Event → Tokens → Tokens → Prop

namespace Guise

/-- What comes next in two streams. -/
inductive Ahead (G : Guise) (s s' : Tokens) : Prop
  | both {t t' : Token} {r : s.Tail} {r' : s'.Tail} (next : s.uncons? = some (t, r))
    (next' : s'.uncons? = some (t', r')) (same : G.Tok t t') (rest : G.Stream r.stream r'.stream)
  | neither (done : s.uncons? = none) (done' : s'.uncons? = none)
    (same : G.Tok s.current s'.current)
  | lost (lost : G.Lost s)
  /-- The second stream has one more terminator; whoever reads it there parts from the first. -/
  | terminator {t' : Token} {r' : s'.Tail} (done : s.uncons? = none)
    (next' : s'.uncons? = some (t', r')) (kind : t'.kind = .symbol ";")
    (parts : ∀ {ends es q q'}, s'.Reaches q' → q'.left < s'.left → G.Parted ends es q q')

/-- What is left of two streams, once they are resumed behind a report, and of what was reported. -/
def Resumed (G : Guise) (F : List Event → List Event → Prop) (s s' : Tokens)
    (es es' : List Event) : Prop :=
  (∀ ends, G.Parted ends es s.resume s'.resume) ∨ G.Stream s.resume s'.resume ∧ F es es'

structure Lawful (G : Guise) : Prop where
  kind {t t' : Token} : G.Tok t t' → t'.kind = t.kind.rename G.name
  pos {t t' : Token} : G.Tok t t' → G.Pos t.pos t'.pos
  ahead {s s' : Tokens} : G.Stream s s' → G.Ahead s s'
  lost_front {s : Tokens} : G.Lost s → s.front = []
  lost_parts {ends : Bool} {es : List Event} {s q q' : Tokens} :
    G.Lost s → s.Reaches q → ends = true ∨ Faulty es → G.Parted ends es q q'
  /-- Where the first stream is used up, the second one does not go on with an alternative. -/
  lost_else {s s' : Tokens} : G.Stream s s' → G.Lost s → s'.keyword? "else" = none
  parted_mono {ends : Bool} {es : List Event} {r r' : Tokens} :
    G.Parted false es r r' → G.Parted ends es r r'
  /-- Runs that have not parted but for want of tokens are at the end of them. -/
  shut {es : List Event} {r r' : Tokens} :
    G.Parted true es r r' → (∀ ends, G.Parted ends es r r') ∨ G.Lost r
  parted_left {ends : Bool} {es fs : List Event} {q q' r r' : Tokens} :
    G.Parted ends es q q' → q.Reaches r → q'.Reaches r' → G.Parted ends (es ++ fs) r r'
  parted_right {ends : Bool} {es fs : List Event} {r r' : Tokens} :
    G.Parted ends fs r r' → G.Parted ends (es ++ fs) r r'

/-- The two runs have parted, or they have stopped at corresponding streams, and `Q` holds of their
values and their events. -/
def Runs (G : Guise) (ends : Bool) {s s' : Tokens} {α α' : Type}
    (Q : α → α' → List Event → List Event → Prop) (x : Run s α) (y : Run s' α') : Prop :=
  G.Parted ends x.events x.rest y.rest ∨
    G.Stream x.rest y.rest ∧ Q x.value y.value x.events y.events

/-! ## Runs -/

namespace Runs

variable {G : Guise} {ends : Bool} {s s' q q' : Tokens} {α α' β β' : Type}
  {Q : α → α' → List Event → List Event → Prop} {R : β → β' → List Event → List Event → Prop}

/-- What is shown of the values and events may be weakened. -/
theorem mono {Q' : α → α' → List Event → List Event → Prop} {x : Run s α} {y : Run s' α'}
    (hx : G.Runs ends Q x y) (h : ∀ a a' es es', Q a a' es es' → Q' a a' es es') :
    G.Runs ends Q' x y :=
  hx.imp id (And.imp id (h _ _ _ _))

theorem pure {a : α} {a' : α'} (hs : G.Stream s s') (h : Q a a' [] []) :
    G.Runs ends Q (Run.pure a : Run s α) (Run.pure a' : Run s' α') :=
  .inr ⟨hs, h⟩

theorem reached {h : s.Reaches q} {h' : s'.Reaches q'} {x : Run q α} {y : Run q' α'}
    (hx : G.Runs ends Q x y) : G.Runs ends Q (Run.reached h x) (Run.reached h' y) :=
  hx

/-- A run that gives up goes on where its stream resumes. -/
theorem recover {F : List Event → List Event → Prop} {es es' : List Event} {a : α} {a' : α'}
    (h : G.Resumed F s s' es es') (hf : F es es' → Q a a' es es') :
    G.Runs ends Q (Run.recover es a : Run s α) (Run.recover es' a' : Run s' α') :=
  h.imp (fun parted => parted ends) (And.imp id hf)

/-- The first run has used up its tokens. -/
theorem lost (L : G.Lawful) (h : G.Lost s) (x : Run s α) (y : Run s' α') :
    G.Runs true Q x y :=
  .inl (L.lost_parts h x.reaches (.inl rfl))

/-- The first run has used up its tokens and reports an error. -/
theorem faulty (L : G.Lawful) (h : G.Lost s) {x : Run s α} {y : Run s' α'}
    (error : Faulty x.events) : G.Runs ends Q x y :=
  .inl (L.lost_parts h x.reaches (.inr error))

theorem after (L : G.Lawful) {es es' : List Event} {x : Run s α} {y : Run s' α'}
    (hx : G.Runs ends (fun a a' fs fs' => Q a a' (es ++ fs) (es' ++ fs')) x y) :
    G.Runs ends Q (Run.after es x) (Run.after es' y) :=
  hx.imp L.parted_right id

/-- One run after another; what the first has given out stands before what the second gives out. -/
theorem followed (L : G.Lawful) {x : Run s α} {y : Run s' α'} {u : Run x.rest β}
    {v : Run y.rest β'} (hx : G.Runs ends Q x y)
    (hu : G.Stream x.rest y.rest → Q x.value y.value x.events y.events →
      G.Runs ends (fun b b' fs fs' => R b b' (x.events ++ fs) (y.events ++ fs')) u v) :
    G.Runs ends R ⟨x.events ++ u.events, u.value, u.rest, x.reaches.trans u.reaches⟩
      ⟨y.events ++ v.events, v.value, v.rest, y.reaches.trans v.reaches⟩ := by
  rcases hx with parted | ⟨stream, holds⟩
  · exact .inl (L.parted_left parted u.reaches v.reaches)
  · exact (hu stream holds).imp L.parted_right id

/-- **One run behind another**: what the first establishes is what the second may start from. -/
theorem bind (L : G.Lawful) {x : Run s α} {y : Run s' α'}
    {f : (r : Tokens) → r.left ≤ s.left → α → Run r β}
    {f' : (r : Tokens) → r.left ≤ s'.left → α' → Run r β'} (hx : G.Runs ends Q x y)
    (hf : ∀ r h r' h' a a' es es', G.Stream r r' → Q a a' es es' →
      G.Runs ends (fun b b' fs fs' => R b b' (es ++ fs) (es' ++ fs')) (f r h a) (f' r' h' a')) :
    G.Runs ends R (x.bind f) (y.bind f') :=
  followed L hx fun stream holds => hf _ _ _ _ _ _ _ _ stream holds

/-- A run that may want for tokens, and behind it something that then reports an error. -/
theorem close (L : G.Lawful) {x : Run s α} {y : Run s' α'}
    {f : (r : Tokens) → r.left ≤ s.left → α → Run r β}
    {f' : (r : Tokens) → r.left ≤ s'.left → α' → Run r β'} (hx : G.Runs true Q x y)
    (closes : G.Lost x.rest → Faulty (x.bind f).events)
    (hf : ∀ r h r' h' a a' es es', G.Stream r r' → Q a a' es es' →
      G.Runs ends (fun b b' fs fs' => R b b' (es ++ fs) (es' ++ fs')) (f r h a) (f' r' h' a')) :
    G.Runs ends R (x.bind f) (y.bind f') := by
  rcases hx with parted | ⟨stream, holds⟩
  · rcases L.shut parted with parted | lost
    · exact .inl (L.parted_left (parted ends) (Run.reaches _) (Run.reaches _))
    · exact .inl (L.lost_parts lost (Run.reaches _) (.inr (closes lost)))
  · exact (hf _ x.left_rest_le _ y.left_rest_le _ _ _ _ stream holds).imp L.parted_right id

theorem weaken (L : G.Lawful) {x : Run s α} {y : Run s' α'} (hx : G.Runs false Q x y) :
    G.Runs ends Q x y :=
  hx.imp L.parted_mono id

theorem bindShorter (L : G.Lawful) {x : Run s α} {y : Run s' α'}
    {shorter : x.rest.left < s.left} {shorter' : y.rest.left < s'.left}
    {f : (r : Tokens) → r.left < s.left → α → Run r β}
    {f' : (r : Tokens) → r.left < s'.left → α' → Run r β'} (hx : G.Runs ends Q x y)
    (hf : ∀ r h r' h' a a' es es', G.Stream r r' → Q a a' es es' →
      G.Runs ends (fun b b' fs fs' => R b b' (es ++ fs) (es' ++ fs')) (f r h a) (f' r' h' a')) :
    G.Runs ends R (x.bindShorter shorter f) (y.bindShorter shorter' f') :=
  followed L hx fun stream holds => hf _ _ _ _ _ _ _ _ stream holds

end Runs

end Guise

/-! ## Looking ahead -/

namespace Guise

variable {G : Guise}

namespace Ahead

variable {s s' : Tokens}

/-- A look at the next token that means nothing to a terminator. -/
theorem lookup {β : Type} (h : G.Ahead s s') (f f' : Token.Kind → Option β)
    (hf : ∀ t t', G.Tok t t' → f' t'.kind = f t.kind) (silent : f' (.symbol ";") = none) :
    G.Lost s ∨
    ((s.uncons?.bind fun x => (f x.1.kind).map (·, x.2)) = none ∧
      (s'.uncons?.bind fun x => (f' x.1.kind).map (·, x.2)) = none) ∨
    ∃ b r r', (s.uncons?.bind fun x => (f x.1.kind).map (·, x.2)) = some (b, r) ∧
      (s'.uncons?.bind fun x => (f' x.1.kind).map (·, x.2)) = some (b, r') ∧
      f s.current.kind = some b ∧ G.Tok s.current s'.current ∧ G.Stream r.stream r'.stream := by
  cases h with
  | @both t t' r r' next next' same rest =>
    refine .inr ?_
    rw [next, next', Option.bind_some, Option.bind_some, hf t t' same,
      Tokens.current_of_uncons? next, Tokens.current_of_uncons? next']
    cases found : f t.kind with
    | none => exact .inl ⟨rfl, rfl⟩
    | some b => exact .inr ⟨b, r, r', rfl, rfl, rfl, same, rest⟩
  | neither done done' => exact .inr (.inl ⟨by rw [done]; rfl, by rw [done']; rfl⟩)
  | lost lost => exact .inl lost
  | terminator done next' kind =>
    refine .inr (.inl ⟨by rw [done]; rfl, ?_⟩)
    rw [next', Option.bind_some, kind, silent]
    rfl

/-- The next tokens correspond, unless one of the streams has come to its end. -/
theorem current (h : G.Ahead s s') :
    G.Tok s.current s'.current ∨ G.Lost s ∨
      (s.current.kind = .eof ∧ s'.current.kind = .symbol ";" ∧ s'.atEnd = false ∧
        ∀ {ends es q q'}, s'.Reaches q' → q'.left < s'.left → G.Parted ends es q q') := by
  cases h with
  | both next next' same rest =>
    rw [Tokens.current_of_uncons? next, Tokens.current_of_uncons? next']
    exact .inl same
  | neither done done' same => exact .inl same
  | lost lost => exact .inr (.inl lost)
  | terminator done next' kind parts =>
    refine .inr (.inr ⟨Tokens.current_kind_of_uncons? done, ?_,
      Tokens.atEnd_eq_false_of_uncons? next', parts⟩)
    rw [Tokens.current_of_uncons? next', kind]

end Ahead

namespace Lawful

variable {s s' : Tokens}

theorem isSymbol_eq (L : G.Lawful) {t t' : Token} (h : G.Tok t t') (text : String) :
    t'.isSymbol text = t.isSymbol text := by
  simp [Token.isSymbol, L.kind h]

theorem isKeyword_eq (L : G.Lawful) {t t' : Token} (h : G.Tok t t') (word : String) :
    t'.isKeyword word = t.isKeyword word := by
  simp [Token.isKeyword, L.kind h]

theorem isEof_eq (L : G.Lawful) {t t' : Token} (h : G.Tok t t') : t'.isEof = t.isEof := by
  simp [Token.isEof, L.kind h]

/-- Both runs read the same operator or none. A missing `;` is no operator, so it makes no
difference here. -/
theorem operator {β : Type} (L : G.Lawful) (h : G.Stream s s') (classify : String → Option β)
    (silent : classify ";" = none) :
    G.Lost s ∨ (s.operator? classify = none ∧ s'.operator? classify = none) ∨
    ∃ op r r', s.operator? classify = some (op, r) ∧ s'.operator? classify = some (op, r') ∧
      G.Pos s.current.pos s'.current.pos ∧ G.Stream r.stream r'.stream := by
  rw [Tokens.operator?_eq, Tokens.operator?_eq]
  rcases (L.ahead h).lookup (Token.Kind.operator? classify) (Token.Kind.operator? classify)
      (fun t t' same => by rw [L.kind same, Token.Kind.operator?_rename]) silent with
    lost | none | ⟨op, r, r', read, read', -, same, rest⟩
  · exact .inl lost
  · exact .inr (.inl none)
  · exact .inr (.inr ⟨op, r, r', read, read', L.pos same, rest⟩)

/-- A test of the next token that a terminator does not pass. -/
theorem skip (L : G.Lawful) (h : G.Stream s s') {p : Token → Bool}
    (hp : ∀ t t', G.Tok t t' → p t' = p t) (silent : ∀ t, t.kind = .symbol ";" → p t = false) :
    G.Lost s ∨ (s.skip? p = none ∧ s'.skip? p = none) ∨
    ∃ r r', s.skip? p = some r ∧ s'.skip? p = some r' ∧ G.Stream r.stream r'.stream := by
  cases L.ahead h with
  | @both t t' r r' next next' same rest =>
    refine .inr ?_
    cases holds : p t with
    | false =>
      exact .inl ⟨by simp [Tokens.skip?, next, holds],
        by simp [Tokens.skip?, next', hp t t' same, holds]⟩
    | true =>
      exact .inr ⟨r, r', by simp [Tokens.skip?, next, holds],
        by simp [Tokens.skip?, next', hp t t' same, holds], rest⟩
  | neither done done' =>
    exact .inr (.inl ⟨by simp [Tokens.skip?, done], by simp [Tokens.skip?, done']⟩)
  | lost lost => exact .inl lost
  | @terminator t' r' done next' kind =>
    exact .inr (.inl ⟨by simp [Tokens.skip?, done], by simp [Tokens.skip?, next', silent t' kind]⟩)

/-- Any symbol but the terminator is read by both or by none. -/
theorem symbol (L : G.Lawful) (h : G.Stream s s') (text : String) (other : text ≠ ";") :
    G.Lost s ∨ (s.symbol? text = none ∧ s'.symbol? text = none) ∨
    ∃ r r', s.symbol? text = some r ∧ s'.symbol? text = some r' ∧ G.Stream r.stream r'.stream :=
  L.skip h (fun _ _ same => L.isSymbol_eq same text)
    (fun t kind => by simp [Token.isSymbol, kind, other.symm])

/-- The same for keywords. -/
theorem keyword (L : G.Lawful) (h : G.Stream s s') (word : String) :
    G.Lost s ∨ (s.keyword? word = none ∧ s'.keyword? word = none) ∨
    ∃ r r', s.keyword? word = some r ∧ s'.keyword? word = some r' ∧ G.Stream r.stream r'.stream :=
  L.skip h (fun _ _ same => L.isKeyword_eq same word)
    (fun t kind => by simp [Token.isKeyword, kind])

end Lawful

end Guise

end OnePass
