import Mathlib.Data.List.Forall2
import OnePass.Proofs.Correspondence.Statement
import OnePass.Proofs.Definitions

/-!
# Two passes side by side

Two passes that read the same program in two guises do the same things in the same order. The guises
may differ in the spelling of names and in the positions of tokens, and the second pass may begin
where another program has been read before: then its labels, the slots of its entry and the numbers
of its functions are counted on from there. A *transfer* says all this, and everything the first
pass meets or does is carried over by it to what the second one does.

The second pass may also have more tokens behind those of the first. Then it follows the first one
until that one is lost: it has reported an error, or it has used up its tokens where a decision
depends on the next one. A construct that ends with a terminator never gets lost in the second way.
-/

namespace OnePass

/-! ## Links -/

/-- The name of the function that a link belongs to. -/
def sourceName (link : String) : String := String.ofList (link.toList.takeWhile (· ≠ '#'))

theorem sourceName_numberedLink (f : Name) (n : Nat) :
    sourceName (numberedLink f.text n) = f.text := by
  have link : Inventory.link ⟨[], .replicate n f⟩ f = numberedLink f.text n := by
    simp [Inventory.link_eq_numberedLink]
  rw [sourceName, ← link, Inventory.takeWhile_link, String.ofList_toList]

/-! ## Transfers -/

/-- How a first pass is carried over to a second. -/
structure Transfer where
  /-- The name that stands for a name. -/
  name : String → String
  injective : Function.Injective name
  /-- The positions that correspond. -/
  pos : Position → Position → Prop
  /-- How many labels the second pass has reserved before. -/
  labels : Nat := 0
  /-- How many locals the entry of the second pass has before. -/
  locals : Nat := 0
  /-- The names of the functions that the second pass has defined before. -/
  defined : List String := []
  /-- The tokens of the second pass behind those of the first. -/
  more : List Token := []
  noElse : ∀ t ∈ more.head?, t.kind ≠ .keyword "else"

namespace Transfer

theorem noElse_nil : ∀ t ∈ ([] : List Token).head?, t.kind ≠ .keyword "else" := nofun

/-- By how much the slots of a frame are raised. -/
def shift (ρ : Transfer) (frame : Nat) : Nat := if frame = 0 then ρ.locals else 0

/-- A function is called by its new name, and its number goes on from those defined before. -/
def Links (ρ : Transfer) (link link' : String) : Prop :=
  ∃ (f : Name) (n : Nat), link = numberedLink f.text n ∧
    link' = numberedLink (ρ.name f.text) (n + ρ.defined.count (ρ.name f.text))

/-- Nothing comes before the second pass. -/
structure Fresh (ρ : Transfer) : Prop where
  labels : ρ.labels = 0
  locals : ρ.locals = 0
  defined : ρ.defined = []

end Transfer

/-! ## Code -/

/-- An instruction, in a function whose slots are raised by `shift`. -/
def Instruction.Carried (ρ : Transfer) (shift : Nat) : Instruction → Instruction → Prop
  | .mark label, i => i = .mark (label + ρ.labels)
  | .jump label, i => i = .jump (label + ρ.labels)
  | .jumpUnless label, i => i = .jumpUnless (label + ρ.labels)
  | .load slot, i => i = .load (slot + shift)
  | .store slot, i => i = .store (slot + shift)
  | .call link, i => ∃ link', ρ.Links link link' ∧ i = .call link'
  | j, i => i = j

/-- A definition: its slots stay as they are. -/
structure Body.Carried (ρ : Transfer) (b b' : Body) : Prop where
  name : ρ.Links b.name b'.name
  signature : b'.signature = b.signature
  locals : b'.locals.toList = b.locals.toList.map (Prod.map ρ.name id)
  code : List.Forall₂ (Instruction.Carried ρ 0) b.code.toList b'.code.toList

/-- An addition to a function whose slots are raised by `shift`. -/
structure Piece.Carried (ρ : Transfer) (shift : Nat) (p p' : Piece) : Prop where
  locals : p'.locals = p.locals.map (Prod.map ρ.name id)
  code : List.Forall₂ (Instruction.Carried ρ shift) p.code p'.code
  functions : List.Forall₂ (Body.Carried ρ) p.functions p'.functions

namespace Piece.Carried

variable {ρ : Transfer} {shift : Nat} {p p' q q' : Piece}

theorem empty : Piece.Carried ρ shift {} {} := ⟨rfl, .nil, .nil⟩

theorem append (hp : p.Carried ρ shift p') (hq : q.Carried ρ shift q') :
    (p ++ q).Carried ρ shift (p' ++ q') where
  locals := by simp [hp.locals, hq.locals]
  code := List.rel_append hp.code hq.code
  functions := List.rel_append hp.functions hq.functions

/-- A definition is carried over with its parameter and the definitions inside it. -/
theorem definition {link link' : String} (hl : ρ.Links link link') (signature : Signature)
    (name : String) (type : ValueType) (h : p.Carried ρ 0 p') :
    Piece.Carried ρ shift
      { functions := p.functions ++
          [{ p with locals := (name, type) :: p.locals }.body link (some signature)] }
      { functions := p'.functions ++
          [{ p' with locals := (ρ.name name, type) :: p'.locals }.body link'
            (some signature)] } where
  locals := rfl
  code := .nil
  functions := by
    refine List.rel_append h.functions (.cons ⟨hl, rfl, ?_, ?_⟩ .nil)
    · simp [Piece.body, h.locals]
    · simpa [Piece.body] using h.code

end Piece.Carried

/-! ## Events -/

/-- A remark at the corresponding position, about the problem with its names renamed. -/
structure Diagnostic.Carried (ρ : Transfer) (d d' : Diagnostic) : Prop where
  severity : d'.severity = d.severity
  pos : ρ.pos d.pos d'.pos
  message : ∃ problem : Problem, d.message = problem.message ∧
    d'.message = (problem.rename ρ.name).message

/-- What some events report, and what they add to a function in the given frame. -/
structure Transfer.Carries (ρ : Transfer) (frame : Nat) (es es' : List Event) : Prop where
  reports : List.Forall₂ (Diagnostic.Carried ρ) (diagnostics es) (diagnostics es')
  builds : ∃ p p', Builds es p ∧ Builds es' p' ∧ p.Carried ρ (ρ.shift frame) p'

namespace Transfer.Carries

variable {ρ : Transfer} {frame : Nat} {es es' fs fs' : List Event}

theorem nil : ρ.Carries frame [] [] := ⟨.nil, {}, {}, .nil, .nil, .empty⟩

theorem append (he : ρ.Carries frame es es') (hf : ρ.Carries frame fs fs') :
    ρ.Carries frame (es ++ fs) (es' ++ fs') := by
  obtain ⟨p, p', hp, hp', carried⟩ := he.builds
  obtain ⟨q, q', hq, hq', carried'⟩ := hf.builds
  refine ⟨?_, p ++ q, p' ++ q', hp.append hq, hp'.append hq', carried.append carried'⟩
  simpa only [diagnostics_append] using List.rel_append he.reports hf.reports

theorem report (severity : Severity) {pos pos' : Position} (h : ρ.pos pos pos')
    (problem : Problem) :
    ρ.Carries frame [.report severity pos problem]
      [.report severity pos' (problem.rename ρ.name)] :=
  ⟨.cons ⟨rfl, h, problem, rfl, rfl⟩ .nil, {}, {}, .silent rfl, .silent rfl, .empty⟩

theorem scope (change change' : Scopes.Change) (h : ρ.Carries frame es es') :
    ρ.Carries frame (.scope change :: es) (.scope change' :: es') := by
  obtain ⟨p, p', hp, hp', carried⟩ := h.builds
  exact ⟨h.reports, p, p', .skip rfl hp, .skip rfl hp', carried⟩

theorem reserveLabel (h : ρ.Carries frame es es') :
    ρ.Carries frame (.code .reserveLabel :: es) (.code .reserveLabel :: es') := by
  obtain ⟨p, p', hp, hp', carried⟩ := h.builds
  exact ⟨h.reports, _, _, .append .reserveLabel hp, .append .reserveLabel hp',
    .append .empty carried⟩

theorem reserveLocal (name : String) (type : ValueType) (h : ρ.Carries frame es es') :
    ρ.Carries frame (.code (.reserveLocal name type) :: es)
      (.code (.reserveLocal (ρ.name name) type) :: es') := by
  obtain ⟨p, p', hp, hp', carried⟩ := h.builds
  exact ⟨h.reports, _, _, .append (.reserveLocal name type) hp,
    .append (.reserveLocal (ρ.name name) type) hp', .append ⟨rfl, .nil, .nil⟩ carried⟩

theorem emit {i i' : Instruction} (hi : i.Carried ρ (ρ.shift frame) i')
    (h : ρ.Carries frame es es') : ρ.Carries frame (.emit i :: es) (.emit i' :: es') := by
  obtain ⟨p, p', hp, hp', carried⟩ := h.builds
  exact ⟨h.reports, _, _, .append (.emit i) hp, .append (.emit i') hp',
    .append ⟨rfl, .cons hi .nil, .nil⟩ carried⟩

/-- The events of a definition; what it adds to itself is not added to the function around it. -/
theorem definition {link link' : String} (hl : ρ.Links link link') (signature : Signature)
    (name : String) (type : ValueType) {f f' symbol symbol' : Symbol}
    (h : ρ.Carries (frame + 1) es es') :
    ρ.Carries frame
      ([.scope (.declare f), .code (.openFunction link signature), .scope .enter,
          .code (.reserveLocal name type), .scope (.declare symbol)] ++
        es ++ [.scope .leave, .code .closeFunction])
      ([.scope (.declare f'), .code (.openFunction link' signature), .scope .enter,
          .code (.reserveLocal (ρ.name name) type), .scope (.declare symbol')] ++
        es' ++ [.scope .leave, .code .closeFunction]) := by
  obtain ⟨p, p', hp, hp', carried⟩ := h.builds
  refine ⟨?_, _, _, .definition f symbol link signature name type hp,
    .definition f' symbol' link' signature (ρ.name name) type hp',
    .definition hl signature name type carried⟩
  rw [diagnostics_append, diagnostics_append, diagnostics_append, diagnostics_append]
  exact List.rel_append h.reports .nil

end Transfer.Carries

/-! ## Streams -/

/-- The same token at the corresponding position, with an identifier renamed. -/
structure Token.Carried (ρ : Transfer) (t t' : Token) : Prop where
  kind : t'.kind = t.kind.rename ρ.name
  pos : ρ.pos t.pos t'.pos
  named : ∀ name, t.kind = .ident name → isName name = true
  fixed : ∀ word, t.kind = .keyword word → ρ.name word = word

/-- The same tokens, and more behind them. -/
structure Tokens.Carried (ρ : Transfer) (s s' : Tokens) : Prop where
  front : ∃ ts, s'.front = ts ++ ρ.more ∧ List.Forall₂ (Token.Carried ρ) s.front ts
  final : ρ.more = [] → ρ.pos s.final s'.final

/-- The first stream is used up where the second one goes on. -/
def Tokens.Lost (ρ : Transfer) (s : Tokens) : Prop := ρ.more ≠ [] ∧ s.front = []

theorem Token.Carried.isSymbol {ρ : Transfer} {t t' : Token} (h : t.Carried ρ t') (text : String) :
    t'.isSymbol text = t.isSymbol text := by
  simp [Token.isSymbol, h.kind]

theorem Token.Carried.isEof {ρ : Transfer} {t t' : Token} (h : t.Carried ρ t') :
    t'.isEof = t.isEof := by
  simp [Token.isEof, h.kind]

namespace Tokens.Carried

variable {ρ : Transfer} {s s' : Tokens}

theorem current (h : s.Carried ρ s') (found : ¬ s.Lost ρ) : s.current.Carried ρ s'.current := by
  obtain ⟨front, final⟩ := s
  obtain ⟨front', final'⟩ := s'
  obtain ⟨⟨ts, rfl, carried⟩, ends⟩ := h
  cases carried with
  | nil =>
    have none : ρ.more = [] := by
      by_contra more
      exact found ⟨more, rfl⟩
    rw [none]
    exact ⟨rfl, ends none, nofun, nofun⟩
  | cons first _ => exact first

/-- Both streams go on, with corresponding tokens, or neither does. -/
theorem uncons (h : s.Carried ρ s') (found : ¬ s.Lost ρ) :
    s.uncons? = none ∧ s'.uncons? = none ∨
      ∃ t r t' r', s.uncons? = some (t, r) ∧ s'.uncons? = some (t', r') ∧ t.Carried ρ t' ∧
        r.stream.Carried ρ r'.stream := by
  have current := h.current found
  obtain ⟨front, final⟩ := s
  obtain ⟨front', final'⟩ := s'
  obtain ⟨⟨ts, rfl, carried⟩, ends⟩ := h
  cases carried with
  | nil =>
    have none : ρ.more = [] := by
      by_contra more
      exact found ⟨more, rfl⟩
    rw [none]
    exact .inl ⟨rfl, rfl⟩
  | @cons t t' _ _ first rest =>
    cases eof : t.isEof with
    | true =>
      have eof' : t'.isEof = true := first.isEof.trans eof
      exact .inl ⟨by simp [uncons?, eof], by simp [uncons?, eof']⟩
    | false =>
      have eof' : t'.isEof = false := first.isEof.trans eof
      refine .inr ⟨t, _, t', _, by simp [uncons?, eof]; rfl, by simp [uncons?, eof']; rfl, first,
        ?_⟩
      exact ⟨⟨_, rfl, rest⟩, ends⟩

/-- Behind the next `;` the streams correspond again. -/
theorem resume (h : s.Carried ρ s') (none : ρ.more = []) : s.resume.Carried ρ s'.resume := by
  have skipped {us ts : List Token} (carried : List.Forall₂ (Token.Carried ρ) us ts) :
      List.Forall₂ (Token.Carried ρ) (skipStatement us) (skipStatement ts) := by
    induction carried with
    | nil => exact .nil
    | cons first rest ih =>
      rw [skipStatement, skipStatement, first.isEof, first.isSymbol]
      split
      · exact .cons first rest
      · split
        · exact rest
        · exact ih
  obtain ⟨ts, front, carried⟩ := h.front
  rw [none, List.append_nil] at front
  refine ⟨⟨skipStatement ts, ?_, skipped carried⟩, h.final⟩
  rw [none, List.append_nil, ← front]
  rfl

end Tokens.Carried

/-! ## Surroundings -/

/-- What a name stands for in the two passes. -/
inductive Meaning.Carried (ρ : Transfer) : Meaning → Meaning → Prop
  | type (type : ValueType) : Carried ρ (.type type) (.type type)
  | localVar (type : ValueType) (slot frame : Nat) :
    Carried ρ (.localVar type slot frame) (.localVar type (slot + ρ.shift frame) frame)
  | function {link link' : String} (links : ρ.Links link link') (signature : Signature) :
    Carried ρ (.function link signature) (.function link' signature)

structure Symbol.Carried (ρ : Transfer) (y y' : Symbol) : Prop where
  name : y'.name = ρ.name y.name
  meaning : y.meaning.Carried ρ y'.meaning
  declared : Option.Rel ρ.pos y.declared y'.declared

structure Scopes.Carried (ρ : Transfer) (s s' : Scopes) : Prop where
  inner : List.Forall₂ (List.Forall₂ (Symbol.Carried ρ)) s.inner s'.inner
  base : List.Forall₂ (Symbol.Carried ρ) s.base s'.base
  host : ∀ name, s'.host (ρ.name name) = s.host name

/-- The surroundings of two productions. Where a pass may get lost, every failure is an error. -/
structure Env.Carried (ρ : Transfer) (env env' : Env) : Prop where
  scopes : env.scopes.Carried ρ env'.scopes
  loop : env'.loop = env.loop.map fun t => ⟨t.next + ρ.labels, t.exit + ρ.labels⟩
  returns : env'.returns = env.returns
  structural : env'.structural = env.structural
  strict : ρ.more ≠ [] → env.structural = .error

/-- How far two passes have counted. -/
structure Counters.Carried (ρ : Transfer) (frame : Nat) (c c' : Counters) : Prop where
  labels : c'.labels = c.labels + ρ.labels
  locals : c'.locals = c.locals + ρ.shift frame
  defined : ∀ name, c'.defined.count (ρ.name name) =
    c.defined.count name + ρ.defined.count (ρ.name name)

theorem Symbol.Carried.type? {ρ : Transfer} {y y' : Symbol} (h : y.Carried ρ y') :
    y'.type? = y.type? := by
  have meaning := h.meaning
  unfold Symbol.type?
  generalize y.meaning = m at meaning ⊢
  generalize y'.meaning = m' at meaning ⊢
  cases meaning <;> rfl

/-- In corresponding lists the same place is found. -/
theorem rel_find? {α β : Type} {R : α → β → Prop} {p : α → Bool} {q : β → Bool}
    (hpq : ∀ a b, R a b → q b = p a) {as : List α} {bs : List β} (h : List.Forall₂ R as bs) :
    Option.Rel R (as.find? p) (bs.find? q) := by
  induction h with
  | nil => exact .none
  | @cons a b _ _ first _ ih =>
    rw [List.find?_cons, List.find?_cons, hpq a b first]
    cases p a with
    | true => exact .some first
    | false => exact ih

namespace Scopes.Carried

variable {ρ : Transfer} {s s' : Scopes} {y y' : Symbol}

theorem symbol_name (h : y.Carried ρ y') (name : String) :
    decide (y'.name = ρ.name name) = decide (y.name = name) := by
  simp [h.name, ρ.injective.eq_iff]

theorem find? (h : s.Carried ρ s') (name : String) :
    Option.Rel (Symbol.Carried ρ) (s.find? name) (s'.find? (ρ.name name)) := by
  refine rel_find? ?_ (List.rel_append (List.rel_flatten h.inner) h.base)
  intro y y' same
  exact symbol_name same name

theorem bindsInnermost (h : s.Carried ρ s') (name : String) :
    s'.bindsInnermost (ρ.name name) = s.bindsInnermost name := by
  have any {ys ys' : List Symbol} (h : List.Forall₂ (Symbol.Carried ρ) ys ys') :
      ys'.any (·.name = ρ.name name) = ys.any (·.name = name) := by
    induction h with
    | nil => rfl
    | cons first _ ih => rw [List.any_cons, List.any_cons, ih, symbol_name first]
  obtain ⟨inner, base, host⟩ := s
  obtain ⟨inner', base', host'⟩ := s'
  obtain ⟨inners, bases, -⟩ := h
  cases inners with
  | nil => exact any bases
  | cons first _ => exact any first

theorem enter (h : s.Carried ρ s') : s.enter.Carried ρ s'.enter :=
  ⟨.cons .nil h.inner, h.base, h.host⟩

theorem declare (h : s.Carried ρ s') (hy : y.Carried ρ y') :
    (s.declare y).Carried ρ (s'.declare y') := by
  obtain ⟨inner, base, host⟩ := s
  obtain ⟨inner', base', host'⟩ := s'
  obtain ⟨inners, bases, hosts⟩ := h
  cases inners with
  | nil => exact ⟨.nil, .cons hy bases, hosts⟩
  | cons first rest => exact ⟨.cons (.cons hy first) rest, bases, hosts⟩

end Scopes.Carried

namespace Counters.Carried

variable {ρ : Transfer} {frame : Nat} {c c' : Counters}

theorem withLabel (h : c.Carried ρ frame c') : c.withLabel.Carried ρ frame c'.withLabel where
  labels := by simp only [Counters.withLabel, h.labels]; omega
  locals := h.locals
  defined := h.defined

theorem withLocal (h : c.Carried ρ frame c') : c.withLocal.Carried ρ frame c'.withLocal where
  labels := h.labels
  locals := by simp only [Counters.withLocal, h.locals]; omega
  defined := h.defined

/-- A function counts its own locals, from zero. -/
theorem inFunction (h : c.Carried ρ frame c') (name : String) :
    (c.inFunction name).Carried ρ (frame + 1) (c'.inFunction (ρ.name name)) where
  labels := h.labels
  locals := rfl
  defined other := by
    simp only [Counters.inFunction, List.count_cons, h.defined, beq_iff_eq, ρ.injective.eq_iff]
    omega

theorem links (h : c.Carried ρ frame c') (f : Name) :
    ρ.Links (c.linkName f.text) (c'.linkName (ρ.name f.text)) := by
  refine ⟨f, c.defined.count f.text, rfl, ?_⟩
  rw [Counters.linkName_eq_numberedLink, h.defined]

end Counters.Carried

namespace Env.Carried

variable {ρ : Transfer} {env env' : Env}

theorem frame (h : env.Carried ρ env') : env'.frame = env.frame := by
  rw [Env.frame, Env.frame, h.returns]

theorem withScopes (h : env.Carried ρ env') {s s' : Scopes} (hs : s.Carried ρ s') :
    Env.Carried ρ { env with scopes := s } { env' with scopes := s' } :=
  ⟨hs, h.loop, h.returns, h.structural, h.strict⟩

theorem inLoop (h : env.Carried ρ env') {frame : Nat} {c c' : Counters}
    (hc : c.Carried ρ frame c') : (env.inLoop c).Carried ρ (env'.inLoop c') where
  scopes := h.scopes
  loop := by simp [Env.inLoop, hc.labels]; omega
  returns := h.returns
  structural := h.structural
  strict := h.strict

theorem localSymbol (h : env.Carried ρ env') {c c' : Counters}
    (hc : c.Carried ρ env.frame c') (name : String) (type : ValueType) {pos pos' : Position}
    (hp : ρ.pos pos pos') :
    (env.localSymbol c name type pos).Carried ρ (env'.localSymbol c' (ρ.name name) type pos') where
  name := rfl
  meaning := by
    simp only [Env.localSymbol, hc.locals, h.frame]
    exact .localVar type c.locals env.frame
  declared := .some hp

/-- The same type is named in both passes. -/
theorem typeNamed? (h : env.Carried ρ env') {t t' : Token} (ht : t.Carried ρ t') :
    env'.typeNamed? t'.kind = env.typeNamed? t.kind := by
  rw [ht.kind]
  cases kind : t.kind with
  | keyword word =>
    have found := h.scopes.find? word
    rw [ht.fixed word kind] at found
    simp only [Token.Kind.rename, Env.typeNamed?]
    generalize env.scopes.find? word = o at found ⊢
    generalize env'.scopes.find? word = o' at found ⊢
    cases found with
    | none => rfl
    | some same => exact same.type?
  | ident name =>
    have found := h.scopes.find? name
    simp only [Token.Kind.rename, Env.typeNamed?]
    generalize env.scopes.find? name = o at found ⊢
    generalize env'.scopes.find? (ρ.name name) = o' at found ⊢
    cases found with
    | none => exact h.scopes.host name
    | some same => exact same.type?
  | _ => rfl

end Env.Carried

end OnePass
