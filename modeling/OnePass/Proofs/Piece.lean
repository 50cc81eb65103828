import OnePass.Production.Event

/-!
# Pieces of a draft

What a well-nested list of events adds to a draft: locals and code of the function that is open, and
the functions that were opened and closed in between. `Builds es p` says that `es` adds the piece
`p` to every draft. How often labels are marked is left out here; that depends on the labels
reserved before.
-/

namespace OnePass

/-- An addition to a draft. -/
@[ext]
structure Piece where
  locals : List (String × ValueType) := []
  code : List Instruction := []
  functions : List Body := []

namespace Piece

def append (p q : Piece) : Piece :=
  ⟨p.locals ++ q.locals, p.code ++ q.code, p.functions ++ q.functions⟩

instance : Append Piece := ⟨append⟩

variable (p q : Piece)

@[simp] theorem locals_append : (p ++ q).locals = p.locals ++ q.locals := rfl

@[simp] theorem code_append : (p ++ q).code = p.code ++ q.code := rfl

@[simp] theorem functions_append : (p ++ q).functions = p.functions ++ q.functions := rfl

@[simp] theorem empty_append : ({} : Piece) ++ p = p := rfl

@[simp] theorem append_empty : p ++ ({} : Piece) = p := by
  obtain ⟨locals, code, functions⟩ := p
  change append _ _ = _
  simp [append]

@[simp] theorem code_append_code (is js : List Instruction) :
    ({ code := is } : Piece) ++ ({ code := js } : Piece) = { code := is ++ js } := rfl

/-- The function that consists of a piece; its inner functions are not part of it. -/
def body (link : String) (signature : Option Signature) : Body :=
  { name := link, signature, locals := p.locals.toArray, code := p.code.toArray }

end Piece

def Body.extend (b : Body) (p : Piece) : Body :=
  { b with locals := b.locals ++ p.locals.toArray, code := b.code ++ p.code.toArray }

def Draft.extend (d : Draft) (p : Piece) : Draft :=
  { d.modifyCurrent (·.extend p) with closed := p.functions.reverse ++ d.closed }

theorem Body.extend_append (b : Body) (p q : Piece) :
    b.extend (p ++ q) = (b.extend p).extend q := by
  simp [Body.extend, Array.append_assoc]

namespace Draft

theorem extend_append (d : Draft) (p q : Piece) : d.extend (p ++ q) = (d.extend p).extend q := by
  obtain ⟨opened, entry, closed, marks⟩ := d
  cases opened with
  | nil => simp [extend, modifyCurrent, Body.extend_append, List.append_assoc]
  | cons b outer => simp [extend, modifyCurrent, Body.extend_append, List.append_assoc]

theorem extend_marks (d : Draft) (p : Piece) (m : Array Nat) :
    extend { d with marks := m } p = { d.extend p with marks := m } := by
  obtain ⟨opened, entry, closed, marks⟩ := d
  cases opened with
  | nil => rfl
  | cons b outer => rfl

def marksAfter (marks : Array Nat) : Instruction → Array Nat
  | .mark label => marks.modify label (· + 1)
  | _ => marks

/-- An instruction goes to the open function, and only a mark is counted. -/
theorem emit_eq (d : Draft) (i : Instruction) :
    d.emit i = { d.extend { code := [i] } with marks := marksAfter d.marks i } := by
  have push (b : Body) : { b with code := b.code.push i } = b.extend { code := [i] } := by
    simp [Body.extend]
  obtain ⟨opened, entry, closed, marks⟩ := d
  cases opened with
  | nil => cases i <;> simp [emit, extend, modifyCurrent, push, countMark, marksAfter]
  | cons b outer => cases i <;> simp [emit, extend, modifyCurrent, push, countMark, marksAfter]

theorem reserveLocal_eq (d : Draft) (name : String) (type : ValueType) :
    d.reserveLocal name type = { d.extend { locals := [(name, type)] } with marks := d.marks } := by
  have push (b : Body) : { b with locals := b.locals.push (name, type) } =
      b.extend { locals := [(name, type)] } := by
    simp [Body.extend]
  obtain ⟨opened, entry, closed, marks⟩ := d
  cases opened with
  | nil => simp [reserveLocal, extend, modifyCurrent, push]
  | cons b outer => simp [reserveLocal, extend, modifyCurrent, push]

theorem extend_empty (d : Draft) : d.extend {} = d := by
  obtain ⟨opened, entry, closed, marks⟩ := d
  cases opened with
  | nil => simp [extend, modifyCurrent, Body.extend]
  | cons b outer => simp [extend, modifyCurrent, Body.extend]

end Draft

/-- Events that add a piece to every draft. -/
def Builds (es : List Event) (p : Piece) : Prop :=
  ∀ d : Draft, ∃ marks, d.replay es = { d.extend p with marks := marks }

namespace Builds

variable {es fs : List Event} {p q : Piece}

theorem nil : Builds [] {} := by
  intro d
  exact ⟨d.marks, by rw [Draft.extend_empty, Draft.replay_nil]⟩

theorem append (he : Builds es p) (hf : Builds fs q) : Builds (es ++ fs) (p ++ q) := by
  intro d
  obtain ⟨m, hm⟩ := he d
  obtain ⟨k, hk⟩ := hf { d.extend p with marks := m }
  refine ⟨k, ?_⟩
  rw [Draft.replay_append, hm, hk, Draft.extend_marks, Draft.extend_append]

/-- An event that is no step of the draft adds nothing. -/
theorem silent {e : Event} (h : e.command? = none) : Builds [e] {} := by
  intro d
  refine ⟨d.marks, ?_⟩
  rw [Draft.extend_empty]
  cases e with
  | scope change => rfl
  | report severity pos problem => rfl
  | code command => cases h

/-- Events that are no steps of the draft may stand before everything. -/
theorem skip {e : Event} (h : e.command? = none) (he : Builds es p) : Builds (e :: es) p := by
  have := (silent h).append he
  rwa [Piece.empty_append] at this

/-- Events that are no steps of the draft may stand behind everything. -/
theorem skipLast {e : Event} (h : e.command? = none) (he : Builds es p) : Builds (es ++ [e]) p := by
  have := he.append (silent h)
  rwa [Piece.append_empty] at this

theorem reserveLabel : Builds [.code .reserveLabel] {} := by
  intro d
  exact ⟨d.marks.push 0, by rw [Draft.extend_empty]; rfl⟩

theorem reserveLocal (name : String) (type : ValueType) :
    Builds [.code (.reserveLocal name type)] { locals := [(name, type)] } := by
  intro d
  exact ⟨d.marks, d.reserveLocal_eq name type⟩

theorem emit (i : Instruction) : Builds [.emit i] { code := [i] } := by
  intro d
  exact ⟨Draft.marksAfter d.marks i, d.emit_eq i⟩

theorem emits (is : List Instruction) : Builds (Event.emits is) { code := is } := by
  induction is with
  | nil => exact .nil
  | cons i is ih => exact .append (.emit i) ih

/-- A function that is opened and closed again adds its body, after the functions inside it. -/
theorem function (link : String) (signature : Signature) (he : Builds es p) :
    Builds (.code (.openFunction link signature) :: es ++ [.code .closeFunction])
      { functions := p.functions ++ [p.body link (some signature)] } := by
  intro d
  obtain ⟨m, hm⟩ := he (d.openFunction link signature)
  refine ⟨m, ?_⟩
  rw [Draft.replay_append]
  change ((d.openFunction link signature).replay es).closeFunction = _
  rw [hm]
  obtain ⟨opened, entry, closed, marks⟩ := d
  cases opened with
  | nil =>
    simp [Draft.closeFunction, Draft.extend, Draft.modifyCurrent, Draft.openFunction, Body.extend,
      Piece.body]
  | cons b outer =>
    simp [Draft.closeFunction, Draft.extend, Draft.modifyCurrent, Draft.openFunction, Body.extend,
      Piece.body]

/-- The events of a whole definition: its parameter is the first local. -/
theorem definition (f symbol : Symbol) (link : String) (signature : Signature) (name : String)
    (type : ValueType) (he : Builds es p) :
    Builds
      ([.scope (.declare f), .code (.openFunction link signature), .scope .enter,
          .code (.reserveLocal name type), .scope (.declare symbol)] ++
        es ++ [.scope .leave, .code .closeFunction])
      { functions := p.functions ++
          [{ p with locals := (name, type) :: p.locals }.body link (some signature)] } := by
  have param : Builds [.scope .enter, .code (.reserveLocal name type), .scope (.declare symbol)]
      { locals := [(name, type)] } :=
    .skip rfl (.append (.reserveLocal name type) (.silent rfl))
  have inner : Builds ([.scope .enter, .code (.reserveLocal name type), .scope (.declare symbol)] ++
      es ++ [.scope .leave]) { p with locals := (name, type) :: p.locals } :=
    .skipLast rfl (param.append he)
  have whole := (function link signature inner).skip (e := .scope (.declare f)) rfl
  simpa using whole

/-- The bodies of a draft that was begun anew: the entry, and the functions. -/
theorem bodies_replay (he : Builds es p) :
    (Draft.replay {} es).bodies = p.body entryName none :: p.functions := by
  obtain ⟨m, hm⟩ := he {}
  rw [hm]
  simp [Draft.bodies, Draft.extend, Draft.modifyCurrent, Body.extend, Piece.body]

end Builds

end OnePass
