import OnePass.Production.Statement
import OnePass.Proofs.Generation

/-!
# Surroundings and contexts

A context knows of the text around a place only what the rules of scope and type ask for. The
surroundings of a production *match* a context if they bind the same names to the same things, and
nothing else but the primitive types.
-/

namespace OnePass

/-! ## Names -/

theorem Name.decide_text (x y : Name) : decide (x.text = y.text) = decide (x = y) :=
  decide_eq_decide.2 Name.text_inj

/-- A name is no keyword. -/
theorem Name.not_mem_keywords (x : Name) : x.text ∉ Token.keywords := by
  intro mem
  have valid := x.valid
  unfold isName at valid
  split at valid
  · cases valid
  · simp only [Bool.and_eq_true, decide_eq_true_eq] at valid
    have word := valid.2
    unfold Token.Kind.ofWord at word
    rw [if_pos mem] at word
    repeat' split at word
    all_goals cases word

/-- The scopes outside all blocks: they bind the primitive types. -/
def Scopes.fresh : Scopes := Scopes.withPrimitives {}

theorem Name.find?_fresh (x : Name) : Scopes.fresh.base.find? (·.name = x.text) = none := by
  rw [List.find?_eq_none]
  intro y hy same
  have keyword : ∀ y ∈ Scopes.fresh.base, y.name ∈ Token.keywords := by decide
  exact x.not_mem_keywords (of_decide_eq_true same ▸ keyword y hy)

theorem TypeWord.find?_fresh (w : TypeWord) :
    Scopes.fresh.base.find? (·.name = w.type.text) = some ⟨w.type.text, .type w.type, none⟩ := by
  cases w <;> decide

/-! ## Matching -/

/-- What a name that stands for an entity means. -/
def Entity.meaning : Entity → Meaning
  | slot type index frame => .localVar type index frame
  | function link signature => .function link signature

/-- The names and meanings of the symbols in each scope. -/
def Scopes.view (s : Scopes) : List (List (String × Meaning)) :=
  s.inner.map fun scope => scope.map fun y => (y.name, y.meaning)

/-- The names and meanings of the declarations in each block. -/
def Context.view (ctx : Context) : List (List (String × Meaning)) :=
  ctx.blocks.map fun block => block.map fun (x, e) => (x.text, e.meaning)

/-- The surroundings know what the context knows. A missing bracket or terminator is an error. -/
structure Env.Matches (env : Env) (ctx : Context) : Prop where
  view : env.scopes.view = ctx.view
  base : env.scopes.base = Scopes.fresh.base
  host : ∀ name, env.scopes.host name = none
  returns : env.returns = ctx.returns
  loop : env.loop.isSome = ctx.inLoop
  structural : env.structural = .error

namespace Env.Matches

variable {env : Env} {ctx : Context}

theorem frame_eq (m : env.Matches ctx) : env.frame = ctx.frame :=
  congrArg List.length m.returns

theorem inner_find? (m : env.Matches ctx) (x : Name) :
    (env.scopes.inner.flatten.find? (·.name = x.text)).map Symbol.meaning =
      (ctx.find? x).map Entity.meaning := by
  have scopes : env.scopes.view.flatten =
      env.scopes.inner.flatten.map fun y => (y.name, y.meaning) := List.map_flatten.symm
  have blocks : ctx.view.flatten =
      ctx.blocks.flatten.map fun (x, e) => (x.text, e.meaning) := List.map_flatten.symm
  have same := congrArg (fun l => (l.flatten.find? (·.1 = x.text)).map Prod.snd) m.view
  simp only [scopes, blocks, List.find?_map, Function.comp_def, Option.map_map, Name.decide_text]
    at same
  rw [Context.find?, Option.map_map]
  exact same

/-- A name means in the surroundings what it stands for in the context. -/
theorem find?_eq (m : env.Matches ctx) (x : Name) :
    (env.scopes.find? x.text).map Symbol.meaning = (ctx.find? x).map Entity.meaning := by
  unfold Scopes.find? Scopes.symbols
  rw [List.find?_append, m.base, x.find?_fresh, Option.or_none]
  exact m.inner_find? x

/-- A declared name is no keyword, so the keywords keep their meaning. -/
theorem find?_keyword (m : env.Matches ctx) {word : String} (keyword : word ∈ Token.keywords) :
    env.scopes.find? word = Scopes.fresh.base.find? (·.name = word) := by
  have inner : env.scopes.inner.flatten.find? (·.name = word) = none := by
    rw [List.find?_eq_none]
    intro y hy same
    have mem : (y.name, y.meaning) ∈ env.scopes.view.flatten := by
      rw [Scopes.view, ← List.map_flatten]
      exact List.mem_map_of_mem hy
    rw [m.view, Context.view, ← List.map_flatten] at mem
    obtain ⟨⟨x, e⟩, -, hx⟩ := List.mem_map.1 mem
    refine x.not_mem_keywords ?_
    rw [show x.text = y.name from congrArg Prod.fst hx,
      show y.name = word from of_decide_eq_true same]
    exact keyword
  rw [Scopes.find?, Scopes.symbols, List.find?_append, inner, m.base, Option.none_or]

theorem typeNamed?_keyword (m : env.Matches ctx) (w : TypeWord) :
    env.typeNamed? w.kind = some w.type := by
  have keyword : w.type.text ∈ Token.keywords := by cases w <;> decide
  simp only [TypeWord.kind, Env.typeNamed?, m.find?_keyword keyword, w.find?_fresh]
  rfl

/-- The other keywords name no types. -/
theorem typeNamed?_statement (m : env.Matches ctx) {word : String}
    (h : word ∈ ["if", "else", "while", "break", "continue", "return"]) :
    env.typeNamed? (.keyword word) = none := by
  have keyword : ∀ w ∈ ["if", "else", "while", "break", "continue", "return"],
      w ∈ Token.keywords ∧ Scopes.fresh.base.find? (·.name = w) = none := by
    decide
  simp only [Env.typeNamed?, m.find?_keyword (keyword word h).1, (keyword word h).2]
  rfl

/-- A name is never the name of a type. -/
theorem typeNamed?_ident (m : env.Matches ctx) (x : Name) :
    env.typeNamed? (.ident x.text) = none := by
  have meaning := m.find?_eq x
  cases found : env.scopes.find? x.text with
  | none => simp only [Env.typeNamed?, found, m.host]
  | some y =>
    rw [found] at meaning
    obtain ⟨e, -, he⟩ := Option.map_eq_some_iff.1 meaning.symm
    simp only [Env.typeNamed?, found, Symbol.type?, ← he]
    cases e <;> rfl

/-! ## Going inwards -/

theorem enter (m : env.Matches ctx) :
    Matches { env with scopes := env.scopes.enter } ctx.enter where
  view := congrArg ([] :: ·) m.view
  base := m.base
  host := m.host
  returns := m.returns
  loop := m.loop
  structural := m.structural

theorem enterLoop (m : env.Matches ctx) (targets : LoopTargets) :
    Matches { env with loop := some targets } ctx.enterLoop where
  view := m.view
  base := m.base
  host := m.host
  returns := m.returns
  loop := rfl
  structural := m.structural

/-- Inside a block a declaration goes to the block. -/
theorem declare (m : env.Matches ctx) (inBlock : ctx.blocks ≠ []) (x : Name) (e : Entity)
    (pos : Option Position) :
    Matches { env with scopes := env.scopes.declare ⟨x.text, e.meaning, pos⟩ }
      (ctx.declare x e) := by
  have view := m.view
  obtain ⟨⟨inner, base, host⟩, loop, returns, structural⟩ := env
  obtain ⟨blocks, returns', inLoop⟩ := ctx
  cases blocks with
  | nil => exact absurd rfl inBlock
  | cons block blocks =>
    cases inner with
    | nil => simp [Scopes.view, Context.view] at view
    | cons scope scopes =>
      refine ⟨?_, m.base, m.host, m.returns, m.loop, m.structural⟩
      simp only [Scopes.view, Context.view, List.map_cons, List.cons.injEq] at view
      simp [Scopes.view, Context.view, Scopes.declare, Context.declare, view.1, view.2]

theorem bindsInnermost_eq (m : env.Matches ctx) (inBlock : ctx.blocks ≠ []) (x : Name) :
    env.scopes.bindsInnermost x.text = ctx.declares x := by
  have view := m.view
  obtain ⟨⟨inner, base, host⟩, loop, returns, structural⟩ := env
  obtain ⟨blocks, returns', inLoop⟩ := ctx
  cases blocks with
  | nil => exact absurd rfl inBlock
  | cons block blocks =>
    cases inner with
    | nil => simp [Scopes.view, Context.view] at view
    | cons scope scopes =>
      simp only [Scopes.view, Context.view, List.map_cons, List.cons.injEq] at view
      have same := congrArg (List.any · (·.1 = x.text)) view.1
      simpa [Scopes.bindsInnermost, Scopes.innermost, Context.declares, Function.comp_def,
        Name.decide_text] using same

theorem enterFunction (m : env.Matches ctx) (signature : Signature) (x : Name) (pos : Position) :
    Matches
      { env with
        scopes := env.scopes.enter.declare
          ⟨x.text, .localVar signature.param 0 (env.frame + 1), some pos⟩
        loop := none
        returns := signature.ret :: env.returns }
      (ctx.enterFunction signature x) where
  view := by
    have frame := m.frame_eq
    have view := m.view
    simp only [Scopes.view, Context.view] at view
    simp [Scopes.view, Context.view, Scopes.declare, Scopes.enter, Context.enterFunction, view,
      Entity.meaning, frame]
  base := m.base
  host := m.host
  returns := congrArg (signature.ret :: ·) m.returns
  loop := rfl
  structural := m.structural

end Env.Matches

end OnePass
