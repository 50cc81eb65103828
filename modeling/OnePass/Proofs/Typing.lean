import OnePass.Proofs.Links
import OnePass.Proofs.Recognition.Source
import OnePass.Proofs.Verifier

/-!
# Typing

The resolved form of a program is well typed: where a name stands for a slot or a function, the
locals of the function around it and the functions of the program are as the declaration says. Slots
are given out in the order of the declarations and links only once, so what was known at a
declaration stays true to the end of the program.

So every source text that is accepted gives code that the verifier accepts.
-/

namespace OnePass

/-! ## The rules of types -/

theorem Additive.type?_of_result? {op : Additive} {lhs rhs type : ValueType} {b : Binary}
    (h : op.result? lhs rhs = some (type, b)) : b.type? lhs rhs = some type := by
  unfold Additive.result? at h
  split at h
  · rename_i isOr
    split at h
    · cases h
      simp [Binary.type?, Additive.type?, *]
    · cases h
  split at h
  · rename_i notOr string
    cases h
    by_cases isAdd : op = .add
    · simp [Binary.type?, isAdd, string]
    · cases op <;> simp_all [Binary.type?, Additive.type?]
  · rename_i notOr noString
    obtain ⟨a, agreed, same⟩ := Option.map_eq_some_iff.1 h
    cases same
    simp [Binary.type?, Additive.type?, notOr, noString, agreed]

theorem Multiplicative.type?_of_result? {op : Multiplicative} {lhs rhs type : ValueType}
    {b : Binary} (h : op.result? lhs rhs = some (type, b)) : b.type? lhs rhs = some type := by
  unfold Multiplicative.result? at h
  split at h
  · rename_i isAnd
    split at h
    · cases h
      simp [Binary.type?, Multiplicative.type?, *]
    · cases h
  · rename_i notAnd
    obtain ⟨a, agreed, same⟩ := Option.map_eq_some_iff.1 h
    cases same
    simp [Binary.type?, Multiplicative.type?, notAnd, agreed]

theorem AssignSymbol.type?_of_operation? {op : AssignSymbol}
    {result? : ValueType → ValueType → Option (ValueType × Binary)}
    (operation : op.operation? = some result?) {lhs rhs type : ValueType} {b : Binary}
    (h : result? lhs rhs = some (type, b)) : b.type? lhs rhs = some type := by
  cases op with
  | set => cases operation
  | add | sub => cases operation; exact Additive.type?_of_result? h
  | mul | div | rem => cases operation; exact Multiplicative.type?_of_result? h

/-- A step of a number by one is a number of the same type. -/
theorem Step.type?_one (step : Step) {type : ValueType} (numeric : type.isNumeric = true) :
    step.op.type? type type.one.type = some type := by
  cases type <;> cases numeric <;> cases step <;> rfl

theorem ValueType.admits_self (type : ValueType) : type.admits type = true := by
  simp [admits, accept?]

/-! ## Contexts -/

/-- What a name stands for is known to the frame; a variable of another function is not usable and
need not be. -/
def Entity.Typed (frame : Frame) (level : Nat) : Entity → Prop
  | .slot type index home => home ≤ level ∧ (home = level → frame.type? index = some type)
  | .function link signature => frame.signature? link = some signature

/-- Everything that is known at a place is known to the frame. -/
structure Context.Typed (ctx : Context) (frame : Frame) : Prop where
  entities : ∀ y ∈ ctx.blocks.flatten, y.2.Typed frame ctx.frame
  returns : ctx.returns.head? = frame.ret

namespace Context.Typed

variable {ctx : Context} {frame : Frame}

theorem find? (h : ctx.Typed frame) {x : Name} {e : Entity} (found : ctx.find? x = some e) :
    e.Typed frame ctx.frame := by
  obtain ⟨y, mem, rfl⟩ := Option.map_eq_some_iff.1 found
  exact h.entities y (List.mem_of_find?_eq_some mem)

theorem slot? (h : ctx.Typed frame) {x : Name} {type : ValueType} {slot : Nat}
    (found : ctx.slot? x = some (type, slot)) : frame.type? slot = some type := by
  unfold Context.slot? at found
  split at found
  · rename_i entity
    split at found
    · rename_i home
      cases found
      exact (h.find? entity).2 home
    · cases found
  · cases found

theorem function? (h : ctx.Typed frame) {f : Name} {link : String} {signature : Signature}
    (found : ctx.function? f = some (link, signature)) :
    frame.signature? link = some signature := by
  unfold Context.function? at found
  split at found
  · rename_i entity
    cases found
    exact h.find? entity
  · cases found

theorem mayReturn (h : ctx.Typed frame) {given : Option ValueType}
    (may : ctx.mayReturn given = true) : frame.mayReturn given.toList = true := by
  unfold Context.mayReturn at may
  rw [h.returns] at may
  cases ret : frame.ret with
  | none => cases given <;> simp [Frame.mayReturn, ret]
  | some expected =>
    cases given with
    | none => simp [ret] at may
    | some type => simpa [Frame.mayReturn, ret] using may

theorem enter (h : ctx.Typed frame) : ctx.enter.Typed frame := ⟨h.entities, h.returns⟩

theorem enterLoop (h : ctx.Typed frame) : ctx.enterLoop.Typed frame := ⟨h.entities, h.returns⟩

theorem declare (h : ctx.Typed frame) (x : Name) {e : Entity} (he : e.Typed frame ctx.frame) :
    (ctx.declare x e).Typed frame := by
  refine ⟨?_, h.returns⟩
  intro y mem
  have either : y = (x, e) ∨ y ∈ ctx.blocks.flatten := by
    cases blocks : ctx.blocks with
    | nil => simpa [Context.declare, blocks] using mem
    | cons b bs => simpa [Context.declare, blocks, or_assoc] using mem
  rcases either with rfl | mem
  · exact he
  · exact h.entities y mem

/-- Inside a function only its parameter is usable among the variables. -/
theorem enterFunction (h : ctx.Typed frame) (signature : Signature) (x : Name)
    {locals : List (String × ValueType)} (first : [(x.text, signature.param)] <+: locals) :
    (ctx.enterFunction signature x).Typed ⟨locals, some signature.ret, frame.signature?⟩ := by
  refine ⟨?_, rfl⟩
  intro y mem
  have level : (ctx.enterFunction signature x).frame = ctx.frame + 1 := rfl
  rcases List.mem_cons.1 mem with rfl | mem
  · obtain ⟨rest, rfl⟩ := first
    exact ⟨Nat.le_refl _, fun _ => rfl⟩
  · have outer := h.entities y mem
    obtain ⟨name, entity⟩ := y
    cases entity with
    | slot type index home =>
      have below : home ≤ ctx.frame := outer.1
      exact ⟨by rw [level]; omega, fun same => by rw [level] at same; omega⟩
    | function link signature => exact outer

end Context.Typed

/-! ## Expressions -/

/-- An operand is of its type, and so is the variable that it is. -/
def Operand.Typed (frame : Frame) (x : Operand × Term) : Prop :=
  x.2.HasType frame x.1.type ∧ ∀ slot, x.1.place = some slot → frame.type? slot = some x.1.type

theorem Operand.Typed.steppable? {frame : Frame} {x : Operand × Term} (h : Operand.Typed frame x)
    {slot : Nat} (steppable : x.1.steppable? = some slot) :
    frame.type? slot = some x.1.type ∧ x.1.type.isNumeric = true := by
  unfold Operand.steppable? at steppable
  split at steppable
  · exact ⟨h.2 slot steppable, by assumption⟩
  · cases steppable

theorem Tree.Primary.typed_withSign {frame : Frame} {x : Operand × Term}
    (h : Operand.Typed frame x) (negative : Bool) (p : Primary) :
    Operand.Typed frame (p.withSign negative x) := by
  unfold Primary.withSign
  split
  · exact ⟨.literal _, nofun⟩
  · split
    · exact ⟨.unary .neg h.1, nofun⟩
    · exact h

/-- What an assignment stores is of the type that the operation gives. -/
theorem AssignSymbol.hasType_stored? {frame : Frame} {op : AssignSymbol} {type : ValueType}
    {slot : Nat} {value stored : ValueType × Term} (declared : frame.type? slot = some type)
    (typed : value.2.HasType frame value.1) (h : op.stored? type slot value = some stored) :
    stored.2.HasType frame stored.1 := by
  unfold AssignSymbol.stored? at h
  split at h
  · cases h
    exact typed
  · rename_i operation
    obtain ⟨⟨result, b⟩, given, rfl⟩ := Option.map_eq_some_iff.1 h
    exact .binary (.load declared) typed (AssignSymbol.type?_of_operation? operation given)

section Expressions

open OnePass.Tree

variable {ctx : Context} {frame : Frame}

mutual

theorem Tree.Expression.hasType (e : Expression) (known : ctx.Typed frame) {x : ValueType × Term}
    (h : e.resolve? ctx = some x) : x.2.HasType frame x.1 := by
  cases e with
  | sum a => exact a.hasType known h
  | compare lhs op rhs =>
    obtain ⟨l, left, h⟩ := Option.bind_eq_some_iff.1 h
    obtain ⟨r, right, h⟩ := Option.bind_eq_some_iff.1 h
    obtain ⟨same, ⟨⟩⟩ := Option.ite_none_right_eq_some.1 h
    exact .binary (lhs.hasType known left) (rhs.hasType known right) (if_pos same)

theorem Tree.Sum.hasType (a : Sum) (known : ctx.Typed frame) {x : ValueType × Term}
    (h : a.resolve? ctx = some x) : x.2.HasType frame x.1 := by
  cases a with
  | mk negative first rest =>
    obtain ⟨y, leading, h⟩ := Option.bind_eq_some_iff.1 h
    have typed := first.hasType known leading
    refine rest.hasType known ?_ h
    dsimp only
    split
    · exact .unary .neg typed
    · exact typed

theorem Tree.Terms.hasType (ts : Terms) (known : ctx.Typed frame) {before x : ValueType × Term}
    (typed : before.2.HasType frame before.1) (h : ts.resolve? ctx before = some x) :
    x.2.HasType frame x.1 := by
  cases ts with
  | nil =>
    cases h
    exact typed
  | cons op term rest =>
    obtain ⟨y, operand, h⟩ := Option.bind_eq_some_iff.1 h
    obtain ⟨⟨type, b⟩, result, h⟩ := Option.bind_eq_some_iff.1 h
    exact rest.hasType known
      (.binary typed (term.hasType known operand) (Additive.type?_of_result? result)) h

theorem Tree.Product.hasType (m : Product) (known : ctx.Typed frame) {x : ValueType × Term}
    (h : m.resolve? ctx = some x) : x.2.HasType frame x.1 := by
  cases m with
  | mk first rest =>
    obtain ⟨y, leading, h⟩ := Option.bind_eq_some_iff.1 h
    exact rest.hasType known (first.hasType known leading) h

theorem Tree.Factors.hasType (fs : Factors) (known : ctx.Typed frame) {before x : ValueType × Term}
    (typed : before.2.HasType frame before.1) (h : fs.resolve? ctx before = some x) :
    x.2.HasType frame x.1 := by
  cases fs with
  | nil =>
    cases h
    exact typed
  | cons op factor rest =>
    obtain ⟨y, operand, h⟩ := Option.bind_eq_some_iff.1 h
    obtain ⟨⟨type, b⟩, result, h⟩ := Option.bind_eq_some_iff.1 h
    exact rest.hasType known
      (.binary typed (factor.hasType known operand) (Multiplicative.type?_of_result? result)) h

theorem Tree.Factor.hasType (f : Factor) (known : ctx.Typed frame) {x : ValueType × Term}
    (h : f.resolve? ctx = some x) : x.2.HasType frame x.1 := by
  cases f with
  | stepBefore step p =>
    obtain ⟨y, operand, h⟩ := Option.bind_eq_some_iff.1 h
    obtain ⟨slot, steppable, rfl⟩ := Option.map_eq_some_iff.1 h
    obtain ⟨declared, numeric⟩ := (p.typed known operand).steppable? steppable
    exact .store declared (.binary (.load declared) (.literal _) (step.type?_one numeric))
      (ValueType.admits_self _)
  | unary op p =>
    obtain ⟨y, operand, rfl⟩ := Option.map_eq_some_iff.1 h
    have typed := p.typed known operand
    split
    · exact (p.typed_withSign typed true).1
    · exact .unary op typed.1
  | plain p =>
    obtain ⟨y, operand, rfl⟩ := Option.map_eq_some_iff.1 h
    exact (p.typed known operand).1
  | stepBehind p step =>
    obtain ⟨y, operand, h⟩ := Option.bind_eq_some_iff.1 h
    obtain ⟨slot, steppable, rfl⟩ := Option.map_eq_some_iff.1 h
    obtain ⟨declared, numeric⟩ := (p.typed known operand).steppable? steppable
    exact .stepBehind declared (step.type?_one numeric) (ValueType.admits_self _)

theorem Tree.Primary.typed (p : Primary) (known : ctx.Typed frame) {x : Operand × Term}
    (h : p.resolve? ctx = some x) : Operand.Typed frame x := by
  cases p with
  | literal l =>
    cases h
    exact ⟨.literal l, nofun⟩
  | name x =>
    obtain ⟨⟨type, slot⟩, found, rfl⟩ := Option.map_eq_some_iff.1 h
    refine ⟨.load (known.slot? found), ?_⟩
    intro slot' place
    cases place
    exact known.slot? found
  | assign x op value =>
    obtain ⟨⟨type, slot⟩, found, h⟩ := Option.bind_eq_some_iff.1 h
    obtain ⟨v, resolved, h⟩ := Option.bind_eq_some_iff.1 h
    obtain ⟨stored, operation, h⟩ := Option.bind_eq_some_iff.1 h
    obtain ⟨admits, ⟨⟩⟩ := Option.ite_none_right_eq_some.1 h
    have declared := known.slot? found
    have typed := AssignSymbol.hasType_stored? declared (value.hasType known resolved) operation
    exact ⟨.store declared typed admits, nofun⟩
  | call f argument =>
    obtain ⟨⟨link, signature⟩, found, h⟩ := Option.bind_eq_some_iff.1 h
    obtain ⟨v, resolved, h⟩ := Option.bind_eq_some_iff.1 h
    obtain ⟨admits, ⟨⟩⟩ := Option.ite_none_right_eq_some.1 h
    exact ⟨.call (known.function? found) (argument.hasType known resolved) admits, nofun⟩
  | signed negative p =>
    obtain ⟨y, operand, rfl⟩ := Option.map_eq_some_iff.1 h
    exact p.typed_withSign (p.typed known operand) negative
  | parens e =>
    obtain ⟨y, inner, rfl⟩ := Option.map_eq_some_iff.1 h
    exact ⟨e.hasType known inner, nofun⟩

end

theorem Tree.Expression.isCondition (e : Expression) (known : ctx.Typed frame) {t : Term}
    (h : e.condition? ctx = some t) : t.IsCondition frame := by
  obtain ⟨x, resolved, h⟩ := Option.bind_eq_some_iff.1 h
  obtain ⟨condition, ⟨⟩⟩ := Option.ite_none_right_eq_some.1 h
  exact ⟨x.1, e.hasType known resolved, condition⟩

end Expressions

/-! ## Statements -/

/-- The functions have the signatures that their links promise. -/
def Known (signature? : String → Option Signature) (fs : List (Function × Nat)) : Prop :=
  ∀ f ∈ fs, signature? f.1.link = f.1.signature

/-- `s` was resolved where `ctx` and `inv` were known, and after it `ctx'` and `inv'` are. Locals
were only added, every function in it got a link of its own, and it is well typed in every frame
that holds the locals and knows the functions. -/
structure Resolved (ctx : Context) (inv : Inventory) (s : Stmt) (ctx' : Context)
    (inv' : Inventory) : Prop where
  locals : inv.locals <+: inv'.locals
  links : ∀ n, inv.Gains inv' ((s.functions n).map (·.1.link))
  inLoop : ctx'.inLoop = ctx.inLoop
  typed : ∀ (frame : Frame) (n : Nat), ctx.Typed frame → inv'.locals <+: frame.locals →
    Known frame.signature? (s.functions n) → s.WellTyped frame ctx.inLoop ∧ ctx'.Typed frame

namespace Resolved

variable {ctx ctx₁ ctx₂ : Context} {inv inv₁ inv₂ : Inventory} {s t : Stmt}

/-- A statement that declares nothing and has no functions inside. -/
theorem simple (none : ∀ n, s.functions n = [])
    (typed : ∀ frame, ctx.Typed frame → s.WellTyped frame ctx.inLoop) :
    Resolved ctx inv s ctx inv where
  locals := List.prefix_refl _
  links := fun n => by rw [none]; exact .refl inv
  inLoop := rfl
  typed := fun frame _ known _ _ => ⟨typed frame known, known⟩

theorem seq (hs : Resolved ctx inv s ctx₁ inv₁) (ht : Resolved ctx₁ inv₁ t ctx₂ inv₂) :
    Resolved ctx inv (.seq s t) ctx₂ inv₂ where
  locals := hs.locals.trans ht.locals
  links := by
    intro n
    rw [Stmt.functions, List.map_append]
    exact (hs.links n).append (ht.links _)
  inLoop := ht.inLoop.trans hs.inLoop
  typed := by
    intro frame n known locals functions
    have inFirst : Known frame.signature? (s.functions n) := fun f mem =>
      functions f (List.mem_append_left _ mem)
    have inSecond : Known frame.signature? (t.functions (n + s.labels)) := fun f mem =>
      functions f (List.mem_append_right _ mem)
    obtain ⟨typed, known⟩ := hs.typed frame n known (ht.locals.trans locals) inFirst
    obtain ⟨typed', known⟩ := ht.typed frame _ known locals inSecond
    rw [hs.inLoop] at typed'
    exact ⟨⟨typed, typed'⟩, known⟩

/-- What was declared in a block is forgotten behind it. -/
theorem block (h : Resolved ctx.enter inv s ctx₁ inv₁) : Resolved ctx inv s ctx inv₁ where
  locals := h.locals
  links := h.links
  inLoop := rfl
  typed := fun frame n known locals functions =>
    ⟨(h.typed frame n known.enter locals functions).1, known⟩

theorem ifThen {e : Term} (he : ∀ frame, ctx.Typed frame → e.IsCondition frame)
    (h : Resolved ctx inv s ctx inv₁) : Resolved ctx inv (.ifThen e s) ctx inv₁ where
  locals := h.locals
  links := fun n => h.links (n + 1)
  inLoop := rfl
  typed := fun frame n known locals functions =>
    ⟨⟨he frame known, (h.typed frame (n + 1) known locals functions).1⟩, known⟩

theorem ifElse {e : Term} (he : ∀ frame, ctx.Typed frame → e.IsCondition frame)
    (hs : Resolved ctx inv s ctx inv₁) (ht : Resolved ctx inv₁ t ctx inv₂) :
    Resolved ctx inv (.ifElse e s t) ctx inv₂ where
  locals := hs.locals.trans ht.locals
  links := by
    intro n
    rw [Stmt.functions, List.map_append]
    exact (hs.links _).append (ht.links _)
  inLoop := rfl
  typed := by
    intro frame n known locals functions
    have inFirst : Known frame.signature? (s.functions (n + 1)) := fun f mem =>
      functions f (List.mem_append_left _ mem)
    have inSecond : Known frame.signature? (t.functions (n + 1 + s.labels + 1)) := fun f mem =>
      functions f (List.mem_append_right _ mem)
    exact ⟨⟨he frame known, (hs.typed frame _ known (ht.locals.trans locals) inFirst).1,
      (ht.typed frame _ known locals inSecond).1⟩, known⟩

theorem loop {e : Term} (he : ∀ frame, ctx.Typed frame → e.IsCondition frame)
    (h : Resolved ctx.enterLoop inv s ctx.enterLoop inv₁) :
    Resolved ctx inv (.loop e s) ctx inv₁ where
  locals := h.locals
  links := fun n => h.links (n + 2)
  inLoop := rfl
  typed := fun frame n known locals functions =>
    ⟨⟨he frame known, (h.typed frame (n + 2) known.enterLoop locals functions).1⟩, known⟩

/-- A variable gets the next slot. -/
theorem var (type : ValueType) (x : Name) :
    Resolved ctx inv .skip (ctx.declare x (.slot type inv.locals.length ctx.frame))
      { inv with locals := inv.locals ++ [(x.text, type)] } where
  locals := List.prefix_append _ _
  links := fun _ => .refl inv
  inLoop := rfl
  typed := by
    intro frame n known locals functions
    refine ⟨trivial, known.declare x ⟨Nat.le_refl _, fun _ => ?_⟩⟩
    obtain ⟨rest, held⟩ := locals
    simp [Frame.type?, ← held]

/-- A function is known from its own body on, and its locals are its own. -/
theorem define {f x : Name} {signature : Signature} {inside : Context} {inner : Inventory}
    (h : Resolved
      ((ctx.declare f (.function (inv.link f) signature)).enterFunction signature x).enter
      ⟨[(x.text, signature.param)], f :: inv.defined⟩ s inside inner) :
    Resolved ctx inv (.define (inv.link f) signature inner.locals s)
      (ctx.declare f (.function (inv.link f) signature))
      { inv with defined := inner.defined } where
  locals := List.prefix_refl _
  links := by
    intro n
    rw [Stmt.functions, List.map_append]
    exact (h.links n).define
  inLoop := rfl
  typed := by
    intro frame n known locals functions
    have own : frame.signature? (inv.link f) = some signature :=
      functions _ (List.mem_append_right _ List.mem_cons_self)
    have after := known.declare f (show Entity.Typed frame _ (.function _ _) from own)
    have inBody : Known frame.signature? (s.functions n) := fun g mem =>
      functions g (List.mem_append_left _ mem)
    have body := h.typed ⟨inner.locals, some signature.ret, frame.signature?⟩ n
      (after.enterFunction signature x h.locals).enter (List.prefix_refl _) inBody
    exact ⟨⟨own, body.1⟩, after⟩

end Resolved

section Statements

open OnePass.Tree

mutual

theorem Tree.Statement.resolved (t : Statement) {ctx : Context} {inv : Inventory}
    {x : Stmt × Inventory} (h : t.resolve? ctx inv = some x) : Resolved ctx inv x.1 ctx x.2 := by
  cases t with
  | block ds ss =>
    obtain ⟨⟨s, inside, inv₁⟩, declared, h⟩ := Option.bind_eq_some_iff.1 h
    obtain ⟨y, rest, rfl⟩ := Option.map_eq_some_iff.1 h
    exact .block (.seq (ds.resolved declared) (ss.resolved rest))
  | ifThen e s =>
    obtain ⟨t, condition, h⟩ := Option.bind_eq_some_iff.1 h
    obtain ⟨y, inside, rfl⟩ := Option.map_eq_some_iff.1 h
    exact .ifThen (fun _ known => e.isCondition known condition) (s.resolved inside)
  | ifElse e s₁ s₂ =>
    obtain ⟨t, condition, h⟩ := Option.bind_eq_some_iff.1 h
    obtain ⟨⟨s, inv₁⟩, first, h⟩ := Option.bind_eq_some_iff.1 h
    obtain ⟨y, second, rfl⟩ := Option.map_eq_some_iff.1 h
    exact .ifElse (fun _ known => e.isCondition known condition) (s₁.resolved first)
      (s₂.resolved second)
  | loop e s =>
    obtain ⟨t, condition, h⟩ := Option.bind_eq_some_iff.1 h
    obtain ⟨y, inside, rfl⟩ := Option.map_eq_some_iff.1 h
    exact .loop (fun _ known => e.isCondition known condition) (s.resolved inside)
  | exit =>
    obtain ⟨inLoop, ⟨⟩⟩ := Option.ite_none_right_eq_some.1 h
    exact .simple (fun _ => rfl) fun _ _ => inLoop
  | next =>
    obtain ⟨inLoop, ⟨⟩⟩ := Option.ite_none_right_eq_some.1 h
    exact .simple (fun _ => rfl) fun _ _ => inLoop
  | ret value =>
    cases value with
    | none =>
      obtain ⟨mayReturn, ⟨⟩⟩ := Option.ite_none_right_eq_some.1 h
      refine .simple (fun _ => rfl) fun frame known => ?_
      exact known.mayReturn mayReturn
    | some e =>
      obtain ⟨y, resolved, h⟩ := Option.bind_eq_some_iff.1 h
      obtain ⟨mayReturn, ⟨⟩⟩ := Option.ite_none_right_eq_some.1 h
      refine .simple (fun _ => rfl) fun frame known => ?_
      exact ⟨y.1, e.hasType known resolved, known.mayReturn mayReturn⟩
  | empty =>
    cases h
    exact .simple (fun _ => rfl) fun _ _ => trivial
  | eval e =>
    obtain ⟨y, resolved, rfl⟩ := Option.map_eq_some_iff.1 h
    exact .simple (fun _ => rfl) fun _ known => ⟨y.1, e.hasType known resolved⟩

theorem Tree.Statements.resolved (ss : Statements) {ctx : Context} {inv : Inventory}
    {x : Stmt × Inventory} (h : ss.resolve? ctx inv = some x) : Resolved ctx inv x.1 ctx x.2 := by
  cases ss with
  | nil =>
    cases h
    exact .simple (fun _ => rfl) fun _ _ => trivial
  | cons first rest =>
    obtain ⟨⟨s, inv₁⟩, leading, h⟩ := Option.bind_eq_some_iff.1 h
    obtain ⟨y, remaining, rfl⟩ := Option.map_eq_some_iff.1 h
    exact .seq (first.resolved leading) (rest.resolved remaining)

theorem Tree.Declarations.resolved (ds : Declarations) {ctx : Context} {inv : Inventory}
    {x : Stmt × Context × Inventory} (h : ds.resolve? ctx inv = some x) :
    Resolved ctx inv x.1 x.2.1 x.2.2 := by
  cases ds with
  | nil =>
    cases h
    exact .simple (fun _ => rfl) fun _ _ => trivial
  | cons first rest =>
    obtain ⟨⟨s, ctx₁, inv₁⟩, leading, h⟩ := Option.bind_eq_some_iff.1 h
    obtain ⟨y, remaining, rfl⟩ := Option.map_eq_some_iff.1 h
    exact .seq (first.resolved leading) (rest.resolved remaining)

theorem Tree.Declaration.resolved (d : Declaration) {ctx : Context} {inv : Inventory}
    {x : Stmt × Context × Inventory} (h : d.resolve? ctx inv = some x) :
    Resolved ctx inv x.1 x.2.1 x.2.2 := by
  cases d with
  | var type name =>
    obtain ⟨fresh, ⟨⟩⟩ := Option.ite_none_left_eq_some.1 h
    exact .var type.type name
  | function ret f type name ds ss =>
    obtain ⟨fresh, h⟩ := Option.ite_none_left_eq_some.1 h
    obtain ⟨⟨s, inside, inner⟩, declared, h⟩ := Option.bind_eq_some_iff.1 h
    obtain ⟨y, rest, rfl⟩ := Option.map_eq_some_iff.1 h
    exact .define (.seq (ds.resolved declared) (ss.resolved rest))

end

end Statements

/-! ## Programs -/

/-- Where links are distinct, each leads to its own function. -/
theorem findSome?_signature {fs : List (Function × Nat)} (distinct : (fs.map (·.1.link)).Nodup)
    {f : Function × Nat} (mem : f ∈ fs) :
    fs.findSome? (fun g => if g.1.link = f.1.link then g.1.signature else none) =
      f.1.signature := by
  induction fs with
  | nil => cases mem
  | cons g gs ih =>
    obtain ⟨fresh, distinct⟩ := List.nodup_cons.1 distinct
    have others : ∀ h ∈ gs, h.1.link ≠ g.1.link := by
      intro h mem same
      exact fresh (List.mem_map.2 ⟨h, mem, same⟩)
    rw [List.findSome?_cons]
    rcases List.mem_cons.1 mem with rfl | mem
    · rw [if_pos rfl]
      cases f.1.signature with
      | some signature => rfl
      | none => exact List.findSome?_eq_none_iff.2 fun h mem => if_neg (others h mem)
    · rw [if_neg (others f mem).symm]
      exact ih distinct mem

theorem Listing.signature?_eq {l : Listing} {fs : List (Function × Nat)}
    (bodies : l.bodies = fs.map fun f => f.1.compiled f.2) (link : String) :
    l.signature? link = fs.findSome? fun f => if f.1.link = link then f.1.signature else none := by
  rw [Listing.signature?, bodies, List.findSome?_map]
  rfl

/-- **The functions of a program are well typed** in the frames that its listing gives them. -/
theorem Tree.Statements.wellTyped_functions? {p : Statements} {fs : List (Function × Nat)}
    (h : p.functions? = some fs) {l : Listing}
    (bodies : l.bodies = fs.map fun f => f.1.compiled f.2) :
    ∀ f ∈ fs, f.1.body.WellTyped (f.1.frame l.signature?) false := by
  obtain ⟨⟨s, inv⟩, resolved, rfl⟩ := Option.map_eq_some_iff.1 h
  have sound := p.resolved resolved
  have distinct : ((s.functions 0).map (·.1.link)).Nodup := (sound.links 0).nodup
  have known : Known l.signature? (s.functions 0) := by
    intro f mem
    rw [Listing.signature?_eq bodies, List.findSome?_cons, ite_self]
    exact findSome?_signature distinct mem
  have fresh : Context.Typed {} ⟨inv.locals, none, l.signature?⟩ := ⟨nofun, rfl⟩
  have typed := (sound.typed ⟨inv.locals, none, l.signature?⟩ 0 fresh (List.prefix_refl _) known).1
  intro f mem
  rcases List.mem_cons.1 mem with rfl | mem
  · exact typed
  · exact typed.functions 0 f mem

/-- **Accepted source texts give well typed code**: the verifier accepts every body of the listing,
from the empty stack to the empty stack. -/
theorem verifies_of_accepted (source : String) (c : Compilation) (compiled : compile source = .ok c)
    (accepted : c.accepted = true) : ∀ b ∈ c.listing.bodies, c.listing.verifies b = true := by
  obtain ⟨p, written⟩ := exists_writtenAs compiled accepted
  obtain ⟨fs, resolved, bodies⟩ := written.functions? compiled accepted
  intro b mem
  rw [bodies] at mem
  obtain ⟨f, listed, rfl⟩ := List.mem_map.1 mem
  have typed := Tree.Statements.wellTyped_functions? resolved bodies f listed
  refine decide_eq_true ?_
  have code : (f.1.compiled f.2).code.toList = f.1.body.code none f.2 := by
    simp [Function.compiled]
  have frame : c.listing.frame (f.1.compiled f.2) = f.1.frame c.listing.signature? := by
    simp [Listing.frame, Function.frame, Function.compiled]
  rw [code, frame]
  exact typed.verify none f.2

/-- A source text in which a number is widened for a parameter, for a variable and for a sum, and a
text is an operand of a difference. -/
def wideningSource : String :=
  "\x7b double y; int half(double x) \x7b return 1; \x7d y = half(3) + 0.5; " ++
    "while (y < 2.0) \x7b y += 1; \x7d return \"y\" - y; \x7d"

theorem verifies_of_accepted_widening :
    ∃ c b, compile wideningSource = .ok c ∧ c.accepted = true ∧ b ∈ c.listing.bodies ∧
      b.name = "half" ∧ c.listing.verifies b = true := by
  have names : acceptedNames? wideningSource = some ["main", "half"] := by decide +kernel
  obtain ⟨c, compiled, accepted, listed⟩ := acceptedNames?_eq_some_iff.1 names
  have half : "half" ∈ c.listing.bodies.map Body.name := by simp [listed]
  obtain ⟨b, mem, name⟩ := List.mem_map.1 half
  exact ⟨c, b, compiled, accepted, mem, name,
    verifies_of_accepted wideningSource c compiled accepted b mem⟩

end OnePass
