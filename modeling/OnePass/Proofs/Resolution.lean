import OnePass.Production.Expression
import OnePass.Proofs.Tree

/-!
# Resolution

The rules of scope and type on program trees. A tree that keeps them is turned into resolved form:
names become slots and links, the levels of the grammar are gone, and what is written shortly is
written out. A compound assignment and a step in front store the value of an operation whose left
operand is the variable's old value; a sum with a string operand is a concatenation; a sign in front
of a number is part of the number.

* A name is declared once in a block; a block inside may declare it anew.
* A variable is usable only inside the function that declares it; a function from its own body on.
* `break` and `continue` stand inside a loop of the same function.
* The value of an assignment, an argument and a returned value are of the expected type, where an
  `int` may stand for a `double`.
-/

namespace OnePass

/-! ## Resolved programs -/

/-- The operators with two operands. -/
inductive Binary where
  | compare (op : Comparison)
  | additive (op : Additive)
  | multiplicative (op : Multiplicative)
  | concat
deriving DecidableEq

/-- An expression with its names resolved. -/
inductive Term where
  | literal (l : Literal)
  | load (slot : Nat)
  | store (slot : Nat) (value : Term)
  | call (link : String) (argument : Term)
  | unary (op : Unary) (operand : Term)
  | binary (op : Binary) (lhs rhs : Term)
  /-- The old value of a slot, which is then changed by `one`. -/
  | stepBehind (op : Additive) (one : Literal) (slot : Nat)
deriving DecidableEq

/-- A statement with its names resolved. A function is defined where it stands; that has no effect
on the function around it. -/
inductive Stmt where
  | skip
  | seq (first second : Stmt)
  | define (link : String) (signature : Signature) (locals : List (String × ValueType))
    (body : Stmt)
  | eval (t : Term)
  | ifThen (condition : Term) (s : Stmt)
  | ifElse (condition : Term) (s t : Stmt)
  | loop (condition : Term) (s : Stmt)
  | exit
  | next
  | ret (value : Option Term)
deriving DecidableEq

/-! ## Scopes -/

/-- What a declared name stands for. -/
inductive Entity where
  | slot (type : ValueType) (index frame : Nat)
  | function (link : String) (signature : Signature)
deriving DecidableEq

/-- What is known at a place in a program: the declarations of the blocks around it, innermost
first, the return types of the functions around it, innermost first, and whether there is a loop
around it in the same function. -/
structure Context where
  blocks : List (List (Name × Entity)) := []
  returns : List ValueType := []
  inLoop : Bool := false

namespace Context

def frame (ctx : Context) : Nat := ctx.returns.length

/-- What a name stands for: the innermost block that declares it decides. -/
def find? (ctx : Context) (x : Name) : Option Entity :=
  (ctx.blocks.flatten.find? (·.1 = x)).map Prod.snd

def declares (ctx : Context) (x : Name) : Bool := (ctx.blocks.headD []).any (·.1 = x)

def enter (ctx : Context) : Context := { ctx with blocks := [] :: ctx.blocks }

def declare (ctx : Context) (x : Name) (e : Entity) : Context :=
  { ctx with blocks := ((x, e) :: ctx.blocks.headD []) :: ctx.blocks.tail }

/-- The type and the slot of a variable of the innermost function. -/
def slot? (ctx : Context) (x : Name) : Option (ValueType × Nat) :=
  match ctx.find? x with
  | some (.slot type index frame) => if frame = ctx.frame then some (type, index) else none
  | _ => none

def function? (ctx : Context) (f : Name) : Option (String × Signature) :=
  match ctx.find? f with
  | some (.function link signature) => some (link, signature)
  | _ => none

end Context

/-! ## Types -/

/-- The type of a literal. -/
def Literal.type : Literal → ValueType
  | int _ => .int
  | double _ => .double
  | bool _ => .bool
  | char _ => .char
  | string _ => .string

def Literal.signed? (negative : Bool) : Literal → Option Literal
  | int value => some (int (if negative then -value else value))
  | double value => some (double (if negative then -value else value))
  | _ => none

/-- The type on which two types agree. -/
def Agreement.type : Agreement → ValueType
  | exact type => type
  | widened type => type

/-- Whether a value of type `given` may go where `expected` is expected. -/
def ValueType.admits (expected given : ValueType) : Bool := (accept? expected given).isSome

def ValueType.one (type : ValueType) : Literal :=
  if type = .double then .double .one else .int 1

/-- The type of an additive operation, and what it is: a disjunction is of truth values; with a
string a sum is a concatenation, and every other result a string. -/
def Additive.result? (op : Additive) (lhs rhs : ValueType) : Option (ValueType × Binary) :=
  if op = .or then
    if lhs = .bool ∧ rhs = .bool then some (.bool, .additive op) else none
  else if lhs = .string ∨ rhs = .string then
    some (.string, if op = .add then .concat else .additive op)
  else (ValueType.arithmetic? lhs rhs).map fun a => (a.type, .additive op)

/-- The type of a multiplicative operation: a conjunction is of truth values. -/
def Multiplicative.result? (op : Multiplicative) (lhs rhs : ValueType) :
    Option (ValueType × Binary) :=
  if op = .and then
    if lhs = .bool ∧ rhs = .bool then some (.bool, .multiplicative op) else none
  else (ValueType.arithmetic? lhs rhs).map fun a => (a.type, .multiplicative op)

def Step.op : Step → Additive
  | up => .add
  | down => .sub

/-- The operation of a compound assignment. -/
def AssignSymbol.operation? :
    AssignSymbol → Option (ValueType → ValueType → Option (ValueType × Binary))
  | set => none
  | add => some Additive.add.result?
  | sub => some Additive.sub.result?
  | mul => some Multiplicative.mul.result?
  | div => some Multiplicative.div.result?
  | rem => some Multiplicative.rem.result?

/-- What an assignment stores in `slot`, a variable of the given type, and the type of that. -/
def AssignSymbol.stored? (op : AssignSymbol) (type : ValueType) (slot : Nat)
    (value : ValueType × Term) : Option (ValueType × Term) :=
  match op.operation? with
  | none => some value
  | some result? => (result? type value.1).map fun (result, b) =>
      (result, .binary b (.load slot) value.2)

namespace Tree

def Primary.number? (negative : Bool) : Primary → Option Literal
  | .literal l => l.signed? negative
  | _ => none

/-- An operand behind a sign, given the operand without it. -/
def Primary.withSign (negative : Bool) (p : Primary) (x : Operand × Term) : Operand × Term :=
  match p.number? negative with
  | some l => (⟨l.type, none⟩, .literal l)
  | none => if negative then (⟨x.1.type, none⟩, .unary .neg x.2) else x

end Tree

/-- The slot of an operand that a step may change: a variable of a type of arithmetic. -/
def Operand.steppable? (x : Operand) : Option Nat := if x.type.isNumeric then x.place else none

namespace Tree

mutual

/-- The type and the resolved form of an expression. Only values of the same type are compared. -/
def Expression.resolve? (ctx : Context) : Expression → Option (ValueType × Term)
  | .sum a => a.resolve? ctx
  | .compare lhs op rhs =>
    (lhs.resolve? ctx).bind fun x => (rhs.resolve? ctx).bind fun y =>
      if x.1 = y.1 then some (.bool, .binary (.compare op) x.2 y.2) else none

/-- A sum: a minus in front of it belongs to the first term. -/
def Sum.resolve? (ctx : Context) : Sum → Option (ValueType × Term)
  | .mk negative first rest =>
    (first.resolve? ctx).bind fun x =>
      rest.resolve? ctx (x.1, if negative = some true then .unary .neg x.2 else x.2)

/-- A sum, given the terms before. -/
def Terms.resolve? (ctx : Context) : Terms → ValueType × Term → Option (ValueType × Term)
  | .nil, x => some x
  | .cons op term rest, x =>
    (term.resolve? ctx).bind fun y => (op.result? x.1 y.1).bind fun (type, b) =>
      rest.resolve? ctx (type, .binary b x.2 y.2)

def Product.resolve? (ctx : Context) : Product → Option (ValueType × Term)
  | .mk first rest => (first.resolve? ctx).bind fun x => rest.resolve? ctx x

/-- A product, given the factors before. -/
def Factors.resolve? (ctx : Context) : Factors → ValueType × Term → Option (ValueType × Term)
  | .nil, x => some x
  | .cons op factor rest, x =>
    (factor.resolve? ctx).bind fun y => (op.result? x.1 y.1).bind fun (type, b) =>
      rest.resolve? ctx (type, .binary b x.2 y.2)

/-- A factor. Only a variable can be stepped. -/
def Factor.resolve? (ctx : Context) : Factor → Option (ValueType × Term)
  | .stepBefore step p =>
    (p.resolve? ctx).bind fun (x, _) => x.steppable?.map fun slot =>
      (x.type, .store slot (.binary (.additive step.op) (.load slot) (.literal x.type.one)))
  | .unary op p =>
    (p.resolve? ctx).map fun x =>
      if op = .neg then ((p.withSign true x).1.type, (p.withSign true x).2)
      else (x.1.type, .unary op x.2)
  | .plain p => (p.resolve? ctx).map fun (x, t) => (x.type, t)
  | .stepBehind p step =>
    (p.resolve? ctx).bind fun (x, _) => x.steppable?.map fun slot =>
      (x.type, .stepBehind step.op x.type.one slot)

/-- An operand, with its place if it is a variable. -/
def Primary.resolve? (ctx : Context) : Primary → Option (Operand × Term)
  | .literal l => some (⟨l.type, none⟩, .literal l)
  | .name x => (ctx.slot? x).map fun (type, slot) => (⟨type, some slot⟩, .load slot)
  | .assign x op value =>
    (ctx.slot? x).bind fun (type, slot) => (value.resolve? ctx).bind fun v =>
      (op.stored? type slot v).bind fun (result, t) =>
        if type.admits result then some (⟨type, none⟩, .store slot t) else none
  | .call f argument =>
    (ctx.function? f).bind fun (link, signature) => (argument.resolve? ctx).bind fun (given, t) =>
      if signature.param.admits given then some (⟨signature.ret, none⟩, .call link t) else none
  | .signed negative p => (p.resolve? ctx).map (p.withSign negative)
  | .parens e => (e.resolve? ctx).map fun (type, t) => (⟨type, none⟩, t)

end

/-! ## Statements -/

end Tree

/-- The variables of the function so far, in the order of their slots, and all functions so far,
latest first. -/
structure Inventory where
  locals : List (String × ValueType) := []
  defined : List Name := []

/-- The name by which the code calls the next function of a name. -/
def Inventory.link (inv : Inventory) (f : Name) : String :=
  if inv.defined.count f = 0 then f.text else f.text ++ "#" ++ (inv.defined.count f).repr

namespace Context

def enterLoop (ctx : Context) : Context := { ctx with inLoop := true }

/-- Inside a function with the parameter `x`, which is the first local. -/
def enterFunction (ctx : Context) (signature : Signature) (x : Name) : Context :=
  { blocks := [(x, .slot signature.param 0 (ctx.frame + 1))] :: ctx.blocks
    returns := signature.ret :: ctx.returns }

/-- Whether a value of some type, or none, may be returned. Outside all functions both may be. -/
def mayReturn (ctx : Context) (given : Option ValueType) : Bool :=
  match ctx.returns.head?, given with
  | none, _ => true
  | some expected, some type => expected.admits type
  | some _, none => false

end Context

namespace Tree

/-- A condition: its type must be one that a condition may have. -/
def Expression.condition? (ctx : Context) (e : Expression) : Option Term :=
  (e.resolve? ctx).bind fun (type, t) => if type.isCondition then some t else none

mutual

/-- The resolved form of a statement. -/
def Statement.resolve? (ctx : Context) : Statement → Inventory → Option (Stmt × Inventory)
  | .block ds ss, inv =>
    (ds.resolve? ctx.enter inv).bind fun (s, inside, inv) =>
      (ss.resolve? inside inv).map fun (t, inv) => (.seq s t, inv)
  | .ifThen e s, inv =>
    (e.condition? ctx).bind fun t => (s.resolve? ctx inv).map fun (s, inv) => (.ifThen t s, inv)
  | .ifElse e s₁ s₂, inv =>
    (e.condition? ctx).bind fun t => (s₁.resolve? ctx inv).bind fun (s₁, inv) =>
      (s₂.resolve? ctx inv).map fun (s₂, inv) => (.ifElse t s₁ s₂, inv)
  | .loop e s, inv =>
    (e.condition? ctx).bind fun t =>
      (s.resolve? ctx.enterLoop inv).map fun (s, inv) => (.loop t s, inv)
  | .exit, inv => if ctx.inLoop then some (.exit, inv) else none
  | .next, inv => if ctx.inLoop then some (.next, inv) else none
  | .ret none, inv => if ctx.mayReturn none then some (.ret none, inv) else none
  | .ret (some e), inv =>
    (e.resolve? ctx).bind fun (type, t) =>
      if ctx.mayReturn (some type) then some (.ret (some t), inv) else none
  | .empty, inv => some (.skip, inv)
  | .eval e, inv => (e.resolve? ctx).map fun (_, t) => (.eval t, inv)

/-- The resolved form of statements in a row. -/
def Statements.resolve? (ctx : Context) : Statements → Inventory → Option (Stmt × Inventory)
  | .nil, inv => some (.skip, inv)
  | .cons first rest, inv =>
    (first.resolve? ctx inv).bind fun (s, inv) =>
      (rest.resolve? ctx inv).map fun (t, inv) => (.seq s t, inv)

/-- The resolved form of declarations, and what is known after them. -/
def Declarations.resolve? :
    Context → Declarations → Inventory → Option (Stmt × Context × Inventory)
  | ctx, .nil, inv => some (.skip, ctx, inv)
  | ctx, .cons first rest, inv =>
    (first.resolve? ctx inv).bind fun (s, ctx, inv) =>
      (rest.resolve? ctx inv).map fun (t, ctx, inv) => (.seq s t, ctx, inv)

/-- The resolved form of a declaration, and what is known after it. A variable gets the next slot.
-/
def Declaration.resolve? (ctx : Context) :
    Declaration → Inventory → Option (Stmt × Context × Inventory)
  | .var type x, inv =>
    if ctx.declares x then none
    else
      some (.skip, ctx.declare x (.slot type.type inv.locals.length ctx.frame),
        { inv with locals := inv.locals ++ [(x.text, type.type)] })
  | .function ret f type x ds ss, inv =>
    let signature : Signature := ⟨type.type, ret.type⟩
    let after := ctx.declare f (.function (inv.link f) signature)
    if ctx.declares f then none
    else
      (ds.resolve? (after.enterFunction signature x).enter
        ⟨[(x.text, type.type)], f :: inv.defined⟩).bind fun (s, inside, inner) =>
          (ss.resolve? inside inner).map fun (t, inner) =>
            (.define (inv.link f) signature inner.locals (.seq s t), after,
              { inv with defined := inner.defined })

end

/-- The body of a function is resolved like a block of its own. -/
theorem resolve?_function (ctx : Context) (inv : Inventory) (ret type : TypeWord) (f x : Name)
    (ds : Declarations) (ss : Statements) :
    (Declaration.function ret f type x ds ss).resolve? ctx inv =
      if ctx.declares f then none
      else
        ((Statement.block ds ss).resolve?
          ((ctx.declare f (.function (inv.link f) ⟨type.type, ret.type⟩)).enterFunction
            ⟨type.type, ret.type⟩ x)
          ⟨[(x.text, type.type)], f :: inv.defined⟩).map fun (st, inner) =>
            (.define (inv.link f) ⟨type.type, ret.type⟩ inner.locals st,
              ctx.declare f (.function (inv.link f) ⟨type.type, ret.type⟩),
              { inv with defined := inner.defined }) := by
  rw [Declaration.resolve?, Statement.resolve?, Option.map_bind]
  simp only [Function.comp_def, Option.map_map]

end Tree

end OnePass
