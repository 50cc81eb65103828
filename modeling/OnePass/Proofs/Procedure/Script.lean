import OnePass.Proofs.Procedure.Session
import OnePass.Proofs.Stateful.Statement

/-!
# The procedures of the compiler

The compiler once more, as a program on sessions: one procedure for each production, with a token at
hand and the state changed as it goes. The procedures call one another freely. None of them is
given a proof that it may take a token, and nothing bounds how often and how deep they are invoked,
so whether they end, and where they stop reading, is open here.

`Script.Runs` says how a script runs to its end. It can do so in one way only
(`Script.Runs.unique`).
-/

namespace OnePass

namespace Script

/-- The slot that a step may change. -/
def stepTarget (x : Stateful.Operand) (pos : Position) : Script (Option (Mention × Nat)) :=
  match x.place with
  | some place =>
    if x.type.isNumeric then return some place else fail .error pos (.notSteppable x.type)
  | none => fail .error pos (.notSteppable x.type)

/-- The sign in front of a sum: whether it is a minus. -/
def leadingSign : Script Bool := do
  if ← equal "-" then return true
  else
    let _ ← equal "+"
    return false

def operandType (x : Option Stateful.Operand) : Option ValueType := x.map Stateful.Operand.type

/-- An expression. -/
def expression : Script (Option ValueType) := within .expression id do
  let some lhs ← invoke .additive | return none
  let t ← token
  let some op ← operator Comparison.ofSymbol? | return some lhs
  let some rhs ← invoke .additive | return none
  if lhs = rhs then
    emit [.compare op]
    return some .bool
  else fail .error t.pos (.incomparable lhs rhs)

/-- A sum. -/
def additive : Script (Option ValueType) := within .additive id do
  let negative ← leadingSign
  let some type ← invoke .multiplicative | return none
  emit (if negative then [.unary .neg] else [])
  invoke (.additiveRest type)

/-- The terms of a sum after its first ones. -/
def additiveRest (lhs : ValueType) : Script (Option ValueType) := do
  let t ← token
  let some op ← operator Additive.ofSymbol? | return some lhs
  let some rhs ← invoke .multiplicative | return none
  let some (type, i) ← follow t.pos (op.judge lhs rhs) | return none
  emit [i]
  invoke (.additiveRest type)

def multiplicative : Script (Option ValueType) := within .multiplicative id do
  let some type ← invoke .simple | return none
  invoke (.multiplicativeRest type)

/-- The factors of a product after its first ones. -/
def multiplicativeRest (lhs : ValueType) : Script (Option ValueType) := do
  let t ← token
  let some op ← operator Multiplicative.ofSymbol? | return some lhs
  let some rhs ← invoke .simple | return none
  let some (type, i) ← follow t.pos (op.judge lhs rhs) | return none
  emit [i]
  invoke (.multiplicativeRest type)

/-- A factor. -/
def simple : Script (Option ValueType) := within .simple id do
  let t ← token
  match ← operator Additive.ofStep? with
  | some op =>
    let some x ← invoke .primary | return none
    let some (name, slot) ← stepTarget x t.pos | return none
    emitFor name (op.step x.type slot)
    return some x.type
  | none =>
    match ← operator Unary.ofSymbol? with
    | some op =>
      if op = .neg then return operandType (← invoke (.signed true))
      else
        let some x ← invoke .primary | return none
        emit [.unary op]
        return some x.type
    | none =>
      let some x ← invoke .primary | return none
      let t ← token
      let some op ← operator Additive.ofStep? | return some x.type
      let some (name, slot) ← stepTarget x t.pos | return none
      emitFor name (.load slot :: op.step x.type slot ++ [.pop])
      return some x.type

/-- What follows a sign. -/
def signed (negative : Bool) : Script (Option Stateful.Operand) := within .signed operandType do
  let t ← token
  match t.kind.signedLiteral? negative with
  | some (type, i) =>
    emit [i]
    advance
    return some ⟨type, none⟩
  | none =>
    let some x ← invoke .primary | return none
    if negative then
      emit [.unary .neg]
      return some ⟨x.type, none⟩
    else return some x

/-- An operand. -/
def primary : Script (Option Stateful.Operand) := within .primary operandType do
  let t ← token
  match t.kind.primaryLead with
  | .parenthesis =>
    advance
    let some type ← invoke .expression | return none
    let some _ ← expect ")" | return none
    return some ⟨type, none⟩
  | .pointer symbol =>
    advance
    let some (name, _) ← identifier | return none
    fail .error t.pos (.pointer symbol name)
  | .sign negative =>
    advance
    invoke (.signed negative)
  | .name name =>
    advance
    invoke (.named name t.pos)
  | .other =>
    match t.kind.literal? with
    | some (type, i) =>
      emit [i]
      advance
      return some ⟨type, none⟩
    | none => unexpected .expression

/-- The argument of a function, with the parentheses around it. -/
def argument (name : String) (pos : Position) (signature : Signature) : Script (Option Unit) := do
  if ← equal "(" then
    let t ← token
    if t.kind.startsExpression then
      let some given ← invoke .expression | return none
      let some _ ← coerce .argument signature.param given t.pos | return none
      expect ")"
    else fail .error t.pos (.missingArgument name signature.param)
  else fail .error pos (.functionAsValue name)

/-- What follows the name of a function. -/
def call (name : String) (pos : Position) (link : String) (signature : Signature) :
    Script (Option Stateful.Operand) := within .call operandType do
  let some _ ← argument name pos signature | return none
  emitFor ⟨name, pos⟩ [.call link]
  return some ⟨signature.ret, none⟩

/-- What follows the operator of an assignment, which stands at `opPos`. -/
def assignment (name : String) (pos : Position) (op : Assignment) (type : ValueType) (slot : Nat)
    (opPos : Position) : Script (Option Stateful.Operand) := within .assignment operandType do
  let t ← token
  emitFor ⟨name, pos⟩ (op.preload slot)
  let some value ← invoke .expression | return none
  let some (result, code) ← follow opPos (op.judge type value) | return none
  emit code
  let some _ ← coerce .assignment type result t.pos | return none
  emitFor ⟨name, pos⟩ [.store slot]
  return some ⟨type, none⟩

/-- What follows a name in an expression. -/
def named (name : String) (pos : Position) : Script (Option Stateful.Operand) :=
  within .named operandType do
    let symbol ← lookup name
    let st ← state
    match symbol.map Symbol.meaning with
    | none => fail .error pos (.undeclared name)
    | some (.type _) => fail .error pos (.typeAsValue name)
    | some (.function link signature) => call name pos link signature
    | some (.localVar type slot frame) =>
      if frame ≠ st.returns.length then fail .error pos (.foreignFrame name)
      else
        let t ← token
        match ← operator Assignment.ofSymbol? with
        | some op => assignment name pos op type slot t.pos
        | none =>
          emitFor ⟨name, pos⟩ [.load slot]
          return some ⟨type, some (⟨name, pos⟩, slot)⟩

/-- What is in the parentheses behind `if` and `while`. -/
def condition : Script (Option Unit) := do
  let some _ ← expect "(" | return none
  let t ← token
  let some type ← invoke .expression | return none
  if type.isCondition then expect ")" else fail .error t.pos (.badCondition type)

/-- What follows `break` or `continue`. -/
def jumpStatement (keyword : String) (target : Option Nat) (pos : Position) :
    Script (Option Unit) :=
  match target with
  | none => fail .error pos (.outsideLoop keyword)
  | some label => do
    let some _ ← expect ";" | return none
    emit [.jump label]
    return some ()

/-- What follows `return`. -/
def returnStatement (pos : Position) : Script (Option Unit) := do
  let st ← state
  let t ← token
  if t.kind.startsExpression then
    let some given ← invoke .expression | return none
    match st.returns.head? with
    | some expected =>
      let some _ ← coerce .returnValue expected given t.pos | return none
      emit [.ret]
      expect ";"
    | none =>
      emit [.ret]
      expect ";"
  else
    match st.returns.head? with
    | some expected => fail .error pos (.missingReturnValue expected)
    | none =>
      emit [.ret]
      expect ";"

/-- A statement that contains no other statement. -/
def simpleStatement : Script (Option Unit) := do
  let t ← token
  let st ← state
  if t.isKeyword "break" then
    advance
    jumpStatement "break" (st.loops.head?.map LoopTargets.exit) t.pos
  else if t.isKeyword "continue" then
    advance
    jumpStatement "continue" (st.loops.head?.map LoopTargets.next) t.pos
  else if t.isKeyword "return" then
    advance
    returnStatement t.pos
  else if t.isSymbol ";" then
    advance
    return some ()
  else if (← peekType).isSome then fail .error t.pos .lateDeclaration
  else if t.kind.startsExpression then
    let some _ ← invoke .expression | return none
    emit [.pop]
    expect ";"
  else unexpected .statement

/-- Refuses a name that the innermost scope binds already. -/
def checkFresh (name : String) (pos : Position) : Script (Option Unit) := do
  note (.query (.innermost name))
  let st ← state
  if st.scopes.bindsInnermost name then
    let _ ← lookup name
    act (redeclaration st.env name pos)
    invoke .synchronize
    return none
  else return some ()

/-- Gives a variable the next slot of the innermost function, and declares it. -/
def bindLocal (name : String) (type : ValueType) (pos : Position) : Script Unit := do
  let st ← state
  act [.code (.reserveLocal name type),
    .scope (.declare (st.env.localSymbol st.counters name type pos))]

/-- The parameter of a function, and the parenthesis behind it. -/
def parameter : Script (Option Parameter) := do
  let some type ← typeName | return none
  let some (name, pos) ← identifier | return none
  let some _ ← expect ")" | return none
  return some ⟨type, name, pos⟩

/-- Declares a function whose header was read, opens it, and enters a scope. -/
def openFunction (ret : ValueType) (name : String) (pos : Position) (p : Parameter) :
    Script Unit := do
  note (.header ⟨ret, name, pos, p⟩)
  let st ← state
  let link := st.counters.linkName name
  adjust fun st => { st with defined := name :: st.defined }
  act [.scope (.declare ⟨name, .function link ⟨p.type, ret⟩, some pos⟩),
    .code (.openFunction link ⟨p.type, ret⟩), .scope .enter]

/-- A block. -/
def compound : Script Bool := do
  let some _ ← expect "\x7b" | return false
  act [.scope .enter]
  invoke .declarations
  invoke .statements
  let closed ← expect "\x7d"
  act [.scope .leave]
  return closed.isSome

/-- What follows `if`. -/
def conditional : Script Bool := do
  let some _ ← condition | return false
  let st ← state
  let otherwise := st.draft.nextLabel
  act [.code .reserveLabel, .emit (.jumpUnless otherwise)]
  let _ ← invoke .statement
  if ← equalKeyword "else" then
    let st ← state
    let finish := st.draft.nextLabel
    act [.code .reserveLabel, .emit (.jump finish), .emit (.mark otherwise)]
    let _ ← invoke .statement
    emit [.mark finish]
    return true
  else
    emit [.mark otherwise]
    return true

/-- What is read inside of a loop. -/
def guarded (next exit : Nat) : Script Bool := do
  let some _ ← condition | return false
  emit [.jumpUnless exit]
  let _ ← invoke .statement
  emit [.jump next]
  return true

/-- What follows `while`. -/
def loop : Script Bool := do
  let st ← state
  let next := st.draft.nextLabel
  act [.code .reserveLabel]
  let st ← state
  let exit := st.draft.nextLabel
  act [.code .reserveLabel]
  adjust (·.enterLoop ⟨next, exit⟩)
  emit [.mark next]
  let complete ← guarded next exit
  adjust State.leaveLoop
  emit [.mark exit]
  return complete

/-- A statement, and whether it was read to its end. -/
def statement : Script Bool := within .statement (fun _ => none) do
  let t ← token
  if t.isSymbol "\x7b" then compound
  else if t.isKeyword "if" then
    advance
    conditional
  else if t.isKeyword "while" then
    advance
    loop
  else return (← simpleStatement).isSome

/-- Statements up to the end of a block. -/
def statements : Script Unit := do
  let t ← token
  if t.isSymbol "\x7d" then return ()
  else if t.isEof then return ()
  else
    let _ ← invoke .statement
    invoke .statements

/-- The declarations at the beginning of a block. -/
def declarations : Script Unit := do
  if (← peekType).isSome then
    let _ ← invoke .declaration
    invoke .declarations
  else return ()

/-- What follows the opening parenthesis in the definition of a function. -/
def definition (ret : ValueType) (name : String) (pos : Position) : Script Unit := do
  let some p ← parameter | return ()
  let st ← state
  openFunction ret name pos p
  adjust fun st => { st with loops := [], returns := ret :: st.returns }
  bindLocal p.name p.type p.pos
  let _ ← compound
  adjust fun ended => { ended with loops := st.loops, returns := ended.returns.tail }
  act [.scope .leave, .code .closeFunction]

/-- A declaration of a variable or of a function. -/
def declaration : Script Unit := within .declaration (fun _ => none) do
  let some type ← typeName | return ()
  let some (name, pos) ← identifier | return ()
  let some _ ← checkFresh name pos | return ()
  if ← equal "(" then definition type name pos
  else
    bindLocal name type pos
    let _ ← expect ";"
    return ()

/-- Statements up to the end of the input. -/
def program : Script Unit := do
  let t ← token
  if t.isEof then return ()
  else
    let _ ← invoke .statement
    invoke .program

/-- Reads a whole program, and says whether it is accepted. -/
def parse : Script Bool := do
  act (ValueType.primitives.map fun (name, type) => .scope (.bindBase name type))
  invoke .program
  note (.query .errorCount)
  let st ← state
  let t ← token
  return Diagnostic.errorCount st.reports = 0 ∧ t.isEof

end Script

/-- The script of a routine. -/
def Routine.text {α : Type} : Routine α → Script α
  | synchronize => Script.synchronize
  | expression => Script.expression
  | additive => Script.additive
  | additiveRest lhs => Script.additiveRest lhs
  | multiplicative => Script.multiplicative
  | multiplicativeRest lhs => Script.multiplicativeRest lhs
  | simple => Script.simple
  | signed negative => Script.signed negative
  | primary => Script.primary
  | named name pos => Script.named name pos
  | statement => Script.statement
  | statements => Script.statements
  | declarations => Script.declarations
  | declaration => Script.declaration
  | program => Script.program

/-- A script runs to its end on a session: it yields a value and leaves a session. -/
inductive Script.Runs : {α : Type} → Script α → Session → α → Session → Prop
  | done {α : Type} (a : α) (x : Session) : Runs (.done a) x a x
  | step {α β : Type} {f : Session → β × Session} {next : β → Script α} {x y : Session} {a : α}
    (rest : Runs (next (f x).1) (f x).2 a y) : Runs (.step f next) x a y
  | calls {α β : Type} {routine : Routine β} {next : β → Script α} {x y z : Session} {b : β} {a : α}
    (inner : Runs routine.text x b y) (rest : Runs (next b) y a z) :
    Runs (.calls routine next) x a z

namespace Script.Runs

variable {α β : Type} {x y z : Session}

theorem bind {m : Script α} {a : α} (hm : m.Runs x a y) {k : α → Script β} {b : β}
    (hk : (k a).Runs y b z) : (m >>= k).Runs x b z := by
  induction hm with
  | done a x => exact hk
  | step _ ih => exact .step (ih hk)
  | calls inner _ _ ih => exact .calls inner (ih hk)

theorem invoke {routine : Routine α} {a : α} (h : routine.text.Runs x a y) :
    (Script.invoke routine).Runs x a y :=
  .calls h (.done a y)

theorem look (x : Session) : Script.look.Runs x x x := .step (.done x x)

theorem modify (f : Session → Session) (x : Session) : (Script.modify f).Runs x () (f x) :=
  .step (.done () (f x))

/-- **A script runs in one way only.** -/
theorem unique {m : Script α} {a a' : α} {y' : Session} (h : m.Runs x a y) (h' : m.Runs x a' y') :
    a = a' ∧ y = y' := by
  induction h generalizing y' with
  | done a x =>
    cases h'
    exact ⟨rfl, rfl⟩
  | step _ ih =>
    cases h' with
    | step rest => exact ih rest
  | calls _ _ ihInner ih =>
    cases h' with
    | calls inner rest =>
      obtain ⟨rfl, rfl⟩ := ihInner inner
      exact ih rest

end Script.Runs

/-- A whole session: the source is read, beginning with the given scopes. -/
def Session.Parses (structural : Severity) (scopes : Scopes) (source : Tokens) (accepted : Bool)
    (x : Session) : Prop :=
  Script.parse.Runs (.start source { structural, scopes }) accepted x

end OnePass
