import OnePass.Production.Progress

/-!
# Statements

The grammar of statements, blocks and declarations. A failure inside a statement ends that statement
only: the sequence around it goes on where the stream was resumed.

    program     = { statement }
    statement   = block | conditional | loop | simple statement
    block       = { declarations statements }
    declaration = type name ; | type name ( type name ) block
    conditional = if condition statement [ else statement ]
    loop        = while condition statement

A statement hands on the counters only. A declaration hands on the scopes as well, to the rest of
its block; what is declared inside a block or a function body stays there.
-/

namespace OnePass

/-- What a statement hands on, and whether it was read to its end. -/
structure Outcome where
  counters : Counters
  complete : Bool

/-- What a declaration hands on. -/
structure Declared where
  scopes : Scopes
  counters : Counters

/-- The symbol of a new variable: it gets the next slot of the function around it. -/
def Env.localSymbol (env : Env) (c : Counters) (name : String) (type : ValueType)
    (pos : Position) : Symbol :=
  ⟨name, .localVar type c.locals env.frame, some pos⟩

/-- The reports of a second declaration of a name in one scope. -/
def redeclaration (env : Env) (name : String) (pos : Position) : List Event :=
  .report .error pos (.redeclared name) ::
    match (env.scopes.find? name).bind Symbol.declared with
    | some previous => [.report .note previous (.previousDeclaration name)]
    | none => []

/-- A declared parameter: its type, its name and where it stands. -/
structure Parameter where
  type : ValueType
  name : String
  pos : Position

/-- The parameter of a function, and the parenthesis behind it. -/
def parameter (env : Env) (s : Tokens) : Attempt s Parameter :=
  (typeName env s).andThen fun q _ type =>
    (identifier q).andThen fun r _ (name, pos) =>
      (expect env ")" r).andThen fun _ _ _ => .ok ⟨type, name, pos⟩

mutual

/-- A statement. It reads at least one token if there is one. -/
def statement (env : Env) (c : Counters) (s : Tokens) :
    { x : Run s Outcome // s.atEnd = false → x.rest.left < s.left } :=
  match s.symbol? "\x7b" with
  | some ⟨q, reaches, shorter⟩ =>
    ⟨Run.reached reaches (block env c q), fun _ => Run.left_rest_reached_lt ⟨q, reaches, shorter⟩ _⟩
  | none =>
    match s.keyword? "if" with
    | some ⟨q, reaches, shorter⟩ =>
      ⟨Run.reached reaches (conditional env c q),
        fun _ => Run.left_rest_reached_lt ⟨q, reaches, shorter⟩ _⟩
    | none =>
      match s.keyword? "while" with
      | some ⟨q, reaches, shorter⟩ =>
        ⟨Run.reached reaches (loop env c q),
          fun _ => Run.left_rest_reached_lt ⟨q, reaches, shorter⟩ _⟩
      | none =>
        ⟨(simpleStatement env s).bind fun _ _ v => .pure ⟨c, v.isSome⟩,
          fun h => Nat.lt_of_le_of_lt (Run.left_rest_bind_le _ _) (left_rest_simpleStatement_lt env h)⟩
termination_by 8 * s.left + 1

/-- Statements up to the end of a block. -/
def statements (env : Env) (c : Counters) (s : Tokens) : Run s Counters :=
  if s.current.isSymbol "\x7d" then .pure c
  else if h : s.atEnd then .pure c
  else
    let x := statement env c s
    x.1.bindShorter (x.2 (by simpa using h)) fun r _ o => statements env o.counters r
termination_by 8 * s.left + 2

/-- What follows the opening brace of a block. -/
def block (env : Env) (c : Counters) (s : Tokens) : Run s Outcome :=
  Run.after [.scope .enter] <|
    (declarations { env with scopes := env.scopes.enter } c s).bind fun q _ d =>
      (statements { env with scopes := d.scopes } d.counters q).bind fun r _ c =>
        (expect env "\x7d" r).bind fun _ _ v =>
          Run.after [.scope .leave] (.pure ⟨c, v.isSome⟩)
termination_by 8 * s.left + 4

/-- The declarations at the beginning of a block. -/
def declarations (env : Env) (c : Counters) (s : Tokens) : Run s Declared :=
  match env.typeName? s with
  | none => .pure ⟨env.scopes, c⟩
  | some (type, ⟨q, reaches, _⟩) =>
    Run.reached reaches <| (declaration env c type q).bind fun r _ d =>
      declarations { env with scopes := d.scopes } d.counters r
termination_by 8 * s.left + 3

/-- What follows the type in a declaration. -/
def declaration (env : Env) (c : Counters) (type : ValueType) (s : Tokens) : Run s Declared :=
  (identifier s).bind fun q _ v =>
    match v with
    | none => .pure ⟨env.scopes, c⟩
    | some (name, pos) =>
      if env.scopes.bindsInnermost name then
        Run.recover (redeclaration env name pos) ⟨env.scopes, c⟩
      else
        match q.symbol? "(" with
        | some ⟨r, reaches, _⟩ => Run.reached reaches <| definition env c type name pos r
        | none =>
          let symbol := env.localSymbol c name type pos
          Run.after [.code (.reserveLocal name type), .scope (.declare symbol)] <|
            (expect env ";" q).bind fun _ _ _ =>
              .pure ⟨env.scopes.declare symbol, c.withLocal⟩
termination_by 8 * s.left + 1

/-- What follows the opening parenthesis in the definition of a function. The function is known in
its own body, where its parameter is the first local; loops around it are not. -/
def definition (env : Env) (c : Counters) (ret : ValueType) (name : String) (pos : Position)
    (s : Tokens) : Run s Declared :=
  (parameter env s).bind fun q _ v =>
    match v with
    | none => .pure ⟨env.scopes, c⟩
    | some p =>
      let signature : Signature := ⟨p.type, ret⟩
      let link := c.linkName name
      let function : Symbol := ⟨name, .function link signature, some pos⟩
      let scopes := env.scopes.declare function
      let inside : Env :=
        { env with scopes := scopes.enter, loop := none, returns := ret :: env.returns }
      let start : Counters := { c with locals := 0, defined := name :: c.defined }
      let symbol := inside.localSymbol start p.name p.type p.pos
      Run.after
        [.scope (.declare function), .code (.openFunction link signature), .scope .enter,
          .code (.reserveLocal p.name p.type), .scope (.declare symbol)] <|
        (body { inside with scopes := inside.scopes.declare symbol } start.withLocal q).bind
          fun _ _ o =>
            Run.after [.scope .leave, .code .closeFunction]
              (.pure ⟨scopes, { o.counters with locals := c.locals }⟩)
termination_by 8 * s.left + 6

/-- The body of a function: a block. -/
def body (env : Env) (c : Counters) (s : Tokens) : Run s Outcome :=
  match s.symbol? "\x7b" with
  | some ⟨q, reaches, _⟩ => Run.reached reaches <| block env c q
  | none =>
    (expect env "\x7b" s).bind fun _ _ v => .pure ⟨c, v.isSome⟩
termination_by 8 * s.left + 5

/-- What follows `if`. -/
def conditional (env : Env) (c : Counters) (s : Tokens) : Run s Outcome :=
  (condition env s).bind fun q _ v =>
    match v with
    | none => .pure ⟨c, false⟩
    | some () =>
      let otherwise := c.labels
      Run.after [.code .reserveLabel, .emit (.jumpUnless otherwise)] <|
        (statement env c.withLabel q).1.bind fun r _ o =>
          match r.keyword? "else" with
          | none => Run.after [.emit (.mark otherwise)] (.pure ⟨o.counters, true⟩)
          | some ⟨p, reaches, _⟩ =>
            let finish := o.counters.labels
            Run.after [.code .reserveLabel, .emit (.jump finish), .emit (.mark otherwise)] <|
              Run.reached reaches <|
                (statement env o.counters.withLabel p).1.bind fun _ _ o =>
                  Run.after [.emit (.mark finish)] (.pure ⟨o.counters, true⟩)
termination_by 8 * s.left + 2

/-- What follows `while`. Both labels are marked also if the condition fails. -/
def loop (env : Env) (c : Counters) (s : Tokens) : Run s Outcome :=
  let next := c.labels
  let exit := c.labels + 1
  let c := c.withLabel.withLabel
  Run.after [.code .reserveLabel, .code .reserveLabel, .emit (.mark next)] <|
    (condition env s).bind fun q _ v =>
      match v with
      | none => Run.after [.emit (.mark exit)] (.pure ⟨c, false⟩)
      | some () =>
        Run.after [.emit (.jumpUnless exit)] <|
          (statement { env with loop := some ⟨next, exit⟩ } c q).1.bind fun _ _ o =>
            Run.after [.emit (.jump next), .emit (.mark exit)] (.pure ⟨o.counters, true⟩)
termination_by 8 * s.left + 2

end

/-- Statements up to the end of the input. -/
def program (env : Env) (c : Counters) (s : Tokens) : Run s Counters :=
  if h : s.atEnd then .pure c
  else
    let x := statement env c s
    x.1.bindShorter (x.2 (by simpa using h)) fun r _ o => program env o.counters r
termination_by s.left

end OnePass
