import OnePass.Production.Basic

/-!
# Expressions

The grammar of expressions, read from left to right with one token of foresight. Code is given out
as soon as an operand or an operator with its operands is known, so there is no tree: a production
yields the type of what its code leaves on the stack.

    expression     = additive [ comparison additive ]
    additive       = [ sign ] multiplicative { additive operator multiplicative }
    multiplicative = simple { multiplicative operator simple }
    simple         = step primary | unary operator primary | primary [ step ]
    primary        = literal | sign primary | ( expression )
                   | name | name assignment expression | name ( expression )

Every production ends because it calls itself only with fewer tokens left; those that begin with
another production are ordered by a rank.
-/

namespace OnePass

/-- What a primary leaves on the stack: its type, and its slot if it was just loaded from there. -/
structure Operand where
  type : ValueType
  place : Option Nat := none

/-- The slot of an operand that a step may change. -/
def Operand.stepTarget {s : Tokens} (x : Operand) (pos : Position) : Attempt s Nat :=
  match x.place with
  | some slot => if x.type.isNumeric then .ok slot else .fail .error pos (.notSteppable x.type)
  | none => .fail .error pos (.notSteppable x.type)

/-- How a primary goes on, by its first token. -/
inductive PrimaryLead where
  | parenthesis
  | pointer (symbol : String)
  | sign (negative : Bool)
  | name (name : String)
  | other

/-- The lead of a primary that begins with a token. -/
def Token.Kind.primaryLead : Token.Kind → PrimaryLead
  | .symbol text =>
    if text = "(" then .parenthesis
    else if text = "*" ∨ text = "&" then .pointer text
    else if text = "+" then .sign false
    else if text = "-" then .sign true
    else .other
  | .ident name => .name name
  | _ => .other

/-- The sign in front of an additive expression, if there is one, and what follows. -/
def Tokens.sign? (s : Tokens) : Option (Bool × s.Tail) :=
  s.operator? fun text => if text = "-" then some true else if text = "+" then some false else none

mutual

/-- An expression: at most one comparison, of two sides of the same type. -/
def expression (env : Env) (s : Tokens) : Attempt s ValueType :=
  (additive env s).andThen fun r _ lhs =>
    match r.operator? Comparison.ofSymbol? with
    | none => .ok lhs
    | some (op, ⟨q, reaches, _⟩) =>
      Run.reached reaches <| (additive env q).andThen fun _ _ rhs =>
        if lhs = rhs then .emit [.compare op] .bool
        else .fail .error r.current.pos (.incomparable lhs rhs)
termination_by 16 * s.left + 9

/-- A sum. A sign in front of it belongs to its first term as a whole. -/
def additive (env : Env) (s : Tokens) : Attempt s ValueType :=
  match s.sign? with
  | none => (multiplicative env s).andThen fun r _ type => additiveRest env type r
  | some (negative, ⟨q, reaches, _⟩) =>
    Run.reached reaches <| (multiplicative env q).andThen fun r _ type =>
      Run.after (if negative then [.emit (.unary .neg)] else []) <| additiveRest env type r
termination_by 16 * s.left + 8

/-- The terms of a sum after its first ones, whose type is `lhs`. -/
def additiveRest (env : Env) (lhs : ValueType) (s : Tokens) : Attempt s ValueType :=
  match s.operator? Additive.ofSymbol? with
  | none => .ok lhs
  | some (op, ⟨q, reaches, _⟩) =>
    Run.reached reaches <| (multiplicative env q).andThen fun _ _ rhs =>
      (follow s.current.pos (op.judge lhs rhs)).andThen fun r _ (type, i) =>
        Run.after [.emit i] <| additiveRest env type r
termination_by 16 * s.left + 7

def multiplicative (env : Env) (s : Tokens) : Attempt s ValueType :=
  (simple env s).andThen fun r _ type => multiplicativeRest env type r
termination_by 16 * s.left + 6

/-- The factors of a product after its first ones, whose type is `lhs`. -/
def multiplicativeRest (env : Env) (lhs : ValueType) (s : Tokens) : Attempt s ValueType :=
  match s.operator? Multiplicative.ofSymbol? with
  | none => .ok lhs
  | some (op, ⟨q, reaches, _⟩) =>
    Run.reached reaches <| (simple env q).andThen fun _ _ rhs =>
      (follow s.current.pos (op.judge lhs rhs)).andThen fun r _ (type, i) =>
        Run.after [.emit i] <| multiplicativeRest env type r
termination_by 16 * s.left + 5

/-- A factor: a primary with at most one operator before or one step behind it. A step behind it
works on a second copy, so that the old value stays. -/
def simple (env : Env) (s : Tokens) : Attempt s ValueType :=
  match s.operator? Additive.ofStep? with
  | some (op, ⟨q, reaches, _⟩) =>
    Run.reached reaches <| (primary env q).andThen fun _ _ x =>
      (x.stepTarget s.current.pos).andThen fun _ _ slot => .emit (op.step x.type slot) x.type
  | none =>
    match s.operator? Unary.ofSymbol? with
    | some (op, ⟨q, reaches, _⟩) =>
      Run.reached reaches <|
        if op = .neg then (signed env true q).map Operand.type
        else (primary env q).andThen fun _ _ x => .emit [.unary op] x.type
    | none =>
      (primary env s).andThen fun r _ x =>
        match r.operator? Additive.ofStep? with
        | none => .ok x.type
        | some (op, ⟨_, reaches, _⟩) =>
          Run.reached reaches <| (x.stepTarget r.current.pos).andThen fun _ _ slot =>
            .emit (.load slot :: op.step x.type slot ++ [.pop]) x.type
termination_by 16 * s.left + 4

/-- What follows a sign: a numeric literal takes the sign in, and anything else is negated. -/
def signed (env : Env) (negative : Bool) (s : Tokens) : Attempt s Operand :=
  match s.uncons?.bind fun (t, r) => (t.kind.signedLiteral? negative).map (·, r) with
  | some ((type, i), r) => Run.reached r.reaches (.emit [i] ⟨type, none⟩)
  | none =>
    (primary env s).andThen fun _ _ x =>
      if negative then .emit [.unary .neg] ⟨x.type, none⟩ else .ok x
termination_by 16 * s.left + 3

/-- An operand. -/
def primary (env : Env) (s : Tokens) : Attempt s Operand :=
  match s.uncons? with
  | none => .unexpected .expression
  | some (t, ⟨q, reaches, _⟩) =>
    match t.kind.primaryLead with
    | .parenthesis =>
      Run.reached reaches <| (expression env q).andThen fun r _ type =>
        (expect env ")" r).andThen fun _ _ _ => .ok ⟨type, none⟩
    | .pointer symbol =>
      Run.reached reaches <| (identifier q).andThen fun _ _ (name, _) =>
        .fail .error t.pos (.pointer symbol name)
    | .sign negative => Run.reached reaches <| signed env negative q
    | .name name => Run.reached reaches <| named env name t.pos q
    | .other =>
      match t.kind.literal? with
      | some (type, i) => Run.reached reaches (.emit [i] ⟨type, none⟩)
      | none => .unexpected .expression
termination_by 16 * s.left + 2

/-- What follows a name in an expression: a variable is loaded or assigned, a function called. -/
def named (env : Env) (name : String) (pos : Position) (s : Tokens) : Attempt s Operand :=
  match (env.scopes.find? name).map Symbol.meaning with
  | none => .fail .error pos (.undeclared name)
  | some (.type _) => .fail .error pos (.typeAsValue name)
  | some (.function link signature) =>
    match s.symbol? "(" with
    | none => .fail .error pos (.functionAsValue name)
    | some ⟨q, reaches, _⟩ =>
      Run.reached reaches <|
        if q.current.kind.startsExpression then
          (expression env q).andThen fun _ _ given =>
            (follow q.current.pos (ValueType.allow .argument signature.param given)).andThen
              fun r _ _ => (expect env ")" r).andThen fun _ _ _ =>
                .emit [.call link] ⟨signature.ret, none⟩
        else .fail .error q.current.pos (.missingArgument name signature.param)
  | some (.localVar type slot frame) =>
    if frame ≠ env.frame then .fail .error pos (.foreignFrame name)
    else
      match s.operator? Assignment.ofSymbol? with
      | none => .emit [.load slot] ⟨type, some slot⟩
      | some (op, ⟨q, reaches, _⟩) =>
        Run.reached reaches <| Run.after (Event.emits (op.preload slot)) <|
          (expression env q).andThen fun _ _ value =>
            (follow s.current.pos (op.judge type value)).andThen fun _ _ (result, code) =>
              Run.after (Event.emits code) <|
                (follow q.current.pos (ValueType.allow .assignment type result)).andThen
                  fun _ _ _ => .emit [.store slot] ⟨type, none⟩
termination_by 16 * s.left + 1

end

end OnePass
