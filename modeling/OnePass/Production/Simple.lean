import OnePass.Production.Expression

/-!
# Simple statements

The statements that contain no other statement: jumps, `return`, an expression, and nothing. What
begins no statement at all is reported here too.
-/

namespace OnePass

/-- What is in the parentheses behind `if` and `while`. -/
def condition (env : Env) (s : Tokens) : Attempt s Unit :=
  (expect env "(" s).andThen fun q _ _ =>
    (expression env q).andThen fun r _ type =>
      if type.isCondition then expect env ")" r
      else .fail .error q.current.pos (.badCondition type)

/-- What follows `break` or `continue`, which stands at `pos`. -/
def jumpStatement (env : Env) (keyword : String) (target : Option Nat) (pos : Position)
    (s : Tokens) : Attempt s Unit :=
  match target with
  | none => .fail .error pos (.outsideLoop keyword)
  | some label => (expect env ";" s).andThen fun _ _ _ => .emit [.jump label] ()

/-- What follows `return`, which stands at `pos`. Outside all functions a value is allowed and not
asked for. -/
def returnStatement (env : Env) (pos : Position) (s : Tokens) : Attempt s Unit :=
  if s.current.kind.startsExpression then
    (expression env s).andThen fun _ _ given =>
      (follow s.current.pos (match env.returns.head? with
        | some expected => ValueType.allow .returnValue expected given
        | none => .accepted ())).andThen fun r _ _ =>
          Run.after [.emit .ret] (expect env ";" r)
  else
    match env.returns.head? with
    | some expected => .fail .error pos (.missingReturnValue expected)
    | none => Run.after [.emit .ret] (expect env ";" s)

def expressionStatement (env : Env) (s : Tokens) : Attempt s Unit :=
  (expression env s).andThen fun r _ _ => Run.after [.emit .pop] (expect env ";" r)

/-- A statement that contains no other statement. -/
def simpleStatement (env : Env) (s : Tokens) : Attempt s Unit :=
  match s.uncons? with
  | none => .unexpected .statement
  | some (t, r) =>
    if t.isKeyword "break" then
      Run.reached r.reaches <|
        jumpStatement env "break" (env.loop.map LoopTargets.exit) t.pos r.stream
    else if t.isKeyword "continue" then
      Run.reached r.reaches <|
        jumpStatement env "continue" (env.loop.map LoopTargets.next) t.pos r.stream
    else if t.isKeyword "return" then Run.reached r.reaches <| returnStatement env t.pos r.stream
    else if t.isSymbol ";" then Run.reached r.reaches (.ok ())
    else if (env.typeNamed? t.kind).isSome then .fail .error s.current.pos .lateDeclaration
    else if t.kind.startsExpression then expressionStatement env s
    else .unexpected .statement

end OnePass
