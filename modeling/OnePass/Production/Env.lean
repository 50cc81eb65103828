import OnePass.Diagnostic
import OnePass.Scopes
import OnePass.Tokens

/-!
# Surroundings of a production

What a production knows of the text around it, and what it counts. The surroundings only change
inwards: a block adds scopes, a loop sets its targets, a function its return type. The counters go
on from one construct to the next, except that each function counts its own locals.
-/

namespace OnePass

/-- The labels that `continue` and `break` jump to. -/
structure LoopTargets where
  next : Nat
  exit : Nat

/-- The surroundings of a production. -/
structure Env where
  scopes : Scopes
  /-- The innermost loop within the innermost function. -/
  loop : Option LoopTargets := none
  /-- The return types of the functions around, innermost first. -/
  returns : List ValueType := []
  /-- The severity of a missing bracket or terminator. -/
  structural : Severity := .error

namespace Env

/-- The frame that variables belong to: how many functions are around. -/
def frame (env : Env) : Nat := env.returns.length

/-- The type that a token names. A word that is bound means what it is bound to; only an identifier
that is not bound is left to the host. -/
def typeNamed? (env : Env) : Token.Kind → Option ValueType
  | .keyword word => (env.scopes.find? word).bind Symbol.type?
  | .ident name =>
    match env.scopes.find? name with
    | some symbol => symbol.type?
    | none => env.scopes.host name
  | _ => none

def typeName? (env : Env) (s : Tokens) : Option (ValueType × s.Tail) :=
  s.uncons?.bind fun (t, r) => (env.typeNamed? t.kind).map (·, r)

end Env

/-- How many labels the program, and how many locals the function has so far, and the names of all
functions defined so far. -/
structure Counters where
  labels : Nat := 0
  locals : Nat := 0
  defined : List String := []

namespace Counters

def withLabel (c : Counters) : Counters := { c with labels := c.labels + 1 }

def withLocal (c : Counters) : Counters := { c with locals := c.locals + 1 }

/-- The name by which the code calls the next function of a name: the name itself for the first, and
then numbered. -/
def linkName (c : Counters) (name : String) : String :=
  match c.defined.count name with
  | 0 => name
  | n + 1 => name ++ "#" ++ (n + 1).repr

end Counters

end OnePass
