/-!
# Value types

The five primitive types and the types that a host program names, with the two rules by which types
meet: operands of arithmetic, and a value where a type is expected. In both an `int` may stand for a
`double`; whether it had to is part of the answer.
-/

namespace OnePass

/-- The type of a value. A host type is never a primitive one, also if it has its name. -/
inductive ValueType where
  | int
  | bool
  | char
  | string
  | double
  | named (name : String)
deriving DecidableEq

/-- How types agree: as they are, or after an `int` was widened. The payload is the type of the
result. -/
inductive Agreement where
  | exact (type : ValueType)
  | widened (type : ValueType)
deriving DecidableEq

namespace ValueType

/-- The name of a type. -/
def text : ValueType → String
  | int => "int"
  | bool => "bool"
  | char => "char"
  | string => "string"
  | double => "double"
  | named name => name

/-- The names of the primitive types, in the order in which they are bound. -/
def primitives : List (String × ValueType) :=
  [("int", int), ("bool", bool), ("char", char), ("string", string), ("double", double)]

def isNumeric : ValueType → Bool
  | int | double => true
  | _ => false

def isCondition : ValueType → Bool
  | bool | int => true
  | _ => false

/-- The operands of arithmetic. -/
def arithmetic? : ValueType → ValueType → Option Agreement
  | int, int => some (.exact int)
  | double, double => some (.exact double)
  | int, double | double, int => some (.widened double)
  | _, _ => none

/-- A value of type `given` where `expected` is expected. -/
def accept? (expected given : ValueType) : Option Agreement :=
  if expected = given then some (.exact expected)
  else if expected = double ∧ given = int then some (.widened double)
  else none

end ValueType

/-- The type of a function: every function has one parameter and returns a value. -/
structure Signature where
  param : ValueType
  ret : ValueType
deriving DecidableEq

/-- The form `ret(param)`. -/
def Signature.text (s : Signature) : String :=
  s.ret.text ++ "(" ++ s.param.text ++ ")"

end OnePass
