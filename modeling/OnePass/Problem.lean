import OnePass.Token.Basic
import OnePass.ValueType

/-!
# Problems

Everything that can be wrong with, or worth a warning in, a program, and how it is worded.
-/

namespace OnePass

/-- What the grammar asks for at some place. -/
inductive Wanted where
  | symbol (text : String)
  | identifier
  | typeName
  | statement
  | expression
deriving DecidableEq

/-- Where a value has to be of a given type. -/
inductive Destination where
  | assignment
  | argument
  | returnValue
deriving DecidableEq

/-- What a diagnostic is about. -/
inductive Problem where
  | unexpected (wanted : Wanted) (found : Token.Kind)
  | lateDeclaration
  | redeclared (name : String)
  | previousDeclaration (name : String)
  | undeclared (name : String)
  | foreignFrame (name : String)
  | typeAsValue (name : String)
  | functionAsValue (name : String)
  | missingArgument (name : String) (type : ValueType)
  | outsideLoop (keyword : String)
  | missingReturnValue (type : ValueType)
  | badCondition (type : ValueType)
  | incomparable (lhs rhs : ValueType)
  | badOperands (symbol : String) (lhs rhs : ValueType)
  | widenedOperands (symbol : String) (lhs rhs result : ValueType)
  | badValue (destination : Destination) (expected given : ValueType)
  | widenedValue (destination : Destination) (expected given : ValueType)
  | notSteppable (type : ValueType)
  | pointer (symbol name : String)
deriving DecidableEq

namespace Wanted

/-- How a wish is worded. -/
def text : Wanted → String
  | symbol text => "\"" ++ text ++ "\""
  | identifier => "an identifier"
  | typeName => "a type name"
  | statement => "a statement"
  | expression => "an expression"

end Wanted

namespace Destination

def text : Destination → String
  | assignment => "assignment"
  | argument => "argument"
  | returnValue => "return value"

end Destination

namespace Problem

def quote (s : String) : String := "'" ++ s ++ "'"

/-- How a problem is worded. -/
def message : Problem → String
  | unexpected wanted found =>
    "expected " ++ wanted.text ++ ", but got \"" ++ found.text ++ "\""
  | lateDeclaration => "declarations must precede statements in a block"
  | redeclared name => quote name ++ " is already declared in this scope"
  | previousDeclaration name => "previous declaration of " ++ quote name ++ " is here"
  | undeclared name => quote name ++ " is not declared"
  | foreignFrame name => quote name ++ " belongs to an enclosing function"
  | typeAsValue name => "type " ++ quote name ++ " cannot be used as a value"
  | functionAsValue name => "function " ++ quote name ++ " can only be called"
  | missingArgument name type =>
    quote name ++ " expects one argument of type " ++ quote type.text
  | outsideLoop keyword => quote keyword ++ " outside of a loop"
  | missingReturnValue type => "'return' needs a value of type " ++ quote type.text
  | badCondition type =>
    "condition must be of type 'bool' or 'int', found " ++ quote type.text
  | incomparable lhs rhs => "cannot compare " ++ quote lhs.text ++ " with " ++ quote rhs.text
  | badOperands symbol lhs rhs =>
    "operator " ++ quote symbol ++ " cannot be applied to " ++ quote lhs.text ++ " and " ++
      quote rhs.text
  | widenedOperands symbol lhs rhs result =>
    "operator " ++ quote symbol ++ " widens " ++ quote lhs.text ++ " and " ++ quote rhs.text ++
      " to " ++ quote result.text ++ "; explicit conversion expected"
  | badValue destination expected given =>
    destination.text ++ " has type " ++ quote given.text ++ ", expected " ++ quote expected.text
  | widenedValue destination expected given =>
    destination.text ++ " widens " ++ quote given.text ++ " to " ++ quote expected.text ++
      "; explicit conversion expected"
  | notSteppable type =>
    "increment and decrement need a numeric variable, found " ++ quote type.text
  | pointer symbol name => quote (symbol ++ name) ++ ": pointer operations are not supported"

end Problem

end OnePass
