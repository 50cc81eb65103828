/-!
# Operators

The four families of operators: comparisons, additive and multiplicative operators, and unary ones.
Each has a spelling in the source and a mnemonic in stack code. The families overlap in spelling
only where the grammar keeps them apart.
-/

namespace OnePass

inductive Comparison where
  | lt | le | eq | ne | ge | gt
deriving DecidableEq

inductive Additive where
  | add | sub | bitOr | or
deriving DecidableEq

inductive Multiplicative where
  | mul | div | rem | bitAnd | and
deriving DecidableEq

inductive Unary where
  | neg | bitNot | not
deriving DecidableEq

namespace Comparison

def all : List Comparison := [lt, le, eq, ne, ge, gt]

def symbol : Comparison → String
  | lt => "<" | le => "<=" | eq => "==" | ne => "!=" | ge => ">=" | gt => ">"

def mnemonic : Comparison → String
  | lt => "clt" | le => "cle" | eq => "ceq" | ne => "cne" | ge => "cge" | gt => "cgt"

def ofSymbol? (s : String) : Option Comparison := all.find? (·.symbol = s)

end Comparison

namespace Additive

def all : List Additive := [add, sub, bitOr, or]

def symbol : Additive → String
  | add => "+" | sub => "-" | bitOr => "|" | or => "||"

def mnemonic : Additive → String
  | add => "add" | sub => "sub" | bitOr => "or" | or => "lor"

def ofSymbol? (s : String) : Option Additive := all.find? (·.symbol = s)

/-- The operator of an increment or decrement with a spelling. -/
def ofStep? (s : String) : Option Additive :=
  if s = "++" then some add else if s = "--" then some sub else none

end Additive

namespace Multiplicative

def all : List Multiplicative := [mul, div, rem, bitAnd, and]

def symbol : Multiplicative → String
  | mul => "*" | div => "/" | rem => "%" | bitAnd => "&" | and => "&&"

def mnemonic : Multiplicative → String
  | mul => "mul" | div => "div" | rem => "rem" | bitAnd => "and" | and => "land"

def ofSymbol? (s : String) : Option Multiplicative := all.find? (·.symbol = s)

end Multiplicative

namespace Unary

def all : List Unary := [neg, bitNot, not]

def symbol : Unary → String
  | neg => "-" | bitNot => "~" | not => "!"

def mnemonic : Unary → String
  | neg => "neg" | bitNot => "not" | not => "lnot"

def ofSymbol? (s : String) : Option Unary := all.find? (·.symbol = s)

end Unary

/-- What an assignment does with the variable's old value: nothing, or it is the left operand. -/
inductive Assignment where
  | plain
  | additive (op : Additive)
  | multiplicative (op : Multiplicative)
deriving DecidableEq

/-- The assignment with a spelling. -/
def Assignment.ofSymbol? (s : String) : Option Assignment :=
  if s = "=" then some .plain
  else if s = "+=" then some (.additive .add)
  else if s = "-=" then some (.additive .sub)
  else if s = "*=" then some (.multiplicative .mul)
  else if s = "/=" then some (.multiplicative .div)
  else if s = "%=" then some (.multiplicative .rem)
  else none

end OnePass
