import OnePass.Instruction
import OnePass.ValueType

/-!
# Listings

A finished program: the bodies of its functions, the entry first. The entry holds the statements
that stand outside all functions and has no signature.
-/

namespace OnePass

/-- A function: its locals in the order of their slots, and its code. -/
structure Body where
  name : String
  signature : Option Signature
  locals : Array (String × ValueType) := #[]
  code : Array Instruction := #[]
deriving DecidableEq

/-- The name of the body that holds the statements outside all functions. -/
def entryName : String := "main"

namespace Body

def header (b : Body) : String :=
  match b.signature with
  | some s => b.name ++ "(" ++ s.param.text ++ ") -> " ++ s.ret.text ++ ":\n"
  | none => b.name ++ ":\n"

def localLine (slot : Nat) (name : String) (type : ValueType) : String :=
  "    .local " ++ slotText slot ++ " " ++ name ++ ": " ++ type.text ++ "\n"

def lines (b : Body) : List String :=
  b.header :: b.locals.toList.mapIdx (fun slot (name, type) => localLine slot name type) ++
    b.code.toList.map Instruction.line

end Body

structure Listing where
  bodies : List Body
deriving DecidableEq

namespace Listing

def find? (l : Listing) (name : String) : Option Body := l.bodies.find? (·.name = name)

/-- The first body with the name of the entry. -/
def entry? (l : Listing) : Option Body := l.find? entryName

def text (l : Listing) : String := String.join (l.bodies.flatMap Body.lines)

end Listing

end OnePass
