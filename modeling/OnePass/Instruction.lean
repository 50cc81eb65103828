import OnePass.Double.Text
import OnePass.Operator
import OnePass.Text.Quoted

/-!
# Stack code

Instructions of a stack machine with numbered slots and labels. An instruction that yields a value
pushes it, an operator pops its operands and pushes the result; a store leaves the value where it is.
-/

namespace OnePass

/-- An instruction, or the mark of a label. -/
inductive Instruction where
  | mark (label : Nat)
  | jump (label : Nat)
  | jumpUnless (label : Nat)
  | ret
  | compare (op : Comparison)
  | additive (op : Additive)
  | multiplicative (op : Multiplicative)
  | unary (op : Unary)
  | concat
  | pushInt (value : Int32)
  | pushDouble (value : Double)
  | pushBool (value : Bool)
  | pushChar (value : Char)
  | pushString (value : String)
  | load (slot : Nat)
  | store (slot : Nat)
  | pop
  | call (link : String)
deriving DecidableEq

def labelText (label : Nat) : String := "L" ++ label.repr

def slotText (slot : Nat) : String := "%" ++ slot.repr

namespace Instruction

/-- The text of an instruction. -/
def text : Instruction → String
  | mark label => labelText label ++ ":"
  | jump label => "br " ++ labelText label
  | jumpUnless label => "brfalse " ++ labelText label
  | ret => "ret"
  | compare op => op.mnemonic
  | additive op => op.mnemonic
  | multiplicative op => op.mnemonic
  | unary op => op.mnemonic
  | concat => "concat"
  | pushInt value => "ldc.i4 " ++ value.toInt.repr
  | pushDouble value => "ldc.r8 " ++ value.text
  | pushBool value => "ldc.bool " ++ (if value then "true" else "false")
  | pushChar value => "ldc.char " ++ Quoted.char value
  | pushString value => "ldstr " ++ Quoted.string value
  | load slot => "ldloc " ++ slotText slot
  | store slot => "stloc " ++ slotText slot
  | pop => "pop"
  | call link => "call " ++ link

/-- The line of an instruction in a listing: all but marks are indented. -/
def line (i : Instruction) : String :=
  match i with
  | mark _ => i.text ++ "\n"
  | _ => "    " ++ i.text ++ "\n"

end Instruction

end OnePass
