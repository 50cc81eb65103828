import OnePass.Listing

/-!
# Drafts

A program under construction. Code goes to the innermost function that is open; function definitions
nest, and the entry is open from beginning to end. Slots are numbered within a function and labels
throughout the program. A draft is finished into a listing once every label that was reserved is
marked exactly once.
-/

namespace OnePass

/-- The open functions inside the entry, innermost first, the entry, the closed functions, latest
first, and for each reserved label how often it is marked. -/
structure Draft where
  opened : List Body := []
  entry : Body := { name := entryName, signature := none }
  closed : List Body := []
  marks : Array Nat := #[]

/-- A step in the construction of a program. -/
inductive Draft.Command where
  | reserveLocal (name : String) (type : ValueType)
  | reserveLabel
  | emit (i : Instruction)
  | openFunction (link : String) (signature : Signature)
  | closeFunction
deriving DecidableEq

inductive Draft.Fault where
  | unmarked (label : Nat)
  | remarked (label : Nat)
deriving DecidableEq

namespace Draft

def Fault.message : Fault → String
  | .unmarked label => "label " ++ labelText label ++ " was allocated but never marked"
  | .remarked label => "label " ++ labelText label ++ " was marked more than once"

def current (d : Draft) : Body := d.opened.headD d.entry

def modifyCurrent (d : Draft) (f : Body → Body) : Draft :=
  match d.opened with
  | [] => { d with entry := f d.entry }
  | body :: outer => { d with opened := f body :: outer }

def nextSlot (d : Draft) : Nat := d.current.locals.size

def nextLabel (d : Draft) : Nat := d.marks.size

def reserveLocal (d : Draft) (name : String) (type : ValueType) : Draft :=
  d.modifyCurrent fun b => { b with locals := b.locals.push (name, type) }

def reserveLabel (d : Draft) : Draft := { d with marks := d.marks.push 0 }

/-- Counts a mark of a label; labels that were never reserved are not counted. -/
def countMark (d : Draft) (label : Nat) : Draft :=
  { d with marks := d.marks.modify label (· + 1) }

/-- Appends an instruction. -/
def emit (d : Draft) (i : Instruction) : Draft :=
  let d := match i with
    | .mark label => d.countMark label
    | _ => d
  d.modifyCurrent fun b => { b with code := b.code.push i }

def openFunction (d : Draft) (link : String) (signature : Signature) : Draft :=
  { d with opened := { name := link, signature := some signature } :: d.opened }

/-- Closes the innermost function; the entry stays open. -/
def closeFunction (d : Draft) : Draft :=
  match d.opened with
  | [] => d
  | body :: outer => { d with opened := outer, closed := body :: d.closed }

/-- Carries out a step. -/
def apply (d : Draft) : Command → Draft
  | .reserveLocal name type => d.reserveLocal name type
  | .reserveLabel => d.reserveLabel
  | .emit i => d.emit i
  | .openFunction link signature => d.openFunction link signature
  | .closeFunction => d.closeFunction

/-- The first label that is not marked exactly once, counting from `label` on. -/
def faultFrom? (label : Nat) : List Nat → Option Fault
  | [] => none
  | 0 :: _ => some (.unmarked label)
  | 1 :: counts => faultFrom? (label + 1) counts
  | _ :: _ => some (.remarked label)

def fault? (d : Draft) : Option Fault := faultFrom? 0 d.marks.toList

/-- The bodies as they stand: the entry, then the others in the order in which they are closed,
where functions still open are closed from the innermost outwards. -/
def bodies (d : Draft) : List Body := d.entry :: d.closed.reverse ++ d.opened

def finish (d : Draft) : Except Fault Listing :=
  match d.fault? with
  | some fault => .error fault
  | none => .ok ⟨d.bodies⟩

end Draft

end OnePass
