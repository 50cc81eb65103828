import OnePass.Position
import OnePass.ValueType

/-!
# Lexical scopes

The names a program can use, in a stack of scopes. The outermost scope is always there: it holds the
names that are bound from outside. A declaration goes to the innermost scope, and a name means what
the innermost scope that binds it says; within a scope the latest binding counts. Behind the scopes
stands the host program, which may know further type names.
-/

namespace OnePass

/-- What a name stands for. Slots are numbered within a frame, the nesting depth of the function
that owns the variable. -/
inductive Meaning where
  | type (type : ValueType)
  | localVar (type : ValueType) (slot frame : Nat)
  | function (link : String) (signature : Signature)
deriving DecidableEq

/-- A bound name and where it was declared, if it was declared in a program. -/
structure Symbol where
  name : String
  meaning : Meaning
  declared : Option Position
deriving DecidableEq

def Symbol.type? (s : Symbol) : Option ValueType :=
  match s.meaning with
  | .type type => some type
  | _ => none

/-- The scopes inside the outermost one, innermost first, the outermost scope, and the type names of
the host. Within a scope the latest symbol comes first. -/
structure Scopes where
  inner : List (List Symbol) := []
  base : List Symbol := []
  host : String → Option ValueType := fun _ => none

/-- A change of the scopes. -/
inductive Scopes.Change where
  | bindBase (name : String) (type : ValueType)
  | declare (symbol : Symbol)
  | enter
  | leave
deriving DecidableEq

namespace Scopes

def depth (s : Scopes) : Nat := s.inner.length + 1

def innermost (s : Scopes) : List Symbol := s.inner.headD s.base

def symbols (s : Scopes) : List Symbol := s.inner.flatten ++ s.base

def find? (s : Scopes) (name : String) : Option Symbol := s.symbols.find? (·.name = name)

def bindsInnermost (s : Scopes) (name : String) : Bool := s.innermost.any (·.name = name)

def bindBase (s : Scopes) (name : String) (type : ValueType) : Scopes :=
  { s with base := ⟨name, .type type, none⟩ :: s.base }

def declare (s : Scopes) (symbol : Symbol) : Scopes :=
  match s.inner with
  | [] => { s with base := symbol :: s.base }
  | scope :: outer => { s with inner := (symbol :: scope) :: outer }

def enter (s : Scopes) : Scopes := { s with inner := [] :: s.inner }

/-- Closes the innermost scope; the outermost one stays. -/
def leave (s : Scopes) : Scopes := { s with inner := s.inner.tail }

/-- Carries out a change. -/
def apply (s : Scopes) : Change → Scopes
  | .bindBase name type => s.bindBase name type
  | .declare symbol => s.declare symbol
  | .enter => s.enter
  | .leave => s.leave

/-- The scopes with the primitive types bound in the outermost one. -/
def withPrimitives (s : Scopes) : Scopes :=
  ValueType.primitives.foldl (fun s (name, type) => s.bindBase name type) s

@[simp] theorem leave_enter (s : Scopes) : s.enter.leave = s := rfl

@[simp] theorem leave_declare_enter (s : Scopes) (symbol : Symbol) :
    (s.enter.declare symbol).leave = s := rfl

end Scopes

end OnePass
