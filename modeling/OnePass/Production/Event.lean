import OnePass.Diagnostic
import OnePass.Draft
import OnePass.Problem
import OnePass.Scopes

/-!
# Events

The compiler acts only by the events it gives out, in order: changes of the scopes, steps of the
draft, and reports. Scopes, draft and diagnostics are obtained by replaying them.
-/

namespace OnePass

/-- One thing the compiler does. -/
inductive Event where
  | scope (change : Scopes.Change)
  | code (command : Draft.Command)
  | report (severity : Severity) (pos : Position) (problem : Problem)
deriving DecidableEq

namespace Event

def emit (i : Instruction) : Event := code (.emit i)

def emits (is : List Instruction) : List Event := is.map emit

def diagnostic? : Event → Option Diagnostic
  | report severity pos problem => some ⟨severity, pos, problem.message⟩
  | _ => none

/-- The change of the scopes, if the event is one. -/
def change? : Event → Option Scopes.Change
  | scope change => some change
  | _ => none

def command? : Event → Option Draft.Command
  | code command => some command
  | _ => none

end Event

def diagnostics (es : List Event) : List Diagnostic := es.filterMap Event.diagnostic?

def Scopes.replay (s : Scopes) (es : List Event) : Scopes :=
  (es.filterMap Event.change?).foldl apply s

def Draft.replay (d : Draft) (es : List Event) : Draft :=
  (es.filterMap Event.command?).foldl apply d

/-! ## Replaying in parts -/

@[simp] theorem diagnostics_nil : diagnostics [] = [] := rfl

@[simp] theorem diagnostics_append (es fs : List Event) :
    diagnostics (es ++ fs) = diagnostics es ++ diagnostics fs :=
  List.filterMap_append

namespace Scopes

@[simp] theorem replay_nil (s : Scopes) : s.replay [] = s := rfl

@[simp] theorem replay_append (s : Scopes) (es fs : List Event) :
    s.replay (es ++ fs) = (s.replay es).replay fs := by
  simp only [replay, List.filterMap_append, List.foldl_append]

end Scopes

namespace Draft

@[simp] theorem replay_nil (d : Draft) : d.replay [] = d := rfl

@[simp] theorem replay_append (d : Draft) (es fs : List Event) :
    d.replay (es ++ fs) = (d.replay es).replay fs := by
  simp only [replay, List.filterMap_append, List.foldl_append]

end Draft

end OnePass
