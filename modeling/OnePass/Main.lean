import OnePass.CommandLine

/-!
# The program

Reads the arguments and the file they name, and prints what the command line answers.
-/

namespace OnePass

def usageText : String :=
  "usage: onepass [-q | --quiet] [--lenient-structure] (SOURCE | -f PATH | --file PATH)\n"

/-- The text of a file, if it can be read and is text. -/
def readText? (path : String) : IO (Option String) := do
  try
    return some (← IO.FS.readFile path)
  catch _ => return none

/-- The text of the file that the arguments name, if they name one that can be read. -/
def readInput (args : List String) : IO (Option String) :=
  match Request.ofArgs? args with
  | some (.compile ⟨.file path, _, _⟩) => readText? path
  | _ => return none

end OnePass

open OnePass in
def main (args : List String) : IO UInt32 := do
  let text ← readInput args
  match respond (fun _ => text) args with
  | .usage =>
    IO.eprint usageText
    return 2
  | .help =>
    IO.print usageText
    return 0
  | .unreadable path =>
    IO.eprintln ("cannot read " ++ path)
    return 1
  | .output o =>
    IO.eprint o.stderr
    IO.print o.stdout
    return o.code.toUInt32
