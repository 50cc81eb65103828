import OnePass.Compilation

/-!
# Command line

The program is given as an argument or in a file. Options may stand anywhere before a double dash,
short ones may be joined, and the value of an option may be attached to it, with or without an equals
sign, or follow it. No option may be given twice.

The listing of an accepted program goes to standard output and diagnostics go to standard error. The
exit code is 0 for an accepted program, 1 for any other and 2 for arguments that make no sense.
-/

namespace OnePass

inductive Input where
  | text (source : String)
  | file (path : String)
deriving DecidableEq

/-- What the arguments ask for. -/
structure Options where
  input : Input
  lenient : Bool := false
  quiet : Bool := false
deriving DecidableEq

/-- The meaning of the arguments. -/
inductive Request where
  | help
  | compile (options : Options)
deriving DecidableEq

/-- The options read so far. -/
structure PartialOptions where
  source : Option String := none
  file : Option String := none
  lenient : Bool := false
  quiet : Bool := false

namespace PartialOptions

def setSource (o : PartialOptions) (source : String) : Option PartialOptions :=
  if o.source.isSome then none else some { o with source := some source }

def setFile (o : PartialOptions) (path : String) : Option PartialOptions :=
  if o.file.isSome || path.isEmpty then none else some { o with file := some path }

/-- Takes the option that makes missing brackets and terminators warnings. -/
def setLenient (o : PartialOptions) : Option PartialOptions :=
  if o.lenient then none else some { o with lenient := true }

/-- Takes the option that hides warnings and notes. -/
def setQuiet (o : PartialOptions) : Option PartialOptions :=
  if o.quiet then none else some { o with quiet := true }

/-- The program has to be given exactly once. -/
def finish (o : PartialOptions) : Option Request :=
  match o.source, o.file with
  | some source, none => some (.compile ⟨.text source, o.lenient, o.quiet⟩)
  | none, some path => some (.compile ⟨.file path, o.lenient, o.quiet⟩)
  | _, _ => none

def takeSources (o : PartialOptions) : List String → Option PartialOptions
  | [] => some o
  | arg :: args => (o.setSource arg).bind (takeSources · args)

end PartialOptions

/-- What one argument before a double dash says. -/
inductive Argument where
  | invalid
  | help
  | options (o : PartialOptions)
  | awaitsPath (o : PartialOptions)

/-- The argument that sets options, unless it cannot. -/
def Argument.ofOptions : Option PartialOptions → Argument
  | none => invalid
  | some o => options o

/-- Reads joined short options. -/
def PartialOptions.takeShort (o : PartialOptions) : List Char → Argument
  | [] => .options o
  | c :: cs =>
    if c = 'q' then
      match o.setQuiet with
      | none => .invalid
      | some o => o.takeShort cs
    else if c = 'h' then .help
    else if c = 'f' then
      match cs with
      | [] => .awaitsPath o
      | '=' :: path => .ofOptions (o.setFile (String.ofList path))
      | path => .ofOptions (o.setFile (String.ofList path))
    else .invalid

/-- Reads a long option and the value attached to it. -/
def PartialOptions.takeLong (o : PartialOptions) (name : String) (value : Option String) :
    Argument :=
  match value with
  | none =>
    if name = "quiet" then .ofOptions o.setQuiet
    else if name = "lenient-structure" then .ofOptions o.setLenient
    else if name = "file" then .awaitsPath o
    else if name = "help" then .help
    else .invalid
  | some path => if name = "file" then .ofOptions (o.setFile path) else .invalid

/-- Reads an argument before a double dash. -/
def PartialOptions.take (o : PartialOptions) (arg : String) : Argument :=
  match arg.toList with
  | '-' :: '-' :: cs =>
    let name := cs.takeWhile (· ≠ '=')
    let value := match cs.dropWhile (· ≠ '=') with
      | [] => none
      | _ :: value => some (String.ofList value)
    o.takeLong (String.ofList name) value
  | '-' :: c :: cs => o.takeShort (c :: cs)
  | _ => .ofOptions (o.setSource arg)

/-- Whether an argument can be the value of an option before it. -/
def isValue (arg : String) : Bool := arg = "-" || arg.toList.head? ≠ some '-'

/-- Reads the arguments from left to right. -/
def PartialOptions.takeAll (o : PartialOptions) : List String → Option Request
  | [] => o.finish
  | arg :: args =>
    if arg = "--" then (o.takeSources args).bind finish
    else
      match o.take arg with
      | .invalid => none
      | .help => some .help
      | .options o => o.takeAll args
      | .awaitsPath o =>
        match args with
        | [] => none
        | path :: args =>
          if isValue path then
            match o.setFile path with
            | none => none
            | some o => o.takeAll args
          else none

/-- The meaning of the arguments, if they have one. -/
def Request.ofArgs? (args : List String) : Option Request := PartialOptions.takeAll {} args

/-- What a run of the program leaves behind. -/
structure Output where
  code : Nat
  stdout : String := ""
  stderr : String := ""
deriving DecidableEq

/-- Compiles a source text and shows the result. -/
def Options.run (o : Options) (source : String) : Output :=
  match compile source (if o.lenient then .warning else .error) with
  | .error error => { code := 1, stderr := error.text source ++ "\n" }
  | .ok c =>
    let shown := c.diagnostics.filter fun d => !o.quiet || d.severity.atLeast .error
    let stderr := String.join (shown.map fun d => d.render source ++ "\n")
    if c.accepted then { code := 0, stdout := c.listing.text, stderr }
    else { code := 1, stderr }

/-- The answer to a command line. -/
inductive Response where
  | usage
  | help
  | unreadable (path : String)
  | output (output : Output)
deriving DecidableEq

/-- Answers a command line, given the texts of the files that can be read. -/
def respond (read : String → Option String) (args : List String) : Response :=
  match Request.ofArgs? args with
  | none => .usage
  | some .help => .help
  | some (.compile o) =>
    match o.input with
    | .text source => .output (o.run source)
    | .file path =>
      match read path with
      | none => .unreadable path
      | some source => .output (o.run source)

end OnePass
