import TracedScript.Files.Path
import TracedScript.Number.Decimal

/-!
# Arguments of the command line

Arguments are read from left to right: options with and without values, short ones also run
together, one file, and `--`, behind which nothing is an option. The first argument that asks for
help or for the version decides, unless an earlier one is wrong.
-/

namespace TracedScript.CommandLine

/-- What the arguments say. -/
structure Options where
  file : Option String
  /-- The directories given with `--include`; none if the option is absent. -/
  directories : Option (List String)
  maxDepth : Option Nat
  debug : Bool
  noColor : Bool
  deriving DecidableEq, Repr

/-- Why reading the arguments ended early. -/
inductive Ending where
  | help
  | version
  | invalid
  deriving DecidableEq, Repr

/-- The options that take a value. -/
inductive ValueOption where
  | directory
  | maxDepth
  deriving DecidableEq, Repr

/-- The options that take none. -/
inductive Flag where
  | debug
  | noColor
  | version
  | help
  deriving DecidableEq, Repr

/-- Nothing given yet. -/
def Options.empty : Options := ⟨none, none, none, false, false⟩

/-- Adds a file; there is only one, and its name is not empty. -/
def Options.addFile (o : Options) (file : String) : Except Ending Options :=
  if o.file.isSome || file = "" then .error .invalid else .ok { o with file := some file }

/-- Directories with colons between them, none of which is empty. -/
def directories? (value : String) : Option (List String) :=
  let parts := Path.split ':' value.toList
  if [] ∈ parts then none else some (parts.map String.ofList)

/-- A number of at most 64 bits, with an optional plus sign. -/
def depth? (value : String) : Option Nat :=
  let digits := match value.toList with
    | '+' :: cs => cs
    | cs => cs
  (Number.natural? digits).filter (· < UInt64.size)

/-- Adds an option with its value. Directories add up; a depth is given once. -/
def Options.addValue (o : Options) (option : ValueOption) (value : String) :
    Except Ending Options :=
  match option with
  | .directory =>
    match directories? value with
    | some more => .ok { o with directories := some (o.directories.getD [] ++ more) }
    | none => .error .invalid
  | .maxDepth =>
    match o.maxDepth, depth? value with
    | none, some n => .ok { o with maxDepth := some n }
    | _, _ => .error .invalid

/-- Adds an option without value, given once. -/
def Options.addFlag (o : Options) (flag : Flag) : Except Ending Options :=
  match flag with
  | .help => .error .help
  | .version => .error .version
  | .debug => if o.debug then .error .invalid else .ok { o with debug := true }
  | .noColor => if o.noColor then .error .invalid else .ok { o with noColor := true }

/-- The option of a long name. -/
def longOption? (name : String) : Option (ValueOption ⊕ Flag) :=
  if name = "include" then some (.inl .directory)
  else if name = "max-depth" then some (.inl .maxDepth)
  else if name = "debug" then some (.inr .debug)
  else if name = "no-color" then some (.inr .noColor)
  else if name = "version" then some (.inr .version)
  else if name = "help" then some (.inr .help)
  else none

/-- The option of one letter. -/
def shortOption? (letter : Char) : Option (ValueOption ⊕ Flag) :=
  if letter = 'I' then some (.inl .directory)
  else if letter = 'd' then some (.inr .debug)
  else if letter = 'V' then some (.inr .version)
  else if letter = 'h' then some (.inr .help)
  else none

/-- The next argument can be the value of the option before it. -/
def isValue (argument : String) : Bool :=
  argument = "-" || argument.toList.head? ≠ some '-'

/-- What is read after an argument: options so far, and an option that waits for its value. -/
abbrev Progress := Options × Option ValueOption

/-- Reads a long option, given behind its two hyphens. -/
def readLong (o : Options) (cs : List Char) : Except Ending Progress :=
  let name := String.ofList (cs.takeWhile (· ≠ '='))
  match longOption? name, cs.dropWhile (· ≠ '=') with
  | some (.inl option), [] => .ok (o, some option)
  | some (.inl option), _ :: value => do return (← o.addValue option (String.ofList value), none)
  | some (.inr flag), [] => do return (← o.addFlag flag, none)
  | _, _ => .error .invalid

/-- Reads letters behind one hyphen: flags, and at the end perhaps an option whose value follows, in
the same argument or in the next one. -/
def readShort (o : Options) : List Char → Except Ending Progress
  | [] => .ok (o, none)
  | c :: cs =>
    match shortOption? c with
    | some (.inl option) =>
      match cs with
      | [] => .ok (o, some option)
      | '=' :: value => do return (← o.addValue option (String.ofList value), none)
      | value => do return (← o.addValue option (String.ofList value), none)
    | some (.inr flag) => do readShort (← o.addFlag flag) cs
    | none => .error .invalid

/-- Reads the remaining arguments; `waiting` is an option that still needs its value. -/
def read (o : Options) (waiting : Option ValueOption) : List String → Except Ending Options
  | [] => if waiting.isSome then .error .invalid else .ok o
  | argument :: rest =>
    match waiting with
    | some option =>
      if isValue argument then do read (← o.addValue option argument) none rest
      else .error .invalid
    | none =>
      if argument = "--" then rest.foldlM Options.addFile o
      else if isValue argument then do read (← o.addFile argument) none rest
      else
        match argument.toList with
        | '-' :: '-' :: cs => do
          let (o, waiting) ← readLong o cs
          read o waiting rest
        | cs => do
          let (o, waiting) ← readShort o (cs.drop 1)
          read o waiting rest

/-- What a run is asked for. -/
structure Invocation where
  file : String
  directories : List String
  maxDepth : Nat
  debug : Bool
  noColor : Bool
  deriving DecidableEq, Repr

/-- The invocation that the arguments ask for. Where no directories are given they are taken from
`searchPath`, the value of a variable of the environment. -/
def invocation (standardDepth : Nat) (searchPath : Option String) (arguments : List String) :
    Except Ending Invocation := do
  let o ← read .empty none arguments
  let directories ← match o.directories, searchPath with
    | some given, _ => pure given
    | none, none => pure []
    | none, some value =>
      match directories? value with
      | some given => pure given
      | none => throw .invalid
  match o.file with
  | some file => return ⟨file, directories, o.maxDepth.getD standardDepth, o.debug, o.noColor⟩
  | none => throw .invalid

end TracedScript.CommandLine
