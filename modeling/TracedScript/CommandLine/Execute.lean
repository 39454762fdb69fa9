import TracedScript.CommandLine.Arguments
import TracedScript.Program

/-!
# The command line

Runs the program in a file and tells how that ended: what is written to the standard output and to
the standard error output, and the exit code.
-/

namespace TracedScript.CommandLine

/-- The variables of the environment that matter. -/
structure Variables where
  /-- Directories searched for modules, with colons between them. -/
  searchPath : Option String
  /-- Colours were asked for. -/
  forceColor : Bool
  /-- Colours were refused. -/
  noColor : Bool
  deriving DecidableEq, Repr

/-- What a command leaves behind. -/
structure Response where
  code : Nat
  output : String
  errors : String
  deriving DecidableEq, Repr

/-- What `--version` writes. -/
def versionText : String := s!"peridot {Module.version}\n"

/-- What `--help` writes. -/
def usageText : String :=
  "Runs a Peri.dot script\n\nUsage: peridot [OPTIONS] <FILE>\n\n" ++
    "Arguments:\n  <FILE>  The script to run\n\n" ++
    "Options:\n" ++
    "  -I, --include <INCLUDE>      Additional directories searched for included modules\n" ++
    "      --max-depth <MAX_DEPTH>  Maximum depth of nested function calls\n" ++
    "  -d, --debug                  Enables debug logging\n" ++
    "      --no-color               Disables coloured diagnostics\n" ++
    "  -h, --help                   Print help\n" ++
    "  -V, --version                Print version\n"

/-- The settings of an invocation: modules are searched in the directory of the script, in the given
directories, and in the working directory. -/
def Invocation.settings (i : Invocation) : Settings :=
  let parent := String.ofList (Path.parent i.file.toList)
  ⟨(if parent = "" then "." else parent) :: i.directories ++ ["."], i.maxDepth⟩

/-- Errors are painted if that is asked for and nowhere refused. -/
def Invocation.colored (i : Invocation) (v : Variables) : Bool :=
  v.forceColor && !v.noColor && !i.noColor

/-- Runs the program that an invocation names. -/
def Invocation.execute (i : Invocation) (allowance : Nat) (files : FileTree) (v : Variables) :
    Response :=
  let (result, m) := Machine.initial.runFile ⟨i.settings, files, none⟩ allowance i.file
  let output := m.outputAfter 0
  match result with
  | .ok _ => ⟨0, output, ""⟩
  | .error e => ⟨1, output, e.render (i.colored v) ++ "\n"⟩

/-- Answers a command. -/
def execute (allowance : Nat) (files : FileTree) (v : Variables) (arguments : List String) :
    Response :=
  match invocation Settings.standard.maxDepth v.searchPath arguments with
  | .ok i => i.execute allowance files v
  | .error .version => ⟨0, versionText, ""⟩
  | .error .help => ⟨0, usageText, ""⟩
  | .error .invalid => ⟨2, "", "error: invalid arguments\n\n" ++ usageText⟩

end TracedScript.CommandLine
