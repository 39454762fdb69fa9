import TracedScript.Machine.Evaluate
import TracedScript.Report.Layout

/-!
# Running programs

A program runs in a fresh scope inside the built-in names. The state can be used for one program
after another; they share the output but no names.
-/

namespace TracedScript

/-- Why a program did not run to its end. -/
inductive ProgramError where
  | source (error : SourceError)
  | failure (error : Failure)
  /-- There is no text at the path. -/
  | unreadable (path : String) (reason : ReadError)
  /-- The allowance of steps was used up. -/
  | unfinished

namespace ProgramError

/-- What is shown to users. -/
def render (colored : Bool) : ProgramError → String
  | source e => (Report.ofSourceError e).render colored
  | failure e => (Report.ofFailure e).render colored
  | unreadable path reason => s!"CmdArgumentError: Could not read {path}: {reason.message}"
  | unfinished => "The program was stopped before its end"

/-- The error of a program whose top level has stopped. -/
def ofStop (stop : Stop) : ProgramError :=
  match stop.escaped with
  | .failed e => failure e
  | _ => unfinished

end ProgramError

namespace Machine

/-- Runs a step and turns a stop into the error of a program. -/
def attempt {α : Type} (m : Machine) (x : Eval α) : Except ProgramError α × Machine :=
  match x m with
  | (.ok a, m) => (.ok a, m)
  | (.error stop, m) => (.error (.ofStop stop), m)

/-- Runs a program given by its text, shown in reports under the given name; gives the values of
its statements. -/
def run (m : Machine) (around : Surroundings) (allowance : Nat) (name text : String) :
    Except ProgramError (List Value) × Machine :=
  match (Source.mk name (Text.normalize text)).program with
  | .error e => (.error (.source e), m)
  | .ok statements =>
    m.attempt do
      let scope ← Eval.openScope (some preludeScope)
      Eval.topLevel (evaluate around allowance) (.root "<program>" scope .program) statements

/-- Runs the program in the file at a path. -/
def runFile (m : Machine) (around : Surroundings) (allowance : Nat) (path : String) :
    Except ProgramError (List Value) × Machine :=
  match around.files.read path with
  | .error reason => (.error (.unreadable path reason), m)
  | .ok text => m.run around allowance path text

/-- What has been printed behind the first `n` lines. -/
def outputAfter (m : Machine) (n : Nat) : String :=
  String.join ((m.printed.toList.drop n).map (· ++ "\n"))

end Machine

end TracedScript
