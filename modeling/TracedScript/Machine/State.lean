import TracedScript.Files.Tree
import TracedScript.Scope

/-!
# The state of a run

What a run is given and can not change, what it changes, and how the evaluation of a node ends.
The state is kept however an evaluation ends, so what was done before an error stays done.
-/

namespace TracedScript

/-- What a user can set. -/
structure Settings where
  /-- The directories in which modules are looked for, in this order. -/
  directories : List String
  /-- How many calls of functions may be inside each other. -/
  maxDepth : Nat
  deriving DecidableEq, Repr

namespace Settings

/-- The settings of a user who sets nothing. -/
def standard : Settings := ⟨["."], 256⟩

/-- Looks for modules in the given directory before all others. -/
def searchFirst (s : Settings) (directory : String) : Settings :=
  { s with directories := directory :: s.directories }

end Settings

/-- What the output has room for. -/
structure Capacity where
  /-- How many lines it takes. -/
  lines : Nat
  /-- What it says when it is to take one more. -/
  refusal : String
  deriving DecidableEq, Repr

/-- Where only a number of lines is given, it is a disk that is full then. -/
instance : Coe (Option Nat) (Option Capacity) := ⟨Option.map (⟨·, "disk full"⟩)⟩

/-- What a run can not change. -/
structure Surroundings where
  settings : Settings
  files : FileTree
  /-- What can be printed, if that is limited. -/
  capacity : Option Capacity

/-- What a run changes. -/
structure Machine where
  store : Store
  /-- The lines printed so far, without line feeds. -/
  printed : Array String
  /-- The modules that are being included, outermost first. -/
  including : List String
  /-- The number that the next function or caught error is known by. -/
  nextId : Nat

namespace Machine

/-- The scope of the built-in names, which encloses all scopes of programs and modules. -/
def preludeScope : ScopeId := 0

/-- A built-in name with its value. It can not be bound to anything else. -/
def reserved (name : String) (v : Value) : String × Value := (name, (v.named name).reserve)

/-- The built-in names. -/
def prelude : Bindings :=
  [reserved "Null" .null, reserved "True" (.bool true), reserved "False" (.bool false)] ++
    Builtin.prelude.map fun f => reserved f.name (.ofData (.builtin f))

/-- The state before anything has run. -/
def initial : Machine :=
  ⟨(Store.empty.add none).defineAll preludeScope prelude, #[], [], 0⟩

end Machine

/-- Why an evaluation gave no value. -/
inductive Stop where
  /-- `return` was used: the function that is running ends with the value. -/
  | returned (value : Value) (span : Span)
  /-- `break` was used: the innermost loop ends. -/
  | broke (span : Span)
  /-- `continue` was used: the innermost loop goes on with its next pass. -/
  | continued (span : Span)
  | failed (error : Failure)
  /-- The allowance of steps was used up. -/
  | exhausted

namespace Stop

/-- Attaches the frame and the span of a node to a failure that has none. -/
def complete (stack : CallStack) (span : Span) : Stop → Stop
  | failed e => failed (e.complete stack span)
  | stop => stop

/-- At the top level of a program or module nothing is left that a `return`, `break` or `continue`
could end. -/
def escaped : Stop → Stop
  | returned _ span => failed (Fault.misplacedReturn.failAt span)
  | broke span => failed (Fault.misplacedBreak.failAt span)
  | continued span => failed (Fault.misplacedContinue.failAt span)
  | stop => stop

end Stop

/-- A step of a run: a result or a reason to stop, and the changed state in either case. -/
abbrev Eval (α : Type) := ExceptT Stop (StateM Machine) α

/-- How a node is evaluated in a frame; the flag tells whether there is a loop that `break` and
`continue` can act on. -/
abbrev Evaluator := Node → CallStack → Bool → Eval Value

namespace Eval

def fail {α : Type} (e : Failure) : Eval α := throw (.failed e)

/-- Gives a result or fails. -/
def ofExcept {α : Type} : Except Failure α → Eval α
  | .ok a => pure a
  | .error e => fail e

/-- Attaches frame and span to a failure that has none. -/
def completed {α : Type} (stack : CallStack) (span : Span) (x : Eval α) : Eval α :=
  ExceptT.adapt (Stop.complete stack span) x

/-- A number that no function or caught error is known by yet. -/
def freshId : Eval Nat := modifyGet fun m => (m.nextId, { m with nextId := m.nextId + 1 })

/-- Opens an empty scope. -/
def openScope (parent : Option ScopeId) : Eval ScopeId :=
  modifyGet fun m => (m.store.next, { m with store := m.store.add parent })

/-- Defines a name in a scope. -/
def define (scope : ScopeId) (name : String) (v : Value) : Eval Unit :=
  modify fun m => { m with store := m.store.define scope name v }

/-- Defines several names in a scope. -/
def defineAll (scope : ScopeId) (names : List (String × Value)) : Eval Unit :=
  modify fun m => { m with store := m.store.defineAll scope names }

/-- Prints a line, if the output takes one more. -/
def printLine (around : Surroundings) (line : String) (span : Span) : Eval Unit := do
  let count := (← get).printed.size
  match around.capacity.filter (·.lines ≤ count) with
  | none => modify fun m => { m with printed := m.printed.push line }
  | some full => fail ((Fault.outputFailed full.refusal).failAt span)

/-- Runs `x` while the module of the given name is being included: the name is pushed before, and
one is popped after, however `x` ends. -/
def whileIncluding {α : Type} (name : String) (x : Eval α) : Eval α := fun m =>
  let (result, m) := x { m with including := m.including ++ [name] }
  (result, { m with including := m.including.dropLast })

end Eval

end TracedScript
