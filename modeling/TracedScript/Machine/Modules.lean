import TracedScript.Machine.Names
import TracedScript.Module.Name
import TracedScript.Module.Native
import TracedScript.Syntax.Program
import TracedScript.Value.Display

/-!
# Including modules

The script of a module runs each time it is included, in a scope of its own inside the built-in
names. A module that is being included can not be included again before it has ended.
-/

namespace TracedScript.Eval

/-- Runs the statements of a program or module at its top level, and gives their values. -/
def topLevel (eval : Evaluator) (stack : CallStack) (statements : List Node) :
    Eval (List Value) :=
  statements.mapM fun node => ExceptT.adapt Stop.escaped (eval node stack false)

/-- Runs a script as the module of the given name; gives the scope that holds its names. -/
def runScript (eval : Evaluator) (name : String) (script : Source) (stack : CallStack)
    (span : Span) : Eval ScopeId := do
  let scope ← openScope (some Machine.preludeScope)
  let frame := stack.call s!"<module {name}>" scope span .module
  match script.program with
  | .error e =>
    fail (((Fault.unparsableModule name e).failAt span).withOrigin [⟨e.span, frame.display⟩])
  | .ok statements => do
    let _ ← whileIncluding name (topLevel eval frame statements)
    return scope

/-- Makes a scope of the names of a module that is part of the language. -/
def nativeScope (bindings : Bindings) : Eval ScopeId := do
  let scope ← openScope none
  defineAll scope bindings
  return scope

/-- The scope of the module of a valid name: that of its script, or else of a native module. -/
def moduleScope (around : Surroundings) (eval : Evaluator) (name : String) (stack : CallStack)
    (span : Span) : Eval ScopeId := do
  let directories := around.settings.directories
  match Module.findScript around.files directories name with
  | some (path, text) => runScript eval name ⟨path, Text.normalize text⟩ stack span
  | none =>
    match Module.native? directories name with
    | some bindings => nativeScope bindings
    | none => fail ((Fault.missingModule name).failAt span)

/-- The name of the module that a value asks for; `span` is where the value stands. -/
def moduleName (v : Value) (span : Span) : Except Failure String :=
  match v.data with
  | .str name =>
    if Module.isValidName name then .ok name
    else .error (v.blame (.invalidModuleName v.repr) span)
  | _ => .error (v.blame (.moduleNameNotStr v.kind) span)

/-- Includes the module that a node names and binds its namespace. -/
def includeModule (around : Surroundings) (eval : Evaluator) (module : Node) (stack : CallStack)
    (span : Span) (inLoop : Bool) : Eval Value := do
  let name ← ofExcept (moduleName (← eval module stack inLoop) module.span)
  if name ∈ (← get).including then
    fail ((Fault.circularInclude name).failAt span)
  let scope ← moduleScope around eval name stack span
  let v := Value.ofData (.namespace name scope)
  declare (Module.bindingName name) (v.place span stack.display) stack span

end TracedScript.Eval
