import TracedScript.Builtin.Apply
import TracedScript.Machine.Control

/-!
# Calls

A call of a function of the program checks its arguments first and then runs the body in a fresh
scope, enclosed by the one that the function was made in. The caller only lends its name to the
result and its frame to reports.
-/

namespace TracedScript

/-- An option given in a call. -/
structure NamedValue where
  name : String
  value : Value
  span : Span

/-- The evaluated arguments of one call, and the span from the start of the expression that is
called to their closing parenthesis. -/
structure Arguments where
  positional : List Value
  named : List NamedValue
  span : Span

namespace Function

/-- The bindings of parameters to arguments; each argument must be of the parameter's kind. -/
def bindParameters (function : String) :
    List Parameter → List Value → Except Failure (List (String × Value))
  | p :: ps, v :: vs =>
    match p.kind with
    | some kind =>
      if v.kind = kind then (bindParameters function ps vs).map ((p.name, v.named p.name) :: ·)
      else .error (v.blameHere (.argumentKind p.name function kind v.kind))
    | none => (bindParameters function ps vs).map ((p.name, v.named p.name) :: ·)
  | _, _ => .ok []

/-- The bindings of options to what the call gives for them; each must be an option of `f`. -/
def bindOptions (f : Function) (function : String) :
    List NamedValue → Except Failure (List (String × Value))
  | [] => .ok []
  | a :: rest =>
    if f.options.any fun o => o.name = a.name then
      (bindOptions f function rest).map ((a.name, a.value.named a.name) :: ·)
    else .error ((Fault.noOption function a.name).failAt a.span)

/-- What the scope of a call starts with, from first to last: parameters, defaults, and the options
given in the call; or the failure of a call with such arguments. -/
def bind (f : Function) (function : String) (args : Arguments) :
    Except Failure (List (String × Value)) := do
  if args.positional.length ≠ f.params.length then
    throw ((Fault.wrongCount function (Fault.decimal f.params.length)
      args.positional.length).failAt args.span)
  let params ← bindParameters function f.params args.positional
  let options ← bindOptions f function args.named
  return params ++ f.options.map (fun o => (o.name, o.default.named o.name)) ++ options

end Function

namespace Eval

/-- Calls a built-in function. -/
def callBuiltin (around : Surroundings) (f : Builtin) (args : Arguments) (stack : CallStack) :
    Eval Value := do
  match args.named with
  | option :: _ => fail ((Fault.noOption f.name option.name).failAt option.span)
  | [] =>
    if args.positional.length ∉ f.counts then
      fail (f.wrongCount args.positional.length args.span)
    else completed stack args.span do
      if let some line := f.printedLine? args.positional then
        printLine around line args.span
      let result ← ofExcept (f.result args.positional args.span)
      return result.relocate args.span stack.display

/-- Runs statements until one of them returns a value; null if none does. -/
def runBody (eval : Node → Eval Value) (body : List Node) : Eval Value :=
  tryCatch (do block eval body; return .null) fun
    | .returned v _ => return v
    | stop => throw stop

/-- Calls a function of the program. -/
def callFunction (around : Surroundings) (eval : Evaluator) (f : Function) (name : String)
    (args : Arguments) (stack : CallStack) : Eval Value := do
  if around.settings.maxDepth ≤ stack.top.depth then
    fail ((Fault.tooDeep around.settings.maxDepth).failAt args.span)
  let bindings ← ofExcept (f.bind name args)
  let scope ← openScope (some f.closure)
  defineAll scope bindings
  let callee := stack.call name scope args.span .function
  let result ← runBody (fun node => eval node callee false) f.body
  if let some kind := f.returns then
    if result.kind ≠ kind then
      fail (result.blame (.returnKind name kind result.kind) args.span)
  return result.relocate args.span stack.display

/-- Calls a value. -/
def call (around : Surroundings) (eval : Evaluator) (callee : Value) (args : Arguments)
    (stack : CallStack) : Eval Value :=
  match callee.data with
  | .builtin f => callBuiltin around f args stack
  | .func f => callFunction around eval f (callee.name.getD "<anonymous>") args stack
  | _ => fail (callee.blameHere (.notCallable callee.kind))

/-- Evaluates an argument list: what is positional, then the options. -/
def arguments (eval : Node → Eval Value) (list : ArgumentList) (callee : Span) :
    Eval Arguments := do
  let positional ← list.positional.mapM eval
  let named ← list.named.mapM fun a => do
    return (⟨a.name, ← eval a.value, a.span⟩ : NamedValue)
  return ⟨positional, named, callee.through list.span⟩

/-- Calls a value with one argument list, the result with the next one, and so on. -/
def callAll (around : Surroundings) (eval : Evaluator) (span : Span) (stack : CallStack)
    (inLoop : Bool) : Value → List ArgumentList → Eval Value
  | v, [] => return v
  | v, list :: lists => do
    let args ← arguments (fun node => eval node stack inLoop) list span
    let result ← call around eval v args stack
    callAll around eval span stack inLoop result lists

end Eval

end TracedScript
