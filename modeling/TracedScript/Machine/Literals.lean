import TracedScript.Machine.State
import TracedScript.Value.Collection
import TracedScript.Value.Display

/-!
# Collections and functions

The parts of a literal are evaluated in the order in which they are written. `eval` evaluates a
node in the frame of the literal.
-/

namespace TracedScript.Eval

def array (eval : Node → Eval Value) (items : List Node) : Eval Value := do
  ofExcept (Value.array (← items.mapM eval))

def tuple (eval : Node → Eval Value) (items : List Node) : Eval Value := do
  ofExcept (Value.tuple (← items.mapM eval))

/-- A dictionary; each key is evaluated before its value. -/
def dict (eval : Node → Eval Value) (entries : List (Node × Node)) : Eval Value := do
  let pairs ← entries.mapM fun (key, value) => do return (← eval key, ← eval value)
  ofExcept (Value.dict pairs)

/-- The kind that a node stands for where a type is expected. -/
def typeTag (eval : Node → Eval Value) (node : Node) : Eval Kind := do
  let v ← eval node
  match v.data with
  | .builtin f =>
    match f.produces? with
    | some kind => return kind
    | none => fail (v.blame (.notAType v.repr) node.span)
  | _ => fail (v.blame (.notAType v.repr) node.span)

/-- A function that goes on using the scope it is made in. Types and defaults are evaluated once,
when the function is made. -/
def function (eval : Node → Eval Value) (literal : FunctionLiteral) (scope : ScopeId) :
    Eval Value := do
  let params ← literal.params.mapM fun p => do
    return (⟨p.name, ← p.type.mapM (typeTag eval)⟩ : Parameter)
  let options ← literal.options.mapM fun o => do
    return (⟨o.name, ← eval o.default⟩ : OptionValue)
  let returns ← literal.returns.mapM (typeTag eval)
  let id ← freshId
  return .ofData (.func ⟨id, params, options, returns, literal.body, scope⟩)

end TracedScript.Eval
