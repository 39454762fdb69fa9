import TracedScript.Machine.State

/-!
# Reading and binding names

A binding keeps the kind of its value for life, but null gives way to any kind. Built-in names can
be neither assigned to nor declared anew.
-/

namespace TracedScript.Eval

/-- The value of the nearest binding of a name, moved to where it is read. -/
def read (name : String) (stack : CallStack) (span : Span) : Eval Value := do
  match (← get).store.get? stack.top.scope name with
  | some v => return v.relocate span stack.display
  | none => fail ((Fault.undefined name).failAt span)

/-- The failure of assigning `v` to a binding that holds `current`, if that is not allowed. -/
def refusal? (name : String) (current v : Value) (span : Span) : Option Failure :=
  if current.isReserved then some ((Fault.reserved name).failAt span)
  else if current.kind ≠ .null ∧ current.kind ≠ v.kind then
    some (v.blame (.kindLocked name current.kind v.kind) span)
  else none

/-- Changes the nearest binding of a name. -/
def assign (name : String) (v : Value) (stack : CallStack) (span : Span) : Eval Value := do
  let store := (← get).store
  match store.owner? stack.top.scope name, store.get? stack.top.scope name with
  | some owner, some current =>
    match refusal? name current v span with
    | some e => fail e
    | none => do
      define owner name (v.named name)
      return v
  | _, _ => fail ((Fault.undefined name).failAt span)

/-- Binds a name in the scope of the frame, in place of any binding there. -/
def declare (name : String) (v : Value) (stack : CallStack) (span : Span) : Eval Value := do
  let existing := (← get).store.get? stack.top.scope name
  if existing.any Value.isReserved then fail ((Fault.reserved name).failAt span)
  else
    define stack.top.scope name (v.named name)
    return v

/-- Declares or assigns to what a `for` or `switch` binds. -/
def bindTarget (target : Target) (v : Value) (stack : CallStack) (span : Span) : Eval Value :=
  if target.declares then declare target.name v stack span
  else assign target.name v stack span

end TracedScript.Eval
