import TracedScript.Scope
import TracedScript.Value.Display
import TracedScript.Value.Collection

/-!
# Attributes, indices and elements
-/

namespace TracedScript.Value

/-- How many elements an array, tuple, string or dictionary has. -/
def length? (v : Value) : Option Nat :=
  match v.data with
  | .str s => some s.toList.length
  | .array items => some items.length
  | .tuple items => some items.length
  | .dict d => some d.entries.length
  | _ => none

/-- The value of `v.name`, if there is such an attribute: the names of a namespace, `kind` and `message`
of an exception, `length` of what has elements. -/
def member? (s : Store) (v : Value) (name : String) : Option Value :=
  match v.data with
  | .namespace _ scope => s.local? scope name
  | .exception _ error =>
    if name = "kind" then some (str error.kind.name)
    else if name = "message" then some (str error.message)
    else none
  | _ => if name = "length" then v.length?.map fun n => int (Number.Word.ofLength n) else none

/-- How an error calls the value that lacks an attribute. -/
def ownerName (v : Value) : String :=
  match v.data with
  | .namespace name _ => s!"{v.kind.name} '{name}'"
  | _ => v.kind.name

/-- `v.name` at a span. -/
def member (s : Store) (v : Value) (name : String) (span : Span) : Except Failure Value :=
  match v.member? s name with
  | some found => .ok found
  | none => .error (((Fault.noAttribute v.ownerName name).failAt span).withOrigin v.origin)

/-- The element of a sequence of `items` that an index means. -/
def element (v : Value) (items : List Value) (index : Int64) (span : Span) :
    Except Failure Value :=
  match (Number.Word.slot? index items.length).bind fun i => items[i]? with
  | some found => .ok found
  | none =>
    .error (((Fault.outOfRange index v.kind items.length).failAt span).withOrigin v.origin)

/-- The characters of a string, each as a string. -/
def characters (s : String) : List Value := s.toList.map fun c => str c.toString

/-- `v[index]` at a span: of a sequence by number, from the end if negative; of a dictionary by
key. -/
def index (v index : Value) (span : Span) : Except Failure Value :=
  let sequence (items : List Value) : Except Failure Value :=
    match index.data with
    | .int i => element v items i span
    | _ => .error (((Fault.indexNotInt v.kind index.kind).failAt span).withOrigin index.origin)
  match v.data with
  | .array items => sequence items
  | .tuple items => sequence items
  | .str s => sequence (characters s)
  | .dict d => do
    match d.find? (← index.asKey) with
    | some e => .ok e.value
    | none => .error (((Fault.missingKey index.repr).failAt span).withOrigin index.origin)
  | _ => .error (((Fault.notIndexable v.kind).failAt span).withOrigin v.origin)

/-- What a loop visits: elements, characters, or the keys of a dictionary. -/
def elements? (v : Value) : Option (List Value) :=
  match v.data with
  | .array items => some items
  | .tuple items => some items
  | .str s => some (characters s)
  | .dict d => some (d.entries.map (·.label))
  | _ => none

end TracedScript.Value
