import TracedScript.Fault.Failure
import TracedScript.Syntax.Tree
import TracedScript.Value.Builtin
import TracedScript.Value.Key

/-!
# Values

A value is its content and its trace. Contents never change; functions, caught exceptions and
namespaces are told apart by number, as two functions with the same text are two values.
-/

namespace TracedScript

/-- A positional parameter and the kind its argument must have, if declared. -/
structure Parameter where
  name : String
  kind : Option Kind
  deriving DecidableEq, Repr

mutual

structure Value where
  data : Data
  trace : Trace

inductive Data where
  | null
  | int (value : Int64)
  | float (value : Float)
  | str (value : String)
  | bool (value : Bool)
  | array (items : List Value)
  | tuple (items : List Value)
  | dict (dictionary : Dictionary)
  | func (function : Function)
  | builtin (function : Builtin)
  /-- An error caught by a handler. -/
  | exception (id : Nat) (error : Failure)
  /-- The names that an included module has bound in its scope. -/
  | «namespace» (name : String) (scope : ScopeId)

/-- Entries in order of first insertion, and where the entry of each key stands. -/
structure Dictionary where
  entries : List Entry
  index : List (Key × Nat)

/-- A value and what it is found under. -/
structure Entry where
  label : Value
  value : Value

/-- A function of the program, with the scope it was made in. -/
structure Function where
  id : Nat
  params : List Parameter
  /-- The options and their defaults. -/
  options : List OptionValue
  returns : Option Kind
  body : List Node
  closure : ScopeId

/-- An option of a function, with the value it has by default. -/
structure OptionValue where
  name : String
  default : Value

end

/-- The kind of a content. -/
def Data.kind : Data → Kind
  | .null => .null
  | .int _ => .int
  | .float _ => .float
  | .str _ => .str
  | .bool _ => .bool
  | .array _ => .array
  | .tuple _ => .tuple
  | .dict _ => .dict
  | .func _ => .func
  | .builtin _ => .builtin
  | .exception .. => .exception
  | .namespace .. => .namespace

namespace Value

/-- A value that has been nowhere. -/
def ofData (data : Data) : Value := ⟨data, .fresh⟩

def null : Value := ofData .null

def int (n : Int64) : Value := ofData (.int n)

def float (x : Float) : Value := ofData (.float x)

def bool (b : Bool) : Value := ofData (.bool b)

def str (s : String) : Value := ofData (.str s)

instance : Inhabited Value := ⟨null⟩

def kind (v : Value) : Kind := v.data.kind

def span (v : Value) : Option Span := v.trace.span

def origin (v : Value) : List Hop := v.trace.origin

def name (v : Value) : Option String := v.trace.name

def isReserved (v : Value) : Bool := v.trace.reserved

/-- See `Trace.place`. -/
def place (v : Value) (span : Span) (owner : String) : Value :=
  { v with trace := v.trace.place span owner }

/-- See `Trace.relocate`. -/
def relocate (v : Value) (span : Span) (owner : String) : Value :=
  { v with trace := v.trace.relocate span owner }

/-- Marks the value as held by a binding. -/
def named (v : Value) (name : String) : Value := { v with trace := v.trace.named name }

def reserve (v : Value) : Value := { v with trace := v.trace.reserve }

/-- Former places and the current one. -/
def provenance (v : Value) : List Hop := v.trace.provenance

/-- A failure at a span that blames the value and all places it has had. -/
def blame (v : Value) (f : Fault) (span : Span) : Failure :=
  (f.failAt span).withOrigin v.provenance

/-- A failure at the value's own place that blames the value. -/
def blameHere (v : Value) (f : Fault) : Failure := (f.failure v.span).withOrigin v.origin

end Value

end TracedScript
