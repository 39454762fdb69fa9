import TracedScript.Text.Source

/-!
# Where a value has been

Every value carries the place where it was last produced or read, and the places it had before,
the most recent ones only.
-/

namespace TracedScript

/-- A former place of a value: its span and the name of the frame that it was produced in. -/
structure Hop where
  span : Span
  display : String
  deriving DecidableEq, Repr

/-- What a value carries besides its content. -/
structure Trace where
  /-- Where it was last produced or read. -/
  span : Option Span
  /-- The name of the frame that produced it. -/
  owner : Option String
  /-- Former places, oldest first. -/
  origin : List Hop
  /-- The binding that it was last bound to. -/
  name : Option String
  /-- A binding that holds it can not be overwritten. -/
  reserved : Bool
  deriving DecidableEq, Repr

namespace Trace

/-- The trace of a value that has been nowhere. -/
def fresh : Trace := ⟨none, none, [], none, false⟩

/-- The most former places a value remembers. -/
def limit : Nat := 16

/-- Adds a place; if the limit is reached the oldest one is forgotten. -/
def remember (origin : List Hop) (hop : Hop) : List Hop :=
  (if origin.length = limit then origin.drop 1 else origin) ++ [hop]

/-- Puts the value at a place, without remembering where it was. -/
def place (t : Trace) (span : Span) (owner : String) : Trace :=
  { t with span := some span, owner := some owner }

/-- Moves the value to a place and remembers where it was. A moved value is not reserved: that
belongs to the binding it was read from. -/
def relocate (t : Trace) (span : Span) (owner : String) : Trace :=
  let origin :=
    match t.span with
    | some previous => remember t.origin ⟨previous, t.owner.getD "<builtin>"⟩
    | none => t.origin
  { t with span := some span, owner := some owner, origin, reserved := false }

def named (t : Trace) (name : String) : Trace := { t with name := some name }

def reserve (t : Trace) : Trace := { t with reserved := true }

/-- The former places and the current one. -/
def provenance (t : Trace) : List Hop :=
  match t.span, t.owner with
  | some span, some display => t.origin ++ [⟨span, display⟩]
  | _, _ => t.origin

end Trace

end TracedScript
