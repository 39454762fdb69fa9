import TracedScript.Value.Basic

/-!
# Building collections

The elements of an array or tuple have one kind, and so do the keys of a dictionary and its values.
A dictionary is in order of first insertion; a repeated key replaces the earlier entry in its place.
-/

namespace TracedScript

mutual

/-- The key that a content is in a dictionary. Collections other than tuples are no keys. -/
def Data.key? : Data → Option Key
  | .null => some .null
  | .int n => some (.int n)
  | .float x => some (.float x)
  | .str s => some (.str s)
  | .bool b => some (.bool b)
  | .tuple items => (Value.keys? items).map .tuple
  | _ => none

def Value.key? : Value → Option Key
  | ⟨data, _⟩ => data.key?

def Value.keys? : List Value → Option (List Key)
  | [] => some []
  | v :: vs =>
    match v.key?, Value.keys? vs with
    | some k, some ks => some (k :: ks)
    | _, _ => none

end

namespace Value

mutual

/-- The first value that keeps this one from being a key: itself, or inside a tuple the first such
item. -/
def unhashable : Value → Value
  | ⟨.tuple items, trace⟩ => unhashableIn items ⟨.tuple items, trace⟩
  | v => v

def unhashableIn : List Value → Value → Value
  | [], whole => whole
  | v :: vs, whole => if v.key?.isSome then unhashableIn vs whole else unhashable v

end

/-- The key that a value is, or the failure of using it as one. -/
def asKey (v : Value) : Except Failure Key :=
  match v.key? with
  | some k => .ok k
  | none =>
    let culprit := v.unhashable
    .error (culprit.blameHere (.unhashable culprit.kind))

/-- Checks that all values have the kind of the first one. -/
def sameKinds (container what : String) : List Value → Except Failure Unit
  | [] => .ok ()
  | first :: rest =>
    match rest.find? fun v => v.kind ≠ first.kind with
    | none => .ok ()
    | some v => .error (v.blameHere (.mixedKinds container what first.kind v.kind))

def array (items : List Value) : Except Failure Value := do
  sameKinds "Array" "elements" items
  return ofData (.array items)

def tuple (items : List Value) : Except Failure Value := do
  sameKinds "Tuple" "elements" items
  return ofData (.tuple items)

end Value

namespace Dictionary

def empty : Dictionary := ⟨[], []⟩

/-- Where the entry of a key stands. -/
def slot? (d : Dictionary) (key : Key) : Option Nat :=
  (d.index.find? fun b => b.1.same key).map (·.2)

/-- The entry with the given key. -/
def find? (d : Dictionary) (key : Key) : Option Entry := (d.slot? key).bind fun i => d.entries[i]?

/-- Replaces the entry with the same key in its place, or adds one at the end. -/
def insert (d : Dictionary) (key : Key) (e : Entry) : Dictionary :=
  match d.slot? key with
  | some i => { d with entries := d.entries.set i e }
  | none => ⟨d.entries ++ [e], d.index ++ [(key, d.entries.length)]⟩

/-- Inserts pairs from first to last; the first that is no key stops it. -/
def insertAll (d : Dictionary) : List (Value × Value) → Except Failure Dictionary
  | [] => .ok d
  | (label, value) :: pairs => do
    insertAll (d.insert (← label.asKey) ⟨label, value⟩) pairs

end Dictionary

/-- The dictionary of the given pairs. -/
def Value.dict (pairs : List (Value × Value)) : Except Failure Value := do
  sameKinds "Dict" "keys" (pairs.map (·.1))
  sameKinds "Dict" "values" (pairs.map (·.2))
  return ofData (.dict (← Dictionary.empty.insertAll pairs))

end TracedScript
