import TracedScript.Number.Binary64

/-!
# Keys of dictionaries

What decides whether two values are the same key. A float counts by its number: the zeros of both
signs are one key, and what is no number is one key too, although it does not equal itself.
-/

namespace TracedScript

inductive Key where
  | null
  | int (value : Int64)
  | float (value : Float)
  | str (value : String)
  | bool (value : Bool)
  | tuple (items : List Key)

namespace Key

/-- Two floats are the same key: they are equal, or neither is a number. -/
def sameFloat (x y : Float) : Bool := x == y || (x.isNaN && y.isNaN)

mutual

/-- Two keys are the same. -/
def same : Key → Key → Bool
  | .null, .null => true
  | .int a, .int b => a == b
  | .float x, .float y => sameFloat x y
  | .str s, .str t => s == t
  | .bool a, .bool b => a == b
  | .tuple ks, .tuple ls => sameAll ks ls
  | _, _ => false

def sameAll : List Key → List Key → Bool
  | [], [] => true
  | k :: ks, l :: ls => same k l && sameAll ks ls
  | _, _ => false

end

end Key

end TracedScript
