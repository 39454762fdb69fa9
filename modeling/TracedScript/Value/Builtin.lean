import TracedScript.Number.Decimal
import TracedScript.Value.Kind

/-!
# Built-in functions and what they take
-/

namespace TracedScript

/-- A function of the language itself. -/
inductive Builtin where
  | print | range | type | panic | throw | assert
  | str | int | float | bool | array | tuple
  | sqrt | floor | ceil | abs
  deriving DecidableEq, Repr

namespace Builtin

/-- The functions that every program can use. -/
def prelude : List Builtin :=
  [.print, .range, .type, .panic, .throw, .assert, .str, .int, .float, .bool, .array, .tuple]

/-- The functions of the module `math`. -/
def math : List Builtin := [.sqrt, .floor, .ceil, .abs]

def name : Builtin → String
  | .print => "print"
  | .range => "range"
  | .type => "type"
  | .panic => "panic"
  | .throw => "throw"
  | .assert => "assert"
  | .str => "str"
  | .int => "int"
  | .float => "float"
  | .bool => "bool"
  | .array => "array"
  | .tuple => "tuple"
  | .sqrt => "sqrt"
  | .floor => "floor"
  | .ceil => "ceil"
  | .abs => "abs"

/-- The numbers of arguments that the function takes. -/
def counts : Builtin → List Nat
  | .print => [0, 1]
  | .range => [1, 2, 3]
  | .assert => [1, 2]
  | _ => [1]

/-- The kind that the function stands for where a type is expected. -/
def produces? : Builtin → Option Kind
  | .str => some .str
  | .int => some .int
  | .float => some .float
  | .bool => some .bool
  | .array => some .array
  | .tuple => some .tuple
  | _ => none

end Builtin

/-- Numbers listed for a reader: `1`, `0 or 1`, `1, 2 or 3`. -/
def alternativesText : List Nat → String
  | [] => "no"
  | [n] => String.ofList (Number.digits n)
  | [m, n] => String.ofList (Number.digits m) ++ " or " ++ String.ofList (Number.digits n)
  | m :: ns => String.ofList (Number.digits m) ++ ", " ++ alternativesText ns

end TracedScript
