import TracedScript.Number.Word

/-!
# The exact value of a float

A finite float is a sign, a natural number and a power of two. Rounding to whole numbers and
conversion between the two kinds of number are computed on these, without rounding twice.
-/

namespace TracedScript.Number

/-- The value `mantissa * 2 ^ exponent`, negated if `negative`; zero keeps its sign. -/
structure Binary64 where
  negative : Bool
  mantissa : Nat
  exponent : Int
  deriving DecidableEq, Repr

namespace Binary64

/-- The parts of a finite float, none for infinities and for what is no number. -/
def ofFloat? (x : Float) : Option Binary64 :=
  let bits := x.toBits.toNat
  let negative := bits / Nat.pow 2 63 % 2 == 1
  let exponent : Nat := bits / Nat.pow 2 52 % 2048
  let fraction := bits % Nat.pow 2 52
  if exponent = 2047 then none
  else if exponent = 0 then some ⟨negative, fraction, -1074⟩
  else some ⟨negative, fraction + Nat.pow 2 52, (exponent : Int) - 1075⟩

/-- The magnitude rounded toward zero. -/
def wholePart (b : Binary64) : Nat :=
  if 0 ≤ b.exponent then b.mantissa * Nat.pow 2 b.exponent.toNat
  else b.mantissa / Nat.pow 2 (-b.exponent).toNat

/-- The value is a whole number. -/
def isWhole (b : Binary64) : Bool :=
  0 ≤ b.exponent || b.mantissa % Nat.pow 2 (-b.exponent).toNat == 0

/-- The value rounded toward zero. -/
def truncate (b : Binary64) : Int :=
  if b.negative then -Int.ofNat b.wholePart else Int.ofNat b.wholePart

/-- The greatest whole number that is not above the value. -/
def floor (b : Binary64) : Int :=
  if b.negative && !b.isWhole then b.truncate - 1 else b.truncate

/-- The least whole number that is not below the value. -/
def ceil (b : Binary64) : Int :=
  if b.negative || b.isWhole then b.truncate else b.truncate + 1

end Binary64

/-- The float rounded toward zero, if it is finite and that number has 64 bits. -/
def truncate? (x : Float) : Option Int64 :=
  (Binary64.ofFloat? x).bind fun b => Word.ofInt? b.truncate

/-- The float rounded down, under the same conditions. -/
def floor? (x : Float) : Option Int64 :=
  (Binary64.ofFloat? x).bind fun b => Word.ofInt? b.floor

/-- The float rounded up, under the same conditions. -/
def ceil? (x : Float) : Option Int64 :=
  (Binary64.ofFloat? x).bind fun b => Word.ofInt? b.ceil

/-- The largest magnitude up to which every whole number is a float. -/
def maxExact : Nat := Nat.pow 2 53 - 1

/-- The float of the same value, for magnitudes up to `maxExact`. -/
def toFloat? (n : Int64) : Option Float :=
  if n.toInt.natAbs ≤ maxExact then some (Float.ofInt n.toInt) else none

end TracedScript.Number
