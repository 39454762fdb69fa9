import TracedScript.Number.Decimal

/-!
# Whole numbers of 64 bits

Arithmetic that answers `none` instead of leaving the range of a signed 64-bit number.
-/

namespace TracedScript.Number.Word

/-- The 64-bit number with the given value, if there is one. -/
def ofInt? (n : Int) : Option Int64 :=
  if Int64.minValue.toInt ≤ n ∧ n ≤ Int64.maxValue.toInt then some (Int64.ofInt n) else none

def add? (a b : Int64) : Option Int64 := ofInt? (a.toInt + b.toInt)

def sub? (a b : Int64) : Option Int64 := ofInt? (a.toInt - b.toInt)

def mul? (a b : Int64) : Option Int64 := ofInt? (a.toInt * b.toInt)

/-- The quotient rounded toward zero; the divisor is not zero. -/
def div? (a b : Int64) : Option Int64 := ofInt? (Int.tdiv a.toInt b.toInt)

def neg? (a : Int64) : Option Int64 := ofInt? (-a.toInt)

def abs? (a : Int64) : Option Int64 := ofInt? a.toInt.natAbs

/-- `acc * base ^ n` by repeated squaring. The base is squared only if a factor is made of the square
later on, so that what leaves the range is part of the result. -/
def timesPower? (acc base : Int64) (n : Nat) : Option Int64 :=
  if n = 0 then some acc
  else if n = 1 then mul? acc base
  else do
    let acc ← if n % 2 = 0 then some acc else mul? acc base
    timesPower? acc (← mul? base base) (n / 2)

/-- The power, for exponents of at most 32 bits; none beyond, whatever the base. -/
def pow? (a b : Int64) : Option Int64 :=
  if 0 ≤ b.toInt ∧ b.toInt < UInt32.size then timesPower? 1 a b.toInt.toNat else none

/-- A length as a 64-bit number, the largest one if it does not fit. -/
def ofLength (n : Nat) : Int64 :=
  if n ≤ Int64.maxValue.toInt then Int64.ofInt n else Int64.maxValue

/-- The slot that an index means in a sequence of length `len`: a negative index counts from the
end, and an index outside the sequence means no slot. -/
def slot? (index : Int64) (len : Nat) : Option Nat :=
  let i := if index.toInt < 0 then index.toInt + len else index.toInt
  if 0 ≤ i ∧ i < len ∧ len ≤ Int64.maxValue.toInt then some i.toNat else none

/-- The decimal text. -/
def text (a : Int64) : List Char := integerText a.toInt

/-- Reads an optional sign and decimal digits. -/
def ofText? (cs : List Char) : Option Int64 := (integer? cs).bind ofInt?

end TracedScript.Number.Word
