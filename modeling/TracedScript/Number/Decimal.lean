/-!
# Decimal digits of natural numbers

Writing a natural number in base ten and reading it back.
-/

namespace TracedScript.Number

/-- The character of a digit below ten. -/
def digitChar (n : Nat) : Char := Char.ofNat ('0'.toNat + n % 10)

/-- The decimal digits of a number, without leading zeros; zero has one digit. -/
def digits (n : Nat) : List Char :=
  if n < 10 then [digitChar n] else digits (n / 10) ++ [digitChar n]

/-- The value of an ASCII digit. -/
def digitValue? (c : Char) : Option Nat :=
  if '0' ≤ c ∧ c ≤ '9' then some (c.toNat - '0'.toNat) else none

def isDigit (c : Char) : Bool := (digitValue? c).isSome

/-- Reads digits after a number `acc` that was read before them; no other character is allowed. -/
def appendDigits : Nat → List Char → Option Nat
  | acc, [] => some acc
  | acc, c :: cs =>
    match digitValue? c with
    | some d => appendDigits (acc * 10 + d) cs
    | none => none

/-- The number written by one or more ASCII digits. -/
def natural? : List Char → Option Nat
  | [] => none
  | c :: cs => appendDigits 0 (c :: cs)

/-- The decimal text of an integer, with a minus sign if it is negative. -/
def integerText (n : Int) : List Char :=
  if n < 0 then '-' :: digits n.natAbs else digits n.natAbs

/-- The integer written by an optional sign and one or more ASCII digits. -/
def integer? : List Char → Option Int
  | '+' :: cs => (natural? cs).map Int.ofNat
  | '-' :: cs => (natural? cs).map fun n => -Int.ofNat n
  | cs => (natural? cs).map Int.ofNat

end TracedScript.Number
