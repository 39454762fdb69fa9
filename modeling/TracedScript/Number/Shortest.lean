import TracedScript.Number.Binary64

/-!
# The shortest decimal of a float

Among the decimals that read back as a given float, the one with the fewest digits, and of two
such the nearer one. The decimals that read back fill an interval around the value, which holds
its ends exactly if the mantissa is even.
-/

namespace TracedScript.Number

/-- The value `coefficient * 10 ^ exponent`. -/
structure Scientific where
  coefficient : Nat
  exponent : Int
  deriving DecidableEq, Repr

/-- The rational numbers that round to a float: everything from `low` to `high` around `value`, each
a numerator over `unit`. -/
structure RoundingInterval where
  low : Nat
  value : Nat
  high : Nat
  unit : Nat
  closed : Bool
  deriving Repr

namespace RoundingInterval

/-- Half the distance to the next float on both sides; below a power of two the floats are twice as
dense. -/
def ofMagnitude (mantissa : Nat) (exponent : Int) : RoundingInterval :=
  let below := if mantissa = Nat.pow 2 52 ∧ -1074 < exponent then 1 else 2
  let scale := Nat.pow 2 exponent.toNat
  { low := (4 * mantissa - below) * scale
    value := 4 * mantissa * scale
    high := (4 * mantissa + 2) * scale
    unit := 4 * Nat.pow 2 (-exponent).toNat
    closed := mantissa % 2 = 0 }

/-- The point `n / d` rounds to the float. -/
def holds (i : RoundingInterval) (n d : Nat) : Bool :=
  if i.closed then i.low * d ≤ n * i.unit && n * i.unit ≤ i.high * d
  else i.low * d < n * i.unit && n * i.unit < i.high * d

/-- A point of the grid of step `10 ^ p` that rounds to the float: of the value's two neighbours on
the grid the one that does, or the nearer one, the upper one if they are equally near. -/
def onGrid? (i : RoundingInterval) (p : Int) : Option Scientific :=
  let step := Nat.pow 10 p.toNat
  let parts := Nat.pow 10 (-p).toNat
  let c := i.value * parts / (i.unit * step)
  let lower := i.holds (c * step) parts
  let upper := i.holds ((c + 1) * step) parts
  let rest := i.value * parts - c * (i.unit * step)
  if lower && (!upper || 2 * rest < i.unit * step) then some ⟨c, p⟩
  else if upper then some ⟨c + 1, p⟩
  else none

/-- The first grid with a hit, from step `10 ^ p` down through `n` further ones. -/
def search (i : RoundingInterval) (p : Int) : Nat → Option Scientific
  | 0 => i.onGrid? p
  | n + 1 =>
    match i.onGrid? p with
    | some s => some s
    | none => i.search (p - 1) n

/-- A power of ten above the value: its exponent, read off the lengths in base two. -/
def topExponent (i : RoundingInterval) : Int :=
  ((Nat.log2 i.value : Int) - Nat.log2 i.unit) * 30103 / 100000 + 2

end RoundingInterval

/-- The shortest decimal of a magnitude that is not zero. Seventeen digits always suffice; the
search starts at most four grids above the first digit. -/
def shortest (mantissa : Nat) (exponent : Int) : Scientific :=
  let i := RoundingInterval.ofMagnitude mantissa exponent
  (i.search i.topExponent 24).getD ⟨0, 0⟩

end TracedScript.Number
