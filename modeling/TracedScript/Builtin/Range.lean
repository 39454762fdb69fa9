import TracedScript.Value.Basic

/-!
# Ranges of whole numbers

The numbers from a start, a step apart, before a stop. They are counted before they are listed, so
that a range which is too long is never built.
-/

namespace TracedScript

/-- A start that is included, a stop that is not, and a step other than zero. -/
structure IntRange where
  start : Int64
  stop : Int64
  step : Int64
  deriving DecidableEq, Repr

namespace IntRange

/-- The most numbers that a range may have. -/
def limit : Nat := 10000000

/-- The number with 128 bits, which is what ranges are counted in. -/
def widen (n : Int64) : BitVec 128 := n.toBitVec.signExtend 128

/-- How far the stop lies from the start in the direction of the step. -/
def distance (r : IntRange) : BitVec 128 :=
  if 0 < r.step.toInt then widen r.stop - widen r.start else widen r.start - widen r.stop

/-- How wide a step is. -/
def stride (r : IntRange) : BitVec 128 := (widen r.step).abs

/-- How many numbers the range has: the distance over the width of the step, rounded up. -/
def length (r : IntRange) : BitVec 128 :=
  if r.distance.toInt ≤ 0 then 0 else (r.distance + r.stride - 1).sdiv r.stride

/-- The number at a place of the range. -/
def number (r : IntRange) (place : Nat) : BitVec 128 :=
  widen r.start + BitVec.ofNat 128 place * widen r.step

/-- The numbers in order, as far as they have 64 bits. -/
def numbers (r : IntRange) : List Int64 :=
  (List.range r.length.toInt.toNat).filterMap fun place => Number.Word.ofInt? (r.number place).toInt

/-- The array of the numbers; `span` is where it was asked for. -/
def array (r : IntRange) (span : Span) : Except Failure Value :=
  if r.step = 0 then .error (Fault.zeroStep.failAt span)
  else if limit < r.length.toInt then
    .error ((Fault.rangeTooLong r.length.toInt limit).failAt span)
  else .ok (.ofData (.array (r.numbers.map .int)))

end IntRange

end TracedScript
