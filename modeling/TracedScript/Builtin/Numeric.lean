import TracedScript.Value.Display

/-!
# Functions on numbers

Square root, rounding and magnitude; they take whole numbers and floats.
-/

namespace TracedScript.Value

/-- The failure for what is no number. -/
def notANumber (v : Value) (function : String) (span : Span) : Failure :=
  v.blame (.notANumber function v.kind) span

/-- The square root of a float that is not below zero. -/
def sqrtOf (v : Value) (x : Float) (span : Span) : Except Failure Value :=
  if x < 0.0 then .error (v.blame .negativeRoot span) else .ok (float x.sqrt)

/-- The square root, which is a float. -/
def sqrt (v : Value) (span : Span) : Except Failure Value :=
  match v.data with
  | .float x => v.sqrtOf x span
  | .int n =>
    match Number.toFloat? n with
    | some x => v.sqrtOf x span
    | none => .error (Fault.tooLargeToConvert.failAt span)
  | _ => .error (v.notANumber "sqrt" span)

/-- A float rounded to a whole number by `round`; whole numbers stay as they are. -/
def rounded (v : Value) (function : String) (round : Float → Option Int64) (span : Span) :
    Except Failure Value :=
  match v.data with
  | .int n => .ok (int n)
  | .float x =>
    match round x with
    | some n => .ok (int n)
    | none => .error (v.blame (.doesNotFit function v.repr) span)
  | _ => .error (v.notANumber function span)

/-- The magnitude. -/
def abs (v : Value) (span : Span) : Except Failure Value :=
  match v.data with
  | .int n =>
    match Number.Word.abs? n with
    | some m => .ok (int m)
    | none => .error (Fault.overflow.failAt span)
  | .float x => .ok (float x.abs)
  | _ => .error (v.notANumber "abs" span)

end TracedScript.Value
