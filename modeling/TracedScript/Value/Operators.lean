import TracedScript.Syntax.Tree
import TracedScript.Value.Equality

/-!
# Operators on values

Numbers are computed within one kind only: integers with integers, floats with floats. A result is
a value that has been nowhere; a failure points from the start of the left operand to the end of
the right one.
-/

namespace TracedScript.Value

/-- From the left operand to the right one, or at the one that has a place. -/
def joinedSpan (v w : Value) : Option Span :=
  match v.span, w.span with
  | some s, some t => some (s.through t)
  | some s, none => some s
  | none, t => t

/-- The kinds that an operator is defined for on at least one side. -/
def operandKinds : BinaryOperator → List Kind
  | .add => [.int, .float, .str]
  | .and => [.bool]
  | .or => [.bool]
  | .equal => []
  | .notEqual => []
  | _ => [.int, .float]

/-- The failure of an operator that is not defined between the two kinds. It blames the left
operand if the operator never applies to its kind, else the right one. -/
def unsupported (op : BinaryOperator) (v w : Value) : Failure :=
  let culprit := if v.kind ∈ operandKinds op then w else v
  ((Fault.unsupported op.text v.kind w.kind).failure (joinedSpan v w)).withOrigin culprit.origin

/-- The result of whole-number arithmetic, or the failure of leaving its range. -/
def checked (v w : Value) : Option Int64 → Except Failure Value
  | some n => .ok (.int n)
  | none => .error (Fault.overflow.failure (joinedSpan v w))

/-- A failure between two operands that blames the right one. -/
def blameRight (v w : Value) (f : Fault) : Failure :=
  (f.failure (joinedSpan v w)).withOrigin w.origin

/-- `v + w`, also of strings. -/
def add (v w : Value) : Except Failure Value :=
  match v.data, w.data with
  | .int a, .int b => checked v w (Number.Word.add? a b)
  | .float x, .float y => .ok (.float (x + y))
  | .str s, .str t => .ok (.str (s ++ t))
  | _, _ => .error (unsupported .add v w)

def subtract (v w : Value) : Except Failure Value :=
  match v.data, w.data with
  | .int a, .int b => checked v w (Number.Word.sub? a b)
  | .float x, .float y => .ok (.float (x - y))
  | _, _ => .error (unsupported .subtract v w)

def multiply (v w : Value) : Except Failure Value :=
  match v.data, w.data with
  | .int a, .int b => checked v w (Number.Word.mul? a b)
  | .float x, .float y => .ok (.float (x * y))
  | _, _ => .error (unsupported .multiply v w)

/-- `v / w`; whole numbers are divided toward zero, and no number by zero. -/
def divide (v w : Value) : Except Failure Value :=
  match v.data, w.data with
  | .int a, .int b =>
    if b = 0 then .error (blameRight v w .divisionByZero) else checked v w (Number.Word.div? a b)
  | .float x, .float y =>
    if y == 0.0 then .error (blameRight v w .divisionByZero) else .ok (.float (x / y))
  | _, _ => .error (unsupported .divide v w)

/-- `v ^ w`; whole numbers need an exponent that is not negative. -/
def power (v w : Value) : Except Failure Value :=
  match v.data, w.data with
  | .int a, .int b =>
    if b.toInt < 0 then .error (blameRight v w (.negativePower b))
    else checked v w (Number.Word.pow? a b)
  | .float x, .float y => .ok (.float (Float.pow x y))
  | _, _ => .error (unsupported .power v w)

/-- A comparison by size. One that involves no number is false. -/
def compare (op : BinaryOperator) (ints : Int → Int → Bool) (floats : Float → Float → Bool)
    (v w : Value) : Except Failure Value :=
  match v.data, w.data with
  | .int a, .int b => .ok (.bool (ints a.toInt b.toInt))
  | .float x, .float y => .ok (.bool (floats x y))
  | _, _ => .error (unsupported op v w)

/-- `and` and `or`, of which both sides have a value already. -/
def connect (op : BinaryOperator) (f : Bool → Bool → Bool) (v w : Value) : Except Failure Value :=
  match v.data, w.data with
  | .bool a, .bool b => .ok (.bool (f a b))
  | _, _ => .error (unsupported op v w)

/-- Applies an operator to two values. -/
def applyBinary : BinaryOperator → Value → Value → Except Failure Value
  | .add, v, w => add v w
  | .subtract, v, w => subtract v w
  | .multiply, v, w => multiply v w
  | .divide, v, w => divide v w
  | .power, v, w => power v w
  | .equal, v, w => .ok (.bool (v.same w))
  | .notEqual, v, w => .ok (.bool (!v.same w))
  | .less, v, w => compare .less (fun a b => a < b) (fun x y => x < y) v w
  | .lessEqual, v, w => compare .lessEqual (fun a b => a ≤ b) (fun x y => x ≤ y) v w
  | .greater, v, w => compare .greater (fun a b => b < a) (fun x y => y < x) v w
  | .greaterEqual, v, w => compare .greaterEqual (fun a b => b ≤ a) (fun x y => y ≤ x) v w
  | .and, v, w => connect .and (· && ·) v w
  | .or, v, w => connect .or (· || ·) v w

/-- The failure of a prefix operator that is not defined for the kind. -/
def unsupportedPrefix (op : UnaryOperator) (v : Value) : Failure :=
  v.blameHere (.unsupportedPrefix op.text v.kind)

/-- Applies a prefix operator. -/
def applyUnary : UnaryOperator → Value → Except Failure Value
  | .plus, v =>
    match v.data with
    | .int _ => .ok v
    | .float _ => .ok v
    | _ => .error (unsupportedPrefix .plus v)
  | .minus, v =>
    match v.data with
    | .int a =>
      match Number.Word.neg? a with
      | some b => .ok (.int b)
      | none => .error (Fault.overflow.failure v.span)
    | .float x => .ok (.float (Float.neg x))
    | _ => .error (unsupportedPrefix .minus v)
  | .not, v =>
    match v.data with
    | .bool b => .ok (.bool (!b))
    | _ => .error (unsupportedPrefix .not v)

/-- The value as a condition. -/
def truth (v : Value) : Except Failure Bool :=
  match v.data with
  | .bool b => .ok b
  | _ => .error (v.blameHere (.conditionNotBool v.kind))

end TracedScript.Value
