import TracedScript.Number.FloatText
import TracedScript.Text.Blank
import TracedScript.Value.Access

/-!
# Conversions between kinds

Texts are read as numbers with blanks at both ends and underscores anywhere ignored. A conversion
that can never succeed for a kind is told apart from one that fails for this value.
-/

namespace TracedScript

/-- A text as the readers of numbers see it: without blanks at its ends and without underscores. -/
def numeral (s : String) : List Char := (Text.trim s.toList).filter (· ≠ '_')

namespace Value

/-- The failure for a kind that has no conversion. -/
def notConvertible (v : Value) (target : Kind) (span : Span) : Failure :=
  v.blame (.notConvertible v.kind target) span

/-- The result of a conversion, or the failure for a value that stands for nothing of the target
kind. -/
def converted {α : Type} (v : Value) (target : Kind) (span : Span) (wrap : α → Value) :
    Option α → Except Failure Value
  | some a => .ok (wrap a)
  | none => .error (v.blame (.invalidLiteral v.repr target) span)

/-- As a whole number: floats are cut off toward zero, and `True` is one. -/
def toInt (v : Value) (span : Span) : Except Failure Value :=
  match v.data with
  | .int n => .ok (int n)
  | .bool b => .ok (int (if b then 1 else 0))
  | .float x => v.converted .int span int (Number.truncate? x)
  | .str s => v.converted .int span int (Number.Word.ofText? (numeral s))
  | _ => .error (v.notConvertible .int span)

/-- As a float: only whole numbers that a float holds exactly, and `True` is one. -/
def toFloat (v : Value) (span : Span) : Except Failure Value :=
  match v.data with
  | .float x => .ok (float x)
  | .int n => v.converted .float span float (Number.toFloat? n)
  | .bool b => .ok (float (if b then 1.0 else 0.0))
  | .str s => v.converted .float span float (Number.float? (numeral s))
  | _ => .error (v.notConvertible .float span)

/-- As a truth value: null, zeros and what is empty are false. -/
def toBool (v : Value) : Bool :=
  match v.data with
  | .null => false
  | .bool b => b
  | .int n => n != 0
  | .float x => x != 0.0
  | .str s => s != ""
  | .array items => !items.isEmpty
  | .tuple items => !items.isEmpty
  | .dict d => !d.entries.isEmpty
  | _ => true

/-- The elements of a value as a collection built by `collect`. -/
def toCollection (v : Value) (target : Kind) (collect : List Value → Except Failure Value)
    (span : Span) : Except Failure Value :=
  match v.elements? with
  | some items => collect items
  | none => .error (v.notConvertible target span)

end Value

end TracedScript
