import TracedScript.Builtin.Conversion
import TracedScript.Builtin.Numeric
import TracedScript.Builtin.Range

/-!
# What built-in functions give

The result of a built-in function depends on its arguments alone; `print` gives null, and what it
writes is the business of whoever calls it.
-/

namespace TracedScript.Builtin

/-- The argument as a whole number. -/
def intArgument (f : Builtin) (span : Span) (v : Value) : Except Failure Int64 :=
  match v.data with
  | .int n => .ok n
  | _ => .error (v.blame (.argumentsNotOfKind f.name .int v.kind) span)

/-- Null for a condition that holds, else a failure with the message, if one is given. -/
def checkAssertion (condition : Value) (message : Option Value) (span : Span) :
    Except Failure Value :=
  match condition.data with
  | .bool true => .ok .null
  | .bool false =>
    .error ((Fault.assertionFailed ((message.map Value.display).getD "Assertion failed")).failAt span)
  | _ => .error (condition.blame (.assertionNotBool condition.kind) span)

/-- The failure of giving `n` arguments to a function that takes another number of them. -/
def wrongCount (f : Builtin) (n : Nat) (span : Span) : Failure :=
  (Fault.wrongCount f.name (alternativesText f.counts) n).failAt span

/-- The result of the function for its arguments; `span` is where it is called. -/
def result (f : Builtin) (args : List Value) (span : Span) : Except Failure Value :=
  match f, args with
  | .print, [] => .ok .null
  | .print, [_] => .ok .null
  | .range, [stop] => do
    IntRange.array ⟨0, ← intArgument .range span stop, 1⟩ span
  | .range, [start, stop] => do
    IntRange.array ⟨← intArgument .range span start, ← intArgument .range span stop, 1⟩ span
  | .range, [start, stop, step] => do
    IntRange.array
      ⟨← intArgument .range span start, ← intArgument .range span stop,
        ← intArgument .range span step⟩ span
  | .type, [v] => .ok (.str v.kind.name)
  | .panic, [v] => .error ((Fault.panicked v.display).failAt span)
  | .throw, [v] => .error ((Fault.thrown v.display).failAt span)
  | .assert, [condition] => checkAssertion condition none span
  | .assert, [condition, message] => checkAssertion condition (some message) span
  | .str, [v] => .ok (.str v.display)
  | .int, [v] => v.toInt span
  | .float, [v] => v.toFloat span
  | .bool, [v] => .ok (.bool v.toBool)
  | .array, [v] => v.toCollection .array Value.array span
  | .tuple, [v] => v.toCollection .tuple Value.tuple span
  | .sqrt, [v] => v.sqrt span
  | .floor, [v] => v.rounded "floor" Number.floor? span
  | .ceil, [v] => v.rounded "ceil" Number.ceil? span
  | .abs, [v] => v.abs span
  | f, args => .error (f.wrongCount args.length span)

/-- The line that a call of the function prints, without its line feed. -/
def printedLine? (f : Builtin) (args : List Value) : Option String :=
  match f, args with
  | .print, [] => some ""
  | .print, [v] => some v.display
  | _, _ => none

end TracedScript.Builtin
