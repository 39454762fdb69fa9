import TracedScript.Fault.Kind
import TracedScript.Number.FloatText
import TracedScript.Syntax.SourceError
import TracedScript.Value.Kind

/-!
# What can go wrong while a program runs

Every cause of an error, with its kind and its wording.
-/

namespace TracedScript

/-- The cause of an error. -/
inductive Fault where
  -- building and using values
  | mixedKinds (container what : String) (expected given : Kind)
  | unhashable (kind : Kind)
  | noAttribute (owner name : String)
  | outOfRange (index : Int64) (kind : Kind) (length : Nat)
  | indexNotInt (kind given : Kind)
  | missingKey (repr : String)
  | notIndexable (kind : Kind)
  | overflow
  | divisionByZero
  | negativePower (exponent : Int64)
  | unsupported (symbol : String) (left right : Kind)
  | unsupportedPrefix (symbol : String) (kind : Kind)
  | conditionNotBool (given : Kind)
  -- names
  | undefined (name : String)
  | reserved (name : String)
  | kindLocked (name : String) (current given : Kind)
  -- functions
  | notCallable (kind : Kind)
  | noOption (function option : String)
  | wrongCount (function takes : String) (given : Nat)
  | tooDeep (limit : Nat)
  | argumentKind (param function : String) (expected given : Kind)
  | returnKind (function : String) (expected given : Kind)
  | notAType (repr : String)
  -- built-in functions
  | outputFailed (reason : String)
  | zeroStep
  | rangeTooLong (length limit : Int)
  | argumentsNotOfKind (function : String) (expected given : Kind)
  | assertionFailed (message : String)
  | assertionNotBool (given : Kind)
  | panicked (message : String)
  | thrown (message : String)
  | notConvertible (kind target : Kind)
  | invalidLiteral (repr : String) (target : Kind)
  | notANumber (function : String) (given : Kind)
  | negativeRoot
  | tooLargeToConvert
  | doesNotFit (function repr : String)
  -- control
  | misplacedReturn
  | misplacedBreak
  | misplacedContinue
  | notIterable (kind : Kind)
  -- modules
  | moduleNameNotStr (given : Kind)
  | invalidModuleName (repr : String)
  | circularInclude (name : String)
  | missingModule (name : String)
  | unparsableModule (name : String) (error : SourceError)

namespace Fault

def kind : Fault → FaultKind
  | .mixedKinds .. => .value
  | .unhashable .. => .value
  | .noAttribute .. => .noAttribute
  | .outOfRange .. => .index
  | .indexNotInt .. => .type
  | .missingKey .. => .index
  | .notIndexable .. => .operation
  | .overflow => .value
  | .divisionByZero => .value
  | .negativePower .. => .value
  | .unsupported .. => .operation
  | .unsupportedPrefix .. => .operation
  | .conditionNotBool .. => .type
  | .undefined .. => .identifier
  | .reserved .. => .reserved
  | .kindLocked .. => .type
  | .notCallable .. => .operation
  | .noOption .. => .argument
  | .wrongCount .. => .argument
  | .tooDeep .. => .panic
  | .argumentKind .. => .type
  | .returnKind .. => .type
  | .notAType .. => .type
  | .outputFailed .. => .panic
  | .zeroStep => .value
  | .rangeTooLong .. => .value
  | .argumentsNotOfKind .. => .type
  | .assertionFailed .. => .assertion
  | .assertionNotBool .. => .type
  | .panicked .. => .panic
  | .thrown .. => .thrown
  | .notConvertible .. => .type
  | .invalidLiteral .. => .value
  | .notANumber .. => .type
  | .negativeRoot => .value
  | .tooLargeToConvert => .value
  | .doesNotFit .. => .value
  | .misplacedReturn => .return
  | .misplacedBreak => .break
  | .misplacedContinue => .continue
  | .notIterable .. => .iteration
  | .moduleNameNotStr .. => .type
  | .invalidModuleName .. => .pattern
  | .circularInclude .. => .include
  | .missingModule .. => .include
  | .unparsableModule .. => .include

/-- A number in base ten. -/
def decimal (n : Int) : String := String.ofList (Number.integerText n)

def message : Fault → String
  | .mixedKinds container what expected given =>
    s!"{container} {what} must be of type {expected.name}, {given.name} given"
  | .unhashable kind => s!"{kind.name} can not be used as a dictionary key"
  | .noAttribute owner name => s!"{owner} has no attribute '{name}'"
  | .outOfRange index kind length =>
    s!"Index {decimal index.toInt} is out of range for {kind.name} of length {decimal length}"
  | .indexNotInt kind given =>
    s!"{kind.name} indices must be of type {Kind.int.name}, {given.name} given"
  | .missingKey repr => s!"Key {repr} was not found"
  | .notIndexable kind => s!"{kind.name} can not be indexed"
  | .overflow => "Integer overflow"
  | .divisionByZero => "Division by zero"
  | .negativePower exponent =>
    s!"{Kind.int.name} can not be raised to the negative power {decimal exponent.toInt}"
  | .unsupported symbol left right =>
    s!"Operation '{symbol}' is not supported between {left.name} and {right.name}"
  | .unsupportedPrefix symbol kind => s!"Operation '{symbol}' is not supported for {kind.name}"
  | .conditionNotBool given => s!"Condition must be of type {Kind.bool.name}, {given.name} given"
  | .undefined name => s!"{name} is not defined"
  | .reserved name => s!"{name} is a reserved name"
  | .kindLocked name current given => s!"{name} must be of type {current.name}, {given.name} given"
  | .notCallable kind => s!"{kind.name} can not be called"
  | .noOption function option => s!"{function} has no option '{option}'"
  | .wrongCount function takes given =>
    s!"{function} takes {takes} argument(s), {decimal given} given"
  | .tooDeep limit => s!"Maximum call depth of {decimal limit} exceeded"
  | .argumentKind param function expected given =>
    s!"Argument '{param}' of {function} must be of type {expected.name}, {given.name} given"
  | .returnKind function expected given =>
    s!"{function} must return type {expected.name}, {given.name} given"
  | .notAType repr => s!"{repr} is not a type"
  | .outputFailed reason => s!"Could not write output: {reason}"
  | .zeroStep => "Range step can not be zero"
  | .rangeTooLong length limit =>
    s!"Range of {decimal length} items exceeds the limit of {decimal limit}"
  | .argumentsNotOfKind function expected given =>
    s!"{function} expects arguments of type {expected.name}, {given.name} given"
  | .assertionFailed message => message
  | .assertionNotBool given =>
    s!"Assertion condition must be of type {Kind.bool.name}, {given.name} given"
  | .panicked message => message
  | .thrown message => message
  | .notConvertible kind target => s!"{kind.name} can not be converted to {target.name}"
  | .invalidLiteral repr target => s!"Could not convert {repr} to {target.name}"
  | .notANumber function given =>
    s!"{function} expects an {Kind.int.name} or a {Kind.float.name}, {given.name} given"
  | .negativeRoot => "Square root of a negative number"
  | .tooLargeToConvert => "Integer is too large to convert"
  | .doesNotFit function repr => s!"{function} of {repr} does not fit an {Kind.int.name}"
  | .misplacedReturn => "Return can only be used inside a function"
  | .misplacedBreak => "Break can only be used inside a loop"
  | .misplacedContinue => "Continue can only be used inside a loop"
  | .notIterable kind => s!"{kind.name} is not iterable"
  | .moduleNameNotStr given => s!"Module name must be of type {Kind.str.name}, {given.name} given"
  | .invalidModuleName repr => s!"Invalid module name {repr}"
  | .circularInclude name => s!"Circular include of module {name}"
  | .missingModule name => s!"Module {name} does not exist"
  | .unparsableModule name error =>
    s!"Module {name} could not be parsed: {error.kind.name}: {error.message}"

end Fault

end TracedScript
