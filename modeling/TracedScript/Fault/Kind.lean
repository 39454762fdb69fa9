/-!
# Kinds of errors
-/

namespace TracedScript

/-- The kinds of errors that a running program can meet. -/
inductive FaultKind where
  | argument | noAttribute | assertion | «break» | «continue» | identifier | include | index
  | iteration | operation | panic | pattern | reserved | «return» | thrown | type | value
  deriving DecidableEq, Repr

namespace FaultKind

def all : List FaultKind :=
  [.argument, .noAttribute, .assertion, .break, .continue, .identifier, .include, .index, .iteration,
    .operation, .panic, .pattern, .reserved, .return, .thrown, .type, .value]

/-- The name shown to users, also as the attribute `kind` of an exception. -/
def name : FaultKind → String
  | .argument => "ArgumentError"
  | .noAttribute => "AttributeError"
  | .assertion => "AssertionError"
  | .break => "BreakError"
  | .continue => "ContinueError"
  | .identifier => "IdentifierError"
  | .include => "IncludeError"
  | .index => "IndexError"
  | .iteration => "IterationError"
  | .operation => "OperationError"
  | .panic => "PanicError"
  | .pattern => "PatternError"
  | .reserved => "ReservedError"
  | .return => "ReturnError"
  | .thrown => "ThrownError"
  | .type => "TypeError"
  | .value => "ValueError"

theorem mem_all (k : FaultKind) : k ∈ all := by cases k <;> decide

end FaultKind

end TracedScript
