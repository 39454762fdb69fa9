/-!
# Kinds of values
-/

namespace TracedScript

/-- The kind of a value. A binding keeps its kind, and signatures name kinds as types. -/
inductive Kind where
  | null | int | float | str | bool
  | array | tuple | dict
  | func | builtin | exception | «namespace»
  deriving DecidableEq, Repr

/-- The name shown to users. -/
def Kind.name : Kind → String
  | .null => "Null"
  | .int => "Int"
  | .float => "Float"
  | .str => "Str"
  | .bool => "Bool"
  | .array => "Array"
  | .tuple => "Tuple"
  | .dict => "Dict"
  | .func => "Func"
  | .builtin => "BuiltInFunc"
  | .exception => "Exception"
  | .namespace => "Namespace"

end TracedScript
