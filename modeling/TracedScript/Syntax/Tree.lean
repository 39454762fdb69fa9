import TracedScript.Text.Source

/-!
# Program trees

What a program means once its text is read: every construct of the language, each node with the
span it stands at.
-/

namespace TracedScript

inductive UnaryOperator where
  | plus | minus | not
  deriving DecidableEq, Repr

/-- The spelling of the operator. -/
def UnaryOperator.text : UnaryOperator → String
  | .plus => "+"
  | .minus => "-"
  | .not => "not"

inductive BinaryOperator where
  | add | subtract | multiply | divide | power
  | equal | notEqual | less | lessEqual | greater | greaterEqual
  | and | or
  deriving DecidableEq, Repr

namespace BinaryOperator

def all : List BinaryOperator :=
  [.add, .subtract, .multiply, .divide, .power, .equal, .notEqual, .less, .lessEqual, .greater,
    .greaterEqual, .and, .or]

/-- The spelling of the operator. -/
def text : BinaryOperator → String
  | .add => "+"
  | .subtract => "-"
  | .multiply => "*"
  | .divide => "/"
  | .power => "^"
  | .equal => "=="
  | .notEqual => "!="
  | .less => "<"
  | .lessEqual => "<="
  | .greater => ">"
  | .greaterEqual => ">="
  | .and => "and"
  | .or => "or"

theorem mem_all (op : BinaryOperator) : op ∈ all := by cases op <;> decide

end BinaryOperator

/-- The name that a `for` or `switch` binds. It is declared anew if written with `var`, else it is
assigned to. -/
structure Target where
  name : String
  declares : Bool
  deriving DecidableEq, Repr

mutual

structure Node where
  kind : NodeKind
  span : Span

inductive NodeKind where
  | int (value : Int64)
  | float (value : Float)
  | str (value : String)
  | array (items : List Node)
  | tuple (items : List Node)
  | dict (entries : List (Node × Node))
  /-- A bare name. -/
  | read (name : String)
  /-- `name = value`. -/
  | assign (name : String) (value : Node)
  /-- `var name = value`. -/
  | declare (name : String) (value : Node)
  /-- `var name`. -/
  | declareNull (name : String)
  | unary (op : UnaryOperator) (operand : Node)
  | binary (left : Node) (op : BinaryOperator) (right : Node)
  | function (literal : FunctionLiteral)
  /-- `callee(..)(..)`, with one argument list per pair of parentheses. -/
  | call (callee : Node) (lists : List ArgumentList)
  /-- `target.name`. -/
  | member (target : Node) (name : String)
  /-- `target[index]`. -/
  | index (target : Node) (index : Node)
  | «return» (value : Option Node)
  | «break»
  | «continue»
  | «if» (branches : List Branch) (otherwise : Option (List Node))
  | switch (target : Target) (subject : Node) (cases : List Branch)
      (otherwise : Option (List Node))
  | «for» (target : Target) (iterable : Node) (body : List Node)
  | «while» (condition : Node) (body : List Node)
  | handler (body : List Node)
  | include (module : Node)

/-- The signature and the body of a function. -/
structure FunctionLiteral where
  params : List ParameterLiteral
  options : List OptionLiteral
  /-- What the function must return, if declared. -/
  returns : Option Node
  body : List Node

/-- A positional parameter, possibly with the type its argument must have. -/
structure ParameterLiteral where
  name : String
  type : Option Node
  span : Span

/-- An option and its default. -/
structure OptionLiteral where
  name : String
  default : Node
  span : Span

/-- The arguments between one pair of parentheses, which `span` includes. -/
structure ArgumentList where
  positional : List Node
  named : List NamedArgument
  span : Span

/-- `name = value` in an argument list. -/
structure NamedArgument where
  name : String
  value : Node
  span : Span

/-- A condition and the block it guards. -/
structure Branch where
  condition : Node
  body : List Node

end

end TracedScript
