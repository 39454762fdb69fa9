import TracedScript.Syntax.Parser

/-!
# Operators between operands

One function for each strength of binding, from `and` and `or` down to `^`. Operators of one
strength group to the left. To the right of `^` stands a whole term, so `2 ^ 3 ^ 2` groups as
`2 ^ (3 ^ 2)` and `2 ^ 3 * 4` as `2 ^ (3 * 4)`.
-/

namespace TracedScript.Grammar

/-- The operator that a token between two operands stands for. -/
def operator? : Token → Option BinaryOperator
  | .mark .plus => some .add
  | .mark .minus => some .subtract
  | .mark .star => some .multiply
  | .mark .slash => some .divide
  | .mark .caret => some .power
  | .mark .equalEqual => some .equal
  | .mark .bangEqual => some .notEqual
  | .mark .less => some .less
  | .mark .lessEqual => some .lessEqual
  | .mark .greater => some .greater
  | .mark .greaterEqual => some .greaterEqual
  | .keyword .and => some .and
  | .keyword .or => some .or
  | _ => none

/-- The node of two operands, from the start of the left one to the end of the right one. -/
def binaryNode (left : Node) (op : BinaryOperator) (right : Node) : Node :=
  ⟨.binary left op right, left.span.through right.span⟩

/-- The rest of a chain `left (op operand)*` with operators of one strength. -/
def chainRest (ops : List BinaryOperator) (operand : Parser Node) : Nat → Node → Parser Node
  | 0, _ => Parser.exhausted
  | n + 1, left => do
    match operator? (← Parser.peek) with
    | none => return left
    | some op =>
      if op ∈ ops then
        let _ ← Parser.advance
        let right ← operand
        chainRest ops operand n (binaryNode left op right)
      else return left

/-- The node of a prefix operator whose token stands at `start`. -/
def unaryNode (op : UnaryOperator) (start : Span) (operand : Node) : Node :=
  ⟨.unary op operand, start.through operand.span⟩

/-- `raised := factor ("^" term)*` -/
def raised (g : Grammar) (factor : Parser Node) : Parser Node := do
  chainRest [.power] (g.read .term) g.allowance (← factor)

/-- `term := raised (("*" | "/") raised)*` -/
def term (g : Grammar) (factor : Parser Node) : Parser Node := do
  chainRest [.multiply, .divide] (raised g factor) g.allowance (← raised g factor)

/-- `sum := term (("+" | "-") term)*` -/
def sum (g : Grammar) (factor : Parser Node) : Parser Node := do
  chainRest [.add, .subtract] (term g factor) g.allowance (← term g factor)

/-- `comparison := "not" comparison | sum (op sum)*` -/
def comparison (g : Grammar) (factor : Parser Node) : Parser Node := do
  if ← Parser.isKeyword .not then
    let start ← Parser.advance
    return unaryNode .not start.span (← g.read .comparison)
  else
    Parser.orExpected "value, identifier, '+', '-', '(', '[' or 'not'" do
      chainRest [.equal, .notEqual, .less, .lessEqual, .greater, .greaterEqual] (sum g factor)
        g.allowance (← sum g factor)

/-- `logical := comparison (("and" | "or") comparison)*` -/
def logical (g : Grammar) (factor : Parser Node) : Parser Node := do
  chainRest [.and, .or] (comparison g factor) g.allowance (← comparison g factor)

end TracedScript.Grammar
