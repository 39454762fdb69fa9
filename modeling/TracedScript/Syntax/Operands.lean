import TracedScript.Syntax.Blocks

/-!
# Operands

Signs, the innermost forms of expressions, and the calls, indices and attributes behind them.
-/

namespace TracedScript.Grammar

/-- What an argument list has collected: positional and named arguments, each in source order. -/
abbrev Arguments := List Node × List NamedArgument

/-- The name and its span if the cursor stands on `name =`, with the cursor behind both. -/
def namedStart? (c : Cursor) : Option (String × Span × Cursor) :=
  match c.token with
  | .identifier name =>
    let next := c.advance
    if next.token = .mark .equals then some (name, c.span, next.advance) else none
  | _ => none

/-- One argument: `name = expression` or `expression`. -/
def argument (g : Grammar) (acc : Arguments) : Parser Arguments := do
  match namedStart? (← Parser.cursor) with
  | some (name, span, behind) =>
    set behind
    let value ← g.read .expression
    return (acc.1, acc.2 ++ [⟨name, value, span.through value.span⟩])
  | none =>
    let value ← g.read .expression
    return (acc.1 ++ [value], acc.2)

/-- `arguments := "(" (argument ("," argument)* ","?)? ")"` -/
def arguments (g : Grammar) : Parser ArgumentList := do
  let start ← Parser.enter (.mark .lparen) .ignored
  let ((positional, named), _) ←
    Parser.commaSeparated (argument g) .rparen g.allowance ([], [])
  let close ← Parser.leave (.mark .rparen) "',' or ')'"
  return ⟨positional, named, start.span.through close.span⟩

/-- A call of `callee`; if `callee` is itself a call that ends here, it gets one more argument
list. -/
def callNode (callee : Node) (chaining : Bool) (list : ArgumentList) : Node :=
  let span := callee.span.through list.span
  match chaining, callee.kind with
  | true, .call inner lists => ⟨.call inner (lists ++ [list]), span⟩
  | _, _ => ⟨.call callee [list], span⟩

/-- The calls, indices and attributes behind an operand. `chaining` tells that the operand read so
far ends with an argument list. -/
def trailers (g : Grammar) : Nat → Node → Bool → Parser Node
  | 0, _, _ => Parser.exhausted
  | n + 1, node, chaining => do
    match ← Parser.peek with
    | .mark .lparen =>
      let list ← arguments g
      trailers g n (callNode node chaining list) true
    | .mark .lbracket =>
      let _ ← Parser.enter (.mark .lbracket) .ignored
      let index ← g.read .expression
      let close ← Parser.leave (.mark .rbracket) "']'"
      trailers g n ⟨.index node index, node.span.through close.span⟩ false
    | .mark .period =>
      let _ ← Parser.advance
      let (name, span) ← Parser.expectIdentifier
      trailers g n ⟨.member node name, node.span.through span⟩ false
    | _ => return node

/-- A list of expressions up to a closing mark. -/
def expressions (g : Grammar) (closing : Mark) : Parser (List Node × Bool) :=
  Parser.commaSeparated (fun acc => do return acc ++ [← g.read .expression]) closing g.allowance []

/-- `name` or `name = expression`. -/
def nameOrAssignment (g : Grammar) (name : String) : Parser Node := do
  let start ← Parser.advance
  if ← Parser.isMark .equals then
    let _ ← Parser.advance
    let value ← g.read .expression
    return ⟨.assign name value, start.span.through value.span⟩
  return ⟨.read name, start.span⟩

/-- `"(" ")"`, `"(" expression ")"` or a tuple. One expression without a comma stands for itself,
from parenthesis to parenthesis. -/
def group (g : Grammar) : Parser Node := do
  let start ← Parser.enter (.mark .lparen) .ignored
  let (items, comma) ← expressions g .rparen
  let close ← Parser.leave (.mark .rparen) "',' or ')'"
  let span := start.span.through close.span
  match items, comma with
  | [inner], false => return { inner with span }
  | _, _ => return ⟨.tuple items, span⟩

/-- `"[" (expression ("," expression)* ","?)? "]"` -/
def array (g : Grammar) : Parser Node := do
  let start ← Parser.enter (.mark .lbracket) .ignored
  let (items, _) ← expressions g .rbracket
  let close ← Parser.leave (.mark .rbracket) "',' or ']'"
  return ⟨.array items, start.span.through close.span⟩

/-- `expression ":" expression` -/
def entry (g : Grammar) (acc : List (Node × Node)) : Parser (List (Node × Node)) := do
  let key ← g.read .expression
  let _ ← Parser.expect (.mark .colon) "':'"
  let value ← g.read .expression
  return acc ++ [(key, value)]

/-- `"{" (entry ("," entry)* ","?)? "}"` -/
def dictionary (g : Grammar) : Parser Node := do
  let start ← Parser.enter (.mark .lbrace) .ignored
  let (entries, _) ← Parser.commaSeparated (entry g) .rbrace g.allowance []
  let close ← Parser.leave (.mark .rbrace) "',' or '\x7d'"
  return ⟨.dict entries, start.span.through close.span⟩

/-- The current lexeme as a node of its own. -/
def literal (kind : NodeKind) : Parser Node := do
  let here ← Parser.advance
  return ⟨kind, here.span⟩

/-- The innermost forms. -/
def atom (g : Grammar) : Parser Node := do
  match ← Parser.peek with
  | .int value => literal (.int value)
  | .float value => literal (.float value)
  | .str value => literal (.str value)
  | .identifier name => nameOrAssignment g name
  | .mark .lparen => group g
  | .mark .lbracket => array g
  | .mark .lbrace => dictionary g
  | .keyword .func => function g
  | .keyword .lambda => function g
  | .keyword .handler => handler g
  | .keyword .if => conditional g
  | .keyword .switch => switch g
  | .keyword .for => forLoop g
  | .keyword .while => whileLoop g
  | _ => Parser.unexpected "value, identifier, '(', '[' or '\x7b'"

/-- An operand and everything behind it that belongs to it. -/
def operand (g : Grammar) : Parser Node := do
  let first ← atom g
  trailers g g.allowance first false

/-- `factor := ("+" | "-") factor | operand` -/
def factor (g : Grammar) : Parser Node := do
  match ← Parser.peek with
  | .mark .plus =>
    let start ← Parser.advance
    let inner ← g.read .factor
    return ⟨.unary .plus inner, start.span.through inner.span⟩
  | .mark .minus =>
    let start ← Parser.advance
    let inner ← g.read .factor
    return ⟨.unary .minus inner, start.span.through inner.span⟩
  | _ => operand g

end TracedScript.Grammar
