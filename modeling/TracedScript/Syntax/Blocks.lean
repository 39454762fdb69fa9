import TracedScript.Syntax.Parser

/-!
# Blocks and what owns them

Bodies between braces, function literals, `handler`, `if`, `switch`, `for` and `while`.
-/

namespace TracedScript.Grammar

/-- The statements of a block up to its closing brace. Blank lines do not matter; a statement ends
with its line or with the block. -/
def statements (g : Grammar) : Nat → Parser (List Node)
  | 0 => Parser.exhausted
  | n + 1 => do
    Parser.skipBreaks
    if ← Parser.isMark .rbrace then return []
    let first ← g.read .statement
    let ended ← Parser.is .eol
    let closed ← Parser.isMark .rbrace
    if ended || closed then
      return first :: (← statements g n)
    else Parser.unexpected "end of line or '\x7d'"

/-- `block := "{" statement* "}"`, and the span of its closing brace. -/
def block (g : Grammar) : Parser (List Node × Span) := do
  Parser.skipBreaks
  let _ ← Parser.enter (.mark .lbrace) .significant
  let body ← statements g g.allowance
  let close ← Parser.leave (.mark .rbrace) "'\x7d'"
  return (body, close.span)

/-- An expression in parentheses, as a condition. -/
def condition (g : Grammar) : Parser Node := do
  let _ ← Parser.enter (.mark .lparen) .ignored
  let test ← g.read .expression
  let _ ← Parser.leave (.mark .rparen) "')'"
  return test

/-- `target := "var"? name` -/
def target : Parser Target := do
  let declares ← Parser.isKeyword .var
  if declares then
    let _ ← Parser.advance
  let (name, _) ← Parser.expectIdentifier
  return ⟨name, declares⟩

/-- A condition and a block, and the span of the block's closing brace. -/
def branch (g : Grammar) : Parser (Branch × Span) := do
  let test ← condition g
  let (body, stop) ← block g
  return (⟨test, body⟩, stop)

/-- One item of a parameter list: `name`, `name: type`, or an option `name = default`. Options stand
behind all parameters. -/
def parameter (g : Grammar) (acc : List ParameterLiteral × List OptionLiteral) :
    Parser (List ParameterLiteral × List OptionLiteral) := do
  let (name, span) ← Parser.expectIdentifier
  if ← Parser.isMark .equals then
    let _ ← Parser.advance
    let default ← g.read .expression
    return (acc.1, acc.2 ++ [⟨name, default, span.through default.span⟩])
  if !acc.2.isEmpty then
    throw (.rejected ⟨.grammar, s!"Parameter '{name}' must come before options", span⟩)
  if ← Parser.isMark .colon then
    let _ ← Parser.advance
    let type ← g.read .expression
    return (acc.1 ++ [⟨name, some type, span⟩], acc.2)
  return (acc.1 ++ [⟨name, none, span⟩], acc.2)

/-- `"->" type`, which may stand on the next line; without it the cursor does not move. -/
def returnType (g : Grammar) : Parser (Option Node) := do
  let before ← Parser.cursor
  Parser.skipBreaks
  if ← Parser.isMark .arrow then
    let _ ← Parser.advance
    Parser.skipBreaks
    return some (← g.read .expression)
  modify fun c => c.rewind before.index
  return none

/-- `"{" expression "}"`: a body that returns the value of its only expression. -/
def lambdaBody (g : Grammar) : Parser (List Node × Span) := do
  Parser.skipBreaks
  let _ ← Parser.enter (.mark .lbrace) .ignored
  let value ← g.read .expression
  let close ← Parser.leave (.mark .rbrace) "'\x7d'"
  return ([⟨.return (some value), value.span⟩], close.span)

/-- `function := ("func" | "lambda") "(" parameters ")" ("->" type)? body` -/
def function (g : Grammar) : Parser Node := do
  let isLambda ← Parser.isKeyword .lambda
  let start ← Parser.advance
  let _ ← Parser.enter (.mark .lparen) .ignored
  let ((params, options), _) ←
    Parser.commaSeparated (parameter g) .rparen g.allowance ([], [])
  let _ ← Parser.leave (.mark .rparen) "',' or ')'"
  let returns ← returnType g
  let (body, stop) ← if isLambda then lambdaBody g else block g
  return ⟨.function ⟨params, options, returns, body⟩, start.span.through stop⟩

/-- `handler := "handler" block` -/
def handler (g : Grammar) : Parser Node := do
  let start ← Parser.expectKeyword .handler
  let (body, stop) ← block g
  return ⟨.handler body, start.span.through stop⟩

/-- The `elif` and `else` parts of an `if` whose last closing brace is at `stop`. They may start on
the next line; where none follows the cursor does not move. -/
def alternatives (g : Grammar) : Nat → Span → Parser (List Branch × Option (List Node) × Span)
  | 0, _ => Parser.exhausted
  | n + 1, stop => do
    let before ← Parser.cursor
    Parser.skipBreaks
    if ← Parser.isKeyword .elif then
      let _ ← Parser.advance
      let (first, stop) ← branch g
      let (branches, otherwise, stop) ← alternatives g n stop
      return (first :: branches, otherwise, stop)
    if ← Parser.isKeyword .else then
      let _ ← Parser.advance
      let (body, stop) ← block g
      return ([], some body, stop)
    modify fun c => c.rewind before.index
    return ([], none, stop)

/-- `if := "if" condition block ("elif" condition block)* ("else" block)?` -/
def conditional (g : Grammar) : Parser Node := do
  let start ← Parser.expectKeyword .if
  let (first, stop) ← branch g
  let (branches, otherwise, stop) ← alternatives g g.allowance stop
  return ⟨.if (first :: branches) otherwise, start.span.through stop⟩

/-- The `when` parts of a `switch`. -/
def cases (g : Grammar) : Nat → Parser (List Branch)
  | 0 => Parser.exhausted
  | n + 1 => do
    if ← Parser.isKeyword .when then
      let _ ← Parser.advance
      let (first, _) ← branch g
      return first :: (← cases g n)
    return []

/-- `switch := "switch" "(" target "as" expression ")" "{" ("when" condition block)*
("else" block)? "}"` -/
def switch (g : Grammar) : Parser Node := do
  let start ← Parser.expectKeyword .switch
  let _ ← Parser.enter (.mark .lparen) .ignored
  let bound ← target
  let _ ← Parser.expectKeyword .as
  let subject ← g.read .expression
  let _ ← Parser.leave (.mark .rparen) "')'"
  Parser.skipBreaks
  let _ ← Parser.enter (.mark .lbrace) .ignored
  let branches ← cases g g.allowance
  let otherwise ← do
    if ← Parser.isKeyword .else then
      let _ ← Parser.advance
      let (body, _) ← block g
      pure (some body)
    else pure none
  let close ← Parser.leave (.mark .rbrace) "'when', 'else' or '\x7d'"
  return ⟨.switch bound subject branches otherwise, start.span.through close.span⟩

/-- `for := "for" "(" target "in" expression ")" block` -/
def forLoop (g : Grammar) : Parser Node := do
  let start ← Parser.expectKeyword .for
  let _ ← Parser.enter (.mark .lparen) .ignored
  let bound ← target
  let _ ← Parser.expectKeyword .in
  let iterable ← g.read .expression
  let _ ← Parser.leave (.mark .rparen) "')'"
  let (body, stop) ← block g
  return ⟨.for bound iterable body, start.span.through stop⟩

/-- `while := "while" condition block` -/
def whileLoop (g : Grammar) : Parser Node := do
  let start ← Parser.expectKeyword .while
  let test ← condition g
  let (body, stop) ← block g
  return ⟨.while test body, start.span.through stop⟩

end TracedScript.Grammar
