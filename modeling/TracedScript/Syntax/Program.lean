import TracedScript.Syntax.Operands
import TracedScript.Syntax.Operators
import TracedScript.Syntax.Scan

/-!
# Statements and programs

Closes the grammar: each phrase is read with the grammar of one step less, which is enough because
every phrase inside a construct starts behind a token of that construct.
-/

namespace TracedScript

namespace Grammar

/-- `declaration := "var" name ("=" expression)?` -/
def declaration (g : Grammar) : Parser Node := do
  let start ← Parser.expectKeyword .var
  let (name, span) ← Parser.expectIdentifier
  if ← Parser.isMark .equals then
    let _ ← Parser.advance
    let value ← g.read .expression
    return ⟨.declare name value, start.span.through value.span⟩
  return ⟨.declareNull name, start.span.through span⟩

/-- `expression := declaration | logical` -/
def expression (g : Grammar) : Parser Node := do
  if ← Parser.isKeyword .var then declaration g
  else
    Parser.orExpected "identifier, keyword, operator or value" (logical g (factor g))

/-- A statement that is a keyword with parentheses, of which `inside` reads what they hold. -/
def keywordStatement (inside : Parser NodeKind) : Parser Node := do
  let start ← Parser.advance
  let _ ← Parser.enter (.mark .lparen) .ignored
  let kind ← inside
  let close ← Parser.leave (.mark .rparen) "')'"
  return ⟨kind, start.span.through close.span⟩

/-- `statement := "return" "(" expression? ")" | "break" "(" ")" | "continue" "(" ")"
| "include" "(" expression ")" | expression` -/
def statement (g : Grammar) : Parser Node := do
  match ← Parser.peek with
  | .keyword .return =>
    keywordStatement do
      if ← Parser.isMark .rparen then return .return none
      return .return (some (← g.read .expression))
  | .keyword .include => keywordStatement do return .include (← g.read .expression)
  | .keyword .break => keywordStatement (pure .break)
  | .keyword .continue => keywordStatement (pure .continue)
  | _ => expression g

/-- Reads one phrase with the given grammar for the phrases inside. -/
def phrase (g : Grammar) : Phrase → Parser Node
  | .expression => expression g
  | .statement => statement g
  | .comparison => comparison g (factor g)
  | .term => term g (factor g)
  | .factor => factor g

/-- Reads a phrase of which constructs nest at most `n` deep. -/
def readTo : Nat → Phrase → Parser Node
  | 0, _ => Parser.exhausted
  | n + 1, p => phrase ⟨n, readTo n⟩ p

/-- The grammar that suffices for everything behind a cursor. -/
def covering (c : Cursor) : Grammar := ⟨c.lexemes.size + 1, readTo (c.lexemes.size + 1)⟩

/-- The statements of a program, one or more line breaks apart. -/
def program (g : Grammar) : Nat → Parser (List Node)
  | 0 => Parser.exhausted
  | n + 1 => do
    Parser.skipBreaks
    if ← Parser.is .eof then return []
    let first ← statement g
    let ended ← Parser.is .eol
    let finished ← Parser.is .eof
    if ended || finished then
      return first :: (← program g n)
    else Parser.unexpected "end of line"

end Grammar

/-- The outcome of a parser from a cursor on. -/
def Parser.run {α : Type} (p : Parser α) (c : Cursor) : Except SourceError α × Cursor :=
  match p c with
  | (.ok a, c') => (.ok a, c')
  | (.error (.rejected e), c') => (.error e, c')
  | (.error .exhausted, c') => (.error (c'.unexpected "a shorter program"), c')

/-- The statements that a sequence of lexemes consists of. A sequence without its end is an empty
program. -/
def parse (lexemes : List Lexeme) : Except SourceError (List Node) :=
  if h : 0 < lexemes.toArray.size then
    let c := Cursor.start lexemes.toArray h
    let g := Grammar.covering c
    ((Grammar.program g g.allowance).run c).1
  else .ok []

/-- The program tree of a source. -/
def Source.program (source : Source) : Except SourceError (List Node) := do
  parse (← scan source)

end TracedScript
