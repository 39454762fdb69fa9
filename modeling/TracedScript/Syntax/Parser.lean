import TracedScript.Syntax.Cursor
import TracedScript.Syntax.Tree

/-!
# Reading from a cursor

Parsers move a cursor and either give a result or stop. The cursor is kept when they stop: how far
it came decides which of two errors is reported.
-/

namespace TracedScript

/-- Why a parser gave no result. -/
inductive Parser.Stop where
  | rejected (error : SourceError)
  /-- The allowance of steps was used up; it never is when it exceeds the number of lexemes. -/
  | exhausted
  deriving Repr

/-- Moves a cursor, with a result or a reason to stop. -/
abbrev Parser (α : Type) := ExceptT Parser.Stop (StateM Cursor) α

namespace Parser

def exhausted {α : Type} : Parser α := throw .exhausted

/-- The cursor as it stands. -/
def cursor : Parser Cursor := do return ← get

/-- The token under the cursor. -/
def peek : Parser Token := do return (← get).token

/-- Passes the current lexeme and gives it. -/
def advance : Parser Lexeme := do
  let c ← get
  set c.advance
  return c.current

/-- Rejects the current token where `what` was expected. -/
def unexpected {α : Type} (what : String) : Parser α := do
  throw (.rejected ((← get).unexpected what))

/-- The current token is the given one. -/
def is (t : Token) : Parser Bool := do return decide ((← get).token = t)

def isMark (m : Mark) : Parser Bool := is (.mark m)

def isKeyword (k : Keyword) : Parser Bool := is (.keyword k)

/-- Passes over line breaks, counting or not. -/
def skipBreaks : Parser Unit := modify Cursor.skipBreaks

/-- Passes the given token; `what` names it if it is not there. -/
def expect (t : Token) (what : String) : Parser Lexeme := do
  if ← is t then advance else unexpected what

def expectKeyword (k : Keyword) : Parser Lexeme := expect (.keyword k) s!"'{k.text}'"

/-- Passes a name. -/
def expectIdentifier : Parser (String × Span) := do
  let c ← get
  match c.token with
  | .identifier name => do
    set c.advance
    return (name, c.span)
  | _ => unexpected "identifier"

/-- Passes an opening token into a bracket with the given treatment of line breaks. -/
def enter (t : Token) (mode : LineBreaks) : Parser Lexeme := do
  let c ← get
  if c.token = t then
    set (c.enter mode)
    return c.current
  else unexpected t.describe

/-- Passes a closing token out of the current bracket. -/
def leave (t : Token) (what : String) : Parser Lexeme := do
  let c ← get
  if c.token = t then
    set c.leave
    return c.current
  else unexpected what

/-- Names the broader `what` as expected if `p` is rejected without having moved the cursor; an
error found further on says more than the caller could. -/
def orExpected {α : Type} (what : String) (p : Parser α) : Parser α := fun c =>
  match p c with
  | (.error (.rejected e), c') =>
    (.error (.rejected (if c'.index = c.index then c'.unexpected what else e)), c')
  | r => r

/-- Items separated by commas up to a closing mark, which is not passed; a comma may stand behind
the last one. The items are collected into `acc`. Tells also whether there was a comma, as only
that makes a tuple of one item. -/
def commaSeparated {σ : Type} (item : σ → Parser σ) (closing : Mark) : Nat → σ → Parser (σ × Bool)
  | 0, _ => exhausted
  | n + 1, acc => do
    if ← isMark closing then return (acc, false)
    let acc ← item acc
    if ← isMark .comma then
      let _ ← advance
      let (acc, _) ← commaSeparated item closing n acc
      return (acc, true)
    if ← isMark closing then return (acc, false)
    unexpected s!"',' or {(Token.mark closing).describe}"

end Parser

/-- What a parser can be asked for from within a construct. -/
inductive Phrase where
  | expression
  | statement
  | comparison
  | term
  | factor
  deriving DecidableEq, Repr

/-- A grammar up to some depth: how to read each phrase inside a construct, and how many items a
list in that construct may have. -/
structure Grammar where
  allowance : Nat
  read : Phrase → Parser Node

end TracedScript
