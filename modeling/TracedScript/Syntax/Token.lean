import TracedScript.Number.FloatText
import TracedScript.Text.Quoted
import TracedScript.Text.Source

/-!
# Tokens

The smallest meaningful pieces of a program. A lexeme is a token with the span it was read from.
-/

namespace TracedScript

/-- The reserved words. -/
inductive Keyword where
  | var | func | lambda | handler
  | and | or | not
  | «if» | elif | «else»
  | switch | as | when
  | «for» | «in» | «while»
  | «return» | «break» | «continue»
  | include
  deriving DecidableEq, Repr

namespace Keyword

def all : List Keyword :=
  [.var, .func, .lambda, .handler, .and, .or, .not, .if, .elif, .else, .switch, .as, .when, .for,
    .in, .while, .return, .break, .continue, .include]

/-- The spelling of the word. -/
def text : Keyword → String
  | .var => "var"
  | .func => "func"
  | .lambda => "lambda"
  | .handler => "handler"
  | .and => "and"
  | .or => "or"
  | .not => "not"
  | .if => "if"
  | .elif => "elif"
  | .else => "else"
  | .switch => "switch"
  | .as => "as"
  | .when => "when"
  | .for => "for"
  | .in => "in"
  | .while => "while"
  | .return => "return"
  | .break => "break"
  | .continue => "continue"
  | .include => "include"

/-- The keyword spelled exactly so. -/
def ofText? (name : String) : Option Keyword := all.find? fun k => k.text == name

theorem mem_all (k : Keyword) : k ∈ all := by cases k <;> decide

end Keyword

/-- Operators, brackets and separators. -/
inductive Mark where
  | plus | minus | star | slash | caret
  | equals | equalEqual | bang | bangEqual
  | less | lessEqual | greater | greaterEqual
  | arrow | comma | colon | period
  | lparen | rparen | lbrace | rbrace | lbracket | rbracket
  deriving DecidableEq, Repr

/-- The spelling of the mark. -/
def Mark.text : Mark → String
  | .plus => "+"
  | .minus => "-"
  | .star => "*"
  | .slash => "/"
  | .caret => "^"
  | .equals => "="
  | .equalEqual => "=="
  | .bang => "!"
  | .bangEqual => "!="
  | .less => "<"
  | .lessEqual => "<="
  | .greater => ">"
  | .greaterEqual => ">="
  | .arrow => "->"
  | .comma => ","
  | .colon => ":"
  | .period => "."
  | .lparen => "("
  | .rparen => ")"
  | .lbrace => "\x7b"
  | .rbrace => "\x7d"
  | .lbracket => "["
  | .rbracket => "]"

inductive Token where
  | float (value : Float)
  | int (value : Int64)
  | str (value : String)
  | identifier (name : String)
  | keyword (word : Keyword)
  | mark (mark : Mark)
  /-- A line break; it separates statements. -/
  | eol
  /-- The end of the program. -/
  | eof
  deriving DecidableEq, Repr

/-- How an error message names the token. -/
def Token.describe : Token → String
  | .float x => String.ofList (Number.plainText x)
  | .int n => String.ofList (Number.Word.text n)
  | .str s => Text.quote s
  | .identifier name => s!"identifier '{name}'"
  | .keyword word => s!"keyword '{word.text}'"
  | .mark m => s!"'{m.text}'"
  | .eol => "end of line"
  | .eof => "end of input"

/-- A token and where it stands. -/
structure Lexeme where
  token : Token
  span : Span
  deriving DecidableEq, Repr

end TracedScript
