import TracedScript.Text.Source

/-!
# Errors in the text of a program

Found before a program runs, so they point at a span and know no frame.
-/

namespace TracedScript

/-- The two families: a program that is not well formed, and a string literal that is not. -/
inductive SourceError.Kind where
  | grammar
  | literal
  deriving DecidableEq, Repr

/-- The name shown to users. -/
def SourceError.Kind.name : SourceError.Kind → String
  | .grammar => "SyntaxError"
  | .literal => "EscapeError"

structure SourceError where
  kind : SourceError.Kind
  message : String
  span : Span
  deriving DecidableEq, Repr

/-- Why no token could be read. -/
inductive LexicalFault where
  | illegalCharacter (c : Char)
  | integerTooLarge
  /-- A string literal ran into the end of the text. -/
  | unclosedAtEnd (quote : Char)
  /-- A string literal ran into the end of its line. -/
  | unclosedAtLine (quote : Char)
  /-- A backslash before something that has no meaning there. -/
  | badEscape (escaped : List Char)
  deriving DecidableEq, Repr

namespace LexicalFault

def kind : LexicalFault → SourceError.Kind
  | .illegalCharacter _ => .grammar
  | .integerTooLarge => .grammar
  | .unclosedAtEnd _ => .literal
  | .unclosedAtLine _ => .literal
  | .badEscape _ => .literal

def message : LexicalFault → String
  | .illegalCharacter c => "Illegal character '" ++ c.toString ++ "' was found"
  | .integerTooLarge => "Integer literal is too large"
  | .unclosedAtEnd quote => "Invalid EOF, expected " ++ quote.toString
  | .unclosedAtLine quote => "Invalid EOL, expected " ++ quote.toString
  | .badEscape escaped => "'" ++ String.ofList escaped ++ "' can not be escaped"

/-- The fault as an error at a span. -/
def error (f : LexicalFault) (span : Span) : SourceError := ⟨f.kind, f.message, span⟩

end LexicalFault

end TracedScript
