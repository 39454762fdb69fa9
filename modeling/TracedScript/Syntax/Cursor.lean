import TracedScript.Syntax.SourceError
import TracedScript.Syntax.Token

/-!
# The cursor over lexemes

Where reading stands in a sequence of lexemes, and whether line breaks count there. Inside `()`,
`[]` and the `{}` of dictionaries they do not: the cursor passes over them as it moves, so that
whatever reads from it never sees one.
-/

namespace TracedScript

/-- Whether line breaks separate statements in the current bracket. -/
inductive LineBreaks where
  | significant
  | ignored
  deriving DecidableEq, Repr

/-- A place in a sequence of lexemes that ends with the end of the program. -/
structure Cursor where
  lexemes : Array Lexeme
  nonempty : 0 < lexemes.size
  index : Nat
  /-- How the innermost open bracket treats line breaks. -/
  mode : LineBreaks
  /-- How the brackets around it do, innermost first. -/
  outer : List LineBreaks

namespace Cursor

/-- At the first lexeme, with line breaks significant. -/
def start (lexemes : Array Lexeme) (nonempty : 0 < lexemes.size) : Cursor :=
  ⟨lexemes, nonempty, 0, .significant, []⟩

/-- The lexeme under the cursor; a cursor set behind the end stands on the last one. -/
def current (c : Cursor) : Lexeme :=
  have : min c.index (c.lexemes.size - 1) < c.lexemes.size := by have := c.nonempty; omega
  c.lexemes[min c.index (c.lexemes.size - 1)]

def token (c : Cursor) : Token := c.current.token

def span (c : Cursor) : Span := c.current.span

/-- Passes over line breaks, never beyond the last lexeme. -/
def skipBreaks (c : Cursor) : Cursor :=
  if _h : c.token = .eol ∧ c.index + 1 < c.lexemes.size then
    skipBreaks { c with index := c.index + 1 }
  else c
termination_by c.lexemes.size - c.index
decreasing_by
  show c.lexemes.size - (c.index + 1) < c.lexemes.size - c.index
  omega

/-- Passes over line breaks that do not count. -/
def skipIgnored (c : Cursor) : Cursor :=
  match c.mode with
  | .significant => c
  | .ignored => c.skipBreaks

/-- One lexeme on, and over line breaks that do not count. -/
def advance (c : Cursor) : Cursor :=
  skipIgnored (if c.index + 1 < c.lexemes.size then { c with index := c.index + 1 } else c)

/-- Back to the nearest earlier lexeme that is no line break, or is one that counts. -/
def retreat (c : Cursor) : Cursor :=
  match _h : c.index with
  | 0 => c
  | i + 1 =>
    let back : Cursor := { c with index := i }
    if back.mode = .ignored ∧ back.token = .eol then retreat back else back
termination_by c.index
decreasing_by
  show i < c.index
  omega

/-- To an index seen before. -/
def rewind (c : Cursor) (index : Nat) : Cursor := { c with index }

/-- Into a bracket: the treatment of line breaks changes, and the bracket is passed. -/
def enter (c : Cursor) (mode : LineBreaks) : Cursor :=
  advance { c with mode, outer := c.mode :: c.outer }

/-- Out of a bracket: the treatment of line breaks is again the one around it. -/
def leave (c : Cursor) : Cursor :=
  match c.outer with
  | [] => c.advance
  | mode :: outer => advance { c with mode, outer }

/-- The error of finding the current token where `what` was expected. -/
def unexpected (c : Cursor) (what : String) : SourceError :=
  ⟨.grammar, s!"Expected {what}, found {c.token.describe}", c.span⟩

end Cursor

end TracedScript
