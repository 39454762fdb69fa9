import TracedScript.Syntax.SourceError
import TracedScript.Syntax.StringLiteral
import TracedScript.Syntax.Token

/-!
# From a source to its lexemes

The text is cut from left to right, each time at the longest token that starts there; blanks and
comments between tokens are dropped. `scan` ends every sequence with a line break and the end of
the program, both empty and at the end of the text.
-/

namespace TracedScript

namespace Scan

/-- Blanks between tokens; a line feed is a token. -/
def isGap (c : Char) : Bool := c = ' ' || c = '\t' || c = '\r' || c = '\x0c'

/-- What numbers continue with: digits and underscores. -/
def isNumberPart (c : Char) : Bool := Number.isDigit c || c = '_'

def isNameStart (c : Char) : Bool := c.isAlpha || c = '_'

def isNamePart (c : Char) : Bool := isNameStart c || Number.isDigit c

/-- The text without underscores. -/
def withoutUnderscores (cs : List Char) : List Char := cs.filter (· ≠ '_')

/-- The length of a block comment's body with its closing `=#`, or of all the rest if it is not
closed. -/
def blockLength : List Char → Nat
  | '=' :: '#' :: _ => 2
  | _ :: cs => blockLength cs + 1
  | [] => 0

/-- The length of a comment behind its `#`: up to the closing `=#` if it starts with `=`, else up to
the end of the line. -/
def commentLength : List Char → Nat
  | '=' :: cs => blockLength cs + 1
  | cs => (cs.takeWhile (· ≠ '\n')).length

/-- One step of the scan. Lengths count the characters behind the first. -/
inductive Step where
  | skip (more : Nat)
  | token (t : Token) (more : Nat)
  /-- A fraction such as `.5`, which is cut in two behind a number. -/
  | fraction (more : Nat)
  /-- A fault whose span starts `skipped` characters in and is `length` characters long. -/
  | fault (f : LexicalFault) (skipped length : Nat)

/-- A string literal behind its opening quote. -/
def stringStep (quote : Char) (rest : List Char) : Step :=
  match StringLiteral.body quote rest with
  | .closed content length => .token (.str (String.ofList content)) length
  | .endOfText => .fault (.unclosedAtEnd quote) 0 (rest.length + 1)
  | .endOfLine length => .fault (.unclosedAtLine quote) 0 (length + 1)
  | .badEscape escaped length => .fault (.badEscape escaped) (length + 1) (escaped.length + 1)

/-- A number: digits, then possibly a point and further digits. -/
def numberStep (c : Char) (rest : List Char) : Step :=
  let whole := rest.takeWhile isNumberPart
  match rest.dropWhile isNumberPart with
  | '.' :: more =>
    let part := more.takeWhile isNumberPart
    match Number.float? (withoutUnderscores (c :: whole ++ '.' :: part)) with
    | some x => .token (.float x) (whole.length + 1 + part.length)
    | none => .fault (.illegalCharacter c) 0 1
  | _ =>
    match Number.Word.ofText? (withoutUnderscores (c :: whole)) with
    | some n => .token (.int n) whole.length
    | none => .fault .integerTooLarge 0 (whole.length + 1)

/-- A name, or the keyword it spells. -/
def nameStep (c : Char) (rest : List Char) : Step :=
  let more := rest.takeWhile isNamePart
  let name := String.ofList (c :: more)
  match Keyword.ofText? name with
  | some word => .token (.keyword word) more.length
  | none => .token (.identifier name) more.length

/-- A mark of one character, or of two if `second` follows. -/
def eitherMark (second : Char) (two one : Mark) : List Char → Step
  | c :: _ => if c = second then .token (.mark two) 1 else .token (.mark one) 0
  | [] => .token (.mark one) 0

/-- Marks that no longer mark starts with. -/
def singleMark? (c : Char) : Option Mark :=
  match c with
  | '+' => some .plus
  | '*' => some .star
  | '/' => some .slash
  | '^' => some .caret
  | ',' => some .comma
  | ':' => some .colon
  | '(' => some .lparen
  | ')' => some .rparen
  | '\x7b' => some .lbrace
  | '\x7d' => some .rbrace
  | '[' => some .lbracket
  | ']' => some .rbracket
  | _ => none

/-- The longest token, gap or comment at the start of `c :: rest`. -/
def step (c : Char) (rest : List Char) : Step :=
  if isGap c then .skip 0
  else if c = '\n' then .token .eol 0
  else if Number.isDigit c then numberStep c rest
  else if isNameStart c then nameStep c rest
  else if c = '\x22' ∨ c = '\x27' then stringStep c rest
  else if c = '#' then .skip (commentLength rest)
  else if c = '.' then
    match rest with
    | d :: more =>
      if Number.isDigit d then .fraction (1 + (more.takeWhile isNumberPart).length)
      else .token (.mark .period) 0
    | [] => .token (.mark .period) 0
  else if c = '-' then eitherMark '>' .arrow .minus rest
  else if c = '=' then eitherMark '=' .equalEqual .equals rest
  else if c = '!' then eitherMark '=' .bangEqual .bang rest
  else if c = '<' then eitherMark '=' .lessEqual .less rest
  else if c = '>' then eitherMark '=' .greaterEqual .greater rest
  else
    match singleMark? c with
    | some m => .token (.mark m) 0
    | none => .fault (.illegalCharacter c) 0 1

/-- The token ends a number, so that a fraction directly behind it is a point and an integer. -/
def endsNumber : Token → Bool
  | .int _ => true
  | .float _ => true
  | _ => false

/-- The lexemes of a fraction: a float, or behind a number a point and an integer. -/
def fractionLexemes (source : Source) (start : Nat) (behindNumber : Bool) (text : List Char) :
    Except SourceError (List Lexeme) :=
  let stop := start + Text.byteLength text
  let between (a b : Nat) : Span := ⟨⟨source, a⟩, ⟨source, b⟩⟩
  let digits := withoutUnderscores text
  if behindNumber then
    match Number.Word.ofText? (digits.drop 1) with
    | some n =>
      .ok [⟨.mark .period, between start (start + 1)⟩, ⟨.int n, between (start + 1) stop⟩]
    | none => .error (LexicalFault.integerTooLarge.error (between (start + 1) stop))
  else
    match Number.float? digits with
    | some x => .ok [⟨.float x, between start stop⟩]
    | none => .error ((LexicalFault.illegalCharacter '.').error (between start (start + 1)))

/-- The lexemes of the text that is left, which starts at byte `start`. `behindNumber` tells that a
number ends exactly there. -/
def lexemes (source : Source) (start : Nat) (behindNumber : Bool) :
    List Char → Except SourceError (List Lexeme)
  | [] => .ok []
  | c :: rest =>
    match step c rest with
    | .skip more =>
      let text := c :: rest.take more
      lexemes source (start + Text.byteLength text) false (rest.drop more)
    | .token t more => do
      let text := c :: rest.take more
      let stop := start + Text.byteLength text
      let later ← lexemes source stop (endsNumber t) (rest.drop more)
      .ok (⟨t, ⟨⟨source, start⟩, ⟨source, stop⟩⟩⟩ :: later)
    | .fraction more => do
      let text := c :: rest.take more
      let here ← fractionLexemes source start behindNumber text
      let later ← lexemes source (start + Text.byteLength text) true (rest.drop more)
      .ok (here ++ later)
    | .fault f skipped length =>
      let first := start + Text.byteLength ((c :: rest).take skipped)
      let last := start + Text.byteLength ((c :: rest).take (skipped + length))
      .error (f.error ⟨⟨source, first⟩, ⟨source, last⟩⟩)
termination_by cs => cs.length
decreasing_by all_goals (simp only [List.length_cons, List.length_drop]; omega)

end Scan

/-- The lexemes of a source. -/
def scan (source : Source) : Except SourceError (List Lexeme) := do
  let found ← Scan.lexemes source 0 false source.chars
  let stop : Position := ⟨source, Text.byteLength source.chars⟩
  .ok (found ++ [⟨.eol, ⟨stop, stop⟩⟩, ⟨.eof, ⟨stop, stop⟩⟩])

end TracedScript
