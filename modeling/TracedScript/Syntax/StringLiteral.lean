import TracedScript.Number.Decimal

/-!
# The body of a string literal

What follows an opening quote, read item by item up to the first of: the closing quote, a line
break that no backslash precedes, a backslash with no meaning, the end of the text.
-/

namespace TracedScript.StringLiteral

/-- How reading the body ends. Lengths count the characters read. -/
inductive Body where
  /-- The content and the length up to and including the closing quote. -/
  | closed (content : List Char) (length : Nat)
  /-- The text ended first. -/
  | endOfText
  /-- A line break came first, behind `length` characters. -/
  | endOfLine (length : Nat)
  /-- A backslash behind `length` characters can not stand before `escaped`. -/
  | badEscape (escaped : List Char) (length : Nat)
  deriving DecidableEq, Repr

/-- The same body behind one more item of `n` characters that means `c`. -/
def Body.after (n : Nat) (c : Char) : Body → Body
  | .closed content length => .closed (c :: content) (length + n)
  | .endOfText => .endOfText
  | .endOfLine length => .endOfLine (length + n)
  | .badEscape escaped length => .badEscape escaped (length + n)

/-- The value of a digit in base sixteen. -/
def hexValue? (c : Char) : Option Nat :=
  if '0' ≤ c ∧ c ≤ '9' then some (c.toNat - '0'.toNat)
  else if 'a' ≤ c ∧ c ≤ 'f' then some (c.toNat - 'a'.toNat + 10)
  else if 'A' ≤ c ∧ c ≤ 'F' then some (c.toNat - 'A'.toNat + 10)
  else none

/-- The ASCII character that two characters after `\x` stand for: its number in base sixteen. A
plus sign may take the place of the first digit. -/
def asciiOf? (a b : Char) : Option Char :=
  match (if a = '+' then some 0 else hexValue? a), hexValue? b with
  | some high, some low =>
    if 16 * high + low < 128 then some (Char.ofNat (16 * high + low)) else none
  | _, _ => none

/-- What one character behind a backslash means, other than `x`. -/
def escapeOf? (c : Char) : Option Char :=
  if c = '\\' then some '\\'
  else if c = 'n' ∨ c = '\n' then some '\n'
  else if c = 't' then some '\t'
  else if c = '\x27' then some '\x27'
  else if c = '\x22' then some '\x22'
  else none

/-- Reads the body of a literal with the given closing quote. -/
def body (quote : Char) : List Char → Body
  | [] => .endOfText
  | '\\' :: 'x' :: a :: b :: rest =>
    match asciiOf? a b with
    | some c => (body quote rest).after 4 c
    | none => .badEscape ['x', a, b] 0
  | '\\' :: 'x' :: rest => .badEscape ('x' :: rest) 0
  | '\\' :: c :: rest =>
    match escapeOf? c with
    | some meant => (body quote rest).after 2 meant
    | none => .badEscape [c] 0
  | ['\\'] => .endOfText
  | c :: rest =>
    if c = '\n' then .endOfLine 0
    else if c = quote then .closed [] 1
    else (body quote rest).after 1 c

end TracedScript.StringLiteral
