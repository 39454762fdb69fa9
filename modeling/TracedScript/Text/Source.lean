import TracedScript.Text.Blank

/-!
# Sources, positions and spans

A source is a text with the name it is shown under. A position is a byte offset into a source that
lies between two characters. Its line is found among the bytes at which lines start, and its column
is counted from there. To cut a text at bytes can fail, as a character may take several of them.
-/

namespace TracedScript

namespace Text

/-- The number of bytes of a text in UTF-8. -/
def byteLength : List Char → Nat
  | [] => 0
  | c :: cs => c.utf8Size + byteLength cs

/-- The text before byte `n` and the text from there on, if no character is cut. -/
def cutAt? : Nat → List Char → Option (List Char × List Char)
  | 0, cs => some ([], cs)
  | _ + 1, [] => none
  | n + 1, c :: cs =>
    if c.utf8Size ≤ n + 1 then
      (cutAt? (n + 1 - c.utf8Size) cs).map fun (front, back) => (c :: front, back)
    else none

/-- The text from byte `i` to byte `j`, if they are in this order and no character is cut. -/
def slice? (i j : Nat) (cs : List Char) : Option (List Char) :=
  if i ≤ j then
    (cutAt? i cs).bind fun (_, back) => (cutAt? (j - i) back).map fun (text, _) => text
  else none

/-- Goes back from byte `n` until no character is cut. -/
def boundaryUpTo (cs : List Char) : Nat → Nat
  | 0 => 0
  | n + 1 => if (cutAt? (n + 1) cs).isSome then n + 1 else boundaryUpTo cs n

/-- The bytes behind the line feeds of a text whose first byte has the number `start`. -/
def behindBreaks (start : Nat) : List Char → List Nat
  | [] => []
  | c :: cs =>
    let next := start + c.utf8Size
    if c = '\n' then next :: behindBreaks next cs else behindBreaks next cs

/-- Finds out by halving how many of the growing numbers are at most `n`, if the first `low` are
and those from `high` on are not. -/
def countUpTo (numbers : Array Nat) (n low high : Nat) : Nat :=
  if low < high then
    let middle := low + (high - low) / 2
    if numbers[middle]?.any (· ≤ n) then countUpTo numbers n (middle + 1) high
    else countUpTo numbers n low middle
  else low
termination_by high - low

end Text

/-- A named text. -/
structure Source where
  name : String
  text : String
  deriving DecidableEq, Repr, Inhabited

namespace Source

def chars (s : Source) : List Char := s.text.toList

/-- The bytes at which lines start: the first one, and those behind line feeds. -/
def lineStarts (s : Source) : Array Nat := (0 :: Text.behindBreaks 0 s.chars).toArray

/-- The byte at which the zero-based line `n` stops: its line feed, or the end of the text. -/
def lineStop (s : Source) (n : Nat) : Nat :=
  match s.lineStarts[n + 1]? with
  | some next => next - 1
  | none => Text.byteLength s.chars

/-- The zero-based line `n` without its line feed, empty if there is none. -/
def line (s : Source) (n : Nat) : String :=
  match s.lineStarts[n]? with
  | some start => String.ofList ((Text.slice? start (s.lineStop n) s.chars).getD [])
  | none => ""

end Source

/-- A place between two characters of a source, `index` bytes from its start. -/
structure Position where
  source : Source
  index : Nat
  deriving DecidableEq, Repr, Inhabited

namespace Position

/-- The zero-based line of the last line start up to the position, and the text from there to the
position. There is neither if the position is not between two characters. -/
def place? (p : Position) : Option (Nat × List Char) :=
  let starts := p.source.lineStarts
  match Text.countUpTo starts p.index 0 starts.size with
  | 0 => none
  | line + 1 => do
    let start ← starts[line]?
    let indent ← Text.slice? start p.index p.source.chars
    return (line, indent)

/-- The zero-based line on which the position stands. -/
def line (p : Position) : Nat := (p.place?.map (·.1)).getD 0

/-- The zero-based column: the characters between the start of the line and the position. -/
def column (p : Position) : Nat := (p.place?.map (·.2.length)).getD 0

/-- The whole line on which the position stands. -/
def lineText (p : Position) : String := p.source.line p.line

end Position

/-- From a first position to a last one. -/
structure Span where
  start : Position
  stop : Position
  deriving DecidableEq, Repr, Inhabited

namespace Span

/-- From the start of one span to the end of another. -/
def through (s t : Span) : Span := ⟨s.start, t.stop⟩

end Span

namespace Source

/-- The last position between characters that is not after byte `n`. -/
def position (s : Source) (n : Nat) : Position :=
  ⟨s, Text.boundaryUpTo s.chars (min n (Text.byteLength s.chars))⟩

/-- The span between two byte offsets. -/
def span (s : Source) (a b : Nat) : Span := ⟨s.position a, s.position b⟩

end Source

end TracedScript
