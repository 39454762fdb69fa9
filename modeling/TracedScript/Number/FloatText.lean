import TracedScript.Number.Shortest

/-!
# Floats in text

A float is written with the fewest digits that read back, always positionally. Inside values a
whole number below `10 ^ 16` keeps one decimal, so that it is told apart from an integer.
-/

namespace TracedScript.Number

/-- Writes a decimal positionally. -/
def Scientific.positional (s : Scientific) : List Char :=
  let ds := digits s.coefficient
  if 0 ≤ s.exponent then ds ++ List.replicate s.exponent.toNat '0'
  else
    let places := (-s.exponent).toNat
    if places < ds.length then
      ds.take (ds.length - places) ++ '.' :: ds.drop (ds.length - places)
    else '0' :: '.' :: (List.replicate (places - ds.length) '0' ++ ds)

/-- The text of a finite value: the fewest digits that read back. -/
def Binary64.text (b : Binary64) : List Char :=
  let magnitude :=
    if b.mantissa = 0 then ['0'] else (shortest b.mantissa b.exponent).positional
  if b.negative then '-' :: magnitude else magnitude

/-- The text of a float that is not finite. -/
def nonFiniteText (x : Float) : List Char :=
  if x.isNaN then ['N', 'a', 'N']
  else if x < 0.0 then ['-', 'i', 'n', 'f']
  else ['i', 'n', 'f']

/-- The fewest digits that read back, without exponent. -/
def plainText (x : Float) : List Char :=
  match Binary64.ofFloat? x with
  | some b => b.text
  | none => nonFiniteText x

/-- Like `plainText`, with `.0` behind a whole number below `10 ^ 16`. -/
def floatText (x : Float) : List Char :=
  match Binary64.ofFloat? x with
  | some b => if b.isWhole && b.wholePart < Nat.pow 10 16 then b.text ++ ['.', '0'] else b.text
  | none => nonFiniteText x

/-- The float nearest to `coefficient * 10 ^ exponent`. A value above every float is infinite and a
value below half the least float is zero, so neither needs a power of ten of that size. -/
def ofScientific (s : Scientific) : Float :=
  if s.coefficient = 0 then 0.0
  else
    let size := (digits s.coefficient).length + s.exponent
    if 310 < size then 1.0 / 0.0
    else if size < -330 then 0.0
    else Float.ofScientific s.coefficient (s.exponent < 0) s.exponent.natAbs

/-- An exponent: `e` or `E`, an optional sign and digits; nothing at all is the exponent zero. -/
def exponent? : List Char → Option Int
  | [] => some 0
  | c :: cs => if c = 'e' ∨ c = 'E' then integer? cs else none

/-- A number without sign: digits, or digits with a point before, among or after them, then an
optional exponent. -/
def magnitude? (cs : List Char) : Option Float :=
  let whole := cs.takeWhile isDigit
  let rest := cs.dropWhile isDigit
  let (part, tail) :=
    match rest with
    | '.' :: more => (more.takeWhile isDigit, more.dropWhile isDigit)
    | _ => ([], rest)
  match natural? (whole ++ part), exponent? tail with
  | some n, some e => some (ofScientific ⟨n, e - part.length⟩)
  | _, _ => none

/-- Lower case of the ASCII letters. -/
def lower (cs : List Char) : List Char := cs.map Char.toLower

/-- A float without sign: a number, `inf`, `infinity` or `nan` in any case. -/
def unsigned? (cs : List Char) : Option Float :=
  let word := lower cs
  if word = ['i', 'n', 'f'] ∨ word = ['i', 'n', 'f', 'i', 'n', 'i', 't', 'y'] then some (1.0 / 0.0)
  else if word = ['n', 'a', 'n'] then some (0.0 / 0.0)
  else magnitude? cs

/-- Reads a float with an optional sign. -/
def float? : List Char → Option Float
  | '+' :: cs => unsigned? cs
  | '-' :: cs => (unsigned? cs).map Float.neg
  | cs => unsigned? cs

end TracedScript.Number
