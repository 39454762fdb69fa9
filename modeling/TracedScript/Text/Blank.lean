/-!
# Blanks and lines

The characters that count as white space, trimming, and cutting a text into lines. `normalize`
trims every line of a program, so that indentation never matters.
-/

namespace TracedScript.Text

/-- The white space characters: tab to carriage return, space, next line, no-break space, and the
blanks, line separators and ideographic space of the standard's `White_Space` property. -/
def isBlank (c : Char) : Bool :=
  let n := c.toNat
  (9 ≤ n && n ≤ 13) || n == 0x20 || n == 0x85 || n == 0xA0 || n == 0x1680 ||
    (0x2000 ≤ n && n ≤ 0x200A) || n == 0x2028 || n == 0x2029 || n == 0x202F || n == 0x205F ||
    n == 0x3000

/-- Drops blanks at both ends. -/
def trim (cs : List Char) : List Char :=
  ((cs.dropWhile isBlank).reverse.dropWhile isBlank).reverse

/-- Cuts at every line feed. The pieces are one more than the line feeds, so a text always has a
first piece, and a text that ends with a line feed has an empty last one. -/
def pieces : List Char → List (List Char)
  | [] => [[]]
  | c :: cs =>
    if c = '\n' then [] :: pieces cs
    else
      match pieces cs with
      | [] => [[c]]
      | p :: ps => (c :: p) :: ps

/-- Drops one carriage return at the end. -/
def dropReturn (cs : List Char) : List Char :=
  if cs.getLast? = some '\r' then cs.dropLast else cs

/-- The lines of a text without their line breaks, a line feed or a carriage return and a line
feed. A line break at the very end starts no further line, and a carriage return there is kept. -/
def lines (cs : List Char) : List (List Char) :=
  let ps := pieces cs
  let last := ps.getLastD []
  ps.dropLast.map dropReturn ++ (if last = [] then [] else [last])

/-- Puts `sep` between the pieces. -/
def join (sep : List Char) : List (List Char) → List Char
  | [] => []
  | [p] => p
  | p :: q :: ps => p ++ sep ++ join sep (q :: ps)

theorem mem_join {sep : List Char} {ps : List (List Char)} {c : Char} (h : c ∈ join sep ps) :
    c ∈ sep ∨ ∃ p ∈ ps, c ∈ p := by
  induction ps with
  | nil => cases h
  | cons p ps ih =>
    cases ps with
    | nil => exact .inr ⟨p, List.mem_cons_self .., h⟩
    | cons q qs =>
      rw [join, List.append_assoc, List.mem_append, List.mem_append] at h
      obtain h | h | h := h
      · exact .inr ⟨p, List.mem_cons_self .., h⟩
      · exact .inl h
      · obtain h | ⟨r, hr, h⟩ := ih h
        · exact .inl h
        · exact .inr ⟨r, List.mem_cons_of_mem _ hr, h⟩

/-- Trims every line, so that a reported column counts from the first character of its line that
is no blank. -/
def normalize (text : String) : String :=
  String.ofList (join ['\n'] ((lines text.toList).map trim))

end TracedScript.Text
