/-!
# Painted text

A report is laid out once, as lines of pieces that each say what they are. Only when it is written
out is it decided whether the pieces are painted, so colour changes nothing but colour.
-/

namespace TracedScript

/-- What a piece of a report is. -/
inductive Role where
  /-- Blanks and punctuation, never painted. -/
  | plain
  /-- The lines around a report, and the kind of the error. -/
  | alarm
  | heading
  /-- Where something happened. -/
  | place
  /-- A line of the program, and what marks a part of it. -/
  | quotation
  | message
  deriving DecidableEq, Repr

structure Piece where
  role : Role
  text : String
  deriving DecidableEq, Repr

/-- What a terminal does not show but obeys: the sequence with the given number. -/
def escapeSequence (code : String) : String := "\x1b[" ++ code ++ "m"

namespace Role

/-- The sequences before and behind a painted piece. -/
def sequences : Role → String × String
  | plain => ("", "")
  | alarm => (escapeSequence "1" ++ escapeSequence "31", escapeSequence "39" ++ escapeSequence "0")
  | heading => (escapeSequence "1" ++ escapeSequence "34", escapeSequence "39" ++ escapeSequence "0")
  | place => (escapeSequence "32", escapeSequence "39")
  | quotation => (escapeSequence "33", escapeSequence "39")
  | message => (escapeSequence "31", escapeSequence "39")

end Role

/-- Says how the text of a piece is written out. -/
abbrev Painter := Role → String → String

namespace Painter

def none : Painter := fun _ text => text

/-- In the colours of a terminal. -/
def ansi : Painter := fun role text => role.sequences.1 ++ text ++ role.sequences.2

end Painter

/-- The text of a piece, given to the painter unless it is plain. -/
def Piece.render (paint : Painter) (p : Piece) : String :=
  if p.role = .plain then p.text else paint p.role p.text

/-- Lines of pieces. -/
abbrev Report := List (List Piece)

namespace Report

/-- One line. -/
def renderLine (paint : Painter) (line : List Piece) : String :=
  String.join (line.map (Piece.render paint))

/-- The lines, with line feeds between them. -/
def renderWith (paint : Painter) (r : Report) : String :=
  "\n".intercalate (r.map (renderLine paint))

/-- The text of a report, in colours or not. -/
def render (colored : Bool) (r : Report) : String :=
  r.renderWith (if colored then .ansi else .none)

theorem renderLine_none (line : List Piece) :
    renderLine .none line = String.join (line.map (·.text)) := by
  have same : Piece.render .none = (·.text) := funext fun p => ite_self _
  rw [renderLine, same]

theorem render_false (r : Report) :
    r.render false = "\n".intercalate (r.map fun line => String.join (line.map (·.text))) := by
  rw [render, if_neg Bool.false_ne_true, renderWith]
  exact congrArg _ (List.map_congr_left fun line _ => renderLine_none line)

end Report

end TracedScript
