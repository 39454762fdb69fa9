import TracedScript.Fault.Failure
import TracedScript.Report.Paint

/-!
# Reports of errors

A report quotes the line that an error points at, with marks under the part that is meant. For an
error of a running program it does so for every frame, the outermost first, and then for every place
that the value to blame has had, the oldest first.
-/

namespace TracedScript.Report

/-- How wide the lines around a report are. -/
def width : Nat := 60

/-- A character written `n` times. -/
def repeated (c : Char) (n : Nat) : String := String.ofList (List.replicate n c)

/-- A title in the middle of a line of equals signs; what can not be halved is longer behind it. -/
def banner (title : String) : List Piece :=
  let free := width - title.length
  let before := free / 2
  [⟨.alarm, repeated '=' before ++ title ++ repeated '=' (free - before)⟩]

/-- How many marks stand under the quoted line: one for each character of the span on its first
line, but at least one. -/
def markCount (span : Span) : Nat :=
  let start := span.start
  let stop :=
    if span.stop.line = start.line then span.stop.column else start.lineText.toList.length
  max 1 (stop - start.column)

/-- Where a span starts, the line that it starts on, and marks under it. -/
def excerpt (span : Span) : Report :=
  let start := span.start
  let line := Fault.decimal (start.line + 1)
  let column := Fault.decimal (start.column + 1)
  [[⟨.place, s!"    Line {line}, Column {column}"⟩],
    [⟨.plain, "   >"⟩, ⟨.quotation, start.lineText⟩],
    [⟨.plain, "    " ++ repeated ' ' start.column⟩,
      ⟨.quotation, repeated '^' (markCount span)⟩]]

/-- A span in a frame of the given name. -/
def placeIn (display : String) : Option Span → Report
  | some span => [⟨.place, s!"  File {span.start.source.name}, In {display}"⟩] :: excerpt span
  | none => [[⟨.place, s!"  In {display}"⟩]]

/-- Frames, innermost first, each with the span that it had come to: the given one in the first
frame, and in every other one the call that made the frame before it. -/
def reached (span : Option Span) : List Frame → List (String × Option Span)
  | [] => []
  | f :: fs => (f.display, span) :: reached f.callSite fs

/-- The frames of a failure, innermost first. One that knows no frame arose in the program. -/
def trail (e : Failure) : List (String × Option Span) :=
  match e.stack with
  | some stack => reached e.span stack.frames
  | none => [("<program>", e.span)]

/-- The kind and the message of an error. -/
def summary (kind message : String) : List Piece :=
  [⟨.alarm, kind⟩, ⟨.plain, ": "⟩, ⟨.message, message⟩]

/-- Where the value to blame has been, if that is known. -/
def history : List Hop → Report
  | [] => []
  | hops =>
    [⟨.heading, "Origin (most recent call last):"⟩] ::
      hops.flatMap fun hop => placeIn hop.display (some hop.span)

/-- The report of an error in the text of a program. -/
def ofSourceError (e : SourceError) : Report :=
  [banner " SYNTAX ERROR ", [⟨.place, s!"  File {e.span.start.source.name}"⟩]] ++
    excerpt e.span ++ [summary e.kind.name e.message, banner ""]

/-- The report of an error of a running program. -/
def ofFailure (e : Failure) : Report :=
  [banner " RUNTIME ERROR ", [⟨.heading, "Traceback (most recent call last):"⟩]] ++
    (trail e).reverse.flatMap (fun (display, span) => placeIn display span) ++
    history e.origin ++ [summary e.kind.name e.message, banner ""]

end TracedScript.Report
