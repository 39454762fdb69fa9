import TracedScript.Proofs.Number.Digits
import TracedScript.Report.Layout

/-!
# The lines of a report

What the report of a failure says, line by line. A place is shown by four lines: the file and the
frame, the line and the column, the line itself, and the marks under it. Main statement:
`Report.render_ofFailure`.
-/

namespace TracedScript

theorem Fault.decimal_natCast (n : Nat) : decimal n = toString n := by
  have natural : ¬ (n : Int) < 0 := Int.not_lt.mpr (Int.natCast_nonneg n)
  rw [decimal, Number.integerText, if_neg natural, Int.natAbs_natCast, Number.digits_eq_toDigits,
    Nat.toString_eq_repr, Nat.repr_eq_ofList_toDigits]

namespace Report

/-! ## Colours -/

/-- In the colour of a terminal that has the given number, if there are colours. -/
def tinted (colored : Bool) (code text : String) : String :=
  if colored then "\x1b[" ++ code ++ "m" ++ text ++ "\x1b[39m" else text

/-- In bold letters, if there are colours. -/
def emboldened (colored : Bool) (text : String) : String :=
  if colored then "\x1b[1m" ++ text ++ "\x1b[0m" else text

/-- What stands around a report or names the kind of an error is red and bold. -/
def alarming (colored : Bool) (text : String) : String :=
  emboldened colored (tinted colored "31" text)

/-- What stands above a list of places is blue and bold. -/
def heading (colored : Bool) (text : String) : String :=
  emboldened colored (tinted colored "34" text)

/-- How a report is painted. -/
abbrev painter (colored : Bool) : Painter := if colored then .ansi else .none

theorem render_piece (colored : Bool) (p : Piece) : p.render (painter colored) =
    match p.role with
    | .plain => p.text
    | .alarm => alarming colored p.text
    | .heading => heading colored p.text
    | .place => tinted colored "32" p.text
    | .quotation => tinted colored "33" p.text
    | .message => tinted colored "31" p.text := by
  obtain ⟨role, text⟩ := p
  cases colored with
  | false => cases role <;> rfl
  | true =>
    -- as texts the sequences may be cut in different places
    apply String.toList_inj.mp
    cases role <;> simp [Piece.render, painter, Painter.ansi, Role.sequences, escapeSequence,
      alarming, heading, emboldened, tinted]

/-! ## Places -/

/-- The lines that show a place in a frame of the given name. -/
def placeLines (colored : Bool) (display : String) (span : Span) : List String :=
  let start := span.start
  let stop := if span.stop.line = start.line then span.stop.column else start.lineText.length
  [tinted colored "32" ("  File " ++ start.source.name ++ ", In " ++ display),
    tinted colored "32"
      ("    Line " ++ toString (start.line + 1) ++ ", Column " ++ toString (start.column + 1)),
    "   >" ++ tinted colored "33" start.lineText,
    String.ofList (List.replicate (4 + start.column) ' ') ++
      tinted colored "33" (String.ofList (List.replicate (max 1 (stop - start.column)) '^'))]

theorem blanks_eq (n : Nat) :
    "    " ++ repeated ' ' n = String.ofList (List.replicate (4 + n) ' ') := by
  have four : "    " = String.ofList (List.replicate 4 ' ') := by decide
  rw [four, repeated, ← String.ofList_append, List.replicate_append_replicate]

theorem render_placeIn (colored : Bool) (display : String) (span : Span) :
    (placeIn display (some span)).map (renderLine (painter colored)) =
      placeLines colored display span := by
  have number (n : Nat) : Fault.decimal (n + 1) = toString (n + 1) := Fault.decimal_natCast (n + 1)
  simp only [placeIn, excerpt, List.map_cons, List.map_nil, renderLine, String.join_cons,
    String.join_nil, String.append_empty, render_piece, number, blanks_eq]
  rfl

theorem render_places {α : Type} (colored : Bool) (display : α → String) (span : α → Span)
    (places : List α) :
    (places.flatMap fun a => placeIn (display a) (some (span a))).map
        (renderLine (painter colored)) =
      places.flatMap fun a => placeLines colored (display a) (span a) := by
  rw [List.map_flatMap]
  simp only [render_placeIn]

/-! ## Reports -/

/-- The report of a failure, where it is known for each frame to which place it had come. -/
theorem render_ofFailure {e : Failure} {frames : List (String × Span)}
    (h : (trail e).reverse = frames.map fun frame => (frame.1, some frame.2))
    (colored : Bool) :
    (ofFailure e).render colored = "\n".intercalate
      ([alarming colored "====================== RUNTIME ERROR =======================",
          heading colored "Traceback (most recent call last):"] ++
        frames.flatMap (fun frame => placeLines colored frame.1 frame.2) ++
        (if e.origin = [] then [] else heading colored "Origin (most recent call last):" ::
          e.origin.flatMap fun hop => placeLines colored hop.display hop.span) ++
        [alarming colored e.kind.name ++ ": " ++ tinted colored "31" e.message,
          alarming colored "============================================================"]) := by
  have above : banner " RUNTIME ERROR " =
      [⟨.alarm, "====================== RUNTIME ERROR ======================="⟩] := by
    decide +kernel
  have below : banner "" =
      [⟨.alarm, "============================================================"⟩] := by
    decide +kernel
  have laid : ofFailure e =
      [banner " RUNTIME ERROR ", [⟨.heading, "Traceback (most recent call last):"⟩]] ++
        ((trail e).reverse.flatMap fun frame => placeIn frame.1 frame.2) ++ history e.origin ++
        [summary e.kind.name e.message, banner ""] := rfl
  have traced : ((trail e).reverse.flatMap fun frame => placeIn frame.1 frame.2).map
      (renderLine (painter colored)) =
        frames.flatMap fun frame => placeLines colored frame.1 frame.2 := by
    rw [h, List.flatMap_map]
    exact render_places colored Prod.fst Prod.snd frames
  have origin : (history e.origin).map (renderLine (painter colored)) =
      if e.origin = [] then [] else heading colored "Origin (most recent call last):" ::
        e.origin.flatMap fun hop => placeLines colored hop.display hop.span := by
    cases he : e.origin with
    | nil => rfl
    | cons hop hops =>
      have listed : history (hop :: hops) = [⟨.heading, "Origin (most recent call last):"⟩] ::
          (hop :: hops).flatMap fun hop => placeIn hop.display (some hop.span) := rfl
      rw [if_neg (List.cons_ne_nil _ _), listed, List.map_cons,
        render_places colored Hop.display Hop.span]
      simp [renderLine, render_piece]
  rw [render, renderWith, laid, List.map_append, List.map_append, List.map_append, traced,
    origin, above, below]
  simp [renderLine, render_piece, summary, String.append_assoc]

end Report

end TracedScript
