import TracedScript.Proofs.Report.Lines
import TracedScript.Proofs.Text.Positions

/-!
# Marks under the quoted line

An excerpt quotes the line on which a span starts, and marks what the span covers of this line. A
span may go on over further lines, may be only the line feed at the end of the line, or may be
empty. Main statement: `carets_mark_span`.
-/

namespace TracedScript

/-- The span runs forwards between two positions of the source. -/
structure Span.IsIn (span : Span) (s : Source) : Prop where
  start : s.position span.start.index = span.start
  stop : s.position span.stop.index = span.stop
  forward : span.start.index ≤ span.stop.index

theorem Source.span_isIn (s : Source) {i j : Nat} (h : i ≤ j) : (s.span i j).IsIn s :=
  ⟨s.position_index i, s.position_index j, s.position_mono h⟩

/-- The span splits the text of the source into whole lines, the beginning of the line on which it
starts, its own text, and what is behind it. -/
structure Span.Splits (span : Span) (s : Source) (earlier indent text after : List Char) :
    Prop where
  whole : s.chars = earlier ++ (indent ++ (text ++ after))
  starts : Text.EndsLine earlier
  inLine : '\n' ∉ indent
  start : span.start = ⟨s, Text.byteLength (earlier ++ indent)⟩
  stop : span.stop = ⟨s, Text.byteLength (earlier ++ indent ++ text)⟩

theorem Span.IsIn.exists_splits {s : Source} {span : Span} (h : span.IsIn s) :
    ∃ earlier indent text after, span.Splits s earlier indent text after := by
  obtain ⟨before, behind, whole, first⟩ := s.exists_position span.start.index
  obtain ⟨upTo, after, whole', last⟩ := s.exists_position span.stop.index
  rw [h.start] at first
  rw [h.stop] at last
  have forward := h.forward
  rw [first, last] at forward
  obtain ⟨text, rfl, rfl⟩ := Text.exists_between whole whole' forward
  obtain ⟨earlier, indent, rfl, starts, inLine⟩ := Text.exists_lines before
  rw [List.append_assoc] at whole
  exact ⟨earlier, indent, text, after, whole, starts, inLine, first, last⟩

namespace Span.Splits

variable {span : Span} {s : Source} {earlier indent text after : List Char}

/-- The line on which the span starts is the indent with what is behind it up to a line feed. -/
theorem start_standsAt (h : span.Splits s earlier indent text after) : ∃ later,
    span.start.StandsAt earlier indent (Text.firstLine (text ++ after)) later := by
  obtain ⟨later, -, stands⟩ := Source.standsAt h.whole h.starts h.inLine
  rw [h.start]
  exact ⟨later, stands⟩

/-- There is a mark for each character of the span up to the end of its first line. -/
theorem markCount (h : span.Splits s earlier indent text after) :
    Report.markCount span = max 1 (Text.firstLine text).length := by
  obtain ⟨later, start⟩ := h.start_standsAt
  unfold Report.markCount
  dsimp only
  rw [start.column_eq]
  by_cases further : '\n' ∈ text
  · -- the span stops on a later line, so its first line counts to the end
    have whole : s.chars = (earlier ++ indent ++ text) ++ after := by simp [h.whole]
    obtain ⟨_, _, _, _, upTo, -, stop⟩ := Source.exists_standsAt whole
    rw [← h.stop] at stop
    have lines : span.stop.line = span.start.line + text.count '\n' := by
      rw [stop.line_eq_count, ← upTo, start.line_eq_count, List.count_append]
    have counted : 0 < text.count '\n' := List.count_pos_iff.mpr further
    rw [if_neg (by omega), start.lineText_eq, String.toList_ofList, List.length_append,
      Nat.add_sub_cancel_left, Text.firstLine_append_of_mem further]
  · have inLine : '\n' ∉ indent ++ text := by
      rw [List.mem_append, not_or]
      exact ⟨h.inLine, further⟩
    have whole : s.chars = earlier ++ (indent ++ text ++ after) := by simp [h.whole]
    obtain ⟨_, -, stop⟩ := Source.standsAt whole h.starts inLine
    rw [← List.append_assoc, ← h.stop] at stop
    rw [stop.line_eq, start.line_eq, if_pos rfl, stop.column_eq, List.length_append,
      Nat.add_sub_cancel_left, Text.firstLine_of_not_mem further]

/-- What the span covers of its first line lies on that line. -/
theorem length_covered_le (text after : List Char) :
    (Text.firstLine text).length ≤ (Text.firstLine (text ++ after)).length := by
  by_cases further : '\n' ∈ text
  · rw [Text.firstLine_append_of_mem further]
  · rw [Text.firstLine_append_of_not_mem further, Text.firstLine_of_not_mem further,
      List.length_append]
    exact Nat.le_add_right _ _

end Span.Splits

/-- The blanks in front of the quoted text and those under the indent are one row of blanks. -/
theorem Report.marks_eq (indent carets : Nat) :
    String.join ["    " ++ repeated ' ' indent, repeated '^' carets] =
      String.ofList (List.replicate (4 + indent) ' ' ++ List.replicate carets '^') := by
  rw [blanks_eq, repeated, String.join_cons, String.join_cons, String.join_nil,
    String.append_empty, ← String.ofList_append]

/-- A span of a source lies somewhere in its text. Wherever it does, its excerpt names the place
where it starts, quotes the whole line, and puts under it one mark for each character that the span
covers of the line, or a single one if it covers none. The quoted text and the marks are both moved
by four characters, so the first mark stands under the first character of the span, and no mark that
stands for a character is behind the end of the line. -/
theorem carets_mark_span {s : Source} {span : Span} (h : span.IsIn s) :
    (∃ earlier indent text after, span.Splits s earlier indent text after) ∧
    ∀ earlier indent text after, span.Splits s earlier indent text after →
      let line := indent ++ Text.firstLine (text ++ after)
      let covered := Text.firstLine text
      let carets := max 1 covered.length
      (Report.excerpt span).render false = "\n".intercalate
        ["    Line " ++ Fault.decimal (earlier.count '\n' + 1) ++ ", Column " ++
            Fault.decimal (indent.length + 1),
          "   >" ++ String.ofList line,
          String.ofList (List.replicate (4 + indent.length) ' ' ++ List.replicate carets '^')] ∧
      (indent.length + carets ≤ line.length ∨ covered = [] ∧ carets = 1) := by
  refine ⟨h.exists_splits, ?_⟩
  intro earlier indent text after splits line covered carets
  constructor
  · obtain ⟨later, start⟩ := splits.start_standsAt
    have marks := Report.marks_eq indent.length carets
    rw [Report.render_false, Report.excerpt, splits.markCount, start.line_eq, start.column_eq,
      start.lineText_eq]
    simp only [List.map_cons, List.map_nil]
    rw [marks]
    simp only [String.join_cons, String.join_nil, String.append_empty]
    rfl
  · have within : covered.length ≤ (Text.firstLine (text ++ after)).length :=
      Span.Splits.length_covered_le text after
    by_cases none : covered = []
    · right
      exact ⟨none, by simp [carets, none]⟩
    · left
      have some : 1 ≤ covered.length := List.length_pos_iff.mpr none
      have exact : carets = covered.length := Nat.max_eq_right some
      rw [List.length_append, exact]
      exact Nat.add_le_add_left within _

/-- A tuple that goes on over a second line is marked up to the end of its first one, and a
character of two bytes in front of it takes one blank. -/
theorem tuple_marked_on_first_line :
    let s : Source := ⟨"main", "f()\né = (1,\n2)"⟩
    let span := s.span 9 15
    span.IsIn s ∧
      (Report.excerpt span).render false =
        "    Line 2, Column 5\n   >é = (1,\n        ^^^" := by
  intro s span
  have inside : span.IsIn s := s.span_isIn (by decide)
  have splits : span.Splits s ['f', '(', ')', '\n'] ['é', ' ', '=', ' ']
      ['(', '1', ',', '\n', '2', ')'] [] :=
    ⟨by decide +kernel, .inr rfl, by decide, by decide +kernel, by decide +kernel⟩
  obtain ⟨shown, -⟩ := (carets_mark_span inside).2 _ _ _ _ splits
  refine ⟨inside, shown.trans ?_⟩
  decide +kernel

end TracedScript
