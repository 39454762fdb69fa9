import TracedScript.Proofs.Text.Positions
import TracedScript.Proofs.Text.Trimming

/-!
# Normalizing keeps lines where they are

A line of a source is the piece of its text with the same number: `Source.line_eq_piece`. So each
line of a normalized text is the line of the text itself, without the blanks at its ends, and a
position in the one belongs to a position on the same line of the other. Main statement:
`normalizing_keeps_lines`.
-/

namespace TracedScript

namespace Text

variable {cs : List Char}

theorem EndsLine.behind (h : EndsLine cs) (front : List Char) :
    EndsLine (front ++ '\n' :: cs) := by
  obtain rfl | h := h
  · exact .inr List.getLast?_concat
  · obtain ⟨inner, rfl⟩ := List.getLast?_eq_some_iff.mp h
    rw [← List.cons_append, ← List.append_assoc]
    exact .inr List.getLast?_concat

/-- A piece stands between line feeds, or an end of the text. -/
theorem exists_around {i : Nat} {p : List Char} (h : (pieces cs)[i]? = some p) :
    ∃ earlier later, cs = earlier ++ (p ++ later) ∧ EndsLine earlier ∧ StartsBreak later ∧
      earlier.count '\n' = i := by
  induction i generalizing cs with
  | zero =>
    obtain ⟨later, parts, noBreak, ends⟩ := exists_later cs
    have first : (pieces cs)[0]? = some (firstLine cs) := by
      obtain rfl | hlater := ends
      · rw [parts, List.append_nil, pieces_of_not_mem noBreak]
        rw [firstLine_of_not_mem noBreak]
        rfl
      · obtain ⟨rest, rfl⟩ := List.head?_eq_some_iff.mp hlater
        rw [parts, pieces_append, pieces_of_not_mem noBreak, ← parts]
        rfl
    cases h.symm.trans first
    exact ⟨[], later, parts, .inl rfl, ends, rfl⟩
  | succ i ih =>
    obtain ⟨later, parts, noBreak, rfl | hlater⟩ := exists_later cs
    · rw [parts, List.append_nil, pieces_of_not_mem noBreak] at h
      cases h
    · obtain ⟨rest, rfl⟩ := List.head?_eq_some_iff.mp hlater
      rw [parts, pieces_append, pieces_of_not_mem noBreak] at h
      obtain ⟨earlier, later, rfl, starts, ends, count⟩ := ih h
      refine ⟨firstLine cs ++ '\n' :: earlier, later, ?_, starts.behind _, ends, ?_⟩
      · rw [List.append_assoc]
        exact parts
      · rw [List.count_append, List.count_eq_zero.mpr noBreak, List.count_cons_self, count,
          Nat.zero_add]

theorem pieces_normalize (text : String) : pieces (normalize text).toList =
    if lines text.toList = [] then [[]] else (lines text.toList).map trim := by
  rw [normalize, String.toList_ofList]
  split
  · rename_i none
    rw [none]
    rfl
  · rename_i some
    refine pieces_join (by simpa using some) (List.forall_mem_map.mpr fun l hl hb => ?_)
    obtain ⟨trail, parts⟩ := exists_trims l
    have inside : '\n' ∈ l := by
      rw [parts.whole]
      exact List.mem_append_right _ (List.mem_append_left trail hb)
    exact not_mem_of_mem_lines hl inside

/-- What is a line of the normalized text is one of the text, apart from a line break. -/
theorem exists_piece {text : String} {i : Nat} (h : i < (pieces (normalize text).toList).length) :
    ∃ cr, (pieces text.toList)[i]? = some ((lines text.toList)[i]?.getD [] ++ cr) := by
  obtain ⟨l, hl, cr, -, piece⟩ | ⟨none, empty⟩ := line_cases text.toList i
  · rw [hl]
    exact ⟨cr, piece⟩
  · have first : i < (pieces text.toList).length := by
      rw [pieces_normalize] at h
      split at h
      · rw [length_pieces]
        exact Nat.lt_of_lt_of_le h (Nat.le_add_left 1 _)
      · rw [List.length_map] at h
        exact absurd h (Nat.not_lt.mpr (List.getElem?_eq_none_iff.mp none))
    rw [none, List.getElem?_eq_getElem first] at *
    exact ⟨[], congrArg some empty⟩

end Text

namespace Source

variable {s : Source} {i : Nat} {p : List Char}

/-- A piece of the text is a whole line of the source. -/
theorem exists_hasLine (h : (Text.pieces s.chars)[i]? = some p) :
    ∃ earlier later, s.HasLine earlier p later ∧ earlier.count '\n' = i := by
  obtain ⟨earlier, later, whole, starts, ends, count⟩ := Text.exists_around h
  have inLine := Text.not_mem_of_mem_pieces (List.mem_of_getElem? h)
  exact ⟨earlier, later, ⟨whole, starts, inLine, ends⟩, count⟩

theorem line_eq_piece (s : Source) (i : Nat) :
    (s.line i).toList = (Text.pieces s.chars)[i]?.getD [] := by
  cases h : (Text.pieces s.chars)[i]? with
  | some p =>
    obtain ⟨earlier, later, here, rfl⟩ := exists_hasLine h
    rw [here.line, String.toList_ofList]
    rfl
  | none =>
    have starts : s.lineStarts[i]? = none := by
      rw [lineStarts, List.getElem?_toArray, List.getElem?_eq_none_iff, List.length_cons,
        Text.length_behindBreaks, ← Text.length_pieces]
      exact List.getElem?_eq_none_iff.mp h
    rw [line, starts]
    rfl

theorem line_position_lt (s : Source) (n : Nat) :
    (s.position n).line < (Text.pieces s.chars).length := by
  obtain ⟨before, after, whole, found⟩ := s.exists_position n
  obtain ⟨earlier, indent, rest, later, -, -, here⟩ := exists_standsAt whole
  have count := congrArg (List.count '\n') here.line.whole
  rw [List.count_append] at count
  rw [found, here.line_eq, Text.length_pieces, count]
  exact Nat.lt_succ_of_le (Nat.le_add_right _ _)

/-- Between any two parts of a line there is a position. -/
theorem exists_on_line {indent rest : List Char}
    (h : (Text.pieces s.chars)[i]? = some (indent ++ rest)) :
    ∃ k ∈ s.boundaries, Position.line ⟨s, k⟩ = i ∧ Position.column ⟨s, k⟩ = indent.length := by
  obtain ⟨earlier, later, line, rfl⟩ := exists_hasLine h
  have stands : Position.StandsAt ⟨s, Text.byteLength (earlier ++ indent)⟩ earlier indent rest
      later := ⟨line, rfl⟩
  refine ⟨_, mem_boundaries_iff.mpr ⟨earlier ++ indent, rest ++ later, ?_, rfl⟩, ?_⟩
  · simp only [line.whole, List.append_assoc]
  · exact ⟨stands.line_eq, stands.column_eq⟩

/-- The line of a normalized text is the trimmed line of the text, or empty if there is none. -/
theorem line_normalize (name text : String) (i : Nat) :
    (line ⟨name, Text.normalize text⟩ i).toList =
      Text.trim ((Text.lines text.toList)[i]?.getD []) := by
  have pieces : Text.pieces (chars ⟨name, Text.normalize text⟩) = _ := Text.pieces_normalize text
  rw [line_eq_piece, pieces]
  have nothing : Text.trim [] = [] := rfl
  split
  · rename_i none
    cases i <;> simp [none, nothing]
  · rw [List.getElem?_map]
    cases (Text.lines text.toList)[i]? <;> simp [nothing]

end Source

/-- Let a text be normalized. Each of its lines has the same number in the source of the normalized
text, where it is without the blanks at its ends; there are no further lines but empty ones. (A line
of the text itself can have a carriage return in front of its line feed.) And each position found in
the normalized text belongs to one in the text, on the same line and as many columns further on as
there are blanks in front of the line; the line goes on in the same way there. -/
theorem normalizing_keeps_lines (name text : String) :
    let user : Source := ⟨name, text⟩
    let shown : Source := ⟨name, Text.normalize text⟩
    let lines := Text.lines text.toList
    (∀ i l, lines[i]? = some l →
      (∃ cr ∈ [[], ['\r']], (user.line i).toList = l ++ cr) ∧
      ∃ lead trail, Text.Trims l lead (shown.line i).toList trail) ∧
    (∀ i, lines.length ≤ i → (user.line i).toList = [] ∧ (shown.line i).toList = []) ∧
    ∀ n, let p := shown.position n
      ∀ lead trail, Text.Trims (lines[p.line]?.getD []) lead (shown.line p.line).toList trail →
        ∃ i ∈ user.boundaries, let q : Position := ⟨user, i⟩
          q.line = p.line ∧ q.column = p.column + lead.length ∧
          (shown.line p.line).toList.drop p.column <+: (user.line q.line).toList.drop q.column := by
  intro user shown lines
  have own (i : Nat) : (∃ l, lines[i]? = some l ∧ ∃ cr ∈ [[], ['\r']],
      (Text.pieces user.chars)[i]? = some (l ++ cr)) ∨
      lines[i]? = none ∧ (Text.pieces user.chars)[i]?.getD [] = [] := Text.line_cases _ i
  have trimmed (i : Nat) : (shown.line i).toList = Text.trim (lines[i]?.getD []) :=
    Source.line_normalize name text i
  refine ⟨fun i l hl => ?_, fun i hi => ?_, fun n => ?_⟩
  · obtain ⟨l', hl', cr, hcr, piece⟩ | ⟨none, -⟩ := own i
    · cases hl.symm.trans hl'
      obtain ⟨trail, parts⟩ := Text.exists_trims l
      rw [trimmed, hl, user.line_eq_piece, piece]
      exact ⟨⟨cr, hcr, rfl⟩, _, trail, parts⟩
    · cases hl.symm.trans none
  · have none : lines[i]? = none := List.getElem?_eq_none hi
    obtain ⟨l, hl, -⟩ | ⟨-, empty⟩ := own i
    · cases none.symm.trans hl
    · rw [trimmed, none, user.line_eq_piece, empty]
      exact ⟨rfl, rfl⟩
  · intro p lead trail parts
    obtain ⟨before, after, whole, found⟩ := shown.exists_position n
    obtain ⟨earlier, indent, rest, later, -, -, here⟩ := Source.exists_standsAt whole
    rw [← found] at here
    have core : (shown.line p.line).toList = indent ++ rest := by
      rw [here.line_eq]
      exact (congrArg String.toList here.line.line).trans String.toList_ofList
    obtain ⟨cr, piece⟩ := Text.exists_piece (shown.line_position_lt n)
    -- what is in front of the position is behind the blanks in the text
    have around : lines[p.line]?.getD [] ++ cr = lead ++ indent ++ (rest ++ (trail ++ cr)) := by
      rw [parts.whole, core]
      simp only [List.append_assoc]
    obtain ⟨i, hi, line, column⟩ :=
      Source.exists_on_line (s := user) (piece.trans (congrArg some around))
    have whole : (user.line p.line).toList = lead ++ indent ++ (rest ++ (trail ++ cr)) := by
      rw [user.line_eq_piece, ← around]
      exact congrArg (Option.getD · []) piece
    refine ⟨i, hi, line, ?_, ?_⟩
    · rw [column, here.column_eq, List.length_append, Nat.add_comm]
    · rw [column, here.column_eq, line, whole, core, List.drop_left, List.drop_left]
      exact List.prefix_append rest _

/-- A name behind a tab is found on its line, one column further on than in the normalized text. -/
theorem indented_name_on_its_line :
    let user : Source := ⟨"main", " x\r\n \n\tab"⟩
    let shown : Source := ⟨"main", Text.normalize user.text⟩
    (shown.line 0).toList = ['x'] ∧ (shown.line 2).toList = ['a', 'b'] ∧
      ∃ i ∈ user.boundaries, Position.line ⟨user, i⟩ = 2 ∧ Position.column ⟨user, i⟩ = 2 := by
  intro user shown
  obtain ⟨lines, -, positions⟩ := normalizing_keeps_lines "main" user.text
  have chars : shown.chars = ['x', '\n', '\n', 'a'] ++ ['b'] := by decide +kernel
  have stands : (shown.position 4).StandsAt ['x', '\n', '\n'] ['a'] ['b'] [] := by
    rw [show 4 = Text.byteLength ['x', '\n', '\n', 'a'] from rfl, Source.position_append chars]
    exact ⟨⟨chars, .inr rfl, by decide, .inl rfl⟩, rfl⟩
  have name : (shown.line 2).toList = ['a', 'b'] := by decide +kernel
  have third : (Text.lines user.text.toList)[2]?.getD [] = ['\t', 'a', 'b'] := by decide +kernel
  refine ⟨?_, name, ?_⟩
  · obtain ⟨-, lead, trail, parts⟩ := lines 0 [' ', 'x'] (by decide +kernel)
    exact parts.trim_eq.symm.trans (by decide +kernel)
  · have moved := positions 4 ['\t'] []
    dsimp only at moved
    rw [stands.line_eq, stands.column_eq] at moved
    have count : ['x', '\n', '\n'].count '\n' = 2 := rfl
    rw [count, third, name] at moved
    have blank : ∀ c ∈ ['\t'], Text.isBlank c = true := by simp [Text.isBlank]
    have letters : ∀ c ∈ ['a', 'b'], Text.isBlank c = false := by simp [Text.isBlank]
    obtain ⟨i, hi, line, column, -⟩ :=
      moved (.of_not_blank rfl blank (List.forall_mem_nil _) letters)
    exact ⟨i, hi, line, column⟩

end TracedScript
