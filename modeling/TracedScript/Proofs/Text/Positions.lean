import Mathlib.Data.List.DropRight
import Mathlib.Data.List.TakeWhile
import Mathlib.Data.Prod.Lex
import Mathlib.Order.Bounds.Basic
import TracedScript.Proofs.Text.Boundaries

/-!
# Lines and columns

A line of a source is a stretch without line feeds from the start or a line feed up to a line feed
or the end: `Source.HasLine`. The search among the line starts finds the line that a position is
on, cutting the text at the bytes in question never fails, and the column counts the characters in
front of the position. Main statement: `positions_exact`.
-/

namespace TracedScript

namespace Text

variable {cs xs ys : List Char} {start : Nat}

/-! ## The search -/

/-- If numbers up to `n` stand in front of greater ones, the search counts those in front. -/
theorem countUpTo_eq {front back : List Nat} {n : Nat} (hf : ∀ k ∈ front, k ≤ n)
    (hb : ∀ k ∈ back, n < k) {low high : Nat} (hlow : low ≤ front.length)
    (hhigh : front.length ≤ high) (hsize : high ≤ (front ++ back).length) :
    countUpTo (front ++ back).toArray n low high = front.length := by
  fun_induction countUpTo (front ++ back).toArray n low high with
  | case1 low high more middle small ih =>
    -- no greater number stands in the middle, so it is one of those in front
    have inFront : middle < front.length := by
      by_contra behind
      rw [List.getElem?_toArray, List.getElem?_append_right (by omega)] at small
      obtain ⟨k, hk, hkn⟩ := (Option.any_eq_true ..).mp small
      have greater := hb k (List.mem_of_getElem? hk)
      simp at hkn
      omega
    exact ih (by omega) hhigh hsize
  | case2 low high more middle great ih =>
    have behind : front.length ≤ middle := by
      by_contra inFront
      apply great
      have place : (front ++ back)[middle]? = some front[middle] := by
        rw [List.getElem?_append_left (by omega), List.getElem?_eq_getElem (by omega)]
      rw [List.getElem?_toArray, place]
      simpa using hf _ (List.getElem_mem _)
    exact ih hlow behind (by omega)
  | case3 low high done => omega

/-! ## Line starts -/

theorem behindBreaks_append (start : Nat) (xs ys : List Char) :
    behindBreaks start (xs ++ ys) =
      behindBreaks start xs ++ behindBreaks (start + byteLength xs) ys := by
  induction xs generalizing start with
  | nil => rfl
  | cons c xs ih =>
    rw [List.cons_append, behindBreaks, behindBreaks, byteLength, ← Nat.add_assoc]
    split
    · rw [ih, List.cons_append]
    · exact ih _

theorem behindBreaks_of_not_mem (start : Nat) (h : '\n' ∉ cs) : behindBreaks start cs = [] := by
  induction cs generalizing start with
  | nil => rfl
  | cons c cs ih =>
    simp only [List.mem_cons, not_or] at h
    rw [behindBreaks]
    rw [if_neg (Ne.symm h.1), ih _ h.2]

theorem length_behindBreaks (start : Nat) (cs : List Char) :
    (behindBreaks start cs).length = cs.count '\n' := by
  induction cs generalizing start with
  | nil => rfl
  | cons c cs ih =>
    rw [behindBreaks, List.count_cons]
    split
    · simp_all
    · simp_all

theorem bounds_of_mem_behindBreaks {k : Nat} (h : k ∈ behindBreaks start cs) :
    start < k ∧ k ≤ start + byteLength cs := by
  induction cs generalizing start with
  | nil => cases h
  | cons c cs ih =>
    have size := c.utf8Size_pos
    rw [byteLength]
    by_cases later : k ∈ behindBreaks (start + c.utf8Size) cs
    · have := ih later
      omega
    · have first : k = start + c.utf8Size := by
        rw [behindBreaks] at h
        split at h <;> simp_all
      omega

/-- What is empty or ends with a line feed. -/
def EndsLine (cs : List Char) : Prop := cs = [] ∨ cs.getLast? = some '\n'

/-- What is empty or starts with a line feed. -/
def StartsBreak (cs : List Char) : Prop := cs = [] ∨ cs.head? = some '\n'

/-- The line behind whole lines starts where they end. -/
theorem getLast?_behindBreaks (h : EndsLine cs) :
    (0 :: behindBreaks 0 cs).getLast? = some (byteLength cs) := by
  obtain rfl | h := h
  · rfl
  · obtain ⟨cs, rfl⟩ := List.getLast?_eq_some_iff.mp h
    have one : byteLength ['\n'] = 1 := rfl
    have last : behindBreaks (0 + byteLength cs) ['\n'] = [0 + byteLength cs + 1] := rfl
    rw [behindBreaks_append, last, byteLength_append, one, Nat.zero_add, ← List.cons_append,
      List.getLast?_concat]

theorem exists_lines (cs : List Char) : ∃ earlier indent, cs = earlier ++ indent ∧
    EndsLine earlier ∧ '\n' ∉ indent := by
  refine ⟨cs.rdropWhile (· ≠ '\n'), cs.rtakeWhile (· ≠ '\n'), ?_, ?_, ?_⟩
  · exact (List.rdropWhile_append_rtakeWhile ..).symm
  · by_cases h : cs.rdropWhile (· ≠ '\n') = []
    · exact .inl h
    · have last := List.rdropWhile_last_not _ _ h
      rw [decide_eq_true_eq, not_not] at last
      exact .inr (by rw [List.getLast?_eq_some_getLast h, last])
  · intro h
    simpa using List.mem_rtakeWhile_imp h

/-- The text up to its first line feed, or all of it. -/
def firstLine (cs : List Char) : List Char := cs.takeWhile (· ≠ '\n')

theorem firstLine_append_of_not_mem (h : '\n' ∉ xs) (ys : List Char) :
    firstLine (xs ++ ys) = xs ++ firstLine ys := by
  apply List.takeWhile_append_of_pos
  intro c hc
  rw [decide_eq_true_eq]
  rintro rfl
  exact h hc

theorem firstLine_of_not_mem (h : '\n' ∉ xs) : firstLine xs = xs := by
  have whole := firstLine_append_of_not_mem h []
  have empty : firstLine [] = [] := rfl
  rwa [empty, List.append_nil] at whole

theorem firstLine_append_of_mem (h : '\n' ∈ xs) (ys : List Char) :
    firstLine (xs ++ ys) = firstLine xs := by
  obtain ⟨front, back, rfl, hfront⟩ := List.eq_append_cons_of_mem h
  have first : ∀ zs, firstLine ('\n' :: zs) = [] := fun zs => rfl
  rw [List.append_assoc, List.cons_append, firstLine_append_of_not_mem hfront,
    firstLine_append_of_not_mem hfront, first, first]

theorem exists_later (cs : List Char) : ∃ later, cs = firstLine cs ++ later ∧
    '\n' ∉ firstLine cs ∧ StartsBreak later := by
  refine ⟨cs.dropWhile (· ≠ '\n'), ?_, ?_, ?_⟩
  · exact List.takeWhile_append_dropWhile.symm
  · intro h
    simpa using List.mem_takeWhile_imp h
  · have head := List.head?_dropWhile_not (· ≠ '\n') cs
    cases h : cs.dropWhile (· ≠ '\n') with
    | nil => exact .inl rfl
    | cons c later =>
      rw [h] at head
      exact .inr (congrArg some (by simpa using head))

end Text

/-! ## Lines of a source -/

/-- The text is a whole line of the source, without its line feed. -/
structure Source.HasLine (s : Source) (earlier text later : List Char) : Prop where
  whole : s.chars = earlier ++ (text ++ later)
  starts : Text.EndsLine earlier
  inLine : '\n' ∉ text
  ends : Text.StartsBreak later

/-- The position stands on a line behind the indent, and in front of the rest of the line. -/
structure Position.StandsAt (p : Position) (earlier indent rest later : List Char) : Prop where
  line : p.source.HasLine earlier (indent ++ rest) later
  index : p.index = Text.byteLength (earlier ++ indent)

namespace Source.HasLine

variable {s : Source} {earlier text later : List Char}

theorem lineStarts (h : s.HasLine earlier text later) : s.lineStarts =
    ((0 :: Text.behindBreaks 0 earlier) ++
      Text.behindBreaks (Text.byteLength (earlier ++ text)) later).toArray := by
  rw [Source.lineStarts, h.whole, Text.behindBreaks_append, Text.behindBreaks_append,
    Text.behindBreaks_of_not_mem _ h.inLine, Text.byteLength_append, Nat.zero_add,
    List.nil_append, List.cons_append]

theorem length_starts (earlier : List Char) :
    (0 :: Text.behindBreaks 0 earlier).length = earlier.count '\n' + 1 := by
  rw [List.length_cons, Text.length_behindBreaks]

/-- The line starts behind the whole lines in front of it. -/
theorem start (h : s.HasLine earlier text later) :
    s.lineStarts[earlier.count '\n']? = some (Text.byteLength earlier) := by
  have last := Text.getLast?_behindBreaks h.starts
  rw [List.getLast?_eq_getElem?, length_starts, Nat.add_sub_cancel] at last
  rw [h.lineStarts, List.getElem?_toArray, List.getElem?_append_left, last]
  rw [length_starts]
  exact Nat.lt_succ_self _

theorem stop (h : s.HasLine earlier text later) :
    s.lineStop (earlier.count '\n') = Text.byteLength (earlier ++ text) := by
  have next : s.lineStarts[earlier.count '\n' + 1]? =
      (Text.behindBreaks (Text.byteLength (earlier ++ text)) later)[0]? := by
    rw [h.lineStarts, List.getElem?_toArray, List.getElem?_append_right, length_starts,
      Nat.sub_self]
    rw [length_starts]
  rw [lineStop, next]
  obtain rfl | hlater := h.ends
  · rw [h.whole, List.append_nil]
    rfl
  · obtain ⟨later, rfl⟩ := List.head?_eq_some_iff.mp hlater
    rw [Text.behindBreaks, if_pos rfl]
    exact Nat.add_sub_cancel ..

theorem line (h : s.HasLine earlier text later) :
    s.line (earlier.count '\n') = String.ofList text := by
  rw [Source.line, h.start]
  dsimp only
  rw [h.stop, h.whole, Text.slice?_append]
  rfl

end Source.HasLine

namespace Position.StandsAt

variable {p : Position} {earlier indent rest later : List Char}

/-- The search finds the line that the position stands on, and no cut fails. -/
theorem place? (h : p.StandsAt earlier indent rest later) :
    p.place? = some (earlier.count '\n', indent) := by
  have before : ∀ k ∈ 0 :: Text.behindBreaks 0 earlier, k ≤ p.index := by
    intro k hk
    rw [h.index, Text.byteLength_append]
    obtain rfl | hk := List.mem_cons.mp hk
    · exact Nat.zero_le _
    · have := Text.bounds_of_mem_behindBreaks hk
      omega
  have behind : ∀ k ∈ Text.behindBreaks (Text.byteLength (earlier ++ (indent ++ rest))) later,
      p.index < k := by
    intro k hk
    have := Text.bounds_of_mem_behindBreaks hk
    rw [← List.append_assoc, Text.byteLength_append, ← h.index] at this
    omega
  have count : Text.countUpTo p.source.lineStarts p.index 0 p.source.lineStarts.size =
      earlier.count '\n' + 1 := by
    rw [h.line.lineStarts, ← Source.HasLine.length_starts, List.size_toArray]
    apply Text.countUpTo_eq before behind (Nat.zero_le _) _ (Nat.le_refl _)
    rw [List.length_append]
    exact Nat.le_add_right _ _
  have cut : Text.slice? (Text.byteLength earlier) p.index p.source.chars = some indent := by
    rw [h.index, h.line.whole, List.append_assoc indent]
    exact Text.slice?_append earlier indent (rest ++ later)
  rw [Position.place?]
  rw [count]
  dsimp only
  rw [h.line.start, Option.bind_eq_bind, Option.bind_some, cut]
  rfl

theorem line_eq (h : p.StandsAt earlier indent rest later) : p.line = earlier.count '\n' := by
  rw [Position.line, h.place?]
  rfl

/-- No line feed stands between the start of the line and the position. -/
theorem line_eq_count (h : p.StandsAt earlier indent rest later) :
    p.line = (earlier ++ indent).count '\n' := by
  have inLine : '\n' ∉ indent := fun hi => h.line.inLine (List.mem_append_left _ hi)
  rw [h.line_eq, List.count_append, List.count_eq_zero.mpr inLine, Nat.add_zero]

theorem column_eq (h : p.StandsAt earlier indent rest later) : p.column = indent.length := by
  rw [Position.column, h.place?]
  rfl

theorem lineText_eq (h : p.StandsAt earlier indent rest later) :
    p.lineText = String.ofList (indent ++ rest) := by
  rw [lineText, h.line_eq, h.line.line]

end Position.StandsAt

namespace Source

variable {s : Source} {earlier indent before after : List Char}

/-- A position behind whole lines and an indent stands on the line that goes on with what is behind
it, up to a line feed. -/
theorem standsAt (h : s.chars = earlier ++ (indent ++ after)) (starts : Text.EndsLine earlier)
    (inLine : '\n' ∉ indent) : ∃ later, after = Text.firstLine after ++ later ∧
      Position.StandsAt ⟨s, Text.byteLength (earlier ++ indent)⟩ earlier indent
        (Text.firstLine after) later := by
  obtain ⟨later, split, noBreak, ends⟩ := Text.exists_later after
  refine ⟨later, split, ⟨?_, starts, ?_, ends⟩, rfl⟩
  · rw [List.append_assoc, ← split, h]
  · rw [List.mem_append, not_or]
    exact ⟨inLine, noBreak⟩

/-- Between any two parts of a text there is a place on some line. -/
theorem exists_standsAt (h : s.chars = before ++ after) : ∃ earlier indent rest later,
    before = earlier ++ indent ∧ after = rest ++ later ∧
    Position.StandsAt ⟨s, Text.byteLength before⟩ earlier indent rest later := by
  obtain ⟨earlier, indent, rfl, starts, inLine⟩ := Text.exists_lines before
  rw [List.append_assoc] at h
  obtain ⟨later, split, stands⟩ := standsAt h starts inLine
  exact ⟨earlier, indent, _, later, rfl, split, stands⟩

end Source

/-! ## Main statement -/

/-- Line and column, the line counting first. -/
def Position.coordinates (p : Position) : Nat ×ₗ Nat := toLex (p.line, p.column)

/-- Behind more of the text stand greater coordinates. -/
theorem Source.coordinates_lt {s : Source} {before text after : List Char}
    (h : s.chars = before ++ (text ++ after)) (long : text ≠ []) :
    Position.coordinates ⟨s, Text.byteLength before⟩ <
      Position.coordinates ⟨s, Text.byteLength (before ++ text)⟩ := by
  obtain ⟨earlier, indent, rest, later, rfl, split, here⟩ := Source.exists_standsAt h
  rw [Position.coordinates, Position.coordinates, Prod.Lex.toLex_lt_toLex]
  by_cases hbreak : '\n' ∈ text
  · left
    rw [← List.append_assoc] at h
    obtain ⟨_, _, _, _, whole, -, there⟩ := Source.exists_standsAt h
    have further : 0 < text.count '\n' := List.count_pos_iff.mpr hbreak
    have lines : (earlier ++ indent ++ text).count '\n' =
        (earlier ++ indent).count '\n' + text.count '\n' := List.count_append
    rw [here.line_eq_count, there.line_eq_count, ← whole, lines]
    exact Nat.lt_add_of_pos_right further
  · right
    have inLine : '\n' ∉ indent ++ text := by
      rw [List.mem_append, not_or]
      exact ⟨fun hi => here.line.inLine (List.mem_append_left _ hi), hbreak⟩
    have whole : s.chars = earlier ++ (indent ++ text ++ after) := by simp [h]
    obtain ⟨_, -, there⟩ := Source.standsAt whole here.line.starts inLine
    rw [← List.append_assoc] at there
    rw [here.line_eq, here.column_eq, there.line_eq, there.column_eq, List.length_append]
    exact ⟨rfl, Nat.lt_add_of_pos_right (List.length_pos_iff.mpr long)⟩

theorem Source.coordinates_position_lt {s : Source} {m n : Nat}
    (h : (s.position m).index < (s.position n).index) :
    (s.position m).coordinates < (s.position n).coordinates := by
  obtain ⟨before, after, whole, first⟩ := s.exists_position m
  obtain ⟨before', after', whole', second⟩ := s.exists_position n
  rw [first, second] at h ⊢
  obtain ⟨text, rfl, rfl⟩ := Text.exists_between whole whole' (Nat.le_of_lt h)
  apply Source.coordinates_lt whole
  rintro rfl
  rw [List.append_nil] at h
  exact Nat.lt_irrefl _ h

/-- To every byte offset there is a position, and it is looked up without failing. It is the last
place between characters up to the offset; its line counts the line feeds before it, and its column
the characters behind the last of them. The text of its line stands between the line feeds around
it, and starts with as many characters as the column says. Later offsets never come before earlier
ones, and different places between characters are told apart. -/
theorem positions_exact (s : Source) :
    (∀ n, let p := s.position n
      IsGreatest {i | i ∈ s.boundaries ∧ i ≤ min n s.text.utf8ByteSize} p.index ∧
      ∃ earlier indent rest later,
        s.HasLine earlier (indent ++ rest) later ∧
        p.index = Text.byteLength (earlier ++ indent) ∧
        p.place? = some (p.line, indent) ∧
        p.line = (earlier ++ indent).count '\n' ∧ p.column = indent.length ∧
        (s.line p.line).toList = indent ++ rest ∧
        (s.line p.line).toList.take p.column = indent) ∧
    Monotone (fun n => (s.position n).coordinates) ∧
    Set.InjOn (fun i => (s.position i).coordinates) s.boundaries := by
  refine ⟨fun n => ?_, fun m n h => ?_, fun i hi j hj h => ?_⟩
  · obtain ⟨before, after, whole, found⟩ := s.exists_position n
    obtain ⟨earlier, indent, rest, later, rfl, rfl, stands⟩ := Source.exists_standsAt whole
    have text : (s.line (s.position n).line).toList = indent ++ rest := by
      rw [found, stands.line_eq, stands.line.line, String.toList_ofList]
    refine ⟨s.isGreatest_position n, earlier, indent, rest, later, ?_⟩
    rw [text, found]
    refine ⟨stands.line, rfl, ?_, stands.line_eq_count, stands.column_eq, rfl, ?_⟩
    · rw [stands.place?, stands.line_eq]
    · rw [stands.column_eq, List.take_left]
  · obtain less | same := Nat.lt_or_eq_of_le (s.position_mono h)
    · exact le_of_lt (Source.coordinates_position_lt less)
    · exact le_of_eq (congrArg (fun i => Position.coordinates ⟨s, i⟩) same)
  · obtain less | same | less := Nat.lt_trichotomy i j
    · rw [← s.index_position_of_mem hi, ← s.index_position_of_mem hj] at less
      exact absurd h (ne_of_lt (Source.coordinates_position_lt less))
    · exact same
    · rw [← s.index_position_of_mem hi, ← s.index_position_of_mem hj] at less
      exact absurd h.symm (ne_of_lt (Source.coordinates_position_lt less))

-- An offset inside of a character leads to its start, one past the end to the end.
example : let s : Source := ⟨"main", "é\nb"⟩
    (s.position 1).index = 0 ∧ (s.position 9).line = 1 ∧ (s.position 9).column = 1 := by
  decide +kernel

end TracedScript
