import TracedScript.Proofs.Syntax.Verdict

/-!
# Where a cursor may stand

A cursor is clear if it stands on a lexeme and not on a line break that does not count. Over lexemes
that end with the end of the program, every move comes to a clear place: `Stands.skipBreaks`,
`Stands.pass`, `Stands.pass_lt`. A step back undoes a step on, but
not at the end of the program, where the step on does not move: `retreat_advance`.
-/

namespace TracedScript

/-- The last lexeme is the end of the program. Others may be too. -/
def EndsProgram (lexemes : Array Lexeme) : Prop := lexemes.back?.map (·.token) = some .eof

instance (lexemes : Array Lexeme) : Decidable (EndsProgram lexemes) :=
  inferInstanceAs (Decidable (_ = _))

namespace Cursor

/-- The treatment of line breaks at the cursor. -/
def brackets (c : Cursor) : Brackets := ⟨c.mode, c.outer⟩

/-- On a lexeme, and on no line break that does not count. -/
structure Clear (c : Cursor) : Prop where
  inside : c.index < c.lexemes.size
  counts : c.mode = .ignored → c.token ≠ .eol

/-- Clear, over the given lexemes, in the given brackets, at the given place or behind it. -/
structure Stands (lexemes : Array Lexeme) (b : Brackets) (i : Nat) (c : Cursor) : Prop where
  lexemes : c.lexemes = lexemes
  brackets : c.brackets = b
  reached : i ≤ c.index
  clear : c.Clear

variable {lexemes : Array Lexeme} {b : Brackets} {i : Nat} {c d : Cursor}

theorem token_of_last (ends : EndsProgram c.lexemes) (hi : c.index + 1 = c.lexemes.size) :
    c.token = .eof := by
  obtain ⟨l, hl, ht⟩ := Option.map_eq_some_iff.mp ends
  have last : c.current = l := by
    have here : c.lexemes.back? = some c.current := by
      have place : min c.index (c.lexemes.size - 1) = c.lexemes.size - 1 := by omega
      simp [current, place, Array.back?]
    exact Option.some.inj (here.symm.trans hl)
  rw [token, last, ht]

/-- Only the end of the program may be the last. -/
theorem lt_of_token (ends : EndsProgram c.lexemes) (inside : c.index < c.lexemes.size)
    (ht : c.token ≠ .eof) : c.index + 1 < c.lexemes.size := by
  by_contra hlt
  exact ht (token_of_last ends (by omega))

theorem skipBreaks_inside (inside : c.index < c.lexemes.size) :
    c.skipBreaks.index < c.lexemes.size := by
  fun_induction Cursor.skipBreaks c with
  | case1 c h ih => exact ih h.2
  | case2 => exact inside

theorem skipBreaks_token_ne (ends : EndsProgram c.lexemes) (inside : c.index < c.lexemes.size) :
    c.skipBreaks.token ≠ .eol := by
  fun_induction Cursor.skipBreaks c with
  | case1 c h ih => exact ih ends h.2
  | case2 c h =>
    intro ht
    exact h ⟨ht, lt_of_token ends inside (by simp [ht])⟩

theorem skipBreaks_brackets (c : Cursor) : c.skipBreaks.brackets = c.brackets := by
  rw [skipBreaks_eq]
  rfl

section

variable (ends : EndsProgram c.lexemes) (inside : c.index < c.lexemes.size)
include ends inside

theorem clear_skipBreaks : c.skipBreaks.Clear := by
  refine ⟨?_, fun _ => skipBreaks_token_ne ends inside⟩
  rw [c.skipBreaks_lexemes]
  exact skipBreaks_inside inside

/-- To the next place that may be looked at. -/
theorem stands_skipIgnored :
    c.skipIgnored.Stands c.lexemes c.brackets c.index := by
  unfold skipIgnored
  cases hm : c.mode with
  | significant => exact ⟨rfl, rfl, Nat.le_refl _, inside, fun h => by rw [hm] at h; cases h⟩
  | ignored =>
    exact ⟨c.skipBreaks_lexemes, c.skipBreaks_brackets, c.index_le_skipBreaks,
      clear_skipBreaks ends inside⟩

theorem stands_advance :
    c.advance.Stands c.lexemes c.brackets (min (c.index + 1) (c.lexemes.size - 1)) := by
  unfold advance
  split
  · rename_i hlt
    have moved := stands_skipIgnored (c := { c with index := c.index + 1 }) ends hlt
    exact ⟨moved.lexemes, moved.brackets, Nat.le_trans (Nat.min_le_left ..) moved.reached,
      moved.clear⟩
  · have stays := stands_skipIgnored ends inside
    exact ⟨stays.lexemes, stays.brackets, by have := stays.reached; omega, stays.clear⟩

theorem clear_enter (mode : LineBreaks) : (c.enter mode).Clear :=
  (stands_advance (c := { c with mode, outer := c.mode :: c.outer }) ends inside).clear

theorem clear_leave : c.leave.Clear := by
  unfold leave
  split
  · exact (stands_advance ends inside).clear
  · rename_i mode outer _
    exact (stands_advance (c := { c with mode, outer }) ends inside).clear

end

namespace Stands

theorem self (h : c.Clear) : c.Stands c.lexemes c.brackets c.index := ⟨rfl, rfl, Nat.le_refl _, h⟩

theorem widen {j : Nat} (h : c.Stands lexemes b i) (hij : j ≤ i) : c.Stands lexemes b j :=
  ⟨h.lexemes, h.brackets, Nat.le_trans hij h.reached, h.clear⟩

theorem lt (h : c.Stands lexemes b i) : i < lexemes.size :=
  Nat.lt_of_le_of_lt h.reached (h.lexemes ▸ h.clear.inside)

variable (ends : EndsProgram lexemes)
include ends

theorem skipBreaks (h : c.Stands lexemes b i) : c.skipBreaks.Stands lexemes b i := by
  obtain ⟨rfl, rfl, reached, clear⟩ := h
  exact ⟨c.skipBreaks_lexemes, c.skipBreaks_brackets,
    Nat.le_trans reached c.index_le_skipBreaks, clear_skipBreaks ends clear.inside⟩

/-- One lexeme on, if it is not the last one, and in other brackets. -/
theorem passed (h : c.Stands lexemes b i) (b' : Brackets) :
    ({ c with mode := b'.mode, outer := b'.outer } : Cursor).advance.Stands lexemes b'
      (min (c.index + 1) (c.lexemes.size - 1)) := by
  obtain ⟨rfl, rfl, -, clear⟩ := h
  exact stands_advance (c := { c with mode := b'.mode, outer := b'.outer }) ends clear.inside

theorem pass (h : c.Stands lexemes b i) (b' : Brackets) :
    ({ c with mode := b'.mode, outer := b'.outer } : Cursor).advance.Stands lexemes b' i := by
  refine (h.passed ends b').widen ?_
  have reached := h.reached
  have inside := h.clear.inside
  omega

/-- The end of the program apart, a lexeme that is passed is left behind. -/
theorem pass_lt (h : c.Stands lexemes b i) (ht : c.token ≠ .eof) (b' : Brackets) :
    ({ c with mode := b'.mode, outer := b'.outer } : Cursor).advance.Stands lexemes b' (i + 1) := by
  refine (h.passed ends b').widen ?_
  have reached := h.reached
  have behind := lt_of_token (h.lexemes ▸ ends) h.clear.inside ht
  omega

theorem advance (h : c.Stands lexemes b i) : c.advance.Stands lexemes b i := by
  obtain rfl := h.brackets
  exact h.pass ends c.brackets

theorem advance_lt (h : c.Stands lexemes b i) (ht : c.token ≠ .eof) :
    c.advance.Stands lexemes b (i + 1) := by
  obtain rfl := h.brackets
  exact h.pass_lt ends ht c.brackets

end Stands

/-! ## A step back -/

theorem retreat_next (c : Cursor) : retreat { c with index := c.index + 1 } =
    if c.mode = .ignored ∧ c.token = .eol then c.retreat else c := by
  rw [retreat]

/-- A step back passes over the line breaks that a step on has passed over. -/
theorem retreat_skipBreaks (hm : c.mode = .ignored) : c.skipBreaks.retreat = c.retreat := by
  fun_induction Cursor.skipBreaks c with
  | case1 c h ih => rw [ih hm, retreat_next, if_pos ⟨hm, h.1⟩]
  | case2 => rfl

theorem retreat_skipIgnored (c : Cursor) : c.skipIgnored.retreat = c.retreat := by
  unfold skipIgnored
  split
  · rfl
  · exact retreat_skipBreaks ‹_›

theorem retreat_advance (h : c.Clear) (hi : c.index + 1 < c.lexemes.size) :
    c.advance.retreat = c := by
  rw [advance, if_pos hi, retreat_skipIgnored, retreat_next, if_neg fun hc => h.counts hc.1 hc.2]

/-! ## At the last lexeme -/

theorem advance_last (h : c.lexemes.size ≤ c.index + 1) : c.advance = c := by
  rw [advance, if_neg (Nat.not_lt_of_le h), skipIgnored]
  split
  · rfl
  · rw [skipBreaks, dif_neg fun hc => Nat.not_lt_of_le h hc.2]

theorem retreat_le (c : Cursor) : c.retreat.index ≤ c.index := by
  fun_induction retreat c with
  | case1 c h => exact Nat.le_refl _
  | case2 c i h back hskip ih => exact Nat.le_trans ih (h ▸ Nat.le_succ i)
  | case3 c i h back hstop => exact h ▸ Nat.le_succ i

/-- A step back passes over nothing but line breaks that do not count. -/
theorem retreat_passes (c : Cursor) (i : Nat) (hi : c.retreat.index < i) (hc : i < c.index) :
    c.mode = .ignored ∧ (c.rewind i).token = .eol := by
  fun_induction retreat c with
  | case1 c h => omega
  | case2 c j h back hskip ih =>
    by_cases hj : i < j
    · exact ih hi hj
    · obtain rfl : i = j := by omega
      exact hskip
  | case3 c j h back hstop =>
    change j < i at hi
    omega

theorem retreat_lt (h : 0 < c.index) : c.retreat.index < c.index := by
  obtain ⟨i, hi⟩ : ∃ i, c.index = i + 1 := ⟨c.index - 1, by omega⟩
  have back := retreat_next { c with index := i }
  have whole : { c with index := i + 1 } = c := by rw [← hi]
  rw [whole] at back
  rw [back, hi]
  split
  · exact Nat.lt_succ_of_le (retreat_le _)
  · exact Nat.lt_succ_self i

end Cursor

end TracedScript
