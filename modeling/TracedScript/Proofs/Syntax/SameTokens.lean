import TracedScript.Proofs.Syntax.Pairing

/-!
# Two layouts of the same tokens

Cursors over sequences of lexemes that have the same tokens, at the same place and in the same
brackets, move in the same way: no move looks at a span. So readings of two layouts of the same
tokens correspond.
-/

namespace TracedScript

namespace Cursor

/-- Two cursors over the same tokens, at the same place and in the same brackets. -/
structure SameTokens (c c' : Cursor) : Prop where
  tokens : c.lexemes.map (·.token) = c'.lexemes.map (·.token)
  index : c.index = c'.index
  mode : c.mode = c'.mode
  outer : c.outer = c'.outer

theorem tokens_getElem? (c : Cursor) :
    (c.lexemes.map (·.token))[min c.index (c.lexemes.size - 1)]? = some c.token := by
  have := c.nonempty
  rw [Array.getElem?_map, Array.getElem?_eq_getElem (by omega)]
  rfl

namespace SameTokens

variable {c c' : Cursor}

theorem size (h : c.SameTokens c') : c.lexemes.size = c'.lexemes.size := by
  simpa using congrArg Array.size h.tokens

theorem token (h : c.SameTokens c') : c.token = c'.token := by
  have found := c.tokens_getElem?
  rw [h.tokens, h.index, h.size, c'.tokens_getElem?] at found
  exact (Option.some.inj found).symm

theorem skipBreaks (h : c.SameTokens c') : c.skipBreaks.SameTokens c'.skipBreaks := by
  induction c using Cursor.skipBreaks.induct generalizing c' with
  | case1 c hc ih =>
    have hc' : c'.token = .eol ∧ c'.index + 1 < c'.lexemes.size := by
      rwa [← h.token, ← h.index, ← h.size]
    rw [Cursor.skipBreaks.eq_def c, dif_pos hc, Cursor.skipBreaks.eq_def c', dif_pos hc']
    exact ih ⟨h.tokens, congrArg (· + 1) h.index, h.mode, h.outer⟩
  | case2 c hc =>
    have hc' : ¬ (c'.token = .eol ∧ c'.index + 1 < c'.lexemes.size) := by
      rwa [← h.token, ← h.index, ← h.size]
    rw [Cursor.skipBreaks.eq_def c, dif_neg hc, Cursor.skipBreaks.eq_def c', dif_neg hc']
    exact h

theorem skipIgnored (h : c.SameTokens c') : c.skipIgnored.SameTokens c'.skipIgnored := by
  unfold Cursor.skipIgnored
  rw [h.mode]
  split
  · exact h
  · exact h.skipBreaks

theorem advance (h : c.SameTokens c') : c.advance.SameTokens c'.advance := by
  apply skipIgnored
  rw [h.index, h.size]
  split
  · exact ⟨h.tokens, rfl, h.mode, h.outer⟩
  · exact h

theorem enter (h : c.SameTokens c') (mode : LineBreaks) :
    (c.enter mode).SameTokens (c'.enter mode) :=
  advance ⟨h.tokens, h.index, rfl, by rw [h.mode, h.outer]⟩

theorem leave (h : c.SameTokens c') : c.leave.SameTokens c'.leave := by
  unfold Cursor.leave
  rw [h.outer]
  split
  · exact h.advance
  · exact advance ⟨h.tokens, h.index, rfl, rfl⟩

end SameTokens

end Cursor

/-- Readings of the same tokens, wherever they stand in a source. -/
def Parser.Pairing.sameTokens : Parser.Pairing where
  cursor := Cursor.SameTokens
  span _ _ := True
  token := Cursor.SameTokens.token
  current _ := trivial
  index h h' := by rw [h.index, h'.index]
  advance h _ := h.advance
  skipBreaks := Cursor.SameTokens.skipBreaks
  enter h _ := h.enter _
  leave h _ := h.leave

end TracedScript
