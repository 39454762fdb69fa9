import TracedScript.Proofs.Syntax.Lossless
import TracedScript.Syntax.Cursor

/-!
# The layout of lexemes

The lexemes of a source stand one behind the other, and the last one is empty. So whatever a cursor
passes ends where the cursor stands then, or before. This is all that the order of the nodes of a
program rests on.
-/

namespace TracedScript

/-- Lexemes of one source, one behind the other, the last of them empty. -/
structure Tape where
  lexemes : Array Lexeme
  source : Source
  inside : ∀ l ∈ lexemes, l.span.start.source = source ∧ l.span.stop.source = source
  forward : ∀ l ∈ lexemes, l.span.start.index ≤ l.span.stop.index
  apart : lexemes.toList.Pairwise fun a b => a.span.Before b.span
  /-- Nothing can be passed at the end. -/
  last : ∀ l ∈ lexemes.back?, l.span.stop.index ≤ l.span.start.index

theorem exists_tape_of_scan {source : Source} {found : List Lexeme} (h : scan source = .ok found) :
    ∃ t : Tape, t.lexemes = found.toArray := by
  have row := row_of_scan h
  have boundaries := position_of_scan h
  refine ⟨⟨found.toArray, source, ?_, ?_, List.pairwise_map.mp row.apart, ?_⟩, rfl⟩
  · intro l hl
    have ends := boundaries l (List.mem_toArray.mp hl)
    constructor
    · rw [← ends l.span.start (by simp)]
      rfl
    · rw [← ends l.span.stop (by simp)]
      rfl
  · intro l hl
    exact (row.within _ (List.mem_map_of_mem (List.mem_toArray.mp hl))).forward
  · obtain ⟨cut, -, rfl⟩ := exists_cut_of_scan h
    intro l hl
    simp only [List.back?_toArray, List.getLast?_append, List.getLast?_cons_cons,
      List.getLast?_singleton, Option.some_or, Option.mem_some_iff] at hl
    rw [← hl]

theorem Position.eq_of_index {p q : Position} (hs : p.source = q.source)
    (hi : p.index = q.index) : p = q := by
  cases p
  cases q
  simp_all

namespace Tape

variable {t : Tape} {i j : Nat}

theorem before_of_lt (hi : i < t.lexemes.size) (hj : j < t.lexemes.size) (hij : i < j) :
    t.lexemes[i].span.Before t.lexemes[j].span :=
  List.pairwise_iff_getElem.mp t.apart i j hi hj hij

theorem start_le (hi : i < t.lexemes.size) (hj : j < t.lexemes.size) (hij : i ≤ j) :
    t.lexemes[i].span.start.index ≤ t.lexemes[j].span.start.index := by
  obtain rfl | hlt := Nat.eq_or_lt_of_le hij
  · exact Nat.le_refl _
  · exact Nat.le_trans (t.forward _ (Array.getElem_mem _)) (before_of_lt hi hj hlt)

/-- A lexeme ends before the next one starts; the last one is empty. -/
theorem stop_le (hi : i < t.lexemes.size) (hj : j < t.lexemes.size)
    (hij : min (i + 1) (t.lexemes.size - 1) ≤ j) :
    t.lexemes[i].span.stop.index ≤ t.lexemes[j].span.start.index := by
  by_cases hend : i + 1 < t.lexemes.size
  · exact before_of_lt hi hj (by omega)
  · obtain rfl : i = j := by omega
    refine t.last _ ?_
    obtain rfl : i = t.lexemes.size - 1 := by omega
    simp [Array.back?, hj]

theorem stop_le_stop (hi : i < t.lexemes.size) (hj : j < t.lexemes.size) (hij : i ≤ j) :
    t.lexemes[i].span.stop.index ≤ t.lexemes[j].span.stop.index := by
  obtain rfl | hlt := Nat.eq_or_lt_of_le hij
  · exact Nat.le_refl _
  · exact Nat.le_trans (before_of_lt hi hj hlt) (t.forward _ (Array.getElem_mem _))

/-- The span goes from the start of a lexeme to the end of one at or behind it. -/
def Covers (t : Tape) (s : Span) : Prop :=
  ∃ (a b : Nat) (ha : a < t.lexemes.size) (hb : b < t.lexemes.size),
    a ≤ b ∧ s = t.lexemes[a].span.through t.lexemes[b].span

theorem Covers.source {s : Span} (h : t.Covers s) :
    s.start.source = t.source ∧ s.stop.source = t.source := by
  obtain ⟨a, b, ha, hb, -, rfl⟩ := h
  exact ⟨(t.inside _ (Array.getElem_mem ha)).1, (t.inside _ (Array.getElem_mem hb)).2⟩

/-- Of two spans that cover lexemes of the same tape, one contains the other if it does so byte for
byte. -/
theorem Covers.contains {r s : Span} (hr : t.Covers r) (hs : t.Covers s)
    (h : s.Within r.start.index r.stop.index) : r.Contains s :=
  ⟨hs.source.1.trans hr.source.1.symm, hs.source.2.trans hr.source.2.symm, h.le_start, h.stop_le⟩

theorem covers_lexeme (hi : i < t.lexemes.size) : t.Covers t.lexemes[i].span :=
  ⟨i, i, hi, hi, Nat.le_refl i, rfl⟩

/-- Bytes do not tell empty lexemes at one place apart, so the last lexeme of the second span may
have a smaller number than the first one of the first span; both are empty then. -/
theorem Covers.through {r s : Span} (hr : t.Covers r) (hs : t.Covers s) (h : r.Before s) :
    t.Covers (r.through s) := by
  obtain ⟨a, b, ha, hb, hab, rfl⟩ := hr
  obtain ⟨c, d, hc, hd, hcd, rfl⟩ := hs
  by_cases had : a ≤ d
  · exact ⟨a, d, ha, hd, had, rfl⟩
  · have h : t.lexemes[b].span.stop.index ≤ t.lexemes[c].span.start.index := h
    have first := before_of_lt hd ha (Nat.lt_of_not_le had)
    unfold Span.Before at first
    have whole := t.forward _ (Array.getElem_mem ha)
    have later := stop_le_stop ha hb hab
    have passed := start_le hc hd hcd
    have ended := t.forward _ (Array.getElem_mem hd)
    have here := (t.inside _ (Array.getElem_mem ha)).2
    have there := (t.inside _ (Array.getElem_mem hd)).2
    have same : t.lexemes[d].span.stop = t.lexemes[a].span.stop :=
      Position.eq_of_index (there.trans here.symm) (by omega)
    exact ⟨a, a, ha, ha, Nat.le_refl a, congrArg (Span.mk _) same⟩

/-- The span lies between two bytes and covers lexemes. -/
structure Stands (t : Tape) (i j : Nat) (s : Span) : Prop where
  within : s.Within i j
  covers : t.Covers s

namespace Stands

variable {h k : Nat} {r s : Span}

theorem le (hs : t.Stands i j s) : i ≤ j := hs.within.le

theorem widen (hs : t.Stands i j s) (hi : h ≤ i) (hj : j ≤ k) : t.Stands h k s :=
  ⟨hs.within.widen hi hj, hs.covers⟩

theorem through (hr : t.Stands i j r) (hs : t.Stands j k s) : t.Stands i k (r.through s) :=
  ⟨hr.within.through hs.within, hr.covers.through hs.covers (hr.within.before hs.within)⟩

/-- As close as possible at the start. -/
theorem fromStart (hs : t.Stands i j s) : t.Stands s.start.index j s :=
  ⟨⟨Nat.le_refl _, hs.within.forward, hs.within.stop_le⟩, hs.covers⟩

/-- As close as possible at the end. -/
theorem toStop (hs : t.Stands i j s) : t.Stands i s.stop.index s :=
  ⟨⟨hs.within.le_start, hs.within.forward, Nat.le_refl _⟩, hs.covers⟩

end Stands

end Tape

/-! ## What a cursor passes -/

namespace Cursor

variable {t : Tape} {c d : Cursor}

/-- The byte at which the current lexeme starts. -/
def offset (c : Cursor) : Nat := c.span.start.index

theorem current_eq (hc : c.lexemes = t.lexemes) :
    ∃ h : min c.index (t.lexemes.size - 1) < t.lexemes.size,
      c.current = t.lexemes[min c.index (t.lexemes.size - 1)] := by
  have := c.nonempty
  rw [hc] at this
  exact ⟨by omega, by simp only [current, hc]⟩

theorem offset_le (hc : c.lexemes = t.lexemes) (hd : d.lexemes = t.lexemes)
    (h : c.index ≤ d.index) : c.offset ≤ d.offset := by
  obtain ⟨hi, current⟩ := current_eq hc
  obtain ⟨hj, later⟩ := current_eq hd
  unfold offset span
  rw [current, later]
  exact Tape.start_le hi hj (by omega)

/-- What stands under a cursor ends before the cursor that passed it. -/
theorem span_stands (hc : c.lexemes = t.lexemes) (hd : d.lexemes = t.lexemes)
    (h : min (c.index + 1) (c.lexemes.size - 1) ≤ d.index) :
    t.Stands c.offset d.offset c.span := by
  obtain ⟨hi, current⟩ := current_eq hc
  obtain ⟨hj, later⟩ := current_eq hd
  rw [hc] at h
  unfold offset span
  rw [current, later]
  constructor
  · exact ⟨Nat.le_refl _, t.forward _ (Array.getElem_mem _), Tape.stop_le hi hj (by omega)⟩
  · exact Tape.covers_lexeme hi

/-- Passing line breaks changes the place only. -/
theorem skipBreaks_eq (c : Cursor) : c.skipBreaks = c.rewind c.skipBreaks.index := by
  fun_induction skipBreaks c with
  | case1 c _ ih => exact ih
  | case2 c => rfl

theorem rewind_skipBreaks (c : Cursor) : c.skipBreaks.rewind c.index = c := by
  rw [skipBreaks_eq]
  rfl

/-- A token that is no line break is not passed over. -/
theorem skipBreaks_of_ne {c : Cursor} (h : c.token ≠ .eol) : c.skipBreaks = c := by
  rw [skipBreaks.eq_def, dif_neg fun stop => h stop.1]

theorem skipBreaks_lexemes (c : Cursor) : c.skipBreaks.lexemes = c.lexemes := by
  rw [skipBreaks_eq]
  rfl

theorem index_le_skipBreaks (c : Cursor) : c.index ≤ c.skipBreaks.index := by
  fun_induction skipBreaks c with
  | case1 c _ ih => exact Nat.le_trans (Nat.le_succ _) ih
  | case2 => exact Nat.le_refl _

theorem skipIgnored_lexemes (c : Cursor) : c.skipIgnored.lexemes = c.lexemes := by
  unfold skipIgnored
  split
  · rfl
  · exact c.skipBreaks_lexemes

theorem index_le_skipIgnored (c : Cursor) : c.index ≤ c.skipIgnored.index := by
  unfold skipIgnored
  split
  · exact Nat.le_refl _
  · exact c.index_le_skipBreaks

theorem advance_lexemes (c : Cursor) : c.advance.lexemes = c.lexemes := by
  unfold advance
  split <;> exact skipIgnored_lexemes _

theorem index_le_advance (c : Cursor) :
    min (c.index + 1) (c.lexemes.size - 1) ≤ c.advance.index := by
  unfold advance
  split
  · exact Nat.le_trans (Nat.min_le_left ..)
      (index_le_skipIgnored { c with index := c.index + 1 })
  · have := c.index_le_skipIgnored
    omega

theorem advance_stands (hc : c.lexemes = t.lexemes) :
    t.Stands c.offset c.advance.offset c.span :=
  span_stands hc (c.advance_lexemes.trans hc) c.index_le_advance

theorem enter_spec (c : Cursor) (mode : LineBreaks) (hc : c.lexemes = t.lexemes) :
    (c.enter mode).lexemes = t.lexemes ∧ t.Stands c.offset (c.enter mode).offset c.span := by
  let inner : Cursor := { c with mode, outer := c.mode :: c.outer }
  have passed : t.Stands inner.offset inner.advance.offset inner.span := advance_stands hc
  exact ⟨inner.advance_lexemes.trans hc, passed⟩

theorem leave_spec (c : Cursor) (hc : c.lexemes = t.lexemes) :
    c.leave.lexemes = t.lexemes ∧ t.Stands c.offset c.leave.offset c.span := by
  unfold leave
  split
  · exact ⟨c.advance_lexemes.trans hc, advance_stands hc⟩
  · rename_i mode outer _
    let around : Cursor := { c with mode, outer }
    have passed : t.Stands around.offset around.advance.offset around.span := advance_stands hc
    exact ⟨around.advance_lexemes.trans hc, passed⟩

end Cursor

end TracedScript
