import Mathlib.Order.Bounds.Basic
import TracedScript.Text.Source

/-!
# Boundaries between characters

A byte offset is a boundary of a text if it is the length of a beginning of the text. There, and
only there, a text can be cut: `cutAt?_eq_some_iff`. The position found for an offset is the last
boundary up to it: `isGreatest_position`.
-/

namespace TracedScript

namespace Text

variable {cs front back text : List Char} {n : Nat}

theorem byteLength_append (xs ys : List Char) :
    byteLength (xs ++ ys) = byteLength xs + byteLength ys := by
  induction xs with
  | nil => exact (Nat.zero_add _).symm
  | cons c xs ih =>
    simp only [List.cons_append, byteLength, ih]
    omega

theorem byteLength_pos {cs : List Char} (h : cs ≠ []) : 0 < byteLength cs := by
  cases cs with
  | nil => exact absurd rfl h
  | cons c cs => exact Nat.add_pos_left c.utf8Size_pos _

/-- The bytes are those of strings. -/
theorem byteLength_eq (cs : List Char) : byteLength cs = (String.ofList cs).utf8ByteSize := by
  induction cs with
  | nil => rfl
  | cons c cs ih =>
    rw [byteLength, ih, String.ofList_cons, String.utf8ByteSize_append,
      String.utf8ByteSize_singleton]

/-- Of two beginnings of a text, the one with fewer bytes is a beginning of the other. -/
theorem exists_between {before after before' after' : List Char}
    (h : cs = before ++ after) (h' : cs = before' ++ after')
    (le : byteLength before ≤ byteLength before') :
    ∃ text, before' = before ++ text ∧ after = text ++ after' := by
  subst h
  obtain ⟨text, rfl, rfl⟩ | ⟨text, rfl, rfl⟩ := List.append_eq_append_iff.mp h'
  · exact ⟨text, rfl, rfl⟩
  · have empty : text = [] := by
      by_contra long
      have := byteLength_pos long
      rw [byteLength_append] at le
      omega
    exact ⟨[], by simp [empty], by simp [empty]⟩

/-! ## Cutting -/

theorem cutAt?_append (front back : List Char) :
    cutAt? (byteLength front) (front ++ back) = some (front, back) := by
  induction front with
  | nil => rw [byteLength, List.nil_append, cutAt?]
  | cons c front ih =>
    obtain ⟨k, hk⟩ := Nat.exists_eq_add_one_of_ne_zero
      (Nat.ne_of_gt (byteLength_pos (List.cons_ne_nil c front)))
    have fits : c.utf8Size ≤ k + 1 := hk ▸ Nat.le_add_right _ _
    have left : k + 1 - c.utf8Size = byteLength front := by
      rw [← hk, byteLength, Nat.add_sub_cancel_left]
    rw [hk, List.cons_append, cutAt?, if_pos fits, left, ih]
    rfl

theorem cutAt?_eq_some_iff :
    cutAt? n cs = some (front, back) ↔ cs = front ++ back ∧ byteLength front = n := by
  constructor
  · intro h
    fun_induction cutAt? n cs generalizing front with
    | case1 cs =>
      cases h
      exact ⟨rfl, rfl⟩
    | case2 n => cases h
    | case3 n c cs fits ih =>
      obtain ⟨⟨front, back⟩, cut, hcons⟩ := Option.map_eq_some_iff.mp h
      cases hcons
      obtain ⟨rfl, length⟩ := ih cut
      refine ⟨rfl, ?_⟩
      rw [byteLength, length, Nat.add_sub_cancel' fits]
    | case4 n c cs _ => cases h
  · rintro ⟨rfl, rfl⟩
    exact cutAt?_append front back

theorem slice?_append (front text back : List Char) :
    slice? (byteLength front) (byteLength (front ++ text)) (front ++ (text ++ back)) =
      some text := by
  have order : byteLength front ≤ byteLength (front ++ text) := by
    rw [byteLength_append]
    exact Nat.le_add_right _ _
  have length : byteLength (front ++ text) - byteLength front = byteLength text := by
    rw [byteLength_append, Nat.add_sub_cancel_left]
  rw [slice?, if_pos order, cutAt?_append, Option.bind_some, length]
  dsimp only
  rw [cutAt?_append]
  rfl

/-! ## The last boundary up to an offset -/

theorem boundaryUpTo_le (cs : List Char) (n : Nat) : boundaryUpTo cs n ≤ n := by
  induction n with
  | zero => exact Nat.le_refl 0
  | succ n ih =>
    rw [boundaryUpTo]
    split
    · exact Nat.le_refl _
    · exact Nat.le_succ_of_le ih

theorem exists_cut_boundaryUpTo (cs : List Char) (n : Nat) :
    ∃ front back, cs = front ++ back ∧ boundaryUpTo cs n = byteLength front := by
  induction n with
  | zero => exact ⟨[], cs, rfl, rfl⟩
  | succ n ih =>
    rw [boundaryUpTo]
    split
    · rename_i cut
      obtain ⟨⟨front, back⟩, hcut⟩ := Option.isSome_iff_exists.mp cut
      obtain ⟨whole, length⟩ := cutAt?_eq_some_iff.mp hcut
      exact ⟨front, back, whole, length.symm⟩
    · exact ih

theorem le_boundaryUpTo (hcs : cs = front ++ back) (h : byteLength front ≤ n) :
    byteLength front ≤ boundaryUpTo cs n := by
  induction n with
  | zero => exact h
  | succ n ih =>
    rw [boundaryUpTo]
    split
    · exact h
    · rename_i cut
      have other : byteLength front ≠ n + 1 := by
        intro hlength
        rw [hcs, ← hlength, cutAt?_append] at cut
        exact cut rfl
      exact ih (by omega)

end Text

/-! ## Positions at boundaries -/

namespace Source

variable {s : Source} {front back : List Char} {i : Nat}

/-- The byte offsets at which no character of the text is cut. -/
def boundaries (s : Source) : Set Nat := {i | String.Pos.Raw.IsValid s.text ⟨i⟩}

theorem mem_boundaries_iff :
    i ∈ s.boundaries ↔ ∃ front back, s.chars = front ++ back ∧ Text.byteLength front = i := by
  apply String.Pos.Raw.isValid_iff_exists_append.trans
  constructor
  · rintro ⟨front, back, whole, length⟩
    refine ⟨front.toList, back.toList, ?_, ?_⟩
    · rw [chars, whole, String.toList_append]
    · rw [Text.byteLength_eq, String.ofList_toList]
      exact (congrArg String.Pos.Raw.byteIdx length).symm
  · rintro ⟨front, back, whole, rfl⟩
    refine ⟨String.ofList front, String.ofList back, ?_, ?_⟩
    · rw [← String.ofList_append, ← whole, chars, String.ofList_toList]
    · rw [Text.byteLength_eq]
      rfl

theorem position_append (h : s.chars = front ++ back) :
    s.position (Text.byteLength front) = ⟨s, Text.byteLength front⟩ := by
  have inside : min (Text.byteLength front) (Text.byteLength s.chars) = Text.byteLength front := by
    rw [h, Text.byteLength_append]
    exact Nat.min_eq_left (Nat.le_add_right _ _)
  have last := Nat.le_antisymm (Text.boundaryUpTo_le s.chars (Text.byteLength front))
    (Text.le_boundaryUpTo h (Nat.le_refl _))
  rw [position, inside, last]

theorem exists_position (s : Source) (n : Nat) : ∃ front back,
    s.chars = front ++ back ∧ s.position n = ⟨s, Text.byteLength front⟩ := by
  obtain ⟨front, back, whole, last⟩ :=
    Text.exists_cut_boundaryUpTo s.chars (min n (Text.byteLength s.chars))
  exact ⟨front, back, whole, congrArg (Position.mk s) last⟩

/-- A position that was found is found again. -/
theorem position_index (s : Source) (n : Nat) :
    s.position (s.position n).index = s.position n := by
  obtain ⟨front, back, whole, found⟩ := s.exists_position n
  rw [found]
  exact position_append whole

theorem isGreatest_position (s : Source) (n : Nat) :
    IsGreatest {i | i ∈ s.boundaries ∧ i ≤ min n s.text.utf8ByteSize} (s.position n).index := by
  have size : Text.byteLength s.chars = s.text.utf8ByteSize := by
    rw [Text.byteLength_eq, chars, String.ofList_toList]
  rw [← size]
  constructor
  · obtain ⟨front, back, whole, last⟩ := s.exists_position n
    constructor
    · rw [last]
      exact mem_boundaries_iff.mpr ⟨front, back, whole, rfl⟩
    · exact Text.boundaryUpTo_le _ _
  · rintro i ⟨boundary, le⟩
    obtain ⟨front, back, whole, rfl⟩ := mem_boundaries_iff.mp boundary
    exact Text.le_boundaryUpTo whole le

theorem index_position_of_mem (h : i ∈ s.boundaries) : (s.position i).index = i := by
  obtain ⟨front, back, whole, rfl⟩ := mem_boundaries_iff.mp h
  rw [position_append whole]

theorem position_mono (s : Source) {m n : Nat} (h : m ≤ n) :
    (s.position m).index ≤ (s.position n).index := by
  obtain ⟨boundary, le⟩ := (s.isGreatest_position m).1
  apply (s.isGreatest_position n).2
  exact ⟨boundary, Nat.le_trans le (Nat.le_min.mpr
    ⟨Nat.le_trans (Nat.min_le_left _ _) h, Nat.min_le_right _ _⟩)⟩

end Source

end TracedScript
