import Mathlib.Data.List.DropRight
import TracedScript.Number.Decimal
import TracedScript.Proofs.Files.ScriptNames
import TracedScript.Text.Blank

/-!
# Cutting into lines and trimming

The pieces of a text are those between its line feeds: `pieces_eq_split`. Of these, `lines` drops
an empty last one and the carriage returns in front of line feeds, and nothing else: `line_cases`.
Trimming leaves what is between the blanks at both ends: `exists_trims`, `Trims.trim_eq`.
-/

namespace TracedScript.Text

variable {cs : List Char}

/-! ## Lines -/

theorem pieces_eq_split (cs : List Char) : pieces cs = Path.split '\n' cs := by
  induction cs with
  | nil => rfl
  | cons c cs ih =>
    cases parts : Path.split '\n' cs <;> simp [pieces, Path.split, ih, parts]

theorem pieces_of_not_mem (h : '\n' ∉ cs) : pieces cs = [cs] := by
  rw [pieces_eq_split, Path.split_of_not_mem h]

theorem pieces_append (front back : List Char) :
    pieces (front ++ '\n' :: back) = pieces front ++ pieces back := by
  simp only [pieces_eq_split, Path.split_append]

theorem pieces_join {ps : List (List Char)} (hne : ps ≠ []) (h : ∀ p ∈ ps, '\n' ∉ p) :
    pieces (join ['\n'] ps) = ps := by
  rw [pieces_eq_split, Path.split_join hne h]

theorem not_mem_of_mem_pieces {p : List Char} (h : p ∈ pieces cs) : '\n' ∉ p := by
  induction cs generalizing p with
  | nil =>
    obtain rfl := List.mem_singleton.mp h
    exact List.not_mem_nil
  | cons c cs ih =>
    rw [pieces] at h
    split at h
    · obtain rfl | h := List.mem_cons.mp h
      · exact List.not_mem_nil
      · exact ih h
    · rename_i hc
      cases hp : pieces cs with
      | nil =>
        rw [hp] at h
        obtain rfl := List.mem_singleton.mp h
        simpa using Ne.symm hc
      | cons q qs =>
        rw [hp] at h ih
        obtain rfl | h := List.mem_cons.mp h
        · simpa using ⟨Ne.symm hc, ih (List.mem_cons_self ..)⟩
        · exact ih (List.mem_cons_of_mem q h)

theorem length_pieces (cs : List Char) : (pieces cs).length = cs.count '\n' + 1 := by
  induction cs with
  | nil => rfl
  | cons c cs ih =>
    rw [pieces, List.count_cons]
    split
    · rename_i hc
      rw [hc, List.length_cons, ih]
      rfl
    · rename_i hc
      cases hp : pieces cs with
      | nil =>
        rw [hp] at ih
        cases ih
      | cons q qs =>
        rw [hp] at ih
        simpa [hc] using ih

theorem exists_return (cs : List Char) : ∃ cr ∈ [[], ['\r']], cs = dropReturn cs ++ cr := by
  unfold dropReturn
  split
  · rename_i last
    obtain ⟨front, rfl⟩ := List.getLast?_eq_some_iff.mp last
    exact ⟨['\r'], by simp, by rw [List.dropLast_concat]⟩
  · exact ⟨[], by simp, (List.append_nil cs).symm⟩

/-- Each line is a piece, apart from a carriage return at its end. A piece that is no line is
empty. -/
theorem line_cases (cs : List Char) (i : Nat) :
    (∃ l, (lines cs)[i]? = some l ∧ ∃ cr ∈ [[], ['\r']], (pieces cs)[i]? = some (l ++ cr)) ∨
      (lines cs)[i]? = none ∧ (pieces cs)[i]?.getD [] = [] := by
  have nonempty : pieces cs ≠ [] := by
    rw [pieces_eq_split]
    exact Path.split_ne_nil cs
  obtain ⟨front, last, whole⟩ : ∃ front last, pieces cs = front ++ [last] :=
    ⟨_, _, (List.dropLast_append_getLast nonempty).symm⟩
  have cut : lines cs = front.map dropReturn ++ (if last = [] then [] else [last]) := by
    simp [lines, whole]
  rw [cut, whole]
  by_cases hi : i < front.length
  · left
    obtain ⟨cr, hcr, parts⟩ := exists_return front[i]
    refine ⟨dropReturn front[i], ?_, cr, hcr, ?_⟩
    · rw [List.getElem?_append_left (by simpa using hi), List.getElem?_map,
        List.getElem?_eq_getElem hi, Option.map_some]
    · rw [List.getElem?_append_left hi, List.getElem?_eq_getElem hi, ← parts]
  · rw [List.getElem?_append_right (by simpa using hi),
      List.getElem?_append_right (Nat.le_of_not_lt hi), List.length_map]
    cases hk : i - front.length with
    | zero =>
      by_cases empty : last = []
      · exact .inr (by simp [empty])
      · exact .inl ⟨last, by simp [empty]⟩
    | succ k =>
      right
      split <;> simp

theorem not_mem_of_mem_lines {l : List Char} (h : l ∈ lines cs) : '\n' ∉ l := by
  obtain ⟨i, hi⟩ := List.mem_iff_getElem?.mp h
  obtain ⟨l', hl, cr, -, piece⟩ | ⟨none, -⟩ := line_cases cs i
  · cases hi.symm.trans hl
    intro hb
    exact not_mem_of_mem_pieces (List.mem_of_getElem? piece) (List.mem_append_left cr hb)
  · cases hi.symm.trans none

/-! ## Trimming -/

theorem dropWhile_of_head? {p : Char → Bool} (h : ∀ c ∈ cs.head?, p c = false) :
    cs.dropWhile p = cs := by
  cases cs with
  | nil => rfl
  | cons c cs => rw [List.dropWhile_cons_of_neg (by simp [h c rfl])]

/-- The text consists of blanks, of what neither starts nor ends with one, and of blanks. -/
structure Trims (cs lead core trail : List Char) : Prop where
  whole : cs = lead ++ (core ++ trail)
  front : ∀ c ∈ lead, isBlank c = true
  behind : ∀ c ∈ trail, isBlank c = true
  first : ∀ c ∈ core.head?, isBlank c = false
  last : ∀ c ∈ core.getLast?, isBlank c = false

theorem Trims.trim_eq {lead core trail : List Char} (h : Trims cs lead core trail) :
    trim cs = core := by
  by_cases empty : core = []
  · have blank : cs.dropWhile isBlank = [] := by
      rw [List.dropWhile_eq_nil_iff, h.whole, empty]
      intro c hc
      exact (List.mem_append.mp hc).elim (h.front c) (h.behind c)
    rw [trim, blank, empty]
    rfl
  · have first : ∀ c ∈ (core ++ trail).head?, isBlank c = false := by
      rw [List.head?_append_of_ne_nil _ empty]
      exact h.first
    have behind : ∀ c ∈ trail.reverse, isBlank c = true := fun c hc =>
      h.behind c (List.mem_reverse.mp hc)
    have last : ∀ c ∈ core.reverse.head?, isBlank c = false := by
      rw [List.head?_reverse]
      exact h.last
    rw [trim, h.whole, List.dropWhile_append_of_pos h.front, dropWhile_of_head? first,
      List.reverse_append, List.dropWhile_append_of_pos behind, dropWhile_of_head? last,
      List.reverse_reverse]

theorem exists_trims (cs : List Char) :
    ∃ trail, Trims cs (cs.takeWhile isBlank) (trim cs) trail := by
  have core : trim cs = (cs.dropWhile isBlank).rdropWhile isBlank := rfl
  have parts : (cs.dropWhile isBlank).rdropWhile isBlank ++
      (cs.dropWhile isBlank).rtakeWhile isBlank = cs.dropWhile isBlank :=
    List.rdropWhile_append_rtakeWhile ..
  refine ⟨(cs.dropWhile isBlank).rtakeWhile isBlank, ?_, ?_, ?_, ?_, ?_⟩
  · rw [core, parts, List.takeWhile_append_dropWhile]
  · exact fun c hc => List.mem_takeWhile_imp hc
  · exact fun c hc => List.mem_rtakeWhile_imp hc
  · -- what is left starts with the first character behind the blanks in front
    rw [core]
    intro c hc
    have start : (cs.dropWhile isBlank).head? = some c := by
      rw [← parts, List.head?_append, hc]
      rfl
    have notBlank := List.head?_dropWhile_not isBlank cs
    rw [start] at notBlank
    exact notBlank
  · rw [core]
    intro c hc
    have nonempty : (cs.dropWhile isBlank).rdropWhile isBlank ≠ [] := by
      intro empty
      rw [empty] at hc
      cases hc
    rw [List.getLast?_eq_some_getLast nonempty] at hc
    cases hc
    simpa using List.rdropWhile_last_not isBlank _ nonempty

/-- What has no blanks stays, and just the blanks around it are trimmed. -/
theorem Trims.of_not_blank {lead core trail : List Char} (whole : cs = lead ++ (core ++ trail))
    (front : ∀ c ∈ lead, isBlank c = true) (behind : ∀ c ∈ trail, isBlank c = true)
    (h : ∀ c ∈ core, isBlank c = false) : Trims cs lead core trail :=
  ⟨whole, front, behind, fun c hc => h c (List.mem_of_head? hc),
    fun c hc => h c (List.mem_of_getLast? hc)⟩

theorem trims_of_not_blank (h : ∀ c ∈ cs, isBlank c = false) :
    Trims (String.ofList cs).toList [] cs [] := by
  rw [String.toList_ofList]
  exact .of_not_blank (List.append_nil cs).symm (List.forall_mem_nil _) (List.forall_mem_nil _) h

theorem isBlank_of_digit {c : Char} (h : Number.isDigit c = true) : isBlank c = false := by
  have range : 48 ≤ c.toNat ∧ c.toNat ≤ 57 := by
    unfold Number.isDigit Number.digitValue? at h
    split at h
    · assumption
    · cases h
  simp [isBlank]
  omega

end TracedScript.Text
