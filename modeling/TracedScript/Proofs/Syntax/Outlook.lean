import TracedScript.Proofs.Syntax.Passing

/-!
# What lies ahead of a cursor

Parsers look at the tokens ahead only as far as the first one that is no line break. So two
sequences of tokens that agree up to such a token look alike: `LooksLike`. `Cursor.On` adds to
`Cursor.Ahead` over which lexemes the cursor moves, as that tells where it stands.
-/

namespace TracedScript

/-- Some token is no line break. -/
def Solid (ts : List Token) : Prop := ∃ t ∈ ts, t ≠ .eol

/-- The sequences agree up to some token that is no line break. -/
def LooksLike (ts us : List Token) : Prop :=
  ∃ same ts' us', Solid same ∧ ts = same ++ ts' ∧ us = same ++ us'

/-- How the brackets around a place treat line breaks. -/
structure Brackets where
  mode : LineBreaks
  outer : List LineBreaks

namespace Brackets

/-- Inside of one more bracket. -/
def push (b : Brackets) (mode : LineBreaks) : Brackets := ⟨mode, b.mode :: b.outer⟩

def seen (b : Brackets) (ts : List Token) : List Token := b.mode.visible ts

end Brackets

/-- The token stands first. -/
def Heads (now : Token → Prop) (ts : List Token) : Prop := ∃ t us, ts = t :: us ∧ now t

/-- The token stands first behind line breaks. -/
def Next (now : Token → Prop) (ts : List Token) : Prop := Heads now (ts.dropWhile (· = .eol))

section

variable {b : Brackets} {now now' : Token → Prop} {ts us vs rest rest' : List Token} {t u : Token}

theorem solid_cons (ht : t ≠ .eol) : Solid (t :: ts) := ⟨t, List.mem_cons_self .., ht⟩

theorem not_solid_nil : ¬ Solid [] := fun ⟨_, hm, _⟩ => List.not_mem_nil hm

theorem Solid.append (h : Solid us) : Solid (us ++ vs) := by
  obtain ⟨t, hm, ht⟩ := h
  exact ⟨t, List.mem_append_left _ hm, ht⟩

theorem Solid.behind (h : Solid us) : Solid (vs ++ us) := by
  obtain ⟨t, hm, ht⟩ := h
  exact ⟨t, List.mem_append_right _ hm, ht⟩

theorem solid_of_ends (h : ts.getLast? = some .eof) : Solid ts :=
  ⟨.eof, List.mem_of_getLast? h, nofun⟩

theorem length_pos_of_ends (h : ts.getLast? = some .eof) : 0 < ts.length := by
  apply List.length_pos_iff.mpr
  rintro rfl
  cases h

/-- The end of the program is not among what was passed. -/
theorem ends_behind (h : (us ++ rest).getLast? = some .eof) (hu : .eof ∉ us) :
    rest.getLast? = some .eof := by
  cases rest with
  | nil =>
    rw [List.append_nil] at h
    exact absurd (List.mem_of_getLast? h) hu
  | cons t rest => rwa [List.getLast?_append_of_ne_nil _ (List.cons_ne_nil t rest)] at h

/-- Line breaks are all that a sequence consists of. -/
theorem eq_eol_of_not_solid (h : ¬ Solid us) : ∀ t ∈ us, t = .eol := by
  intro t hm
  by_contra ht
  exact h ⟨t, hm, ht⟩

theorem dropWhile_of_not_solid (h : ¬ Solid us) :
    (us ++ rest).dropWhile (· = .eol) = rest.dropWhile (· = .eol) := by
  rw [List.dropWhile_append, List.dropWhile_eq_nil_iff.mpr (by simpa using eq_eol_of_not_solid h)]
  rfl

/-- The first token that is no line break is among those that agree. -/
theorem Solid.dropWhile (h : Solid us) : ∃ t vs, t ≠ .eol ∧
    ∀ rest, (us ++ rest).dropWhile (· = .eol) = t :: (vs ++ rest) := by
  cases hd : us.dropWhile (· = .eol) with
  | nil =>
    obtain ⟨t, hm, ht⟩ := h
    have heol := List.dropWhile_eq_nil_iff.mp hd t hm
    exact absurd (by simpa using heol) ht
  | cons t vs =>
    have counts := List.head?_dropWhile_not (fun t => decide (t = Token.eol)) us
    rw [hd] at counts
    refine ⟨t, vs, by simpa using counts, fun rest => ?_⟩
    rw [List.dropWhile_append, hd]
    rfl

theorem heads_dropWhile (h : ts.getLast? = some .eof) :
    Heads (· ≠ .eol) (b.seen (ts.dropWhile (· = .eol))) := by
  obtain ⟨t, vs, ht, hv⟩ := (solid_of_ends h).dropWhile
  have hv := hv []
  rw [List.append_nil] at hv
  rw [hv]
  have counts : b.mode.visible (t :: (vs ++ [])) = t :: (vs ++ []) :=
    Cursor.Ahead.visible_cons fun heol => absurd heol ht
  exact ⟨t, _, counts, ht⟩

theorem not_solid_takeWhile (ts : List Token) : ¬ Solid (ts.takeWhile (· = .eol)) := by
  rintro ⟨t, hm, ht⟩
  exact ht (by simpa using List.mem_takeWhile_imp hm)

theorem next_append (h : ¬ Solid us) (ht : t ≠ .eol) :
    Next now (us ++ t :: rest) ↔ now t := by
  unfold Next
  rw [dropWhile_of_not_solid h, List.dropWhile_cons_of_neg (by simpa using ht)]
  constructor
  · rintro ⟨_, _, hu, hn⟩
    exact (List.cons_eq_cons.mp hu).1 ▸ hn
  · exact fun hn => ⟨t, rest, rfl, hn⟩

/-- The first token that is no line break. -/
theorem exists_next (h : ts.getLast? = some .eof) :
    ∃ es t us, ts = es ++ t :: us ∧ ¬ Solid es ∧ t ≠ .eol := by
  obtain ⟨t, us, ht, hu⟩ := (solid_of_ends h).dropWhile
  have hu := hu []
  rw [List.append_nil] at hu
  refine ⟨ts.takeWhile (· = .eol), t, us ++ [], ?_, not_solid_takeWhile ts, ht⟩
  rw [← hu, List.takeWhile_append_dropWhile]

theorem Solid.seen (h : Solid us) : ∃ t vs, ∀ rest, b.seen (us ++ rest) = t :: (vs ++ rest) := by
  obtain ⟨mode, outer⟩ := b
  cases mode with
  | significant =>
    obtain ⟨t, hm, -⟩ := h
    obtain ⟨t, vs, rfl⟩ := List.exists_cons_of_ne_nil (List.ne_nil_of_mem hm)
    exact ⟨t, vs, fun rest => rfl⟩
  | ignored =>
    obtain ⟨t, vs, -, h⟩ := h.dropWhile
    exact ⟨t, vs, h⟩

/-! ## Looking alike -/

namespace LooksLike

theorem refl (h : ts.getLast? = some .eof) : LooksLike ts ts :=
  ⟨ts, [], [], solid_of_ends h, by simp, by simp⟩

theorem of_solid (h : Solid us) : LooksLike (us ++ rest) (us ++ rest') :=
  ⟨us, rest, rest', h, rfl, rfl⟩

theorem append (us : List Token) (h : LooksLike rest rest') :
    LooksLike (us ++ rest) (us ++ rest') := by
  obtain ⟨same, ts', us', hs, rfl, rfl⟩ := h
  exact ⟨us ++ same, ts', us', hs.behind, by simp, by simp⟩

theorem heads (h : LooksLike rest rest') (hh : Heads now (b.seen rest)) :
    Heads now (b.seen rest') := by
  obtain ⟨same, ts', us', hs, rfl, rfl⟩ := h
  obtain ⟨t, vs, hv⟩ := hs.seen
  obtain ⟨u, ws, hu, hn⟩ := hh
  rw [hv] at hu
  obtain rfl := (List.cons_eq_cons.mp hu).1
  exact ⟨t, _, hv _, hn⟩

theorem next (h : LooksLike rest rest') (hn : Next now rest) : Next now rest' := by
  obtain ⟨same, ts', us', hs, rfl, rfl⟩ := h
  obtain ⟨t, vs, -, hv⟩ := hs.dropWhile
  obtain ⟨u, ws, hu, hn⟩ := hn
  rw [hv] at hu
  obtain rfl := (List.cons_eq_cons.mp hu).1
  exact ⟨t, _, hv _, hn⟩

end LooksLike

theorem Heads.imp (h : Heads now ts) (hn : ∀ t, now t → now' t) : Heads now' ts := by
  obtain ⟨t, us, rfl, ht⟩ := h
  exact ⟨t, us, rfl, hn t ht⟩

/-! ## What is seen -/

namespace Brackets

theorem seen_ignored (hb : b.mode = .ignored) (h : ¬ Solid us) :
    b.seen (us ++ ts) = b.seen ts := by
  unfold seen
  rw [hb]
  exact dropWhile_of_not_solid h

theorem seen_append_seen (b : Brackets) (h : ¬ Solid us) (ts : List Token) :
    b.seen (us ++ b.seen ts) = b.seen (us ++ ts) := by
  obtain ⟨mode, outer⟩ := b
  cases mode with
  | significant => rfl
  | ignored =>
    show (us ++ ts.dropWhile _).dropWhile _ = (us ++ ts).dropWhile _
    rw [dropWhile_of_not_solid h, dropWhile_of_not_solid h]
    exact List.dropWhile_idempotent _ _

theorem seen_append_cons (b : Brackets) (h : ¬ Solid us) (ht : t ≠ .eol) :
    Heads (fun u => u = t ∨ u = .eol) (b.seen (us ++ t :: rest)) := by
  obtain ⟨mode, outer⟩ := b
  cases mode with
  | significant =>
    cases us with
    | nil => exact ⟨t, rest, rfl, .inl rfl⟩
    | cons u us => exact ⟨u, us ++ t :: rest, rfl, .inr (eq_eol_of_not_solid h u (by simp))⟩
  | ignored =>
    refine ⟨t, rest, ?_, .inl rfl⟩
    show (us ++ t :: rest).dropWhile _ = _
    rw [dropWhile_of_not_solid h]
    exact List.dropWhile_cons_of_neg (by simpa using ht)

theorem next_seen (b : Brackets) (ts : List Token) : Next now (b.seen ts) ↔ Next now ts := by
  obtain ⟨mode, outer⟩ := b
  cases mode with
  | significant => rfl
  | ignored =>
    unfold Next
    rw [show (Brackets.seen ⟨.ignored, outer⟩ ts) = ts.dropWhile (· = .eol) from rfl,
      List.dropWhile_idempotent]

/-- Line breaks in front that do not count. -/
theorem exists_seen (b : Brackets) (ts : List Token) : ∃ es, ts = es ++ b.seen ts ∧
    .eof ∉ es ∧ ∀ us, b.seen (es ++ us) = b.seen us := by
  obtain ⟨mode, outer⟩ := b
  cases mode with
  | significant => exact ⟨[], rfl, List.not_mem_nil, fun us => rfl⟩
  | ignored =>
    let es := ts.takeWhile (· = .eol)
    have all : ∀ t ∈ es, t = .eol := fun t hm => by simpa using List.mem_takeWhile_imp hm
    refine ⟨es, (List.takeWhile_append_dropWhile ..).symm, ?_, fun us => ?_⟩
    · intro hm
      cases all _ hm
    · exact dropWhile_of_not_solid fun ⟨t, hm, ht⟩ => ht (all t hm)

theorem seen_cons (ht : t = .eol → b.mode = .significant) : b.seen (t :: ts) = t :: ts :=
  Cursor.Ahead.visible_cons ht

theorem seen_of_ne (ht : t ≠ .eol) : b.seen (t :: ts) = t :: ts :=
  seen_cons fun h => absurd h ht

theorem seen_significant (hb : b.mode = .significant) : b.seen ts = ts := by
  unfold seen
  rw [hb]
  rfl

/-- The token that is seen first counts. -/
theorem counts_of_seen (h : b.seen ts = t :: us) : t = .eol → b.mode = .significant := by
  rintro rfl
  obtain ⟨mode, outer⟩ := b
  cases mode with
  | significant => rfl
  | ignored =>
    have counts := List.head?_dropWhile_not (fun t => decide (t = Token.eol)) ts
    have h : ts.dropWhile (fun t => decide (t = Token.eol)) = .eol :: us := h
    rw [h] at counts
    simp at counts

theorem counts_of_ignored (hb : b.mode = .ignored) (h : b.seen ts = t :: us) : t ≠ .eol := by
  intro ht
  have counts := counts_of_seen h ht
  rw [hb] at counts
  cases counts

/-- Some token is seen, the end of the program if no other. -/
theorem exists_cons (b : Brackets) (hts : ts.getLast? = some .eof) :
    ∃ t us, b.seen ts = t :: us := by
  obtain ⟨t, us, hu⟩ := (solid_of_ends hts).seen (b := b)
  have seen := hu []
  rw [List.append_nil] at seen
  exact ⟨t, _, seen⟩

theorem seen_ends (b : Brackets) (hts : ts.getLast? = some .eof) :
    (b.seen ts).getLast? = some .eof := by
  obtain ⟨es, split, noEnd, -⟩ := b.exists_seen ts
  rw [split] at hts
  exact ends_behind hts noEnd

theorem length_seen_le (b : Brackets) (ts : List Token) : (b.seen ts).length ≤ ts.length := by
  obtain ⟨es, split, -⟩ := b.exists_seen ts
  have := congrArg List.length split
  rw [List.length_append] at this
  omega

theorem seen_dropWhile (h : Heads (· ≠ .eol) (b.seen ts)) :
    b.seen (ts.dropWhile (· = .eol)) = b.seen ts := by
  obtain ⟨mode, outer⟩ := b
  cases mode with
  | significant =>
    obtain ⟨t, us, rfl, ht⟩ : Heads (· ≠ .eol) ts := h
    rw [List.dropWhile_cons_of_neg (by simpa using ht)]
  | ignored => exact List.dropWhile_idempotent _ _

/-- Whether anything was passed in front of a token does not depend on what is behind it. -/
theorem unmoved_iff (b : Brackets) (us : List Token) (t : Token) (rest : List Token) :
    b.seen (us ++ t :: rest) = t :: rest ↔ b.seen (us ++ [t]) = [t] := by
  by_cases hs : Solid (us ++ [t])
  · obtain ⟨u, vs, hv⟩ := hs.seen (b := b)
    have whole := hv rest
    have alone := hv []
    rw [List.append_assoc] at whole
    rw [List.append_nil] at alone
    rw [show us ++ t :: rest = us ++ ([t] ++ rest) from rfl, whole, alone]
    simp
  · have all := eq_eol_of_not_solid hs
    obtain rfl : t = .eol := all t (by simp)
    obtain ⟨mode, outer⟩ := b
    cases mode with
    | significant =>
      show us ++ Token.eol :: rest = .eol :: rest ↔ us ++ [Token.eol] = [.eol]
      simp
    | ignored =>
      have whole : (us ++ Token.eol :: rest).dropWhile (· = .eol) =
          rest.dropWhile (· = .eol) := by
        rw [show us ++ Token.eol :: rest = (us ++ [.eol]) ++ rest by simp]
        exact dropWhile_of_not_solid hs
      have alone : (us ++ [Token.eol]).dropWhile (· = .eol) = [] :=
        List.dropWhile_eq_nil_iff.mpr (by simpa using all)
      show (us ++ Token.eol :: rest).dropWhile _ = _ ↔ (us ++ [Token.eol]).dropWhile _ = _
      rw [whole, alone]
      constructor
      · intro h
        have shorter := (List.dropWhile_suffix (· = Token.eol) (l := rest)).length_le
        rw [h, List.length_cons] at shorter
        omega
      · nofun

end Brackets

end

/-! ## Cursors -/

namespace Cursor

/-- Cursors over the same lexemes see the same at the same place only. -/
theorem index_eq_iff {c d : Cursor} (h : d.lexemes = c.lexemes) (hd : d.rest ≠ [])
    (hc : c.rest ≠ []) : d.index = c.index ↔ d.rest = c.rest := by
  constructor
  · intro hi
    unfold rest
    rw [h, hi]
  · intro hr
    have place := congrArg List.length hr
    have first := lt_of_rest hd
    have second := lt_of_rest hc
    simp only [rest, List.length_drop, List.length_map, Array.length_toList, h] at place first
    omega

/-- The cursor moves over the given lexemes, stands in the given brackets, and sees the given tokens
up to the end of the program. -/
structure On (lexemes : Array Lexeme) (b : Brackets) (ts : List Token) (c : Cursor) : Prop where
  lexemes : c.lexemes = lexemes
  ahead : c.Ahead b.mode b.outer ts

/-- Whatever is to be seen, there is a cursor that sees it. -/
theorem exists_on (b : Brackets) {ts : List Token} (h : ts.getLast? = some .eof)
    (hs : b.seen ts = ts) : ∃ lexemes c, On lexemes b ts c := by
  let lexemes : Array Lexeme := (ts.map fun t => (⟨t, default⟩ : Lexeme)).toArray
  have nonempty : 0 < lexemes.size := by simpa [lexemes] using length_pos_of_ends h
  let c : Cursor := ⟨lexemes, nonempty, 0, b.mode, b.outer⟩
  have rest : c.rest = ts := by simp [Cursor.rest, c, lexemes, Function.comp_def]
  exact ⟨lexemes, c, rfl, rest.trans hs.symm, h, rfl, rfl⟩

namespace On

variable {lexemes : Array Lexeme} {b : Brackets} {ts us : List Token} {t : Token} {c d : Cursor}

theorem rest (h : c.On lexemes b ts) : c.rest = b.seen ts := h.ahead.rest

theorem ends (h : c.On lexemes b ts) : ts.getLast? = some .eof := h.ahead.ends

theorem length_pos (h : c.On lexemes b ts) : 0 < ts.length := length_pos_of_ends h.ends

theorem token (h : c.On lexemes b ts) (hs : b.seen ts = t :: us) : c.token = t :=
  (rest_cons (h.rest.trans hs)).1

/-- Only what is seen matters. -/
theorem of_seen (h : c.On lexemes b ts) (hs : b.seen ts = b.seen us)
    (hu : us.getLast? = some .eof) : c.On lexemes b us :=
  ⟨h.lexemes, h.rest.trans hs, hu, h.ahead.mode, h.ahead.outer⟩

/-- Line breaks that do not count do not matter. -/
theorem behind (h : c.On lexemes b (us ++ ts)) (hu : .eof ∉ us)
    (hs : b.seen (us ++ ts) = b.seen ts) : c.On lexemes b ts :=
  h.of_seen hs (ends_behind h.ends hu)

theorem rest_ne_nil (h : c.On lexemes b ts) : c.rest ≠ [] := by
  obtain ⟨t, us, hu⟩ := b.exists_cons h.ends
  rw [h.rest, hu]
  exact List.cons_ne_nil _ _

theorem index_lt (h : c.On lexemes b ts) : c.index < c.lexemes.size := lt_of_rest h.rest_ne_nil

theorem advance (h : c.On lexemes b (t :: ts)) (ht : t.isContent = true) :
    c.advance.On lexemes b ts :=
  ⟨c.advance_lexemes.trans h.lexemes, h.ahead.advance ht⟩

theorem index_le_advance (h : c.On lexemes b ts) : c.index ≤ c.advance.index := by
  have first := h.index_lt
  have moved := c.index_le_advance
  omega

theorem index_lt_advance (h : c.On lexemes b (t :: ts)) (ht : t.isContent = true) :
    c.index < c.advance.index := by
  have first := h.index_le_advance
  by_contra hlt
  have behind := h.advance ht
  have same := (index_eq_iff (behind.lexemes.trans h.lexemes.symm) behind.rest_ne_nil
    h.rest_ne_nil).mp (by omega)
  have counts : t = .eol → b.mode = .significant := by
    rintro rfl
    cases ht
  rw [behind.rest, h.rest, Brackets.seen_cons counts] at same
  have shorter := b.length_seen_le ts
  rw [same, List.length_cons] at shorter
  omega

theorem enter (h : c.On lexemes b (t :: ts)) (ht : t.isContent = true) (mode : LineBreaks) :
    (c.enter mode).On lexemes (b.push mode) ts :=
  ⟨(advance_lexemes _).trans h.lexemes, h.ahead.enter ht⟩

theorem leave {mode : LineBreaks} (h : c.On lexemes (b.push mode) (t :: ts))
    (ht : t.isContent = true) : c.leave.On lexemes b ts := by
  refine ⟨?_, h.ahead.leave ht⟩
  unfold Cursor.leave
  split <;> exact (advance_lexemes _).trans h.lexemes

theorem index_le_enter (h : c.On lexemes b ts) (mode : LineBreaks) :
    c.index ≤ (c.enter mode).index := by
  have first := h.index_lt
  have moved := Cursor.index_le_advance { c with mode, outer := c.mode :: c.outer }
  dsimp only at moved
  exact Nat.le_trans (by omega) moved

theorem index_le_leave (h : c.On lexemes b ts) : c.index ≤ c.leave.index := by
  have first := h.index_lt
  unfold Cursor.leave
  split
  · exact h.index_le_advance
  · rename_i mode outer _
    have moved := Cursor.index_le_advance { c with mode, outer }
    dsimp only at moved
    exact Nat.le_trans (by omega) moved

theorem skipBreaks (h : c.On lexemes b ts) (hu : ts.dropWhile (· = .eol) = us) :
    c.skipBreaks.On lexemes b us :=
  ⟨c.skipBreaks_lexemes.trans h.lexemes, h.ahead.skipBreaks hu⟩

/-- Line breaks can be looked past. -/
theorem lookahead (h : c.On lexemes b (us ++ t :: ts)) (hu : ¬ Solid us) (ht : t ≠ .eol) :
    c.skipBreaks.On lexemes b (t :: ts) := by
  refine h.skipBreaks ?_
  rw [dropWhile_of_not_solid hu]
  exact List.dropWhile_cons_of_neg (by simpa using ht)

theorem skipBreaks_token {now : Token → Prop} (h : c.On lexemes b ts) (hn : Next now ts) :
    now c.skipBreaks.token := by
  obtain ⟨es, u, us, rfl, he, hu⟩ := exists_next h.ends
  rw [(h.lookahead he hu).token (Brackets.seen_of_ne hu)]
  exact (next_append he hu).mp hn

end On

end Cursor

end TracedScript
