import Mathlib.Data.List.InsertIdx
import TracedScript.Proofs.Syntax.TwoLayouts

/-!
# Line breaks that do not matter

A line break that is inserted inside `()` or `[]`, or next to another line break, changes nothing
about how a program is read: `line_breaks_in_brackets_ignored`. What carries the proof is that at
every moment the treatment of line breaks fits the brackets that are open where the cursor stands,
`Brackets.Fit`: so no cursor of the second reading ever stops at the break that was inserted.
-/

namespace TracedScript

open TracedScript.Parser (Pairing)

/-! ## Open brackets -/

/-- The open brackets behind one more token; a closing bracket closes the innermost one. -/
def Token.brackets (outside : List Mark) : Token → List Mark
  | .mark m =>
    if m.isOpening then m :: outside else if m.isClosing then outside.tail else outside
  | _ => outside

/-- The brackets that are open behind the tokens, innermost first. -/
def openBrackets (ts : List Token) : List Mark := ts.foldl Token.brackets []

/-- The brackets are treated so: line breaks may count between braces, and do count outside. -/
inductive Brackets.Fit : List Mark → Brackets → Prop where
  | outside : Fit [] ⟨.significant, []⟩
  | inside {m : Mark} {ms : List Mark} {b : Brackets} {mode : LineBreaks} :
    (mode = .ignored ∨ m = .lbrace) → Fit ms b → Fit (m :: ms) (b.push mode)

section

variable {t : Token} {ms : List Mark} {b : Brackets} {mode : LineBreaks}

theorem Token.brackets_plain (h : t.isPlain = true) : t.brackets ms = ms := by
  unfold Token.brackets
  split
  · rename_i m
    obtain ⟨ho, hc⟩ : m.isOpening = false ∧ m.isClosing = false := by simpa [isPlain] using h
    simp [ho, hc]
  · rfl

theorem Brackets.Fit.enter (h : Fit ms b) (ht : t.opens mode = true) :
    Fit (t.brackets ms) (b.push mode) := by
  unfold Token.opens at ht
  split at ht
  · exact .inside (.inl rfl) h
  · exact .inside (.inl rfl) h
  · exact .inside (.inr rfl) h
  · cases ht

theorem Token.brackets_closing (h : t.closes = true) : t.brackets ms = ms.tail := by
  unfold closes at h
  split at h
  · rename_i m
    have ho : m.isOpening = false := by cases m <;> first | rfl | cases h
    simp [brackets, ho, h]
  · cases h

theorem Brackets.Fit.mode_eq (h : Fit ms b)
    (hm : ms.head? = some .lparen ∨ ms.head? = some .lbracket) : b.mode = .ignored := by
  cases h with
  | outside => simp at hm
  | @inside m _ _ mode hmode _ =>
    obtain hmode | rfl := hmode
    · exact hmode
    · simp at hm

/-- Nothing is left when there is no bracket. -/
theorem Brackets.Fit.tail_of_nil (h : Fit ms b) (ho : b.outer = []) : Fit ms.tail b := by
  cases h with
  | outside => exact .outside
  | inside => cases ho

theorem Brackets.Fit.tail_of_cons (h : Fit ms b) {outer : List LineBreaks}
    (ho : b.outer = mode :: outer) : Fit ms.tail ⟨mode, outer⟩ := by
  cases h with
  | outside => cases ho
  | @inside _ _ b _ _ hb =>
    obtain ⟨rfl, rfl⟩ := List.cons_eq_cons.mp ho
    exact hb

end

/-! ## Where the tokens have moved -/

/-- The place of the `i`-th token when another one is inserted in front of the `k`-th one. -/
def shifted (k i : Nat) : Nat := if i < k then i else i + 1

theorem shifted_inj {k i j : Nat} : shifted k i = shifted k j ↔ i = j := by
  unfold shifted
  split <;> split <;> omega

theorem getElem?_insertIdx_shifted {α : Type} (xs : List α) (x : α) (k i : Nat) :
    (xs.insertIdx k x)[shifted k i]? = xs[i]? := by
  unfold shifted
  split
  · rw [List.getElem?_insertIdx_of_lt (by assumption)]
  · rw [List.getElem?_insertIdx_of_gt (by omega)]
    rfl

theorem insertIdx_append {α : Type} (xs ys : List α) (x : α) :
    (xs ++ ys).insertIdx xs.length x = xs ++ x :: ys := by
  induction xs with
  | nil => rfl
  | cons y xs ih => rw [List.cons_append, List.length_cons, List.insertIdx_succ_cons, ih]; rfl

/-- Tokens, and the same with a line break in front of the one at `place`. Nothing is seen of the
break: it stands in parentheses or square brackets, or behind another line break. -/
structure HiddenBreak where
  lexemes : Array Lexeme
  lexemes' : Array Lexeme
  place : Nat
  ends : (lexemes.toList.map (·.token)).getLast? = some .eof
  bound : place ≤ lexemes.size
  tokens : lexemes'.toList.map (·.token) = (lexemes.toList.map (·.token)).insertIdx place .eol
  hidden : let before := (lexemes.toList.map (·.token)).take place
    (openBrackets before).head? = some .lparen ∨ (openBrackets before).head? = some .lbracket ∨
      before.getLast? = some .eol

theorem Cursor.getElem?_index (c : Cursor) (h : c.index < c.lexemes.size) :
    c.lexemes[c.index]? = some c.current := by
  have place : min c.index (c.lexemes.size - 1) = c.index := by omega
  simp only [current, place, Array.getElem?_eq_getElem h]

namespace HiddenBreak

variable {h : HiddenBreak} {c c' d d' : Cursor} {i : Nat} {t : Token}

/-- The brackets that are open in front of the `i`-th token. -/
def brackets (h : HiddenBreak) (i : Nat) : List Mark :=
  openBrackets ((h.lexemes.toList.map (·.token)).take i)

theorem brackets_succ (ht : h.lexemes[i]?.map (·.token) = some t) :
    h.brackets (i + 1) = t.brackets (h.brackets i) := by
  have here : (h.lexemes.toList.map (·.token))[i]? = some t := by simpa using ht
  obtain ⟨hi, found⟩ := List.getElem?_eq_some_iff.mp here
  unfold brackets openBrackets
  rw [List.take_succ_eq_append_getElem hi, List.foldl_append, found]
  rfl

/-- The cursors stand at places for which `near` holds, in the same brackets. -/
structure Beside (h : HiddenBreak) (near : Nat → Nat → Prop) (c c' : Cursor) : Prop where
  lexemes : c.lexemes = h.lexemes
  lexemes' : c'.lexemes = h.lexemes'
  inside : c.index < h.lexemes.size
  near : near c.index c'.index
  mode : c'.mode = c.mode
  outer : c'.outer = c.outer
  fit : Brackets.Fit (h.brackets c.index) ⟨c.mode, c.outer⟩

/-- Both stand on the same token. -/
abbrev Same (h : HiddenBreak) : Cursor → Cursor → Prop :=
  h.Beside fun i i' => i' = shifted h.place i

/-- The second one may instead stand on the break that was inserted in front of the token. -/
abbrev Near (h : HiddenBreak) : Cursor → Cursor → Prop :=
  h.Beside fun i i' => i' = shifted h.place i ∨ i = h.place ∧ i' = i

theorem size (h : HiddenBreak) : h.lexemes'.size = h.lexemes.size + 1 := by
  have := congrArg List.length h.tokens
  rw [List.length_insertIdx_of_le_length (by simpa using h.bound)] at this
  simpa using this

namespace Beside

variable {near : Nat → Nat → Prop}

theorem current (hc : h.Beside near c c') : h.lexemes[c.index]? = some c.current := by
  rw [← hc.lexemes]
  exact c.getElem?_index (hc.lexemes ▸ hc.inside)

theorem current' (hc : h.Same c c') : h.lexemes'[shifted h.place c.index]? = some c'.current := by
  have inside : c'.index < h.lexemes'.size := by
    have := hc.inside
    rw [hc.near, h.size, shifted]
    split <;> omega
  rw [← hc.near, ← hc.lexemes']
  exact c'.getElem?_index (hc.lexemes' ▸ inside)

theorem token (hc : h.Same c c') : c.token = c'.token := by
  have same :=
    getElem?_insertIdx_shifted (h.lexemes.toList.map (·.token)) .eol h.place c.index
  rw [← h.tokens] at same
  simp only [List.getElem?_map, Array.getElem?_toList, hc.current, hc.current'] at same
  exact (Option.some.inj same).symm

/-- Only the end of the program is the last token. -/
theorem next_inside (hc : h.Beside near c c') (ht : c.token ≠ .eof) :
    c.index + 1 < h.lexemes.size := by
  have inside := hc.inside
  by_contra last
  have place : c.index = (h.lexemes.toList.map (·.token)).length - 1 := by
    simp
    omega
  have ends := h.ends
  rw [List.getLast?_eq_getElem?, ← place] at ends
  simp only [List.getElem?_map, Array.getElem?_toList, hc.current] at ends
  exact ht (Option.some.inj ends)

/-- The next places, whatever the treatment of line breaks is there. -/
theorem next (hc : h.Same c c') (ht : c.token ≠ .eof) {b : Brackets}
    (hb : b.Fit (c.token.brackets (h.brackets c.index))) :
    h.Near { c with index := c.index + 1, mode := b.mode, outer := b.outer }
      { c' with index := c'.index + 1, mode := b.mode, outer := b.outer } := by
  refine ⟨hc.lexemes, hc.lexemes', hc.next_inside ht, ?_, rfl, rfl, ?_⟩
  · show c'.index + 1 = shifted h.place (c.index + 1) ∨
      c.index + 1 = h.place ∧ c'.index + 1 = c.index + 1
    rw [hc.near, shifted, shifted]
    split <;> split <;> omega
  · have here : h.lexemes[c.index]?.map (·.token) = some c.token := by rw [hc.current]; rfl
    show Brackets.Fit (h.brackets (c.index + 1)) b
    rwa [brackets_succ here]

/-- A cursor on the inserted break goes on to the token behind it. -/
theorem exists_same (hc : h.Near c c') : ∃ d', h.Same c d' ∧ c'.skipBreaks = d'.skipBreaks := by
  obtain hs | ⟨hk, hi⟩ := hc.near
  · exact ⟨c', { hc with near := hs }, rfl⟩
  · have inside := hc.inside
    have here : c'.index < c'.lexemes.size := by
      rw [hc.lexemes', h.size]
      omega
    have inserted : c'.token = .eol := by
      have found := congrArg (fun ts => ts[h.place]?) h.tokens
      rw [List.getElem?_insertIdx_self, if_pos (by simpa using h.bound)] at found
      simp only [List.getElem?_map, Array.getElem?_toList, ← hk, ← hi, ← hc.lexemes',
        c'.getElem?_index here] at found
      exact Option.some.inj found
    have more : c'.index + 1 < c'.lexemes.size := by
      rw [hc.lexemes', h.size]
      omega
    refine ⟨{ c' with index := c'.index + 1 }, { hc with near := ?_ }, ?_⟩
    · show c'.index + 1 = shifted h.place c.index
      rw [shifted, if_neg (by omega), hi]
    · rw [Cursor.skipBreaks.eq_def c', dif_pos ⟨inserted, more⟩]

theorem skipBreaks (hc : h.Near c c') : h.Same c.skipBreaks c'.skipBreaks := by
  fun_induction Cursor.skipBreaks c generalizing c' with
  | case1 c stop ih =>
    obtain ⟨d', hd, heq⟩ := hc.exists_same
    have stop' : d'.token = .eol ∧ d'.index + 1 < d'.lexemes.size := by
      refine ⟨hd.token ▸ stop.1, ?_⟩
      have := hd.next_inside (by simp [stop.1])
      rw [hd.near, hd.lexemes', h.size, shifted]
      split <;> omega
    rw [heq, Cursor.skipBreaks.eq_def d', dif_pos stop']
    have kept : Brackets.Fit (c.token.brackets (h.brackets c.index)) ⟨c.mode, c.outer⟩ := by
      rw [stop.1]
      exact hd.fit
    have moved := hd.next (by simp [stop.1]) kept
    have same : ({ d' with index := d'.index + 1, mode := c.mode, outer := c.outer } : Cursor) =
        { d' with index := d'.index + 1 } := by rw [← hd.mode, ← hd.outer]
    exact ih (same ▸ moved)
  | case2 c stays =>
    obtain ⟨d', hd, heq⟩ := hc.exists_same
    have counts : c.token ≠ .eol := by
      intro ht
      exact stays ⟨ht, hd.lexemes ▸ hd.next_inside (by simp [ht])⟩
    rw [heq, Cursor.skipBreaks_of_ne fun ht => counts (hd.token.trans ht)]
    exact hd

/-- Where line breaks count the inserted one is not in front of the next token. -/
theorem same_of_significant (hd : h.Near d d') (hm : d.mode = .significant)
    (ht : 0 < d.index → h.lexemes[d.index - 1]?.map (·.token) ≠ some .eol) : h.Same d d' := by
  obtain hs | ⟨hk, -⟩ := hd.near
  · exact { hd with near := hs }
  have fit := hd.fit
  rw [hm, hk] at fit
  have counts (hb : (h.brackets h.place).head? = some .lparen ∨
      (h.brackets h.place).head? = some .lbracket) : False := nomatch fit.mode_eq hb
  obtain hb | hb | hb := h.hidden
  · exact (counts (.inl hb)).elim
  · exact (counts (.inr hb)).elim
  · rw [List.getLast?_take, ← hk] at hb
    split at hb
    · cases hb
    · rename_i behind
      have inside := hd.inside
      have found : h.lexemes[d.index - 1]? = some h.lexemes[d.index - 1] :=
        Array.getElem?_eq_getElem (by omega)
      rw [List.getElem?_map, Array.getElem?_toList, found] at hb
      exact absurd (found ▸ hb) (ht (Nat.pos_of_ne_zero behind))

/-- Passing a token of the program while the brackets around the cursor change. -/
theorem pass (hc : h.Same c c') (ht : c.token.isContent = true) {b : Brackets}
    (hb : b.Fit (c.token.brackets (h.brackets c.index))) :
    h.Same (Cursor.advance { c with mode := b.mode, outer := b.outer })
      (Cursor.advance { c' with mode := b.mode, outer := b.outer }) := by
  have content : c.token ≠ .eof ∧ c.token ≠ .eol := by
    constructor <;> (intro he; rw [he] at ht; cases ht)
  have near := hc.next content.1 hb
  have inside : c.index + 1 < c.lexemes.size := hc.lexemes ▸ hc.next_inside content.1
  have inside' : c'.index + 1 < c'.lexemes.size := by
    rw [hc.near, hc.lexemes', h.size, shifted]
    rw [hc.lexemes] at inside
    split <;> omega
  unfold Cursor.advance Cursor.skipIgnored
  rw [if_pos inside, if_pos inside']
  dsimp only
  split
  · rename_i hm
    refine near.same_of_significant hm fun _ => ?_
    show h.lexemes[c.index]?.map (·.token) ≠ some .eol
    rw [hc.current]
    exact fun he => content.2 (Option.some.inj he)
  · exact near.skipBreaks

theorem advance (hc : h.Same c c') (ht : c.token.isPlain = true) :
    h.Same c.advance c'.advance := by
  have content : c.token.isContent = true := by
    cases hk : c.token <;> first | rfl | (rw [hk] at ht; cases ht)
  have moved := hc.pass content (b := ⟨c.mode, c.outer⟩) ?_
  · have same : ({ c' with mode := c.mode, outer := c.outer } : Cursor) = c' := by
      rw [← hc.mode, ← hc.outer]
    exact same ▸ moved
  · rw [Token.brackets_plain ht]
    exact hc.fit

theorem enter {mode : LineBreaks} (hc : h.Same c c') (ht : c.token.opens mode = true) :
    h.Same (c.enter mode) (c'.enter mode) := by
  have content : c.token.isContent = true := by
    cases hk : c.token <;> first | rfl | (rw [hk] at ht; cases ht)
  have moved := hc.pass content (hc.fit.enter ht)
  unfold Cursor.enter
  rw [hc.mode, hc.outer]
  exact moved

theorem leave (hc : h.Same c c') (ht : c.token.closes = true) : h.Same c.leave c'.leave := by
  have content : c.token.isContent = true := by
    cases hk : c.token <;> first | rfl | (rw [hk] at ht; cases ht)
  have closed : c.token.brackets (h.brackets c.index) = _ := Token.brackets_closing ht
  unfold Cursor.leave
  rw [hc.outer]
  cases ho : c.outer with
  | nil =>
    have moved := hc.pass content (b := ⟨c.mode, c.outer⟩) (closed ▸ hc.fit.tail_of_nil ho)
    have same : ({ c' with mode := c.mode, outer := c.outer } : Cursor) = c' := by
      rw [← hc.mode, ← hc.outer]
    exact same ▸ moved
  | cons mode outer => exact hc.pass content (closed ▸ hc.fit.tail_of_cons ho)

end Beside

/-- Both readings start at the first token, as no hidden break is in front of it. -/
theorem start_same {lexemes lexemes' : List Lexeme} (hl : h.lexemes = lexemes.toArray)
    (hl' : h.lexemes' = lexemes'.toArray) {hn : 0 < lexemes.toArray.size}
    {hn' : 0 < lexemes'.toArray.size} :
    h.Same (.start lexemes.toArray hn) (.start lexemes'.toArray hn') := by
  refine ⟨hl.symm, hl'.symm, by rw [hl]; exact hn, ?_, rfl, rfl, ?_⟩
  · show 0 = shifted h.place 0
    have behind : 0 < h.place := by
      apply Nat.pos_of_ne_zero
      intro first
      have hidden := h.hidden
      rw [first] at hidden
      simp [openBrackets] at hidden
    rw [shifted, if_pos behind]
  · exact .outside

/-- The spans of one token in both sequences. -/
def SameSpan (h : HiddenBreak) (s s' : Span) : Prop :=
  ∃ i l l', h.lexemes[i]? = some l ∧ h.lexemes'[shifted h.place i]? = some l' ∧
    s = l.span ∧ s' = l'.span

/-- Readings of the tokens without and with the break. -/
def pairing (h : HiddenBreak) : Pairing where
  cursor := h.Same
  span := h.SameSpan
  token := Beside.token
  current hc := ⟨_, _, _, hc.current, hc.current', rfl, rfl⟩
  index hc hd := by rw [hc.near, hd.near, shifted_inj]
  advance := Beside.advance
  skipBreaks hc := Beside.skipBreaks { hc with near := .inl hc.near }
  enter := Beside.enter
  leave := Beside.leave

end HiddenBreak

section

variable {lexemes lexemes' : List Lexeme} {us ws : List Token}

/-- The place that a hidden break behind `us` takes. Of two breaks in a row the first one is taken
for the one that was there before. -/
def breakPlace (us ws : List Token) : Nat :=
  if ws.head? = some .eol then us.length + 1 else us.length

theorem exists_hiddenBreak (hw : Terminated lexemes) (tokens : lexemes.map (·.token) = us ++ ws)
    (tokens' : lexemes'.map (·.token) = us ++ .eol :: ws)
    (hidden : (openBrackets us).head? = some .lparen ∨ (openBrackets us).head? = some .lbracket ∨
      us.getLast? = some .eol ∨ ws.head? = some .eol) :
    ∃ h : HiddenBreak, h.lexemes = lexemes.toArray ∧ h.lexemes' = lexemes'.toArray ∧
      h.place = breakPlace us ws := by
  have length : lexemes.length = us.length + ws.length := by simpa using congrArg List.length tokens
  by_cases behind : ws.head? = some .eol
  · -- the break is behind the one that follows
    obtain ⟨ws, rfl⟩ : ∃ later, ws = .eol :: later := by
      cases ws with
      | nil => cases behind
      | cons t ws => exact ⟨ws, by rw [Option.some.inj behind]⟩
    have split : us ++ .eol :: ws = (us ++ [.eol]) ++ ws := by simp
    have split' : us ++ .eol :: .eol :: ws = (us ++ [.eol]) ++ .eol :: ws := by simp
    have place : us.length + 1 = (us ++ [Token.eol]).length := by simp
    rw [split] at tokens
    rw [split'] at tokens'
    refine ⟨⟨lexemes.toArray, lexemes'.toArray, us.length + 1, hw.ends, ?_, ?_, .inr (.inr ?_)⟩, rfl,
      rfl, (if_pos behind).symm⟩
    · simp [length]
    · rw [tokens, tokens', place, insertIdx_append]
    · rw [tokens, place, List.take_left]
      simp
  · refine ⟨⟨lexemes.toArray, lexemes'.toArray, us.length, hw.ends, ?_, ?_, ?_⟩, rfl, rfl,
      (if_neg behind).symm⟩
    · simp [length]
    · rw [tokens, tokens', insertIdx_append]
    · rw [tokens, List.take_left]
      obtain hb | hb | hb | hb := hidden
      · exact .inl hb
      · exact .inr (.inl hb)
      · exact .inr (.inr hb)
      · exact absurd hb behind

/-- A line break between the tokens `us` and `ws`, inside parentheses or square brackets or next to
another break, changes nothing: both sequences are read as the same program up to spans, or are
rejected for the same reason at the same token, wherever their tokens stand. -/
theorem line_breaks_in_brackets_ignored (hw : Terminated lexemes)
    (tokens : lexemes.map (·.token) = us ++ ws)
    (tokens' : lexemes'.map (·.token) = us ++ .eol :: ws)
    (hidden : (openBrackets us).head? = some .lparen ∨ (openBrackets us).head? = some .lbracket ∨
      us.getLast? = some .eol ∨ ws.head? = some .eol) :
    (∃ program program', parse lexemes = .ok program ∧ parse lexemes' = .ok program' ∧
      List.Forall₂ Node.SameTree program program') ∨
    ∃ e e' i l l', parse lexemes = .error e ∧ parse lexemes' = .error e' ∧ e.kind = e'.kind ∧
      e.message = e'.message ∧ lexemes[i]? = some l ∧
      lexemes'[shifted (breakPlace us ws) i]? = some l' ∧ l.token = l'.token ∧ e.span = l.span ∧
      e'.span = l'.span := by
  obtain ⟨h, hl, hl', place⟩ := exists_hiddenBreak hw tokens tokens' hidden
  have longer : lexemes.length ≤ lexemes'.length := by
    have length := congrArg List.length tokens
    have length' := congrArg List.length tokens'
    simp only [List.length_map, List.length_append, List.length_cons] at length length'
    omega
  have read := h.pairing.parse_answers hw longer fun _ _ => HiddenBreak.start_same hl hl'
  generalize parse lexemes = r at read ⊢
  generalize parse lexemes' = r' at read ⊢
  cases read with
  | @ok program program' same => exact .inl ⟨program, program', rfl, rfl, same⟩
  | @error e e' he =>
    obtain ⟨i, l, l', hi, hi', hs, hs'⟩ := he.span
    have same := getElem?_insertIdx_shifted (h.lexemes.toList.map (·.token)) .eol h.place i
    rw [← h.tokens] at same
    simp only [List.getElem?_map, Array.getElem?_toList, hi, hi'] at same
    rw [hl] at hi
    rw [hl', place] at hi'
    exact .inr ⟨e, e', i, l, l', rfl, rfl, he.kind, he.message, by simpa using hi,
      by simpa using hi', (Option.some.inj same).symm, hs, hs'⟩

/-- Where a comma is missing the error is the same if the line breaks there. -/
theorem break_for_missing_comma :
    let us : List Token := [.identifier "f", .mark .lparen, .int 1]
    let ws : List Token := [.int 2, .mark .rparen, .eol, .eof]
    ∃ lexemes lexemes' e e' i l l', scan ⟨"main", "f(1 2)"⟩ = .ok lexemes ∧
      scan ⟨"main", "f(1\n2)"⟩ = .ok lexemes' ∧ Terminated lexemes ∧
      lexemes.map (·.token) = us ++ ws ∧ lexemes'.map (·.token) = us ++ .eol :: ws ∧
      (openBrackets us).head? = some .lparen ∧ parse lexemes = .error e ∧
      parse lexemes' = .error e' ∧ e.kind = e'.kind ∧ e.message = e'.message ∧
      lexemes[i]? = some l ∧ lexemes'[shifted (breakPlace us ws) i]? = some l' ∧
      l.token = l'.token ∧ e.span = l.span ∧ e'.span = l'.span := by
  intro us ws
  have cut {text : String} {ts : List Token}
      (h : (scan ⟨"main", text⟩).toOption.map (List.map (·.token)) = some ts) :
      ∃ lexemes, scan ⟨"main", text⟩ = .ok lexemes ∧ lexemes.map (·.token) = ts := by
    cases hs : scan ⟨"main", text⟩ with
    | error e => rw [hs] at h; cases h
    | ok lexemes => rw [hs] at h; exact ⟨lexemes, rfl, Option.some.inj h⟩
  obtain ⟨lexemes, hs, tokens⟩ := @cut "f(1 2)" (us ++ ws) (by decide +kernel)
  obtain ⟨lexemes', hs', tokens'⟩ := @cut "f(1\n2)" (us ++ .eol :: ws) (by decide +kernel)
  have whole : Terminated lexemes := terminated_of_scan hs
  have rejected : ((scan ⟨"main", "f(1 2)"⟩).toOption.map fun ls => (parse ls).isOk) =
      some false := by decide +kernel
  obtain ⟨program, program', hp, -⟩ | ⟨e, e', i, l, l', same⟩ :=
    line_breaks_in_brackets_ignored whole tokens tokens' (.inl rfl)
  · rw [hs] at rejected
    simp [Except.toOption, hp, Except.isOk, Except.toBool] at rejected
  · exact ⟨lexemes, lexemes', e, e', i, l, l', hs, hs', whole, tokens, tokens', rfl, same⟩

end

end TracedScript
