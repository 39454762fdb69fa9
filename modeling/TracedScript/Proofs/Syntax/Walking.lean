import TracedScript.Proofs.Syntax.Clear

/-!
# Parsers keep the cursor clear

`Walks lexemes now b b' i j p p'`: from every clear cursor at place `i` or behind it, in brackets
`b` and over a token of which `now` holds, both parsers do the same, and do not use up their
allowance. If they give a result, the cursor is clear again, in brackets `b'` and at place `j` or
behind it; if they stop, it is clear too. There is one rule for each way to move a cursor and for
each way to put parsers together. The second parser may have another allowance than the first, or be
`watched`: it gives up at a line break that does not count.
-/

namespace TracedScript.Parser

/-- Gives up where a line break that does not count is seen. -/
def watched {α : Type} (p : Parser α) : Parser α := fun c =>
  if c.mode = .ignored ∧ c.token = .eol then (.error .exhausted, c) else p c

/-- The outcome leaves the cursor at a clear place; with a result, in the given brackets at the
given place or behind it. -/
def Lands {α : Type} (lexemes : Array Lexeme) (b : Brackets) (j : Nat) :
    Except Stop α × Cursor → Prop
  | (.ok _, d) => d.Stands lexemes b j
  | (.error (.rejected _), d) => d.lexemes = lexemes ∧ d.Clear
  | (.error .exhausted, _) => False

def Walks {α : Type} (lexemes : Array Lexeme) (now : Token → Prop) (b b' : Brackets) (i j : Nat)
    (p p' : Parser α) : Prop :=
  ∀ c : Cursor, c.Stands lexemes b i → now c.token → p' c = p c ∧ Lands lexemes b' j (p c)

/-- No condition on the current token. -/
abbrev AnyToken : Token → Prop := fun _ => True

namespace Walks

variable {α β σ : Type} {lexemes : Array Lexeme} {now now' : Token → Prop} {b b' b'' : Brackets}
  {i j k : Nat} {p p' : Parser α} {f f' : α → Parser β}

theorem imp (h : Walks lexemes now b b' i j p p') (hn : ∀ t, now' t → now t) :
    Walks lexemes now' b b' i j p p' :=
  fun c hc ht => h c hc (hn _ ht)

theorem any (h : Walks lexemes AnyToken b b' i j p p') : Walks lexemes now b b' i j p p' :=
  h.imp fun _ _ => trivial

theorem nearer {k : Nat} (h : Walks lexemes now b b' i j p p') (hk : k ≤ j) :
    Walks lexemes now b b' i k p p' := by
  intro c hc ht
  obtain ⟨same, lands⟩ := h c hc ht
  refine ⟨same, ?_⟩
  match p c, lands with
  | (.ok _, d), lands => exact lands.widen hk
  | (.error (.rejected _), d), lands => exact lands

/-- No cursor stands behind the lexemes. -/
theorem behind (h : lexemes.size ≤ i) : Walks lexemes now b b' i j p p' :=
  fun _ hc _ => absurd hc.lt (Nat.not_lt.mpr h)

/-! ## Putting parsers together -/

theorem pure {a : α} (h : j ≤ i) : Walks lexemes now b b i j (Pure.pure a) (Pure.pure a) :=
  fun _ hc _ => ⟨rfl, hc.widen h⟩

theorem bind (hp : Walks lexemes now b b' i j p p')
    (hf : ∀ a, Walks lexemes AnyToken b' b'' j k (f a) (f' a)) :
    Walks lexemes now b b'' i k (p >>= f) (p' >>= f') := by
  intro c hc ht
  obtain ⟨same, lands⟩ := hp c hc ht
  rw [bind_apply, bind_apply, same]
  match p c, lands with
  | (.ok a, d), lands => exact hf a d lands trivial
  | (.error (.rejected _), d), lands => exact ⟨rfl, lands⟩

theorem unexpected {what : String} :
    Walks lexemes now b b' i j (unexpected what : Parser α) (Parser.unexpected what) :=
  fun _ hc _ => ⟨rfl, hc.lexemes, hc.clear⟩

theorem rejected {e : SourceError} :
    Walks lexemes now b b' i j (throw (.rejected e) : Parser α) (throw (.rejected e)) :=
  fun _ hc _ => ⟨rfl, hc.lexemes, hc.clear⟩

theorem orExpected (what : String) (hp : Walks lexemes now b b' i j p p') :
    Walks lexemes now b b' i j (orExpected what p) (Parser.orExpected what p') := by
  intro c hc ht
  obtain ⟨same, lands⟩ := hp c hc ht
  rw [orExpected_apply, orExpected_apply, same]
  match p c, lands with
  | (.ok a, d), lands => exact ⟨rfl, lands⟩
  | (.error (.rejected _), d), lands => exact ⟨rfl, lands⟩

/-- Nothing is to be seen that a watched parser gives up at. -/
theorem watched (hp : Walks lexemes now b b' i j p p') :
    Walks lexemes now b b' i j p (Parser.watched p') := by
  intro c hc ht
  unfold Parser.watched
  rw [if_neg fun h => hc.clear.counts h.1 h.2]
  exact hp c hc ht

/-! ## Looking at a token -/

theorem peek {f f' : Token → Parser β}
    (h : ∀ t, now t → Walks lexemes (· = t) b b' i j (f t) (f' t)) :
    Walks lexemes now b b' i j (Parser.peek >>= f) (Parser.peek >>= f') :=
  fun c hc ht => h c.token ht c hc rfl

theorem is {t : Token} {f f' : Bool → Parser β}
    (yes : Walks lexemes (· = t) b b' i j (f true) (f' true))
    (no : Walks lexemes now b b' i j (f false) (f' false)) :
    Walks lexemes now b b' i j (Parser.is t >>= f) (Parser.is t >>= f') := by
  intro c hc hn
  rw [is_bind_apply, is_bind_apply]
  by_cases ht : c.token = t
  · rw [decide_eq_true ht]
    exact yes c hc ht
  · rw [decide_eq_false ht]
    exact no c hc hn

theorem test {t : Token} {q q' : Parser α} (yes : Walks lexemes (· = t) b b' i j p p')
    (no : Walks lexemes now b b' i j q q') :
    Walks lexemes now b b' i j (do if ← Parser.is t then p else q)
      (do if ← Parser.is t then p' else q') := is yes no

/-- Where it does not matter which token is there. -/
theorem look {t : Token} {f f' : Bool → Parser β}
    (h : ∀ r, Walks lexemes now b b' i j (f r) (f' r)) :
    Walks lexemes now b b' i j (Parser.is t >>= f) (Parser.is t >>= f') :=
  fun c hc hn => h _ c hc hn

theorem cursor {f f' : Cursor → Parser β}
    (h : ∀ c : Cursor, c.Stands lexemes b i → Walks lexemes now b b' i j (f c) (f' c)) :
    Walks lexemes now b b' i j (Parser.cursor >>= f) (Parser.cursor >>= f') :=
  fun c hc hn => h c hc c hc hn

/-! ## Moving the cursor -/

section

variable (ends : EndsProgram lexemes)
include ends

theorem advance (hn : ∀ t, now t → t ≠ .eof) :
    Walks lexemes now b b i (i + 1) Parser.advance Parser.advance :=
  fun _ hc ht => ⟨rfl, hc.advance_lt ends (hn _ ht)⟩

/-- The end of the program is not left. -/
theorem advanceOrStay : Walks lexemes now b b i i Parser.advance Parser.advance :=
  fun _ hc _ => ⟨rfl, hc.advance ends⟩

theorem skipBreaks : Walks lexemes now b b i i Parser.skipBreaks Parser.skipBreaks :=
  fun _ hc _ => ⟨rfl, hc.skipBreaks ends⟩

omit ends in
/-- Back to where a cursor in the same brackets has stood. -/
theorem rewind {d : Cursor} (hd : d.Stands lexemes b j) :
    Walks lexemes now b b i j (modify fun c => c.rewind d.index : Parser PUnit)
      (modify fun c => c.rewind d.index) := by
  intro c hc _
  have back : c.rewind d.index = d := by
    have mode : c.mode = d.mode := congrArg Brackets.mode (hc.brackets.trans hd.brackets.symm)
    have outer : c.outer = d.outer := congrArg Brackets.outer (hc.brackets.trans hd.brackets.symm)
    have same : c.lexemes = d.lexemes := hc.lexemes.trans hd.lexemes.symm
    cases c
    cases d
    simp_all [Cursor.rewind]
  refine ⟨rfl, ?_⟩
  show (c.rewind d.index).Stands lexemes b j
  rwa [back]

theorem expect {t : Token} {what : String} (ht : t ≠ .eof) :
    Walks lexemes now b b i (i + 1) (Parser.expect t what) (Parser.expect t what) :=
  test (advance ends fun _ h => h ▸ ht) unexpected

theorem expectKeyword {k : Keyword} :
    Walks lexemes now b b i (i + 1) (Parser.expectKeyword k) (Parser.expectKeyword k) :=
  expect ends nofun

theorem expectIdentifier :
    Walks lexemes now b b i (i + 1) Parser.expectIdentifier Parser.expectIdentifier := by
  intro c hc _
  refine ⟨rfl, ?_⟩
  rw [expectIdentifier_apply]
  split
  · rename_i name ht
    exact hc.advance_lt ends (by rw [ht]; nofun)
  · exact ⟨hc.lexemes, hc.clear⟩

theorem enter {t : Token} {mode : LineBreaks} (ht : t ≠ .eof) :
    Walks lexemes now b (b.push mode) i (i + 1) (Parser.enter t mode) (Parser.enter t mode) := by
  intro c hc _
  obtain rfl := hc.brackets
  refine ⟨rfl, ?_⟩
  rw [enter_apply]
  split
  · rename_i h
    exact hc.pass_lt ends (h ▸ ht) (c.brackets.push mode)
  · exact ⟨hc.lexemes, hc.clear⟩

theorem leave {t : Token} {what : String} {mode : LineBreaks} :
    Walks lexemes now (b.push mode) b i i (Parser.leave t what) (Parser.leave t what) := by
  intro c hc _
  refine ⟨rfl, ?_⟩
  rw [leave_apply]
  split
  · have outer : c.outer = b.mode :: b.outer := congrArg Brackets.outer hc.brackets
    have moved := hc.pass ends b
    show c.leave.Stands lexemes b i
    unfold Cursor.leave
    rw [outer]
    exact moved
  · exact ⟨hc.lexemes, hc.clear⟩

omit ends in
theorem set {d : Cursor} (hd : d.Stands lexemes b' j) :
    Walks lexemes now b b' i j (set d : Parser PUnit) (set d) :=
  fun _ _ _ => ⟨rfl, hd⟩

end

end Walks

/-- From everywhere at place `i` or behind it both parsers do the same; their result is in the same
brackets and further on. -/
def Onward {α : Type} (lexemes : Array Lexeme) (b : Brackets) (i : Nat) (p p' : Parser α) : Prop :=
  ∀ j, i ≤ j → Walks lexemes AnyToken b b j (j + 1) p p'

theorem Onward.bind {α β : Type} {lexemes : Array Lexeme} {now : Token → Prop} {b b' : Brackets}
    {i j k : Nat} {p p' : Parser α} {f f' : α → Parser β} (hp : Onward lexemes b i p p')
    (hij : i ≤ j) (hf : ∀ a, Walks lexemes AnyToken b b' (j + 1) k (f a) (f' a)) :
    Walks lexemes now b b' j k (p >>= f) (p' >>= f') :=
  (hp j hij).any.bind hf

/-! ## Lists -/

section

variable {σ : Type} {lexemes : Array Lexeme} {b : Brackets} {i j : Nat}

/-- Each item moves the cursor on, so an allowance that exceeds the lexemes ahead is enough. -/
theorem Walks.commaSeparated (ends : EndsProgram lexemes) {item item' : σ → Parser σ}
    {closing : Mark} (step : ∀ acc, Onward lexemes b i (item acc) (item' acc)) {n n' : Nat}
    (hij : i ≤ j) (hn : lexemes.size < n + j) (hn' : lexemes.size < n' + j) (acc : σ) :
    Walks lexemes AnyToken b b j j (Parser.commaSeparated item closing n acc)
      (Parser.commaSeparated item' closing n' acc) := by
  induction n generalizing j n' acc with
  | zero => exact behind (by omega)
  | succ n ih =>
    cases n' with
    | zero => exact behind (by omega)
    | succ n' =>
      unfold Parser.commaSeparated
      refine test (pure (Nat.le_refl j)) ((step acc).bind hij fun acc => ?_)
      refine test ?_ (test (pure (by omega)) unexpected)
      refine (advance ends (by rintro _ rfl; nofun)).bind fun _ => ?_
      refine (ih (by omega) (by omega) (by omega) acc).bind fun _ => ?_
      exact pure (by omega)

/-- So does each line. -/
theorem Walks.lines (ends : EndsProgram lexemes) {line line' : Parser Node} {last : Token}
    {what : String} (hline : Onward lexemes b i line line') {n n' : Nat} (hij : i ≤ j)
    (hn : lexemes.size < n + j) (hn' : lexemes.size < n' + j) :
    Walks lexemes AnyToken b b j j (Parser.lines line last what n)
      (Parser.lines line' last what n') := by
  induction n generalizing j n' with
  | zero => exact behind (by omega)
  | succ n ih =>
    cases n' with
    | zero => exact behind (by omega)
    | succ n' =>
      unfold Parser.lines
      refine (skipBreaks ends).bind fun _ => test (pure (Nat.le_refl j)) ?_
      refine hline.bind hij fun _ => look fun ended => look fun finished => ?_
      split
      · exact (ih (by omega) (by omega) (by omega)).bind fun _ => pure (by omega)
      · exact unexpected

end

end TracedScript.Parser
