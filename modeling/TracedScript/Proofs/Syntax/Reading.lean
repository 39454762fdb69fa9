import TracedScript.Proofs.Syntax.Layout
import TracedScript.Syntax.Program

/-!
# What parsers read

`Reads t i p P`: if the parser `p` gives a result from byte `i` of the tape on, then `P j` holds of
it, where `j` is the byte that the cursor has come to. There is one rule for each way to move a
cursor and for each way to put parsers together. A parser that stops promises nothing.

Blocks and programs differ only in the token that ends them, so both are read by `lines`.
-/

namespace TracedScript.Parser

theorem bind_apply {α β : Type} (p : Parser α) (f : α → Parser β) (c : Cursor) : (p >>= f) c =
    match p c with
    | (.ok a, d) => f a d
    | (.error s, d) => (.error s, d) := by
  show (ExceptT.bindCont f (p c).1 (p c).2) = _
  cases p c with
  | mk r d => cases r <;> rfl

theorem expectIdentifier_apply (c : Cursor) : expectIdentifier c = match c.token with
    | .identifier name => (.ok (name, c.span), c.advance)
    | _ => unexpected "identifier" c := by
  have steps : expectIdentifier c = (match c.token with
      | .identifier name => do
        set c.advance
        return (name, c.span)
      | _ => unexpected "identifier" : Parser (String × Span)) c := rfl
  rw [steps]
  generalize c.token = t
  cases t <;> rfl

theorem enter_apply (t : Token) (mode : LineBreaks) (c : Cursor) : enter t mode c =
    if c.token = t then (.ok c.current, c.enter mode) else unexpected t.describe c := by
  have steps : enter t mode c = (if c.token = t then do
      set (c.enter mode)
      return c.current
    else unexpected t.describe : Parser Lexeme) c := rfl
  rw [steps]
  split <;> rfl

theorem leave_apply (t : Token) (what : String) (c : Cursor) : leave t what c =
    if c.token = t then (.ok c.current, c.leave) else unexpected what c := by
  have steps : leave t what c = (if c.token = t then do
      set c.leave
      return c.current
    else unexpected what : Parser Lexeme) c := rfl
  rw [steps]
  split <;> rfl

/-- Lines up to the token `last`, each read by `line`. Blank lines do not matter; the last line may
end with `last`. -/
def lines (line : Parser Node) (last : Token) (what : String) : Nat → Parser (List Node)
  | 0 => exhausted
  | n + 1 => do
    skipBreaks
    if ← is last then return []
    let first ← line
    let ended ← is .eol
    let finished ← is last
    if ended || finished then
      return first :: (← lines line last what n)
    else unexpected what

def Reads {α : Type} (t : Tape) (i : Nat) (p : Parser α) (P : Nat → α → Prop) : Prop :=
  ∀ c : Cursor, c.lexemes = t.lexemes → c.offset = i → ∀ a c', p c = (.ok a, c') →
    c'.lexemes = t.lexemes ∧ P c'.offset a

namespace Reads

section

variable {α β σ : Type} {t : Tape} {i : Nat} {p : Parser α} {f : α → Parser β}
  {P : Nat → α → Prop} {Q : Nat → β → Prop}

/-! ## Putting parsers together -/

theorem pure {a : α} (h : P i a) : Reads t i (pure a) P := by
  intro c hc hi b c' hp
  cases hp
  exact ⟨hc, hi ▸ h⟩

theorem bind (hp : Reads t i p P) (hf : ∀ j a, P j a → Reads t j (f a) Q) :
    Reads t i (p >>= f) Q := by
  intro c hc hi b c' h
  rw [bind_apply] at h
  split at h
  · rename_i a d hd
    obtain ⟨hd, ha⟩ := hp c hc hi a d hd
    exact hf d.offset a ha d hd rfl b c' h
  · cases h

theorem throw {s : Stop} : Reads t i (throw s) P := by
  intro c _ _ a c' h
  cases h

theorem exhausted : Reads t i exhausted P := throw

theorem unexpected {what : String} : Reads t i (unexpected what) P := by
  intro c _ _ a c' h
  cases h

theorem orExpected {what : String} (hp : Reads t i p P) : Reads t i (orExpected what p) P := by
  intro c hc hi a c' h
  unfold Parser.orExpected at h
  split at h
  · cases h
  · exact hp c hc hi a c' h

/-- Looking at the cursor does not move it. -/
theorem look (hp : ∀ c, (p c).2 = c) (hf : ∀ a, Reads t i (f a) Q) : Reads t i (p >>= f) Q := by
  refine bind (P := fun j _ => j = i) ?_ fun j a hj => hj ▸ hf a
  intro c hc hi a c' h
  have stays := hp c
  rw [h] at stays
  subst stays
  exact ⟨hc, hi⟩

/-! ## Moving the cursor -/

theorem get :
    Reads t i (get : Parser Cursor) fun j c => c.lexemes = t.lexemes ∧ c.offset = i ∧ j = i := by
  intro c hc hi a c' h
  cases h
  exact ⟨hc, hc, hi, hi⟩

theorem set {d : Cursor} (hd : d.lexemes = t.lexemes) :
    Reads t i (set d : Parser PUnit) fun j _ => j = d.offset := by
  intro c _ _ a c' h
  cases h
  exact ⟨hd, rfl⟩

theorem skipBreaks : Reads t i skipBreaks fun j _ => i ≤ j := by
  intro c hc hi a c' h
  cases h
  have kept := c.skipBreaks_lexemes.trans hc
  exact ⟨kept, hi ▸ Cursor.offset_le hc kept c.index_le_skipBreaks⟩

/-- Back to where an earlier cursor stood. -/
theorem rewind {d : Cursor} (hd : d.lexemes = t.lexemes) :
    Reads t i (modify fun c => c.rewind d.index : Parser PUnit) fun j _ => j = d.offset := by
  intro c hc _ a c' h
  cases h
  exact ⟨hc, Nat.le_antisymm (Cursor.offset_le hc hd (Nat.le_refl _))
    (Cursor.offset_le hd hc (Nat.le_refl _))⟩

theorem advance : Reads t i advance fun j l => t.Stands i j l.span := by
  intro c hc hi a c' h
  cases h
  exact ⟨c.advance_lexemes.trans hc, hi ▸ Cursor.advance_stands hc⟩

theorem expect {token : Token} {what : String} :
    Reads t i (expect token what) fun j l => t.Stands i j l.span := by
  refine look (fun _ => rfl) fun found => ?_
  split
  · exact advance
  · exact unexpected

theorem expectKeyword {k : Keyword} :
    Reads t i (expectKeyword k) fun j l => t.Stands i j l.span := expect

theorem expectIdentifier : Reads t i expectIdentifier fun j r => t.Stands i j r.2 := by
  refine get.bind ?_
  rintro _ c ⟨hc, rfl, rfl⟩
  split
  · refine (set (c.advance_lexemes.trans hc)).bind ?_
    rintro _ - rfl
    exact pure (Cursor.advance_stands hc)
  · exact unexpected

theorem enter {token : Token} {mode : LineBreaks} :
    Reads t i (enter token mode) fun j l => t.Stands i j l.span := by
  refine get.bind ?_
  rintro _ c ⟨hc, rfl, rfl⟩
  split
  · obtain ⟨kept, passed⟩ := c.enter_spec mode hc
    refine (set kept).bind ?_
    rintro _ - rfl
    exact pure passed
  · exact unexpected

theorem leave {token : Token} {what : String} :
    Reads t i (leave token what) fun j l => t.Stands i j l.span := by
  refine get.bind ?_
  rintro _ c ⟨hc, rfl, rfl⟩
  split
  · obtain ⟨kept, passed⟩ := c.leave_spec hc
    refine (set kept).bind ?_
    rintro _ - rfl
    exact pure passed
  · exact unexpected

/-! ## Lists -/

/-- What one item preserves, wherever it is read, and passing a comma preserves too, the whole list
preserves. -/
theorem commaSeparated {item : σ → Parser σ} {closing : Mark} (I : Nat → σ → Prop)
    (later : ∀ {j k a}, I j a → j ≤ k → I k a)
    (step : ∀ {j a}, I j a → Reads t j (item a) I) (n : Nat) {a : σ} (h : I i a) :
    Reads t i (commaSeparated item closing n a) fun j r => I j r.1 := by
  induction n generalizing i a with
  | zero => exact exhausted
  | succ n ih =>
    refine look (fun _ => rfl) fun closed => ?_
    split
    · exact pure h
    refine (step h).bind fun j b hb => look (fun _ => rfl) fun comma => ?_
    split
    · refine advance.bind fun k _ passed => (ih (later hb passed.le)).bind fun _ r hr => ?_
      exact pure hr
    refine look (fun _ => rfl) fun closed => ?_
    split
    · exact pure hb
    · exact unexpected

end

end Reads

end TracedScript.Parser

namespace TracedScript.Grammar

theorem statements_eq (g : Grammar) (n : Nat) :
    statements g n = Parser.lines (g.read .statement) (.mark .rbrace) "end of line or '\x7d'" n := by
  induction n with
  | zero => rfl
  | succ n ih =>
    rw [statements, ih]
    rfl

theorem program_eq (g : Grammar) (n : Nat) :
    program g n = Parser.lines (statement g) .eof "end of line" n := by
  induction n with
  | zero => rfl
  | succ n ih =>
    rw [program, ih]
    rfl

end TracedScript.Grammar
