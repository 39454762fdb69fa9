import Mathlib.Data.List.Forall2
import TracedScript.Proofs.Syntax.Reading

/-!
# Two readings side by side

A `Pairing` says which cursors of two readings correspond. They stand on the same token, and still
correspond when both are moved in the same way. `P.Beside now r p p'`: from cursors that correspond
and stand on a token for which `now` holds, the parsers `p` and `p'` give results that `r` relates,
or are rejected for the same reason. If `p` uses up its allowance nothing is said, so `p'` may have
a larger one. There is one rule for each way to move a cursor and for each way to put parsers
together, so that a grammar is followed without opening it.
-/

namespace TracedScript

def Mark.isOpening : Mark → Bool
  | .lparen | .lbracket | .lbrace => true
  | _ => false

def Mark.isClosing : Mark → Bool
  | .rparen | .rbracket | .rbrace => true
  | _ => false

namespace Token

/-- The token is passed as it stands: it is no bracket, no line break and not the end. -/
def isPlain : Token → Bool
  | .mark m => !m.isOpening && !m.isClosing
  | .eol | .eof => false
  | _ => true

/-- The token opens a bracket in which line breaks are treated so: only between braces they may
count. -/
def opens : Token → LineBreaks → Bool
  | .mark .lparen, .ignored | .mark .lbracket, .ignored | .mark .lbrace, _ => true
  | _, _ => false

def closes : Token → Bool
  | .mark m => m.isClosing
  | _ => false

end Token

/-- What is greater than some number has a predecessor that is not smaller. -/
theorem exists_pred_of_lt {n m : Nat} (h : n < m) : ∃ k, m = k + 1 ∧ n ≤ k := by
  obtain ⟨k, rfl⟩ := Nat.exists_eq_add_one_of_ne_zero (Nat.ne_zero_of_lt h)
  exact ⟨k, rfl, Nat.le_of_lt_succ h⟩

namespace Parser

/-- What corresponds in two readings. -/
structure Pairing where
  cursor : Cursor → Cursor → Prop
  span : Span → Span → Prop
  token : ∀ {c c' : Cursor}, cursor c c' → c.token = c'.token
  current : ∀ {c c' : Cursor}, cursor c c' → span c.span c'.span
  /-- Of two places in the first reading one is as far as the other only if it is so in the second
  one, too. -/
  index : ∀ {c c' d d' : Cursor}, cursor c c' → cursor d d' →
    (d.index = c.index ↔ d'.index = c'.index)
  advance : ∀ {c c' : Cursor}, cursor c c' → c.token.isPlain = true → cursor c.advance c'.advance
  skipBreaks : ∀ {c c' : Cursor}, cursor c c' → cursor c.skipBreaks c'.skipBreaks
  enter : ∀ {c c' : Cursor} {mode : LineBreaks}, cursor c c' → c.token.opens mode = true →
    cursor (c.enter mode) (c'.enter mode)
  leave : ∀ {c c' : Cursor}, cursor c c' → c.token.closes = true → cursor c.leave c'.leave

/-- The same error at places that correspond. -/
structure Pairing.Errors (P : Pairing) (e e' : SourceError) : Prop where
  kind : e.kind = e'.kind
  message : e.message = e'.message
  span : P.span e.span e'.span

namespace Pairing

variable {α β γ δ : Type}

/-- Two parsers end alike, unless the first one used up its allowance. -/
inductive Ends (P : Pairing) (r : α → β → Prop) :
    Except Stop α × Cursor → Except Stop β × Cursor → Prop where
  | ok {a : α} {b : β} {c c' : Cursor} : r a b → P.cursor c c' → Ends P r (.ok a, c) (.ok b, c')
  | rejected {e e' : SourceError} {c c' : Cursor} : P.Errors e e' → P.cursor c c' →
    Ends P r (.error (.rejected e), c) (.error (.rejected e'), c')
  | exhausted {c : Cursor} {found : Except Stop β × Cursor} : Ends P r (.error .exhausted, c) found

/-- Two outcomes are alike: results that `r` relates, or the same error at places that
correspond. -/
inductive Answers (P : Pairing) (r : α → β → Prop) :
    Except SourceError α → Except SourceError β → Prop where
  | ok {a : α} {b : β} : r a b → Answers P r (.ok a) (.ok b)
  | error {e e' : SourceError} : P.Errors e e' → Answers P r (.error e) (.error e')

def Beside (P : Pairing) (now : Token → Prop) (r : α → β → Prop) (p : Parser α) (p' : Parser β) :
    Prop := ∀ c c', P.cursor c c' → now c.token → P.Ends r (p c) (p' c')

variable {P : Pairing} {now : Token → Prop} {r : α → β → Prop} {q : γ → δ → Prop}

theorem like_unexpected {c c' : Cursor} (h : P.cursor c c') (what : String) :
    P.Errors (c.unexpected what) (c'.unexpected what) := by
  refine ⟨rfl, ?_, P.current h⟩
  unfold Cursor.unexpected
  rw [P.token h]

namespace Ends

/-- Asking at one place only. -/
theorem test {t : Token} {x y : Parser γ} {x' y' : Parser δ} {c c' : Cursor} (hc : P.cursor c c')
    (yes : P.Beside (· = t) q x x') (no : P.Ends q (y c) (y' c')) :
    P.Ends q ((do if ← Parser.is t then x else y : Parser γ) c)
      ((do if ← Parser.is t then x' else y' : Parser δ) c') := by
  have steps {ε : Type} (x y : Parser ε) (c : Cursor) :
      (do if ← Parser.is t then x else y : Parser ε) c = if c.token = t then x c else y c := by
    change (if decide (c.token = t) then x else y : Parser ε) c = _
    split <;> simp_all
  rw [steps, steps, ← P.token hc]
  split
  · exact yes c c' hc ‹_›
  · exact no

/-- What looked ahead and found nothing stands again where it stood. -/
theorem giveBack {c c' : Cursor} (hc : P.cursor c c') {a : γ} {b : δ} (h : q a b) :
    P.Ends q ((do modify fun d => d.rewind c.index; return a : Parser γ) c.skipBreaks)
      ((do modify fun d => d.rewind c'.index; return b : Parser δ) c'.skipBreaks) := by
  change P.Ends q (.ok a, c.skipBreaks.rewind c.index) (.ok b, c'.skipBreaks.rewind c'.index)
  rw [Cursor.rewind_skipBreaks, Cursor.rewind_skipBreaks]
  exact .ok h hc

end Ends

namespace Beside

/-! ## Putting parsers together -/

theorem weaken {now' : Token → Prop} {p : Parser α} {p' : Parser β} (h : P.Beside now' r p p')
    (hnow : ∀ t, now t → now' t) : P.Beside now r p p' :=
  fun c c' hc ht => h c c' hc (hnow _ ht)

theorem pure {a : α} {b : β} (h : r a b) : P.Beside now r (pure a) (pure b) :=
  fun _ _ hc _ => .ok h hc

theorem exhausted {p' : Parser β} : P.Beside now r (exhausted : Parser α) p' :=
  fun _ _ _ _ => .exhausted

theorem unexpected (what : String) : P.Beside now r (unexpected what) (unexpected what) :=
  fun _ _ hc _ => .rejected (like_unexpected hc what) hc

theorem bind {p : Parser α} {p' : Parser β} (hp : P.Beside now r p p') {f : α → Parser γ}
    {f' : β → Parser δ} (hf : ∀ a b, r a b → P.Beside (fun _ => True) q (f a) (f' b)) :
    P.Beside now q (p >>= f) (p' >>= f') := by
  intro c c' hc hnow
  rw [bind_apply, bind_apply]
  have first := hp c c' hc hnow
  generalize p c = e at first ⊢
  generalize p' c' = e' at first ⊢
  cases first with
  | ok hab hd => exact hf _ _ hab _ _ hd trivial
  | rejected he hd => exact .rejected he hd
  | exhausted => exact .exhausted

/-- What comes behind an error does not matter. -/
theorem throw_bind {e e' : SourceError} (h : P.Errors e e') {f : α → Parser γ}
    {f' : β → Parser δ} :
    P.Beside now q (MonadExcept.throw (.rejected e) >>= f)
      (MonadExcept.throw (.rejected e') >>= f') := fun _ _ hc _ => .rejected h hc

theorem orExpected {what : String} {p : Parser α} {p' : Parser β} (h : P.Beside now r p p') :
    P.Beside now r (orExpected what p) (orExpected what p') := by
  intro c c' hc hnow
  have inner := h c c' hc hnow
  unfold Parser.orExpected
  generalize p c = e at inner ⊢
  generalize p' c' = e' at inner ⊢
  cases inner with
  | ok hab hd => exact .ok hab hd
  | @rejected _ _ d d' he hd =>
    have still := P.index hc hd
    dsimp only
    by_cases hstill : d.index = c.index
    · rw [if_pos hstill, if_pos (still.mp hstill)]
      exact .rejected (like_unexpected hd what) hd
    · rw [if_neg hstill, if_neg fun h => hstill (still.mpr h)]
      exact .rejected he hd
  | exhausted => exact .exhausted

/-- Looking at the token does not move the cursor. -/
theorem peek {f : Token → Parser γ} {f' : Token → Parser δ}
    (hf : ∀ t, now t → P.Beside (· = t) q (f t) (f' t)) :
    P.Beside now q (peek >>= f) (peek >>= f') := by
  intro c c' hc hnow
  have inner := hf c.token hnow c c' hc rfl
  rw [P.token hc] at inner
  change P.Ends q (f c.token c) (f' c'.token c')
  rw [P.token hc]
  exact inner

/-- Asking whether the token is a given one. -/
theorem is {t : Token} {f : Bool → Parser γ} {f' : Bool → Parser δ}
    (yes : P.Beside (· = t) q (f true) (f' true)) (no : P.Beside now q (f false) (f' false)) :
    P.Beside now q (is t >>= f) (is t >>= f') := by
  intro c c' hc hnow
  change P.Ends q (f (decide (c.token = t)) c) (f' (decide (c'.token = t)) c')
  rw [← P.token hc]
  by_cases ht : c.token = t
  · rw [decide_eq_true ht]
    exact yes c c' hc ht
  · rw [decide_eq_false ht]
    exact no c c' hc hnow

/-- Asking, where the two answers are not told apart at once. -/
theorem ask {t : Token} {f : Bool → Parser γ} {f' : Bool → Parser δ}
    (hf : ∀ b, P.Beside (fun u => u = t ∨ now u) q (f b) (f' b)) :
    P.Beside now q (Parser.is t >>= f) (Parser.is t >>= f') :=
  is ((hf true).weaken fun _ => .inl) ((hf false).weaken fun _ => .inr)

theorem test {t : Token} {x y : Parser γ} {x' y' : Parser δ} (yes : P.Beside (· = t) q x x')
    (no : P.Beside now q y y') : P.Beside now q (do if ← Parser.is t then x else y)
      (do if ← Parser.is t then x' else y') := is yes no

/-- Remembering where the cursor stands. -/
theorem cursor {f : Cursor → Parser γ} {f' : Cursor → Parser δ}
    (hf : ∀ c c', P.cursor c c' → P.Beside now q (f c) (f' c')) :
    P.Beside now q (Parser.cursor >>= f) (Parser.cursor >>= f') :=
  fun c c' hc hnow => hf c c' hc c c' hc hnow

/-! ## Moving the cursor -/

theorem advance (h : ∀ t, now t → t.isPlain = true) :
    P.Beside now (fun _ _ => True) Parser.advance Parser.advance :=
  fun _ _ hc hnow => .ok trivial (P.advance hc (h _ hnow))

/-- Passing the token that is known to be there. -/
theorem advanceOver {t : Token} (h : t.isPlain = true) :
    P.Beside (· = t) (fun _ _ => True) Parser.advance Parser.advance :=
  advance fun _ ht => ht ▸ h

theorem skipBreaks : P.Beside now (fun _ _ => True) Parser.skipBreaks Parser.skipBreaks :=
  fun _ _ hc _ => .ok trivial (P.skipBreaks hc)

/-- Looking ahead across line breaks. -/
theorem ahead {f : Cursor → Parser γ} {f' : Cursor → Parser δ}
    (hf : ∀ c c', P.cursor c c' → P.Ends q (f c c.skipBreaks) (f' c' c'.skipBreaks)) :
    P.Beside now q (do let before ← Parser.cursor; Parser.skipBreaks; f before)
      (do let before ← Parser.cursor; Parser.skipBreaks; f' before) :=
  fun c c' hc _ => hf c c' hc

theorem set {d d' : Cursor} (hd : P.cursor d d') :
    P.Beside now (fun _ _ => True) (set d : Parser PUnit) (set d' : Parser PUnit) :=
  fun _ _ _ _ => .ok trivial hd

theorem expect {t : Token} (ht : t.isPlain = true) (what : String) :
    P.Beside now (fun _ _ => True) (Parser.expect t what) (Parser.expect t what) :=
  is (advanceOver ht) (unexpected what)

theorem expectKeyword (k : Keyword) :
    P.Beside now (fun _ _ => True) (Parser.expectKeyword k) (Parser.expectKeyword k) :=
  expect rfl _

theorem expectIdentifier : P.Beside now (fun a b => a.1 = b.1 ∧ P.span a.2 b.2)
    Parser.expectIdentifier Parser.expectIdentifier := by
  intro c c' hc hnow
  rw [expectIdentifier_apply, expectIdentifier_apply, ← P.token hc]
  split
  · rename_i name ht
    exact .ok ⟨rfl, P.current hc⟩ (P.advance hc (by rw [ht]; rfl))
  · exact unexpected "identifier" c c' hc hnow

theorem enter {t : Token} {mode : LineBreaks} (h : t.opens mode = true) :
    P.Beside now (fun _ _ => True) (Parser.enter t mode) (Parser.enter t mode) := by
  intro c c' hc hnow
  rw [enter_apply, enter_apply, ← P.token hc]
  split
  · rename_i ht
    exact .ok trivial (P.enter hc (ht ▸ h))
  · exact unexpected _ c c' hc hnow

theorem leave {t : Token} (h : t.closes = true) (what : String) :
    P.Beside now (fun _ _ => True) (Parser.leave t what) (Parser.leave t what) := by
  intro c c' hc hnow
  rw [leave_apply, leave_apply, ← P.token hc]
  split
  · rename_i ht
    exact .ok trivial (P.leave hc (ht ▸ h))
  · exact unexpected what c c' hc hnow

/-! ## Lists -/

theorem commaSeparated {item : α → Parser α} {item' : β → Parser β} (closing : Mark)
    (step : ∀ a b, r a b → P.Beside (fun _ => True) r (item a) (item' b)) {n m : Nat} (hnm : n ≤ m)
    {a : α} {b : β} (h : r a b) : P.Beside now (fun x y => r x.1 y.1 ∧ x.2 = y.2)
      (Parser.commaSeparated item closing n a) (Parser.commaSeparated item' closing m b) := by
  induction n generalizing m a b now with
  | zero => exact exhausted
  | succ n ih =>
    obtain ⟨m, rfl, hle⟩ := exists_pred_of_lt hnm
    refine test (pure ⟨h, rfl⟩) ?_
    refine ((step a b h).weaken fun _ _ => trivial).bind fun a b h => ?_
    refine test ?_ (test (pure ⟨h, rfl⟩) (unexpected _))
    refine (advanceOver rfl).bind fun _ _ _ => (ih hle h).bind ?_
    exact fun x y hxy => pure ⟨hxy.1, rfl⟩

theorem lines {line line' : Parser Node} {R : Node → Node → Prop} {last : Token} {what : String}
    (hline : P.Beside (fun _ => True) R line line') {n m : Nat} (hnm : n ≤ m) :
    P.Beside now (List.Forall₂ R) (Parser.lines line last what n)
      (Parser.lines line' last what m) := by
  induction n generalizing m now with
  | zero => exact exhausted
  | succ n ih =>
    obtain ⟨m, rfl, hle⟩ := exists_pred_of_lt hnm
    refine skipBreaks.bind fun _ _ _ => test (pure .nil) ?_
    refine (hline.weaken fun _ _ => trivial).bind fun first first' hf => ?_
    refine ask fun ended => ask fun finished => ?_
    split
    · exact (ih hle).bind fun _ _ hr => pure (.cons hf hr)
    · exact unexpected _

end Beside

end Pairing

end Parser

end TracedScript
