import TracedScript.Proofs.Syntax.Passing
import TracedScript.Proofs.Syntax.TwoReadings

/-!
# Expressions in their own parentheses

An expression in its own parentheses is an operand for every operator: each level of the grammar
reads it, and stops in front of what binds less strongly than the level. What may stand behind a
construct is part of each statement, as the grammar looks one token ahead, for the parts of an `if`
also across line breaks. Main statements: `phrase_enclosed`, and `binary_pass` for two operands.
-/

namespace TracedScript

open TracedScript.Cursor (Ahead)
open TracedScript.Parser (Passes)

/-! ## What may stand behind a construct -/

/-- How strongly an operator binds, from `and` and `or` up to `^`. -/
def BinaryOperator.strength : BinaryOperator → Nat
  | .and | .or => 0
  | .equal | .notEqual | .less | .lessEqual | .greater | .greaterEqual => 1
  | .add | .subtract => 2
  | .multiply | .divide => 3
  | .power => 4

/-- The token ends an operand, and also operators of strength `k` or more. -/
structure Token.Ends (k : Nat) (t : Token) : Prop where
  noCall : t ≠ .mark .lparen
  noIndex : t ≠ .mark .lbracket
  noMember : t ≠ .mark .period
  noValue : t ≠ .mark .equals
  weaker : ∀ op, Grammar.operator? t = some op → op.strength < k

/-- The tokens start with one that counts and that ends operators of strength `k` or more. -/
def EndsAt (k : Nat) (mode : LineBreaks) (ts : List Token) : Prop :=
  ∃ t us, ts = t :: us ∧ (t = .eol → mode = .significant) ∧ t.Ends k

/-- The tokens may stand behind every expression: on the next line there is no part of an `if`. -/
structure MayFollow (mode : LineBreaks) (ts : List Token) : Prop where
  ends : EndsAt 0 mode ts
  noElif : (ts.dropWhile (· = .eol)).head? ≠ some (.keyword .elif)
  noElse : (ts.dropWhile (· = .eol)).head? ≠ some (.keyword .else)

section

variable {mode : LineBreaks} {ts : List Token} {j k : Nat}

theorem EndsAt.mono (h : EndsAt j mode ts) (hjk : j ≤ k) : EndsAt k mode ts := by
  obtain ⟨t, us, rfl, ht, he⟩ := h
  have weaker (op : BinaryOperator) (hop : Grammar.operator? t = some op) : op.strength < k :=
    Nat.lt_of_lt_of_le (he.weaker op hop) hjk
  exact ⟨t, us, rfl, ht, { he with weaker }⟩

theorem endsAt_operator (op : BinaryOperator) : EndsAt (op.strength + 1) mode (op.token :: ts) := by
  refine ⟨op.token, ts, rfl, ?_, ?_⟩
  · cases op <;> nofun
  · cases op <;> exact ⟨nofun, nofun, nofun, nofun, fun _ h => by cases h; decide⟩

/-- Marks that close a bracket, separate items or open a block. -/
def Mark.closes : Mark → Bool
  | .rparen | .rbracket | .rbrace | .lbrace | .comma | .colon => true
  | _ => false

theorem Token.ends_mark {m : Mark} (h : m.closes = true) : (Token.mark m).Ends k := by
  cases m with
  | rparen | rbracket | rbrace | lbrace | comma | colon =>
    exact ⟨nofun, nofun, nofun, nofun, nofun⟩
  | _ => cases h

theorem mayFollow_mark {m : Mark} (h : m.closes = true) : MayFollow mode (.mark m :: ts) :=
  ⟨⟨_, _, rfl, nofun, Token.ends_mark h⟩, nofun, nofun⟩

end

/-! ## Operators -/

/-- The parser reads the tokens to what `r` holds of, and stops in front of what follows. -/
def Parser.Takes {α : Type} (p : Parser α) (ts : List Token) (r : α → Prop)
    (follow : LineBreaks → List Token → Prop) : Prop :=
  ∀ mode outer rest, follow mode rest →
    Passes (Ahead mode outer (ts ++ rest)) p r (Ahead mode outer rest)

@[simp] theorem length_parenthesized (ts : List Token) :
    (parenthesized ts).length = ts.length + 2 := by
  simp [parenthesized]

@[simp] theorem length_braced (ts : List Token) : (braced ts).length = ts.length + 2 := by
  simp [braced]

theorem parenthesized_append (ts rest : List Token) :
    parenthesized ts ++ rest = .mark .lparen :: (ts ++ .mark .rparen :: rest) := by
  simp [parenthesized]

theorem braced_append (ts rest : List Token) :
    braced ts ++ rest = .mark .lbrace :: (ts ++ .mark .rbrace :: rest) := by
  simp [braced]

namespace Grammar

/-- Trees that are written with less than `n` tokens are read back. -/
structure Inverts (g : Grammar) (n : Nat) : Prop where
  allowance : n ≤ g.allowance
  bare : ∀ e : Node, e.IsExpression → e.tokens.length < n →
    (g.read .expression).Takes e.tokens e.SameTree MayFollow
  enclosed : ∀ e : Node, e.IsExpression → (parenthesized e.tokens).length < n →
    ∀ p, p ≠ .statement → (g.read p).Takes (parenthesized e.tokens) e.SameTree (EndsAt 0)
  line : ∀ s : Node, s.IsWritable → s.tokens.length < n →
    (g.read .statement).Takes s.tokens s.SameTree MayFollow

section

variable {g : Grammar} {n k : Nat} {mode : LineBreaks} {outer : List LineBreaks}
  {ts rest : List Token} {pre : Cursor → Prop} {r : Node → Prop}

theorem trailers_stop (hn : 0 < n) (h : EndsAt k mode rest) {node : Node} (chaining : Bool)
    (hr : r node) :
    Passes (Ahead mode outer rest) (trailers g n node chaining) r (Ahead mode outer rest) := by
  obtain ⟨t, us, rfl, ht, he⟩ := h
  obtain _ | n := n
  · cases hn
  refine .peek ht ?_
  split
  · exact absurd rfl he.noCall
  · exact absurd rfl he.noIndex
  · exact absurd rfl he.noMember
  · exact .pure hr

section

variable {ops : List BinaryOperator} {first operand : Parser Node}

theorem chainRest_stop (hn : 0 < n) (hops : ∀ op ∈ ops, k ≤ op.strength) (h : EndsAt k mode rest)
    {left : Node} (hr : r left) :
    Passes (Ahead mode outer rest) (chainRest ops operand n left) r (Ahead mode outer rest) := by
  obtain ⟨t, us, rfl, ht, he⟩ := h
  obtain _ | n := n
  · cases hn
  refine .peek ht ?_
  split
  · exact .pure hr
  rename_i op hop
  rw [if_neg fun hm => Nat.not_lt_of_le (hops op hm) (he.weaker op hop)]
  exact .pure hr

/-- A chain of one operand, with what binds less strongly behind it. -/
theorem chain_stop (hn : 0 < n) (hops : ∀ op ∈ ops, k ≤ op.strength) (h : EndsAt k mode rest)
    (hf : Passes pre first r (Ahead mode outer rest)) :
    Passes pre (do chainRest ops operand n (← first)) r (Ahead mode outer rest) :=
  hf.bind fun _ hr => chainRest_stop hn hops h hr

theorem operator?_token (op : BinaryOperator) : operator? op.token = some op := by cases op <;> rfl

/-- A chain of two operands. -/
theorem chain_binary {op : BinaryOperator} (hop : op ∈ ops) (hn : 1 < n)
    (hops : ∀ op ∈ ops, k ≤ op.strength) (h : EndsAt k mode rest) {left right : Node} (s : Span)
    (hl : Passes pre first left.SameTree (Ahead mode outer (op.token :: ts)))
    (hr : Passes (Ahead mode outer ts) operand right.SameTree (Ahead mode outer rest)) :
    Passes pre (do chainRest ops operand n (← first)) (Node.SameTree ⟨.binary left op right, s⟩)
      (Ahead mode outer rest) := by
  obtain _ | n := n
  · cases hn
  have content : op.token.isContent = true := by cases op <;> rfl
  refine hl.bind fun l hl => .peek (fun heol => by rw [heol] at content; cases content) ?_
  rw [operator?_token]
  dsimp only
  rw [if_pos hop]
  refine (Passes.advance content).bind fun _ _ => hr.bind fun r hr => ?_
  exact chainRest_stop (Nat.lt_of_succ_lt_succ hn) hops h (.of_kind (.binary op hl hr))

end

/-! ### From operands up to expressions -/

section

variable (ha : 0 < g.allowance)

include ha

theorem raised_of_factor (h : EndsAt 4 mode rest)
    (hf : Passes pre (factor g) r (Ahead mode outer rest)) :
    Passes pre (raised g (factor g)) r (Ahead mode outer rest) := chain_stop ha (by decide) h hf

theorem term_of_raised (h : EndsAt 3 mode rest)
    (hf : Passes pre (raised g (factor g)) r (Ahead mode outer rest)) :
    Passes pre (term g (factor g)) r (Ahead mode outer rest) := chain_stop ha (by decide) h hf

theorem sum_of_term (h : EndsAt 2 mode rest)
    (hf : Passes pre (term g (factor g)) r (Ahead mode outer rest)) :
    Passes pre (sum g (factor g)) r (Ahead mode outer rest) := chain_stop ha (by decide) h hf

theorem comparison_of_sum (h : EndsAt 1 mode rest)
    (hnot : ∀ c, pre c → c.token ≠ .keyword .not)
    (hf : Passes pre (sum g (factor g)) r (Ahead mode outer rest)) :
    Passes pre (comparison g (factor g)) r (Ahead mode outer rest) :=
  .isFalse hnot (.orExpected _ (chain_stop ha (by decide) h hf))

theorem expression_of_comparison (h : EndsAt 0 mode rest)
    (hvar : ∀ c, pre c → c.token ≠ .keyword .var)
    (hf : Passes pre (comparison g (factor g)) r (Ahead mode outer rest)) :
    Passes pre (expression g) r (Ahead mode outer rest) :=
  .isFalse hvar (.orExpected _ (chain_stop ha (by decide) h hf))

end

theorem factor_of_operand {t : Token} (ht : t.startsOperand = true)
    (ho : Passes (Ahead mode outer (t :: ts)) (operand g) r (Ahead mode outer rest)) :
    Passes (Ahead mode outer (t :: ts)) (factor g) r (Ahead mode outer rest) := by
  refine .peek ?_ ?_
  · rintro rfl
    cases ht
  split
  · cases ht
  · cases ht
  · exact ho

theorem token_ne {t u : Token} (ht : t.startsFactor = true) (hu : u.startsFactor = false) :
    ∀ c, Ahead mode outer (t :: ts) c → c.token ≠ u := by
  intro c hc heq
  rw [hc.token (by rintro rfl; cases ht)] at heq
  rw [heq, hu] at ht
  cases ht

theorem expression_of_sum (ha : 0 < g.allowance) {t : Token} (ht : t.startsFactor = true)
    (h : EndsAt 0 mode rest)
    (hs : Passes (Ahead mode outer (t :: ts)) (sum g (factor g)) r (Ahead mode outer rest)) :
    Passes (Ahead mode outer (t :: ts)) (expression g) r (Ahead mode outer rest) :=
  expression_of_comparison ha h (token_ne ht rfl)
    (comparison_of_sum ha (h.mono (by decide)) (token_ne ht rfl) hs)

theorem expression_of_factor (ha : 0 < g.allowance) {t : Token} (ht : t.startsFactor = true)
    (h : EndsAt 0 mode rest)
    (hf : Passes (Ahead mode outer (t :: ts)) (factor g) r (Ahead mode outer rest)) :
    Passes (Ahead mode outer (t :: ts)) (expression g) r (Ahead mode outer rest) :=
  expression_of_sum ha ht h (sum_of_term ha (h.mono (by decide))
    (term_of_raised ha (h.mono (by decide)) (raised_of_factor ha (h.mono (by decide)) hf)))

/-! ## Lists of expressions -/

theorem operandTokens_eq (items : List Node) :
    operandTokens items = items.map fun e => parenthesized e.tokens := by
  induction items with
  | nil => rfl
  | cons e es ih => rw [operandTokens, ih, List.map_cons]

section

variable {ι : Type} {w : ι → List Token} {p q : ι → Node → Prop} {items : List ι}

/-- Items that are each read, in front of a mark that closes the list. -/
theorem expressions_pass {closing : Mark} (hc : closing.closes = true) (hcomma : closing ≠ .comma)
    (starts : ∀ x ∈ items, ∃ t ts, w x = t :: ts ∧ t.isContent = true ∧ t ≠ .mark closing)
    (hitems : ∀ x ∈ items, (g.read .expression).Takes (w x) (p x) MayFollow)
    (hn : items.length < g.allowance) :
    Passes (Ahead mode outer (commaList (items.map w) ++ .mark closing :: rest))
      (expressions g closing)
      (fun r => List.Forall₂ p items r.1 ∧ r.2 = decide (1 < items.length))
      (Ahead mode outer (.mark closing :: rest)) := by
  refine Passes.commaSeparated (R := List.Forall₂ p) hcomma starts ?_ _ hn
    (List.nil_append items) .nil
  intro done x later acc m ts hall hm hacc
  have mem : x ∈ items := by rw [← hall]; simp
  have follows : MayFollow mode (.mark m :: ts) := by
    obtain rfl | rfl := hm
    · exact mayFollow_mark rfl
    · exact mayFollow_mark hc
  exact (hitems x mem _ _ _ follows).bind fun _ h => .pure (List.rel_append hacc (.cons h .nil))

theorem array_of_items
    (starts : ∀ x ∈ items, ∃ t ts, w x = t :: ts ∧ t.isContent = true ∧ t ≠ .mark .rbracket)
    (hitems : ∀ x ∈ items, (g.read .expression).Takes (w x) (p x) MayFollow)
    (hn : items.length < g.allowance) :
    Passes
      (Ahead mode outer (.mark .lbracket :: (commaList (items.map w) ++ .mark .rbracket :: rest)))
      (array g) (fun e => ∃ found, e.kind = .array found ∧ List.Forall₂ p items found)
      (Ahead mode outer rest) := by
  refine (Passes.enter _).bind fun _ _ => ?_
  refine (expressions_pass rfl (by decide) starts hitems hn).bind ?_
  rintro ⟨found, comma⟩ ⟨hfound, -⟩
  exact (Passes.leave _ _).bind fun _ _ => .pure ⟨found, rfl, hfound⟩

theorem tupleItems_pass
    (starts : ∀ x ∈ items, ∃ t ts, w x = t :: ts ∧ t.isContent = true ∧ t ≠ .mark .rparen)
    (hitems : ∀ x ∈ items, (g.read .expression).Takes (w x) (p x) MayFollow)
    (hn : items.length < g.allowance) :
    Passes (Ahead mode outer (tupleList (items.map w) ++ .mark .rparen :: rest))
      (expressions g .rparen)
      (fun r => List.Forall₂ p items r.1 ∧ (items.length = 1 → r.2 = true))
      (Ahead mode outer (.mark .rparen :: rest)) := by
  match items with
  | [] => exact (expressions_pass rfl (by decide) starts hitems hn).imp fun _ h => ⟨h.1, nofun⟩
  | [x] =>
    obtain ⟨t, ts, hw, ht, hne⟩ := starts x (List.mem_singleton_self x)
    have item (acc : List Node) : Passes
        (Ahead mode outer (w x ++ .mark .comma :: .mark .rparen :: rest))
        (do return acc ++ [← g.read .expression]) (fun r => ∃ e, p x e ∧ r = acc ++ [e])
        (Ahead mode outer (.mark .comma :: .mark .rparen :: rest)) :=
      (hitems x (List.mem_singleton_self x) _ _ _ (mayFollow_mark rfl)).bind fun e h =>
        .pure ⟨e, h, rfl⟩
    simp only [List.map_cons, List.map_nil, tupleList, List.append_assoc]
    rw [hw] at item ⊢
    refine (Passes.commaSeparated_single hne ht (item []) _ hn).imp ?_
    rintro ⟨_, comma⟩ ⟨⟨e, h, rfl⟩, hcomma⟩
    exact ⟨.cons h .nil, fun _ => hcomma⟩
  | x :: y :: xs =>
    exact (expressions_pass rfl (by decide) starts hitems hn).imp fun _ h => ⟨h.1, nofun⟩

/-- Only the comma tells a tuple of one item from an expression in parentheses. -/
theorem tuple_of_items
    (starts : ∀ x ∈ items, ∃ t ts, w x = t :: ts ∧ t.isContent = true ∧ t ≠ .mark .rparen)
    (hitems : ∀ x ∈ items, (g.read .expression).Takes (w x) (p x) MayFollow)
    (hn : items.length < g.allowance) :
    Passes (Ahead mode outer (parenthesized (tupleList (items.map w)) ++ rest)) (group g)
      (fun e => ∃ found, e.kind = .tuple found ∧ List.Forall₂ p items found)
      (Ahead mode outer rest) := by
  rw [parenthesized_append]
  refine (Passes.enter _).bind fun _ _ => (tupleItems_pass starts hitems hn).bind ?_
  rintro ⟨found, comma⟩ ⟨hfound, hcomma⟩
  refine (Passes.leave _ _).bind fun _ _ => ?_
  dsimp only
  split
  · have one : items.length = 1 := hfound.length_eq
    cases hcomma one
  · exact .pure ⟨_, rfl, hfound⟩

/-- An entry is written as its key, a colon and its value. -/
theorem dictionary_of_entries {w' : ι → List Token}
    (starts : ∀ x ∈ items, ∃ t ts, w x = t :: ts ∧ t.isContent = true ∧ t ≠ .mark .rbrace)
    (hkeys : ∀ x ∈ items, (g.read .expression).Takes (w x) (p x) MayFollow)
    (hvalues : ∀ x ∈ items, (g.read .expression).Takes (w' x) (q x) MayFollow)
    (hn : items.length < g.allowance) :
    Passes
      (Ahead mode outer
        (braced (commaList (items.map fun x => w x ++ .mark .colon :: w' x)) ++ rest))
      (dictionary g)
      (fun e => ∃ found, e.kind = .dict found ∧
        List.Forall₂ (fun x b => p x b.1 ∧ q x b.2) items found)
      (Ahead mode outer rest) := by
  have starts (x : ι) (hx : x ∈ items) : ∃ t ts, w x ++ .mark .colon :: w' x = t :: ts ∧
      t.isContent = true ∧ t ≠ .mark .rbrace := by
    obtain ⟨t, ts, hw, ht⟩ := starts x hx
    exact ⟨t, _, by rw [hw, List.cons_append], ht⟩
  have step (done : List ι) (x : ι) (later : List ι) (acc : List (Node × Node)) (k : Mark)
      (ts : List Token) (hall : done ++ x :: later = items) (hk : k = .comma ∨ k = .rbrace)
      (hacc : List.Forall₂ (fun x b => p x b.1 ∧ q x b.2) done acc) :
      Passes
        (Ahead .ignored (mode :: outer) (w x ++ .mark .colon :: w' x ++ .mark k :: ts))
        (entry g acc) (List.Forall₂ (fun x b => p x b.1 ∧ q x b.2) (done ++ [x]))
        (Ahead .ignored (mode :: outer) (.mark k :: ts)) := by
    have hx : x ∈ items := by rw [← hall]; simp
    have closes : k.closes = true := by obtain rfl | rfl := hk <;> rfl
    rw [List.append_assoc]
    refine (hkeys x hx _ _ _ (mayFollow_mark rfl)).bind fun key hkey => ?_
    refine (Passes.expect rfl _).bind fun _ _ => ?_
    refine (hvalues x hx _ _ _ (mayFollow_mark closes)).bind fun value hvalue => ?_
    exact .pure (List.rel_append hacc (.cons ⟨hkey, hvalue⟩ .nil))
  rw [braced_append]
  refine (Passes.enter _).bind fun _ _ => ?_
  refine (Passes.commaSeparated (by decide) starts step _ hn (List.nil_append items)
    .nil).bind ?_
  rintro ⟨found, comma⟩ ⟨hfound, -⟩
  exact (Passes.leave _ _).bind fun _ _ => .pure ⟨found, rfl, hfound⟩

end

/-- An expression in its own parentheses. -/
theorem group_pass (hg : g.Inverts n) {e : Node} (he : e.IsExpression)
    (hn : (parenthesized e.tokens).length ≤ n) :
    Passes (Ahead mode outer (parenthesized e.tokens ++ rest)) (group g) e.SameTree
      (Ahead mode outer rest) := by
  rw [length_parenthesized] at hn
  have starts (e : Node) :
      ∃ t ts, e.tokens = t :: ts ∧ t.isContent = true ∧ t ≠ .mark .rparen := by
    obtain ⟨t, ts, h, hs, -⟩ := e.tokens_start
    exact ⟨t, ts, h, Token.content_of_starts hs, Token.starts_ne hs rfl⟩
  have items : ∀ x ∈ [e], (g.read .expression).Takes x.tokens x.SameTree MayFollow := by
    intro x hx
    obtain rfl := List.mem_singleton.mp hx
    exact hg.bare x he (by omega)
  have bound : [e].length < g.allowance := by
    have := hg.allowance
    simp
    omega
  rw [parenthesized_append]
  refine (Passes.enter _).bind fun _ _ => ?_
  refine (expressions_pass rfl (by decide) (fun x _ => starts x) items bound).bind ?_
  rintro ⟨found, comma⟩ ⟨hfound, hcomma⟩
  obtain rfl : comma = false := hcomma
  cases hfound with
  | cons hm hnil =>
    cases hnil
    exact (Passes.leave _ _).bind fun _ _ => .pure (.of_kind hm.kind)

/-! ## Expressions in their own parentheses -/

theorem operand_of_atom (ha : 0 < g.allowance) (h : EndsAt k mode rest)
    (hf : Passes pre (atom g) r (Ahead mode outer rest)) :
    Passes pre (operand g) r (Ahead mode outer rest) :=
  hf.bind fun _ hr => trailers_stop ha h false hr

section

variable (hg : g.Inverts n) {e : Node} (he : e.IsExpression)
  (hn : (parenthesized e.tokens).length ≤ n)

include hg he hn

theorem atom_enclosed : Passes (Ahead mode outer (parenthesized e.tokens ++ rest)) (atom g)
    e.SameTree (Ahead mode outer rest) := by
  have inside : Passes (Ahead mode outer (parenthesized e.tokens ++ rest)) (group g) e.SameTree
      (Ahead mode outer rest) := group_pass hg he hn
  rw [parenthesized_append] at inside ⊢
  exact .peek (by simp) inside

omit he in
theorem allowance_pos : 0 < g.allowance := by
  have := hg.allowance
  rw [length_parenthesized] at hn
  omega

theorem factor_enclosed (h : EndsAt k mode rest) :
    Passes (Ahead mode outer (parenthesized e.tokens ++ rest)) (factor g) e.SameTree
      (Ahead mode outer rest) := by
  have first : Passes (Ahead mode outer (parenthesized e.tokens ++ rest)) (atom g) e.SameTree
      (Ahead mode outer rest) := atom_enclosed hg he hn
  rw [parenthesized_append] at first ⊢
  exact factor_of_operand rfl (operand_of_atom (allowance_pos hg hn) h first)

theorem raised_enclosed (h : EndsAt 4 mode rest) :
    Passes (Ahead mode outer (parenthesized e.tokens ++ rest)) (raised g (factor g)) e.SameTree
      (Ahead mode outer rest) :=
  raised_of_factor (allowance_pos hg hn) h (factor_enclosed hg he hn h)

theorem term_enclosed (h : EndsAt 3 mode rest) :
    Passes (Ahead mode outer (parenthesized e.tokens ++ rest)) (term g (factor g)) e.SameTree
      (Ahead mode outer rest) :=
  term_of_raised (allowance_pos hg hn) h (raised_enclosed hg he hn (h.mono (by decide)))

theorem sum_enclosed (h : EndsAt 2 mode rest) :
    Passes (Ahead mode outer (parenthesized e.tokens ++ rest)) (sum g (factor g)) e.SameTree
      (Ahead mode outer rest) :=
  sum_of_term (allowance_pos hg hn) h (term_enclosed hg he hn (h.mono (by decide)))

theorem comparison_enclosed (h : EndsAt 1 mode rest) :
    Passes (Ahead mode outer (parenthesized e.tokens ++ rest)) (comparison g (factor g)) e.SameTree
      (Ahead mode outer rest) := by
  have first : Passes (Ahead mode outer (parenthesized e.tokens ++ rest)) (sum g (factor g))
      e.SameTree (Ahead mode outer rest) := sum_enclosed hg he hn (h.mono (by decide))
  rw [parenthesized_append] at first ⊢
  exact comparison_of_sum (allowance_pos hg hn) h (token_ne rfl rfl) first

theorem expression_enclosed (h : EndsAt 0 mode rest) :
    Passes (Ahead mode outer (parenthesized e.tokens ++ rest)) (expression g) e.SameTree
      (Ahead mode outer rest) := by
  have first : Passes (Ahead mode outer (parenthesized e.tokens ++ rest))
      (comparison g (factor g)) e.SameTree (Ahead mode outer rest) :=
    comparison_enclosed hg he hn (h.mono (by decide))
  rw [parenthesized_append] at first ⊢
  exact expression_of_comparison (allowance_pos hg hn) h (token_ne rfl rfl) first

theorem phrase_enclosed {p : Phrase} (hp : p ≠ .statement) :
    (phrase g p).Takes (parenthesized e.tokens) e.SameTree (EndsAt 0) := by
  intro mode outer rest h
  cases p with
  | expression => exact expression_enclosed hg he hn h
  | statement => exact absurd rfl hp
  | comparison => exact comparison_enclosed hg he hn (h.mono (by decide))
  | term => exact term_enclosed hg he hn (h.mono (by decide))
  | factor => exact factor_enclosed hg he hn h

end

/-- The left operand is read by what is stronger than the operator, which stops in front of it. -/
theorem binary_pass (hg : g.Inverts n) {left right : Node} (hl : left.IsExpression)
    (hr : right.IsExpression) (op : BinaryOperator) (s : Span)
    (hn : (parenthesized left.tokens ++ op.token :: parenthesized right.tokens).length ≤ n)
    (h : EndsAt 0 mode rest) :
    Passes (Ahead mode outer
        (parenthesized left.tokens ++ op.token :: (parenthesized right.tokens ++ rest)))
      (expression g) (Node.SameTree ⟨.binary left op right, s⟩) (Ahead mode outer rest) := by
  simp only [List.length_append, List.length_cons, length_parenthesized] at hn
  have hnl : (parenthesized left.tokens).length ≤ n := by simp; omega
  have hnr : (parenthesized right.tokens).length < n := by simp; omega
  have ha : 1 < g.allowance := by have := hg.allowance; omega
  have ha' := Nat.lt_of_succ_lt ha
  have left_ends : EndsAt (op.strength + 1) mode
      (op.token :: (parenthesized right.tokens ++ rest)) := endsAt_operator op
  cases op with
  | power =>
    have chain : Passes (Ahead mode outer (parenthesized left.tokens ++ _)) (raised g (factor g))
        (Node.SameTree ⟨.binary left .power right, s⟩) (Ahead mode outer rest) :=
      chain_binary (by decide) ha (by decide) (h.mono (Nat.zero_le 4)) s
        (factor_enclosed hg hl hnl left_ends)
        (hg.enclosed right hr hnr .term (by decide) _ _ _ h)
    rw [parenthesized_append] at chain ⊢
    exact expression_of_sum ha' rfl h (sum_of_term ha' (h.mono (by decide))
      (term_of_raised ha' (h.mono (by decide)) chain))
  | multiply | divide =>
    have chain : Passes (Ahead mode outer (parenthesized left.tokens ++ _)) (term g (factor g))
        (Node.SameTree ⟨.binary left _ right, s⟩) (Ahead mode outer rest) :=
      chain_binary (by decide) ha (by decide) (h.mono (Nat.zero_le 3)) s
        (raised_enclosed hg hl hnl left_ends)
        (raised_enclosed hg hr hnr.le (h.mono (by decide)))
    rw [parenthesized_append] at chain ⊢
    exact expression_of_sum ha' rfl h (sum_of_term ha' (h.mono (by decide)) chain)
  | add | subtract =>
    have chain : Passes (Ahead mode outer (parenthesized left.tokens ++ _)) (sum g (factor g))
        (Node.SameTree ⟨.binary left _ right, s⟩) (Ahead mode outer rest) :=
      chain_binary (by decide) ha (by decide) (h.mono (Nat.zero_le 2)) s
        (term_enclosed hg hl hnl left_ends)
        (term_enclosed hg hr hnr.le (h.mono (by decide)))
    rw [parenthesized_append] at chain ⊢
    exact expression_of_sum ha' rfl h chain
  | equal | notEqual | less | lessEqual | greater | greaterEqual =>
    have chain : Passes (Ahead mode outer (parenthesized left.tokens ++ _))
        (do
          chainRest [.equal, .notEqual, .less, .lessEqual, .greater, .greaterEqual]
            (sum g (factor g)) g.allowance (← sum g (factor g)))
        (Node.SameTree ⟨.binary left _ right, s⟩) (Ahead mode outer rest) :=
      chain_binary (by decide) ha (by decide) (h.mono (Nat.zero_le 1)) s
        (sum_enclosed hg hl hnl left_ends)
        (sum_enclosed hg hr hnr.le (h.mono (by decide)))
    rw [parenthesized_append] at chain ⊢
    exact expression_of_comparison ha' h (token_ne rfl rfl)
      (.isFalse (token_ne rfl rfl) (.orExpected _ chain))
  | and | or =>
    have chain : Passes (Ahead mode outer (parenthesized left.tokens ++ _)) (logical g (factor g))
        (Node.SameTree ⟨.binary left _ right, s⟩) (Ahead mode outer rest) :=
      chain_binary (by decide) ha (by decide) h s (comparison_enclosed hg hl hnl left_ends)
        (comparison_enclosed hg hr hnr.le (h.mono (by decide)))
    rw [parenthesized_append] at chain ⊢
    exact .isFalse (token_ne rfl rfl) (.orExpected _ chain)

end

end Grammar

end TracedScript
