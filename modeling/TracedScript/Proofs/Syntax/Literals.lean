import TracedScript.Proofs.Syntax.Inverse
import TracedScript.Proofs.Syntax.Spelling

/-!
# The text of a value, read as a program

`Value.Literal` says what a literal for a value looks like as a tree. The grammar reads the tokens of
a value as such a literal, alone or inside another one; so the text of a value is a program of one
statement: `Value.Readable.program`.
-/

namespace TracedScript

open TracedScript.Cursor (Ahead)
open TracedScript.Parser (Passes)

/-- A node of the kind stands for the value: a built-in name, a literal, or a minus in front of one.
-/
inductive Value.Literal : Value → NodeKind → Prop where
  | null {trace : Trace} : Literal ⟨.null, trace⟩ (.read "Null")
  | true {trace : Trace} : Literal ⟨.bool true, trace⟩ (.read "True")
  | false {trace : Trace} : Literal ⟨.bool false, trace⟩ (.read "False")
  | int {n : Int64} {trace : Trace} : Literal ⟨.int n, trace⟩ (.int n)
  | negative {n : Int64} {trace : Trace} {operand : Node} :
    operand.kind = .int (-n) → Literal ⟨.int n, trace⟩ (.unary .minus operand)
  | str {s : String} {trace : Trace} : Literal ⟨.str s, trace⟩ (.str s)
  | array {inside : Value → Node → Prop} {items : List Value} {nodes : List Node} {trace : Trace} :
    (∀ v e, inside v e → Literal v e.kind) → List.Forall₂ inside items nodes →
    Literal ⟨.array items, trace⟩ (.array nodes)
  | tuple {inside : Value → Node → Prop} {items : List Value} {nodes : List Node} {trace : Trace} :
    (∀ v e, inside v e → Literal v e.kind) → List.Forall₂ inside items nodes →
    Literal ⟨.tuple items, trace⟩ (.tuple nodes)
  | dict {inside : Value → Node → Prop} {d : Dictionary} {nodes : List (Node × Node)}
    {trace : Trace} : (∀ v e, inside v e → Literal v e.kind) →
    List.Forall₂ (fun e b => inside e.label b.1 ∧ inside e.value b.2) d.entries nodes →
    Literal ⟨.dict d, trace⟩ (.dict nodes)

namespace Value

/-- The node is a literal for the value. -/
def Denoted (v : Value) (e : Node) : Prop := v.Literal e.kind

variable {v : Value}

theorem Literal.denoted {kind : NodeKind} {e : Node} (h : v.Literal kind) (he : e.kind = kind) :
    v.Denoted e := by
  subst he
  exact h

/-- Where a value starts an expression can start, and nothing closes there. -/
theorem Readable.tokens_start (h : v.Readable) :
    ∃ t ts, v.tokens = t :: ts ∧ t.startsExpression = true ∧ t.startsStatement = true := by
  cases h with
  | @int n _ _ =>
    simp only [tokens, Data.tokens]
    split <;> exact ⟨_, _, rfl, rfl, rfl⟩
  | @bool b => cases b <;> exact ⟨_, _, rfl, rfl, rfl⟩
  | @dict d =>
    obtain ⟨entries, index⟩ := d
    exact ⟨_, _, rfl, rfl, rfl⟩
  | null | str | array | tuple => exact ⟨_, _, rfl, rfl, rfl⟩

theorem Readable.starts (h : v.Readable) {m : Mark} (hm : m.closes = true) (hb : m ≠ .lbrace) :
    ∃ t ts, v.tokens = t :: ts ∧ t.isContent = true ∧ t ≠ .mark m := by
  obtain ⟨t, ts, ht, -, hs⟩ := h.tokens_start
  refine ⟨t, ts, ht, Token.content_of_starts hs, Token.starts_ne hs ?_⟩
  cases m with
  | lbrace => exact absurd rfl hb
  | _ => first | rfl | cases hm

end Value

namespace Grammar

/-- Values that are written with less than `n` tokens are read, and numbers behind a sign. -/
structure ReadsLiterals (g : Grammar) (n : Nat) : Prop where
  allowance : n ≤ g.allowance
  values : ∀ v : Value, v.Readable → v.tokens.length < n →
    (g.read .expression).Takes v.tokens v.Denoted MayFollow
  signed : ∀ a, 1 < n → (g.read .factor).Takes [.int a] (·.kind = .int a) MayFollow

variable {g : Grammar} {n : Nat}

/-- Items of a literal are read, and there are not too many of them. -/
theorem ReadsLiterals.items (hg : g.ReadsLiterals n) {vs : List Value}
    (h : ∀ v ∈ vs, v.Readable) (hn : (commaList (Value.tokenLists vs)).length < n) :
    (∀ v ∈ vs, (g.read .expression).Takes v.tokens v.Denoted MayFollow) ∧
      vs.length < g.allowance := by
  rw [Value.tokenLists_eq] at hn
  have nonempty (v : Value) (hv : v ∈ vs) : v.tokens ≠ [] := by
    obtain ⟨t, ts, ht, -⟩ := (h v hv).tokens_start
    rw [ht]
    exact List.cons_ne_nil t ts
  refine ⟨fun v hv => hg.values v (h v hv) ?_, ?_⟩
  · exact Nat.lt_of_le_of_lt (length_mem_commaList hv) hn
  · exact Nat.lt_of_le_of_lt (length_le_commaList nonempty) (Nat.lt_of_lt_of_le hn hg.allowance)

theorem ReadsLiterals.entries (hg : g.ReadsLiterals n) {es : List Entry}
    (hl : ∀ e ∈ es, e.label.Readable) (hv : ∀ e ∈ es, e.value.Readable)
    (hn : (commaList (Entry.tokenLists es)).length < n) :
    (∀ e ∈ es, (g.read .expression).Takes e.label.tokens e.label.Denoted MayFollow) ∧
      (∀ e ∈ es, (g.read .expression).Takes e.value.tokens e.value.Denoted MayFollow) ∧
      es.length < g.allowance := by
  rw [Entry.tokenLists_eq] at hn
  have short (e : Entry) (he : e ∈ es) : e.label.tokens.length < n ∧ e.value.tokens.length < n := by
    have := length_mem_commaList (w := Entry.tokens) he
    rw [Entry.tokens, List.length_append, List.length_cons] at this
    omega
  have few : es.length ≤ (commaList (es.map Entry.tokens)).length :=
    length_le_commaList fun e _ => by simp [Entry.tokens]
  refine ⟨fun e he => hg.values _ (hl e he) (short e he).1,
    fun e he => hg.values _ (hv e he) (short e he).2, ?_⟩
  exact Nat.lt_of_le_of_lt few (Nat.lt_of_lt_of_le hn hg.allowance)

theorem signed_pass (ha : 0 < g.allowance) (a : Int64) :
    (factor g).Takes [.int a] (·.kind = .int a) MayFollow := by
  intro mode outer rest hf
  exact factor_of_operand rfl (operand_of_atom ha hf.ends (.peek (by simp) (literal_pass rfl _)))

/-- Every value is read as a literal if the ones with fewer tokens are. -/
theorem value_pass (hg : g.ReadsLiterals n) {v : Value} (h : v.Readable)
    (hn : v.tokens.length ≤ n) : (expression g).Takes v.tokens v.Denoted MayFollow := by
  intro mode outer rest hf
  have ha : 0 < g.allowance := by
    obtain ⟨t, ts, ht, -⟩ := h.tokens_start
    have := hg.allowance
    rw [ht, List.length_cons] at hn
    omega
  have atom {t : Token} {ts : List Token} (ht : t.startsOperand = true)
      (hp : Passes (Ahead mode outer (t :: ts)) (atom g) v.Denoted (Ahead mode outer rest)) :
      Passes (Ahead mode outer (t :: ts)) (expression g) v.Denoted (Ahead mode outer rest) :=
    expression_of_operand ha ht hf.ends (operand_of_atom ha hf.ends hp)
  cases h with
  | null =>
    exact atom rfl (.peek (by simp) ((name_pass _ hf.ends).imp fun _ => Value.Literal.null.denoted))
  | @bool b =>
    cases b with
    | true =>
      exact atom rfl
        (.peek (by simp) ((name_pass _ hf.ends).imp fun _ => Value.Literal.true.denoted))
    | false =>
      exact atom rfl
        (.peek (by simp) ((name_pass _ hf.ends).imp fun _ => Value.Literal.false.denoted))
  | @int a trace =>
    simp only [Value.tokens, Data.tokens] at hn ⊢
    split at hn
    · rename_i negative
      rw [if_pos negative]
      refine expression_of_factor ha rfl hf.ends (.peek (by simp) ?_)
      refine (Passes.advance rfl).bind fun _ _ => ?_
      refine (hg.signed _ hn _ _ _ hf).bind fun e he => .pure ?_
      exact Value.Literal.denoted (.negative he) rfl
    · rename_i positive
      rw [if_neg positive]
      exact atom rfl (.peek (by simp) ((literal_pass rfl _).imp fun _ => Value.Literal.int.denoted))
  | str =>
    exact atom rfl (.peek (by simp) ((literal_pass rfl _).imp fun _ => Value.Literal.str.denoted))
  | @array items _ hi =>
    simp only [Value.tokens, Data.tokens, List.length_cons, List.length_append] at hn ⊢
    obtain ⟨taken, few⟩ := hg.items hi (by omega)
    have starts (v : Value) (hv : v ∈ items) := (hi v hv).starts (m := .rbracket) rfl (by decide)
    rw [Value.tokenLists_eq, List.cons_append, List.append_assoc]
    refine atom rfl (.peek (by simp) ((array_of_items starts taken few).imp ?_))
    rintro e ⟨found, hk, hfound⟩
    exact Value.Literal.denoted (.array (fun _ _ => id) hfound) hk
  | @tuple items _ hi =>
    have length := length_commaList_le_tupleList (Value.tokenLists items)
    simp only [Value.tokens, Data.tokens, length_parenthesized] at hn ⊢
    obtain ⟨taken, few⟩ := hg.items hi (by omega)
    have starts (v : Value) (hv : v ∈ items) := (hi v hv).starts (m := .rparen) rfl (by decide)
    rw [Value.tokenLists_eq]
    refine atom rfl (.peek (by simp) ((tuple_of_items starts taken few).imp ?_))
    rintro e ⟨found, hk, hfound⟩
    exact Value.Literal.denoted (.tuple (fun _ _ => id) hfound) hk
  | @dict d _ hl hv =>
    obtain ⟨entries, index⟩ := d
    simp only [Value.tokens, Data.tokens, length_braced] at hn ⊢
    have hl : ∀ e ∈ entries, e.label.Readable := hl
    obtain ⟨labels, values, few⟩ := hg.entries hl hv (by omega)
    have starts (e : Entry) (he : e ∈ entries) :=
      (hl e he).starts (m := .rbrace) rfl (by decide)
    rw [Entry.tokenLists_eq]
    refine atom rfl (.peek (by simp) ((dictionary_of_entries starts labels values few).imp ?_))
    rintro e ⟨found, hk, hfound⟩
    exact Value.Literal.denoted (.dict (fun _ _ => id) hfound) hk

/-- Reading to some depth reads values that are written with fewer tokens. -/
theorem readsLiterals_readTo (n allowance : Nat) (h : n ≤ allowance) :
    (⟨allowance, readTo n⟩ : Grammar).ReadsLiterals n := by
  -- an item has fewer tokens than what it is inside of, so each depth takes one token more
  induction n generalizing allowance with
  | zero => exact ⟨h, fun _ _ hn => absurd hn (Nat.not_lt_zero _), fun _ hn => by cases hn⟩
  | succ n ih =>
    have inner := ih n (Nat.le_refl n)
    constructor
    · exact h
    · exact fun v hv hn => value_pass inner hv (Nat.le_of_lt_succ hn)
    · exact fun a hn => signed_pass (Nat.lt_of_succ_lt_succ hn) a

/-- A program that consists of a value has one statement, a literal for it. -/
theorem program_of_value (hg : g.ReadsLiterals n) {v : Value} (h : v.Readable)
    (hn : v.tokens.length ≤ n) {m : Nat} (hm : 1 < m) {outer : List LineBreaks} :
    Passes (Ahead .significant outer (v.tokens ++ [.eol, .eof])) (program g m)
      (fun found => ∃ e, found = [e] ∧ v.Denoted e) (Ahead .significant outer [.eof]) := by
  obtain _ | _ | m := m
  · cases hm
  · exact absurd hm (Nat.lt_irrefl 1)
  have follow : MayFollow .significant [.eol, .eof] :=
    mayFollow_line [] Token.startsLine_eof []
  have read := value_pass hg h hn .significant outer _ follow
  obtain ⟨t, ts, ht, hexpression, hstatement⟩ := h.tokens_start
  rw [ht] at read ⊢
  have noBreak : t ≠ .eol := Token.starts_ne hstatement rfl
  have here : decide (t = .eol) ≠ true := by simpa using noBreak
  refine (Passes.skipBreaks (List.dropWhile_cons_of_neg here)).bind fun _ _ => ?_
  refine .testNo (fun h => absurd h noBreak) (Token.starts_ne hstatement rfl) ?_
  refine (statement_of_expression hexpression read).bind fun e he => ?_
  refine .isYes (by simp) (.isNo (by simp) (by simp) ?_)
  have done : Passes (Ahead .significant outer [.eol, .eof]) (program g (m + 1)) (· = [])
      (Ahead .significant outer [.eof]) :=
    (Passes.skipBreaks rfl).bind fun _ _ => .testYes (by simp) (.pure rfl)
  refine done.bind fun found hfound => .pure ⟨e, ?_, he⟩
  rw [hfound]

end Grammar

namespace Value.Readable

variable {v : Value}

theorem scan (h : v.Readable) (name : String) :
    ∃ lexemes, TracedScript.scan ⟨name, v.repr⟩ = .ok lexemes ∧
      lexemes.map (·.token) = v.tokens ++ [.eol, .eof] := by
  have gives := h.spells [] [] nofun Scan.gives_nil
  rw [List.append_nil, List.append_nil] at gives
  obtain ⟨found, hf, ht⟩ := gives ⟨name, v.repr⟩ 0 false
  rw [TracedScript.scan, Source.chars, hf]
  refine ⟨_, rfl, ?_⟩
  rw [List.map_append, ht]
  rfl

theorem parse (h : v.Readable) {lexemes : List Lexeme}
    (ht : lexemes.map (·.token) = v.tokens ++ [.eol, .eof]) :
    ∃ e, TracedScript.parse lexemes = .ok [e] ∧ v.Denoted e := by
  have size : lexemes.length = v.tokens.length + 2 := by
    have := congrArg List.length ht
    simpa using this
  have bound : 0 < lexemes.toArray.size := by
    rw [List.size_toArray]
    omega
  let c := Cursor.start lexemes.toArray bound
  have covers : (Grammar.covering c).ReadsLiterals (lexemes.length + 1) :=
    Grammar.readsLiterals_readTo _ _ (Nat.le_refl _)
  have start : c.Ahead .significant [] (v.tokens ++ [.eol, .eof]) := by
    have ahead : c.Ahead .significant [] (v.tokens ++ [.eol] ++ [.eof]) :=
      ahead_start (by simpa using ht) bound
    rwa [List.append_assoc] at ahead
  have allowance := covers.allowance
  obtain ⟨_, d, hp, ⟨e, rfl, he⟩, -⟩ :=
    Grammar.program_of_value covers h (m := (Grammar.covering c).allowance) (by omega) (by omega)
      c start
  refine ⟨e, ?_, he⟩
  rw [TracedScript.parse, dif_pos bound]
  show ((Grammar.program _ _).run c).1 = _
  rw [Parser.run, hp]

/-- The text of a value is a program of one statement, which is a literal for the value. -/
theorem program (h : v.Readable) (name : String) :
    ∃ e, (Source.mk name (Text.normalize v.repr)).program = .ok [e] ∧ v.Denoted e := by
  obtain ⟨lexemes, hs, ht⟩ := h.scan name
  rw [h.oneLine.normalize, Source.program, hs]
  exact h.parse ht

end Value.Readable

end TracedScript
