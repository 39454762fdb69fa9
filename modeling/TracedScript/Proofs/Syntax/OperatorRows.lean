import TracedScript.Proofs.Syntax.Grouping
import TracedScript.Proofs.Syntax.Onward
import TracedScript.Proofs.Syntax.PhraseVerdicts

/-!
# Rows of operators are read as they group

The parsers for the strengths of operators call each other down to `^`, to the right of which a
whole term is read again. Each reads the longest part of a row that has no operator weaker than its
own, and gives its tree: `ReadsRows`. The allowance does not matter, as no phrase uses it up. Main
statement: `logical_groups_operators`.
-/

namespace TracedScript.Grammar

open TracedScript.Parser (Walks Onward AnyToken)

/-- Between the cursors stand operators, each with an operand behind it. -/
inductive OperationsAhead (factor : Parser Node) : Cursor → Operations → Cursor → Prop where
  | none {c : Cursor} : OperationsAhead factor c [] c
  | next {c m d : Cursor} {op : BinaryOperator} {e : Node} {rest : Operations} :
    operator? c.token = some op → factor c.advance = (.ok e, m) →
    OperationsAhead factor m rest d → OperationsAhead factor c ((op, e) :: rest) d

/-- Between the cursors stand an operand and operators with operands behind it. -/
def RowAhead (factor : Parser Node) (c : Cursor) (e : Node) (rest : Operations) (d : Cursor) :
    Prop :=
  ∃ m, factor c = (.ok e, m) ∧ OperationsAhead factor m rest d

/-- The operator at the cursor, if there is one, is weaker. -/
def EndsRow (strength : Nat) (c : Cursor) : Prop :=
  ∀ op, operator? c.token = some op → op.strength < strength

theorem OperationsAhead.split {factor : Parser Node} {c d : Cursor} {xs ys : Operations}
    (h : OperationsAhead factor c (xs ++ ys) d) :
    ∃ k, OperationsAhead factor c xs k ∧ OperationsAhead factor k ys d := by
  induction xs generalizing c with
  | nil => exact ⟨c, .none, h⟩
  | cons o xs ih =>
    cases h with
    | next hop hf rest =>
      obtain ⟨k, first, second⟩ := ih rest
      exact ⟨k, .next hop hf first, second⟩

/-! ## Operands -/

section

variable {g : Grammar} {c d : Cursor} {e : Node}

theorem factor_int {v : Int64} (ha : 0 < g.allowance) (hc : c.token = .int v)
    (hcall : c.advance.token ≠ .mark .lparen) (hindex : c.advance.token ≠ .mark .lbracket)
    (hmember : c.advance.token ≠ .mark .period) :
    factor g c = (.ok ⟨.int v, c.span⟩, c.advance) := by
  refine factor_atom ha (by simp [hc]) (by simp [hc]) hcall hindex hmember ?_
  rw [atom, Parser.peek_bind_apply, hc]
  rfl

theorem factor_name {name : String} (ha : 0 < g.allowance) (hc : c.token = .identifier name)
    (hcall : c.advance.token ≠ .mark .lparen) (hindex : c.advance.token ≠ .mark .lbracket)
    (hmember : c.advance.token ≠ .mark .period) (hvalue : c.advance.token ≠ .mark .equals) :
    factor g c = (.ok ⟨.read name, c.span⟩, c.advance) :=
  factor_atom ha (by simp [hc]) (by simp [hc]) hcall hindex hmember (atom_name hc hvalue)

theorem factor_minus (hc : c.token = .mark .minus)
    (hf : g.read .factor c.advance = (.ok e, d)) :
    factor g c = (.ok (unaryNode .minus c.span e), d) := by
  rw [factor, Parser.peek_bind_apply, hc]
  dsimp only
  rw [Parser.advance_bind_apply, Parser.bind_of_ok hf]
  rfl

end

/-! ## One step of a chain -/

section

variable {ops : List BinaryOperator} {operand : Parser Node} {n : Nat} {left right : Node}
  {c m : Cursor} {op : BinaryOperator}

theorem chainRest_stops (hn : 0 < n) (h : ∀ op, operator? c.token = some op → op ∉ ops) :
    chainRest ops operand n left c = (.ok left, c) := by
  obtain ⟨n, rfl⟩ : ∃ k, n = k + 1 := ⟨n - 1, by omega⟩
  exact chainRest_still fun op hmem hop => h op hop hmem

theorem chainRest_next (hn : 0 < n) (hop : operator? c.token = some op) (hmem : op ∈ ops)
    (hr : operand c.advance = (.ok right, m)) :
    chainRest ops operand n left c =
      chainRest ops operand (n - 1) (binaryNode left op right) m := by
  obtain ⟨n, rfl⟩ : ∃ k, n = k + 1 := ⟨n - 1, by omega⟩
  rw [chainRest, Parser.peek_bind_apply, Nat.add_sub_cancel]
  simp only [hop, if_pos hmem]
  rw [Parser.advance_bind_apply, Parser.bind_of_ok hr]

end

/-! ## What is ahead of a clear cursor -/

/-- The grammar with the given allowance. -/
abbrev upTo (n : Nat) : Grammar := ⟨n, readTo n⟩

section

variable {lexemes : Array Lexeme} (ends : EndsProgram lexemes) {n : Nat} (hn : lexemes.size < n)
  {b : Brackets} {i : Nat} {c d m : Cursor} {e : Node} {rest : Operations}
include ends hn

theorem readTo_stable {k : Nat} (hk : lexemes.size < k) (hc : c.Stands lexemes b i) (ph : Phrase) :
    readTo n ph c = readTo k ph c := by
  have here := hc.widen (Nat.zero_le i)
  have small := (onward_readTo ends (i := 0) hn hn ph 0 (Nat.le_refl 0) c here trivial).1
  have large := (onward_readTo ends (i := 0) hk hn ph 0 (Nat.le_refl 0) c here trivial).1
  exact small.symm.trans large

/-- To the right of `^` stands a term like any other. -/
theorem read_term (hc : c.Stands lexemes b i) :
    (upTo n).read .term c = term (upTo n) (factor (upTo n)) c :=
  readTo_stable ends hn (Nat.lt_succ_of_lt hn) hc .term

theorem stands_factor (hc : c.Stands lexemes b i) (hf : factor (upTo n) c = (.ok e, m)) :
    m.Stands lexemes b (i + 1) := by
  have enough := suffices_readTo ends hn hn (i + 1)
  have lands := (onward_factor ends enough i (Nat.le_refl i) c hc trivial).2
  rw [hf] at lands
  exact lands

omit hn in
theorem stands_operator {op : BinaryOperator} (hc : c.Stands lexemes b i)
    (hop : operator? c.token = some op) : c.advance.Stands lexemes b (i + 1) :=
  hc.advance_lt ends (ne_eof_of_operator hop)

theorem OperationsAhead.stands (h : OperationsAhead (factor (upTo n)) c rest d)
    (hc : c.Stands lexemes b i) : d.Stands lexemes b (i + rest.length) := by
  induction h generalizing i with
  | none => exact hc
  | next hop hf _ ih =>
    have behind := stands_factor ends hn (stands_operator ends hc hop) hf
    exact (ih behind).widen (by simp only [List.length_cons]; omega)

theorem OperationsAhead.length_lt (h : OperationsAhead (factor (upTo n)) c rest d)
    (hc : c.Stands lexemes b i) : rest.length < n := by
  have := (h.stands ends hn hc).lt
  omega

end

/-! ## Chains of one strength -/

/-- Reads every row without operators weaker than the given strength, as its tree. -/
def ReadsRows (lexemes : Array Lexeme) (n : Nat) (p : Parser Node) (strength : Nat) : Prop :=
  ∀ {b : Brackets} {c d : Cursor} {e : Node} {rest : Operations}, c.Stands lexemes b 0 →
    RowAhead (factor (upTo n)) c e rest d → (∀ o ∈ rest, strength ≤ o.1.strength) →
    EndsRow strength d → p c = (.ok (Grouping.ofRow e rest).node, d)

section

variable {lexemes : Array Lexeme} (ends : EndsProgram lexemes) {n : Nat} (hn : lexemes.size < n)
  {ops : List BinaryOperator} {lower : Parser Node} {s : Nat} {b : Brackets} {c d m : Cursor}
  {e : Node} {rest : Operations}
include ends hn

omit ends hn in
/-- The part of a row up to the first operator of the weakest strength. -/
theorem exists_stronger (h : ∀ o ∈ rest, s ≤ o.1.strength) :
    ∃ run later, rest = run ++ later ∧ (∀ o ∈ run, s + 1 ≤ o.1.strength) ∧
      ∀ o ∈ later.head?, o.1.strength = s := by
  let stronger (o : BinaryOperator × Node) : Bool := decide (s < o.1.strength)
  refine ⟨rest.takeWhile stronger, rest.dropWhile stronger,
    (List.takeWhile_append_dropWhile ..).symm, fun o ho => ?_, fun o ho => ?_⟩
  · exact Nat.succ_le_of_lt (by simpa [stronger] using List.mem_takeWhile_imp ho)
  · have weak := List.head?_dropWhile_not stronger rest
    rw [Option.mem_def.mp ho] at weak
    have listed := (List.dropWhile_sublist stronger).subset (List.mem_of_head? ho)
    have := h o listed
    simp [stronger] at weak
    omega

omit ends hn in
theorem OperationsAhead.endsRow {factor : Parser Node} (h : OperationsAhead factor c rest d)
    (first : ∀ o ∈ rest.head?, o.1.strength = s) (stop : EndsRow s d) : EndsRow (s + 1) c := by
  intro op hop
  cases h with
  | none => exact Nat.lt_succ_of_lt (stop op hop)
  | next hop' _ _ =>
    cases hop.symm.trans hop'
    exact Nat.lt_succ_of_le (Nat.le_of_eq (first _ rfl))

/-- The parts between the operators of one strength are read one by one. What has been read is
always the tree of the row up to there. -/
theorem chainRest_reads (hs : s ≤ 2) (hops : ∀ op, op ∈ ops ↔ op.strength = s)
    (hl : ReadsRows lexemes n lower (s + 1)) {k : Nat} {before : Operations}
    (hm : m.Stands lexemes b 0) (ahead : OperationsAhead (factor (upTo n)) m rest d)
    (hk : rest.length < k) (hb : ∀ o ∈ before, s ≤ o.1.strength)
    (hr : ∀ o ∈ rest, s ≤ o.1.strength) (first : ∀ o ∈ rest.head?, o.1.strength = s)
    (stop : EndsRow s d) :
    chainRest ops lower k (Grouping.ofRow e before).node m =
      (.ok (Grouping.ofRow e (before ++ rest)).node, d) := by
  induction k generalizing rest before m with
  | zero => cases hk
  | succ k ih =>
    cases ahead with
    | none =>
      rw [List.append_nil]
      refine chainRest_stops (Nat.succ_pos k) fun op hop hmem => ?_
      have weaker := stop op hop
      have equal := (hops op).mp hmem
      omega
    | @next _ m' _ op e' rest hop hf ahead =>
      obtain ⟨here, hr⟩ := List.forall_mem_cons.mp hr
      have strength : op.strength = s := first (op, e') rfl
      obtain ⟨run, later, rfl, stronger, head⟩ := exists_stronger hr
      obtain ⟨k', inner, behind⟩ := ahead.split
      have right : m.advance.Stands lexemes b 1 := stands_operator ends hm hop
      have read := hl (right.widen (Nat.zero_le 1)) ⟨m', hf, inner⟩ stronger
        (behind.endsRow head stop)
      have grouped : binaryNode (Grouping.ofRow e before).node op (Grouping.ofRow e' run).node =
          (Grouping.ofRow e (before ++ (op, e') :: run)).node := by
        rw [Grouping.ofRow_weakest (by omega) (by rwa [strength]) (by rwa [strength])]
        rfl
      rw [chainRest_next (by omega) hop ((hops op).mpr strength) read, grouped,
        Nat.add_sub_cancel]
      have next := stands_factor ends hn right hf
      have whole : ∀ o ∈ before ++ (op, e') :: run, s ≤ o.1.strength := by
        simp only [List.mem_append, List.mem_cons]
        rintro o (ho | rfl | ho)
        · exact hb o ho
        · exact here
        · exact Nat.le_of_succ_le (stronger o ho)
      have rejoined : before ++ (op, e') :: (run ++ later) =
          before ++ (op, e') :: run ++ later := by simp
      rw [rejoined]
      refine ih ((inner.stands ends hn next).widen (Nat.zero_le _)) behind ?_ whole
        (fun o ho => hr o (List.mem_append_right _ ho)) head
      simp only [List.length_cons, List.length_append] at hk
      omega

theorem readsRows_chain (hs : s ≤ 2) (hops : ∀ op, op ∈ ops ↔ op.strength = s)
    (hl : ReadsRows lexemes n lower (s + 1)) :
    ReadsRows lexemes n (do chainRest ops lower n (← lower)) s := by
  intro b c d e rest hc ⟨m, hf, ahead⟩ hr stop
  obtain ⟨run, later, rfl, stronger, head⟩ := exists_stronger hr
  obtain ⟨k, inner, behind⟩ := ahead.split
  have first := hl hc ⟨m, hf, inner⟩ stronger (behind.endsRow head stop)
  have next := inner.stands ends hn (stands_factor ends hn hc hf)
  rw [Parser.bind_of_ok first]
  refine chainRest_reads ends hn hs hops hl (next.widen (Nat.zero_le _)) behind ?_ ?_ ?_ head stop
  · exact behind.length_lt ends hn next
  · exact fun o ho => Nat.le_of_succ_le (stronger o ho)
  · exact fun o ho => hr o (List.mem_append_right _ ho)

end

/-! ## Terms -/

section

variable {lexemes : Array Lexeme} {n : Nat} {b : Brackets} {c d m : Cursor} {e : Node}
  {rest before : Operations}

/-- An operand without `^` behind it. -/
theorem raised_alone (hn : 0 < n) (hf : factor (upTo n) c = (.ok e, m))
    (stop : operator? m.token ≠ some .power) :
    raised (upTo n) (factor (upTo n)) c = (.ok e, m) := by
  rw [raised, Parser.bind_of_ok hf]
  refine chainRest_stops hn fun op hop hmem => ?_
  obtain rfl := List.mem_singleton.mp hmem
  exact stop hop

/-- No `^` is ahead where none is in the row nor behind it. -/
theorem OperationsAhead.no_power {factor : Parser Node} (h : OperationsAhead factor c rest d)
    (hr : ∀ o ∈ rest.head?, o.1 ≠ .power) (stop : operator? d.token ≠ some .power) :
    operator? c.token ≠ some .power := by
  intro hop
  cases h with
  | none => exact stop hop
  | next hop' _ _ =>
    cases hop.symm.trans hop'
    exact hr _ rfl rfl

theorem mem_product_iff {op : BinaryOperator} :
    op ∈ [BinaryOperator.multiply, .divide] ↔ 3 ≤ op.strength ∧ op ≠ .power := by
  cases op <;> decide

theorem exists_first_power (rest : Operations) : (∀ o ∈ rest, o.1 ≠ .power) ∨
    ∃ before e behind, rest = before ++ (.power, e) :: behind ∧ ∀ o ∈ before, o.1 ≠ .power := by
  induction rest with
  | nil => exact .inl (List.forall_mem_nil _)
  | cons o rest ih =>
    by_cases ho : o.1 = .power
    · obtain ⟨op, e⟩ := o
      obtain rfl : op = .power := ho
      exact .inr ⟨[], e, rest, rfl, List.forall_mem_nil _⟩
    · obtain none | ⟨before, e, behind, rfl, none⟩ := ih
      · exact .inl (List.forall_mem_cons.mpr ⟨ho, none⟩)
      · exact .inr ⟨o :: before, e, behind, rfl, List.forall_mem_cons.mpr ⟨ho, none⟩⟩

variable (ends : EndsProgram lexemes) (hn : lexemes.size < n)
include ends hn

/-- An operand with `^` behind it takes a whole term as its exponent. -/
theorem raised_power {t : Node} (hc : c.Stands lexemes b 0) (hf : factor (upTo n) c = (.ok e, m))
    (hop : operator? m.token = some .power)
    (ht : term (upTo n) (factor (upTo n)) m.advance = (.ok t, d))
    (stop : operator? d.token ≠ some .power) :
    raised (upTo n) (factor (upTo n)) c = (.ok (binaryNode e .power t), d) := by
  have room : 1 < (upTo n).allowance := Nat.lt_of_le_of_lt hc.lt hn
  have next := stands_operator ends (stands_factor ends hn hc hf) hop
  have exponent := (read_term ends hn next).trans ht
  rw [raised, Parser.bind_of_ok hf,
    chainRest_next (by omega) hop (List.mem_singleton_self _) exponent]
  refine chainRest_stops (by omega) fun op hop hmem => ?_
  obtain rfl := List.mem_singleton.mp hmem
  exact stop hop

/-- Products without `^` are grouped one by one. -/
theorem chainRest_leftward (hm : m.Stands lexemes b 0)
    (ahead : OperationsAhead (factor (upTo n)) m before d)
    (hb : ∀ o ∈ before, o.1 ∈ [BinaryOperator.multiply, .divide])
    (stop : operator? d.token ≠ some .power) (left : Grouping) {k : Nat}
    (hk : before.length ≤ k) :
    chainRest [.multiply, .divide] (raised (upTo n) (factor (upTo n))) k left.node m =
      chainRest [.multiply, .divide] (raised (upTo n) (factor (upTo n))) (k - before.length)
        (Grouping.leftward left before).node d := by
  induction ahead generalizing left k with
  | none => rfl
  | @next c m' d op e rest hop hf ahead ih =>
    obtain ⟨here, later⟩ := List.forall_mem_cons.mp hb
    rw [List.length_cons] at hk
    have next := stands_factor ends hn (stands_operator ends hm hop) hf
    have noPower : operator? m'.token ≠ some .power :=
      ahead.no_power (fun o ho => (mem_product_iff.mp (later o (List.mem_of_head? ho))).2) stop
    have right := raised_alone (by omega) hf noPower
    rw [chainRest_next (by omega) hop here right, List.length_cons, Nat.add_comm, ← Nat.sub_sub]
    exact ih (next.widen (Nat.zero_le _)) later stop (.operation left op (.operand e)) (by omega)

/-- A term starts with an operand and products. -/
theorem term_leftward (hc : c.Stands lexemes b 0) (hf : factor (upTo n) c = (.ok e, m))
    (ahead : OperationsAhead (factor (upTo n)) m before d)
    (hb : ∀ o ∈ before, o.1 ∈ [BinaryOperator.multiply, .divide])
    (stop : operator? d.token ≠ some .power) :
    term (upTo n) (factor (upTo n)) c =
      chainRest [.multiply, .divide] (raised (upTo n) (factor (upTo n))) (n - before.length)
        (Grouping.leftward (.operand e) before).node d := by
  have next := (stands_factor ends hn hc hf).widen (Nat.zero_le _)
  have room : before.length < (upTo n).allowance := ahead.length_lt ends hn next
  have noPower := ahead.no_power (fun o ho => (mem_product_iff.mp (hb o (List.mem_of_head? ho))).2)
    stop
  rw [term, Parser.bind_of_ok (raised_alone (by omega) hf noPower)]
  exact chainRest_leftward ends hn next ahead hb stop (.operand e) (by omega)

omit ends hn in
/-- Nothing is left that belongs to a term. -/
theorem EndsRow.no_product (stop : EndsRow 3 c) :
    ∀ op, operator? c.token = some op → op ∉ [BinaryOperator.multiply, .divide] :=
  fun op hop hmem => Nat.not_lt.mpr (mem_product_iff.mp hmem).1 (stop op hop)

omit ends hn in
theorem EndsRow.no_power (stop : EndsRow 3 c) : operator? c.token ≠ some .power :=
  fun hop => absurd (stop _ hop) (by decide)

/-- At the first `^` the operand before it takes the term behind it as its exponent. -/
theorem term_leftwardRaised {k : Cursor} {t : Grouping} (hc : c.Stands lexemes b 0)
    (hf : factor (upTo n) c = (.ok e, m)) (ahead : OperationsAhead (factor (upTo n)) m before k)
    (hb : ∀ o ∈ before, o.1 ∈ [BinaryOperator.multiply, .divide])
    (hop : operator? k.token = some .power)
    (ht : term (upTo n) (factor (upTo n)) k.advance = (.ok t.node, d)) (stop : EndsRow 3 d) :
    term (upTo n) (factor (upTo n)) c = (.ok (Grouping.leftwardRaised e before t).node, d) := by
  have next := (stands_factor ends hn hc hf).widen (Nat.zero_le _)
  obtain rfl | ⟨first, ⟨op, base⟩, rfl⟩ := before.eq_nil_or_concat'
  · cases ahead with
    | none =>
      rw [term, Parser.bind_of_ok (raised_power ends hn hc hf hop ht stop.no_power)]
      exact chainRest_stops (Nat.zero_lt_of_lt hn) stop.no_product
  · obtain ⟨hb, last⟩ := List.forall_mem_append.mp hb
    obtain ⟨last, -⟩ := List.forall_mem_cons.mp last
    have room := ahead.length_lt ends hn next
    rw [List.length_append, List.length_singleton] at room
    obtain ⟨k', ahead, tail⟩ := ahead.split
    cases tail with
    | next hlast hbase tail =>
      cases tail
      have right := (stands_operator ends (ahead.stands ends hn next) hlast).widen (Nat.zero_le _)
      have power := raised_power ends hn right hbase hop ht stop.no_power
      have notYet : operator? k'.token ≠ some .power := by
        rw [hlast, Ne, Option.some.injEq]
        exact (mem_product_iff.mp last).2
      rw [term_leftward ends hn hc hf ahead hb notYet,
        chainRest_next (by omega) hlast last power, Grouping.leftwardRaised_concat]
      exact chainRest_stops (by omega) stop.no_product

/-- Split at the first `^`: what is behind it is a shorter row. -/
theorem readsRows_term : ReadsRows lexemes n (term (upTo n) (factor (upTo n))) 3 := by
  intro b c d e rest hc ⟨m, hf, ahead⟩ hr stop
  induction hl : rest.length using Nat.strong_induction_on generalizing b c e rest m with
  | _ length ih =>
    have next := (stands_factor ends hn hc hf).widen (Nat.zero_le _)
    obtain none | ⟨before, e', behind, rfl, none⟩ := exists_first_power rest
    · have products : ∀ o ∈ rest, o.1 ∈ [BinaryOperator.multiply, .divide] :=
        fun o ho => mem_product_iff.mpr ⟨hr o ho, none o ho⟩
      have room := ahead.length_lt ends hn next
      rw [term_leftward ends hn hc hf ahead products stop.no_power,
        Grouping.ofRow_leftward hr none]
      exact chainRest_stops (by omega) stop.no_product
    · have products : ∀ o ∈ before, o.1 ∈ [BinaryOperator.multiply, .divide] :=
        fun o ho => mem_product_iff.mpr ⟨hr o (List.mem_append_left _ ho), none o ho⟩
      obtain ⟨k, ahead, tail⟩ := ahead.split
      cases tail with
      | next hop hf' tail =>
        have right := (stands_operator ends (ahead.stands ends hn next) hop).widen (Nat.zero_le _)
        have exponent := ih behind.length (by simp [← hl]; omega) right _ hf' tail
          (fun o ho => hr o (by simp [ho])) rfl
        rw [Grouping.ofRow_power hr none]
        exact term_leftwardRaised ends hn hc hf ahead products hop exponent stop

/-! ## Sums, comparisons and what connects them -/

theorem readsRows_sum : ReadsRows lexemes n (sum (upTo n) (factor (upTo n))) 2 :=
  readsRows_chain ends hn (Nat.le_refl 2) (fun op => by cases op <;> decide)
    (readsRows_term ends hn)

omit ends hn in
/-- No operand starts with `not`. -/
theorem token_ne_not {g : Grammar} (hf : factor g c = (.ok e, m)) : c.token ≠ .keyword .not := by
  intro ht
  rw [factor, Parser.peek_bind_apply, ht] at hf
  obtain ⟨_, _, hf, -⟩ := Parser.exists_of_bind hf
  rw [atom, Parser.peek_bind_apply, ht] at hf
  cases hf

theorem readsRows_comparison : ReadsRows lexemes n (comparison (upTo n) (factor (upTo n))) 1 := by
  intro b c d e rest hc row hr stop
  have operators (op : BinaryOperator) : op ∈ [BinaryOperator.equal, .notEqual, .less, .lessEqual,
      .greater, .greaterEqual] ↔ op.strength = 1 := by cases op <;> decide
  have chain := readsRows_chain ends hn (by decide) operators (readsRows_sum ends hn) hc row hr stop
  obtain ⟨m, hf, -⟩ := row
  rw [comparison, Parser.isKeyword, Parser.is_bind_apply, decide_eq_false (token_ne_not hf)]
  show Parser.orExpected _ _ c = _
  rw [Parser.orExpected_apply, chain]

theorem readsRows_logical : ReadsRows lexemes n (logical (upTo n) (factor (upTo n))) 0 :=
  readsRows_chain ends hn (Nat.zero_le 2) (fun op => by cases op <;> decide)
    (readsRows_comparison ends hn)

end

/-- Let an operand stand at a clear cursor, then operators with operands behind them, and then a
token that is no operator. Exactly these are read, and the result is their tree: split at the last
`and` or `or`, else at the last comparison, else at the last `+` or `-`, else with what is behind
the first `^` as the exponent of the operand before it, and the rest grouped to the left. The tree
has the operands and operators in their order. -/
theorem logical_groups_operators {c d : Cursor} {e : Node} {rest : Operations}
    (ends : EndsProgram c.lexemes) (clear : c.Clear)
    (row : RowAhead (factor (covering c)) c e rest d) (stop : operator? d.token = none) :
    logical (covering c) (factor (covering c)) c = (.ok (Grouping.ofRow e rest).node, d) ∧
      (Grouping.ofRow e rest).listed = (e, rest) := by
  refine ⟨?_, Grouping.listed_ofRow e rest⟩
  refine readsRows_logical ends (Nat.lt_succ_self _) ((Cursor.Stands.self clear).widen
    (Nat.zero_le _)) row (fun o _ => Nat.zero_le _) fun op hop => ?_
  cases stop.symm.trans hop

/-- The tokens of `a - -b ^ 2 * c or d`. -/
def mixedRow : Array Lexeme :=
  ([.identifier "a", .mark .minus, .mark .minus, .identifier "b", .mark .caret, .int 2, .mark .star,
    .identifier "c", .keyword .or, .identifier "d", .eol, .eof].map (⟨·, default⟩)).toArray

/-- The tree is split at `or` and then at `-`; the exponent of `^` takes in the product. -/
theorem mixed_row_grouped :
    let c := Cursor.start mixedRow (by decide)
    let name (s : String) : Node := ⟨.read s, default⟩
    let negated : Node := unaryNode .minus default (name "b")
    let two : Node := ⟨.int 2, default⟩
    let product : Grouping := .operation (.operand two) .multiply (.operand (name "c"))
    let power : Grouping := .operation (.operand negated) .power product
    let difference : Grouping := .operation (.operand (name "a")) .subtract power
    let whole : Grouping := .operation difference .or (.operand (name "d"))
    ∃ d, d.token = .eol ∧
      logical (covering c) (factor (covering c)) c = (.ok whole.node, d) := by
  intro c name negated two product power difference whole
  let stop (i : Nat) : Cursor := ⟨mixedRow, by decide, i, .significant, []⟩
  let g := covering c
  have room : 0 < g.allowance := by decide
  have first : factor g (stop 0) = (.ok (name "a"), stop 1) :=
    factor_name room rfl nofun nofun nofun nofun
  have unsigned : g.read .factor (stop 3) = (.ok (name "b"), stop 4) :=
    factor_name (g := upTo mixedRow.size) (by decide) rfl nofun nofun nofun nofun
  have signed : factor g (stop 2) = (.ok negated, stop 4) := factor_minus rfl unsigned
  have second : factor g (stop 5) = (.ok two, stop 6) := factor_int room rfl nofun nofun nofun
  have third : factor g (stop 7) = (.ok (name "c"), stop 8) :=
    factor_name room rfl nofun nofun nofun nofun
  have last : factor g (stop 9) = (.ok (name "d"), stop 10) :=
    factor_name room rfl nofun nofun nofun nofun
  let inside : Operations := [(.subtract, negated), (.power, two), (.multiply, name "c")]
  have row : RowAhead (factor g) c (name "a") (inside ++ [(.or, name "d")]) (stop 10) :=
    ⟨stop 1, first, .next rfl signed (.next rfl second (.next rfl third (.next rfl last .none)))⟩
  have clear : c.Clear := ⟨by decide, nofun⟩
  have grouped := (logical_groups_operators (by decide) clear row rfl).1
  have products : Grouping.ofRow two [(.multiply, name "c")] = product :=
    Grouping.ofRow_leftward (by decide) (by decide)
  have powers : Grouping.ofRow negated ([] ++ (.power, two) :: [(.multiply, name "c")]) = power := by
    rw [Grouping.ofRow_power (by decide) (List.forall_mem_nil _), products]
    rfl
  have differences : Grouping.ofRow (name "a") inside = difference := by
    have split : Grouping.ofRow (name "a") ([] ++ (.subtract, negated) :: inside.tail) = _ :=
      Grouping.ofRow_weakest (by decide) (List.forall_mem_nil _) (by decide)
    exact split.trans (congrArg₂ (Grouping.operation · .subtract ·) (Grouping.ofRow_nil _) powers)
  rw [Grouping.ofRow_weakest (by decide) (by decide) (List.forall_mem_nil _), differences,
    Grouping.ofRow_nil] at grouped
  exact ⟨stop 10, rfl, grouped⟩

end TracedScript.Grammar
