import TracedScript.Proofs.Syntax.Bodies

/-!
# Reading what was written

The grammar reads a tree that was written as tokens back, up to spans: `parse_written`. The proof
follows the grammar, with one lemma for each construct; that what is inside a construct is read back
is an induction over the number of its tokens.
-/

namespace TracedScript

open TracedScript.Cursor (Ahead)
open TracedScript.Parser (Passes)

namespace Grammar

variable {g : Grammar} {n m : Nat} {mode : LineBreaks} {outer : List LineBreaks}
  {ts rest : List Token} {s : Span}

/-! ## Argument lists -/

theorem positional_pass (hg : g.Inverts n) {e : Node} (he : e.IsExpression)
    (hn : (parenthesized e.tokens).length < n) (acc : Arguments) {k : Mark}
    (hk : k.closes = true) :
    Passes (Ahead mode outer (parenthesized e.tokens ++ .mark k :: rest)) (argument g acc)
      (fun r => ∃ e', e.SameTree e' ∧ r = (acc.1 ++ [e'], acc.2))
      (Ahead mode outer (.mark k :: rest)) := by
  refine .cursor fun c hc => ?_
  have start : namedStart? c = none := by
    rw [parenthesized_append] at hc
    rw [namedStart?, hc.token (by simp)]
  rw [start]
  refine Passes.bind ((hg.child_mark he hn hk).weaken ?_) fun e' h => .pure ⟨e', h, rfl⟩
  rintro _ rfl
  exact hc

theorem named_pass (hg : g.Inverts n) {a : NamedArgument} (ha : a.value.IsExpression)
    (hn : (parenthesized a.value.tokens).length < n) (acc : Arguments) {k : Mark}
    (hk : k.closes = true) :
    Passes (Ahead mode outer
        (.identifier a.name :: .mark .equals :: (parenthesized a.value.tokens ++ .mark k :: rest)))
      (argument g acc)
      (fun r => ∃ a', NamedArgument.Alike Node.SameTree (fun _ _ => True) a a' ∧
        r = (acc.1, acc.2 ++ [a'])) (Ahead mode outer (.mark k :: rest)) := by
  refine .cursor fun c hc => ?_
  have next := hc.advance rfl
  have start : namedStart? c = some (a.name, c.span, c.advance.advance) := by
    rw [namedStart?, hc.token (by simp)]
    dsimp only
    rw [next.token (by simp), if_pos rfl]
  rw [start]
  refine (Passes.set c c.advance.advance).bind fun _ _ => ?_
  refine Passes.bind ((hg.child_mark ha hn hk).weaken ?_) fun v h =>
    .pure ⟨⟨a.name, v, _⟩, ⟨rfl, h, trivial⟩, rfl⟩
  rintro _ rfl
  exact next.advance rfl

theorem namedTokens_eq (named : List NamedArgument) : namedTokens named =
    named.map fun a => .identifier a.name :: .mark .equals :: parenthesized a.value.tokens := by
  induction named with
  | nil => rfl
  | cons a as ih =>
    obtain ⟨name, value, span⟩ := a
    rw [namedTokens, ih, List.map_cons]

/-- How an argument is written, positional or named. -/
def argumentItem : Node ⊕ NamedArgument → List Token
  | .inl e => parenthesized e.tokens
  | .inr a => .identifier a.name :: .mark .equals :: parenthesized a.value.tokens

theorem arguments_pass (hg : g.Inverts n) {list : ArgumentList}
    (hl : ∀ c ∈ list.children, c.IsExpression) (hn : (argumentTokens [list]).length ≤ n) :
    Passes (Ahead mode outer (argumentTokens [list] ++ rest)) (arguments g)
      (ArgumentList.Alike Node.SameTree (fun _ _ => True) list) (Ahead mode outer rest) := by
  obtain ⟨positional, named, span⟩ := list
  obtain ⟨hp, ha⟩ := List.forall_mem_append.mp hl
  have written : operandTokens positional ++ namedTokens named =
      (bothKinds positional named).map argumentItem := by
    simp [operandTokens_eq, namedTokens_eq, bothKinds, argumentItem, Function.comp_def]
  rw [argumentTokens, argumentTokens, List.append_nil, length_parenthesized, written] at hn
  rw [argumentTokens, argumentTokens, List.append_nil, parenthesized_append, written]
  have few := hg.allowance
  refine (Passes.enter _).bind fun _ _ => ?_
  have collects : Passes
      (Ahead .ignored (mode :: outer)
        (commaList ((bothKinds positional named).map argumentItem) ++ .mark .rparen :: rest))
      (Parser.commaSeparated (argument g) .rparen g.allowance ([], []))
      (fun r => List.Forall₂ Node.SameTree positional r.1.1 ∧
        List.Forall₂ (NamedArgument.Alike Node.SameTree fun _ _ => True) named r.1.2)
      (Ahead .ignored (mode :: outer) (.mark .rparen :: rest)) := by
    refine twoKinds_pass (fun x => ?_) (by omega) ?_ ?_
    · cases x <;> exact ⟨_, _, rfl, rfl, by simp⟩
    · intro e hm short acc k ts _ hk
      have closes : k.closes = true := by obtain rfl | rfl := hk <;> rfl
      rw [argumentItem] at short
      exact positional_pass hg (hp e hm) (by omega) acc closes
    · intro a hm short acc k ts hk
      rw [argumentItem, List.length_cons, List.length_cons] at short
      exact named_pass hg (ha _ (List.mem_map_of_mem hm)) (by omega) acc hk
  refine collects.bind ?_
  rintro ⟨⟨positional', named'⟩, comma⟩ ⟨hpositional, hnamed⟩
  exact (Passes.leave _ _).bind fun _ _ => .pure ⟨hpositional, hnamed, trivial⟩

/-! ## Calls, indices and attributes -/

/-- One step for what is behind an expression in parentheses, and one to stop. -/
theorem two_steps (hg : g.Inverts n) {e : Node} (hn : (parenthesized e.tokens).length ≤ n) :
    ∃ m, g.allowance = m + 2 := by
  have := hg.allowance
  rw [length_parenthesized] at hn
  exact ⟨g.allowance - 2, by omega⟩

theorem argumentTokens_cons (list : ArgumentList) (lists : List ArgumentList) :
    ∃ ts, argumentTokens [list] = parenthesized ts ∧
      argumentTokens (list :: lists) = parenthesized ts ++ argumentTokens lists := by
  obtain ⟨positional, named, span⟩ := list
  exact ⟨_, List.append_nil _, rfl⟩

theorem length_le_argumentTokens (lists : List ArgumentList) :
    lists.length ≤ (argumentTokens lists).length := by
  induction lists with
  | nil => exact Nat.zero_le _
  | cons list lists ih =>
    obtain ⟨ts, -, h⟩ := argumentTokens_cons list lists
    rw [h, List.length_append, length_parenthesized, List.length_cons]
    omega

theorem nextList_pass (hg : g.Inverts n) {list : ArgumentList} {lists : List ArgumentList}
    (hl : ∀ c ∈ list.children, c.IsExpression) (hn : (argumentTokens (list :: lists)).length ≤ n)
    {node : Node} {chaining : Bool} {r : Node → Prop} {post : Cursor → Prop}
    (next : ∀ list', ArgumentList.Alike Node.SameTree (fun _ _ => True) list list' →
      Passes (Ahead mode outer (argumentTokens lists ++ rest))
        (trailers g m (callNode node chaining list') true) r post) :
    Passes (Ahead mode outer (argumentTokens (list :: lists) ++ rest))
      (trailers g (m + 1) node chaining) r post := by
  obtain ⟨ts, hts, hall⟩ := argumentTokens_cons list lists
  rw [hall, List.length_append] at hn
  have first : Passes
      (Ahead mode outer (argumentTokens [list] ++ (argumentTokens lists ++ rest))) (arguments g)
      (ArgumentList.Alike Node.SameTree (fun _ _ => True) list)
      (Ahead mode outer (argumentTokens lists ++ rest)) :=
    arguments_pass hg hl (by rw [hts]; omega)
  rw [hts, parenthesized_append] at first
  rw [hall, List.append_assoc, parenthesized_append]
  exact .peek (by simp) (first.bind next)

/-- Further argument lists of a call belong to the same call. -/
theorem chained_pass (hg : g.Inverts n) {callee : Node} {done lists : List ArgumentList}
    (hl : ∀ l ∈ lists, ∀ c ∈ l.children, c.IsExpression)
    (hn : (argumentTokens lists).length ≤ n) (hm : lists.length < m) (hf : EndsAt 0 mode rest)
    {node : Node} (h : Node.SameTree ⟨.call callee done, s⟩ node) :
    Passes (Ahead mode outer (argumentTokens lists ++ rest)) (trailers g m node true)
      (Node.SameTree ⟨.call callee (done ++ lists), s⟩) (Ahead mode outer rest) := by
  induction lists generalizing m done node with
  | nil =>
    rw [List.append_nil]
    exact trailers_stop (Nat.zero_lt_of_lt hm) hf true h
  | cons list lists ih =>
    obtain _ | m := m
    · cases hm
    obtain ⟨hlist, hl⟩ := List.forall_mem_cons.mp hl
    refine nextList_pass hg hlist hn fun list' hlist' => ?_
    -- the list just read is one more of the call, so the call to go on with is the longer one
    have called : Node.SameTree ⟨.call callee (done ++ [list]), s⟩ (callNode node true list') :=
      .of_kind (callNode_same h true hlist').kind
    have all : done ++ list :: lists = done ++ [list] ++ lists := by simp
    rw [all]
    obtain ⟨ts, -, hts⟩ := argumentTokens_cons list lists
    rw [hts, List.length_append] at hn
    exact ih hl (by omega) (Nat.lt_of_succ_lt_succ hm) called

theorem call_pass (hg : g.Inverts n) {callee : Node} {lists : List ArgumentList}
    (hw : Node.IsWritable ⟨.call callee lists, s⟩)
    (hn : (NodeKind.call callee lists).tokens.length ≤ n) (hf : EndsAt 0 mode rest) :
    Passes (Ahead mode outer ((NodeKind.call callee lists).tokens ++ rest)) (operand g)
      (Node.SameTree ⟨.call callee lists, s⟩) (Ahead mode outer rest) := by
  have hcallee : callee.IsExpression := hw.expression (List.mem_cons_self ..)
  have hl (l : ArgumentList) (h : l ∈ lists) (c : Node) (hc : c ∈ l.children) : c.IsExpression :=
    hw.expression (List.mem_cons_of_mem _ (List.mem_flatMap.mpr ⟨l, h, hc⟩))
  cases lists with
  | nil => cases (Bool.and_eq_true_iff.mp hw.self).2
  | cons list lists =>
    obtain ⟨hlist, hl⟩ := List.forall_mem_cons.mp hl
    rw [NodeKind.tokens, List.length_append] at hn
    rw [NodeKind.tokens, List.append_assoc]
    have few := length_le_argumentTokens (list :: lists)
    have short : (argumentTokens lists).length ≤ (argumentTokens (list :: lists)).length := by
      obtain ⟨ts, -, hts⟩ := argumentTokens_cons list lists
      rw [hts, List.length_append]
      exact Nat.le_add_left ..
    obtain ⟨m, hm⟩ := two_steps hg (e := callee) (by omega)
    have enough := hg.allowance
    rw [length_parenthesized] at hn
    rw [List.length_cons] at few
    refine (atom_enclosed hg hcallee (by simp; omega)).bind fun callee' hcallee' => ?_
    rw [hm]
    refine nextList_pass hg hlist (by omega) fun list' hlist' => ?_
    have called : Node.SameTree ⟨.call callee [list], s⟩ (callNode callee' false list') :=
      .of_kind (callNode_same hcallee' false hlist').kind
    exact chained_pass hg hl (by omega) (by omega) hf called

theorem member_pass (hg : g.Inverts n) {target : Node} {name : String}
    (hw : Node.IsWritable ⟨.member target name, s⟩)
    (hn : (NodeKind.member target name).tokens.length ≤ n) (hf : EndsAt 0 mode rest) :
    Passes (Ahead mode outer ((NodeKind.member target name).tokens ++ rest)) (operand g)
      (Node.SameTree ⟨.member target name, s⟩) (Ahead mode outer rest) := by
  have ht : target.IsExpression := hw.expression (List.mem_singleton_self _)
  rw [NodeKind.tokens, List.length_append] at hn
  rw [NodeKind.tokens, List.append_assoc]
  refine (atom_enclosed hg ht (by omega)).bind fun target' ht' => ?_
  obtain ⟨m, hm⟩ := two_steps hg (e := target) (by omega)
  rw [hm]
  refine .peek (by simp) ((Passes.advance (by rfl)).bind fun _ _ => ?_)
  refine (Passes.expectIdentifier name).bind ?_
  rintro ⟨_, span⟩ rfl
  exact trailers_stop (Nat.succ_pos m) hf false (.of_kind (.member _ ht'))

theorem index_pass (hg : g.Inverts n) {target slot : Node}
    (hw : Node.IsWritable ⟨.index target slot, s⟩)
    (hn : (NodeKind.index target slot).tokens.length ≤ n) (hf : EndsAt 0 mode rest) :
    Passes (Ahead mode outer ((NodeKind.index target slot).tokens ++ rest)) (operand g)
      (Node.SameTree ⟨.index target slot, s⟩) (Ahead mode outer rest) := by
  have ht : target.IsExpression := hw.expression (List.mem_cons_self ..)
  have hs : slot.IsExpression :=
    hw.expression (List.mem_cons_of_mem _ (List.mem_singleton_self _))
  simp only [NodeKind.tokens, List.length_append, List.length_cons] at hn
  rw [NodeKind.tokens, List.append_assoc, List.cons_append, List.append_assoc]
  refine (atom_enclosed hg ht (by omega)).bind fun target' ht' => ?_
  obtain ⟨m, hm⟩ := two_steps hg (e := target) (by omega)
  rw [hm]
  refine .peek (by simp) ((Passes.enter _).bind fun _ _ => ?_)
  refine (hg.child_mark hs (by omega) rfl).bind fun _ hs' => (Passes.leave _ _).bind fun _ _ => ?_
  exact trailers_stop (Nat.succ_pos m) hf false (.of_kind (.index ht' hs'))

/-! ## Innermost forms -/

/-- Expressions in their own parentheses are read, and there are not too many of them. -/
theorem Inverts.items (hg : g.Inverts n) {items : List Node} (hi : ∀ e ∈ items, e.IsExpression)
    (hn : (commaList (operandTokens items)).length < n) :
    (∀ e ∈ items, (g.read .expression).Takes (parenthesized e.tokens) e.SameTree MayFollow) ∧
      items.length < g.allowance := by
  rw [operandTokens_eq] at hn
  let w (e : Node) := parenthesized e.tokens
  have few : items.length ≤ (commaList (items.map w)).length :=
    length_le_commaList fun _ _ => List.cons_ne_nil _ _
  have short (e : Node) (he : e ∈ items) : (w e).length ≤ (commaList (items.map w)).length :=
    length_mem_commaList he
  refine ⟨fun e he => ?_, ?_⟩
  · exact hg.child (hi e he) (Nat.lt_of_le_of_lt (short e he) hn)
  · exact Nat.lt_of_le_of_lt few (Nat.lt_of_lt_of_le hn hg.allowance)

theorem array_pass (hg : g.Inverts n) {items : List Node}
    (hw : Node.IsWritable ⟨.array items, s⟩) (hn : (NodeKind.array items).tokens.length ≤ n) :
    Passes (Ahead mode outer ((NodeKind.array items).tokens ++ rest)) (array g)
      (Node.SameTree ⟨.array items, s⟩) (Ahead mode outer rest) := by
  have hi (e : Node) (he : e ∈ items) : e.IsExpression := hw.expression he
  rw [NodeKind.tokens, List.length_cons, List.length_append] at hn
  rw [NodeKind.tokens, List.cons_append, List.append_assoc]
  obtain ⟨taken, few⟩ := hg.items hi (by omega)
  rw [operandTokens_eq]
  refine (array_of_items (fun e _ => ⟨_, _, rfl, rfl, by simp⟩) taken few).imp ?_
  rintro e ⟨found, hk, hfound⟩
  exact .of_kind (hk ▸ .array hfound)

theorem length_commaList_le_tupleList (tss : List (List Token)) :
    (commaList tss).length ≤ (tupleList tss).length := by
  unfold tupleList
  split
  · rw [List.length_append]
    exact Nat.le_add_right ..
  · exact Nat.le_refl _

theorem tuple_pass (hg : g.Inverts n) {items : List Node}
    (hw : Node.IsWritable ⟨.tuple items, s⟩) (hn : (NodeKind.tuple items).tokens.length ≤ n) :
    Passes (Ahead mode outer ((NodeKind.tuple items).tokens ++ rest)) (group g)
      (Node.SameTree ⟨.tuple items, s⟩) (Ahead mode outer rest) := by
  have hi (e : Node) (he : e ∈ items) : e.IsExpression := hw.expression he
  have length := length_commaList_le_tupleList (operandTokens items)
  rw [NodeKind.tokens, length_parenthesized] at hn
  rw [NodeKind.tokens]
  obtain ⟨taken, few⟩ := hg.items hi (by omega)
  rw [operandTokens_eq]
  refine (tuple_of_items (fun e _ => ⟨_, _, rfl, rfl, by simp⟩) taken few).imp ?_
  rintro e ⟨found, hk, hfound⟩
  exact .of_kind (hk ▸ .tuple hfound)

/-- How an entry of a dictionary is written. -/
def entryItem (e : Node × Node) : List Token :=
  parenthesized e.1.tokens ++ .mark .colon :: parenthesized e.2.tokens

theorem entryTokens_eq (entries : List (Node × Node)) :
    entryTokens entries = entries.map entryItem := by
  induction entries with
  | nil => rfl
  | cons e es ih => rw [entryTokens, ih, List.map_cons, entryItem]

theorem dictionary_pass (hg : g.Inverts n) {entries : List (Node × Node)}
    (hw : Node.IsWritable ⟨.dict entries, s⟩) (hn : (NodeKind.dict entries).tokens.length ≤ n) :
    Passes (Ahead mode outer ((NodeKind.dict entries).tokens ++ rest)) (dictionary g)
      (Node.SameTree ⟨.dict entries, s⟩) (Ahead mode outer rest) := by
  have inside {e : Node × Node} (he : e ∈ entries) {c : Node} (hc : c ∈ [e.1, e.2]) :
      c.IsExpression := hw.expression (List.mem_flatMap.mpr ⟨e, he, hc⟩)
  rw [NodeKind.tokens, length_braced, entryTokens_eq] at hn
  rw [NodeKind.tokens, entryTokens_eq]
  have few : entries.length < g.allowance := by
    have : entries.length ≤ (commaList (entries.map entryItem)).length :=
      length_le_commaList fun _ _ => List.cons_ne_nil _ _
    have := hg.allowance
    omega
  have short (e : Node × Node) (he : e ∈ entries) :
      (parenthesized e.1.tokens).length < n ∧ (parenthesized e.2.tokens).length < n := by
    have := length_mem_commaList (w := entryItem) he
    rw [entryItem, List.length_append, List.length_cons] at this
    omega
  refine (dictionary_of_entries (fun e _ => ⟨_, _, rfl, rfl, by simp⟩)
    (fun e he => hg.child (inside he (List.mem_cons_self ..)) (short e he).1)
    (fun e he => hg.child (inside he (List.mem_cons_of_mem _ (List.mem_singleton_self _)))
      (short e he).2) few).imp ?_
  rintro e ⟨found, hk, hfound⟩
  exact .of_kind (hk ▸ .dict hfound)

theorem literal_pass {t : Token} (ht : t.isContent = true) (kind : NodeKind) :
    Passes (Ahead mode outer (t :: rest)) (literal kind) (·.kind = kind)
      (Ahead mode outer rest) :=
  (Passes.advance ht).bind fun _ _ => .pure rfl

/-- A name is read as such if no `=` is behind it. -/
theorem name_pass (name : String) (hf : EndsAt 0 mode rest) :
    Passes (Ahead mode outer (.identifier name :: rest)) (nameOrAssignment g name)
      (·.kind = .read name) (Ahead mode outer rest) := by
  obtain ⟨t, us, rfl, ht, he⟩ := hf
  exact (Passes.advance rfl).bind fun _ _ => .testNo ht he.noValue (.pure rfl)

theorem assignment_pass (hg : g.Inverts n) {name : String} {value : Node}
    (hw : Node.IsWritable ⟨.assign name value, s⟩)
    (hn : (NodeKind.assign name value).tokens.length ≤ n) (hf : MayFollow mode rest) :
    Passes (Ahead mode outer ((NodeKind.assign name value).tokens ++ rest))
      (nameOrAssignment g name) (Node.SameTree ⟨.assign name value, s⟩)
      (Ahead mode outer rest) := by
  have hv : value.IsExpression := hw.expression (List.mem_singleton_self _)
  rw [NodeKind.tokens, List.length_cons, List.length_cons] at hn
  refine (Passes.advance rfl).bind fun _ _ => ?_
  refine .testYes (by simp) ((Passes.advance (by rfl)).bind fun _ _ => ?_)
  exact (hg.child hv (by omega) _ _ _ hf).bind fun _ h => .pure (.of_kind (.assign name h))

/-! ## Expressions -/

theorem expression_of_operand (ha : 0 < g.allowance) {t : Token} (ht : t.startsOperand = true)
    {r : Node → Prop} (h : EndsAt 0 mode rest)
    (ho : Passes (Ahead mode outer (t :: ts)) (operand g) r (Ahead mode outer rest)) :
    Passes (Ahead mode outer (t :: ts)) (expression g) r (Ahead mode outer rest) := by
  have factor : t.startsFactor = true := by
    unfold Token.startsFactor
    split
    · rfl
    · rfl
    · exact ht
  exact expression_of_factor ha factor h (factor_of_operand ht ho)

theorem unary_pass (hg : g.Inverts n) {op : UnaryOperator} {e : Node}
    (hw : Node.IsWritable ⟨.unary op e, s⟩) (hn : (NodeKind.unary op e).tokens.length ≤ n)
    (hf : EndsAt 0 mode rest) :
    Passes (Ahead mode outer ((NodeKind.unary op e).tokens ++ rest)) (expression g)
      (Node.SameTree ⟨.unary op e, s⟩) (Ahead mode outer rest) := by
  have he : e.IsExpression := hw.expression (List.mem_singleton_self _)
  rw [NodeKind.tokens, List.length_cons] at hn
  have ha : 0 < g.allowance := by have := hg.allowance; omega
  rw [NodeKind.tokens, List.cons_append]
  have operand (p : Phrase) (hp : p ≠ .statement) :
      Passes (Ahead mode outer (parenthesized e.tokens ++ rest)) (g.read p) e.SameTree
        (Ahead mode outer rest) := hg.enclosed e he (by omega) p hp _ _ _ hf
  have same {e' : Node} (span : Span) (h : e.SameTree e') :
      Node.SameTree ⟨.unary op e, s⟩ ⟨.unary op e', span⟩ := .of_kind (.unary op h)
  have noBreak : op.token ≠ .eol := by cases op <;> nofun
  cases op with
  | plus | minus =>
    refine expression_of_factor ha rfl hf (.peek (fun h => absurd h noBreak) ?_)
    refine (Passes.advance rfl).bind fun _ _ => ?_
    exact (operand .factor (by decide)).bind fun _ h => .pure (same _ h)
  | not =>
    have negated : Passes (Ahead mode outer (.keyword .not :: (parenthesized e.tokens ++ rest)))
        (comparison g (factor g)) (Node.SameTree ⟨.unary .not e, s⟩) (Ahead mode outer rest) :=
      .testYes (by simp) ((Passes.advance rfl).bind fun _ _ =>
        (operand .comparison (by decide)).bind fun _ h => .pure (same _ h))
    refine expression_of_comparison ha hf ?_ negated
    intro c hc heq
    rw [hc.token nofun] at heq
    cases heq

theorem declaration_pass (hg : g.Inverts n) {name : String} {value : Node}
    (hw : Node.IsWritable ⟨.declare name value, s⟩)
    (hn : (NodeKind.declare name value).tokens.length ≤ n) (hf : MayFollow mode rest) :
    Passes (Ahead mode outer ((NodeKind.declare name value).tokens ++ rest)) (expression g)
      (Node.SameTree ⟨.declare name value, s⟩) (Ahead mode outer rest) := by
  have hv : value.IsExpression := hw.expression (List.mem_singleton_self _)
  simp only [NodeKind.tokens, List.length_cons] at hn
  refine .testYes (by simp) ((Passes.expectKeyword _).bind fun _ _ => ?_)
  refine (Passes.expectIdentifier name).bind ?_
  rintro ⟨_, span⟩ rfl
  refine .testYes (by simp) ((Passes.advance (by rfl)).bind fun _ _ => ?_)
  exact (hg.child hv (by omega) _ _ _ hf).bind fun _ h => .pure (.of_kind (.declare _ h))

theorem bareDeclaration_pass (name : String) (hf : EndsAt 0 mode rest) :
    Passes (Ahead mode outer ((NodeKind.declareNull name).tokens ++ rest)) (expression g)
      (Node.SameTree ⟨.declareNull name, s⟩) (Ahead mode outer rest) := by
  obtain ⟨t, us, rfl, ht, he⟩ := hf
  refine .testYes (by simp) ((Passes.expectKeyword _).bind fun _ _ => ?_)
  refine (Passes.expectIdentifier name).bind ?_
  rintro ⟨_, span⟩ rfl
  exact .testNo ht he.noValue (.pure (.of_kind (.declareNull _)))

/-- Every expression is read back if the ones with fewer tokens are. -/
theorem expression_pass (hg : g.Inverts n) {e : Node} (he : e.IsExpression)
    (hn : e.tokens.length ≤ n) : (expression g).Takes e.tokens e.SameTree MayFollow := by
  intro mode outer rest hf
  obtain ⟨kind, s⟩ := e
  have hw := he.writable
  -- an expression that starts with an operand goes through all levels of the grammar down to it
  have ha : 0 < g.allowance := by
    obtain ⟨t, ts, h, -⟩ := Node.tokens_start ⟨kind, s⟩
    have := hg.allowance
    rw [h, List.length_cons] at hn
    omega
  have operand {t : Token} {ts : List Token} (ht : t.startsOperand = true)
      (ho : Passes (Ahead mode outer (t :: ts)) (operand g) (Node.SameTree ⟨kind, s⟩)
        (Ahead mode outer rest)) :
      Passes (Ahead mode outer (t :: ts)) (expression g) (Node.SameTree ⟨kind, s⟩)
        (Ahead mode outer rest) := expression_of_operand ha ht hf.ends ho
  have atom {t : Token} {ts : List Token} (ht : t.startsOperand = true)
      (ho : Passes (Ahead mode outer (t :: ts)) (atom g) (Node.SameTree ⟨kind, s⟩)
        (Ahead mode outer rest)) :
      Passes (Ahead mode outer (t :: ts)) (expression g) (Node.SameTree ⟨kind, s⟩)
        (Ahead mode outer rest) := operand ht (operand_of_atom ha hf.ends ho)
  cases kind with
  | int n => exact atom rfl (.peek (by simp) ((literal_pass rfl _).imp fun _ h => .of_eq h))
  | float x => exact atom rfl (.peek (by simp) ((literal_pass rfl _).imp fun _ h => .of_eq h))
  | str s => exact atom rfl (.peek (by simp) ((literal_pass rfl _).imp fun _ h => .of_eq h))
  | array items => exact atom rfl (.peek (by simp) (array_pass hg hw hn))
  | tuple items => exact atom rfl (.peek (by simp) (tuple_pass hg hw hn))
  | dict entries => exact atom rfl (.peek (by simp) (dictionary_pass hg hw hn))
  | read name =>
    exact atom rfl (.peek (by simp) ((name_pass name hf.ends).imp fun _ h => .of_eq h))
  | assign name value => exact atom rfl (.peek (by simp) (assignment_pass hg hw hn hf))
  | declare name value => exact declaration_pass hg hw hn hf
  | declareNull name => exact bareDeclaration_pass name hf.ends
  | unary op operand => exact unary_pass hg hw hn hf.ends
  | binary left op right =>
    have hl : left.IsExpression := hw.expression (List.mem_cons_self ..)
    have hr : right.IsExpression :=
      hw.expression (List.mem_cons_of_mem _ (List.mem_singleton_self _))
    have read : Passes (Ahead mode outer
        (parenthesized left.tokens ++ op.token :: (parenthesized right.tokens ++ rest)))
        (expression g) (Node.SameTree ⟨.binary left op right, s⟩) (Ahead mode outer rest) :=
      binary_pass hg hl hr op s hn hf.ends
    rw [← List.cons_append, ← List.append_assoc] at read
    exact read
  | function literal =>
    obtain ⟨params, options, returns, body⟩ := literal
    exact atom rfl (.peek (by simp) (function_pass hg hw hn))
  | call callee lists => exact operand rfl (call_pass hg hw hn hf.ends)
  | member target name => exact operand rfl (member_pass hg hw hn hf.ends)
  | index target slot => exact operand rfl (index_pass hg hw hn hf.ends)
  | «if» branches otherwise =>
    cases branches with
    | nil => cases (Bool.and_eq_true_iff.mp hw.self).2
    | cons first branches => exact atom rfl (.peek (by simp) (conditional_pass hg hw hn hf))
  | switch target subject cases otherwise =>
    exact atom rfl (.peek (by simp) (switch_pass hg hw hn))
  | «for» target iterable body => exact atom rfl (.peek (by simp) (forLoop_pass hg hw hn))
  | «while» test body => exact atom rfl (.peek (by simp) (whileLoop_pass hg hw hn))
  | handler body => exact atom rfl (.peek (by simp) (handler_pass hg hw hn))
  | «return» value => cases he.stays
  | «break» => cases he.stays
  | «continue» => cases he.stays
  | «include» module => cases he.stays

/-! ## Statements -/

theorem keywordStatement_pass {k : Keyword} {ts : List Token} {kind : NodeKind}
    {inside : Parser NodeKind}
    (h : Passes (Ahead .ignored (mode :: outer) (ts ++ .mark .rparen :: rest)) inside
      (NodeKind.Alike Node.SameTree (fun _ _ => True) kind)
      (Ahead .ignored (mode :: outer) (.mark .rparen :: rest))) :
    Passes (Ahead mode outer (.keyword k :: (parenthesized ts ++ rest))) (keywordStatement inside)
      (Node.SameTree ⟨kind, s⟩) (Ahead mode outer rest) := by
  rw [parenthesized_append]
  refine (Passes.advance rfl).bind fun _ _ => (Passes.enter _).bind fun _ _ => ?_
  exact h.bind fun _ hk => (Passes.leave _ _).bind fun _ _ => .pure (.of_kind hk)

theorem statement_of_expression {t : Token} (ht : t.startsExpression = true) {r : Node → Prop}
    (h : Passes (Ahead mode outer (t :: ts)) (expression g) r (Ahead mode outer rest)) :
    Passes (Ahead mode outer (t :: ts)) (statement g) r (Ahead mode outer rest) := by
  refine .peek ?_ ?_
  · rintro rfl
    cases ht
  split
  · cases ht
  · cases ht
  · cases ht
  · cases ht
  · exact h

theorem statement_pass (hg : g.Inverts n) {node : Node} (hw : node.IsWritable)
    (hn : node.tokens.length ≤ n) : (statement g).Takes node.tokens node.SameTree MayFollow := by
  intro mode outer rest hf
  by_cases hj : node.kind.isJump = false
  · have read := expression_pass hg ⟨hw, hj⟩ hn mode outer rest hf
    obtain ⟨t, ts, ht, -, hs⟩ := node.tokens_start
    rw [ht] at read ⊢
    exact statement_of_expression (hs hj) read
  obtain ⟨kind, s⟩ := node
  have inner {e : Node} (he : e ∈ kind.expressions) (hl : (parenthesized e.tokens).length < n) :
      Passes (Ahead .ignored (mode :: outer) (parenthesized e.tokens ++ .mark .rparen :: rest))
        (g.read .expression) e.SameTree (Ahead .ignored (mode :: outer) (.mark .rparen :: rest)) :=
    hg.child_mark (hw.expression he) hl rfl
  cases kind with
  | «break» => exact .peek (by simp) (keywordStatement_pass (.pure .break))
  | «continue» => exact .peek (by simp) (keywordStatement_pass (.pure .continue))
  | «include» module =>
    have short : (parenthesized module.tokens).length < n := by
      simp only [Node.tokens, NodeKind.tokens, List.length_cons, length_parenthesized] at hn ⊢
      omega
    have read := inner (List.mem_singleton_self module) short
    exact .peek (by simp) (keywordStatement_pass (read.bind fun _ h => .pure (.include h)))
  | «return» value =>
    cases value with
    | none =>
      exact .peek (by simp)
        (keywordStatement_pass (.testYes (t := .mark .rparen) (by simp) (.pure (.return .none))))
    | some value =>
      have short : (parenthesized value.tokens).length < n := by
        simp only [Node.tokens, NodeKind.tokens, List.length_cons, length_parenthesized] at hn ⊢
        omega
      have read := inner (List.mem_singleton_self value) short
      rw [parenthesized_append] at read
      refine .peek (by simp) (keywordStatement_pass ?_)
      rw [parenthesized_append]
      exact .testNo (by simp) (by simp) (read.bind fun _ h => .pure (.return (.some h)))
  | _ => exact absurd rfl hj

/-- Reading to some depth reads back what is written with fewer tokens. -/
theorem inverts_readTo (n allowance : Nat) (h : n ≤ allowance) :
    (⟨allowance, readTo n⟩ : Grammar).Inverts n := by
  -- a part has fewer tokens than what it is part of, so each depth takes one token more
  induction n generalizing allowance with
  | zero =>
    exact ⟨h, fun _ _ hn => absurd hn (Nat.not_lt_zero _),
      fun _ _ hn => absurd hn (Nat.not_lt_zero _), fun _ _ hn => absurd hn (Nat.not_lt_zero _)⟩
  | succ n ih =>
    have inner := ih n (Nat.le_refl n)
    constructor
    · exact h
    · exact fun e he hn => expression_pass inner he (Nat.le_of_lt_succ hn)
    · exact fun e he hn p hp => phrase_enclosed inner he (Nat.le_of_lt_succ hn) hp
    · exact fun s hs hn => statement_pass inner hs (Nat.le_of_lt_succ hn)

/-! ## Programs -/

theorem program_pass (hg : g.Inverts n) {body : List Node} (hw : ∀ s ∈ body, s.IsWritable)
    (hn : ∀ s ∈ body, s.tokens.length ≤ n) (hm : body.length < m)
    (hts : ts.dropWhile (· = .eol) = programTokens body) :
    Passes (Ahead .significant outer ts) (program g m) (List.Forall₂ Node.SameTree body)
      (Ahead .significant outer [.eof]) := by
  have line (s : Node) (hs : s ∈ body) : (statement g).Takes s.tokens s.SameTree MayFollow :=
    statement_pass hg (hw s hs) (hn s hs)
  rw [program_eq]
  exact lines_pass Token.startsLine_eof rfl line hm hts

end Grammar

theorem ahead_start {lexemes : List Lexeme} {ts : List Token}
    (h : lexemes.map (·.token) = ts ++ [.eof]) (bound : 0 < lexemes.toArray.size) :
    (Cursor.start lexemes.toArray bound).Ahead .significant [] (ts ++ [.eof]) :=
  ⟨h, List.getLast?_concat, rfl, rfl⟩

/-- A program that was written as tokens is read back, up to spans. -/
theorem parse_written {program : List Node} (hw : ∀ s ∈ program, s.IsWritable)
    {lexemes : List Lexeme} (ht : lexemes.map (·.token) = programTokens program) :
    ∃ parsed, parse lexemes = .ok parsed ∧ List.Forall₂ Node.SameTree program parsed := by
  have size : lexemes.length = (lineTokens program).length + 1 := by
    have := congrArg List.length ht
    rw [List.length_map, programTokens, List.length_append] at this
    exact this
  have bound : 0 < lexemes.toArray.size := by
    rw [List.size_toArray]
    omega
  let c := Cursor.start lexemes.toArray bound
  have covers : (Grammar.covering c).Inverts (lexemes.length + 1) :=
    Grammar.inverts_readTo _ _ (Nat.le_refl _)
  have short (s : Node) (hs : s ∈ program) : s.tokens.length ≤ lexemes.length + 1 := by
    have := length_mem_lines hs
    omega
  have few : program.length < (Grammar.covering c).allowance := by
    have := length_le_lines program
    have := covers.allowance
    omega
  have visible : (programTokens program).dropWhile (· = .eol) = programTokens program :=
    lines_visible program Token.startsLine_eof []
  obtain ⟨parsed, d, hp, hs, -⟩ :=
    Grammar.program_pass covers hw short few visible c (ahead_start ht bound)
  refine ⟨parsed, ?_, hs⟩
  rw [parse, dif_pos bound]
  show ((Grammar.program _ _).run c).1 = _
  rw [Parser.run, hp]

/-- A function with an option, and an `if` on a call of it, as written into a text and read. -/
theorem written_function_is_read :
    let node (kind : NodeKind) : Node := ⟨kind, default⟩
    let literal : FunctionLiteral := ⟨[⟨"x", some (node (.read "t")), default⟩],
      [⟨"y", node (.int 1), default⟩], none,
      [node (.binary (node (.read "x")) .add (node (.read "y")))]⟩
    let call := node (.call (node (.read "f"))
      [⟨[node (.int 2)], [⟨"y", node (.int 3), default⟩], default⟩, ⟨[], [], default⟩])
    let program := [node (.declare "f" (node (.function literal))),
      node (.if [⟨call, [node .break]⟩] (some [node (.tuple [node (.int 1)])]))]
    let text := "var f = (func(x: (t), y = (1)) \x7b(x) + (y)\n\x7d)\n" ++
      "if (((f)((2), y = (3))())) \x7bbreak()\n\x7d else \x7b((1),)\n\x7d"
    ∃ parsed, Source.program ⟨"main", text⟩ = .ok parsed ∧
      List.Forall₂ Node.SameTree program parsed := by
  intro node literal call program text
  have tokens : (scan ⟨"main", text⟩).toOption.map (List.map (·.token)) =
      some (programTokens program) := by decide +kernel
  have writable : program.all (Node.allTo NodeKind.isWritable 5) = true := by decide
  obtain ⟨lexemes, h⟩ : ∃ lexemes, scan ⟨"main", text⟩ = .ok lexemes := by
    cases hs : scan ⟨"main", text⟩ with
    | ok lexemes => exact ⟨lexemes, rfl⟩
    | error e => rw [hs] at tokens; cases tokens
  rw [h] at tokens
  rw [Source.program, h]
  exact parse_written (fun s hs => Node.all_of_allTo (List.all_eq_true.mp writable s hs))
    (Option.some.inj tokens)

end TracedScript
