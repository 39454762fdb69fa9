import TracedScript.Proofs.Syntax.SourceOrder

/-!
# Spans nest

Every node of a program stands around all that is inside it, from the start of a token to the end
of one, and what it keeps in one list stands in source order: `spans_nest`.
-/

namespace TracedScript

/-- How the span of a node lies among the lexemes and around the nodes inside it. -/
structure Node.Nested (lexemes : List Lexeme) (n : Node) : Prop where
  /-- From the start of a lexeme to the end of one at or behind it. -/
  covers : ∃ (a b : Nat) (first last : Lexeme), a ≤ b ∧ lexemes[a]? = some first ∧
    lexemes[b]? = some last ∧ n.span = ⟨first.span.start, last.span.stop⟩
  contains : ∀ d : Node, d.Inside n →
    n.span.start.index ≤ d.span.start.index ∧ d.span.stop.index ≤ n.span.stop.index
  /-- What is kept in one list stands inside the node, in source order and without overlaps. -/
  rows : ∀ row ∈ n.kind.rows, Span.Row n.span.start.index n.span.stop.index row
  operands : ∀ left op right, n.kind = .binary left op right → left.span.Before right.span

theorem Node.Tidy.nested {t : Tape} {lexemes : List Lexeme} {n : Node}
    (ht : t.lexemes = lexemes.toArray) (hn : n.Tidy t) : n.Nested lexemes := by
  have laid := hn.self
  obtain ⟨a, b, ha, hb, hab, covered⟩ := laid.covers
  have found : ∀ i (hi : i < t.lexemes.size), lexemes[i]? = some t.lexemes[i] := by
    simp [ht]
  have forward : n.span.start.index ≤ n.span.stop.index := by
    have first := t.forward _ (Array.getElem_mem ha)
    rw [covered]
    exact Nat.le_trans first (Tape.stop_le_stop ha hb hab)
  constructor
  case covers => exact ⟨a, b, _, _, hab, found a ha, found b hb, covered⟩
  case contains =>
    intro d hd
    have inside := hn.contains hd forward
    exact ⟨inside.le_start, inside.stop_le⟩
  case rows => exact laid.rows
  case operands =>
    intro left op right hk
    have row := laid.rows [left.span, right.span] (by simp [hk, NodeKind.rows, NodeKind.children])
    simpa using row.apart

/-- The spans of a program nest: each node stands from the start of a token to the end of one at or
behind it, around all nodes inside; what it keeps in one list is in source order, without overlaps;
and so are the statements of the program. -/
theorem spans_nest {source : Source} {lexemes : List Lexeme} {statements : List Node}
    (hs : scan source = .ok lexemes) (hp : parse lexemes = .ok statements) :
    (statements.Pairwise fun a b => a.span.Before b.span) ∧
      ∀ s ∈ statements, ∀ n : Node, n.Inside s → n.Nested lexemes := by
  obtain ⟨t, ht⟩ := exists_tape_of_scan hs
  obtain ⟨i, j, row⟩ := row_of_parse ht hp
  refine ⟨row.apart, fun s hm n hn => ?_⟩
  exact Node.Tidy.nested ht fun d hd => row.tidy s hm d (hd.trans hn)

/-- The call covers its callee and its argument list, the group in it both parentheses. -/
theorem nested_call : ∃ lexemes statements,
    scan ⟨"main", "f((1), b = 2)"⟩ = .ok lexemes ∧ parse lexemes = .ok statements ∧
      (∃ s ∈ statements, (s.kind.rows.map (List.map fun r => (r.start.index, r.stop.index))) =
        [[(0, 1), (1, 13)], [(2, 5)], [(7, 12)], [(11, 12)]]) ∧
      ∀ s ∈ statements, ∀ n : Node, n.Inside s → n.Nested lexemes := by
  have places : (scan ⟨"main", "f((1), b = 2)"⟩).toOption.bind (fun lexemes =>
      (parse lexemes).toOption.map (List.map fun s =>
        s.kind.rows.map (List.map fun r => (r.start.index, r.stop.index)))) =
      some [[[(0, 1), (1, 13)], [(2, 5)], [(7, 12)], [(11, 12)]]] := by decide +kernel
  cases hs : scan ⟨"main", "f((1), b = 2)"⟩ with
  | error e =>
    rw [hs] at places
    cases places
  | ok lexemes =>
    cases hp : parse lexemes with
    | error e =>
      rw [hs] at places
      simp [Except.toOption, hp] at places
    | ok statements =>
      rw [hs] at places
      simp only [Except.toOption, Option.bind_some, hp, Option.map_some,
        Option.some.injEq] at places
      refine ⟨lexemes, statements, rfl, hp, ?_, (spans_nest hs hp).2⟩
      obtain ⟨s, rfl, hk⟩ := List.map_eq_singleton_iff.mp places
      exact ⟨s, List.mem_singleton.mpr rfl, hk⟩

end TracedScript
