import TracedScript.Proofs.Syntax.OperandVerdicts

/-!
# Verdicts on phrases and programs

From the operators up to statements. Each level is judged as soon as the levels inside of it are,
and so the grammar of each depth judges as many tokens as it is deep: `ready_readTo`.
-/

namespace TracedScript.Grammar

open TracedScript.Parser

section

variable {ι : Type} {k : Nat} {size : ι → Nat} {g : ι → Grammar} {b : Brackets}
  {before : List Token → Prop} {ts : List Token}

/-! ## Operators -/

section

variable {ops : List BinaryOperator} {first operand : ι → Parser Node}

/-- No operator of the chain is in front of the cursor. -/
theorem chainRest_still {operand : Parser Node} {n : Nat} {left : Node} {c : Cursor}
    (h : ∀ op ∈ ops, operator? c.token ≠ some op) :
    chainRest ops operand (n + 1) left c = (.ok left, c) := by
  rw [chainRest, peek_bind_apply]
  generalize operator? c.token = found at h
  cases found with
  | none => rfl
  | some op =>
    have other : op ∉ ops := fun hm => h op hm rfl
    simp only [other, if_false]
    rfl

theorem chainRest_judges (ho : JudgesPhrase k size operand) {less n : ι → Nat}
    (hless : ∀ i, less i ≤ size i) (hn : ∀ i, less i ≤ n i) {m : Nat} (hm : m ≤ k + 1) :
    Judges m (fun j : ι × Node => less j.1) (fun j => chainRest ops (operand j.1) (n j.1) j.2)
      (fun _ => True) Follows Follows b b := by
  induction m generalizing less n with
  | zero => exact fun ts hts => absurd hts.pos (Nat.lt_irrefl 0)
  | succ m ih =>
    intro ts hts
    obtain ⟨t, us, hu⟩ := b.exists_cons hts.ends
    have large (i : ι) (h : 0 < less i) : ∃ n', n i = n' + 1 :=
      ⟨n i - 1, by have := hn i; omega⟩
    have shorter (i : ι) : less i - 1 ≤ size i := Nat.le_trans (Nat.sub_le _ _) (hless i)
    by_cases hop : ∃ op ∈ ops, operator? t = some op
    · obtain ⟨op, hmem, hop⟩ := hop
      have content : t.isContent = true := by
        cases t with
        | eol | eof => cases hop
        | _ => rfl
      have hs : Heads (· = t) (b.seen ts) := ⟨t, us, hu, rfl⟩
      refine .seeing hs (x := fun j => do
        let _ ← Parser.advance
        let right ← operand j.1
        chainRest ops (operand j.1) (n j.1 - 1) (binaryNode j.2 op right)) (fun j c hj hc => ?_)
        (.loose (.advance hs content hts ?_))
      · obtain ⟨n', hn'⟩ := large j.1 hj
        rw [hn', chainRest, peek_bind_apply, hc, hop]
        dsimp only
        rw [if_pos hmem]
        rfl
      · have right := (ho.mono (Nat.le_of_succ_le_succ hm)).reindex
          (fun j : After (ι × Node) Lexeme => j.index.1) fun j => shorter j.index.1
        refine Judges.bind (right.judges fun _ _ => .anything) ?_
        have again := ih shorter (fun i => Nat.sub_le_sub_right (hn i) 1) (Nat.le_of_succ_le hm)
        exact again.reindex (fun j : After (After (ι × Node) Lexeme) Node =>
          (j.index.index.1, binaryNode j.index.index.2 op j.result)) fun _ => Nat.le_refl _
    · have hs : Heads (fun t => ∀ op ∈ ops, operator? t ≠ some op) (b.seen ts) :=
        ⟨t, us, hu, fun op hm h => hop ⟨op, hm, h⟩⟩
      refine .nothing (fun j c hj hc => ⟨j.2, ?_⟩) hs fun us hus => ⟨?_, hus⟩
      · obtain ⟨n', hn'⟩ := large j.1 hj
        exact hn' ▸ chainRest_still hc
      · exact hus.ends.imp fun _ h op _ hfound => absurd (h.weaker op hfound) (Nat.not_lt_zero _)

/-- A chain of operands. Those behind an operator have a token less in front of them. -/
theorem chain_judges (hf : JudgesPhrase (k + 1) size first)
    (ho : JudgesPhrase k (fun i => size i - 1) operand) {n : ι → Nat}
    (hn : ∀ i, size i - 1 ≤ n i) :
    JudgesPhrase (k + 1) size (fun i => do chainRest ops (operand i) (n i) (← first i)) := by
  intro b before ts hts hw
  refine (hf b before ts hts hw).andThen hts ?_ (Nat.le_succ _) (Nat.succ_pos k)
  have rest : Judges (k + 1) (fun j : ι × Node => size j.1 - 1)
      (fun j => chainRest ops (operand j.1) (n j.1) j.2) (fun _ => True) Follows Follows b b :=
    chainRest_judges ho (fun _ => Nat.le_refl _) hn (Nat.le_refl (k + 1))
  exact rest.reindex (fun j : After ι Node => (j.index, j.result)) fun _ => Nat.le_refl _

/-- A chain of operands that are read alike. -/
theorem chain_judges_self (ho : JudgesPhrase (k + 1) size operand) {n : ι → Nat}
    (hn : ∀ i, size i - 1 ≤ n i) :
    JudgesPhrase (k + 1) size (fun i => do chainRest ops (operand i) (n i) (← operand i)) :=
  chain_judges ho ((ho.mono (Nat.le_succ k)).reindex id fun _ => Nat.sub_le _ _) hn

end

section

variable (hg : Ready k (fun i => size i - 1) g)

include hg

theorem raised_judges : JudgesPhrase (k + 1) size fun i => raised (g i) (factor (g i)) :=
  chain_judges (factor_judges hg) (hg.phrase .term) hg.allowance

theorem term_judges : JudgesPhrase (k + 1) size fun i => term (g i) (factor (g i)) :=
  chain_judges_self (raised_judges hg) hg.allowance

theorem sum_judges : JudgesPhrase (k + 1) size fun i => sum (g i) (factor (g i)) :=
  chain_judges_self (term_judges hg) hg.allowance

theorem comparison_judges :
    JudgesPhrase (k + 1) size fun i => comparison (g i) (factor (g i)) := by
  intro b before ts hts hw
  refine .is hts.ends (fun hs => ?_) fun hs => ?_
  · refine .advance hs rfl hts ?_
    have inside : Ready k (fun j : After ι Lexeme => size j.index - 1) fun j => g j.index :=
      hg.along
    exact Judges.map (fun j inner => unaryNode .not j.result.span inner)
      ((inside.phrase .comparison).judges fun _ _ => .anything)
  · exact .orExpected _ (chain_judges_self (sum_judges hg) hg.allowance b _ ts hts
      (hw.and_heads nofun hs))

theorem logical_judges : JudgesPhrase (k + 1) size fun i => logical (g i) (factor (g i)) :=
  chain_judges_self (comparison_judges hg) hg.allowance

/-! ## Statements -/

theorem declaration_verdict (hs : Heads (· = .keyword .var) (b.seen ts)) (hts : Within (k + 1) ts) :
    Verdict size (fun i => declaration (g i)) (fun _ => True) 1 before Follows b b ts := by
  refine (Accepts.expectKeyword .var).commit hs hts ?_
  refine Accepts.expectIdentifier.first ⟨"x", rfl⟩ fun ts hts => ?_
  refine .is hts.ends (fun hs => ?_) fun _ => ?_
  · refine .loose (.advance hs rfl (hts.mono (Nat.le_succ k)) ?_)
    have inside : Ready k (fun j : After (After (After ι Lexeme) (String × Span)) Lexeme =>
        size j.index.index.index - 1 - 1) fun j => g j.index.index.index :=
      hg.reindex _ fun _ => Nat.sub_le _ _
    exact Judges.map (fun j value => (⟨.declare j.index.result.1 value,
      j.index.index.result.span.through value.span⟩ : Node)) inside.expression
  · refine .pure (fun _ => ⟨_, rfl, trivial⟩) fun us hus => ⟨?_, trivial⟩
    exact hus.ends.imp fun _ h => h.noValue

theorem expression_judges : JudgesPhrase (k + 1) size fun i => expression (g i) := by
  intro b before ts hts hw
  refine .test hts.ends (fun hs => declaration_verdict hg hs hts) fun hs => ?_
  exact .orExpected _ (logical_judges hg b _ ts hts (hw.and_heads nofun hs))

omit hg in
theorem keywordStatement_verdict {w : Keyword} {inside : ι → Parser NodeKind}
    (hs : Heads (· = .keyword w) (b.seen ts)) (hts : Within (k + 1) ts)
    (hi : Judges k (fun i => size i - 1) inside (fun _ => True) Anything (Heads (· = .mark .rparen))
      (b.push .ignored) (b.push .ignored)) :
    Verdict size (fun i => keywordStatement (inside i)) (fun _ => True) 1 before Follows b b
      ts := by
  refine .advance hs rfl hts ?_
  refine (Accepts.enter .lparen .ignored).first rfl ?_
  have held := hi.reindex (fun j : After (After ι Lexeme) Lexeme => j.index.index)
    fun _ => Nat.le_refl _
  refine Judges.bind held ?_
  refine (Accepts.leave .rparen _ _).inside rfl rfl (fun rest => ⟨_, rest, rfl, rfl⟩) ?_
  exact .pure (fun _ => ⟨_, rfl, trivial⟩) fun _ _ => trivial

/-- The keywords of the statements with parentheses. -/
def jumps : List Token :=
  [.keyword .return, .keyword .include, .keyword .break, .keyword .continue]

omit hg in
theorem statement_expression {g : Grammar} {c : Cursor} (h : c.token ∉ jumps) :
    statement g c = expression g c := by
  rw [statement, peek_bind_apply]
  generalize c.token = t at h
  cases t with
  | keyword w =>
    cases w with
    | «return» | «include» | «break» | «continue» => exact absurd (by decide) h
    | _ => rfl
  | _ => rfl

/-- The value between the parentheses of a statement. -/
theorem value_verdict {f : ι → Node → NodeKind} (hts : Within k ts)
    (hw : Welcome before (.identifier "x") (b.seen ts)) :
    Verdict (fun i => size i - 1) (fun i => do return f i (← (g i).read .expression))
      (fun _ => True) 0 before (Heads (· = .mark .rparen)) b b ts := by
  have value := hg.phrase .expression b _ ts hts hw
  exact .map f hts.ends (value.loose.narrow fun _ h => follows_of_heads rfl h)

theorem statement_judges : JudgesPhrase (k + 1) size fun i => statement (g i) := by
  intro b before ts hts hw
  obtain ⟨t, us, hu⟩ := b.exists_cons hts.ends
  by_cases hj : t ∈ jumps
  · have hs : Heads (· = t) (b.seen ts) := ⟨t, us, hu, rfl⟩
    refine .peek hs ?_
    simp only [jumps, List.mem_cons, List.not_mem_nil, or_false] at hj
    obtain rfl | rfl | rfl | rfl := hj
    · refine keywordStatement_verdict hs hts fun ts hts => .is hts.ends (fun _ => ?_) fun _ => ?_
      · exact .pure (fun _ => ⟨_, rfl, trivial⟩) fun _ h => ⟨h, trivial⟩
      · exact value_verdict hg (f := fun _ e => .return (some e)) hts
          (.of_ignored rfl hts.ends fun rest => ⟨⟨_, rest, rfl, nofun⟩, trivial⟩)
    · exact keywordStatement_verdict hs hts fun ts hts =>
        value_verdict hg (f := fun _ e => .include e) hts .anything
    · exact keywordStatement_verdict hs hts (.pure (fun _ => ⟨_, rfl, trivial⟩) fun _ _ => trivial)
    · exact keywordStatement_verdict hs hts (.pure (fun _ => ⟨_, rfl, trivial⟩) fun _ _ => trivial)
  · have hs : Heads (· ∉ jumps) (b.seen ts) := ⟨t, us, hu, hj⟩
    refine .seeing hs (fun i c _ hc => statement_expression hc) ?_
    exact expression_judges hg b _ ts hts (hw.and_heads (by decide) hs)

theorem phrase_judges (p : Phrase) : JudgesPhrase (k + 1) size fun i => phrase (g i) p := by
  cases p with
  | expression => exact expression_judges hg
  | statement => exact statement_judges hg
  | comparison => exact comparison_judges hg
  | term => exact term_judges hg
  | factor => exact factor_judges hg

end

/-! ## Names -/

section

variable {g : Grammar} {c : Cursor} {name : String}

theorem chain_still {ops : List BinaryOperator} {first operand : Parser Node} {n : Nat} {a : Node}
    {d : Cursor} (hn : 0 < n) (hd : d.token.Ends 0) (h : first c = (.ok a, d)) :
    (do chainRest ops operand n (← first) : Parser Node) c = (.ok a, d) := by
  obtain _ | n := n
  · cases hn
  rw [bind_of_ok h]
  exact chainRest_still fun op _ hop => absurd (hd.weaker op hop) (Nat.not_lt_zero _)

theorem orExpected_of_ok {what : String} {p : Parser Node} {a : Node} {d : Cursor}
    (h : p c = (.ok a, d)) : orExpected what p c = (.ok a, d) := by
  rw [orExpected_apply, h]

/-- A name is an expression where nothing behind it could belong to it. -/
theorem expression_name (ha : 0 < g.allowance) (hc : c.token = .identifier name)
    (hd : c.advance.token.Ends 0) : expression g c = (.ok ⟨.read name, c.span⟩, c.advance) := by
  have first : atom g c = (.ok ⟨.read name, c.span⟩, c.advance) := atom_name hc hd.noValue
  have unsigned : factor g c = (.ok ⟨.read name, c.span⟩, c.advance) :=
    factor_atom ha (by simp [hc]) (by simp [hc]) hd.noCall hd.noIndex hd.noMember first
  have summed : sum g (factor g) c = (.ok ⟨.read name, c.span⟩, c.advance) :=
    chain_still ha hd (chain_still ha hd (chain_still ha hd unsigned))
  have compared : comparison g (factor g) c = (.ok ⟨.read name, c.span⟩, c.advance) := by
    rw [comparison, isKeyword, is_bind_apply, decide_eq_false (by simp [hc])]
    exact orExpected_of_ok (chain_still ha hd summed)
  rw [expression, isKeyword, is_bind_apply, decide_eq_false (by simp [hc])]
  exact orExpected_of_ok (chain_still ha hd compared)

end

theorem readTo_passes {fuel : ι → Nat} (hfuel : ∀ i, size i ≤ fuel i) (name : String)
    {rest : List Token} (hr : Follows (b.seen rest)) :
    Passing size (fun i => readTo (fuel i) .expression) (fun _ => True) b b [.identifier name]
      rest := by
  intro i lexemes c hi hc
  obtain ⟨u, us, hu, hends⟩ := hr.ends
  have behind : c.advance.On lexemes b rest := hc.advance rfl
  have room : ([Token.identifier name] ++ rest).length ≤ fuel i := Nat.le_trans hi (hfuel i)
  have pos := behind.length_pos
  rw [List.singleton_append, List.length_cons] at room
  obtain ⟨n, hn⟩ : ∃ n, fuel i = n + 1 := ⟨fuel i - 1, by omega⟩
  refine ⟨⟨.read name, c.span⟩, c.advance, ?_, trivial, behind, hc.index_le_advance⟩
  dsimp only
  rw [hn, readTo]
  exact expression_name (by show 0 < n; omega) (hc.token (Brackets.seen_of_ne nofun))
    (behind.token hu ▸ hends)

/-- The grammar of each depth judges as many tokens as it is deep. -/
theorem ready_readTo {fuel : ι → Nat} (hfuel : ∀ i, size i ≤ fuel i) :
    Ready k size fun i => ⟨fuel i, readTo (fuel i)⟩ := by
  induction k generalizing size fuel with
  | zero =>
    exact ⟨hfuel, fun p b before ts hts => absurd hts.pos (Nat.lt_irrefl 0),
      fun name b rest hr => readTo_passes hfuel name hr⟩
  | succ k ih =>
    refine ⟨hfuel, fun p b before ts hts hw => ?_,
      fun name b rest hr => readTo_passes hfuel name hr⟩
    refine .congr (x := fun i => phrase ⟨fuel i - 1, readTo (fuel i - 1)⟩ p) (fun i hi => ?_) ?_
    · obtain ⟨n, hn⟩ : ∃ n, fuel i = n + 1 := ⟨fuel i - 1, by have := hfuel i; omega⟩
      show readTo (fuel i) p = _
      rw [hn, readTo]
      rfl
    · exact phrase_judges (ih fun i => Nat.sub_le_sub_right (hfuel i) 1) p b before ts hts hw

end

end TracedScript.Grammar
