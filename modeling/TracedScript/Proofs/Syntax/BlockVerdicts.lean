import TracedScript.Proofs.Syntax.Judging

/-!
# Verdicts on blocks

Each production that owns a block is judged as soon as the phrases inside of it are. What a
production demands of what stands in front of it is that a token may stand there with which it
starts.
-/

namespace TracedScript.Grammar

open TracedScript.Parser

/-- The grammars of a family judge each phrase of at most `k` tokens, and read a name as an
expression. -/
structure Ready {ι : Type} (k : Nat) (size : ι → Nat) (g : ι → Grammar) : Prop where
  allowance : ∀ i, size i ≤ (g i).allowance
  phrase : ∀ p, JudgesPhrase k size fun i => (g i).read p
  name : ∀ name b rest, Follows (b.seen rest) →
    Passing size (fun i => (g i).read .expression) (fun _ => True) b b [.identifier name] rest

section

variable {ι κ α : Type} {k : Nat} {size : ι → Nat} {g : ι → Grammar} {r : α → Prop}
  {b : Brackets} {before : List Token → Prop} {ts rest : List Token} {t : Token}

namespace Ready

theorem reindex {less : κ → Nat} (m : κ → ι) (hm : ∀ j, less j ≤ size (m j))
    (hg : Ready k size g) : Ready k less fun j => g (m j) where
  allowance j := Nat.le_trans (hm j) (hg.allowance (m j))
  phrase p := (hg.phrase p).reindex m hm
  name name b rest h j lexemes c hj :=
    hg.name name b rest h (m j) lexemes c (Nat.le_trans hj (hm j))

/-- The same whatever has been read. -/
theorem along {m : κ → ι} (hg : Ready k size g) : Ready k (fun j => size (m j)) fun j => g (m j) :=
  hg.reindex m fun _ => Nat.le_refl _

theorem mono {m : Nat} (hg : Ready k size g) (hm : m ≤ k) : Ready m size g :=
  { hg with phrase := fun p => (hg.phrase p).mono hm }

/-- An expression inside of brackets, or wherever else nothing is demanded. -/
theorem expression (hg : Ready k size g) :
    Judges k size (fun i => (g i).read .expression) (fun _ => True) Anything Follows b b :=
  (hg.phrase .expression).judges fun _ _ => .anything

/-- An expression as an item of a list. -/
theorem item (hg : Ready k size g) (closing : Mark) (hc : closing.closes = true) :
    Judges k size (fun i => (g i).read .expression) (fun _ => True) Anything (EndsItem closing) b
      b :=
  hg.expression.narrow fun _ h => h.follows hc

end Ready

/-- A block may stand here, on this line or the next. -/
def Opens (b : Brackets) (before : List Token → Prop) : Prop :=
  ∀ es us, ¬ Solid es → before (b.seen (es ++ .mark .lbrace :: us))

theorem opens_anything : Opens b Anything := fun _ _ _ => trivial

/-- The opening of a bracket that may stand on the next line. -/
theorem opening_judges {mode : LineBreaks} {β : Type} {f : ι → Lexeme → Parser β} {q : β → Prop}
    {follow : List Token → Prop} {b' : Brackets} (hb : Opens b before)
    (hf : Judges k (fun j : After ι Lexeme => size j.index)
      (fun j => f j.index j.result) q Anything follow (b.push mode) b') :
    Judges k size (fun i => do
      Parser.skipBreaks
      let start ← Parser.enter (.mark .lbrace) mode
      f i start) q before follow b b' := by
  refine .skipBreaks fun es ts he hts hne => ?_
  exact (Accepts.enter .lbrace mode).andThen rfl hts
    ⟨fun rest => ⟨⟨_, _, rfl, nofun⟩, hb es rest he⟩, .inl hne⟩ hf

theorem statements_judges (hg : Ready k size g) {n : ι → Nat} (hn : ∀ i, size i ≤ n i)
    (hb : b.mode = .significant) :
    Judges k size (fun i => statements (g i) (n i)) (fun _ => True) Anything
      (Heads (· = .mark .rbrace)) b b := by
  intro ts hts
  simp only [statements_eq]
  exact .lines hb (.mark .rbrace) nofun nofun (fun _ => follows_mark rfl) (hg.phrase .statement)
    (fun _ => Nat.le_refl _) hn hts.ends (Nat.le_refl k) hts.dropWhile.short fun _ _ _ => trivial

/-- Statements are read up to the closing brace. -/
theorem statements_land (g : Grammar) (n : Nat) (c d : Cursor) (a : List Node)
    (h : statements g n c = (.ok a, d)) : d.token = .mark .rbrace := by
  rw [statements_eq] at h
  induction n generalizing c a with
  | zero => cases h
  | succ n ih =>
    rw [lines, skipBreaks_bind_apply, is_bind_apply] at h
    by_cases hclosed : c.skipBreaks.token = .mark .rbrace
    · rw [decide_eq_true hclosed, if_pos rfl] at h
      cases h
      exact hclosed
    · rw [decide_eq_false hclosed, if_neg Bool.false_ne_true] at h
      obtain ⟨first, e, -, h⟩ := exists_of_bind h
      rw [is_bind_apply, is_bind_apply] at h
      split at h
      · obtain ⟨rest, e', hrest, h⟩ := exists_of_bind h
        cases h
        exact ih e rest hrest
      · cases h

theorem block_judges (hg : Ready k size g) (hb : Opens b before) :
    Judges k size (fun i => block (g i)) (fun _ => True) before Anything b b := by
  refine opening_judges hb fun ts hts => ?_
  have inside : Ready k (fun j : After ι Lexeme => size j.index) _ := hg.along
  have body := statements_judges (b := b.push .significant) inside inside.allowance rfl ts hts
  refine body.andThen_landing ?_ hts fun rest hrest hne => ?_
  · intro j c a d h
    rw [statements_land _ _ _ _ _ h]
    nofun
  · refine (Accepts.leave .rbrace _ _).andThen rfl hrest ⟨fun rest => ⟨_, _, rfl, rfl⟩, .inl hne⟩ ?_
    exact .pure (fun _ => ⟨_, rfl, trivial⟩) fun _ _ => trivial

/-! ## Conditions and what is bound -/

theorem condition_judges (hg : Ready k size g) :
    Judges k size (fun i => condition (g i)) (fun _ => True) Anything Anything b b := by
  refine (Accepts.enter .lparen .ignored).first rfl ?_
  refine Judges.bind hg.along.expression ?_
  refine (Accepts.leave .rparen _ _).inside rfl rfl (fun _ => follows_mark rfl) ?_
  exact .pure (fun _ => ⟨_, rfl, trivial⟩) fun _ _ => trivial

theorem branch_judges (hg : Ready k size g) :
    Judges k size (fun i => branch (g i)) (fun _ => True) Anything Anything b b := by
  refine Judges.bind (condition_judges hg) ?_
  refine Judges.bind (block_judges hg.along opens_anything) ?_
  exact .pure (fun _ => ⟨_, rfl, trivial⟩) fun _ _ => trivial

theorem target_judges : Judges k size (fun _ => target) (fun _ => True) Anything Anything b b := by
  intro ts hts
  refine .is hts.ends (fun hs => ?_) fun hs => ?_
  · refine .loose (.advance hs rfl (hts.mono (Nat.le_succ k)) ?_)
    exact Accepts.expectIdentifier.first ⟨"x", rfl⟩
      (.pure (fun _ => ⟨_, rfl, trivial⟩) fun _ _ => trivial)
  · exact Accepts.expectIdentifier.andThen ⟨"x", rfl⟩ hts (Welcome.anything.and_heads nofun hs)
      (.pure (fun _ => ⟨_, rfl, trivial⟩) fun _ _ => trivial)

/-! ## Parts of an `if` and of a `switch` -/

/-- On this line or the next there is no part of an `if`. -/
abbrev NoPart : List Token → Prop := Next fun t => t ≠ .keyword .elif ∧ t ≠ .keyword .else

theorem alternatives_judges (hg : Ready k size g) {less n : ι → Nat} (hless : ∀ i, less i ≤ size i)
    (hn : ∀ i, less i ≤ n i) {m : Nat} (hm : m ≤ k) :
    Judges m (fun j : ι × Span => less j.1) (fun j => alternatives (g j.1) (n j.1) j.2)
      (fun _ => True) NoPart NoPart b b := by
  induction m generalizing less n with
  | zero => exact fun ts hts => absurd hts.pos (Nat.lt_irrefl 0)
  | succ m ih =>
    intro ts hts
    obtain ⟨es, t, us, rfl, he, ht⟩ := exists_next hts.ends
    have large (i : ι) (h : 0 < less i) : ∃ n', n i = n' + 1 :=
      ⟨n i - 1, by have := hn i; omega⟩
    have shorter (i : ι) : less i - 1 ≤ size i := Nat.le_trans (Nat.sub_le _ _) (hless i)
    have inside : Ready m (fun j : ι × Span => less j.1 - 1) fun j => g j.1 :=
      (hg.mono (Nat.le_of_succ_le hm)).reindex _ fun j => shorter j.1
    by_cases helif : t = .keyword .elif
    · subst helif
      have behind := hts.behind he (by simp)
      refine .ahead (p := fun j => do
        let first ← branch (g j.1)
        let others ← alternatives (g j.1) (n j.1 - 1) first.2
        return (first.1 :: others.1, others.2)) he rfl behind.ends ?_ ?_
      · intro j c hj hc
        obtain ⟨n', hn'⟩ := large j.1 hj
        rw [hn', alternatives, cursor_bind_apply, skipBreaks_bind_apply, Parser.isKeyword,
          is_bind_apply, decide_eq_true hc]
        rfl
      · refine Judges.bind ((branch_judges inside).restrict NoPart) ?_ us behind
        have rest : Judges m (fun j : After (ι × Span) (Branch × Span) => less j.index.1 - 1)
            (fun j => alternatives (g j.index.1) (n j.index.1 - 1) j.result.2) (fun _ => True)
            NoPart NoPart b b :=
          (ih shorter (fun i => Nat.sub_le_sub_right (hn i) 1) (Nat.le_of_succ_le hm)).reindex
            (fun j : After (ι × Span) (Branch × Span) => (j.index.1, j.result.2))
            fun _ => Nat.le_refl _
        exact rest.map fun j r => (j.result.1 :: r.1, r.2)
    by_cases helse : t = .keyword .else
    · subst helse
      have behind := hts.behind he (by simp)
      refine .ahead (p := fun j => do
        let body ← block (g j.1)
        return ([], some body.1, body.2)) he rfl behind.ends ?_ ?_
      · intro j c hj hc
        obtain ⟨n', hn'⟩ := large j.1 hj
        rw [hn', alternatives, cursor_bind_apply, skipBreaks_bind_apply, Parser.isKeyword,
          is_bind_apply, decide_eq_false (by simp [hc]), if_neg Bool.false_ne_true,
          Parser.isKeyword, is_bind_apply, decide_eq_true hc]
        rfl
      · refine Judges.bind (block_judges inside opens_anything) ?_ us behind
        exact .pure (fun _ => ⟨_, rfl, trivial⟩) fun _ _ => trivial
    · refine .seeingPast ((next_append he ht).mpr ⟨helif, helse⟩)
        (x := fun j => return ([], none, j.2)) (fun j c hj hc => ?_)
        (.pure (fun _ => ⟨_, rfl, trivial⟩) fun _ h => ⟨h, h⟩)
      obtain ⟨n', hn'⟩ := large j.1 hj
      rw [hn', alternatives, cursor_bind_apply, skipBreaks_bind_apply, Parser.isKeyword,
        is_bind_apply, decide_eq_false hc.1, if_neg Bool.false_ne_true, Parser.isKeyword,
        is_bind_apply, decide_eq_false hc.2, if_neg Bool.false_ne_true, modify_bind_apply,
        c.rewind_skipBreaks]

theorem cases_judges (hg : Ready k size g) {less n : ι → Nat} (hless : ∀ i, less i ≤ size i)
    (hn : ∀ i, less i ≤ n i) {m : Nat} (hm : m ≤ k) :
    Judges m less (fun i => cases (g i) (n i)) (fun _ => True) Anything
      (Heads (· ≠ .keyword .when)) b b := by
  induction m generalizing less n with
  | zero => exact fun ts hts => absurd hts.pos (Nat.lt_irrefl 0)
  | succ m ih =>
    intro ts hts
    refine .congr (x := fun i => do
      if ← Parser.isKeyword .when then
        let _ ← Parser.advance
        let first ← branch (g i)
        return first.1 :: (← cases (g i) (n i - 1))
      return []) ?_ ?_
    · intro i hi
      obtain ⟨n', hn'⟩ : ∃ n', n i = n' + 1 := ⟨n i - 1, by have := hn i; omega⟩
      rw [hn']
      rfl
    have shorter (i : ι) : less i - 1 ≤ size i := Nat.le_trans (Nat.sub_le _ _) (hless i)
    refine .is hts.ends (fun hs => ?_) fun _ => .pure (fun _ => ⟨_, rfl, trivial⟩) fun _ h =>
      ⟨h, trivial⟩
    refine .loose (.advance hs rfl hts ?_)
    have inside : Ready m (fun j : After ι Lexeme => less j.index - 1) fun j => g j.index :=
      (hg.mono (Nat.le_of_succ_le hm)).reindex _ fun j => shorter j.index
    refine .bind (branch_judges inside) ?_
    have rest : Judges m (fun j : After (After ι Lexeme) (Branch × Span) => less j.index.index - 1)
        (fun j => cases (g j.index.index) (n j.index.index - 1)) (fun _ => True) Anything _ b b :=
      (ih shorter (fun i => Nat.sub_le_sub_right (hn i) 1) (Nat.le_of_succ_le hm)).reindex
        (fun j : After (After ι Lexeme) (Branch × Span) => j.index.index) fun _ => Nat.le_refl _
    exact rest.map fun j rest => j.result.1 :: rest

/-- The `else` part of a `switch`, and what stands behind it. -/
theorem otherwise_judges (hg : Ready k size g) {finish : ι → Option (List Node) → Parser α}
    {before follow : List Token → Prop} {b' : Brackets}
    (hfinish : ∀ before, (∀ rest, before (.mark .rbrace :: rest)) →
      Judges k (fun j : ι × Option (List Node) => size j.1) (fun j => finish j.1 j.2) r before
        follow b b') (hb : ∀ rest, before (.mark .rbrace :: rest)) :
    Judges k size (fun i => do
        if ← Parser.isKeyword .else then
          let _ ← Parser.advance
          let (body, _) ← block (g i)
          pure (some body) >>= finish i
        else pure none >>= finish i) r before follow b b' := by
  intro ts hts
  refine .test hts.ends (fun hs => ?_) fun _ => ?_
  · refine .loose (.advance hs rfl (hts.mono (Nat.le_succ k)) ?_)
    have inside : Ready k (fun j : After ι Lexeme => size j.index - 1) fun j => g j.index :=
      hg.reindex _ fun _ => Nat.sub_le _ _
    refine Judges.bind (block_judges inside opens_anything) ?_
    exact (hfinish Anything fun _ => trivial).reindex
      (fun j : After (After ι Lexeme) (List Node × Span) => (j.index.index, some j.result.1))
      fun _ => Nat.sub_le _ _
  · have ended := hfinish (fun us => Heads (· ≠ .keyword .else) us ∧ before us)
      fun rest => ⟨⟨_, rest, rfl, nofun⟩, hb rest⟩
    exact (ended ts hts).reindex (fun i => (i, none)) fun _ => Nat.le_refl _

/-! ## Functions -/

/-- What stands behind the name of a parameter or option. -/
def parameterEnd (g : Grammar) (acc : List ParameterLiteral × List OptionLiteral)
    (found : String × Span) : Parser (List ParameterLiteral × List OptionLiteral) := do
  if ← Parser.isMark .equals then
    let _ ← Parser.advance
    let default ← g.read .expression
    return (acc.1, acc.2 ++ [⟨found.1, default, found.2.through default.span⟩])
  if !acc.2.isEmpty then throw (.rejected (lateParameter found.1 found.2))
  if ← Parser.isMark .colon then
    let _ ← Parser.advance
    let type ← g.read .expression
    return (acc.1 ++ [⟨found.1, some type, found.2⟩], acc.2)
  return (acc.1 ++ [⟨found.1, none, found.2⟩], acc.2)

theorem parameter_eq (g : Grammar) (acc : List ParameterLiteral × List OptionLiteral) :
    parameter g acc = Parser.expectIdentifier >>= parameterEnd g acc := rfl

theorem parameter_apply {g : Grammar} {acc : List ParameterLiteral × List OptionLiteral}
    {c : Cursor} {name : String} (hc : c.token = .identifier name) :
    parameter g acc c = parameterEnd g acc (name, c.span) c.advance := by
  rw [parameter_eq, bind_apply, expectIdentifier_apply, hc]

/-- Whether there is an option already. -/
def Optioned (v : Bool) (acc : List ParameterLiteral × List OptionLiteral) : Prop :=
  acc.2.isEmpty = !v

theorem parameterEnd_bare {g : Grammar} {acc : List ParameterLiteral × List OptionLiteral}
    (hacc : Optioned false acc) {found : String × Span} {c : Cursor}
    (hc : c.token ≠ .mark .equals ∧ c.token ≠ .mark .colon) : parameterEnd g acc found c =
      (.ok (acc.1 ++ [⟨found.1, none, found.2⟩], acc.2), c) := by
  have none : ¬ (!acc.2.isEmpty) = true := by rw [hacc]; decide
  rw [parameterEnd, Parser.isMark, is_bind_apply, decide_eq_false hc.1, if_neg Bool.false_ne_true,
    if_neg none]
  beta_reduce
  rw [Parser.isMark, is_bind_apply, decide_eq_false hc.2]
  rfl

theorem parameterEnd_late {g : Grammar} {acc : List ParameterLiteral × List OptionLiteral}
    (hacc : Optioned true acc) {found : String × Span} {c : Cursor}
    (hc : c.token ≠ .mark .equals) : parameterEnd g acc found c =
      (.error (.rejected (lateParameter found.1 found.2)), c) := by
  have some : (!acc.2.isEmpty) = true := by rw [hacc]; rfl
  rw [parameterEnd, Parser.isMark, is_bind_apply, decide_eq_false hc, if_neg Bool.false_ne_true,
    if_pos some]
  rfl

section

variable (hg : Ready k size g) (hb : b.mode = .ignored)

include hg in
/-- An option. -/
theorem parameterEnd_option {v : Bool} (hs : Heads (· = .mark .equals) (b.seen ts))
    (hts : Within k ts) : Verdict (fun j : After (Behind ι (Optioned v)) (String × Span) =>
      size j.index.index - 1) (fun j => parameterEnd (g j.index.index) j.index.result j.result)
      (Optioned true) 0 Anything (EndsItem .rparen) b b ts := by
  refine .isYes hs (.loose (.advance hs rfl (hts.mono (Nat.le_succ k)) ?_))
  have inside : Ready k (fun j : After (After (Behind ι (Optioned v)) (String × Span)) Lexeme =>
      size j.index.index.index - 1 - 1) fun j => g j.index.index.index :=
    hg.reindex _ fun _ => by omega
  refine Judges.bind (inside.item .rparen rfl) ?_
  exact .pure (fun j => ⟨_, rfl, by simp [Optioned]⟩) fun _ h => h

include hg in
theorem parameterEnd_parameter (hs : Heads (· ≠ .mark .equals) (b.seen ts)) (hts : Within k ts) :
    Verdict (fun j : After (Behind ι (Optioned false)) (String × Span) => size j.index.index - 1)
      (fun j => parameterEnd (g j.index.index) j.index.result j.result) (Optioned false) 0 Anything
      (EndsItem .rparen) b b ts := by
  refine .isNo hs (.congr (x := fun j => do
    if ← Parser.isMark .colon then
      let _ ← Parser.advance
      let type ← (g j.index.index).read .expression
      return (j.index.result.1 ++ [⟨j.result.1, some type, j.result.2⟩], j.index.result.2)
    return (j.index.result.1 ++ [⟨j.result.1, none, j.result.2⟩], j.index.result.2)) ?_ ?_)
  · intro j _
    have none : ¬ (!j.index.result.2.isEmpty) = true := by rw [j.index.holds]; decide
    rw [if_neg Bool.false_ne_true, if_neg none]
  · refine .is hts.ends (fun hs => ?_) fun _ => ?_
    · refine .loose (.advance hs rfl (hts.mono (Nat.le_succ k)) ?_)
      have inside : Ready k
          (fun j : After (After (Behind ι (Optioned false)) (String × Span)) Lexeme =>
            size j.index.index.index - 1 - 1) fun j => g j.index.index.index :=
        hg.reindex _ fun _ => by omega
      refine Judges.bind (inside.item .rparen rfl) ?_
      exact .pure (fun j => ⟨_, rfl, j.index.index.index.holds⟩) fun _ h => h
    · refine .pure (fun j => ⟨_, rfl, j.index.holds⟩) ?_
      rintro us ⟨_, us, rfl, rfl | rfl⟩
      · exact ⟨⟨_, us, rfl, nofun⟩, ⟨_, us, rfl, nofun⟩, trivial⟩
      · exact ⟨⟨_, us, rfl, nofun⟩, ⟨_, us, rfl, nofun⟩, trivial⟩

theorem parameter_refuses {name : String} (hs : Heads (· ≠ .mark .equals) (b.seen ts)) : Refusing
      (fun j : Behind ι (Optioned true) => size j.index) (fun j => parameter (g j.index) j.result) b
      (.identifier name :: ts) := by
  intro j lexemes c _ hc
  obtain ⟨u, us, hu, hne⟩ := hs
  have behind := hc.advance rfl
  refine ⟨c.advance, name, c.span, ?_, behind.lexemes, hc.index_lt_advance rfl⟩
  exact (parameter_apply (hc.token (Brackets.seen_of_ne nofun))).trans
    (parameterEnd_late j.holds (behind.token hu ▸ hne))

theorem parameter_passes (hr : EndsItem .rparen (b.seen rest)) :
    Passing (fun j : Behind ι (Optioned false) => size j.index)
      (fun j => parameter (g j.index) j.result) (Optioned false) b b [.identifier "x"] rest := by
  intro j lexemes c _ hc
  obtain ⟨u, us, hu, hend⟩ := hr
  have behind : c.advance.On lexemes b rest := hc.advance rfl
  have ended : c.advance.token ≠ .mark .equals ∧ c.advance.token ≠ .mark .colon := by
    rw [behind.token hu]
    obtain rfl | rfl := hend
    · exact ⟨nofun, nofun⟩
    · exact ⟨nofun, nofun⟩
  exact ⟨_, _, (parameter_apply (hc.token (Brackets.seen_of_ne nofun))).trans
    (parameterEnd_bare j.holds ended), j.holds, behind, hc.index_le_advance⟩

include hg in
theorem option_passes (hr : EndsItem .rparen (b.seen rest)) :
    Passing (fun j : Behind ι (Optioned true) => size j.index)
      (fun j => parameter (g j.index) j.result) (Optioned true) b b
      [.identifier "x", .mark .equals, .identifier "x"] rest := by
  intro j lexemes c hj hc
  have equals : c.advance.On lexemes b (.mark .equals :: .identifier "x" :: rest) := hc.advance rfl
  have value : c.advance.advance.On lexemes b ([.identifier "x"] ++ rest) := equals.advance rfl
  have shorter : ([Token.identifier "x"] ++ rest).length ≤ size j.index := by
    simp only [List.length_append, List.length_cons] at hj ⊢
    omega
  obtain ⟨e, d, he, -, hd, moved⟩ :=
    hg.name "x" b rest (hr.follows rfl) j.index lexemes _ shorter value
  have further := Nat.le_trans equals.index_le_advance moved
  refine ⟨(j.result.1, j.result.2 ++ [⟨"x", e, c.span.through e.span⟩]), d,
    (parameter_apply (hc.token (Brackets.seen_of_ne (by simp)))).trans ?_, by simp [Optioned], hd,
    Nat.le_trans hc.index_le_advance further⟩
  rw [parameterEnd, Parser.isMark, is_bind_apply,
    decide_eq_true (equals.token (Brackets.seen_of_ne (by simp))), if_pos rfl, advance_bind_apply,
    bind_of_ok he]
  rfl

include hg hb in
theorem parameter_verdict (v : Bool) (hts : Within k ts) : ∃ v', Verdict
    (fun j : Behind ι (Optioned v) => size j.index) (fun j => parameter (g j.index) j.result)
    (Optioned v') 1 (Heads (· ≠ .mark .rparen)) (EndsItem .rparen) b b ts := by
  obtain ⟨t, us, hu⟩ := b.exists_cons hts.ends
  have seen := hts.seen b
  rw [hu] at seen
  by_cases hname : ∃ name, t = .identifier name
  · obtain ⟨name, rfl⟩ := hname
    have behind : Within k us := (seen.mono (Nat.le_succ k)).of_cons nofun
    have first {w : Bool} (h : Verdict (fun j : After (Behind ι (Optioned v)) (String × Span) =>
        size j.index.index - 1) (fun j => parameterEnd (g j.index.index) j.index.result j.result)
        (Optioned w) 0 Anything (EndsItem .rparen) b b us) :
        Verdict (fun j : Behind ι (Optioned v) => size j.index)
          (fun j => parameter (g j.index) j.result) (Optioned w) 1 (Heads (· ≠ .mark .rparen))
          (EndsItem .rparen) b b ts := by
      refine .of_seen ?_
      rw [hu]
      exact .step (fun _ => (Accepts.expectIdentifier.passing ⟨name, rfl⟩).begins) rfl behind.ends h
    obtain ⟨u, vs, hv⟩ := b.exists_cons behind.ends
    by_cases hequals : u = .mark .equals
    · exact ⟨true, first (parameterEnd_option hg ⟨u, vs, hv, hequals⟩ behind)⟩
    cases v with
    | false => exact ⟨false, first (parameterEnd_parameter hg ⟨u, vs, hv, hequals⟩ behind)⟩
    | true =>
      refine ⟨true, .of_seen ?_⟩
      rw [hu]
      exact .refuses (Nat.succ_lt_succ (length_pos_of_ends behind.ends))
        (parameter_refuses ⟨u, vs, hv, hequals⟩)
  · have reject (j : Behind ι (Optioned v)) (c : Cursor) (hc : c.token = t) :
        parameter (g j.index) j.result c = Parser.unexpected "identifier" c :=
      bind_of_error (Accepts.expectIdentifier.reject (b := b) j c (hc ▸ hname))
    have counts : t ≠ .eol := Brackets.counts_of_ignored hb hu
    cases v with
    | false =>
      refine ⟨false, .stuck "identifier" [.identifier "x"] hu (fun j c _ => reject j c) (by simp)
        (Nat.le_refl 1) (fun rest hr => ?_) (.inl counts) fun rest _ => ?_⟩
      · exact parameter_passes hr
      · exact ⟨_, rest, Brackets.seen_of_ne nofun, nofun⟩
    | true =>
      refine ⟨true, .stuck "identifier" [.identifier "x", .mark .equals, .identifier "x"] hu
        (fun j c _ => reject j c) (by simp) (by simp) (fun rest hr => ?_) (.inl counts)
        fun rest _ => ?_⟩
      · exact option_passes hg hr
      · exact ⟨_, _, Brackets.seen_of_ne nofun, nofun⟩

include hg hb in
theorem parameters_judges : Judges k size
    (fun i => Parser.commaSeparated (parameter (g i)) .rparen (g i).allowance ([], []))
    (fun _ => True) Anything (Heads (· = .mark .rparen)) b b := by
  have comma : Mark.rparen ≠ .comma := nofun
  have list := Judges.commaSeparated (fun i => parameter (g i)) Optioned hb comma
    (fun v _ hts => parameter_verdict hg hb v hts) (fun _ => Nat.le_refl _) hg.allowance false
    (Nat.le_refl k)
  exact list.reindex (fun i => ⟨i, ([], []), rfl⟩) fun _ => Nat.le_refl _

end

/-- What may stand behind the type of a result: the body. -/
def BeforeBody (ts : List Token) : Prop := Follows ts ∧ Next (· ≠ .mark .arrow) ts

theorem opens_beforeBody : Opens b BeforeBody := by
  intro es us he
  have brace : Token.mark .lbrace ≠ .eol := nofun
  have behind {now : Token → Prop} (h : now (.mark .lbrace)) :
      Next now (b.seen (es ++ .mark .lbrace :: us)) :=
    (b.next_seen _).mpr ((next_append he brace).mpr h)
  refine ⟨⟨(b.seen_append_cons he brace).imp ?_, behind ⟨nofun, nofun⟩⟩, behind nofun⟩
  rintro t (rfl | rfl)
  · exact Token.ends_mark rfl
  · exact ⟨nofun, nofun, nofun, nofun, nofun⟩

theorem returnType_judges (hg : Ready k size g) :
    Judges k size (fun i => returnType (g i)) (fun _ => True) Anything BeforeBody b b := by
  intro ts hts
  obtain ⟨es, t, us, rfl, he, ht⟩ := exists_next hts.ends
  by_cases harrow : t = .mark .arrow
  · subst harrow
    have behind := (hts.mono (Nat.le_succ k)).behind he (by simp)
    refine .ahead (p := fun i => do
      Parser.skipBreaks
      return some (← (g i).read .expression)) he rfl behind.ends ?_ ?_
    · intro i c _ hc
      rw [returnType, cursor_bind_apply, skipBreaks_bind_apply, Parser.isMark, is_bind_apply,
        decide_eq_true hc]
      rfl
    · have type : Judges k (fun i => size i - 1) (fun i => do
          Parser.skipBreaks
          return some (← (g i).read .expression)) (fun _ => True) Anything Follows b b := by
        refine .skipBreaks fun es ts he hts hne => ?_
        have inside : Ready k (fun i => size i - 1) g := hg.reindex id fun _ => Nat.sub_le _ _
        refine .map (fun _ e => some e) hts.ends (.loose (inside.phrase .expression b _ ts hts ?_))
        exact ⟨fun _ => ⟨⟨_, _, rfl, by simp⟩, trivial⟩, .inl hne⟩
      exact (type us behind).narrow fun _ h => h.1
  · refine .seeingPast ((next_append he ht).mpr harrow) (x := fun _ => return none)
      (fun i c _ hc => ?_) (.pure (fun _ => ⟨_, rfl, trivial⟩) fun _ h => ⟨h.2, trivial⟩)
    rw [returnType, cursor_bind_apply, skipBreaks_bind_apply, Parser.isMark, is_bind_apply,
      decide_eq_false hc, if_neg Bool.false_ne_true, modify_bind_apply, c.rewind_skipBreaks]

theorem lambdaBody_judges (hg : Ready k size g) (hb : Opens b before) :
    Judges k size (fun i => lambdaBody (g i)) (fun _ => True) before Anything b b := by
  refine opening_judges hb ?_
  refine Judges.bind hg.along.expression ?_
  refine (Accepts.leave .rbrace _ _).inside rfl rfl (fun _ => follows_mark rfl) ?_
  exact .pure (fun _ => ⟨_, rfl, trivial⟩) fun _ _ => trivial

/-! ## Constructs -/

section

variable (hg : Ready k (fun i => size i - 1) g) (hs : Heads (· = t) (b.seen ts))
  (hts : Within (k + 1) ts)

include hg hs hts

theorem handler_verdict (ht : t = .keyword .handler) :
    Verdict size (fun i => handler (g i)) (fun _ => True) 1 before Anything b b ts := by
  subst ht
  refine (Accepts.expectKeyword .handler).commit hs hts ?_
  refine Judges.bind (block_judges hg.along opens_anything) ?_
  exact .pure (fun _ => ⟨_, rfl, trivial⟩) fun _ _ => trivial

theorem whileLoop_verdict (ht : t = .keyword .while) :
    Verdict size (fun i => whileLoop (g i)) (fun _ => True) 1 before Anything b b ts := by
  subst ht
  refine (Accepts.expectKeyword .while).commit hs hts ?_
  refine Judges.bind (condition_judges hg.along) ?_
  refine Judges.bind (block_judges hg.along opens_anything) ?_
  exact .pure (fun _ => ⟨_, rfl, trivial⟩) fun _ _ => trivial

theorem forLoop_verdict (ht : t = .keyword .for) :
    Verdict size (fun i => forLoop (g i)) (fun _ => True) 1 before Anything b b ts := by
  subst ht
  refine (Accepts.expectKeyword .for).commit hs hts ?_
  refine (Accepts.enter .lparen .ignored).first rfl ?_
  refine Judges.bind target_judges ?_
  refine (Accepts.expectKeyword .in).first rfl ?_
  refine Judges.bind hg.along.expression ?_
  refine (Accepts.leave .rparen _ _).inside rfl rfl (fun _ => follows_mark rfl) ?_
  refine Judges.bind (block_judges hg.along opens_anything) ?_
  exact .pure (fun _ => ⟨_, rfl, trivial⟩) fun _ _ => trivial

theorem conditional_verdict (ht : t = .keyword .if) :
    Verdict size (fun i => conditional (g i)) (fun _ => True) 1 before NoPart b b ts := by
  subst ht
  refine (Accepts.expectKeyword .if).commit hs hts ?_
  refine Judges.bind ((branch_judges hg.along).restrict NoPart) ?_
  have rest : Judges k (fun j : After (After ι Lexeme) (Branch × Span) => size j.index.index - 1)
      (fun j => alternatives (g j.index.index) (g j.index.index).allowance j.result.2)
      (fun _ => True) NoPart NoPart b b :=
    (alternatives_judges hg (fun _ => Nat.le_refl _) hg.allowance (Nat.le_refl k)).reindex
      (fun j : After (After ι Lexeme) (Branch × Span) => (j.index.index, j.result.2))
      fun _ => Nat.le_refl _
  exact rest.map fun j r =>
    (⟨.if (j.result.1 :: r.1) r.2.1, j.index.result.span.through r.2.2⟩ : Node)

theorem switch_verdict (ht : t = .keyword .switch) :
    Verdict size (fun i => switch (g i)) (fun _ => True) 1 before Anything b b ts := by
  subst ht
  refine (Accepts.expectKeyword .switch).commit hs hts ?_
  refine (Accepts.enter .lparen .ignored).first rfl ?_
  refine Judges.bind target_judges ?_
  refine (Accepts.expectKeyword .as).first rfl ?_
  refine Judges.bind hg.along.expression ?_
  refine (Accepts.leave .rparen _ _).inside rfl rfl (fun _ => follows_mark rfl) ?_
  refine opening_judges opens_anything ?_
  refine Judges.bind (cases_judges hg.along (fun _ => Nat.le_refl _) (fun j => hg.allowance _)
    (Nat.le_refl k)) ?_
  dsimp only
  refine otherwise_judges hg.along (fun before hb => ?_) fun rest => ⟨_, rest, rfl, nofun⟩
  refine (Accepts.leave .rbrace _ _).inside rfl rfl hb ?_
  exact .pure (fun _ => ⟨_, rfl, trivial⟩) fun _ _ => trivial

theorem function_verdict (ht : t = .keyword .func ∨ t = .keyword .lambda) :
    Verdict size (fun i => function (g i)) (fun _ => True) 1 before Anything b b ts := by
  have content : t.isContent = true := by
    obtain rfl | rfl := ht <;> rfl
  have rest (isLambda : Bool) : Judges k (fun j : After ι Lexeme => size j.index - 1) (fun j => do
      let _ ← Parser.enter (.mark .lparen) .ignored
      let signature ← Parser.commaSeparated (parameter (g j.index)) .rparen
        (g j.index).allowance ([], [])
      let _ ← Parser.leave (.mark .rparen) "',' or ')'"
      let returns ← returnType (g j.index)
      let body ← if isLambda then lambdaBody (g j.index) else block (g j.index)
      return (⟨.function ⟨signature.1.1, signature.1.2, returns, body.1⟩,
        j.result.span.through body.2⟩ : Node))
      (fun _ => True) Anything Anything b b := by
    refine (Accepts.enter .lparen .ignored).first rfl ?_
    refine Judges.bind (parameters_judges hg.along rfl) ?_
    refine (Accepts.leave .rparen _ _).inside rfl rfl (fun rest => ⟨_, rest, rfl, rfl⟩) ?_
    refine Judges.bind (returnType_judges hg.along) ?_
    cases isLambda with
    | true =>
      refine Judges.bind (lambdaBody_judges hg.along opens_beforeBody) ?_
      exact .pure (fun _ => ⟨_, rfl, trivial⟩) fun _ _ => trivial
    | false =>
      refine Judges.bind (block_judges hg.along opens_beforeBody) ?_
      exact .pure (fun _ => ⟨_, rfl, trivial⟩) fun _ _ => trivial
  refine .is hts.ends (fun hl => ?_) fun hl => ?_
  · exact .advance hs content hts (rest true)
  · exact .advance hs content hts (rest false)

end

end

end TracedScript.Grammar
