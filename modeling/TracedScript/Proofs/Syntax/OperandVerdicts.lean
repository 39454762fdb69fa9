import TracedScript.Proofs.Syntax.BlockVerdicts

/-!
# Verdicts on expressions and statements

From operands up to statements: each level is judged as soon as the levels inside of it are.
Where an argument starts with a name, it depends on the token behind the name what it is.
-/

namespace TracedScript.Grammar

open TracedScript.Parser

section

variable {ι : Type} {k : Nat} {size : ι → Nat} {g : ι → Grammar} {b : Brackets}
  {before : List Token → Prop} {ts us rest : List Token} {t : Token}

/-! ## Arguments -/

/-- A token that is seen in front of the end is not the only one. -/
theorem two_le_of_heads (hts : ts.getLast? = some .eof) (h : Heads (· ≠ .eof) (b.seen ts)) :
    2 ≤ ts.length := by
  obtain ⟨u, us, hu, hne⟩ := h
  have ends := b.seen_ends hts
  have short := b.length_seen_le ts
  rw [hu] at ends short
  have some := length_pos_of_ends (Cursor.ends_of_cons ends hne)
  rw [List.length_cons] at short
  omega

/-- A name is not rejected, whatever is behind it. -/
theorem not_failing {α : Type} {p : ι → Parser α} {r : α → Prop} {name what : String}
    (hname : ∀ rest, Follows (b.seen rest) → Passing size p r b b [.identifier name] rest)
    (hb : b.mode = .ignored) {es : List Token} (he : ¬ Solid es)
    (hu : us ++ [t] = .identifier name :: es) (hf : Failing size p b us t what) {i : ι}
    (hi : us.length + 3 ≤ size i) : False := by
  let after : List Token := [.mark .comma, .eof]
  have whole : us ++ t :: after = .identifier name :: (es ++ after) := by
    rw [← List.cons_append, ← hu, List.append_assoc]
    rfl
  have follows : Follows (b.seen (es ++ after)) := by
    rw [Brackets.seen_ignored hb he, Brackets.seen_of_ne (t := .mark .comma) nofun]
    exact follows_mark rfl
  have ends : (us ++ t :: after).getLast? = some .eof := by
    rw [List.getLast?_append_of_ne_nil _ (List.cons_ne_nil _ _)]
    rfl
  have small : (us ++ t :: after).length ≤ size i := by simpa [after] using hi
  have alone : b.seen (us ++ t :: after) = us ++ t :: after := by
    rw [whole]
    exact Brackets.seen_of_ne nofun
  obtain ⟨lexemes, c, hc⟩ := Cursor.exists_on b ends alone
  obtain ⟨d, failed, -⟩ := hf i lexemes c after small hc
  rw [whole] at small hc
  obtain ⟨a, d', passed, -⟩ := hname _ follows i lexemes c small hc
  rw [passed] at failed
  cases failed

/-- An argument without a name in front. -/
def bareArgument (g : Grammar) (acc : Arguments) : Parser Arguments := do
  let value ← g.read .expression
  return (acc.1 ++ [value], acc.2)

theorem argument_eq_bare {g : Grammar} {acc : Arguments} {lexemes : Array Lexeme} {c : Cursor}
    (hc : c.On lexemes b (t :: us)) (ht : t ≠ .eol)
    (h : (∃ name, t = .identifier name) → Heads (· ≠ .mark .equals) (b.seen us)) :
    argument g acc c = bareArgument g acc c := by
  have none : namedStart? c = none := by
    unfold namedStart?
    rw [hc.token (Brackets.seen_of_ne ht)]
    split
    · rename_i name
      obtain ⟨u, vs, hu, hne⟩ := h ⟨name, rfl⟩
      have next := (hc.advance rfl).token hu
      dsimp only
      rw [if_neg (next ▸ hne)]
    · rfl
  rw [argument, cursor_bind_apply, none]
  rfl

section

variable (hg : Ready k size g) (hb : b.mode = .ignored)

include hg hb

omit hb in
theorem bareArgument_passes (name : String) (hr : Follows (b.seen rest)) :
    Passing (fun j : ι × Arguments => size j.1) (fun j => bareArgument (g j.1) j.2) (fun _ => True)
      b b [.identifier name] rest := by
  intro j lexemes c hj hc
  obtain ⟨value, d, hvalue, -, found⟩ := hg.name name b rest hr j.1 lexemes c hj hc
  exact ⟨_, d, bind_of_ok hvalue, trivial, found⟩

/-- A name alone is an argument. -/
theorem argument_passes (name : String) {es : List Token} (he : ¬ Solid es)
    (hr : EndsItem .rparen (b.seen rest)) : Passing (fun j : ι × Arguments => size j.1)
      (fun j => argument (g j.1) j.2) (fun _ => True) b b (.identifier name :: es) rest := by
  intro j lexemes c hj hc
  have skip : b.seen (es ++ rest) = b.seen rest := Brackets.seen_ignored hb he
  have next : Heads (· ≠ .mark .equals) (b.seen (es ++ rest)) := by
    rw [skip]
    refine hr.imp ?_
    rintro _ (rfl | rfl) <;> nofun
  obtain ⟨a, d, hbare, -, hd, moved⟩ :=
    bareArgument_passes hg name (skip.symm ▸ hr.follows rfl) j lexemes c hj hc
  exact ⟨a, d, (argument_eq_bare hc nofun fun _ => next).trans hbare, trivial,
    hd.behind (fun hm => he ⟨_, hm, nofun⟩) skip, moved⟩

theorem bareArgument_judged (hts : Within k ts) : Verdict (fun j : ι × Arguments => size j.1)
    (fun j => bareArgument (g j.1) j.2) (fun _ => True) 1 (Heads (· ≠ .mark .rparen))
    (EndsItem .rparen) b b ts := by
  have welcome : Welcome (Heads (· ≠ .mark .rparen)) (.identifier "x") (b.seen ts) :=
    .of_ignored hb hts.ends fun rest => ⟨_, rest, rfl, nofun⟩
  have value := (hg.phrase .expression).reindex (fun j : ι × Arguments => j.1)
    (fun _ => Nat.le_refl _) b _ ts hts welcome
  have item := value.narrow fun _ (h : EndsItem .rparen _) => h.follows rfl
  exact item.map (fun j e => (j.2.1 ++ [e], j.2.2)) hts.ends

/-- Where the expression is rejected, so is the argument. -/
theorem argument_failing (ht : t ≠ .eol)
    (h : (∃ name, t = .identifier name) → Heads (· ≠ .mark .equals) (b.seen us))
    {vs : List Token} {u : Token} {what : String} (split : t :: us = vs ++ u :: rest)
    (run : Failing (fun j : ι × Arguments => size j.1) (fun j => bareArgument (g j.1) j.2) b vs u
      what) :
    Failing (fun j : ι × Arguments => size j.1) (fun j => argument (g j.1) j.2) b vs u what := by
  obtain ⟨w, hw⟩ : ∃ w, vs ++ [u] = t :: w := by
    cases vs with
    | nil => exact ⟨[], by rw [(List.cons_eq_cons.mp split).1]; rfl⟩
    | cons v vs => exact ⟨vs ++ [u], by rw [(List.cons_eq_cons.mp split).1]; rfl⟩
  have whole (zs : List Token) : vs ++ u :: zs = t :: (w ++ zs) := by
    rw [← List.cons_append, ← hw, List.append_assoc]
    rfl
  intro j lexemes c rest' hj hc
  by_cases hn : (∃ name, t = .identifier name) → Heads (· ≠ .mark .equals) (b.seen (w ++ rest'))
  · obtain ⟨d, hbare, hd⟩ := run j lexemes c rest' hj hc
    exact ⟨d, (argument_eq_bare (whole rest' ▸ hc) ht hn).trans hbare, hd⟩
  · -- then the name would have been rejected by itself
    obtain ⟨⟨name, rfl⟩, hequals⟩ := Classical.not_imp.mp hn
    have hus : us = w ++ rest := (List.cons_eq_cons.mp (split.trans (whole rest))).2
    have empty : ¬ Solid w := fun hs =>
      hequals (LooksLike.heads (hus ▸ .of_solid hs) (h ⟨name, rfl⟩))
    have behind : rest'.getLast? = some .eof := by
      have ends := hc.ends
      rw [whole rest'] at ends
      exact ends_behind (Cursor.ends_of_cons ends nofun) fun hm => empty ⟨_, hm, nofun⟩
    have two : 2 ≤ rest'.length := by
      refine two_le_of_heads behind (b := b) ?_
      rw [Brackets.seen_ignored hb empty] at hequals
      obtain ⟨y, ys, hy⟩ := b.exists_cons behind
      refine ⟨y, ys, hy, ?_⟩
      rintro rfl
      exact hequals ⟨_, ys, hy, nofun⟩
    rw [List.length_append, List.length_cons] at hj
    exact False.elim (not_failing (fun _ hr => bareArgument_passes hg name hr) hb empty hw run
      (Nat.le_trans (by omega) hj))

/-- Where an argument has no name in front, it is read as an expression. -/
theorem bareArgument_verdict (hts : Within k (t :: us)) (ht : t ≠ .eol)
    (h : (∃ name, t = .identifier name) → Heads (· ≠ .mark .equals) (b.seen us)) :
    Verdict (fun j : ι × Arguments => size j.1) (fun j => argument (g j.1) j.2) (fun _ => True) 1
      (Heads (· ≠ .mark .rparen)) (EndsItem .rparen) b b (t :: us) := by
  have agree {rest : List Token} (hr : LooksLike us rest ∨ EndsItem .rparen (b.seen rest))
      (j : ι × Arguments) (lexemes : Array Lexeme) (c : Cursor)
      (hc : c.On lexemes b (t :: rest)) : argument (g j.1) j.2 c = bareArgument (g j.1) j.2 c := by
    refine argument_eq_bare hc ht fun hname => ?_
    obtain hr | hr := hr
    · exact hr.heads (h hname)
    · refine hr.imp ?_
      rintro _ (rfl | rfl) <;> nofun
  -- what is behind the first token is seen by both, or ends the argument
  have sees {vs rest rest' : List Token} (hs : us = vs ++ rest)
      (hr : LooksLike rest rest' ∨ EndsItem .rparen (b.seen rest')) :
      LooksLike us (vs ++ rest') ∨ EndsItem .rparen (b.seen (vs ++ rest')) := by
    subst hs
    by_cases hv : Solid vs
    · exact .inl (.of_solid hv)
    · rw [Brackets.seen_ignored hb hv]
      exact hr.imp_left (·.append vs)
  cases bareArgument_judged hg hb hts with
  | passes vs rest split inside long run start =>
    obtain _ | ⟨v, vs⟩ := vs
    · cases long
    obtain ⟨rfl, hus⟩ := List.cons_eq_cons.mp split
    refine .passes (t :: vs) rest split inside long (fun rest' hr j lexemes c hj hc => ?_)
      (.inl (solid_cons ht))
    rw [agree (sees hus hr) j lexemes c hc]
    exact run rest' hr j lexemes c hj hc
  | fails vs ws rest u what split inside long run complete stop start =>
    have failing := argument_failing hg hb ht h split run
    obtain _ | ⟨v, vs⟩ := vs
    · refine .fails [] [.identifier "x"] rest u what split (by simp) (Nat.le_refl 1) failing ?_ stop
        (.inr fun rest' _ => ⟨_, rest', Brackets.seen_of_ne nofun, nofun⟩)
      exact fun rest' hr => argument_passes hg hb "x" not_solid_nil hr
    obtain ⟨rfl, hus⟩ := List.cons_eq_cons.mp split
    by_cases hv : (∃ name, t = .identifier name) → Solid vs
    · refine .fails (t :: vs) ws rest u what split inside long failing
        (fun rest' hr j lexemes c hj hc => ?_) stop (.inl (solid_cons ht))
      obtain ⟨a, d, hbare, hd⟩ := complete rest' hr j lexemes c hj hc
      rw [List.append_assoc] at hc
      refine ⟨a, d, (argument_eq_bare hc ht fun hname => ?_).trans hbare, hd⟩
      exact LooksLike.heads (hus ▸ .of_solid (hv hname)) (h hname)
    · obtain ⟨⟨name, rfl⟩, empty⟩ := Classical.not_imp.mp hv
      refine .fails (.identifier name :: vs) [] rest u what split ?_ (by simp) failing ?_ stop
        (.inl (solid_cons ht))
      · rw [List.append_nil]
        exact fun hm => inside (List.mem_append_left _ hm)
      · intro rest' hr
        rw [List.append_nil]
        exact argument_passes hg hb name empty hr
  | refuses long run =>
    refine .refuses long fun j lexemes c hj hc => ?_
    obtain ⟨d, name, span, hbare, hd⟩ := run j lexemes c hj hc
    have behind : us.getLast? = some .eof := by
      cases us with
      | nil => exact absurd long (Nat.lt_irrefl 1)
      | cons u us => exact List.getLast?_cons_cons ▸ hts.ends
    exact ⟨d, name, span, (agree (.inl (.refl behind)) j lexemes c hc).trans hbare, hd⟩

omit hb in
theorem namedArgument_verdict {name : String} (hts : Within k (.identifier name :: us))
    (hs : Heads (· = .mark .equals) (b.seen us)) :
    Verdict (fun j : ι × Arguments => size j.1) (fun j => argument (g j.1) j.2) (fun _ => True) 1
      before (EndsItem .rparen) b b (.identifier name :: us) := by
  have behind : Within k us := (hts.mono (Nat.le_succ k)).of_cons nofun
  have run : ∀ rest', LooksLike us rest' ∨ Heads (· = .mark .equals) (b.seen rest') →
      Begins (fun j : ι × Arguments => size j.1) (fun j => argument (g j.1) j.2)
        (fun j (found : Span) => do
          let _ ← Parser.advance
          let value ← (g j.1).read .expression
          return (j.2.1, j.2.2 ++ [⟨name, value, found.through value.span⟩]))
        (fun _ => True) b b [.identifier name] rest' := by
    intro rest' hr j lexemes c _ hc
    have next : c.advance.token = .mark .equals := by
      obtain ⟨u, vs, hu, rfl⟩ := hr.elim (fun h => h.heads hs) id
      exact Cursor.On.token (hc.advance rfl) hu
    refine ⟨c.span, c.advance, ?_, trivial, hc.advance rfl, hc.index_le_advance⟩
    have named : namedStart? c = some (name, c.span, c.advance.advance) := by
      unfold namedStart?
      rw [hc.token (Brackets.seen_of_ne nofun)]
      dsimp only
      rw [if_pos next]
    show argument (g j.1) j.2 c = _
    rw [argument, cursor_bind_apply, named]
    rfl
  have value : Verdict (fun j : After (ι × Arguments) Span => size j.index.1 - 1)
      (fun j => do
        let _ ← Parser.advance
        let value ← (g j.index.1).read .expression
        return (j.index.2.1, j.index.2.2 ++ [⟨name, value, j.result.through value.span⟩]))
      (fun _ => True) 1 (Heads (· = .mark .equals)) (EndsItem .rparen) b b us := by
    refine .advance hs rfl (behind.mono (Nat.le_succ k)) ?_
    have inside : Ready k (fun j : After (After (ι × Arguments) Span) Lexeme =>
        size j.index.index.1 - 1 - 1) fun j => g j.index.index.1 := hg.reindex _ fun _ => by omega
    exact Judges.map (fun j value => (j.index.index.2.1,
      j.index.index.2.2 ++ [⟨name, value, j.index.result.through value.span⟩]))
      (inside.item .rparen rfl)
  exact (Verdict.of_begins (by simp) (Nat.le_refl 1) run (.inl (solid_cons nofun)) behind.ends
    value).imp (fun _ h => h) (by omega)

theorem argument_verdict (hts : Within k ts) : Verdict (fun j : ι × Arguments => size j.1)
    (fun j => argument (g j.1) j.2) (fun _ => True) 1 (Heads (· ≠ .mark .rparen))
    (EndsItem .rparen) b b ts := by
  obtain ⟨t, us, hu⟩ := b.exists_cons hts.ends
  have seen := hts.seen b
  have counts : t ≠ .eol := Brackets.counts_of_ignored hb hu
  refine .of_seen ?_
  rw [hu] at seen ⊢
  by_cases named : (∃ name, t = .identifier name) ∧ Heads (· = .mark .equals) (b.seen us)
  · obtain ⟨⟨name, rfl⟩, hs⟩ := named
    exact namedArgument_verdict hg seen hs
  · refine bareArgument_verdict hg hb seen counts ?_
    rintro ⟨name, rfl⟩
    have ends := Cursor.ends_of_cons seen.ends nofun
    obtain ⟨u, vs, hv⟩ := b.exists_cons ends
    exact ⟨u, vs, hv, fun he => named ⟨⟨name, rfl⟩, u, vs, hv, he⟩⟩

end

/-! ## Lists -/

/-- Expressions between commas. -/
theorem expressions_judges (hg : Ready k size g) (hb : b.mode = .ignored) {closing : Mark}
    (hc : closing.closes = true) (hcomma : closing ≠ .comma)
    (hname : Token.identifier "x" ≠ .mark closing) : Judges k size
      (fun i => expressions (g i) closing) (fun _ => True) Anything (Heads (· = .mark closing)) b
      b := by
  refine Judges.list (fun i acc => do return acc ++ [← (g i).read .expression]) hb hcomma
    (fun ts hts => ?_) hg.allowance []
  have welcome : Welcome (Heads (· ≠ .mark closing)) (.identifier "x") (b.seen ts) :=
    .of_ignored hb hts.ends fun rest => ⟨_, rest, rfl, hname⟩
  have value := (hg.phrase .expression).reindex (fun j : ι × List Node => j.1)
    (fun _ => Nat.le_refl _) b _ ts hts welcome
  have item := value.narrow fun _ (h : EndsItem closing _) => h.follows hc
  exact item.map (fun j e => j.2 ++ [e]) hts.ends

theorem entry_verdict (hg : Ready k size g) (hb : b.mode = .ignored) (hts : Within k ts) :
    Verdict (fun j : ι × List (Node × Node) => size j.1) (fun j => entry (g j.1) j.2)
      (fun _ => True) 1 (Heads (· ≠ .mark .rbrace)) (EndsItem .rbrace) b b ts := by
  have welcome : Welcome (Heads (· ≠ .mark .rbrace)) (.identifier "x") (b.seen ts) :=
    .of_ignored hb hts.ends fun rest => ⟨_, rest, rfl, nofun⟩
  have key := (hg.phrase .expression).reindex (fun j : ι × List (Node × Node) => j.1)
    (fun _ => Nat.le_refl _) b _ ts hts welcome
  refine key.andThen hts ?_ (Nat.le_succ k) hts.pos
  refine (Accepts.expect rfl _).inside rfl hb (fun _ => follows_mark rfl) ?_
  have inside : Ready k (fun j : After (After (ι × List (Node × Node)) Node) Lexeme =>
      size j.index.index.1 - 1) fun j => g j.index.index.1 := hg.reindex _ fun _ => Nat.sub_le _ _
  exact Judges.map (fun j value => j.index.index.2 ++ [(j.index.result, value)])
    (inside.item .rbrace rfl)

section

variable (hg : Ready k (fun i => size i - 1) g)

include hg

theorem arguments_verdict (hs : Heads (· = .mark .lparen) (b.seen ts)) (hts : Within (k + 1) ts) :
    Verdict size (fun i => arguments (g i)) (fun _ => True) 1 before Anything b b ts := by
  have comma : Mark.rparen ≠ .comma := nofun
  refine (Accepts.enter .lparen .ignored).commit hs hts ?_
  have inside : Ready k (fun j : After ι Lexeme => size j.index - 1) fun j => g j.index := hg.along
  refine Judges.bind (Judges.list (fun j => argument (g j.index)) rfl comma
    (fun _ hts => argument_verdict inside rfl hts) inside.allowance ([], [])) ?_
  refine (Accepts.leave .rparen _ _).inside rfl rfl (fun rest => ⟨_, rest, rfl, rfl⟩) ?_
  exact .pure (fun _ => ⟨_, rfl, trivial⟩) fun _ _ => trivial

theorem group_verdict (hs : Heads (· = .mark .lparen) (b.seen ts)) (hts : Within (k + 1) ts) :
    Verdict size (fun i => group (g i)) (fun _ => True) 1 before Anything b b ts := by
  refine (Accepts.enter .lparen .ignored).commit hs hts ?_
  refine Judges.bind (expressions_judges hg.along rfl rfl nofun nofun) ?_
  refine (Accepts.leave .rparen _ _).inside rfl rfl (fun rest => ⟨_, rest, rfl, rfl⟩) ?_
  refine .pure (fun j => ?_) fun _ _ => trivial
  split
  · exact ⟨_, rfl, trivial⟩
  · exact ⟨_, rfl, trivial⟩

theorem array_verdict (hs : Heads (· = .mark .lbracket) (b.seen ts)) (hts : Within (k + 1) ts) :
    Verdict size (fun i => array (g i)) (fun _ => True) 1 before Anything b b ts := by
  refine (Accepts.enter .lbracket .ignored).commit hs hts ?_
  refine Judges.bind (expressions_judges hg.along rfl rfl nofun nofun) ?_
  refine (Accepts.leave .rbracket _ _).inside rfl rfl (fun rest => ⟨_, rest, rfl, rfl⟩) ?_
  exact .pure (fun _ => ⟨_, rfl, trivial⟩) fun _ _ => trivial

theorem dictionary_verdict (hs : Heads (· = .mark .lbrace) (b.seen ts)) (hts : Within (k + 1) ts) :
    Verdict size (fun i => dictionary (g i)) (fun _ => True) 1 before Anything b b ts := by
  have comma : Mark.rbrace ≠ .comma := nofun
  refine (Accepts.enter .lbrace .ignored).commit hs hts ?_
  have inside : Ready k (fun j : After ι Lexeme => size j.index - 1) fun j => g j.index := hg.along
  refine Judges.bind (Judges.list (fun j => entry (g j.index)) rfl comma
    (fun _ hts => entry_verdict inside rfl hts) inside.allowance []) ?_
  refine (Accepts.leave .rbrace _ _).inside rfl rfl (fun rest => ⟨_, rest, rfl, rfl⟩) ?_
  exact .pure (fun _ => ⟨_, rfl, trivial⟩) fun _ _ => trivial

/-! ## Atoms -/

omit hg in
theorem literal_verdict {kind : NodeKind} (ht : t.isContent = true)
    (hs : Heads (· = t) (b.seen ts)) (hts : Within (k + 1) ts) :
    Verdict size (fun _ => literal kind) (fun _ => True) 1 before Anything b b ts :=
  .advance hs ht hts (.pure (fun _ => ⟨_, rfl, trivial⟩) fun _ _ => trivial)

theorem nameOrAssignment_verdict {name : String} (hs : Heads (· = .identifier name) (b.seen ts))
    (hts : Within (k + 1) ts) : Verdict size (fun i => nameOrAssignment (g i) name)
      (fun _ => True) 1 before Follows b b ts := by
  refine .advance hs rfl hts fun ts hts => ?_
  refine .is hts.ends (fun hs => ?_) fun _ => ?_
  · refine .loose (.advance hs rfl (hts.mono (Nat.le_succ k)) ?_)
    have inside : Ready k (fun j : After (After ι Lexeme) Lexeme => size j.index.index - 1 - 1)
        fun j => g j.index.index := hg.reindex _ fun _ => Nat.sub_le _ _
    exact Judges.map (fun j value =>
      (⟨.assign name value, j.index.result.span.through value.span⟩ : Node)) inside.expression
  · refine .pure (fun _ => ⟨_, rfl, trivial⟩) fun us hus => ⟨?_, trivial⟩
    exact hus.ends.imp fun _ h => h.noValue

omit hg in
theorem atom_name {g : Grammar} {name : String} {c : Cursor} (hc : c.token = .identifier name)
    (hd : c.advance.token ≠ .mark .equals) : atom g c = (.ok ⟨.read name, c.span⟩, c.advance) := by
  rw [atom, peek_bind_apply, hc]
  dsimp only
  rw [nameOrAssignment, advance_bind_apply, Parser.isMark, is_bind_apply, decide_eq_false hd]
  rfl

omit hg in
theorem atom_passes (name : String) (hr : Follows (b.seen rest)) :
    Passing size (fun i => atom (g i)) (fun _ => True) b b [.identifier name] rest := by
  intro i lexemes c _ hc
  obtain ⟨u, us, hu, hends⟩ := hr.ends
  have behind : c.advance.On lexemes b rest := hc.advance rfl
  have next : c.advance.token ≠ .mark .equals := behind.token hu ▸ hends.noValue
  have here := hc.token (Brackets.seen_of_ne nofun)
  exact ⟨_, c.advance, atom_name here next, trivial, behind, hc.index_le_advance⟩

theorem atom_verdict (hts : Within (k + 1) ts) (hw : Welcome before (.identifier "x") (b.seen ts)) :
    Verdict size (fun i => atom (g i)) (fun _ => True) 1 before Follows b b ts := by
  obtain ⟨t, us, hu⟩ := b.exists_cons hts.ends
  have hs : Heads (· = t) (b.seen ts) := ⟨t, us, hu, rfl⟩
  by_cases ht : t.startsOperand = true ∨ t = .keyword .lambda
  · refine .peek hs ?_
    cases t with
    | int n => exact (literal_verdict rfl hs hts).restrict _
    | float x => exact (literal_verdict rfl hs hts).restrict _
    | str s => exact (literal_verdict rfl hs hts).restrict _
    | identifier name => exact nameOrAssignment_verdict hg hs hts
    | eol | eof => exact absurd ht (by decide)
    | mark m =>
      cases m with
      | lparen => exact (group_verdict hg hs hts).restrict _
      | lbracket => exact (array_verdict hg hs hts).restrict _
      | lbrace => exact (dictionary_verdict hg hs hts).restrict _
      | _ => exact absurd ht (by decide)
    | keyword w =>
      cases w with
      | func => exact (function_verdict hg hs hts (.inl rfl)).restrict _
      | lambda => exact (function_verdict hg hs hts (.inr rfl)).restrict _
      | handler => exact (handler_verdict hg hs hts rfl).restrict _
      | «if» => exact (conditional_verdict hg hs hts rfl).narrow fun _ h => h.noPart
      | switch => exact (switch_verdict hg hs hts rfl).restrict _
      | «for» => exact (forLoop_verdict hg hs hts rfl).restrict _
      | «while» => exact (whileLoop_verdict hg hs hts rfl).restrict _
      | _ => exact absurd ht (by decide)
  · refine .stuck "value, identifier, '(', '[' or '\x7b'" [.identifier "x"] hu ?_ (by simp)
      (Nat.le_refl 1) (fun rest hr => atom_passes "x" hr) ?_ fun rest _ => ?_
    · intro i c _ hc
      rw [atom, peek_bind_apply, hc]
      cases t with
      | int | float | str | identifier => exact absurd (.inl rfl) ht
      | eol | eof => rfl
      | mark m =>
        cases m with
        | lparen | lbracket | lbrace => exact absurd (.inl rfl) ht
        | _ => rfl
      | keyword w =>
        cases w with
        | lambda => exact absurd (.inr rfl) ht
        | func | handler | «if» | switch | «for» | «while» => exact absurd (.inl rfl) ht
        | _ => rfl
    · exact hw.seen hu
    · rw [List.singleton_append, Brackets.seen_of_ne (t := .identifier "x") nofun]
      exact hw.token rest

end

/-! ## What stands behind an operand -/

/-- Nothing that is in front of the cursor belongs to the operand. -/
theorem trailers_still {g : Grammar} {n : Nat} {node : Node} {chaining : Bool} {c : Cursor}
    (hcall : c.token ≠ .mark .lparen) (hindex : c.token ≠ .mark .lbracket)
    (hmember : c.token ≠ .mark .period) : trailers g (n + 1) node chaining c = (.ok node, c) := by
  rw [trailers, peek_bind_apply]
  generalize c.token = t at hcall hindex hmember
  cases t with
  | mark m =>
    cases m with
    | lparen => exact absurd rfl hcall
    | lbracket => exact absurd rfl hindex
    | period => exact absurd rfl hmember
    | _ => rfl
  | _ => rfl

theorem trailers_judges (hg : Ready k size g) {less n : ι → Nat} (hless : ∀ i, less i ≤ size i)
    (hn : ∀ i, less i ≤ n i) {m : Nat} (hm : m ≤ k + 1) :
    Judges m (fun j : ι × Node × Bool => less j.1)
      (fun j => trailers (g j.1) (n j.1) j.2.1 j.2.2) (fun _ => True) Follows Follows b b := by
  induction m generalizing less n with
  | zero => exact fun ts hts => absurd hts.pos (Nat.lt_irrefl 0)
  | succ m ih =>
    intro ts hts
    obtain ⟨t, us, hu⟩ := b.exists_cons hts.ends
    have large (i : ι) (h : 0 < less i) : ∃ n', n i = n' + 1 :=
      ⟨n i - 1, by have := hn i; omega⟩
    have shorter (i : ι) : less i - 1 ≤ size i := Nat.le_trans (Nat.sub_le _ _) (hless i)
    have inside : Ready m (fun j : ι × Node × Bool => less j.1 - 1) fun j => g j.1 :=
      (hg.mono (Nat.le_of_succ_le_succ hm)).reindex _ fun j => shorter j.1
    have again := ih shorter (fun i => Nat.sub_le_sub_right (hn i) 1) (Nat.le_of_succ_le hm)
    have seen := hts.seen b
    rw [hu] at seen
    by_cases hcall : t = .mark .lparen
    · have hs : Heads (· = .mark .lparen) (b.seen ts) := ⟨t, us, hu, hcall⟩
      refine .seeing hs (x := fun j => do
        let list ← arguments (g j.1)
        trailers (g j.1) (n j.1 - 1) (callNode j.2.1 j.2.2 list) true) (fun j c hj hc => ?_) ?_
      · obtain ⟨n', hn'⟩ := large j.1 hj
        rw [hn', trailers, peek_bind_apply, hc]
        rfl
      · refine .loose (((arguments_verdict inside hs hts).restrict Follows).andThen hts ?_
          (Nat.le_refl _) (seen.of_cons (by simp [hcall])).pos)
        exact again.reindex (fun j : After (ι × Node × Bool) ArgumentList =>
          (j.index.1, callNode j.index.2.1 j.index.2.2 j.result, true)) fun _ => Nat.le_refl _
    by_cases hindex : t = .mark .lbracket
    · have hs : Heads (· = .mark .lbracket) (b.seen ts) := ⟨t, us, hu, hindex⟩
      refine .seeing hs (x := fun j => do
        let _ ← Parser.enter (.mark .lbracket) .ignored
        let index ← (g j.1).read .expression
        let close ← Parser.leave (.mark .rbracket) "']'"
        trailers (g j.1) (n j.1 - 1) ⟨.index j.2.1 index, j.2.1.span.through close.span⟩ false)
        (fun j c hj hc => ?_) (.loose ((Accepts.enter .lbracket .ignored).commit hs hts ?_))
      · obtain ⟨n', hn'⟩ := large j.1 hj
        rw [hn', trailers, peek_bind_apply, hc]
        rfl
      · refine Judges.bind inside.along.expression ?_
        refine (Accepts.leave .rbracket _ _).inside rfl rfl (fun _ => follows_mark rfl) ?_
        exact (again.reindex (fun j : After (After (After (ι × Node × Bool) Lexeme) Node) Lexeme =>
          (j.index.index.index.1, ⟨.index j.index.index.index.2.1 j.index.result,
            j.index.index.index.2.1.span.through j.result.span⟩, false))
          fun _ => Nat.le_refl _).imp fun _ _ => trivial
    by_cases hmember : t = .mark .period
    · have hs : Heads (· = .mark .period) (b.seen ts) := ⟨t, us, hu, hmember⟩
      refine .seeing hs (x := fun j => do
        let _ ← Parser.advance
        let name ← Parser.expectIdentifier
        trailers (g j.1) (n j.1 - 1) ⟨.member j.2.1 name.1, j.2.1.span.through name.2⟩ false)
        (fun j c hj hc => ?_) (.loose (.advance hs rfl hts ?_))
      · obtain ⟨n', hn'⟩ := large j.1 hj
        rw [hn', trailers, peek_bind_apply, hc]
        rfl
      · refine Accepts.expectIdentifier.first ⟨"x", rfl⟩ ?_
        exact (again.reindex (fun j : After (After (ι × Node × Bool) Lexeme) (String × Span) =>
          (j.index.index.1, ⟨.member j.index.index.2.1 j.result.1,
            j.index.index.2.1.span.through j.result.2⟩, false))
          fun _ => Nat.le_refl _).imp fun _ _ => trivial
    · have hs : Heads (fun t => t ≠ .mark .lparen ∧ t ≠ .mark .lbracket ∧ t ≠ .mark .period)
        (b.seen ts) := ⟨t, us, hu, hcall, hindex, hmember⟩
      refine .nothing (fun j c hj hc => ⟨j.2.1, ?_⟩) hs fun us hus => ⟨?_, hus⟩
      · obtain ⟨n', hn'⟩ := large j.1 hj
        exact hn' ▸ trailers_still hc.1 hc.2.1 hc.2.2
      · exact hus.ends.imp fun _ h => ⟨h.noCall, h.noIndex, h.noMember⟩

section

variable (hg : Ready k (fun i => size i - 1) g)

include hg

theorem operand_judges : JudgesPhrase (k + 1) size fun i => operand (g i) := by
  intro b before ts hts hw
  refine (atom_verdict hg hts hw).andThen hts ?_ (Nat.le_succ _) (Nat.succ_pos k)
  have rest := trailers_judges (b := b) hg (fun _ => Nat.le_refl _) hg.allowance
    (Nat.le_refl (k + 1))
  exact rest.reindex (fun j : After ι Node => (j.index, j.result, false)) fun _ => Nat.le_refl _

omit hg in
theorem factor_unsigned {g : Grammar} {c : Cursor} (hplus : c.token ≠ .mark .plus)
    (hminus : c.token ≠ .mark .minus) : factor g c = operand g c := by
  rw [factor, peek_bind_apply]
  generalize c.token = t at hplus hminus
  cases t with
  | mark m =>
    cases m with
    | plus => exact absurd rfl hplus
    | minus => exact absurd rfl hminus
    | _ => rfl
  | _ => rfl

omit hg in
/-- An atom is an operand where nothing that belongs to it is behind it. -/
theorem factor_atom {g : Grammar} {c d : Cursor} {e : Node} (ha : 0 < g.allowance)
    (hplus : c.token ≠ .mark .plus) (hminus : c.token ≠ .mark .minus)
    (hcall : d.token ≠ .mark .lparen) (hindex : d.token ≠ .mark .lbracket)
    (hmember : d.token ≠ .mark .period) (h : atom g c = (.ok e, d)) : factor g c = (.ok e, d) := by
  rw [factor_unsigned hplus hminus, operand, bind_of_ok h]
  obtain ⟨n, hn⟩ := Nat.exists_eq_succ_of_ne_zero (Nat.ne_of_gt ha)
  rw [hn]
  exact trailers_still hcall hindex hmember

theorem factor_judges : JudgesPhrase (k + 1) size fun i => factor (g i) := by
  intro b before ts hts hw
  obtain ⟨t, us, hu⟩ := b.exists_cons hts.ends
  have inside : Ready k (fun j : After ι Lexeme => size j.index - 1) fun j => g j.index := hg.along
  have signed (op : UnaryOperator) : Judges k (fun j : After ι Lexeme => size j.index - 1)
      (fun j => do
        let inner ← (g j.index).read .factor
        return (⟨.unary op inner, j.result.span.through inner.span⟩ : Node))
      (fun _ => True) Anything Follows b b :=
    .map (fun j inner => (⟨.unary op inner, j.result.span.through inner.span⟩ : Node))
      ((inside.phrase .factor).judges fun _ _ => .anything)
  by_cases hplus : t = .mark .plus
  · have hs : Heads (· = .mark .plus) (b.seen ts) := ⟨t, us, hu, hplus⟩
    exact .peek hs (.advance hs rfl hts (signed .plus))
  by_cases hminus : t = .mark .minus
  · have hs : Heads (· = .mark .minus) (b.seen ts) := ⟨t, us, hu, hminus⟩
    exact .peek hs (.advance hs rfl hts (signed .minus))
  · have hs : Heads (fun t => t ≠ .mark .plus ∧ t ≠ .mark .minus) (b.seen ts) :=
      ⟨t, us, hu, hplus, hminus⟩
    refine .seeing hs (fun i c _ hc => factor_unsigned hc.1 hc.2) ?_
    exact operand_judges hg b _ ts hts (hw.and_heads ⟨nofun, nofun⟩ hs)

end

end

end TracedScript.Grammar
