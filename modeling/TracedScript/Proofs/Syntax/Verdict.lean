import TracedScript.Proofs.Syntax.Outlook

/-!
# What parsers make of the tokens ahead

A parser passes some tokens, or it rejects one of them. Either depends on the tokens up to there
only, and on what is seen next: `Verdict.passes` and `Verdict.fails` hold for everything that could
stand behind. When a token is rejected, those before it can be continued to something that the
parser passes. Verdicts are about families of parsers, as what is collected in the course of reading
and the allowance of steps do not matter.

Parsers are put together by what may follow: `before` is what the parser in front demands of what it
sees next, `follow` is what the parser itself demands.
-/

namespace TracedScript.Parser

open TracedScript.Cursor (On)

/-- The error of a parameter behind an option. -/
def lateParameter (name : String) (span : Span) : SourceError :=
  ⟨.grammar, s!"Parameter '{name}' must come before options", span⟩

section

variable {ι α β : Type} (size : ι → Nat) (p : ι → Parser α) (q : ι → Parser β)

/-- Wherever the tokens `us` stand in front of `rest`, they are passed to a result that `r` holds
of. -/
def Passing (r : α → Prop) (b b' : Brackets) (us rest : List Token) : Prop :=
  ∀ i lexemes c, (us ++ rest).length ≤ size i → c.On lexemes b (us ++ rest) →
    ∃ a d, p i c = (.ok a, d) ∧ r a ∧ d.On lexemes b' rest ∧ c.index ≤ d.index

/-- Wherever the tokens `us` stand in front of `rest`, the family does what `f` does behind them. -/
def Begins (f : ι → α → Parser β) (r : α → Prop) (b b' : Brackets) (us rest : List Token) : Prop :=
  ∀ i lexemes c, (us ++ rest).length ≤ size i → c.On lexemes b (us ++ rest) →
    ∃ a d, q i c = f i a d ∧ r a ∧ d.On lexemes b' rest ∧ c.index ≤ d.index

/-- Wherever the token `t` stands behind `us`, it is rejected where `what` was expected. -/
def Failing (b : Brackets) (us : List Token) (t : Token) (what : String) : Prop :=
  ∀ i lexemes c rest, (us ++ t :: rest).length ≤ size i → c.On lexemes b (us ++ t :: rest) →
    ∃ d, p i c = (.error (.rejected (d.unexpected what)), d) ∧ d.lexemes = lexemes ∧
      d.rest = t :: rest

/-- A parameter is rejected as it stands behind an option. -/
def Refusing (b : Brackets) (ts : List Token) : Prop :=
  ∀ i lexemes c, ts.length ≤ size i → c.On lexemes b ts → ∃ d name span,
    p i c = (.error (.rejected (lateParameter name span)), d) ∧ d.lexemes = lexemes ∧
      c.index < d.index

/-- What the parsers of a family make of the tokens ahead. They pass no end of a program, and what
they pass, or would have passed, is at least `least` tokens long. -/
inductive Verdict (r : α → Prop) (least : Nat) (before follow : List Token → Prop)
    (b b' : Brackets) (ts : List Token) : Prop where
  | passes (us rest : List Token) (split : ts = us ++ rest) (inside : .eof ∉ us)
    (long : least ≤ us.length)
    (run : ∀ rest', LooksLike rest rest' ∨ follow (b'.seen rest') →
      Passing size p r b b' us rest')
    (start : Solid us ∨ ∀ rest', follow (b'.seen rest') → before (b.seen (us ++ rest')))
  | fails (us vs rest : List Token) (t : Token) (what : String) (split : ts = us ++ t :: rest)
    (inside : .eof ∉ us ++ vs) (long : least ≤ (us ++ vs).length) (run : Failing size p b us t what)
    (complete : ∀ rest', follow (b'.seen rest') → Passing size p r b b' (us ++ vs) rest')
    (stop : Solid (us ++ [t]) ∨ ∀ rest', before (b.seen (us ++ t :: rest')))
    (start : Solid us ∨ ∀ rest', follow (b'.seen rest') → before (b.seen (us ++ vs ++ rest')))
  | refuses (long : 1 < ts.length) (run : Refusing size p b ts)

end

/-- Nothing is demanded. -/
abbrev Anything : List Token → Prop := fun _ => True

/-- What has been read, with its place in a family. -/
structure Behind (ι : Type) {α : Type} (r : α → Prop) where
  index : ι
  result : α
  holds : r result

/-- What has been read, whatever it is. -/
abbrev After (ι α : Type) : Type := Behind ι fun _ : α => True

section

variable {ι α β : Type} {size : ι → Nat} {p : ι → Parser α} {f : ι → α → Parser β}
  {r : α → Prop} {q : β → Prop} {least : Nat} {b b' b'' : Brackets} {us vs ts rest : List Token}
  {t : Token} {what : String}

theorem orExpected_apply (what : String) (p : Parser α) (c : Cursor) :
    orExpected what p c = match p c with
      | (.error (.rejected e), d) =>
        (.error (.rejected (if d.index = c.index then d.unexpected what else e)), d)
      | found => found := rfl

theorem is_bind_apply (t : Token) (f : Bool → Parser α) (c : Cursor) :
    (Parser.is t >>= f) c = f (decide (c.token = t)) c := rfl

theorem peek_bind_apply (f : Token → Parser α) (c : Cursor) : (peek >>= f) c = f c.token c := rfl

theorem cursor_bind_apply (f : Cursor → Parser α) (c : Cursor) : (cursor >>= f) c = f c c := rfl

theorem advance_bind_apply (f : Lexeme → Parser α) (c : Cursor) :
    (advance >>= f) c = f c.current c.advance := rfl

theorem modify_bind_apply (h : Cursor → Cursor) (f : PUnit → Parser α) (c : Cursor) :
    ((modify h : Parser PUnit) >>= f) c = f ⟨⟩ (h c) := rfl

theorem skipBreaks_bind_apply (p : Parser α) (c : Cursor) :
    (do Parser.skipBreaks; p) c = p c.skipBreaks := rfl

theorem bind_of_error {p : Parser α} {f : α → Parser β} {c d : Cursor} {s : Stop}
    (h : p c = (.error s, d)) : (p >>= f) c = (.error s, d) := by
  rw [bind_apply, h]

theorem bind_of_ok {p : Parser α} {f : α → Parser β} {c d : Cursor} {a : α}
    (h : p c = (.ok a, d)) : (p >>= f) c = f a d := by
  rw [bind_apply, h]

theorem exists_of_bind {p : Parser α} {f : α → Parser β} {c d : Cursor} {a' : β}
    (h : (p >>= f) c = (.ok a', d)) : ∃ a e, p c = (.ok a, e) ∧ f a e = (.ok a', d) := by
  rw [bind_apply] at h
  split at h
  · exact ⟨_, _, ‹_›, h⟩
  · cases h

/-- Nothing is passed where the token that is seen ends what is read. -/
theorem passing_nothing {now : Token → Prop}
    (h : ∀ i c, 0 < size i → now c.token → ∃ a, p i c = (.ok a, c))
    (hn : Heads now (b.seen rest)) : Passing size p (fun _ => True) b b [] rest := by
  intro i lexemes c hi hc
  obtain ⟨t, us, hu, ht⟩ := hn
  obtain ⟨a, hp⟩ := h i c (Nat.lt_of_lt_of_le hc.length_pos hi) (hc.token hu ▸ ht)
  exact ⟨a, c, hp, trivial, hc, Nat.le_refl _⟩

theorem Passing.begins (hp : Passing size p r b b' us rest) :
    Begins size (fun i => p i >>= f i) f r b b' us rest := by
  intro i lexemes c hi hc
  obtain ⟨a, d, hpc, ha, hd, moved⟩ := hp i lexemes c hi hc
  exact ⟨a, d, bind_of_ok hpc, ha, hd, moved⟩

namespace Begins

variable {x : ι → Parser β}

theorem passing (hx : Begins size x f r b b' us (vs ++ rest)) (hl : least ≤ us.length)
    (hf : Passing (fun j : Behind ι r => size j.index - least) (fun j => f j.index j.result) q b'
      b'' vs rest) : Passing size x q b b'' (us ++ vs) rest := by
  intro i lexemes c hi hc
  rw [List.append_assoc] at hi hc
  obtain ⟨a, d, hxc, ha, hd, moved⟩ := hx i lexemes c hi hc
  have shorter : (vs ++ rest).length ≤ size i - least := by
    rw [List.length_append] at hi
    omega
  obtain ⟨a', e, hfd, ha', he, further⟩ := hf ⟨i, a, ha⟩ lexemes d shorter hd
  exact ⟨a', e, hxc.trans hfd, ha', he, Nat.le_trans moved further⟩

theorem failing (hx : ∀ rest, Begins size x f r b b' us (vs ++ t :: rest)) (hl : least ≤ us.length)
    (hf : Failing (fun j : Behind ι r => size j.index - least) (fun j => f j.index j.result) b'
      vs t what) : Failing size x b (us ++ vs) t what := by
  intro i lexemes c rest hi hc
  rw [List.append_assoc] at hi hc
  obtain ⟨a, d, hxc, ha, hd, -⟩ := hx rest i lexemes c hi hc
  have shorter : (vs ++ t :: rest).length ≤ size i - least := by
    rw [List.length_append] at hi
    omega
  obtain ⟨e, hfd, he⟩ := hf ⟨i, a, ha⟩ lexemes d rest shorter hd
  exact ⟨e, hxc.trans hfd, he⟩

theorem refusing (hx : Begins size x f r b b' us rest) (hl : least ≤ us.length)
    (hf : Refusing (fun j : Behind ι r => size j.index - least) (fun j => f j.index j.result) b'
      rest) : Refusing size x b (us ++ rest) := by
  intro i lexemes c hi hc
  obtain ⟨a, d, hxc, ha, hd, moved⟩ := hx i lexemes c hi hc
  have shorter : rest.length ≤ size i - least := by
    rw [List.length_append] at hi
    omega
  obtain ⟨e, name, span, hfd, he, further⟩ := hf ⟨i, a, ha⟩ lexemes d shorter hd
  exact ⟨e, name, span, hxc.trans hfd, he, Nat.lt_of_le_of_lt moved further⟩

end Begins

theorem Failing.bind (hp : Failing size p b us t what) :
    Failing size (fun i => p i >>= f i) b us t what := by
  intro i lexemes c rest hi hc
  obtain ⟨d, hpc, hd⟩ := hp i lexemes c rest hi hc
  exact ⟨d, bind_of_error hpc, hd⟩

theorem Refusing.bind (hp : Refusing size p b ts) :
    Refusing size (fun i => p i >>= f i) b ts := by
  intro i lexemes c hi hc
  obtain ⟨d, name, span, hpc, hd⟩ := hp i lexemes c hi hc
  exact ⟨d, name, span, bind_of_error hpc, hd⟩

end

namespace Verdict

variable {ι α β : Type} {size : ι → Nat} {p x : ι → Parser α} {f : ι → α → Parser β}
  {r : α → Prop} {q : β → Prop} {least least' : Nat} {before before' mid follow : List Token → Prop}
  {b b' b'' : Brackets} {ts us rest : List Token}

/-! ## What is ahead -/

theorem imp (h : Verdict size p r least before follow b b' ts)
    (hb : ∀ us, before us → before' us) (hl : least' ≤ least) :
    Verdict size p r least' before' follow b b' ts := by
  cases h with
  | passes us rest split inside long run start =>
    refine .passes us rest split inside (Nat.le_trans hl long) run ?_
    exact start.imp_right fun h rest' hr => hb _ (h rest' hr)
  | fails us vs rest t what split inside long run complete stop start =>
    refine .fails us vs rest t what split inside (Nat.le_trans hl long) run complete ?_ ?_
    · exact stop.imp_right fun h rest' => hb _ (h rest')
    · exact start.imp_right fun h rest' hr => hb _ (h rest' hr)
  | refuses long run => exact .refuses long run

/-- Less may follow. -/
theorem narrow {follow' : List Token → Prop} (h : Verdict size p r least before follow b b' ts)
    (hf : ∀ us, follow' us → follow us) : Verdict size p r least before follow' b b' ts := by
  cases h with
  | passes us rest split inside long run start =>
    refine .passes us rest split inside long (fun rest' hr => run rest' (hr.imp_right (hf _))) ?_
    exact start.imp_right fun h rest' hr => h rest' (hf _ hr)
  | fails us vs rest t what split inside long run complete stop start =>
    refine .fails us vs rest t what split inside long run (fun rest' hr => complete _ (hf _ hr))
      stop ?_
    exact start.imp_right fun h rest' hr => h rest' (hf _ hr)
  | refuses long run => exact .refuses long run

theorem restrict (follow : List Token → Prop) (h : Verdict size p r least before Anything b b' ts) :
    Verdict size p r least before follow b b' ts := h.narrow fun _ _ => trivial

/-- Line breaks that do not count do not matter. -/
theorem of_seen (h : Verdict size p r least before follow b b' (b.seen ts)) :
    Verdict size p r least before follow b b' ts := by
  obtain ⟨es, split, noEnd, skip⟩ := b.exists_seen ts
  have shorter : ∀ {us i}, (es ++ us).length ≤ size i → us.length ≤ size i := by
    intro us i h
    rw [List.length_append] at h
    omega
  cases h with
  | passes us rest hs inside long run start =>
    refine .passes (es ++ us) rest (by rw [split, hs, List.append_assoc]) (by simp_all) ?_ ?_ ?_
    · rw [List.length_append]
      omega
    · intro rest' hr i lexemes c hi hc
      rw [List.append_assoc] at hi hc
      exact run rest' hr i lexemes c (shorter hi) (hc.behind noEnd (skip _))
    · refine start.imp Solid.behind fun h rest' hr => ?_
      rw [List.append_assoc, skip]
      exact h rest' hr
  | fails us vs rest t what hs inside long run complete stop start =>
    refine .fails (es ++ us) vs rest t what (by rw [split, hs, List.append_assoc]) (by simp_all)
      ?_ ?_ ?_ ?_ ?_
    · simp only [List.length_append] at long ⊢
      omega
    · intro i lexemes c rest' hi hc
      rw [List.append_assoc] at hi hc
      exact run i lexemes c rest' (shorter hi) (hc.behind noEnd (skip _))
    · intro rest' hr i lexemes c hi hc
      rw [List.append_assoc, List.append_assoc, ← List.append_assoc us] at hi hc
      exact complete rest' hr i lexemes c (shorter hi) (hc.behind noEnd (skip _))
    · rw [List.append_assoc]
      refine stop.imp Solid.behind fun h rest' => ?_
      rw [List.append_assoc, skip]
      exact h rest'
    · refine start.imp Solid.behind fun h rest' hr => ?_
      rw [List.append_assoc, List.append_assoc, skip, ← List.append_assoc]
      exact h rest' hr
  | refuses long run =>
    refine .refuses ?_ fun i lexemes c hi hc => ?_
    · rw [split, List.length_append]
      omega
    · rw [split] at hi hc
      exact run i lexemes c (shorter hi) (hc.behind noEnd (skip _))

/-! ## Putting parsers together -/

/-- Where nothing is left to read, something can be added. -/
theorem completion (h : Verdict size p r least before follow b b' [.eof]) : ∃ vs : List Token,
    .eof ∉ vs ∧ least ≤ vs.length ∧ ∀ rest, follow (b'.seen rest) →
      Passing size p r b b' vs rest ∧ before (b.seen (vs ++ rest)) := by
  cases h with
  | passes us rest split inside long run start =>
    have hu : us = [] := by
      cases us with
      | nil => rfl
      | cons u us =>
        obtain rfl := (List.cons_eq_cons.mp split).1
        exact absurd (List.mem_cons_self ..) inside
    subst hu
    refine ⟨[], inside, long, fun rest' hr => ⟨run rest' (.inr hr), ?_⟩⟩
    exact start.resolve_left (fun ⟨t, hm, _⟩ => nomatch hm) rest' hr
  | fails us vs rest t what split inside long run complete stop start =>
    have hu : us = [] := by
      cases us with
      | nil => rfl
      | cons u us =>
        obtain rfl := (List.cons_eq_cons.mp split).1
        exact absurd (List.mem_append_left _ (List.mem_cons_self ..)) inside
    subst hu
    refine ⟨vs, inside, long, fun rest' hr => ⟨complete rest' hr, ?_⟩⟩
    exact start.resolve_left (fun ⟨t, hm, _⟩ => nomatch hm) rest' hr
  | refuses long run => exact absurd long (Nat.lt_irrefl 1)

/-- Behind what is passed, the verdict is that on the rest. -/
theorem of_begins {y : ι → Parser β} (hus : .eof ∉ us) (hl : least ≤ us.length)
    (run : ∀ rest', LooksLike rest rest' ∨ mid (b'.seen rest') → Begins size y f r b b' us rest')
    (start : Solid us ∨ ∀ rest', mid (b'.seen rest') → before (b.seen (us ++ rest')))
    (hrest : rest.getLast? = some .eof)
    (hf : Verdict (fun j : Behind ι r => size j.index - least) (fun j => f j.index j.result) q
      least' mid follow b' b'' rest) :
    Verdict size y q (least + least') before follow b b'' (us ++ rest) := by
  -- what is passed, with what the rest has passed or demands
  have begun (vs ws : List Token) (h : Solid vs ∨ mid (b'.seen (vs ++ ws))) :
      Solid (us ++ vs) ∨ before (b.seen (us ++ vs ++ ws)) := by
    obtain hv | hm := h
    · exact .inl hv.behind
    · refine start.imp Solid.append fun h => ?_
      rw [List.append_assoc]
      exact h _ hm
  cases hf with
  | passes vs rest' split inside long runs starts =>
    subst split
    refine .passes (us ++ vs) rest' (List.append_assoc ..).symm (by simp_all) ?_ ?_ ?_
    · rw [List.length_append]
      omega
    · intro ws hw
      refine (run (vs ++ ws) ?_).passing hl (runs ws hw)
      obtain hw | hw := hw
      · exact .inl (hw.append vs)
      · exact starts.imp (fun hv => .of_solid hv) fun h => h ws hw
    · by_cases hs : Solid (us ++ vs)
      · exact .inl hs
      · refine .inr fun ws hw => (begun vs ws ?_).resolve_left hs
        exact starts.imp_right fun h => h ws hw
  | fails vs ws rest' t what split inside long runs complete stop starts =>
    subst split
    have others (zs : List Token) : Begins size y f r b b' us (vs ++ t :: zs) := by
      refine run _ (stop.imp (fun hv => ?_) fun h => h zs)
      have alike : LooksLike (vs ++ [t] ++ rest') (vs ++ [t] ++ zs) := .of_solid hv
      rwa [List.append_assoc, List.append_assoc] at alike
    refine .fails (us ++ vs) ws rest' t what (List.append_assoc ..).symm (by simp_all) ?_
      (Begins.failing others hl runs) ?_ ?_ ?_
    · simp only [List.length_append] at long ⊢
      omega
    · intro zs hz
      have completed : Begins size y f r b b' us ((vs ++ ws) ++ zs) := by
        rw [List.append_assoc]
        refine run _ (starts.imp (fun hv => .of_solid hv) fun h => ?_)
        rw [← List.append_assoc]
        exact h zs hz
      rw [List.append_assoc]
      exact completed.passing hl (complete zs hz)
    · by_cases hs : Solid (us ++ vs ++ [t])
      · exact .inl hs
      · refine .inr fun zs => ?_
        have whole := begun (vs ++ [t]) zs (stop.imp_right fun h => ?_)
        · simp only [List.append_assoc, List.singleton_append] at whole hs ⊢
          exact whole.resolve_left hs
        · rw [List.append_assoc]
          exact h zs
    · by_cases hs : Solid (us ++ vs)
      · exact .inl hs
      · refine .inr fun zs hz => ?_
        have whole := begun vs (ws ++ zs) (starts.imp_right fun h => ?_)
        · rw [List.append_assoc _ ws]
          exact whole.resolve_left hs
        · rw [← List.append_assoc]
          exact h zs hz
  | refuses long runs =>
    refine .refuses ?_ ((run rest (.inl (.refl hrest))).refusing hl runs)
    rw [List.length_append]
    omega

/-- One parser behind another. If the first one rejects a token, what the second one reads where
nothing is left is the rest of a continuation. -/
theorem bind (hts : ts.getLast? = some .eof) (hp : Verdict size p r least before mid b b' ts)
    (hf : ∀ us rest, ts = us ++ rest → least ≤ us.length → rest.getLast? = some .eof →
      Passing size p r b b' us rest → Verdict (fun j : Behind ι r => size j.index - least)
        (fun j => f j.index j.result) q 0 mid follow b' b'' rest)
    (hend : Verdict (fun j : Behind ι r => size j.index - least) (fun j => f j.index j.result) q 0
      mid follow b' b'' [.eof]) :
    Verdict size (fun i => p i >>= f i) q least before follow b b'' ts := by
  cases hp with
  | passes us rest split inside long run start =>
    have hrest : rest.getLast? = some .eof := ends_behind (split ▸ hts) inside
    rw [split]
    exact of_begins inside long (fun rest' hr => (run rest' hr).begins) start hrest
      (hf us rest split long hrest (run rest (.inl (.refl hrest))))
  | fails us vs rest t what split inside long run complete stop start =>
    obtain ⟨ws, noEnd, -, completes⟩ := hend.completion
    refine .fails us (vs ++ ws) rest t what split (by simp_all) ?_ run.bind ?_ stop ?_
    · simp only [List.length_append] at long ⊢
      omega
    · intro rest' hr
      obtain ⟨second, demanded⟩ := completes rest' hr
      have both := (complete (ws ++ rest') demanded).begins.passing long second
      rwa [List.append_assoc] at both
    · refine start.imp_right fun h rest' hr => ?_
      have whole := h (ws ++ rest') (completes rest' hr).2
      simpa only [List.append_assoc] using whole
  | refuses long run => exact .refuses long run.bind

/-- Behind a token that is passed whatever follows, nothing matters that is in front of it. -/
theorem step {y : ι → Parser β} {t : Token}
    (run : ∀ rest', Begins size y f r b b' [t] rest') (ht : t.isContent = true)
    (hrest : rest.getLast? = some .eof)
    (hf : Verdict (fun j : Behind ι r => size j.index - 1) (fun j => f j.index j.result) q 0
      Anything follow b' b'' rest) :
    Verdict size y q 1 before follow b b'' (t :: rest) := by
  have counts : t ≠ .eol ∧ t ≠ .eof := by
    constructor <;> rintro rfl <;> cases ht
  exact of_begins (by simpa using counts.2.symm) (Nat.le_refl 1) (fun rest' _ => run rest')
    (.inl (solid_cons counts.1)) hrest hf

/-- How much is passed at least does not matter any more. -/
theorem loose (h : Verdict size p r least before follow b b' ts) :
    Verdict size p r 0 before follow b b' ts := h.imp (fun _ h => h) (Nat.zero_le least)

theorem pure (h : ∀ i, ∃ a, p i = Pure.pure a ∧ r a) (hb : ∀ us, follow us → before us) :
    Verdict size p r 0 before follow b b ts := by
  refine .passes [] ts rfl List.not_mem_nil (Nat.zero_le _) ?_ (.inr fun rest' hr => hb _ hr)
  intro rest' _ i lexemes c _ hc
  obtain ⟨a, hp, ha⟩ := h i
  exact ⟨a, c, by rw [hp]; rfl, ha, hc, Nat.le_refl _⟩

/-- Where the family does the same as another one, if that depends on nothing but what is seen
next. -/
theorem here {now : List Token → Prop}
    (looks : ∀ {us us'}, LooksLike us us' → now (b.seen us) → now (b.seen us'))
    (hnow : now (b.seen ts))
    (agree : ∀ i lexemes c us, 0 < size i → c.On lexemes b us → now (b.seen us) → p i c = x i c)
    (hx : Verdict size x r least (fun us => now us ∧ before us) follow b b' ts) :
    Verdict size p r least before follow b b' ts := by
  have passing : ∀ {us rest}, now (b.seen (us ++ rest)) → Passing size x r b b' us rest →
      Passing size p r b b' us rest := by
    intro us rest hn h i lexemes c hi hc
    rw [agree i lexemes c _ (Nat.lt_of_lt_of_le hc.length_pos hi) hc hn]
    exact h i lexemes c hi hc
  cases hx with
  | passes us rest split inside long run start =>
    subst split
    refine .passes us rest rfl inside long (fun rest' hr => passing ?_ (run rest' hr)) ?_
    · obtain hr | hr := hr
      · exact looks (hr.append us) hnow
      · obtain hu | hu := start
        · exact looks (.of_solid hu) hnow
        · exact (hu rest' hr).1
    · exact start.imp_right fun h rest' hr => (h rest' hr).2
  | fails us vs rest t what split inside long run complete stop start =>
    subst split
    have same (rest' : List Token) : now (b.seen (us ++ t :: rest')) := by
      obtain hu | hu := stop
      · have alike : LooksLike (us ++ [t] ++ rest) (us ++ [t] ++ rest') := .of_solid hu
        rw [List.append_assoc, List.append_assoc] at alike
        exact looks alike hnow
      · exact (hu rest').1
    refine .fails us vs rest t what rfl inside long ?_ ?_ ?_ ?_
    · intro i lexemes c rest' hi hc
      rw [agree i lexemes c _ (Nat.lt_of_lt_of_le hc.length_pos hi) hc (same rest')]
      exact run i lexemes c rest' hi hc
    · intro rest' hr
      refine passing ?_ (complete rest' hr)
      obtain hu | hu := start
      · rw [List.append_assoc]
        exact looks (.of_solid hu) hnow
      · exact (hu rest' hr).1
    · exact stop.imp_right fun h rest' => (h rest').2
    · exact start.imp_right fun h rest' hr => (h rest' hr).2
  | refuses long run =>
    refine .refuses long fun i lexemes c hi hc => ?_
    rw [agree i lexemes c _ (Nat.lt_of_lt_of_le hc.length_pos hi) hc hnow]
    exact run i lexemes c hi hc

/-- Members that are large enough are all that counts. -/
theorem congr (h : ∀ i, 0 < size i → p i = x i)
    (hx : Verdict size x r least before follow b b' ts) :
    Verdict size p r least before follow b b' ts := by
  have same : ∀ i lexemes c us, 0 < size i → c.On lexemes b us → Anything (b.seen us) →
      p i c = x i c := by
    intro i _ c us hi _ _
    rw [h i hi]
  exact here (fun _ h => h) trivial same (hx.imp (fun us hu => ⟨trivial, hu⟩) (Nat.le_refl _))

/-- What holds of all members holds of any choice among them, also of smaller allowances. -/
theorem reindex {κ : Type} {less : κ → Nat} (m : κ → ι) (hm : ∀ j, less j ≤ size (m j))
    (h : Verdict size p r least before follow b b' ts) :
    Verdict less (fun j => p (m j)) r least before follow b b' ts := by
  have passing : ∀ {us rest}, Passing size p r b b' us rest →
      Passing less (fun j => p (m j)) r b b' us rest :=
    fun h j lexemes c hj => h (m j) lexemes c (Nat.le_trans hj (hm j))
  cases h with
  | passes us rest split inside long run start =>
    exact .passes us rest split inside long (fun rest' hr => passing (run rest' hr)) start
  | fails us vs rest t what split inside long run complete stop start =>
    refine .fails us vs rest t what split inside long ?_
      (fun rest' hr => passing (complete rest' hr)) stop start
    exact fun j lexemes c rest' hj => run (m j) lexemes c rest' (Nat.le_trans hj (hm j))
  | refuses long run =>
    exact .refuses long fun j lexemes c hj => run (m j) lexemes c (Nat.le_trans hj (hm j))

/-- Nothing is passed where the token that is seen ends what is read. -/
theorem nothing {now : Token → Prop}
    (h : ∀ i c, 0 < size i → now c.token → ∃ a, p i c = (.ok a, c))
    (hn : Heads now (b.seen ts)) (hf : ∀ us, follow us → Heads now us ∧ before us) :
    Verdict size p (fun _ => True) 0 before follow b b ts := by
  refine .passes [] ts rfl List.not_mem_nil (Nat.zero_le _) (fun rest' hr => ?_)
    (.inr fun rest' hr => (hf _ hr).2)
  obtain hr | hr := hr
  · exact passing_nothing h (hr.heads hn)
  · exact passing_nothing h (hf _ hr).1

/-- A token that the family rejects, with what could stand in its place. -/
theorem stuck {t : Token} (what : String) (vs : List Token) (hs : b.seen ts = t :: us)
    (reject : ∀ i c, 0 < size i → c.token = t → p i c = unexpected what c) (noEnd : .eof ∉ vs)
    (long : least ≤ vs.length)
    (complete : ∀ rest, follow (b'.seen rest) → Passing size p r b b' vs rest)
    (stop : t ≠ .eol ∨ ∀ rest, before (t :: rest))
    (start : ∀ rest, follow (b'.seen rest) → before (b.seen (vs ++ rest))) :
    Verdict size p r least before follow b b' ts := by
  have counts (rest : List Token) : b.seen (t :: rest) = t :: rest :=
    Brackets.seen_cons (Brackets.counts_of_seen hs)
  refine of_seen ?_
  rw [hs]
  refine .fails [] vs us t what rfl (by simpa using noEnd) (by simpa using long) ?_ complete ?_
    (.inr start)
  · intro i lexemes c rest hi hc
    have here := hc.token (counts rest)
    refine ⟨c, ?_, hc.lexemes, hc.rest.trans (counts rest)⟩
    rw [reject i c (Nat.lt_of_lt_of_le hc.length_pos hi) here]
    rfl
  · refine stop.imp solid_cons fun h rest => ?_
    rw [List.nil_append, counts]
    exact h rest

/-- Naming something else as expected changes neither what is passed nor where reading stops. -/
theorem orExpected (what : String) (h : Verdict size p r least before follow b b' ts) :
    Verdict size (fun i => orExpected what (p i)) r least before follow b b' ts := by
  have passing : ∀ {us rest}, Passing size p r b b' us rest →
      Passing size (fun i => Parser.orExpected what (p i)) r b b' us rest := by
    intro us rest h i lexemes c hi hc
    obtain ⟨a, d, hp, found⟩ := h i lexemes c hi hc
    refine ⟨a, d, ?_, found⟩
    show Parser.orExpected what (p i) c = _
    rw [orExpected_apply, hp]
  cases h with
  | passes us rest split inside long run start =>
    exact .passes us rest split inside long (fun rest' hr => passing (run rest' hr)) start
  | fails us vs rest t found split inside long run complete stop start =>
    let expected := if b.seen (us ++ [t]) = [t] then what else found
    refine .fails us vs rest t expected split inside long ?_
      (fun rest' hr => passing (complete rest' hr)) stop start
    intro i lexemes c rest' hi hc
    obtain ⟨d, hp, hl, hd⟩ := run i lexemes c rest' hi hc
    refine ⟨d, ?_, hl, hd⟩
    have still : d.index = c.index ↔ b.seen (us ++ [t]) = [t] := by
      rw [Cursor.index_eq_iff (hl.trans hc.lexemes.symm) (hd ▸ List.cons_ne_nil _ _)
        hc.rest_ne_nil, hd, hc.rest, eq_comm]
      exact b.unmoved_iff us t rest'
    show Parser.orExpected what (p i) c = _
    rw [orExpected_apply, hp]
    dsimp only [expected]
    by_cases hm : b.seen (us ++ [t]) = [t]
    · rw [if_pos (still.mpr hm), if_pos hm]
    · rw [if_neg fun hi => hm (still.mp hi), if_neg hm]
  | refuses long run =>
    refine .refuses long fun i lexemes c hi hc => ?_
    obtain ⟨d, name, span, hp, hl, moved⟩ := run i lexemes c hi hc
    refine ⟨d, name, span, ?_, hl, moved⟩
    show Parser.orExpected what (p i) c = _
    rw [orExpected_apply, hp]
    dsimp only
    rw [if_neg (Nat.ne_of_gt moved)]

/-! ## Looking at a token -/

section

variable {t u : Token} {f : ι → Bool → Parser α} {y : ι → Parser α}

/-- Where the family does the same as another one, if that depends on the token only. -/
theorem seeing {now : Token → Prop} (hs : Heads now (b.seen ts))
    (agree : ∀ i c, 0 < size i → now c.token → p i c = x i c)
    (h : Verdict size x r least (fun us => Heads now us ∧ before us) follow b b' ts) :
    Verdict size p r least before follow b b' ts := by
  refine here (fun h => h.heads) hs (fun i _ c us hi hc hn => ?_) h
  obtain ⟨t, us, hu, ht⟩ := hn
  exact agree i c hi (hc.token hu ▸ ht)

/-- Where that depends on the first token that is no line break only. -/
theorem seeingPast {now : Token → Prop} (hs : Next now ts)
    (agree : ∀ i c, 0 < size i → now c.skipBreaks.token → p i c = x i c)
    (h : Verdict size x r least (fun us => Next now us ∧ before us) follow b b' ts) :
    Verdict size p r least before follow b b' ts := by
  have looks : ∀ {us us'}, LooksLike us us' → Next now (b.seen us) → Next now (b.seen us') :=
    fun h hn => (b.next_seen _).mpr (h.next ((b.next_seen _).mp hn))
  refine here looks ((b.next_seen _).mpr hs) (fun i _ c us hi hc hn => ?_) h
  exact agree i c hi (hc.skipBreaks_token ((b.next_seen _).mp hn))

theorem peek {f : ι → Token → Parser α} (hs : Heads (· = t) (b.seen ts))
    (h : Verdict size (fun i => f i t) r least (fun us => Heads (· = t) us ∧ before us) follow b b'
      ts) : Verdict size (fun i => Parser.peek >>= f i) r least before follow b b' ts := by
  refine seeing hs (fun i c _ hc => ?_) h
  rw [peek_bind_apply, hc]

theorem isYes (hs : Heads (· = t) (b.seen ts))
    (h : Verdict size (fun i => f i true) r least (fun us => Heads (· = t) us ∧ before us) follow b
      b' ts) : Verdict size (fun i => Parser.is t >>= f i) r least before follow b b' ts := by
  refine seeing hs (fun i c _ hc => ?_) h
  rw [is_bind_apply, decide_eq_true hc]

theorem isNo (hs : Heads (· ≠ t) (b.seen ts))
    (h : Verdict size (fun i => f i false) r least (fun us => Heads (· ≠ t) us ∧ before us) follow b
      b' ts) : Verdict size (fun i => Parser.is t >>= f i) r least before follow b b' ts := by
  refine seeing hs (fun i c _ hc => ?_) h
  rw [is_bind_apply, decide_eq_false hc]

/-- A token that is there or is not. -/
theorem is (hts : ts.getLast? = some .eof)
    (yes : Heads (· = t) (b.seen ts) → Verdict size (fun i => f i true) r least
      (fun us => Heads (· = t) us ∧ before us) follow b b' ts)
    (no : Heads (· ≠ t) (b.seen ts) → Verdict size (fun i => f i false) r least
      (fun us => Heads (· ≠ t) us ∧ before us) follow b b' ts) :
    Verdict size (fun i => Parser.is t >>= f i) r least before follow b b' ts := by
  obtain ⟨u, us, hu⟩ := b.exists_cons hts
  by_cases h : u = t
  · exact isYes ⟨u, _, hu, h⟩ (yes ⟨u, _, hu, h⟩)
  · exact isNo ⟨u, _, hu, h⟩ (no ⟨u, _, hu, h⟩)

theorem test (hts : ts.getLast? = some .eof)
    (yes : Heads (· = t) (b.seen ts) → Verdict size x r least
      (fun us => Heads (· = t) us ∧ before us) follow b b' ts)
    (no : Heads (· ≠ t) (b.seen ts) → Verdict size y r least
      (fun us => Heads (· ≠ t) us ∧ before us) follow b b' ts) :
    Verdict size (fun i => do if ← Parser.is t then x i else y i) r least before follow b b' ts :=
  is hts yes no

end

/-- Line breaks in front do not matter. -/
theorem skipBreaks (hts : ts.getLast? = some .eof)
    (hp : Verdict size p r least
      (fun us => Heads (· ≠ .eol) us ∧ before (b.seen (ts.takeWhile (· = .eol) ++ us))) follow b b'
      (ts.dropWhile (· = .eol))) :
    Verdict size (fun i => do Parser.skipBreaks; p i) r least before follow b b' ts := by
  let es := ts.takeWhile (· = .eol)
  have breaks : ¬ Solid es := not_solid_takeWhile ts
  have noEnd : .eof ∉ es := fun hm => breaks ⟨_, hm, nofun⟩
  have split : es ++ ts.dropWhile (· = .eol) = ts := List.takeWhile_append_dropWhile
  have ends : (ts.dropWhile (· = .eol)).getLast? = some .eof :=
    ends_behind (split.symm ▸ hts) noEnd
  have counts : Heads (· ≠ .eol) (b.seen (ts.dropWhile (· = .eol))) := heads_dropWhile hts
  have run : ∀ rest', LooksLike (ts.dropWhile (· = .eol)) rest' ∨ Heads (· ≠ .eol) (b.seen rest') ∧
      before (b.seen (es ++ b.seen rest')) →
      Begins size (fun i => do Parser.skipBreaks; p i) (fun i (_ : PUnit) => p i) (fun _ => True) b
        b es rest' := by
    intro rest' hr i lexemes c _ hc
    have visible : Heads (· ≠ .eol) (b.seen rest') := by
      obtain hr | hr := hr
      · exact hr.heads counts
      · exact hr.1
    have passed := hc.skipBreaks rfl
    rw [dropWhile_of_not_solid breaks] at passed
    exact ⟨⟨⟩, _, rfl, trivial, passed.of_seen (Brackets.seen_dropWhile visible)
      (ends_behind hc.ends noEnd), c.index_le_skipBreaks⟩
  have behind : Verdict (fun j : After ι PUnit => size j.index - 0)
      (fun j => p j.index) r least _ follow b b' (ts.dropWhile (· = .eol)) :=
    hp.reindex Behind.index fun _ => Nat.le_refl _
  have start (rest' : List Token) (hr : Heads (· ≠ .eol) (b.seen rest') ∧
      before (b.seen (es ++ b.seen rest'))) : before (b.seen (es ++ rest')) :=
    b.seen_append_seen breaks rest' ▸ hr.2
  have whole := of_begins (f := fun i _ => p i) noEnd (Nat.zero_le _) run (.inr start) ends behind
  rwa [split, Nat.zero_add] at whole

end Verdict

end TracedScript.Parser
