import TracedScript.Proofs.Syntax.Enclosed
import TracedScript.Proofs.Syntax.Verdict

/-!
# Verdicts on everything up to some length

`Judges k`: the family has a verdict on every sequence of at most `k` tokens. Parsers that do so can
be put one behind another, whatever the first one leaves. `JudgesPhrase k` is the same for what may
stand where an expression is expected: with a name in its place, all is well. `Follows` is what may
stand behind it.
-/

namespace TracedScript.Parser

open TracedScript.Cursor (On)

/-- At most `k` tokens, up to the end of the program. -/
structure Within (k : Nat) (ts : List Token) : Prop where
  ends : ts.getLast? = some .eof
  short : ts.length ≤ k

/-- What may stand behind an expression: on the next line there is no part of an `if`. -/
structure Follows (ts : List Token) : Prop where
  ends : Heads (Token.Ends 0) ts
  noPart : Next (fun t => t ≠ .keyword .elif ∧ t ≠ .keyword .else) ts

/-- What is seen may be a given token, or what it is, if that is a line break. -/
structure Welcome (before : List Token → Prop) (t : Token) (seen : List Token) : Prop where
  token : ∀ rest, before (t :: rest)
  line : Heads (· ≠ .eol) seen ∨ ∀ rest, before (.eol :: rest)

def Judges {ι α : Type} (k : Nat) (size : ι → Nat) (p : ι → Parser α) (r : α → Prop)
    (before follow : List Token → Prop) (b b' : Brackets) : Prop :=
  ∀ ts, Within k ts → Verdict size p r 0 before follow b b' ts

def JudgesPhrase {ι α : Type} (k : Nat) (size : ι → Nat) (p : ι → Parser α) : Prop :=
  ∀ b before ts, Within k ts → Welcome before (.identifier "x") (b.seen ts) →
    Verdict size p (fun _ => True) 1 before Follows b b ts

section

variable {k m : Nat} {ts us : List Token} {t : Token} {b : Brackets} {before : List Token → Prop}
  {now : Token → Prop} {closing : Mark}

namespace Within

theorem mono (h : Within k ts) (hm : k ≤ m) : Within m ts := ⟨h.ends, Nat.le_trans h.short hm⟩

theorem pos (h : Within k ts) : 0 < k := Nat.lt_of_lt_of_le (length_pos_of_ends h.ends) h.short

theorem seen (h : Within k ts) (b : Brackets) : Within k (b.seen ts) :=
  ⟨b.seen_ends h.ends, Nat.le_trans (b.length_seen_le ts) h.short⟩

theorem of_cons (h : Within (k + 1) (t :: ts)) (ht : t ≠ .eof) : Within k ts :=
  ⟨Cursor.ends_of_cons h.ends ht, by simpa using h.short⟩

theorem dropWhile (h : Within k ts) : Within k (ts.dropWhile (· = .eol)) :=
  ⟨Cursor.ends_of_dropWhile h.ends, Nat.le_trans (List.dropWhile_suffix _).length_le h.short⟩

theorem eof (hk : 0 < k) : Within k [.eof] := ⟨rfl, hk⟩

theorem behind (h : Within (k + 1) (us ++ t :: ts)) (hu : ¬ Solid us) (ht : t ≠ .eof) :
    Within k ts := by
  have short := h.short
  have rest := ends_behind h.ends fun hm => hu ⟨_, hm, nofun⟩
  refine ⟨Cursor.ends_of_cons rest ht, ?_⟩
  rw [List.length_append, List.length_cons] at short
  omega

end Within

theorem follows_mark {m : Mark} (hm : m.closes = true) : Follows (.mark m :: us) :=
  ⟨⟨_, _, rfl, Token.ends_mark hm⟩, ⟨_, _, rfl, nofun, nofun⟩⟩

theorem follows_of_heads {m : Mark} (hm : m.closes = true) (h : Heads (· = .mark m) us) :
    Follows us := by
  obtain ⟨_, us, rfl, rfl⟩ := h
  exact follows_mark hm

namespace Welcome

theorem anything : Welcome Anything t us :=
  ⟨fun _ => trivial, .inr fun _ => trivial⟩

theorem of_ignored (hb : b.mode = .ignored) (hts : ts.getLast? = some .eof)
    (h : ∀ rest, before (t :: rest)) : Welcome before t (b.seen ts) := by
  obtain ⟨u, us, hu⟩ := b.exists_cons hts
  exact ⟨h, .inl ⟨u, us, hu, Brackets.counts_of_ignored hb hu⟩⟩

/-- The token that is seen is no line break, or may be one. -/
theorem seen {u : Token} {vs : List Token} (h : Welcome before t us) (hu : us = u :: vs) :
    u ≠ .eol ∨ ∀ rest, before (u :: rest) := by
  subst hu
  obtain ⟨_, _, hv, hne⟩ | hl := h.line
  · exact .inl ((List.cons_eq_cons.mp hv).1 ▸ hne)
  · by_cases heol : u = .eol
    · exact .inr (heol ▸ hl)
    · exact .inl heol

/-- Something else is demanded that both tokens have. -/
theorem and_heads (h : Welcome before t us) (ht : now t) (hus : Heads now us) :
    Welcome (fun vs => Heads now vs ∧ before vs) t us := by
  refine ⟨fun rest => ⟨⟨_, _, rfl, ht⟩, h.token rest⟩, ?_⟩
  obtain hl | hl := h.line
  · exact .inl hl
  · obtain ⟨u, vs, rfl, hu⟩ := hus
    by_cases heol : u = .eol
    · exact .inr fun rest => ⟨⟨_, _, rfl, heol ▸ hu⟩, hl rest⟩
    · exact .inl ⟨u, vs, rfl, heol⟩

end Welcome

end

/-! ## Putting parsers together -/

section

variable {ι κ α β : Type} {k m : Nat} {size : ι → Nat} {p : ι → Parser α} {f : ι → α → Parser β}
  {r : α → Prop} {q : β → Prop} {least : Nat} {before before' mid follow : List Token → Prop}
  {b b' b'' : Brackets} {ts : List Token}

/-- What is left is judged, and it is shorter by what is passed at least. -/
theorem Verdict.andThen (hts : Within k ts) (hp : Verdict size p r least before mid b b' ts)
    (hf : Judges m (fun j : Behind ι r => size j.index - least) (fun j => f j.index j.result) q mid
      follow b' b'') (hk : k ≤ m + least) (hm : 0 < m) :
    Verdict size (fun i => p i >>= f i) q least before follow b b'' ts := by
  refine bind hts.ends hp (fun us rest split hl hrest _ => hf rest ⟨hrest, ?_⟩) (hf _ (.eof hm))
  have short := hts.short
  rw [split, List.length_append] at short
  omega

/-- One parser behind another that never stops in front of a line break. -/
theorem Verdict.andThen_landing (land : ∀ i c a d, p i c = (.ok a, d) → d.token ≠ .eol)
    (hts : Within k ts) (hp : Verdict size p r 0 before mid b b' ts)
    (hf : ∀ rest, Within k rest → Heads (· ≠ .eol) (b'.seen rest) →
      Verdict (fun j : Behind ι r => size j.index) (fun j => f j.index j.result) q 0 mid follow b'
        b'' rest) : Verdict size (fun i => p i >>= f i) q 0 before follow b b'' ts := by
  by_cases h : ∃ us rest vs, ts = us ++ rest ∧ rest.getLast? = some .eof ∧
      b'.seen rest = .eol :: vs ∧ Passing size p r b b' us rest
  · -- no member of the family gets there
    obtain ⟨us, rest, vs, rfl, hrest, hseen, run⟩ := h
    refine .refuses ?_ fun i lexemes c hi hc => ?_
    · have ends := b'.seen_ends hrest
      have short := b'.length_seen_le rest
      rw [hseen] at ends short
      cases vs with
      | nil => cases ends
      | cons v vs =>
        simp only [List.length_cons, List.length_append] at short ⊢
        omega
    · obtain ⟨a, d, hpc, -, hd, -⟩ := run i lexemes c hi hc
      exact absurd (hd.token hseen) (land i c a d hpc)
  · refine bind hts.ends hp (fun us rest split hl hrest run => hf rest ⟨hrest, ?_⟩ ?_)
      (hf _ (.eof hts.pos) ⟨_, _, Brackets.seen_of_ne nofun, nofun⟩)
    · have short := hts.short
      rw [split, List.length_append] at short
      omega
    · obtain ⟨t, vs, hv⟩ := b'.exists_cons hrest
      refine ⟨t, vs, hv, ?_⟩
      rintro rfl
      exact h ⟨us, rest, vs, split, hrest, hv, run⟩

/-- A result that is made of another one. -/
theorem Verdict.map (f : ι → α → β) (hts : ts.getLast? = some .eof)
    (hp : Verdict size p r least before follow b b' ts) :
    Verdict size (fun i => do return f i (← p i)) (fun _ => True) least before follow b b' ts :=
  bind hts hp (fun _ _ _ _ _ _ => .pure (fun _ => ⟨_, rfl, trivial⟩) fun _ h => h)
    (.pure (fun _ => ⟨_, rfl, trivial⟩) fun _ h => h)

namespace Judges

theorem bind (hp : Judges k size p r before mid b b')
    (hf : Judges k (fun j : Behind ι r => size j.index) (fun j => f j.index j.result) q mid follow
      b' b'') : Judges k size (fun i => p i >>= f i) q before follow b b'' :=
  fun ts hts => (hp ts hts).andThen hts hf (Nat.le_refl k) hts.pos

theorem pure (h : ∀ i, ∃ a, p i = Pure.pure a ∧ r a) (hb : ∀ us, follow us → before us) :
    Judges k size p r before follow b b := fun _ _ => .pure h hb

theorem map (f : ι → α → β) (hp : Judges k size p r before follow b b') :
    Judges k size (fun i => do return f i (← p i)) (fun _ => True) before follow b b' :=
  fun ts hts => (hp ts hts).map f hts.ends

theorem imp (h : Judges k size p r before follow b b') (hb : ∀ us, before us → before' us) :
    Judges k size p r before' follow b b' := fun ts hts => (h ts hts).imp hb (Nat.le_refl 0)

theorem narrow (h : Judges k size p r before follow b b') (hf : ∀ us, mid us → follow us) :
    Judges k size p r before mid b b' := fun ts hts => (h ts hts).narrow hf

theorem restrict (follow : List Token → Prop) (h : Judges k size p r before Anything b b') :
    Judges k size p r before follow b b' := h.narrow fun _ _ => trivial

theorem reindex {less : κ → Nat} (m : κ → ι) (hm : ∀ j, less j ≤ size (m j))
    (h : Judges k size p r before follow b b') :
    Judges k less (fun j => p (m j)) r before follow b b' := fun ts hts => (h ts hts).reindex m hm

theorem skipBreaks (hp : ∀ es ts, ¬ Solid es → Within k ts → Heads (· ≠ .eol) (b.seen ts) →
      Verdict size p r 0 (fun us => Heads (· ≠ .eol) us ∧ before (b.seen (es ++ us))) follow b b'
        ts) : Judges k size (fun i => do Parser.skipBreaks; p i) r before follow b b' := by
  intro ts hts
  exact .skipBreaks hts.ends
    (hp _ _ (not_solid_takeWhile ts) hts.dropWhile (heads_dropWhile hts.ends))

end Judges

namespace JudgesPhrase

theorem judges (h : JudgesPhrase k size p)
    (hw : ∀ ts, Within k ts → Welcome before (.identifier "x") (b.seen ts)) :
    Judges k size p (fun _ => True) before Follows b b :=
  fun ts hts => (h b _ ts hts (hw ts hts)).loose

theorem mono (h : JudgesPhrase m size p) (hm : k ≤ m) : JudgesPhrase k size p :=
  fun b before ts hts => h b before ts (hts.mono hm)

theorem reindex {less : κ → Nat} (m : κ → ι) (hm : ∀ j, less j ≤ size (m j))
    (h : JudgesPhrase k size p) : JudgesPhrase k less fun j => p (m j) :=
  fun b before ts hts hw => (h b before ts hts hw).reindex m hm

end JudgesPhrase

end

/-! ## Tokens -/

/-- The family passes one token that `now` holds of, and rejects everything else. -/
structure Accepts {ι α : Type} (p : ι → Parser α) (now : Token → Prop) (what : String)
    (b b' : Brackets) : Prop where
  content : ∀ t, now t → t.isContent = true
  pass : ∀ i lexemes c t rest, now t → c.On lexemes b (t :: rest) →
    ∃ a d, p i c = (.ok a, d) ∧ d.On lexemes b' rest ∧ c.index ≤ d.index
  reject : ∀ i c, ¬ now c.token → p i c = unexpected what c

section

variable {ι α : Type} {k : Nat} {size : ι → Nat} {p : ι → Parser α} {now : Token → Prop}
  {what : String} {b b' : Brackets} {ts rest : List Token} {t : Token} {before : List Token → Prop}

theorem passing_advance (ht : t.isContent = true) :
    Passing size (fun _ => Parser.advance) (fun _ => True) b b [t] rest := by
  intro i lexemes c _ hc
  exact ⟨_, _, rfl, trivial, hc.advance ht, hc.index_le_advance⟩

namespace Accepts

theorem passing (h : Accepts p now what b b') (ht : now t) :
    Passing size p (fun _ => True) b b' [t] rest := by
  intro i lexemes c _ hc
  obtain ⟨a, d, hp, hd, moved⟩ := h.pass i lexemes c t rest ht hc
  exact ⟨a, d, hp, trivial, hd, moved⟩

theorem verdict (h : Accepts p now what b b') (ht : now t) (hts : ts.getLast? = some .eof)
    (hw : Welcome before t (b.seen ts)) :
    Verdict size p (fun _ => True) 1 before Anything b b' ts := by
  have counts : ∀ {t}, now t → t ≠ .eol ∧ t ≠ .eof := by
    rintro t ht
    constructor <;> rintro rfl <;> cases h.content _ ht
  obtain ⟨u, us, hu⟩ := b.exists_cons hts
  by_cases hnow : now u
  · refine .of_seen ?_
    rw [hu]
    exact .passes [u] _ rfl (by simpa using (counts hnow).2.symm) (Nat.le_refl 1)
      (fun rest' _ => h.passing hnow) (.inl (solid_cons (counts hnow).1))
  · refine .stuck what [t] hu (fun i c _ hc => h.reject i c (hc ▸ hnow)) ?_ (Nat.le_refl 1)
      (fun rest' _ => h.passing ht) ?_ ?_
    · simpa using (counts ht).2.symm
    · exact hw.seen hu
    · intro rest' _
      rw [List.singleton_append, Brackets.seen_of_ne (counts ht).1]
      exact hw.token rest'

/-- The token, and behind it what is judged. -/
theorem andThen {β : Type} {f : ι → α → Parser β} {q : β → Prop} {follow : List Token → Prop}
    {b'' : Brackets} (h : Accepts p now what b b') (ht : now t) (hts : Within k ts)
    (hw : Welcome before t (b.seen ts)) (hf : Judges k
      (fun j : After ι α => size j.index) (fun j => f j.index j.result) q Anything
      follow b' b'') : Verdict size (fun i => p i >>= f i) q 0 before follow b b'' ts :=
  (h.verdict ht hts.ends hw).loose.andThen hts hf (Nat.le_refl k) hts.pos

/-- The token is there. -/
theorem commit {β : Type} {f : ι → α → Parser β} {q : β → Prop} {follow : List Token → Prop}
    {b'' : Brackets} (h : Accepts p now what b b') (hs : Heads now (b.seen ts))
    (hts : Within (k + 1) ts) (hf : Judges k (fun j : After ι α => size j.index - 1)
      (fun j => f j.index j.result) q Anything follow b' b'') :
    Verdict size (fun i => p i >>= f i) q 1 before follow b b'' ts := by
  obtain ⟨t, us, hu, ht⟩ := hs
  have seen := hts.seen b
  refine .of_seen ?_
  rw [hu] at seen ⊢
  have behind : Within k us := seen.of_cons (by rintro rfl; cases h.content _ ht)
  exact .step (fun _ => (h.passing ht).begins) (h.content t ht) behind.ends (hf us behind)

/-- The token where line breaks do not count. -/
theorem inside {β : Type} {f : ι → α → Parser β} {q : β → Prop} {follow : List Token → Prop}
    {b'' : Brackets} (h : Accepts p now what b b') (ht : now t) (hb : b.mode = .ignored)
    (hw : ∀ rest, before (t :: rest)) (hf : Judges k
      (fun j : After ι α => size j.index) (fun j => f j.index j.result) q Anything
      follow b' b'') : Judges k size (fun i => p i >>= f i) q before follow b b'' :=
  fun _ hts => h.andThen ht hts (.of_ignored hb hts.ends hw) hf

/-- The token where nothing is demanded. -/
theorem first {β : Type} {f : ι → α → Parser β} {q : β → Prop} {follow : List Token → Prop}
    {b'' : Brackets} (h : Accepts p now what b b') (ht : now t) (hf : Judges k
      (fun j : After ι α => size j.index) (fun j => f j.index j.result) q Anything
      follow b' b'') : Judges k size (fun i => p i >>= f i) q Anything follow b b'' :=
  fun _ hts => h.andThen ht hts .anything hf

theorem expect (ht : t.isContent = true) (what : String) :
    Accepts (fun _ : ι => Parser.expect t what) (· = t) what b b where
  content := by
    rintro _ rfl
    exact ht
  pass := by
    intro i lexemes c u rest hu hc
    subst hu
    have counts : u ≠ .eol := by
      rintro rfl
      cases ht
    have here := hc.token (Brackets.seen_of_ne counts)
    refine ⟨c.current, c.advance, ?_, hc.advance ht, hc.index_le_advance⟩
    show (if decide (c.token = u) then Parser.advance else unexpected what : Parser Lexeme) c = _
    rw [if_pos (by simpa using here)]
    rfl
  reject := by
    intro i c hc
    show (if decide (c.token = t) then Parser.advance else unexpected what : Parser Lexeme) c = _
    rw [if_neg (by simpa using hc)]

theorem expectKeyword (w : Keyword) :
    Accepts (fun _ : ι => Parser.expectKeyword w) (· = .keyword w) s!"'{w.text}'" b b :=
  expect rfl _

theorem expectIdentifier : Accepts (fun _ : ι => Parser.expectIdentifier)
    (fun t => ∃ name, t = .identifier name) "identifier" b b where
  content := by
    rintro _ ⟨name, rfl⟩
    rfl
  pass := by
    rintro i lexemes c _ rest ⟨name, rfl⟩ hc
    refine ⟨(name, c.span), c.advance, ?_, hc.advance rfl, hc.index_le_advance⟩
    rw [expectIdentifier_apply, hc.token (Brackets.seen_of_ne nofun)]
  reject := by
    intro i c hc
    rw [expectIdentifier_apply]
    split
    · rename_i name ht
      exact absurd ⟨name, ht⟩ hc
    · rfl

theorem enter (m : Mark) (mode : LineBreaks) :
    Accepts (fun _ : ι => Parser.enter (.mark m) mode) (· = .mark m) (Token.mark m).describe b
      (b.push mode) where
  content := by
    rintro _ rfl
    rfl
  pass := by
    rintro i lexemes c _ rest rfl hc
    have entered := hc.enter rfl mode
    refine ⟨c.current, c.enter mode, ?_, entered, ?_⟩
    · rw [enter_apply, if_pos (hc.token (Brackets.seen_of_ne nofun))]
    · exact hc.index_le_enter mode
  reject := by
    intro i c hc
    rw [enter_apply, if_neg hc]

theorem leave (m : Mark) (mode : LineBreaks) (what : String) :
    Accepts (fun _ : ι => Parser.leave (.mark m) what) (· = .mark m) what (b.push mode) b where
  content := by
    rintro _ rfl
    rfl
  pass := by
    rintro i lexemes c _ rest rfl hc
    refine ⟨c.current, c.leave, ?_, hc.leave rfl, hc.index_le_leave⟩
    rw [leave_apply, if_pos (hc.token (Brackets.seen_of_ne nofun))]
  reject := by
    intro i c hc
    rw [leave_apply, if_neg hc]

end Accepts

end

section

variable {ι α β : Type} {k : Nat} {size : ι → Nat} {p y : ι → Parser β}
  {f : ι → Lexeme → Parser β} {q : β → Prop} {before follow : List Token → Prop}
  {b b' : Brackets} {ts es rest : List Token} {t : Token}

/-- Behind a token that is passed, whichever it is. -/
theorem Verdict.advance (hs : Heads (· = t) (b.seen ts)) (ht : t.isContent = true)
    (hts : Within (k + 1) ts) (hf : Judges k
      (fun j : After ι Lexeme => size j.index - 1) (fun j => f j.index j.result) q
      Anything follow b b') :
    Verdict size (fun i => Parser.advance >>= f i) q 1 before follow b b' ts := by
  obtain ⟨_, us, hu, rfl⟩ := hs
  have seen := hts.seen b
  refine .of_seen ?_
  rw [hu] at seen ⊢
  have behind : Within k us := seen.of_cons (by rintro rfl; cases ht)
  exact .step (fun _ => (passing_advance ht).begins) ht behind.ends (hf us behind)

/-- Behind a token that may stand on the next line. -/
theorem Verdict.ahead (he : ¬ Solid es) (ht : t.isContent = true)
    (hrest : rest.getLast? = some .eof) (agree : ∀ i c, 0 < size i → c.skipBreaks.token = t →
      y i c = p i c.skipBreaks.advance)
    (hp : Verdict (fun i => size i - 1) p q 0 Anything follow b b' rest) :
    Verdict size y q 0 before follow b b' (es ++ t :: rest) := by
  have counts : t ≠ .eol ∧ t ≠ .eof := by
    constructor <;> rintro rfl <;> cases ht
  have noEnd : .eof ∉ es ++ [t] := by
    intro hm
    obtain hm | hm := List.mem_append.mp hm
    · exact he ⟨_, hm, nofun⟩
    · exact counts.2 (List.mem_singleton.mp hm).symm
  have run (rest' : List Token) :
      Begins size y (fun i (_ : PUnit) => p i) (fun _ => True) b b (es ++ [t]) rest' := by
    intro i lexemes c hi hc
    rw [List.append_assoc, List.singleton_append] at hi hc
    have found := hc.lookahead he counts.1
    have here := agree i c (Nat.lt_of_lt_of_le hc.length_pos hi)
      (found.token (Brackets.seen_of_ne counts.1))
    exact ⟨⟨⟩, _, here, trivial, found.advance ht,
      Nat.le_trans c.index_le_skipBreaks found.index_le_advance⟩
  have behind : Verdict (fun j : After ι PUnit => size j.index - 1)
      (fun j => p j.index) q 0 Anything follow b b' rest :=
    hp.reindex Behind.index fun _ => Nat.le_refl _
  have solid : Solid (es ++ [t]) := (solid_cons counts.1).behind
  have whole : Verdict size y q (1 + 0) before follow b b' ((es ++ [t]) ++ rest) :=
    .of_begins (f := fun i _ => p i) noEnd (by simp) (fun rest' _ => run rest') (.inl solid) hrest
      behind
  rw [List.append_assoc, List.singleton_append] at whole
  exact whole.loose

end

/-! ## Lists -/

/-- A comma or the closing mark of a list. -/
def EndsItem (closing : Mark) : List Token → Prop :=
  Heads fun t => t = .mark .comma ∨ t = .mark closing

theorem EndsItem.follows {closing : Mark} (hc : closing.closes = true) {ts : List Token}
    (h : EndsItem closing ts) : Follows ts := by
  obtain ⟨_, us, rfl, rfl | rfl⟩ := h
  · exact follows_mark rfl
  · exact follows_mark hc

section

variable {ι σ κ : Type} {k : Nat} {size loop : ι → Nat} {b : Brackets} {closing : Mark}
  {item : ι → σ → Parser σ} {State : κ → σ → Prop}

/-- What stands behind an item, when the rest of the list is judged. -/
theorem Judges.commaTail (hb : b.mode = .ignored) (hc : closing ≠ .comma) {acc : ι → σ}
    (more : Judges k size (fun i => Parser.commaSeparated (item i) closing (loop i) (acc i))
      (fun _ => True) Anything (Heads (· = .mark closing)) b b) :
    Judges (k + 1) size (fun i => do
        if ← isMark .comma then
          let _ ← Parser.advance
          let (acc, _) ← Parser.commaSeparated (item i) closing (loop i) (acc i)
          return (acc, true)
        if ← isMark closing then return (acc i, false)
        Parser.unexpected s!"',' or {(Token.mark closing).describe}") (fun _ => True)
      (EndsItem closing) (Heads (· = .mark closing)) b b := by
  intro ts hts
  obtain ⟨t, us, hu⟩ := b.exists_cons hts.ends
  have seen := hts.seen b
  by_cases hcomma : t = .mark .comma
  · subst hcomma
    refine .of_seen ?_
    rw [hu] at seen ⊢
    have behind : Within k us := seen.of_cons nofun
    refine .isYes ⟨_, _, Brackets.seen_of_ne nofun, rfl⟩ ?_
    refine .loose (.step (fun _ => (passing_advance rfl).begins) rfl behind.ends ?_)
    have rest := (more us behind).map (fun _ r => (r.1, true)) behind.ends
    exact rest.reindex Behind.index fun j => Nat.sub_le _ _
  by_cases hclosing : t = .mark closing
  · have hne : Heads (· ≠ .mark .comma) (b.seen ts) := ⟨t, us, hu, hcomma⟩
    refine .isNo hne (.isYes ⟨t, us, hu, hclosing⟩ (.pure (fun _ => ⟨_, rfl, trivial⟩) ?_))
    exact fun us hus => ⟨hus, hus.imp fun _ hm => by simpa [hm] using hc, hus.imp fun _ => .inr⟩
  · let what := s!"',' or {(Token.mark closing).describe}"
    refine .stuck what [] hu ?_ List.not_mem_nil (Nat.le_refl 0) ?_ ?_ ?_
    · intro i c _ ht
      simp [isMark, is_bind_apply, ht, hcomma, hclosing, what]
    · intro rest hr
      refine passing_nothing (fun i c _ hm => ⟨(acc i, false), ?_⟩) hr
      simp [isMark, is_bind_apply, hm, hc]
      rfl
    · exact .inl (Brackets.counts_of_ignored hb hu)
    · exact fun rest hr => hr.imp fun _ => .inr

/-- Items between commas: each one is read by a parser that may depend on the items before it, but
only on their state. -/
theorem Judges.commaSeparated (item : ι → σ → Parser σ) (State : κ → σ → Prop)
    (hb : b.mode = .ignored) (hc : closing ≠ .comma)
    (step : ∀ v ts, Within k ts → ∃ v', Verdict (fun j : Behind ι (State v) => size j.index)
      (fun j => item j.index j.result) (State v') 1 (Heads (· ≠ .mark closing)) (EndsItem closing) b
      b ts) {less : ι → Nat} (hless : ∀ i, less i ≤ size i) (hloop : ∀ i, less i ≤ loop i) (v : κ)
    {m : Nat} (hm : m ≤ k) :
    Judges m (fun j : Behind ι (State v) => less j.index)
      (fun j => Parser.commaSeparated (item j.index) closing (loop j.index) j.result)
      (fun _ => True) Anything (Heads (· = .mark closing)) b b := by
  induction m generalizing loop less v with
  | zero => exact fun ts hts => absurd hts.pos (Nat.lt_irrefl 0)
  | succ m ih =>
    intro ts hts
    refine .congr (x := fun j => do
        if ← isMark closing then return (j.result, false)
        let acc ← item j.index j.result
        if ← isMark .comma then
          let _ ← Parser.advance
          let (acc, _) ← Parser.commaSeparated (item j.index) closing (loop j.index - 1) acc
          return (acc, true)
        if ← isMark closing then return (acc, false)
        Parser.unexpected s!"',' or {(Token.mark closing).describe}") ?_ ?_
    · intro j hj
      obtain ⟨n, hn⟩ : ∃ n, loop j.index = n + 1 :=
        ⟨loop j.index - 1, by have := hloop j.index; omega⟩
      rw [hn]
      rfl
    refine .is hts.ends (fun _ => .pure (fun _ => ⟨_, rfl, trivial⟩) fun _ h => ⟨h, trivial⟩)
      fun _ => ?_
    obtain ⟨v', first⟩ := step v ts (hts.mono hm)
    have first : Verdict (fun j : Behind ι (State v) => less j.index) _ (State v') 1
        (fun us => Heads (· ≠ .mark closing) us ∧ Anything us) (EndsItem closing) b b ts :=
      (first.reindex id fun j => hless j.index).imp (fun _ h => ⟨h, trivial⟩) (Nat.le_refl 1)
    refine .loose (first.andThen hts (commaTail hb hc ?_) (Nat.le_succ _) (Nat.succ_pos m))
    have rest : Judges m (fun j : Behind ι (State v') => less j.index - 1) _ _ _ _ b b :=
      ih (fun i => Nat.le_trans (Nat.sub_le _ _) (hless i))
        (fun i => Nat.sub_le_sub_right (hloop i) 1) v' (Nat.le_of_succ_le hm)
    exact rest.reindex (fun j : Behind (Behind ι (State v)) (State v') =>
      ⟨j.index.index, j.result, j.holds⟩) fun _ => Nat.le_refl _

end

/-- Items that are read alike. -/
theorem Judges.list {ι σ : Type} {k : Nat} {size loop : ι → Nat} {b : Brackets} {closing : Mark}
    (item : ι → σ → Parser σ) (hb : b.mode = .ignored) (hc : closing ≠ .comma)
    (step : ∀ ts, Within k ts → Verdict (fun j : ι × σ => size j.1) (fun j => item j.1 j.2)
      (fun _ => True) 1 (Heads (· ≠ .mark closing)) (EndsItem closing) b b ts)
    (hloop : ∀ i, size i ≤ loop i) (acc : σ) :
    Judges k size (fun i => Parser.commaSeparated (item i) closing (loop i) acc) (fun _ => True)
      Anything (Heads (· = .mark closing)) b b := by
  have each (_ : Unit) (ts : List Token) (hts : Within k ts) : ∃ v' : Unit,
      Verdict (fun j : After ι σ => size j.index) (fun j => item j.index j.result)
        ((fun (_ : Unit) (_ : σ) => True) v') 1 (Heads (· ≠ .mark closing)) (EndsItem closing) b b
        ts :=
    ⟨(), (step ts hts).reindex (fun j : After ι σ => (j.index, j.result)) fun _ => Nat.le_refl _⟩
  have judged := Judges.commaSeparated item (fun (_ : Unit) _ => True) hb hc each
    (fun _ => Nat.le_refl _) hloop () (Nat.le_refl k)
  exact judged.reindex (fun i => ⟨i, acc, trivial⟩) fun _ => Nat.le_refl _

/-! ## Lines -/

section

variable {ι : Type} {k : Nat} {size : ι → Nat} {b : Brackets} {stop : Token} {what : String}

/-- What stands behind a statement, when the lines below are judged. -/
theorem Judges.lineTail (hb : b.mode = .significant) (hne : stop ≠ .eol) {first : ι → Node}
    {loop : ι → Parser (List Node)}
    (ends : ∀ i c, 0 < size i → c.token = stop → loop i c = (.ok [], c))
    (more : ∀ us, Within (k + 1) (.eol :: us) → Verdict size loop (fun _ => True) 0
      (fun us => Heads (· = .eol) us ∧ Follows us) (Heads (· = stop)) b b (.eol :: us))
    (hstop : ∀ us, Follows (stop :: us)) :
    Judges (k + 1) size (fun i => do
        let ended ← Parser.is .eol
        let closed ← Parser.is stop
        if ended || closed then
          return first i :: (← loop i)
        else Parser.unexpected what) (fun _ => True) Follows (Heads (· = stop)) b b := by
  intro ts hts
  obtain ⟨t, us, hu⟩ := b.exists_cons hts.ends
  have closed (us : List Token) (h : Heads (· = stop) us) : Follows us := by
    obtain ⟨_, us, rfl, rfl⟩ := h
    exact hstop us
  have finished (i : ι) (c : Cursor) (hi : 0 < size i) (hc : c.token = stop) :
      (do
        let ended ← Parser.is .eol
        let closed ← Parser.is stop
        if ended || closed then
          return first i :: (← loop i)
        else Parser.unexpected what : Parser (List Node)) c = (.ok [first i], c) := by
    simp only [is_bind_apply, hc, hne, decide_false, decide_true, Bool.false_or, if_true]
    exact bind_of_ok (ends i c hi hc)
  by_cases hstopped : t = stop
  · exact .nothing (fun i c hi hc => ⟨[first i], finished i c hi hc⟩) ⟨t, us, hu, hstopped⟩
      fun us hus => ⟨hus, closed us hus⟩
  by_cases heol : t = .eol
  · subst heol
    obtain rfl : ts = .eol :: us := (Brackets.seen_significant hb).symm.trans hu
    refine .isYes ⟨_, _, hu, rfl⟩ (.isNo ⟨_, _, hu, hne.symm⟩ ?_)
    have below : Verdict size loop (fun _ => True) 0
        (fun us => Heads (· ≠ stop) us ∧ Heads (· = .eol) us ∧ Follows us) (Heads (· = stop)) b b
        (.eol :: us) :=
      (more us hts).imp (fun _ h => ⟨h.1.imp fun t ht => ht ▸ hne.symm, h⟩) (Nat.le_refl 0)
    exact below.map (fun i rest => first i :: rest) hts.ends
  · refine .stuck what [] hu ?_ List.not_mem_nil (Nat.le_refl 0) ?_ (.inl heol)
      fun rest hr => closed _ hr
    · intro i c _ hc
      simp only [is_bind_apply, hc, heol, hstopped, decide_false, Bool.false_or, Bool.false_eq_true,
        if_false]
    · intro rest hr
      exact passing_nothing (fun i c hi hc => ⟨[first i], finished i c hi hc⟩) hr

/-- What is no part of an `if` may stand on a line below. -/
theorem below_line {t : Token} {rest : List Token} (us : List Token) (ht : t ≠ .eol)
    (noPart : t ≠ .keyword .elif ∧ t ≠ .keyword .else) :
    Heads (· = .eol) ((Token.eol :: us).takeWhile (· = .eol) ++ t :: rest) ∧
      Follows ((Token.eol :: us).takeWhile (· = .eol) ++ t :: rest) := by
  have next : Next (fun t => t ≠ .keyword .elif ∧ t ≠ .keyword .else)
      ((Token.eol :: us).takeWhile (· = .eol) ++ t :: rest) :=
    (next_append (not_solid_takeWhile _) ht).mpr noPart
  rw [List.takeWhile_cons_of_pos (by simp)] at next ⊢
  exact ⟨⟨_, _, rfl, rfl⟩, ⟨_, _, rfl, nofun, nofun, nofun, nofun, nofun⟩, next⟩

/-- Statements, each on lines of its own, up to a token that stands behind the last one. -/
theorem Verdict.lines (hb : b.mode = .significant) (stop : Token) (hne : stop ≠ .eol)
    (hname : stop ≠ .identifier "x") (hstop : ∀ us, Follows (stop :: us)) {line : ι → Parser Node}
    (hline : JudgesPhrase k size line) {less n : ι → Nat} (hless : ∀ i, less i ≤ size i)
    (hn : ∀ i, less i ≤ n i) {before : List Token → Prop} {ts : List Token}
    (hts : ts.getLast? = some .eof) {m : Nat} (hm : m ≤ k)
    (hshort : (ts.dropWhile (· = .eol)).length ≤ m)
    (hbefore : ∀ t us, t = .identifier "x" ∨ t = stop →
      before (ts.takeWhile (· = .eol) ++ t :: us)) :
    Verdict less (fun i => Parser.lines (line i) stop what (n i)) (fun _ => True) 0 before
      (Heads (· = stop)) b b ts := by
  induction m generalizing less n before ts with
  | zero => exact absurd (Within.pos ⟨Cursor.ends_of_dropWhile hts, hshort⟩) (Nat.lt_irrefl 0)
  | succ m ih =>
    refine .congr (x := fun i => do
      Parser.skipBreaks
      if ← Parser.is stop then return []
      let first ← line i
      let ended ← Parser.is .eol
      let closed ← Parser.is stop
      if ended || closed then
        return first :: (← Parser.lines (line i) stop what (n i - 1))
      else Parser.unexpected what) ?_ ?_
    · intro i hi
      obtain ⟨n', hn'⟩ : ∃ n', n i = n' + 1 := ⟨n i - 1, by have := hn i; omega⟩
      rw [hn']
      rfl
    have within : Within (m + 1) (ts.dropWhile (· = .eol)) :=
      ⟨Cursor.ends_of_dropWhile hts, hshort⟩
    refine .skipBreaks hts (.is within.ends (fun _ => ?_) fun hopen => ?_)
    · refine .pure (fun _ => ⟨[], rfl, trivial⟩) ?_
      rintro _ ⟨_, us, rfl, rfl⟩
      refine ⟨⟨_, us, rfl, rfl⟩, ⟨_, us, rfl, hne⟩, ?_⟩
      rw [Brackets.seen_significant hb]
      exact hbefore _ us (.inr rfl)
    have welcome : Welcome (fun us => Heads (· ≠ stop) us ∧ Heads (· ≠ .eol) us ∧
        before (b.seen (ts.takeWhile (· = .eol) ++ us))) (.identifier "x")
        (b.seen (ts.dropWhile (· = .eol))) := by
      refine ⟨fun rest => ⟨⟨_, _, rfl, hname.symm⟩, ⟨_, _, rfl, nofun⟩, ?_⟩,
        .inl (heads_dropWhile hts)⟩
      rw [Brackets.seen_significant hb]
      exact hbefore _ rest (.inl rfl)
    have first := (hline b _ _ (within.mono hm) welcome).reindex id hless
    refine .loose (first.andThen within (Judges.lineTail hb hne ?_ ?_ hstop) (Nat.le_succ _)
      (Nat.succ_pos m))
    · intro j c hj hc
      obtain ⟨n', hn'⟩ : ∃ n', n j.index - 1 = n' + 1 :=
        ⟨n j.index - 2, by have := hn j.index; omega⟩
      have still := Cursor.skipBreaks_of_ne (hc.symm ▸ hne)
      rw [hn', Parser.lines, skipBreaks_bind_apply, still, is_bind_apply, decide_eq_true hc]
      rfl
    · intro us hus
      have shorter : ((.eol :: us).dropWhile (· = Token.eol)).length ≤ m := by
        have suffix := (List.dropWhile_suffix (· = Token.eol) (l := us)).length_le
        have short := hus.short
        rw [List.dropWhile_cons_of_pos (by simp)]
        rw [List.length_cons] at short
        omega
      have below : Verdict (fun i => less i - 1)
          (fun i => Parser.lines (line i) stop what (n i - 1)) (fun _ => True) 0 (fun us => Heads (· = .eol) us ∧ Follows us) (Heads (· = stop)) b b
          (.eol :: us) := by
        refine ih (fun i => Nat.le_trans (Nat.sub_le _ _) (hless i))
          (fun i => Nat.sub_le_sub_right (hn i) 1) hus.ends (Nat.le_of_succ_le hm) shorter ?_
        rintro t rest (rfl | rfl)
        · exact below_line us nofun ⟨nofun, nofun⟩
        · exact below_line us hne ((next_append not_solid_nil hne).mp (hstop rest).noPart)
      exact below.reindex (fun j : After ι Node => j.index) fun _ => Nat.le_refl _

end

end TracedScript.Parser
