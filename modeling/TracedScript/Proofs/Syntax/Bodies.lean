import TracedScript.Proofs.Syntax.Enclosed

/-!
# Bodies read back

Blocks, and the constructs that own them: function literals, `handler`, `if`, `switch`, `for` and
`while`. Each is read back from what it was written as, under the assumption that what is inside is:
`Grammar.Inverts`. Blocks start a new line in brackets of their own, so that what stands behind them
is seen as before.
-/

namespace TracedScript

open TracedScript.Cursor (Ahead)
open TracedScript.Parser (Passes)

/-! ## Lengths -/

section

variable {ι : Type} {w : ι → List Token}

theorem length_mem_commaList {x : ι} {xs : List ι} (h : x ∈ xs) :
    (w x).length ≤ (commaList (xs.map w)).length := by
  induction xs with
  | nil => cases h
  | cons y ys ih =>
    cases ys with
    | nil =>
      obtain rfl := List.mem_singleton.mp h
      exact Nat.le_refl _
    | cons z zs =>
      simp only [List.map_cons, commaList, List.length_append, List.length_cons] at ih ⊢
      obtain rfl | h := List.mem_cons.mp h
      · omega
      · have := ih h
        omega

theorem length_le_commaList {xs : List ι} (h : ∀ x ∈ xs, w x ≠ []) :
    xs.length ≤ (commaList (xs.map w)).length := by
  induction xs with
  | nil => exact Nat.le_refl _
  | cons x xs ih =>
    obtain ⟨hx, hxs⟩ := List.forall_mem_cons.mp h
    have first := List.length_pos_iff.mpr hx
    have ih := ih hxs
    cases xs with
    | nil => exact first
    | cons y ys =>
      simp only [List.map_cons, commaList, List.length_append, List.length_cons] at ih ⊢
      omega

end

theorem length_mem_lines {body : List Node} {s : Node} (h : s ∈ body) :
    s.tokens.length < (lineTokens body).length := by
  induction body with
  | nil => cases h
  | cons s' body ih =>
    rw [lineTokens, List.length_append, List.length_cons]
    obtain rfl | h := List.mem_cons.mp h
    · omega
    · have := ih h
      omega

theorem length_le_lines (body : List Node) : body.length ≤ (lineTokens body).length := by
  induction body with
  | nil => exact Nat.le_refl _
  | cons s body ih =>
    rw [lineTokens, List.length_append, List.length_cons, List.length_cons]
    omega

/-! ## Lines -/

/-- The token may stand at the start of a line behind any statement. -/
structure Token.StartsLine (t : Token) : Prop where
  noBreak : t ≠ .eol
  noElif : t ≠ .keyword .elif
  noElse : t ≠ .keyword .else

theorem Token.startsLine {t : Token} (h : t.startsStatement = true) : t.StartsLine :=
  ⟨starts_ne h rfl, starts_ne h rfl, starts_ne h rfl⟩

theorem Token.startsLine_close : Token.StartsLine (.mark .rbrace) := ⟨nofun, nofun, nofun⟩

theorem Token.startsLine_eof : Token.StartsLine .eof := ⟨nofun, nofun, nofun⟩

section

variable (body : List Node) {u : Token} (hu : u.StartsLine) (rest : List Token)

include hu

theorem lines_start : ∃ t us, lineTokens body ++ u :: rest = t :: us ∧ t.StartsLine := by
  cases body with
  | nil => exact ⟨u, rest, rfl, hu⟩
  | cons s body =>
    obtain ⟨t, us, hs, ht, -⟩ := s.tokens_start
    rw [lineTokens, hs]
    exact ⟨t, _, rfl, Token.startsLine ht⟩

theorem lines_visible :
    (lineTokens body ++ u :: rest).dropWhile (· = .eol) = lineTokens body ++ u :: rest := by
  obtain ⟨t, us, hl, ht⟩ := lines_start body hu rest
  rw [hl, List.dropWhile_cons_of_neg (by simpa using ht.noBreak)]

theorem next_lines_visible :
    (.eol :: (lineTokens body ++ u :: rest)).dropWhile (· = .eol) = lineTokens body ++ u :: rest :=
  lines_visible body hu rest

theorem mayFollow_line : MayFollow .significant (.eol :: (lineTokens body ++ u :: rest)) := by
  obtain ⟨t, us, hl, ht⟩ := lines_start body hu rest
  refine ⟨⟨_, _, rfl, fun _ => rfl, ⟨nofun, nofun, nofun, nofun, nofun⟩⟩, ?_, ?_⟩
  · rw [next_lines_visible body hu rest, hl]
    simpa using ht.noElif
  · rw [next_lines_visible body hu rest, hl]
    simpa using ht.noElse

end

/-- A branch of which everything can be written. -/
structure Branch.IsWritable (b : Branch) : Prop where
  condition : b.condition.IsExpression
  body : ∀ s ∈ b.body, s.IsWritable

theorem Branch.tokens_eq (b : Branch) : b.tokens =
    parenthesized (parenthesized b.condition.tokens) ++ braced (lineTokens b.body) := by
  cases b
  rfl

namespace Grammar

variable {g : Grammar} {n m : Nat} {mode : LineBreaks} {outer : List LineBreaks}
  {ts rest : List Token}

/-- The first line of several, up to its end. -/
theorem line_pass {p : Parser Node} {s : Node} (hp : p.Takes s.tokens s.SameTree MayFollow)
    (body : List Node) {u : Token} (hu : u.StartsLine) :
    ∃ t us, lineTokens (s :: body) ++ u :: rest = t :: us ∧ t.startsStatement = true ∧
      Passes (Ahead .significant outer (t :: us)) p s.SameTree
        (Ahead .significant outer (.eol :: (lineTokens body ++ u :: rest))) := by
  obtain ⟨t, us, hs, ht, -⟩ := s.tokens_start
  have first := hp .significant outer _ (mayFollow_line body hu rest)
  rw [hs] at first
  refine ⟨t, us ++ .eol :: (lineTokens body ++ u :: rest), ?_, ht, first⟩
  simp [lineTokens, hs]

/-- All lines of a body, up to a token with which no statement starts. -/
theorem lines_pass {line : Parser Node} {last : Token} {what : String} (hlast : last.StartsLine)
    (hne : last.startsStatement = false) {body : List Node}
    (hline : ∀ s ∈ body, line.Takes s.tokens s.SameTree MayFollow) (hm : body.length < m)
    (hts : ts.dropWhile (· = .eol) = lineTokens body ++ last :: rest) :
    Passes (Ahead .significant outer ts) (Parser.lines line last what m)
      (List.Forall₂ Node.SameTree body) (Ahead .significant outer (last :: rest)) := by
  induction body generalizing m ts with
  | nil =>
    obtain _ | m := m
    · cases hm
    exact (Passes.skipBreaks hts).bind fun _ _ => .testYes (by simp) (.pure .nil)
  | cons s body ih =>
    obtain _ | m := m
    · cases hm
    obtain ⟨hs, hline⟩ := List.forall_mem_cons.mp hline
    obtain ⟨t, us, hl, ht, first⟩ := line_pass hs body hlast
    refine (Passes.skipBreaks (hts.trans hl)).bind fun _ _ => ?_
    refine .testNo (fun h => absurd h (Token.startsLine ht).noBreak) (Token.starts_ne ht hne) ?_
    refine first.bind fun _ hf => .isYes (by simp) (.isNo (by simp) hlast.noBreak.symm ?_)
    have more := ih hline (Nat.lt_of_succ_lt_succ hm) (next_lines_visible body hlast rest)
    exact more.bind fun _ hr => .pure (.cons hf hr)

theorem statements_pass (hg : g.Inverts n) {body : List Node} (hw : ∀ s ∈ body, s.IsWritable)
    (hn : ∀ s ∈ body, s.tokens.length < n) (hm : body.length < m)
    (hts : ts.dropWhile (· = .eol) = lineTokens body ++ .mark .rbrace :: rest) :
    Passes (Ahead .significant outer ts) (statements g m) (List.Forall₂ Node.SameTree body)
      (Ahead .significant outer (.mark .rbrace :: rest)) := by
  rw [statements_eq]
  exact lines_pass Token.startsLine_close rfl (fun s hs => hg.line s (hw s hs) (hn s hs)) hm hts

theorem block_pass (hg : g.Inverts n) {body : List Node} (hw : ∀ s ∈ body, s.IsWritable)
    (hn : (braced (lineTokens body)).length ≤ n) :
    Passes (Ahead mode outer (braced (lineTokens body) ++ rest)) (block g)
      (fun r => List.Forall₂ Node.SameTree body r.1) (Ahead mode outer rest) := by
  rw [length_braced] at hn
  rw [braced_append]
  have short (s : Node) (hs : s ∈ body) : s.tokens.length < n := by
    have := length_mem_lines hs
    omega
  have few : body.length < g.allowance := by
    have := length_le_lines body
    have := hg.allowance
    omega
  refine (Passes.skipBreaks rfl).bind fun _ _ => (Passes.enter _).bind fun _ _ => ?_
  refine (statements_pass hg hw short few
    (lines_visible body Token.startsLine_close rest)).bind fun _ hb => ?_
  exact (Passes.leave _ _).bind fun _ _ => .pure hb

theorem Inverts.child (hg : g.Inverts n) {e : Node} (he : e.IsExpression)
    (hn : (parenthesized e.tokens).length < n) :
    (g.read .expression).Takes (parenthesized e.tokens) e.SameTree MayFollow :=
  fun mode outer rest h => hg.enclosed e he hn .expression (by decide) mode outer rest h.ends

theorem Inverts.child_mark (hg : g.Inverts n) {e : Node} (he : e.IsExpression)
    (hn : (parenthesized e.tokens).length < n) {m : Mark} (hm : m.closes = true) :
    Passes (Ahead mode outer (parenthesized e.tokens ++ .mark m :: rest)) (g.read .expression)
      e.SameTree (Ahead mode outer (.mark m :: rest)) := hg.child he hn _ _ _ (mayFollow_mark hm)

theorem condition_pass (hg : g.Inverts n) {e : Node} (he : e.IsExpression)
    (hn : (parenthesized (parenthesized e.tokens)).length ≤ n) :
    Passes (Ahead mode outer (parenthesized (parenthesized e.tokens) ++ rest)) (condition g)
      e.SameTree (Ahead mode outer rest) := by
  rw [parenthesized_append]
  refine (Passes.enter _).bind fun _ _ => ?_
  refine (hg.child_mark he (by simp at hn ⊢; omega) rfl).bind fun _ ht => ?_
  exact (Passes.leave _ _).bind fun _ _ => .pure ht

theorem target_pass (t : Target) :
    Passes (Ahead mode outer (t.tokens ++ rest)) target (· = t) (Ahead mode outer rest) := by
  obtain ⟨name, declares⟩ := t
  have named (declares : Bool) : Passes (Ahead mode outer (.identifier name :: rest))
      (do return Target.mk (← Parser.expectIdentifier).1 declares) (· = ⟨name, declares⟩)
      (Ahead mode outer rest) :=
    (Passes.expectIdentifier name).bind fun r hr => .pure (by rw [hr])
  cases declares with
  | true => exact .isYes (by simp) ((Passes.advance rfl).bind fun _ _ => named true)
  | false => exact .isNo (by simp) (by simp) (named false)

theorem branch_pass (hg : g.Inverts n) {b : Branch} (hb : b.IsWritable)
    (hn : b.tokens.length ≤ n) :
    Passes (Ahead mode outer (b.tokens ++ rest)) (branch g)
      (fun r => Branch.Alike Node.SameTree b r.1) (Ahead mode outer rest) := by
  rw [Branch.tokens_eq, List.length_append] at hn
  rw [Branch.tokens_eq, List.append_assoc]
  refine (condition_pass hg hb.condition (by omega)).bind fun _ ht => ?_
  exact (block_pass hg hb.body (by omega)).bind fun _ hr => .pure ⟨ht, hr⟩

/-! ## Lists of two kinds of items -/

section

variable {α α' β β' : Type}

/-- Items of a first kind and then items of a second kind. -/
def bothKinds (as : List α) (bs : List β) : List (α ⊕ β) := as.map .inl ++ bs.map .inr

/-- Nothing of the second kind stands before something of the first kind. -/
theorem filterMap_getRight_eq_nil {done later : List (α ⊕ β)} {a : α} {as : List α} {bs : List β}
    (h : done ++ .inl a :: later = bothKinds as bs) : done.filterMap Sum.getRight? = [] := by
  induction done generalizing as with
  | nil => rfl
  | cons x done ih =>
    cases as with
    | nil =>
      have : Sum.inl a ∈ bs.map (Sum.inr : β → α ⊕ β) := by
        rw [bothKinds, List.map_nil, List.nil_append] at h
        rw [← h]
        simp
      simp at this
    | cons a' as =>
      obtain ⟨rfl, later⟩ := List.cons_eq_cons.mp h
      exact ih later

variable (ra : α → α' → Prop) (rb : β → β' → Prop)

/-- What has been read of items of two kinds is collected in two lists. -/
structure Apart (done : List (α ⊕ β)) (acc : List α' × List β') : Prop where
  firsts : List.Forall₂ ra (done.filterMap Sum.getLeft?) acc.1
  seconds : List.Forall₂ rb (done.filterMap Sum.getRight?) acc.2

variable {ra rb} {done : List (α ⊕ β)} {acc : List α' × List β'} {as : List α} {bs : List β}

theorem Apart.inl (h : Apart ra rb done acc) {a : α} {a' : α'} (ha : ra a a') :
    Apart ra rb (done ++ [.inl a]) (acc.1 ++ [a'], acc.2) := by
  have firsts := List.rel_append h.firsts (.cons ha .nil)
  exact ⟨by simpa using firsts, by simpa [List.filterMap_cons] using h.seconds⟩

theorem Apart.inr (h : Apart ra rb done acc) {b : β} {b' : β'} (hb : rb b b') :
    Apart ra rb (done ++ [.inr b]) (acc.1, acc.2 ++ [b']) := by
  have seconds := List.rel_append h.seconds (.cons hb .nil)
  exact ⟨by simpa [List.filterMap_cons] using h.firsts, by simpa using seconds⟩

theorem Apart.both (h : Apart ra rb (bothKinds as bs) acc) :
    List.Forall₂ ra as acc.1 ∧ List.Forall₂ rb bs acc.2 := by
  have firsts := h.firsts
  have seconds := h.seconds
  simp only [bothKinds, List.filterMap_append, List.filterMap_map, Function.comp_def,
    Sum.getLeft?_inl, Sum.getLeft?_inr, Sum.getRight?_inl, Sum.getRight?_inr, List.filterMap_some,
    List.filterMap_none, List.append_nil, List.nil_append] at firsts seconds
  exact ⟨firsts, seconds⟩

/-- Items of two kinds, where one of the first kind is only read while there is none of the second
kind. -/
theorem twoKinds_pass {item : List α' × List β' → Parser (List α' × List β')}
    {w : α ⊕ β → List Token}
    (starts : ∀ x, ∃ t ts, w x = t :: ts ∧ t.isContent = true ∧ t ≠ .mark .rparen)
    (hm : (commaList ((bothKinds as bs).map w)).length < m)
    (first : ∀ a ∈ as, (w (.inl a)).length ≤ (commaList ((bothKinds as bs).map w)).length →
      ∀ acc k ts, acc.2 = [] → k = .comma ∨ k = .rparen →
        Passes (Ahead mode outer (w (.inl a) ++ .mark k :: ts)) (item acc)
          (fun r => ∃ a', ra a a' ∧ r = (acc.1 ++ [a'], acc.2))
          (Ahead mode outer (.mark k :: ts)))
    (second : ∀ b ∈ bs, (w (.inr b)).length ≤ (commaList ((bothKinds as bs).map w)).length →
      ∀ acc k ts, k.closes = true →
        Passes (Ahead mode outer (w (.inr b) ++ .mark k :: ts)) (item acc)
          (fun r => ∃ b', rb b b' ∧ r = (acc.1, acc.2 ++ [b']))
          (Ahead mode outer (.mark k :: ts))) :
    Passes (Ahead mode outer (commaList ((bothKinds as bs).map w) ++ .mark .rparen :: rest))
      (Parser.commaSeparated item .rparen m ([], []))
      (fun r => List.Forall₂ ra as r.1.1 ∧ List.Forall₂ rb bs r.1.2)
      (Ahead mode outer (.mark .rparen :: rest)) := by
  have nonempty (x : α ⊕ β) : w x ≠ [] := by
    obtain ⟨t, ts, hx, -⟩ := starts x
    rw [hx]
    exact List.cons_ne_nil t ts
  have few : (bothKinds as bs).length < m :=
    Nat.lt_of_le_of_lt (length_le_commaList fun x _ => nonempty x) hm
  have step (done : List (α ⊕ β)) (x : α ⊕ β) (later : List (α ⊕ β)) (acc : List α' × List β')
      (k : Mark) (ts : List Token) (hall : done ++ x :: later = bothKinds as bs)
      (hk : k = .comma ∨ k = .rparen) (hacc : Apart ra rb done acc) :
      Passes (Ahead mode outer (w x ++ .mark k :: ts)) (item acc) (Apart ra rb (done ++ [x]))
        (Ahead mode outer (.mark k :: ts)) := by
    have hx : x ∈ bothKinds as bs := by rw [← hall]; simp
    have length : (w x).length ≤ (commaList ((bothKinds as bs).map w)).length :=
      length_mem_commaList hx
    cases x with
    | inl a =>
      have empty : acc.2 = [] := by
        have none := hacc.seconds
        rw [filterMap_getRight_eq_nil hall] at none
        exact List.forall₂_nil_left_iff.mp none
      refine (first a (by simpa [bothKinds] using hx) length acc k ts empty hk).imp ?_
      rintro _ ⟨a', ha', rfl⟩
      exact hacc.inl ha'
    | inr b =>
      have closes : k.closes = true := by obtain rfl | rfl := hk <;> rfl
      refine (second b (by simpa [bothKinds] using hx) length acc k ts closes).imp ?_
      rintro _ ⟨b', hb', rfl⟩
      exact hacc.inr hb'
  have nothing : Apart ra rb [] ([], []) := ⟨.nil, .nil⟩
  refine (Passes.commaSeparated (by decide) (fun x _ => starts x) step _ few (List.nil_append _)
    nothing).imp ?_
  exact fun _ h => h.1.both

end

/-! ## Function literals -/

/-- A parameter, with or without a type. -/
theorem parameter_pass (hg : g.Inverts n) (p : ParameterLiteral)
    (ht : ∀ type ∈ p.type, type.IsExpression) (hn : (typeTokens .colon p.type).length ≤ n)
    {acc : List ParameterLiteral × List OptionLiteral} (hacc : acc.2 = []) {k : Mark}
    (hk : k = .comma ∨ k = .rparen) :
    Passes (Ahead mode outer (.identifier p.name :: (typeTokens .colon p.type ++ .mark k :: rest)))
      (parameter g acc)
      (fun r => ∃ p', ParameterLiteral.Alike Node.SameTree p p' ∧ r = (acc.1 ++ [p'], acc.2))
      (Ahead mode outer (.mark k :: rest)) := by
  have noValue : Token.mark k ≠ .mark .equals := by obtain rfl | rfl := hk <;> nofun
  have noType : Token.mark k ≠ .mark .colon := by obtain rfl | rfl := hk <;> nofun
  have closes : k.closes = true := by obtain rfl | rfl := hk <;> rfl
  have empty : ¬ (!acc.2.isEmpty) = true := by simp [hacc]
  refine (Passes.expectIdentifier p.name).bind ?_
  rintro ⟨name, span⟩ hname
  obtain rfl : name = p.name := hname
  cases hp : p.type with
  | none =>
    refine .testNo (by simp) noValue ?_
    rw [if_neg empty]
    refine .testNo (by simp) noType (.pure ⟨⟨p.name, none, span⟩, ⟨rfl, ?_⟩, rfl⟩)
    rw [hp]
    exact .none
  | some type =>
    rw [hp] at hn
    rw [typeTokens, List.length_cons] at hn
    refine .testNo (by simp) (by simp) ?_
    rw [if_neg empty]
    refine .testYes (by simp) ((Passes.advance (by rfl)).bind fun _ _ => ?_)
    refine (hg.child_mark (ht type hp) (by omega) closes).bind fun t h => .pure ?_
    refine ⟨⟨p.name, some t, span⟩, ⟨rfl, ?_⟩, rfl⟩
    rw [hp]
    exact .some h

theorem option_pass (hg : g.Inverts n) (o : OptionLiteral) (ho : o.default.IsExpression)
    (hn : (parenthesized o.default.tokens).length < n)
    (acc : List ParameterLiteral × List OptionLiteral) {k : Mark} (hk : k.closes = true) :
    Passes (Ahead mode outer
        (.identifier o.name :: .mark .equals ::
          (parenthesized o.default.tokens ++ .mark k :: rest)))
      (parameter g acc)
      (fun r => ∃ o', OptionLiteral.Alike Node.SameTree o o' ∧ r = (acc.1, acc.2 ++ [o']))
      (Ahead mode outer (.mark k :: rest)) := by
  refine (Passes.expectIdentifier o.name).bind ?_
  rintro ⟨name, span⟩ hname
  obtain rfl : name = o.name := hname
  refine .testYes (by simp) ((Passes.advance (by rfl)).bind fun _ _ => ?_)
  exact (hg.child_mark ho hn hk).bind fun d hd => .pure ⟨⟨o.name, d, _⟩, ⟨rfl, hd⟩, rfl⟩

theorem parameterTokens_eq (params : List ParameterLiteral) : parameterTokens params =
    params.map fun p => .identifier p.name :: typeTokens .colon p.type := by
  induction params with
  | nil => rfl
  | cons p ps ih =>
    obtain ⟨name, type, span⟩ := p
    rw [parameterTokens, ih, List.map_cons]

theorem optionTokens_eq (options : List OptionLiteral) : optionTokens options =
    options.map fun o => .identifier o.name :: .mark .equals :: parenthesized o.default.tokens := by
  induction options with
  | nil => rfl
  | cons o os ih =>
    obtain ⟨name, default, span⟩ := o
    rw [optionTokens, ih, List.map_cons]

/-- How a parameter or an option is written. -/
def signatureItem : ParameterLiteral ⊕ OptionLiteral → List Token
  | .inl p => .identifier p.name :: typeTokens .colon p.type
  | .inr o => .identifier o.name :: .mark .equals :: parenthesized o.default.tokens

theorem signature_pass (hg : g.Inverts n) {params : List ParameterLiteral}
    {options : List OptionLiteral} (hp : ∀ p ∈ params, ∀ type ∈ p.type, type.IsExpression)
    (ho : ∀ o ∈ options, o.default.IsExpression)
    (hn : (commaList (parameterTokens params ++ optionTokens options)).length < n) :
    Passes (Ahead mode outer
        (commaList (parameterTokens params ++ optionTokens options) ++ .mark .rparen :: rest))
      (Parser.commaSeparated (parameter g) .rparen g.allowance ([], []))
      (fun r => SignatureAlike (params, options) r.1)
      (Ahead mode outer (.mark .rparen :: rest)) := by
  have written : parameterTokens params ++ optionTokens options =
      (bothKinds params options).map signatureItem := by
    simp [parameterTokens_eq, optionTokens_eq, bothKinds, signatureItem, Function.comp_def]
  rw [written] at hn ⊢
  refine (twoKinds_pass (fun x => ?_) (Nat.lt_of_lt_of_le hn hg.allowance) ?_ ?_).imp
    fun _ h => ⟨h.1, h.2⟩
  · cases x <;> exact ⟨_, _, rfl, rfl, by simp⟩
  · intro p hm short acc k ts hacc hk
    rw [signatureItem, List.length_cons] at short
    exact parameter_pass hg p (hp p hm) (by omega) hacc hk
  · intro o hm short acc k ts hk
    rw [signatureItem, List.length_cons, List.length_cons] at short
    exact option_pass hg o (ho o hm) (by omega) acc hk

/-- Where there is no arrow the cursor stays. -/
theorem returnType_pass (hg : g.Inverts n) {returns : Option Node}
    (ht : ∀ type ∈ returns, type.IsExpression) (hn : (typeTokens .arrow returns).length ≤ n) :
    Passes (Ahead mode outer (typeTokens .arrow returns ++ .mark .lbrace :: rest)) (returnType g)
      (Option.Rel Node.SameTree returns) (Ahead mode outer (.mark .lbrace :: rest)) := by
  cases returns with
  | none =>
    refine .cursor fun c hc => (Passes.lookPast c).bind fun _ _ => .isFalse ?_ ?_
    · rintro _ rfl heq
      have found := hc.skipBreaks_token
      rw [heq] at found
      cases found
    · exact (Passes.lookBack hc).bind fun _ _ => .pure .none
  | some type =>
    rw [typeTokens, List.length_cons] at hn
    refine .anyCursor fun _ => (Passes.skipBreaks rfl).bind fun _ _ => .testYes (by simp) ?_
    refine (Passes.advance (by rfl)).bind fun _ _ => (Passes.skipBreaks rfl).bind fun _ _ => ?_
    exact (hg.child_mark (ht type rfl) (by omega) rfl).bind fun _ h => .pure (.some h)

variable {s : Span}

theorem function_pass (hg : g.Inverts n) {literal : FunctionLiteral}
    (hw : Node.IsWritable ⟨.function literal, s⟩)
    (hn : (NodeKind.function literal).tokens.length ≤ n) :
    Passes (Ahead mode outer ((NodeKind.function literal).tokens ++ rest)) (function g)
      (Node.SameTree ⟨.function literal, s⟩) (Ahead mode outer rest) := by
  obtain ⟨params, options, returns, body⟩ := literal
  have signature {c : Node} (hc : c ∈ FunctionLiteral.children ⟨params, options, returns, []⟩) :
      c.IsExpression := hw.expression hc
  simp only [FunctionLiteral.children, List.mem_append, List.mem_flatMap, List.mem_map,
    Option.mem_toList] at signature
  have hp (p : ParameterLiteral) (h : p ∈ params) (type : Node) (ht : type ∈ p.type) :=
    signature (.inl (.inl (.inl ⟨p, h, ht⟩)))
  have ho (o : OptionLiteral) (h : o ∈ options) := signature (.inl (.inl (.inr ⟨o, h, rfl⟩)))
  have hr (type : Node) (ht : type ∈ returns) := signature (.inl (.inr ht))
  have hb (c : Node) (hc : c ∈ body) : c.IsWritable := hw.child (List.mem_append_right _ hc)
  simp only [NodeKind.tokens, List.length_cons, List.length_append, length_parenthesized] at hn
  rw [NodeKind.tokens, List.cons_append, List.append_assoc, List.append_assoc, parenthesized_append]
  refine .isNo (by simp) (by simp) ((Passes.advance (by rfl)).bind fun _ _ => ?_)
  refine (Passes.enter _).bind fun _ _ => ?_
  refine (signature_pass hg hp ho (by omega)).bind ?_
  rintro ⟨⟨params', options'⟩, comma⟩ hs
  refine (Passes.leave _ _).bind fun _ _ => ?_
  have block : Passes (Ahead mode outer (braced (lineTokens body) ++ rest)) (block g)
      (fun r => List.Forall₂ Node.SameTree body r.1) (Ahead mode outer rest) :=
    block_pass hg hb (by rw [length_braced] at hn ⊢; omega)
  rw [braced_append] at block ⊢
  refine (returnType_pass hg hr (by omega)).bind fun returns' hr' => ?_
  exact block.bind fun r hb' => .pure (.of_kind (.function ⟨hs.params, hs.options, hr', hb'⟩))

/-! ## What owns blocks -/

theorem handler_pass (hg : g.Inverts n) {body : List Node}
    (hw : Node.IsWritable ⟨.handler body, s⟩) (hn : (NodeKind.handler body).tokens.length ≤ n) :
    Passes (Ahead mode outer ((NodeKind.handler body).tokens ++ rest)) (handler g)
      (Node.SameTree ⟨.handler body, s⟩) (Ahead mode outer rest) := by
  have hb (c : Node) (hc : c ∈ body) : c.IsWritable := hw.child hc
  rw [NodeKind.tokens, List.length_cons] at hn
  rw [NodeKind.tokens]
  refine (Passes.expectKeyword _).bind fun _ _ => ?_
  exact (block_pass hg hb (by omega)).bind fun _ hb => .pure (.of_kind (.handler hb))

/-- The parts of an `if` behind its first block. Where none follows the cursor stays. -/
theorem alternatives_pass (hg : g.Inverts n) {branches : List Branch}
    {otherwise : Option (List Node)} (hb : ∀ b ∈ branches, b.IsWritable)
    (ho : ∀ c ∈ otherwise.getD [], c.IsWritable)
    (hn : (branchTokens .elif branches).length + (elseTokens otherwise).length ≤ n)
    (hm : branches.length < m) (hf : MayFollow mode rest) (stop : Span) :
    Passes (Ahead mode outer (branchTokens .elif branches ++ (elseTokens otherwise ++ rest)))
      (alternatives g m stop) (AlternativesAlike (branches, otherwise, stop))
      (Ahead mode outer rest) := by
  induction branches generalizing m stop with
  | nil =>
    obtain _ | m := m
    · cases hm
    cases otherwise with
    | none =>
      refine .cursor fun c hc => (Passes.lookPast c).bind fun _ _ => .isFalse ?_ (.isFalse ?_ ?_)
      · rintro _ rfl heq
        exact hf.noElif (hc.skipBreaks_token.trans (congrArg some heq))
      · rintro _ rfl heq
        exact hf.noElse (hc.skipBreaks_token.trans (congrArg some heq))
      · exact (Passes.lookBack hc).bind fun _ _ => .pure ⟨.nil, .none⟩
    | some body =>
      have hbody : ∀ c ∈ body, c.IsWritable := ho
      simp only [branchTokens, elseTokens, List.length_cons] at hn
      refine .anyCursor fun _ => (Passes.skipBreaks rfl).bind fun _ _ => ?_
      refine .testNo (by simp) (by simp) (.testYes (by simp) ?_)
      refine (Passes.advance (by rfl)).bind fun _ _ => ?_
      exact (block_pass hg hbody (by omega)).bind fun _ hr => .pure ⟨.nil, .some hr⟩
  | cons b branches ih =>
    obtain _ | m := m
    · cases hm
    obtain ⟨hfirst, hb⟩ := List.forall_mem_cons.mp hb
    simp only [branchTokens, List.length_cons, List.length_append] at hn
    rw [branchTokens, List.cons_append, List.append_assoc]
    refine .anyCursor fun _ => (Passes.skipBreaks rfl).bind fun _ _ => .testYes (by simp) ?_
    refine (Passes.advance (by rfl)).bind fun _ _ => ?_
    refine (branch_pass hg hfirst (by omega)).bind fun r hr => ?_
    refine (ih hb (by omega) (Nat.lt_of_succ_lt_succ hm) r.2).bind fun _ hs => .pure ?_
    exact ⟨.cons hr hs.branches, hs.otherwise⟩

theorem branches_writable {branches : List Branch}
    (he : ∀ c ∈ branches.map (·.condition), c.IsExpression)
    (hc : ∀ c ∈ branches.flatMap Branch.children, c.IsWritable) : ∀ b ∈ branches, b.IsWritable := by
  intro b hb
  refine ⟨he _ (List.mem_map_of_mem hb), fun c hm => hc c ?_⟩
  exact List.mem_flatMap.mpr ⟨b, hb, List.mem_cons_of_mem _ hm⟩

theorem length_le_branches (word : Keyword) (branches : List Branch) :
    branches.length ≤ (branchTokens word branches).length := by
  induction branches with
  | nil => exact Nat.le_refl _
  | cons b bs ih =>
    simp only [branchTokens, List.length_cons, List.length_append]
    omega

theorem conditional_pass (hg : g.Inverts n) {branches : List Branch}
    {otherwise : Option (List Node)} (hw : Node.IsWritable ⟨.if branches otherwise, s⟩)
    (hn : (NodeKind.if branches otherwise).tokens.length ≤ n) (hf : MayFollow mode rest) :
    Passes (Ahead mode outer ((NodeKind.if branches otherwise).tokens ++ rest)) (conditional g)
      (Node.SameTree ⟨.if branches otherwise, s⟩) (Ahead mode outer rest) := by
  have hb := branches_writable (fun c hc => hw.expression hc)
    fun c hc => hw.child (List.mem_append_left _ hc)
  have ho (c : Node) (hc : c ∈ otherwise.getD []) := hw.child (List.mem_append_right _ hc)
  cases branches with
  | nil => cases (Bool.and_eq_true_iff.mp hw.self).2
  | cons first branches =>
    obtain ⟨hfirst, hb⟩ := List.forall_mem_cons.mp hb
    simp only [NodeKind.tokens, List.length_cons, List.length_append] at hn
    have few : branches.length < g.allowance := by
      have := length_le_branches .elif branches
      have := hg.allowance
      omega
    rw [NodeKind.tokens, List.cons_append, List.append_assoc, List.append_assoc]
    refine (Passes.expectKeyword _).bind fun _ _ => ?_
    refine (branch_pass hg hfirst (by omega)).bind fun r hr => ?_
    refine (alternatives_pass hg hb ho (by omega) few hf r.2).bind fun _ hs => .pure ?_
    exact .of_kind (.if (.cons hr hs.branches) hs.otherwise)

theorem cases_pass (hg : g.Inverts n) {branches : List Branch}
    (hb : ∀ b ∈ branches, b.IsWritable) (hn : (branchTokens .when branches).length ≤ n)
    (hm : branches.length < m) {u : Token} (hu : u = .eol → mode = .significant)
    (hne : u ≠ .keyword .when) :
    Passes (Ahead mode outer (branchTokens .when branches ++ u :: rest)) (cases g m)
      (List.Forall₂ (Branch.Alike Node.SameTree) branches) (Ahead mode outer (u :: rest)) := by
  induction branches generalizing m with
  | nil =>
    obtain _ | m := m
    · cases hm
    exact .testNo hu hne (.pure .nil)
  | cons b branches ih =>
    obtain _ | m := m
    · cases hm
    obtain ⟨hfirst, hb⟩ := List.forall_mem_cons.mp hb
    simp only [branchTokens, List.length_cons, List.length_append] at hn
    rw [branchTokens, List.cons_append, List.append_assoc]
    refine .testYes (by simp) ((Passes.advance (by rfl)).bind fun _ _ => ?_)
    refine (branch_pass hg hfirst (by omega)).bind fun _ hr => ?_
    exact (ih hb (by omega) (Nat.lt_of_succ_lt_succ hm)).bind fun _ hs => .pure (.cons hr hs)

theorem switch_pass (hg : g.Inverts n) {target : Target} {subject : Node}
    {branches : List Branch} {otherwise : Option (List Node)}
    (hw : Node.IsWritable ⟨.switch target subject branches otherwise, s⟩)
    (hn : (NodeKind.switch target subject branches otherwise).tokens.length ≤ n) :
    Passes (Ahead mode outer
        ((NodeKind.switch target subject branches otherwise).tokens ++ rest)) (switch g)
      (Node.SameTree ⟨.switch target subject branches otherwise, s⟩) (Ahead mode outer rest) := by
  have hsubject : subject.IsExpression := hw.expression (List.mem_cons_self ..)
  have inner {c : Node} (hc : c ∈ branches.flatMap Branch.children ++ otherwise.getD []) :
      c.IsWritable := hw.child (List.mem_cons_of_mem _ hc)
  have hb := branches_writable (fun c hc => hw.expression (List.mem_cons_of_mem _ hc))
    fun c hc => inner (List.mem_append_left _ hc)
  have ho (c : Node) (hc : c ∈ otherwise.getD []) := inner (List.mem_append_right _ hc)
  have few : branches.length < g.allowance := by
    have := length_le_branches .when branches
    have := hg.allowance
    simp only [NodeKind.tokens, List.length_cons, List.length_append, length_braced] at hn
    omega
  simp only [NodeKind.tokens, List.length_cons, List.length_append, length_braced,
    length_parenthesized] at hn
  rw [NodeKind.tokens, List.cons_append, List.append_assoc, parenthesized_append, braced_append,
    List.append_assoc, List.append_assoc]
  refine (Passes.expectKeyword _).bind fun start _ => (Passes.enter _).bind fun _ _ => ?_
  refine (target_pass target).bind ?_
  rintro bound rfl
  refine (Passes.expectKeyword _).bind fun _ _ => ?_
  refine (hg.child_mark hsubject (by simp; omega) rfl).bind fun subject' hs => ?_
  refine (Passes.leave _ _).bind fun _ _ => (Passes.skipBreaks rfl).bind fun _ _ => ?_
  refine (Passes.enter _).bind fun _ _ => ?_
  have ended {branches' : List Branch} {otherwise' : Option (List Node)}
      (hbs : List.Forall₂ (Branch.Alike Node.SameTree) branches branches')
      (hos : Option.Rel (List.Forall₂ Node.SameTree) otherwise otherwise') :
      Passes (Ahead .ignored (mode :: outer) (.mark .rbrace :: rest))
        (do
          let close ← Parser.leave (.mark .rbrace) "'when', 'else' or '\x7d'"
          return ⟨.switch bound subject' branches' otherwise', start.span.through close.span⟩)
        (Node.SameTree ⟨.switch bound subject branches otherwise, s⟩) (Ahead mode outer rest) :=
    (Passes.leave _ _).bind fun _ _ => .pure (.of_kind (.switch bound hs hbs hos))
  cases otherwise with
  | none =>
    refine (cases_pass hg hb (by omega) few (by simp) (by simp)).bind fun _ hbs => ?_
    exact .isNo (by simp) (by simp) (ended hbs .none)
  | some body =>
    have hbody : ∀ c ∈ body, c.IsWritable := ho
    rw [elseTokens, List.length_cons] at hn
    refine (cases_pass hg hb (by omega) few (by simp) (by simp)).bind fun _ hbs => ?_
    refine .isYes (by simp) ((Passes.advance (by rfl)).bind fun _ _ => ?_)
    exact (block_pass hg hbody (by omega)).bind fun _ hr => ended hbs (.some hr)

theorem forLoop_pass (hg : g.Inverts n) {target : Target} {iterable : Node} {body : List Node}
    (hw : Node.IsWritable ⟨.for target iterable body, s⟩)
    (hn : (NodeKind.for target iterable body).tokens.length ≤ n) :
    Passes (Ahead mode outer ((NodeKind.for target iterable body).tokens ++ rest)) (forLoop g)
      (Node.SameTree ⟨.for target iterable body, s⟩) (Ahead mode outer rest) := by
  have hi : iterable.IsExpression := hw.expression (List.mem_cons_self ..)
  have hb (c : Node) (hc : c ∈ body) : c.IsWritable := hw.child (List.mem_cons_of_mem _ hc)
  simp only [NodeKind.tokens, List.length_cons, List.length_append, length_parenthesized] at hn
  rw [NodeKind.tokens, List.cons_append, List.append_assoc, parenthesized_append,
    List.append_assoc]
  refine (Passes.expectKeyword _).bind fun _ _ => (Passes.enter _).bind fun _ _ => ?_
  refine (target_pass target).bind ?_
  rintro _ rfl
  refine (Passes.expectKeyword _).bind fun _ _ => ?_
  refine (hg.child_mark hi (by simp; omega) rfl).bind fun _ hi => ?_
  refine (Passes.leave _ _).bind fun _ _ => ?_
  exact (block_pass hg hb (by omega)).bind fun _ hb => .pure (.of_kind (.for _ hi hb))

theorem whileLoop_pass (hg : g.Inverts n) {test : Node} {body : List Node}
    (hw : Node.IsWritable ⟨.while test body, s⟩)
    (hn : (NodeKind.while test body).tokens.length ≤ n) :
    Passes (Ahead mode outer ((NodeKind.while test body).tokens ++ rest)) (whileLoop g)
      (Node.SameTree ⟨.while test body, s⟩) (Ahead mode outer rest) := by
  have ht : test.IsExpression := hw.expression (List.mem_cons_self ..)
  have hb (c : Node) (hc : c ∈ body) : c.IsWritable := hw.child (List.mem_cons_of_mem _ hc)
  simp only [NodeKind.tokens, List.length_cons, List.length_append] at hn
  rw [NodeKind.tokens, List.cons_append, List.append_assoc]
  refine (Passes.expectKeyword _).bind fun _ _ => ?_
  refine (condition_pass hg ht (by omega)).bind fun _ ht => ?_
  exact (block_pass hg hb (by omega)).bind fun _ hb => .pure (.of_kind (.while ht hb))

end Grammar

end TracedScript
