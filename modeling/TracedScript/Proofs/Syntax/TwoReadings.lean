import TracedScript.Proofs.Syntax.SameTokens
import TracedScript.Proofs.Syntax.SameTree

/-!
# The same tokens are read the same way

Readings that correspond give the same trees up to spans, or the same error at places that
correspond. The proof follows the grammar, with one lemma for each production, and ends with
programs: `program_beside`.
-/

namespace TracedScript

namespace Grammar

open TracedScript.Parser (Pairing)
open TracedScript.Parser.Pairing (Beside)

/-- Whatever is read inside a construct is read the same way in both readings, the second of which
has no smaller allowance. -/
structure Repeats (P : Pairing) (g g' : Grammar) : Prop where
  allowance : g.allowance ≤ g'.allowance
  read : ∀ p, P.Beside (fun _ => True) Node.SameTree (g.read p) (g'.read p)

variable {P : Pairing} {g g' : Grammar} {now : Token → Prop}

theorem Repeats.phrase (hg : Repeats P g g') (p : Phrase) :
    P.Beside now Node.SameTree (g.read p) (g'.read p) := (hg.read p).weaken fun _ _ => trivial

/-! ## Blocks -/

theorem statements_beside (hg : Repeats P g g') {n m : Nat} (hnm : n ≤ m) :
    P.Beside now (List.Forall₂ Node.SameTree) (statements g n) (statements g' m) := by
  rw [statements_eq, statements_eq]
  exact .lines (hg.read .statement) hnm

theorem block_beside (hg : Repeats P g g') :
    P.Beside now (fun r r' => List.Forall₂ Node.SameTree r.1 r'.1) (block g) (block g') := by
  refine Beside.skipBreaks.bind fun _ _ _ => (Beside.enter (by rfl)).bind fun _ _ _ => ?_
  refine (statements_beside hg hg.allowance).bind fun _ _ hb => (Beside.leave rfl _).bind fun _ _ _ => ?_
  exact .pure hb

theorem condition_beside (hg : Repeats P g g') :
    P.Beside now Node.SameTree (condition g) (condition g') := by
  refine (Beside.enter (by rfl)).bind fun _ _ _ => (hg.phrase _).bind fun _ _ ht => ?_
  exact (Beside.leave rfl _).bind fun _ _ _ => .pure ht

theorem target_beside : P.Beside now Eq target target := by
  have name {now : Token → Prop} (declares : Bool) : P.Beside now Eq
      (do return Target.mk (← Parser.expectIdentifier).1 declares)
      (do return Target.mk (← Parser.expectIdentifier).1 declares) :=
    Beside.expectIdentifier.bind fun a b h => .pure (by rw [h.1])
  refine .is ?_ (name false)
  exact (Beside.advanceOver rfl).bind fun _ _ _ => name true

theorem branch_beside (hg : Repeats P g g') :
    P.Beside now (fun r r' => Branch.Alike Node.SameTree r.1 r'.1) (branch g) (branch g') :=
  (condition_beside hg).bind fun _ _ ht => (block_beside hg).bind fun _ _ hb => .pure ⟨ht, hb⟩

/-! ## Function literals -/

/-- The same parameters and options up to spans. -/
structure SignatureAlike (acc acc' : List ParameterLiteral × List OptionLiteral) : Prop where
  params : List.Forall₂ (ParameterLiteral.Alike Node.SameTree) acc.1 acc'.1
  options : List.Forall₂ (OptionLiteral.Alike Node.SameTree) acc.2 acc'.2

theorem parameter_beside (hg : Repeats P g g')
    {acc acc' : List ParameterLiteral × List OptionLiteral} (h : SignatureAlike acc acc') :
    P.Beside now SignatureAlike (parameter g acc) (parameter g' acc') := by
  refine Beside.expectIdentifier.bind ?_
  rintro ⟨name, span⟩ ⟨_, span'⟩ ⟨rfl, hspan⟩
  refine .test ?_ ?_
  · refine (Beside.advanceOver rfl).bind fun _ _ _ => (hg.phrase _).bind fun _ _ hd => .pure ?_
    exact ⟨h.params, List.rel_append h.options (.cons ⟨rfl, hd⟩ .nil)⟩
  have empty : acc.2.isEmpty = acc'.2.isEmpty := by
    rw [Bool.eq_iff_iff, List.isEmpty_iff_length_eq_zero, List.isEmpty_iff_length_eq_zero,
      h.options.length_eq]
  have param {type type' : Option Node} (ht : Option.Rel Node.SameTree type type') :
      SignatureAlike (acc.1 ++ [⟨name, type, span⟩], acc.2)
        (acc'.1 ++ [⟨name, type', span'⟩], acc'.2) :=
    ⟨List.rel_append h.params (.cons ⟨rfl, ht⟩ .nil), h.options⟩
  rw [empty]
  split
  · have refused : P.Errors
        ⟨.grammar, s!"Parameter '{name}' must come before options", span⟩
        ⟨.grammar, s!"Parameter '{name}' must come before options", span'⟩ := ⟨rfl, rfl, hspan⟩
    exact .throw_bind refused
  · refine .test ?_ (.pure (param .none))
    refine (Beside.advanceOver rfl).bind fun _ _ _ => (hg.phrase _).bind fun _ _ ht => ?_
    exact .pure (param (.some ht))

/-- Where there is no arrow the line breaks that were passed are given back. -/
theorem returnType_beside (hg : Repeats P g g') :
    P.Beside now (Option.Rel Node.SameTree) (returnType g) (returnType g') := by
  refine .ahead fun before before' hb => .test (P.skipBreaks hb) ?_ (.giveBack hb .none)
  refine (Beside.advanceOver rfl).bind fun _ _ _ => Beside.skipBreaks.bind fun _ _ _ => ?_
  exact (hg.phrase _).bind fun _ _ ht => .pure (.some ht)

theorem lambdaBody_beside (hg : Repeats P g g') :
    P.Beside now (fun r r' => List.Forall₂ Node.SameTree r.1 r'.1) (lambdaBody g)
      (lambdaBody g') := by
  refine Beside.skipBreaks.bind fun _ _ _ => (Beside.enter (by rfl)).bind fun _ _ _ => ?_
  refine (hg.phrase _).bind fun _ _ hv => (Beside.leave rfl _).bind fun _ _ _ => .pure ?_
  exact .cons (.of_kind (.return (.some hv))) .nil

theorem function_beside (hg : Repeats P g g') (h : ∀ t, now t → t.isPlain = true) :
    P.Beside now Node.SameTree (function g) (function g') := by
  have plain (t : Token) : t = .keyword .lambda ∨ now t → t.isPlain = true := by
    rintro (rfl | ht)
    · rfl
    · exact h t ht
  refine .ask fun isLambda => (Beside.advance plain).bind fun start start' _ => ?_
  refine (Beside.enter (by rfl)).bind fun _ _ _ => ?_
  refine (Beside.commaSeparated _ (fun _ _ h => parameter_beside hg h) hg.allowance
    ⟨.nil, .nil⟩).bind ?_
  rintro ⟨⟨params, options⟩, comma⟩ ⟨⟨params', options'⟩, comma'⟩ ⟨hs, -⟩
  refine (Beside.leave rfl _).bind fun _ _ _ => (returnType_beside hg).bind fun rt rt' hr => ?_
  have built (r r' : List Node × Span) (hb : List.Forall₂ Node.SameTree r.1 r'.1) :
      Node.SameTree ⟨.function ⟨params, options, rt, r.1⟩, start.span.through r.2⟩
        ⟨.function ⟨params', options', rt', r'.1⟩, start'.span.through r'.2⟩ :=
    .of_kind (.function ⟨hs.params, hs.options, hr, hb⟩)
  split
  · exact (lambdaBody_beside hg).bind fun r r' hb => .pure (built r r' hb)
  · exact (block_beside hg).bind fun r r' hb => .pure (built r r' hb)

/-! ## What owns blocks -/

theorem handler_beside (hg : Repeats P g g') :
    P.Beside now Node.SameTree (handler g) (handler g') := by
  refine (Beside.expectKeyword _).bind fun _ _ _ => (block_beside hg).bind fun _ _ hb => .pure ?_
  exact .of_kind (.handler hb)

/-- The same alternatives up to spans. -/
structure AlternativesAlike (r r' : List Branch × Option (List Node) × Span) : Prop where
  branches : List.Forall₂ (Branch.Alike Node.SameTree) r.1 r'.1
  otherwise : Option.Rel (List.Forall₂ Node.SameTree) r.2.1 r'.2.1

theorem alternatives_beside (hg : Repeats P g g') {n m : Nat} (hnm : n ≤ m) (stop stop' : Span) :
    P.Beside now AlternativesAlike (alternatives g n stop) (alternatives g' m stop') := by
  induction n generalizing now m stop stop' with
  | zero => exact .exhausted
  | succ n ih =>
    obtain ⟨m, rfl, hle⟩ := exists_pred_of_lt hnm
    refine .ahead fun before before' hb => .test (P.skipBreaks hb) ?_ ?_
    · refine (Beside.advanceOver rfl).bind fun _ _ _ => (branch_beside hg).bind fun _ _ hf => ?_
      exact (ih hle _ _).bind fun _ _ hr => .pure ⟨.cons hf hr.branches, hr.otherwise⟩
    refine .test (P.skipBreaks hb) ?_ (.giveBack hb ⟨.nil, .none⟩)
    refine (Beside.advanceOver rfl).bind fun _ _ _ => (block_beside hg).bind fun _ _ hb => ?_
    exact .pure ⟨.nil, .some hb⟩

theorem conditional_beside (hg : Repeats P g g') :
    P.Beside now Node.SameTree (conditional g) (conditional g') := by
  refine (Beside.expectKeyword _).bind fun _ _ _ => (branch_beside hg).bind fun _ _ hf => ?_
  refine (alternatives_beside hg hg.allowance _ _).bind fun _ _ hr => .pure ?_
  exact .of_kind (.if (.cons hf hr.branches) hr.otherwise)

theorem cases_beside (hg : Repeats P g g') {n m : Nat} (hnm : n ≤ m) :
    P.Beside now (List.Forall₂ (Branch.Alike Node.SameTree)) (cases g n) (cases g' m) := by
  induction n generalizing now m with
  | zero => exact .exhausted
  | succ n ih =>
    obtain ⟨m, rfl, hle⟩ := exists_pred_of_lt hnm
    refine .test ?_ (.pure .nil)
    refine (Beside.advanceOver rfl).bind fun _ _ _ => (branch_beside hg).bind fun _ _ hf => ?_
    exact (ih hle).bind fun _ _ hr => .pure (.cons hf hr)

theorem switch_beside (hg : Repeats P g g') :
    P.Beside now Node.SameTree (switch g) (switch g') := by
  refine (Beside.expectKeyword _).bind fun start start' _ => (Beside.enter (by rfl)).bind fun _ _ _ => ?_
  refine target_beside.bind ?_
  rintro bound _ rfl
  refine (Beside.expectKeyword _).bind fun _ _ _ => (hg.phrase _).bind fun subject subject' hs => ?_
  refine (Beside.leave rfl _).bind fun _ _ _ => Beside.skipBreaks.bind fun _ _ _ => ?_
  refine (Beside.enter (by rfl)).bind fun _ _ _ => ?_
  refine (cases_beside hg hg.allowance).bind fun branches branches' hb => ?_
  have ended {now : Token → Prop} {otherwise otherwise' : Option (List Node)}
      (ho : Option.Rel (List.Forall₂ Node.SameTree) otherwise otherwise') :
      P.Beside now Node.SameTree
        (do
          let close ← Parser.leave (.mark .rbrace) "'when', 'else' or '\x7d'"
          return ⟨.switch bound subject branches otherwise, start.span.through close.span⟩)
        (do
          let close ← Parser.leave (.mark .rbrace) "'when', 'else' or '\x7d'"
          return ⟨.switch bound subject' branches' otherwise', start'.span.through close.span⟩) :=
    (Beside.leave rfl _).bind fun _ _ _ => .pure (.of_kind (.switch bound hs hb ho))
  refine .is ?_ (ended .none)
  refine (Beside.advanceOver rfl).bind fun _ _ _ => (block_beside hg).bind fun _ _ ho => ?_
  exact ended (.some ho)

theorem forLoop_beside (hg : Repeats P g g') :
    P.Beside now Node.SameTree (forLoop g) (forLoop g') := by
  refine (Beside.expectKeyword _).bind fun _ _ _ => (Beside.enter (by rfl)).bind fun _ _ _ => ?_
  refine target_beside.bind ?_
  rintro bound _ rfl
  refine (Beside.expectKeyword _).bind fun _ _ _ => (hg.phrase _).bind fun _ _ hi => ?_
  refine (Beside.leave rfl _).bind fun _ _ _ => (block_beside hg).bind fun _ _ hb => .pure ?_
  exact .of_kind (.for bound hi hb)

theorem whileLoop_beside (hg : Repeats P g g') :
    P.Beside now Node.SameTree (whileLoop g) (whileLoop g') := by
  refine (Beside.expectKeyword _).bind fun _ _ _ => (condition_beside hg).bind fun _ _ ht => ?_
  exact (block_beside hg).bind fun _ _ hb => .pure (.of_kind (.while ht hb))

/-! ## Argument lists -/

/-- The same arguments up to spans. -/
structure ArgumentsAlike (acc acc' : Arguments) : Prop where
  positional : List.Forall₂ Node.SameTree acc.1 acc'.1
  named : List.Forall₂ (NamedArgument.Alike Node.SameTree fun _ _ => True) acc.2 acc'.2

/-- Two readings stand on `name =` together, with the same name. -/
theorem namedStart_beside {c c' : Cursor} (hc : P.cursor c c') :
    Option.Rel (fun r r' => r.1 = r'.1 ∧ P.cursor r.2.2 r'.2.2) (namedStart? c)
      (namedStart? c') := by
  unfold namedStart?
  rw [← P.token hc]
  split
  · rename_i name ht
    have next := P.advance hc (by rw [ht]; rfl)
    dsimp only
    rw [← P.token next]
    split
    · rename_i hequals
      exact .some ⟨rfl, P.advance next (by rw [hequals]; rfl)⟩
    · exact .none
  · exact .none

theorem argument_beside (hg : Repeats P g g') {acc acc' : Arguments} (h : ArgumentsAlike acc acc') :
    P.Beside now ArgumentsAlike (argument g acc) (argument g' acc') := by
  refine .cursor fun c c' hc => ?_
  have start := namedStart_beside hc
  generalize namedStart? c = o at start ⊢
  generalize namedStart? c' = o' at start ⊢
  cases start with
  | none =>
    refine (hg.phrase _).bind fun _ _ hv => .pure ?_
    exact ⟨List.rel_append h.positional (.cons hv .nil), h.named⟩
  | @some r r' hr =>
    obtain ⟨name, span, behind⟩ := r
    obtain ⟨_, span', behind'⟩ := r'
    obtain ⟨rfl, hb⟩ := hr
    refine (Beside.set hb).bind fun _ _ _ => (hg.phrase _).bind fun _ _ hv => .pure ?_
    exact ⟨h.positional, List.rel_append h.named (.cons ⟨rfl, hv, trivial⟩ .nil)⟩

theorem arguments_beside (hg : Repeats P g g') :
    P.Beside now (ArgumentList.Alike Node.SameTree fun _ _ => True) (arguments g)
      (arguments g') := by
  refine (Beside.enter (by rfl)).bind fun _ _ _ => ?_
  refine (Beside.commaSeparated _ (fun _ _ h => argument_beside hg h) hg.allowance
    ⟨.nil, .nil⟩).bind ?_
  rintro ⟨⟨positional, named⟩, comma⟩ ⟨⟨positional', named'⟩, comma'⟩ ⟨hs, -⟩
  exact (Beside.leave rfl _).bind fun _ _ _ => .pure ⟨hs.positional, hs.named, trivial⟩

/-! ## Calls, indices and attributes -/

/-- Whether a list is one more of a call depends on the form of the callee only. -/
theorem callNode_same {callee callee' : Node} (h : callee.SameTree callee') (chaining : Bool)
    {list list' : ArgumentList}
    (hl : ArgumentList.Alike Node.SameTree (fun _ _ => True) list list') :
    (callNode callee chaining list).SameTree (callNode callee' chaining list') := by
  have alone : Node.SameTree ⟨.call callee [list], callee.span.through list.span⟩
      ⟨.call callee' [list'], callee'.span.through list'.span⟩ :=
    .of_kind (.call h (.cons hl .nil))
  cases chaining with
  | false => exact alone
  | true =>
    obtain ⟨kind, span⟩ := callee
    obtain ⟨kind', span'⟩ := callee'
    cases h.kind with
    | call hcallee hlists => exact .of_kind (.call hcallee (List.rel_append hlists (.cons hl .nil)))
    | _ => exact alone

theorem trailers_beside (hg : Repeats P g g') {n m : Nat} (hnm : n ≤ m) {node node' : Node}
    (h : node.SameTree node') (chaining : Bool) :
    P.Beside now Node.SameTree (trailers g n node chaining) (trailers g' m node' chaining) := by
  induction n generalizing now m node node' chaining with
  | zero => exact .exhausted
  | succ n ih =>
    obtain ⟨m, rfl, hle⟩ := exists_pred_of_lt hnm
    refine .peek fun token _ => ?_
    split
    · refine (arguments_beside hg).bind fun _ _ hl => ih hle (callNode_same h chaining hl) true
    · refine (Beside.enter (by rfl)).bind fun _ _ _ => (hg.phrase _).bind fun _ _ hi => ?_
      exact (Beside.leave rfl _).bind fun _ _ _ => ih hle (.of_kind (.index h hi)) false
    · refine (Beside.advanceOver rfl).bind fun _ _ _ => Beside.expectIdentifier.bind ?_
      rintro ⟨name, span⟩ ⟨_, span'⟩ ⟨rfl, -⟩
      exact ih hle (.of_kind (.member name h)) false
    · exact .pure h

/-! ## Innermost forms -/

theorem expressions_beside (hg : Repeats P g g') (closing : Mark) :
    P.Beside now (fun r r' => List.Forall₂ Node.SameTree r.1 r'.1 ∧ r.2 = r'.2)
      (expressions g closing) (expressions g' closing) := by
  refine .commaSeparated _ (fun _ _ h => ?_) hg.allowance .nil
  exact (hg.phrase _).bind fun _ _ hn => .pure (List.rel_append h (.cons hn .nil))

theorem nameOrAssignment_beside (hg : Repeats P g g') (name : String)
    (h : ∀ t, now t → t.isPlain = true) :
    P.Beside now Node.SameTree (nameOrAssignment g name) (nameOrAssignment g' name) := by
  refine (Beside.advance h).bind fun _ _ _ => .test ?_ (.pure (.of_kind (.read name)))
  refine (Beside.advanceOver rfl).bind fun _ _ _ => (hg.phrase _).bind fun _ _ hv => ?_
  exact .pure (.of_kind (.assign name hv))

theorem group_beside (hg : Repeats P g g') : P.Beside now Node.SameTree (group g) (group g') := by
  refine (Beside.enter (by rfl)).bind fun _ _ _ => (expressions_beside hg _).bind ?_
  rintro ⟨items, comma⟩ ⟨items', _⟩ ⟨hs, rfl⟩
  refine (Beside.leave rfl _).bind fun _ _ _ => ?_
  cases hs with
  | nil => exact .pure (.of_kind (.tuple .nil))
  | cons hn hs =>
    cases hs with
    | nil =>
      cases comma with
      | false => exact .pure (.of_kind hn.kind)
      | true => exact .pure (.of_kind (.tuple (.cons hn .nil)))
    | cons hm hs => exact .pure (.of_kind (.tuple (.cons hn (.cons hm hs))))

theorem array_beside (hg : Repeats P g g') : P.Beside now Node.SameTree (array g) (array g') := by
  refine (Beside.enter (by rfl)).bind fun _ _ _ => (expressions_beside hg _).bind fun _ _ hs => ?_
  exact (Beside.leave rfl _).bind fun _ _ _ => .pure (.of_kind (.array hs.1))

/-- Keys are the same up to spans, and so are values. -/
def SameEntry (e e' : Node × Node) : Prop := e.1.SameTree e'.1 ∧ e.2.SameTree e'.2

theorem dictionary_beside (hg : Repeats P g g') :
    P.Beside now Node.SameTree (dictionary g) (dictionary g') := by
  have step (acc acc' : List (Node × Node)) (h : List.Forall₂ SameEntry acc acc') :
      P.Beside (fun _ => True) (List.Forall₂ SameEntry) (entry g acc) (entry g' acc') := by
    refine (hg.phrase _).bind fun _ _ hk => (Beside.expect rfl _).bind fun _ _ _ => ?_
    exact (hg.phrase _).bind fun _ _ hv => .pure (List.rel_append h (.cons ⟨hk, hv⟩ .nil))
  refine (Beside.enter (by rfl)).bind fun _ _ _ => (Beside.commaSeparated _ step hg.allowance .nil).bind ?_
  intro r r' hr
  exact (Beside.leave rfl _).bind fun _ _ _ => .pure (.of_kind (.dict hr.1))

theorem literal_beside {kind : NodeKind}
    (hk : NodeKind.Alike Node.SameTree (fun _ _ => True) kind kind)
    (h : ∀ t, now t → t.isPlain = true) :
    P.Beside now Node.SameTree (literal kind) (literal kind) :=
  (Beside.advance h).bind fun _ _ _ => .pure (.of_kind hk)

theorem atom_beside (hg : Repeats P g g') : P.Beside now Node.SameTree (atom g) (atom g') := by
  refine .peek fun token _ => ?_
  cases token with
  | int n => exact literal_beside (.int n) (by rintro _ rfl; rfl)
  | float x => exact literal_beside (.float x) (by rintro _ rfl; rfl)
  | str s => exact literal_beside (.str s) (by rintro _ rfl; rfl)
  | identifier name => exact nameOrAssignment_beside hg name (by rintro _ rfl; rfl)
  | mark m =>
    cases m with
    | lparen => exact group_beside hg
    | lbracket => exact array_beside hg
    | lbrace => exact dictionary_beside hg
    | _ => exact .unexpected _
  | keyword word =>
    cases word with
    | func | lambda => exact function_beside hg (by rintro _ rfl; rfl)
    | handler => exact handler_beside hg
    | «if» => exact conditional_beside hg
    | switch => exact switch_beside hg
    | «for» => exact forLoop_beside hg
    | «while» => exact whileLoop_beside hg
    | _ => exact .unexpected _
  | eol | eof => exact .unexpected _

theorem operand_beside (hg : Repeats P g g') : P.Beside now Node.SameTree (operand g) (operand g') :=
  (atom_beside hg).bind fun _ _ hn => trailers_beside hg hg.allowance hn false

/-! ## Operators -/

/-- An operator in front of what a phrase reads. -/
theorem prefixed_beside (hg : Repeats P g g') (p : Phrase) (op : UnaryOperator)
    (h : ∀ t, now t → t.isPlain = true) :
    P.Beside now Node.SameTree
      (do
        let start ← Parser.advance
        return unaryNode op start.span (← g.read p))
      (do
        let start ← Parser.advance
        return unaryNode op start.span (← g'.read p)) :=
  (Beside.advance h).bind fun _ _ _ => (hg.phrase p).bind fun _ _ hn =>
    .pure (.of_kind (.unary op hn))

theorem factor_beside (hg : Repeats P g g') : P.Beside now Node.SameTree (factor g) (factor g') := by
  refine .peek fun token _ => ?_
  split
  · exact prefixed_beside hg .factor .plus (by rintro _ rfl; rfl)
  · exact prefixed_beside hg .factor .minus (by rintro _ rfl; rfl)
  · exact operand_beside hg

theorem plain_of_operator {t : Token} {op : BinaryOperator} (h : operator? t = some op) :
    t.isPlain = true := by
  unfold operator? at h
  split at h <;> first | rfl | cases h

theorem chainRest_beside {ops : List BinaryOperator} {operand operand' : Parser Node}
    (ho : P.Beside (fun _ => True) Node.SameTree operand operand') {n m : Nat} (hnm : n ≤ m)
    {left left' : Node} (h : left.SameTree left') :
    P.Beside now Node.SameTree (chainRest ops operand n left) (chainRest ops operand' m left') := by
  induction n generalizing now m left left' with
  | zero => exact .exhausted
  | succ n ih =>
    obtain ⟨m, rfl, hle⟩ := exists_pred_of_lt hnm
    refine .peek fun token _ => ?_
    split
    · exact .pure h
    rename_i op hop
    split
    · refine (Beside.advanceOver (plain_of_operator hop)).bind fun _ _ _ => ?_
      exact ho.bind fun _ _ hr => ih hle (.of_kind (.binary op h hr))
    · exact .pure h

/-- A chain of operands of one strength. -/
theorem chain_beside {ops : List BinaryOperator} {first first' operand operand' : Parser Node}
    {n m : Nat} (hnm : n ≤ m) (hf : P.Beside (fun _ => True) Node.SameTree first first')
    (ho : P.Beside (fun _ => True) Node.SameTree operand operand') :
    P.Beside now Node.SameTree (do chainRest ops operand n (← first))
      (do chainRest ops operand' m (← first')) :=
  (hf.weaken fun _ _ => trivial).bind fun _ _ hl => chainRest_beside ho hnm hl

theorem raised_beside (hg : Repeats P g g') :
    P.Beside now Node.SameTree (raised g (factor g)) (raised g' (factor g')) :=
  chain_beside hg.allowance (factor_beside hg) (hg.read .term)

theorem term_beside (hg : Repeats P g g') :
    P.Beside now Node.SameTree (term g (factor g)) (term g' (factor g')) :=
  chain_beside hg.allowance (raised_beside hg) (raised_beside hg)

theorem sum_beside (hg : Repeats P g g') :
    P.Beside now Node.SameTree (sum g (factor g)) (sum g' (factor g')) :=
  chain_beside hg.allowance (term_beside hg) (term_beside hg)

theorem comparison_beside (hg : Repeats P g g') :
    P.Beside now Node.SameTree (comparison g (factor g)) (comparison g' (factor g')) :=
  .test (prefixed_beside hg .comparison .not (by rintro _ rfl; rfl))
    (.orExpected (chain_beside hg.allowance (sum_beside hg) (sum_beside hg)))

theorem logical_beside (hg : Repeats P g g') :
    P.Beside now Node.SameTree (logical g (factor g)) (logical g' (factor g')) :=
  chain_beside hg.allowance (comparison_beside hg) (comparison_beside hg)

/-! ## Statements and programs -/

theorem declaration_beside (hg : Repeats P g g') :
    P.Beside now Node.SameTree (declaration g) (declaration g') := by
  refine (Beside.expectKeyword _).bind fun _ _ _ => Beside.expectIdentifier.bind ?_
  rintro ⟨name, span⟩ ⟨_, span'⟩ ⟨rfl, -⟩
  refine .test ?_ (.pure (.of_kind (.declareNull name)))
  refine (Beside.advanceOver rfl).bind fun _ _ _ => (hg.phrase _).bind fun _ _ hv => ?_
  exact .pure (.of_kind (.declare name hv))

theorem expression_beside (hg : Repeats P g g') :
    P.Beside now Node.SameTree (expression g) (expression g') :=
  .test (declaration_beside hg) (.orExpected (logical_beside hg))

theorem keywordStatement_beside {inside inside' : Parser NodeKind}
    (h : P.Beside (fun _ => True) (NodeKind.Alike Node.SameTree fun _ _ => True) inside inside')
    (hnow : ∀ t, now t → t.isPlain = true) :
    P.Beside now Node.SameTree (keywordStatement inside) (keywordStatement inside') := by
  refine (Beside.advance hnow).bind fun _ _ _ => (Beside.enter (by rfl)).bind fun _ _ _ => ?_
  exact h.bind fun _ _ hk => (Beside.leave rfl _).bind fun _ _ _ => .pure (.of_kind hk)

theorem statement_beside (hg : Repeats P g g') :
    P.Beside now Node.SameTree (statement g) (statement g') := by
  refine .peek fun token _ => ?_
  split
  · refine keywordStatement_beside (.test (.pure (.return .none)) ?_) (by rintro _ rfl; rfl)
    exact (hg.phrase _).bind fun _ _ hv => .pure (.return (.some hv))
  · refine keywordStatement_beside ?_ (by rintro _ rfl; rfl)
    exact (hg.phrase _).bind fun _ _ hm => .pure (.include hm)
  · exact keywordStatement_beside (.pure .break) (by rintro _ rfl; rfl)
  · exact keywordStatement_beside (.pure .continue) (by rintro _ rfl; rfl)
  · exact expression_beside hg

theorem phrase_beside (hg : Repeats P g g') (p : Phrase) :
    P.Beside now Node.SameTree (phrase g p) (phrase g' p) := by
  cases p with
  | expression => exact expression_beside hg
  | statement => exact statement_beside hg
  | comparison => exact comparison_beside hg
  | term => exact term_beside hg
  | factor => exact factor_beside hg

/-- The grammar reads the same way to every depth. -/
theorem repeats_readTo (P : Pairing) {n m : Nat} (hnm : n ≤ m) :
    Repeats P ⟨n, readTo n⟩ ⟨m, readTo m⟩ := by
  refine ⟨hnm, ?_⟩
  induction n generalizing m with
  | zero => exact fun p => .exhausted
  | succ n ih =>
    obtain ⟨m, rfl, hle⟩ := exists_pred_of_lt hnm
    exact fun p => phrase_beside ⟨hle, ih hle⟩ p

theorem program_beside (hg : Repeats P g g') {n m : Nat} (hnm : n ≤ m) :
    P.Beside now (List.Forall₂ Node.SameTree) (program g n) (program g' m) := by
  rw [program_eq, program_eq]
  exact .lines (statement_beside hg) hnm

end Grammar

open TracedScript.Parser (Pairing)

theorem Parser.Pairing.Beside.run {α β : Type} {P : Pairing} {r : α → β → Prop} {p : Parser α}
    {p' : Parser β} (h : P.Beside (fun _ => True) r p p') {c c' : Cursor} (hc : P.cursor c c')
    (ends : (p c).1 ≠ .error .exhausted) : P.Answers r (p.run c).1 (p'.run c').1 := by
  have both := h c c' hc trivial
  unfold Parser.run
  generalize p c = e at both ends ⊢
  generalize p' c' = e' at both ⊢
  cases both with
  | ok hr _ => exact .ok hr
  | rejected he _ => exact .error he
  | exhausted => exact absurd rfl ends

end TracedScript
