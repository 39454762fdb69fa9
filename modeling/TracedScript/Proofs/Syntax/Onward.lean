import TracedScript.Proofs.Syntax.Walking

/-!
# Every construct moves the cursor on

Between its first lexeme and its end a construct opens and closes its brackets in pairs, reads
phrases that move on themselves, and goes back only to where it has looked ahead from. So it ends
further on, in the brackets that it started in: one lemma for each construct, for two grammars with
allowances that suffice. Main statement: `grammar_keeps_cursor`.
-/

namespace TracedScript.Grammar

open TracedScript.Parser (Walks Onward AnyToken)

/-- For what is read from place `i` on, both grammars have enough steps; their phrases do the same
and move on. -/
structure Suffices (lexemes : Array Lexeme) (i : Nat) (g g' : Grammar) : Prop where
  allowance : lexemes.size < g.allowance + i
  allowance' : lexemes.size < g'.allowance + i
  read : ∀ (ph : Phrase) (b : Brackets), Onward lexemes b i (g.read ph) (g'.read ph)

variable {lexemes : Array Lexeme} {b : Brackets} {i j : Nat} {g g' : Grammar}

theorem Suffices.later (h : Suffices lexemes i g g') (hij : i ≤ j) : Suffices lexemes j g g' where
  allowance := Nat.lt_of_lt_of_le h.allowance (Nat.add_le_add_left hij _)
  allowance' := Nat.lt_of_lt_of_le h.allowance' (Nat.add_le_add_left hij _)
  read ph b k hk := h.read ph b k (Nat.le_trans hij hk)

section

variable (ends : EndsProgram lexemes)
include ends

/-! ## Blocks -/

theorem walks_statements (hg : Suffices lexemes i g g') {n n' : Nat} (hij : i ≤ j)
    (hn : lexemes.size < n + j) (hn' : lexemes.size < n' + j) :
    Walks lexemes AnyToken b b j j (statements g n) (statements g' n') := by
  rw [statements_eq, statements_eq]
  exact .lines ends (hg.read .statement b) hij hn hn'

theorem onward_block (hg : Suffices lexemes (i + 1) g g') :
    Onward lexemes b i (block g) (block g') := by
  intro j hj
  have hg := hg.later (Nat.succ_le_succ hj)
  refine (Walks.skipBreaks ends).bind fun _ => (Walks.enter ends (by nofun)).bind fun _ => ?_
  refine (walks_statements ends hg (Nat.le_refl _) hg.allowance hg.allowance').bind fun _ => ?_
  exact (Walks.leave ends).bind fun _ => .pure (Nat.le_refl _)

theorem onward_condition (hg : Suffices lexemes (i + 1) g g') :
    Onward lexemes b i (condition g) (condition g') := by
  intro j hj
  refine (Walks.enter ends (by nofun)).bind fun _ => ?_
  refine (hg.read .expression _).bind (by omega) fun _ => ?_
  exact (Walks.leave ends).bind fun _ => .pure (by omega)

theorem onward_target : Onward lexemes b i target target := by
  intro j _
  refine .is ?_ ?_
  · refine (Walks.advance ends (by rintro _ rfl; nofun)).bind fun _ => ?_
    exact (Walks.expectIdentifier ends).bind fun _ => .pure (by omega)
  · exact (Walks.expectIdentifier ends).bind fun _ => .pure (Nat.le_refl _)

theorem onward_branch (hg : Suffices lexemes (i + 1) g g') :
    Onward lexemes b i (branch g) (branch g') := by
  intro j hj
  refine (onward_condition ends hg).bind hj fun _ => ?_
  exact (onward_block ends hg).bind (by omega) fun _ => .pure (by omega)

/-! ## Functions -/

theorem onward_parameter (hg : Suffices lexemes i g g')
    (acc : List ParameterLiteral × List OptionLiteral) :
    Onward lexemes b i (parameter g acc) (parameter g' acc) := by
  intro j hj
  refine (Walks.expectIdentifier ends).bind fun _ => .test ?_ ?_
  · refine (Walks.advance ends (by rintro _ rfl; nofun)).bind fun _ => ?_
    exact (hg.read .expression b).bind (by omega) fun _ => .pure (by omega)
  split
  · exact .rejected
  refine .test ?_ (.pure (Nat.le_refl _))
  refine (Walks.advance ends (by rintro _ rfl; nofun)).bind fun _ => ?_
  exact (hg.read .expression b).bind (by omega) fun _ => .pure (by omega)

theorem walks_returnType (hg : Suffices lexemes i g g') (hij : i ≤ j) :
    Walks lexemes AnyToken b b j j (returnType g) (returnType g') := by
  refine .cursor fun before hb => (Walks.skipBreaks ends).bind fun _ => .test ?_ ?_
  · refine (Walks.advance ends (by rintro _ rfl; nofun)).bind fun _ => ?_
    refine (Walks.skipBreaks ends).bind fun _ => ?_
    exact (hg.read .expression b).bind (by omega) fun _ => .pure (by omega)
  · exact (Walks.rewind hb).bind fun _ => .pure (Nat.le_refl j)

theorem onward_lambdaBody (hg : Suffices lexemes (i + 1) g g') :
    Onward lexemes b i (lambdaBody g) (lambdaBody g') := by
  intro j hj
  refine (Walks.skipBreaks ends).bind fun _ => (Walks.enter ends (by nofun)).bind fun _ => ?_
  refine (hg.read .expression _).bind (by omega) fun _ => ?_
  exact (Walks.leave ends).bind fun _ => .pure (by omega)

/-- Also where no function starts, and the first lexeme is passed nevertheless. -/
theorem onward_function (hg : Suffices lexemes (i + 1) g g') :
    Onward lexemes b i (function g) (function g') := by
  intro j hj
  have hg := hg.later (Nat.succ_le_succ hj)
  refine .look fun isLambda => (Walks.advanceOrStay ends).bind fun _ => ?_
  refine (Walks.enter ends (by nofun)).bind fun _ => ?_
  refine (Walks.commaSeparated ends (onward_parameter ends hg) (Nat.le_refl _) hg.allowance
    hg.allowance' _).bind fun _ => ?_
  refine (Walks.leave ends).bind fun _ => ?_
  refine (walks_returnType ends hg (Nat.le_refl _)).bind fun _ => ?_
  split
  · exact (onward_lambdaBody ends hg).bind (by omega) fun _ => .pure (by omega)
  · exact (onward_block ends hg).bind (by omega) fun _ => .pure (by omega)

/-! ## What owns blocks -/

theorem onward_handler (hg : Suffices lexemes (i + 1) g g') :
    Onward lexemes b i (handler g) (handler g') := by
  intro j hj
  refine (Walks.expectKeyword ends).bind fun _ => ?_
  exact (onward_block ends hg).bind (by omega) fun _ => .pure (by omega)

theorem walks_alternatives (hg : Suffices lexemes i g g') {n n' : Nat} (hij : i ≤ j)
    (hn : lexemes.size < n + j) (hn' : lexemes.size < n' + j) (stop : Span) :
    Walks lexemes AnyToken b b j j (alternatives g n stop) (alternatives g' n' stop) := by
  induction n generalizing j n' stop with
  | zero => exact .behind (by omega)
  | succ n ih =>
    cases n' with
    | zero => exact .behind (by omega)
    | succ n' =>
      have hg' := hg.later (Nat.le_succ i)
      refine .cursor fun before hb => (Walks.skipBreaks ends).bind fun _ => .test ?_ (.test ?_ ?_)
      · refine (Walks.advance ends (by rintro _ rfl; nofun)).bind fun _ => ?_
        refine (onward_branch ends hg').bind (by omega) fun _ => ?_
        exact (ih (by omega) (by omega) (by omega) _).bind fun _ => .pure (by omega)
      · refine (Walks.advance ends (by rintro _ rfl; nofun)).bind fun _ => ?_
        exact (onward_block ends hg').bind (by omega) fun _ => .pure (by omega)
      · exact (Walks.rewind hb).bind fun _ => .pure (Nat.le_refl j)

theorem onward_conditional (hg : Suffices lexemes (i + 1) g g') :
    Onward lexemes b i (conditional g) (conditional g') := by
  intro j hj
  have hg := hg.later (Nat.succ_le_succ hj)
  refine (Walks.expectKeyword ends).bind fun _ => ?_
  refine (onward_branch ends hg).bind (by omega) fun _ => ?_
  have enough := hg.later (Nat.le_succ _)
  refine (walks_alternatives ends enough (Nat.le_refl _) enough.allowance enough.allowance'
    _).bind fun _ => ?_
  exact .pure (by omega)

theorem walks_cases (hg : Suffices lexemes i g g') {n n' : Nat} (hij : i ≤ j)
    (hn : lexemes.size < n + j) (hn' : lexemes.size < n' + j) :
    Walks lexemes AnyToken b b j j (cases g n) (cases g' n') := by
  induction n generalizing j n' with
  | zero => exact .behind (by omega)
  | succ n ih =>
    cases n' with
    | zero => exact .behind (by omega)
    | succ n' =>
      refine .test ?_ (.pure (Nat.le_refl j))
      refine (Walks.advance ends (by rintro _ rfl; nofun)).bind fun _ => ?_
      refine (onward_branch ends (hg.later (Nat.le_succ i))).bind (by omega) fun _ => ?_
      exact (ih (by omega) (by omega) (by omega)).bind fun _ => .pure (by omega)

theorem onward_switch (hg : Suffices lexemes (i + 1) g g') :
    Onward lexemes b i (switch g) (switch g') := by
  intro j hj
  have hg := hg.later (Nat.succ_le_succ hj)
  refine (Walks.expectKeyword ends).bind fun _ => (Walks.enter ends (by nofun)).bind fun _ => ?_
  refine (onward_target ends).bind (Nat.zero_le _) fun _ => ?_
  refine (Walks.expectKeyword ends).bind fun _ => ?_
  refine (hg.read .expression _).bind (by omega) fun _ => (Walks.leave ends).bind fun _ => ?_
  refine (Walks.skipBreaks ends).bind fun _ => (Walks.enter ends (by nofun)).bind fun _ => ?_
  refine (walks_cases ends hg (by omega) (by have := hg.allowance; omega)
    (by have := hg.allowance'; omega)).bind fun _ => ?_
  refine .is ?_ ((Walks.leave ends).bind fun _ => .pure (by omega))
  refine (Walks.advance ends (by rintro _ rfl; nofun)).bind fun _ => ?_
  refine (onward_block ends hg).bind (by omega) fun _ => ?_
  exact (Walks.leave ends).bind fun _ => .pure (by omega)

theorem onward_forLoop (hg : Suffices lexemes (i + 1) g g') :
    Onward lexemes b i (forLoop g) (forLoop g') := by
  intro j hj
  refine (Walks.expectKeyword ends).bind fun _ => (Walks.enter ends (by nofun)).bind fun _ => ?_
  refine (onward_target ends).bind (Nat.zero_le _) fun _ => ?_
  refine (Walks.expectKeyword ends).bind fun _ => ?_
  refine (hg.read .expression _).bind (by omega) fun _ => (Walks.leave ends).bind fun _ => ?_
  exact (onward_block ends hg).bind (by omega) fun _ => .pure (by omega)

theorem onward_whileLoop (hg : Suffices lexemes (i + 1) g g') :
    Onward lexemes b i (whileLoop g) (whileLoop g') := by
  intro j hj
  refine (Walks.expectKeyword ends).bind fun _ => ?_
  refine (onward_condition ends hg).bind (by omega) fun _ => ?_
  exact (onward_block ends hg).bind (by omega) fun _ => .pure (by omega)

/-! ## Operands -/

/-- A name and the sign behind it are both passed. -/
theorem stands_namedStart {c : Cursor} (hc : c.Stands lexemes b i) {name : String} {span : Span}
    {behind : Cursor} (h : namedStart? c = some (name, span, behind)) :
    behind.Stands lexemes b (i + 1) := by
  unfold namedStart? at h
  split at h
  · rename_i ht
    dsimp only at h
    split at h
    · cases h
      exact (hc.advance_lt ends (by rw [ht]; nofun)).advance ends
    · cases h
  · cases h

theorem onward_argument (hg : Suffices lexemes i g g') (acc : Arguments) :
    Onward lexemes b i (argument g acc) (argument g' acc) := by
  intro j hj
  refine .cursor fun c hc => ?_
  split
  · rename_i name span behind hb
    refine (Walks.set (stands_namedStart ends hc hb)).bind fun _ => ?_
    exact (hg.read .expression b).bind (by omega) fun _ => .pure (by omega)
  · exact (hg.read .expression b).bind hj fun _ => .pure (Nat.le_refl _)

theorem onward_arguments (hg : Suffices lexemes (i + 1) g g') :
    Onward lexemes b i (arguments g) (arguments g') := by
  intro j hj
  have hg := hg.later (Nat.succ_le_succ hj)
  refine (Walks.enter ends (by nofun)).bind fun _ => ?_
  refine (Walks.commaSeparated ends (onward_argument ends hg) (Nat.le_refl _) hg.allowance
    hg.allowance' _).bind fun _ => ?_
  exact (Walks.leave ends).bind fun _ => .pure (Nat.le_refl _)

theorem walks_trailers (hg : Suffices lexemes (i + 1) g g') {n n' : Nat} (hij : i ≤ j)
    (hn : lexemes.size < n + j) (hn' : lexemes.size < n' + j) (node : Node) (chaining : Bool) :
    Walks lexemes AnyToken b b j j (trailers g n node chaining) (trailers g' n' node chaining) := by
  induction n generalizing j n' node chaining with
  | zero => exact .behind (by omega)
  | succ n ih =>
    cases n' with
    | zero => exact .behind (by omega)
    | succ n' =>
      have later (node : Node) (chaining : Bool) {k : Nat} (hk : j < k) :
          Walks lexemes AnyToken b b k j (trailers g n node chaining)
            (trailers g' n' node chaining) :=
        (ih (by omega) (by omega) (by omega) node chaining).nearer (by omega)
      refine .peek fun token _ => ?_
      split
      · exact (onward_arguments ends hg).bind hij fun _ => later _ _ (by omega)
      · refine (Walks.enter ends (by nofun)).bind fun _ => ?_
        refine (hg.read .expression _).bind (by omega) fun _ => ?_
        exact (Walks.leave ends).bind fun _ => later _ _ (by omega)
      · refine (Walks.advance ends (by rintro _ rfl; nofun)).bind fun _ => ?_
        exact (Walks.expectIdentifier ends).bind fun _ => later _ _ (by omega)
      · exact .pure (Nat.le_refl j)

theorem walks_expressions (hg : Suffices lexemes i g g') (closing : Mark) :
    Walks lexemes AnyToken b b i i (expressions g closing) (expressions g' closing) := by
  refine Walks.commaSeparated ends (fun acc j hj => ?_) (Nat.le_refl i) hg.allowance hg.allowance' _
  exact (hg.read .expression b).bind hj fun _ => .pure (Nat.le_refl _)

theorem walks_nameOrAssignment (hg : Suffices lexemes (i + 1) g g') (name : String) :
    Walks lexemes (· = .identifier name) b b i (i + 1) (nameOrAssignment g name)
      (nameOrAssignment g' name) := by
  refine (Walks.advance ends (by rintro _ rfl; nofun)).bind fun _ => ?_
  refine .test ?_ (.pure (Nat.le_refl _))
  refine (Walks.advance ends (by rintro _ rfl; nofun)).bind fun _ => ?_
  exact (hg.read .expression b).bind (by omega) fun _ => .pure (by omega)

theorem onward_group (hg : Suffices lexemes (i + 1) g g') :
    Onward lexemes b i (group g) (group g') := by
  intro j hj
  refine (Walks.enter ends (by nofun)).bind fun _ => ?_
  refine (walks_expressions ends (hg.later (Nat.succ_le_succ hj)) .rparen).bind fun _ => ?_
  refine (Walks.leave ends).bind fun _ => ?_
  split <;> exact .pure (Nat.le_refl _)

theorem onward_array (hg : Suffices lexemes (i + 1) g g') :
    Onward lexemes b i (array g) (array g') := by
  intro j hj
  refine (Walks.enter ends (by nofun)).bind fun _ => ?_
  refine (walks_expressions ends (hg.later (Nat.succ_le_succ hj)) .rbracket).bind fun _ => ?_
  exact (Walks.leave ends).bind fun _ => .pure (Nat.le_refl _)

theorem onward_entry (hg : Suffices lexemes i g g') (acc : List (Node × Node)) :
    Onward lexemes b i (entry g acc) (entry g' acc) := by
  intro j hj
  refine (hg.read .expression b).bind hj fun _ => (Walks.expect ends (by nofun)).bind fun _ => ?_
  exact (hg.read .expression b).bind (by omega) fun _ => .pure (by omega)

theorem onward_dictionary (hg : Suffices lexemes (i + 1) g g') :
    Onward lexemes b i (dictionary g) (dictionary g') := by
  intro j hj
  have hg := hg.later (Nat.succ_le_succ hj)
  refine (Walks.enter ends (by nofun)).bind fun _ => ?_
  refine (Walks.commaSeparated ends (onward_entry ends hg) (Nat.le_refl _) hg.allowance
    hg.allowance' _).bind fun _ => ?_
  exact (Walks.leave ends).bind fun _ => .pure (Nat.le_refl _)

theorem walks_literal {now : Token → Prop} (hn : ∀ t, now t → t ≠ .eof) (kind : NodeKind) :
    Walks lexemes now b b i (i + 1) (literal kind) (literal kind) :=
  (Walks.advance ends hn).bind fun _ => .pure (Nat.le_refl _)

theorem onward_atom (hg : Suffices lexemes (i + 1) g g') :
    Onward lexemes b i (atom g) (atom g') := by
  intro j hj
  refine .peek fun token _ => ?_
  cases token with
  | int n => exact walks_literal ends (by rintro _ rfl; nofun) _
  | float x => exact walks_literal ends (by rintro _ rfl; nofun) _
  | str s => exact walks_literal ends (by rintro _ rfl; nofun) _
  | identifier name => exact walks_nameOrAssignment ends (hg.later (Nat.succ_le_succ hj)) name
  | mark m =>
    cases m with
    | lparen => exact (onward_group ends hg j hj).any
    | lbracket => exact (onward_array ends hg j hj).any
    | lbrace => exact (onward_dictionary ends hg j hj).any
    | _ => exact .unexpected
  | keyword word =>
    cases word with
    | func | lambda => exact (onward_function ends hg j hj).any
    | handler => exact (onward_handler ends hg j hj).any
    | «if» => exact (onward_conditional ends hg j hj).any
    | switch => exact (onward_switch ends hg j hj).any
    | «for» => exact (onward_forLoop ends hg j hj).any
    | «while» => exact (onward_whileLoop ends hg j hj).any
    | _ => exact .unexpected
  | eol | eof => exact .unexpected

theorem onward_operand (hg : Suffices lexemes (i + 1) g g') :
    Onward lexemes b i (operand g) (operand g') := by
  intro j hj
  have hg := hg.later (Nat.succ_le_succ hj)
  have behind := hg.later (Nat.le_succ _)
  refine (onward_atom ends hg).bind (Nat.le_refl j) fun _ => ?_
  exact walks_trailers ends behind (Nat.le_refl _) hg.allowance hg.allowance' _ _

theorem onward_factor (hg : Suffices lexemes (i + 1) g g') :
    Onward lexemes b i (factor g) (factor g') := by
  intro j hj
  refine .peek fun token _ => ?_
  split
  · refine (Walks.advance ends (by rintro _ rfl; nofun)).bind fun _ => ?_
    exact (hg.read .factor b).bind (by omega) fun _ => .pure (by omega)
  · refine (Walks.advance ends (by rintro _ rfl; nofun)).bind fun _ => ?_
    exact (hg.read .factor b).bind (by omega) fun _ => .pure (by omega)
  · exact (onward_operand ends hg j hj).any

/-! ## Operators -/

omit ends in
theorem ne_eof_of_operator {t : Token} {op : BinaryOperator} (h : operator? t = some op) :
    t ≠ .eof := by
  rintro rfl
  cases h

theorem walks_chainRest {ops : List BinaryOperator} {operand operand' : Parser Node}
    (ho : Onward lexemes b i operand operand') {n n' : Nat} (hij : i ≤ j)
    (hn : lexemes.size < n + j) (hn' : lexemes.size < n' + j) (left : Node) :
    Walks lexemes AnyToken b b j j (chainRest ops operand n left)
      (chainRest ops operand' n' left) := by
  induction n generalizing j n' left with
  | zero => exact .behind (by omega)
  | succ n ih =>
    cases n' with
    | zero => exact .behind (by omega)
    | succ n' =>
      refine .peek fun token _ => ?_
      split
      · exact .pure (Nat.le_refl j)
      rename_i op hop
      split
      · refine (Walks.advance ends (by rintro _ rfl; exact ne_eof_of_operator hop)).bind fun _ => ?_
        refine ho.bind (by omega) fun right => ?_
        exact (ih (by omega) (by omega) (by omega) _).nearer (by omega)
      · exact .pure (Nat.le_refl j)

/-- An operand and the operands of the same strength behind it. -/
theorem onward_chain (hg : Suffices lexemes (i + 1) g g') {ops : List BinaryOperator}
    {first first' operand operand' : Parser Node} (hf : Onward lexemes b i first first')
    (ho : Onward lexemes b i operand operand') :
    Onward lexemes b i (do chainRest ops operand g.allowance (← first))
      (do chainRest ops operand' g'.allowance (← first')) := by
  intro j hj
  have hg := hg.later (Nat.succ_le_succ hj)
  exact hf.bind hj fun _ => walks_chainRest ends ho (by omega) hg.allowance hg.allowance' _

section

variable (hg : Suffices lexemes (i + 1) g g') {factor factor' : Parser Node}
  (hf : Onward lexemes b i factor factor')
include hg hf

theorem onward_raised : Onward lexemes b i (raised g factor) (raised g' factor') := by
  intro j hj
  have hg := hg.later (Nat.succ_le_succ hj)
  exact hf.bind hj fun _ =>
    walks_chainRest ends (hg.read .term b) (Nat.le_refl _) hg.allowance hg.allowance' _

theorem onward_term : Onward lexemes b i (term g factor) (term g' factor') :=
  onward_chain ends hg (onward_raised ends hg hf) (onward_raised ends hg hf)

theorem onward_sum : Onward lexemes b i (sum g factor) (sum g' factor') :=
  onward_chain ends hg (onward_term ends hg hf) (onward_term ends hg hf)

theorem onward_comparison : Onward lexemes b i (comparison g factor) (comparison g' factor') := by
  intro j hj
  refine .test ?_ (.orExpected _ ?_)
  · refine (Walks.advance ends (by rintro _ rfl; nofun)).bind fun _ => ?_
    exact (hg.read .comparison b).bind (by omega) fun _ => .pure (by omega)
  · exact onward_chain ends hg (onward_sum ends hg hf) (onward_sum ends hg hf) j hj

theorem onward_logical : Onward lexemes b i (logical g factor) (logical g' factor') :=
  onward_chain ends hg (onward_comparison ends hg hf) (onward_comparison ends hg hf)

end

/-! ## Statements -/

theorem onward_declaration (hg : Suffices lexemes (i + 1) g g') :
    Onward lexemes b i (declaration g) (declaration g') := by
  intro j hj
  refine (Walks.expectKeyword ends).bind fun _ => (Walks.expectIdentifier ends).bind fun _ => ?_
  refine .test ?_ (.pure (by omega))
  refine (Walks.advance ends (by rintro _ rfl; nofun)).bind fun _ => ?_
  exact (hg.read .expression b).bind (by omega) fun _ => .pure (by omega)

theorem onward_expression (hg : Suffices lexemes (i + 1) g g') :
    Onward lexemes b i (expression g) (expression g') := by
  intro j hj
  refine .test (onward_declaration ends hg j hj).any (.orExpected _ ?_)
  exact onward_logical ends hg (onward_factor ends hg) j hj

theorem walks_keywordStatement {now : Token → Prop} (hn : ∀ t, now t → t ≠ .eof)
    {inside inside' : Parser NodeKind}
    (h : Walks lexemes AnyToken (b.push .ignored) (b.push .ignored) (i + 2) (i + 2)
      inside inside') :
    Walks lexemes now b b i (i + 1) (keywordStatement inside) (keywordStatement inside') := by
  refine (Walks.advance ends hn).bind fun _ => (Walks.enter ends (by nofun)).bind fun _ => ?_
  exact h.bind fun _ => (Walks.leave ends).bind fun _ => .pure (by omega)

theorem onward_statement (hg : Suffices lexemes (i + 1) g g') :
    Onward lexemes b i (statement g) (statement g') := by
  intro j hj
  refine .peek fun token _ => ?_
  split
  · refine walks_keywordStatement ends (by rintro _ rfl; nofun) (.test (.pure (Nat.le_refl _)) ?_)
    exact (hg.read .expression _).bind (by omega) fun _ => .pure (by omega)
  · refine walks_keywordStatement ends (by rintro _ rfl; nofun) ?_
    exact (hg.read .expression _).bind (by omega) fun _ => .pure (by omega)
  · exact walks_keywordStatement ends (by rintro _ rfl; nofun) (.pure (Nat.le_refl _))
  · exact walks_keywordStatement ends (by rintro _ rfl; nofun) (.pure (Nat.le_refl _))
  · exact (onward_expression ends hg j hj).any

theorem onward_phrase (hg : Suffices lexemes (i + 1) g g') (ph : Phrase) :
    Onward lexemes b i (phrase g ph) (phrase g' ph) := by
  cases ph with
  | expression => exact onward_expression ends hg
  | statement => exact onward_statement ends hg
  | comparison => exact onward_comparison ends hg (onward_factor ends hg)
  | term => exact onward_term ends hg (onward_factor ends hg)
  | factor => exact onward_factor ends hg

theorem walks_program (hg : Suffices lexemes (i + 1) g g') {n n' : Nat} (hij : i ≤ j)
    (hn : lexemes.size < n + j) (hn' : lexemes.size < n' + j) :
    Walks lexemes AnyToken b b j j (program g n) (program g' n') := by
  rw [program_eq, program_eq]
  exact .lines ends (onward_statement ends hg) hij hn hn'

/-! ## All constructs -/

omit ends in
/-- Reads like `readTo`, but a phrase that starts at a line break that does not count gives up. -/
def readWatched : Nat → Phrase → Parser Node
  | 0, _ => Parser.exhausted
  | n + 1, ph => Parser.watched (phrase ⟨n, readWatched n⟩ ph)

theorem onward_readTo {n n' : Nat} (hn : lexemes.size < n + i) (hn' : lexemes.size < n' + i)
    (ph : Phrase) : Onward lexemes b i (readTo n ph) (readWatched n' ph) := by
  induction n generalizing i n' ph b with
  | zero => exact fun j hj => .behind (by omega)
  | succ n ih =>
    cases n' with
    | zero => exact fun j hj => .behind (by omega)
    | succ n' =>
      have inner : Suffices lexemes (i + 1) ⟨n, readTo n⟩ ⟨n', readWatched n'⟩ :=
        ⟨by dsimp only; omega, by dsimp only; omega, fun ph b => ih (by omega) (by omega) ph⟩
      exact fun j hj => (onward_phrase ends inner ph j hj).watched

/-- Allowances that exceed the number of lexemes suffice from everywhere. -/
theorem suffices_readTo {n n' : Nat} (hn : lexemes.size < n) (hn' : lexemes.size < n') (i : Nat) :
    Suffices lexemes i ⟨n, readTo n⟩ ⟨n', readWatched n'⟩ where
  allowance := by dsimp only; omega
  allowance' := by dsimp only; omega
  read ph b := onward_readTo ends (by omega) (by omega) ph

end

/-- What starts at a token of its own or reads one of the phrases. -/
inductive Construct where
  | phrase (ph : Phrase)
  | block
  | function
  | handler
  | conditional
  | switch
  | forLoop
  | whileLoop

namespace Construct

def Result : Construct → Type
  | .block => List Node × Span
  | _ => Node

def read (g : Grammar) : (r : Construct) → Parser r.Result
  | .phrase ph => Grammar.phrase g ph
  | .block => Grammar.block g
  | .function => Grammar.function g
  | .handler => Grammar.handler g
  | .conditional => Grammar.conditional g
  | .switch => Grammar.switch g
  | .forLoop => Grammar.forLoop g
  | .whileLoop => Grammar.whileLoop g

theorem onward (ends : EndsProgram lexemes) (hg : Suffices lexemes (i + 1) g g') (r : Construct) :
    Onward lexemes b i (r.read g) (r.read g') := by
  cases r with
  | phrase ph => exact onward_phrase ends hg ph
  | block => exact onward_block ends hg
  | function => exact onward_function ends hg
  | handler => exact onward_handler ends hg
  | conditional => exact onward_conditional ends hg
  | switch => exact onward_switch ends hg
  | forLoop => exact onward_forLoop ends hg
  | whileLoop => exact onward_whileLoop ends hg

end Construct

/-- The outcome of reading from the cursor on: a result and the cursor further on over the same
lexemes, with the treatment of line breaks as it was, at a clear place; or a rejection at a clear
place. -/
def Keeps {α : Type} (c : Cursor) : Except Parser.Stop α × Cursor → Prop
  | (.ok _, d) => d.lexemes = c.lexemes ∧ c.index < d.index ∧ d.mode = c.mode ∧
    d.outer = c.outer ∧ d.Clear
  | (.error (.rejected _), d) => d.lexemes = c.lexemes ∧ d.Clear
  | (.error .exhausted, _) => False

theorem keeps_of_lands {α : Type} {c : Cursor} {r : Except Parser.Stop α × Cursor}
    (h : Parser.Lands c.lexemes c.brackets (c.index + 1) r) : Keeps c r := by
  match r, h with
  | (.ok _, d), h =>
    exact ⟨h.lexemes, h.reached, congrArg Brackets.mode h.brackets,
      congrArg Brackets.outer h.brackets, h.clear⟩
  | (.error (.rejected _), d), h => exact h

/-- Reading lexemes that end with the end of the program ends, and keeps the cursor in order.
A program is read or rejected with every allowance that exceeds the number of lexemes, always with
the same outcome. A construct that is read from a clear cursor on is rejected, or the cursor comes
further, still over the lexemes, in the same brackets, and is clear. No phrase in it starts at a
line break that does not count: it would do the same if these were watched. All moves of the cursor
come to clear places, and going back after looking past line breaks changes nothing. A step back
undoes a step on, but at the last lexeme: there a step on does not move, so that a step back then
leads to a lexeme before it, past line breaks that do not count. -/
theorem grammar_keeps_cursor {lexemes : Array Lexeme} (ends : EndsProgram lexemes) :
    (∀ nonempty n, lexemes.size < n →
      let c := Cursor.start lexemes nonempty
      (program ⟨n, readTo n⟩ n c).1 ≠ .error .exhausted ∧
        program ⟨n, readTo n⟩ n c = program (covering c) (covering c).allowance c) ∧
    (∀ (r : Construct) (c : Cursor), c.lexemes = lexemes → c.Clear →
      Keeps c (r.read (covering c) c) ∧
        ∀ n, lexemes.size < n → r.read ⟨n, readWatched n⟩ c = r.read (covering c) c) ∧
    (∀ c : Cursor, c.lexemes = lexemes → c.index < lexemes.size →
      c.advance.Clear ∧ (∀ mode, (c.enter mode).Clear) ∧ c.leave.Clear ∧ c.skipBreaks.Clear ∧
        c.skipBreaks.rewind c.index = c) ∧
    (∀ c : Cursor, c.lexemes = lexemes → c.Clear → c.index + 1 < lexemes.size →
      c.advance.retreat = c) ∧
    ∀ c : Cursor, c.lexemes = lexemes → c.index + 1 = lexemes.size →
      c.advance = c ∧ (0 < c.index → c.advance.retreat.index < c.index) ∧
        ∀ i, c.advance.retreat.index < i → i < c.index →
          c.mode = .ignored ∧ (c.rewind i).token = .eol := by
  refine ⟨fun nonempty n hn => ?_, fun r c hc clear => ?_, fun c hc inside => ?_, ?_, ?_⟩
  · let c := Cursor.start lexemes nonempty
    have clear : c.Clear := ⟨nonempty, nofun⟩
    have watched {m : Nat} (hm : lexemes.size < m) :
        program ⟨n, readWatched n⟩ n c = program ⟨m, readTo m⟩ m c ∧
          Parser.Lands lexemes c.brackets 0 (program ⟨m, readTo m⟩ m c) :=
      walks_program ends (suffices_readTo ends hm hn 1) (Nat.le_refl 0) hm hn c (.self clear)
        trivial
    obtain ⟨same, lands⟩ := watched hn
    refine ⟨fun out => ?_, same.symm.trans (watched (Nat.lt_succ_self _)).1⟩
    match hr : program ⟨n, readTo n⟩ n c, lands with
    | (.ok _, _), _ => rw [hr] at out; cases out
    | (.error (.rejected _), _), _ => rw [hr] at out; cases out
  · obtain rfl := hc
    have walks {n : Nat} (hn : c.lexemes.size < n) := Construct.onward (b := c.brackets) ends
      (suffices_readTo ends (Nat.lt_succ_self _) hn (c.index + 1)) r c.index (Nat.le_refl _) c
      (.self clear) trivial
    exact ⟨keeps_of_lands (walks (Nat.lt_succ_self _)).2, fun n hn => (walks hn).1⟩
  · obtain rfl := hc
    exact ⟨(Cursor.stands_advance ends inside).clear, Cursor.clear_enter ends inside,
      Cursor.clear_leave ends inside, Cursor.clear_skipBreaks ends inside, c.rewind_skipBreaks⟩
  · rintro c rfl clear behind
    exact Cursor.retreat_advance clear behind
  · rintro c rfl last
    have stays : c.advance = c := Cursor.advance_last (Nat.le_of_eq last.symm)
    rw [stays]
    exact ⟨rfl, Cursor.retreat_lt, c.retreat_passes⟩

/-- The tokens of `(1)` with line breaks on both sides of the number. -/
def groupedNumber : Array Lexeme :=
  ([.mark .lparen, .eol, .int 1, .eol, .mark .rparen, .eol, .eof].map (⟨·, default⟩)).toArray

/-- Inside of the parentheses the cursor goes from the number to the closing one and back. -/
theorem grouped_number_keeps_cursor :
    let outside := Cursor.start groupedNumber (by decide)
    let c := outside.enter .ignored
    (program (covering outside) (covering outside).allowance outside).1 ≠ .error .exhausted ∧
      c.token = .int 1 ∧ Keeps c (expression (covering c) c) ∧
      c.advance.token = .mark .rparen ∧ c.advance.retreat = c := by
  intro outside c
  have ends : EndsProgram groupedNumber := by decide
  obtain ⟨total, constructs, moves, back, -⟩ := grammar_keeps_cursor ends
  have here : c.token = .int 1 := by decide +kernel
  have whole : c.lexemes = groupedNumber := Cursor.advance_lexemes _
  have clear : c.Clear := (moves outside rfl (by decide)).2.1 .ignored
  have behind : c.index + 1 < groupedNumber.size := by decide +kernel
  have kept := (constructs (.phrase .expression) c whole clear).1
  exact ⟨(total _ _ (Nat.lt_succ_self _)).1, here, kept, by decide +kernel,
    back c whole clear behind⟩

/-- At the end of the program a step on does not move, but a step back does, whether line breaks
count there or not. -/
theorem retreat_leaves_end :
    let lexemes : Array Lexeme := ([.mark .lparen, .int 1, .eol, .eof].map (⟨·, default⟩)).toArray
    let start := Cursor.start lexemes (by decide)
    let c := start.advance.advance.advance
    let d := (start.enter .ignored).advance
    EndsProgram lexemes ∧
      (c.lexemes = lexemes ∧ c.Clear ∧ c.token = .eof ∧ c.advance.retreat.token = .eol) ∧
      d.lexemes = lexemes ∧ d.mode = .ignored ∧ d.Clear ∧ d.token = .eof ∧
        d.advance.retreat.token = .int 1 := by
  intro lexemes start c d
  have ends : EndsProgram lexemes := by decide
  have moves (c : Cursor) (hc : c.lexemes = lexemes) (inside : c.index < lexemes.size) :
      c.advance.Clear := by
    rw [← hc] at ends inside
    exact (Cursor.stands_advance ends inside).clear
  have outside := moves start.advance.advance rfl (by decide +kernel)
  have grouped := moves (start.enter .ignored) (Cursor.advance_lexemes _) (by decide +kernel)
  refine ⟨ends, ⟨rfl, outside, ?_⟩, ?_, ?_, grouped, ?_⟩
  · decide +kernel
  · exact (Cursor.advance_lexemes _).trans (Cursor.advance_lexemes _)
  · decide +kernel
  · decide +kernel

end TracedScript.Grammar
