import TracedScript.Proofs.Syntax.Subtree
import TracedScript.Syntax.Operators

/-!
# Writing program trees

Trees as tokens. Every expression inside another construct stands in its own parentheses, so that no
strength of binding matters; blocks consist of lines. `Node.tokens` writes a tree, `programTokens` a
whole program. For what the grammar has no place for, `NodeKind.isWritable` does not hold.
-/

namespace TracedScript

/-- The tokens of the program itself, neither line breaks nor its end. -/
def Token.isContent : Token → Bool
  | .eol | .eof => false
  | _ => true

def UnaryOperator.token : UnaryOperator → Token
  | .plus => .mark .plus
  | .minus => .mark .minus
  | .not => .keyword .not

def BinaryOperator.token : BinaryOperator → Token
  | .add => .mark .plus
  | .subtract => .mark .minus
  | .multiply => .mark .star
  | .divide => .mark .slash
  | .power => .mark .caret
  | .equal => .mark .equalEqual
  | .notEqual => .mark .bangEqual
  | .less => .mark .less
  | .lessEqual => .mark .lessEqual
  | .greater => .mark .greater
  | .greaterEqual => .mark .greaterEqual
  | .and => .keyword .and
  | .or => .keyword .or

def parenthesized (ts : List Token) : List Token := .mark .lparen :: (ts ++ [.mark .rparen])

/-- Between braces. -/
def braced (ts : List Token) : List Token := .mark .lbrace :: (ts ++ [.mark .rbrace])

/-- Items with commas between them. -/
def commaList : List (List Token) → List Token
  | [] => []
  | [ts] => ts
  | ts :: rest => ts ++ .mark .comma :: commaList rest

/-- The items of a tuple: a single one has a comma behind it. -/
def tupleList : List (List Token) → List Token
  | [ts] => ts ++ [.mark .comma]
  | tss => commaList tss

def Target.tokens (t : Target) : List Token :=
  if t.declares then [.keyword .var, .identifier t.name] else [.identifier t.name]

mutual

@[simp] def Node.tokens : Node → List Token
  | ⟨kind, _⟩ => kind.tokens

@[simp] def NodeKind.tokens : NodeKind → List Token
  | .int n => [.int n]
  | .float x => [.float x]
  | .str s => [.str s]
  | .array items => .mark .lbracket :: (commaList (operandTokens items) ++ [.mark .rbracket])
  | .tuple items => parenthesized (tupleList (operandTokens items))
  | .dict entries => braced (commaList (entryTokens entries))
  | .read name => [.identifier name]
  | .assign name value => .identifier name :: .mark .equals :: parenthesized value.tokens
  | .declare name value =>
    .keyword .var :: .identifier name :: .mark .equals :: parenthesized value.tokens
  | .declareNull name => [.keyword .var, .identifier name]
  | .unary op operand => op.token :: parenthesized operand.tokens
  | .binary left op right => parenthesized left.tokens ++ op.token :: parenthesized right.tokens
  | .function ⟨params, options, returns, body⟩ =>
    .keyword .func :: (parenthesized (commaList (parameterTokens params ++ optionTokens options)) ++
    (typeTokens .arrow returns ++ braced (lineTokens body)))
  | .call callee lists => parenthesized callee.tokens ++ argumentTokens lists
  | .member target name => parenthesized target.tokens ++ [.mark .period, .identifier name]
  | .index target slot => parenthesized target.tokens ++
    .mark .lbracket :: (parenthesized slot.tokens ++ [.mark .rbracket])
  | .return none => .keyword .return :: parenthesized []
  | .return (some value) => .keyword .return :: parenthesized (parenthesized value.tokens)
  | .break => .keyword .break :: parenthesized []
  | .continue => .keyword .continue :: parenthesized []
  | .if [] otherwise => .keyword .if :: elseTokens otherwise
  | .if (first :: branches) otherwise =>
    .keyword .if :: (first.tokens ++ (branchTokens .elif branches ++ elseTokens otherwise))
  | .switch target subject cases otherwise => .keyword .switch ::
    (parenthesized (target.tokens ++ .keyword .as :: parenthesized subject.tokens) ++
    braced (branchTokens .when cases ++ elseTokens otherwise))
  | .for target iterable body => .keyword .for ::
    (parenthesized (target.tokens ++ .keyword .in :: parenthesized iterable.tokens) ++
    braced (lineTokens body))
  | .while test body => .keyword .while ::
    (parenthesized (parenthesized test.tokens) ++ braced (lineTokens body))
  | .handler body => .keyword .handler :: braced (lineTokens body)
  | .include module => .keyword .include :: parenthesized (parenthesized module.tokens)

@[simp] def operandTokens : List Node → List (List Token)
  | [] => []
  | e :: es => parenthesized e.tokens :: operandTokens es

@[simp] def entryTokens : List (Node × Node) → List (List Token)
  | [] => []
  | (key, value) :: es =>
    (parenthesized key.tokens ++ .mark .colon :: parenthesized value.tokens) :: entryTokens es

/-- Each statement ends with its line. -/
@[simp] def lineTokens : List Node → List Token
  | [] => []
  | s :: ss => s.tokens ++ .eol :: lineTokens ss

@[simp] def parameterTokens : List ParameterLiteral → List (List Token)
  | [] => []
  | ⟨name, type, _⟩ :: ps => (.identifier name :: typeTokens .colon type) :: parameterTokens ps

@[simp] def optionTokens : List OptionLiteral → List (List Token)
  | [] => []
  | ⟨name, default, _⟩ :: os =>
    (.identifier name :: .mark .equals :: parenthesized default.tokens) :: optionTokens os

@[simp] def namedTokens : List NamedArgument → List (List Token)
  | [] => []
  | ⟨name, value, _⟩ :: as =>
    (.identifier name :: .mark .equals :: parenthesized value.tokens) :: namedTokens as

/-- A type behind a mark, if there is one. -/
@[simp] def typeTokens (mark : Mark) : Option Node → List Token
  | none => []
  | some type => .mark mark :: parenthesized type.tokens

@[simp] def argumentTokens : List ArgumentList → List Token
  | [] => []
  | ⟨positional, named, _⟩ :: lists =>
    parenthesized (commaList (operandTokens positional ++ namedTokens named)) ++
      argumentTokens lists

@[simp] def Branch.tokens : Branch → List Token
  | ⟨condition, body⟩ =>
    parenthesized (parenthesized condition.tokens) ++ braced (lineTokens body)

@[simp] def branchTokens (word : Keyword) : List Branch → List Token
  | [] => []
  | b :: bs => .keyword word :: (b.tokens ++ branchTokens word bs)

@[simp] def elseTokens : Option (List Node) → List Token
  | none => []
  | some body => .keyword .else :: braced (lineTokens body)

end

/-- A program as tokens: each statement ends with its line, and the program ends behind them. -/
def programTokens (statements : List Node) : List Token := lineTokens statements ++ [.eof]

/-! ## What can be written -/

/-- Constructs that are statements but no expressions. -/
def NodeKind.isJump : NodeKind → Bool
  | .return _ | .break | .continue | .include _ => true
  | _ => false

/-- The nodes directly inside that are no statements. -/
def NodeKind.expressions : NodeKind → List Node
  | .function literal => { literal with body := [] }.children
  | .if branches _ => branches.map (·.condition)
  | .switch _ subject cases _ => subject :: cases.map (·.condition)
  | .for _ iterable _ => [iterable]
  | .while test _ => [test]
  | .handler _ => []
  | kind => kind.children

/-- There is a place for the construct in the grammar, and for what is directly inside it. -/
def NodeKind.isWritable (kind : NodeKind) : Bool :=
  kind.expressions.all (fun c => !c.kind.isJump) &&
    match kind with
    | .call _ lists => !lists.isEmpty
    | .if branches _ => !branches.isEmpty
    | _ => true

/-- A tree of which everything can be written. -/
def Node.IsWritable (n : Node) : Prop := n.All fun kind => kind.isWritable = true

/-- A tree that can be written where an expression is expected. -/
structure Node.IsExpression (n : Node) : Prop where
  writable : n.IsWritable
  stays : n.kind.isJump = false

theorem NodeKind.expressions_subset (kind : NodeKind) :
    ∀ c ∈ kind.expressions, c ∈ kind.children := by
  intro c hc
  have condition {branches : List Branch} (h : c ∈ branches.map (·.condition)) :
      c ∈ branches.flatMap Branch.children := by
    obtain ⟨b, hb, rfl⟩ := List.mem_map.mp h
    exact List.mem_flatMap.mpr ⟨b, hb, List.mem_cons_self ..⟩
  cases kind with
  | function literal =>
    have outside : c ∈ literal.params.flatMap (·.type.toList) ++ literal.options.map (·.default) ++
        literal.returns.toList := by simpa [expressions, FunctionLiteral.children] using hc
    exact List.mem_append_left _ outside
  | «if» branches otherwise => exact List.mem_append_left _ (condition hc)
  | switch target subject cases otherwise =>
    obtain rfl | hc := List.mem_cons.mp hc
    · exact List.mem_cons_self ..
    · exact List.mem_cons_of_mem _ (List.mem_append_left _ (condition hc))
  | «for» target iterable body =>
    obtain rfl := List.mem_singleton.mp hc
    exact List.mem_cons_self ..
  | «while» test body =>
    obtain rfl := List.mem_singleton.mp hc
    exact List.mem_cons_self ..
  | handler body => cases hc
  | _ => exact hc

namespace Node.IsWritable

variable {n c : Node}

theorem child (h : n.IsWritable) (hc : c ∈ n.children) : c.IsWritable := All.child h hc

theorem expression (h : n.IsWritable) (hc : c ∈ n.kind.expressions) : c.IsExpression := by
  have stays := List.all_eq_true.mp (Bool.and_eq_true_iff.mp h.self).1 c hc
  exact ⟨h.child (n.kind.expressions_subset c hc), by simpa using stays⟩

end Node.IsWritable

/-! ## How trees start -/

def Token.startsOperand : Token → Bool
  | .int _ | .float _ | .str _ | .identifier _ => true
  | .mark .lparen | .mark .lbracket | .mark .lbrace => true
  | .keyword .func | .keyword .handler | .keyword .if => true
  | .keyword .switch | .keyword .for | .keyword .while => true
  | _ => false

def Token.startsFactor : Token → Bool
  | .mark .plus | .mark .minus => true
  | t => t.startsOperand

def Token.startsExpression : Token → Bool
  | .keyword .not | .keyword .var => true
  | t => t.startsFactor

def Token.startsStatement : Token → Bool
  | .keyword .return | .keyword .break | .keyword .continue | .keyword .include => true
  | t => t.startsExpression

theorem Token.content_of_starts {t : Token} (h : t.startsStatement = true) :
    t.isContent = true := by
  cases t with
  | eol | eof => cases h
  | _ => rfl

theorem Token.starts_ne {t u : Token} (ht : t.startsStatement = true)
    (hu : u.startsStatement = false) : t ≠ u := by
  rintro rfl
  rw [hu] at ht
  cases ht

theorem Node.tokens_start (n : Node) : ∃ t ts, n.tokens = t :: ts ∧ t.startsStatement = true ∧
    (n.kind.isJump = false → t.startsExpression = true) := by
  obtain ⟨kind, span⟩ := n
  cases kind with
  | unary op operand => cases op <;> exact ⟨_, _, rfl, rfl, fun _ => rfl⟩
  | «return» value => cases value <;> exact ⟨_, _, rfl, rfl, nofun⟩
  | «break» | «continue» | «include» => exact ⟨_, _, rfl, rfl, nofun⟩
  | «if» branches otherwise => cases branches <;> exact ⟨_, _, rfl, rfl, fun _ => rfl⟩
  | function literal => cases literal; exact ⟨_, _, rfl, rfl, fun _ => rfl⟩
  | _ => exact ⟨_, _, rfl, rfl, fun _ => rfl⟩

end TracedScript
