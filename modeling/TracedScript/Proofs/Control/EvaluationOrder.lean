import TracedScript.Machine.Evaluate
import TracedScript.Program
import TracedScript.Proofs.Syntax.SourceOrder

/-!
# The order of evaluation

An expression of a program evaluates its operands in the order in which they stand in the source,
but for options before positional arguments, which are evaluated behind them. The order is fixed
before it is known what the operands evaluate to: `InOrder` says of a computation that is given an
evaluator which nodes it has evaluated, whatever the evaluator does with them. `evaluate` is
`Eval.construct` with `evaluate` itself as that evaluator.
-/

namespace TracedScript

namespace Eval

/-- The computation evaluates the nodes in this order, each once and all in the same frame. In
between it only does what needs no evaluator, and calls values. What one evaluation changes is what
the next one finds, and where one of them stops the rest is not evaluated. -/
inductive InOrder (around : Surroundings) (stack : CallStack) (inLoop : Bool) {α : Type} :
    (Evaluator → Eval α) → List Node → Prop where
  | done (work : Eval α) : InOrder around stack inLoop (fun _ => work) []
  | step {β : Type} (work : Eval β) {next : β → Evaluator → Eval α} {nodes : List Node} :
    (∀ b, InOrder around stack inLoop (next b) nodes) →
    InOrder around stack inLoop (fun eval => work >>= fun b => next b eval) nodes
  | operand (node : Node) {next : Value → Evaluator → Eval α} {nodes : List Node} :
    (∀ v, InOrder around stack inLoop (next v) nodes) →
    InOrder around stack inLoop (fun eval => eval node stack inLoop >>= fun v => next v eval)
      (node :: nodes)
  | call (callee : Value) (args : Arguments) {next : Value → Evaluator → Eval α}
      {nodes : List Node} :
    (∀ v, InOrder around stack inLoop (next v) nodes) →
    InOrder around stack inLoop
      (fun eval => Eval.call around eval callee args stack >>= fun v => next v eval) nodes

namespace InOrder

variable {around : Surroundings} {stack : CallStack} {inLoop : Bool} {α β γ : Type}
  {p : Evaluator → Eval α} {nodes others : List Node}

theorem bind {q : α → Evaluator → Eval β} (hp : InOrder around stack inLoop p nodes)
    (hq : ∀ a, InOrder around stack inLoop (q a) others) :
    InOrder around stack inLoop (fun eval => p eval >>= fun a => q a eval) (nodes ++ others) := by
  induction hp with
  | done work => exact .step work hq
  | step work _ ih =>
    simp only [bind_assoc]
    exact .step work ih
  | operand node _ ih =>
    simp only [bind_assoc]
    exact .operand node ih
  | call callee args _ ih =>
    simp only [bind_assoc]
    exact .call callee args ih

theorem one (node : Node) :
    InOrder around stack inLoop (fun eval => eval node stack inLoop) [node] := by
  have h : InOrder around stack inLoop (fun eval => eval node stack inLoop >>= fun v => pure v)
      [node] := .operand node fun v => .done (pure v)
  simpa only [bind_pure] using h

/-- What follows does not evaluate anything. -/
theorem andThen {f : α → Eval β} (hp : InOrder around stack inLoop p nodes) :
    InOrder around stack inLoop (fun eval => p eval >>= f) nodes := by
  have h := hp.bind (q := fun a _ => f a) fun a => .done (f a)
  rwa [List.append_nil] at h

theorem mapM {xs : List β} {f : β → Evaluator → Eval α} {inside : β → List Node}
    (h : ∀ x ∈ xs, InOrder around stack inLoop (f x) (inside x)) :
    InOrder around stack inLoop (fun eval => xs.mapM fun x => f x eval) (xs.flatMap inside) := by
  induction xs with
  | nil => exact .done _
  | cons x xs ih =>
    obtain ⟨first, rest⟩ := List.forall_mem_cons.mp h
    simp only [List.mapM_cons, List.flatMap_cons]
    exact first.bind fun a => (ih rest).andThen

/-- Each of the things that are gone through has one node. -/
theorem mapM_one {xs : List β} {f : β → Evaluator → Eval α} {node : β → Node}
    (h : ∀ x ∈ xs, InOrder around stack inLoop (f x) [node x]) :
    InOrder around stack inLoop (fun eval => xs.mapM fun x => f x eval) (xs.map node) := by
  rw [List.map_eq_flatMap]
  exact mapM h

theorem each (nodes : List Node) :
    InOrder around stack inLoop (fun eval => nodes.mapM fun c => eval c stack inLoop) nodes := by
  have h : InOrder around stack inLoop (fun eval => nodes.mapM fun c => eval c stack inLoop)
      (nodes.map id) := mapM_one fun c _ => one c
  rwa [List.map_id] at h

theorem optional {o : Option Node} {f : Node → Evaluator → Eval α}
    (h : ∀ c, InOrder around stack inLoop (f c) [c]) :
    InOrder around stack inLoop (fun eval => o.mapM fun c => f c eval) o.toList := by
  cases o with
  | none => exact .done _
  | some c => exact (h c).andThen

end InOrder

variable {around : Surroundings} {stack : CallStack} {inLoop : Bool}

theorem array_inOrder (items : List Node) :
    InOrder around stack inLoop (fun eval => array (fun c => eval c stack inLoop) items) items :=
  (InOrder.each items).andThen

theorem tuple_inOrder (items : List Node) :
    InOrder around stack inLoop (fun eval => tuple (fun c => eval c stack inLoop) items) items :=
  (InOrder.each items).andThen

theorem dict_inOrder (entries : List (Node × Node)) :
    InOrder around stack inLoop (fun eval => dict (fun c => eval c stack inLoop) entries)
      (entries.flatMap fun e => [e.1, e.2]) := by
  refine InOrder.andThen (.mapM fun e _ => ?_)
  exact (InOrder.one e.1).bind fun key => (InOrder.one e.2).andThen

theorem typeTag_inOrder (node : Node) :
    InOrder around stack inLoop (fun eval => typeTag (fun c => eval c stack inLoop) node) [node] :=
  (InOrder.one node).andThen

/-- Types, then defaults, then the type of the result. -/
theorem function_inOrder (literal : FunctionLiteral) (scope : ScopeId) :
    InOrder around stack inLoop
      (fun eval => function (fun c => eval c stack inLoop) literal scope)
      { literal with body := [] }.children := by
  unfold FunctionLiteral.children
  rw [List.append_nil, List.append_assoc]
  refine InOrder.bind (.mapM fun p _ => (InOrder.optional typeTag_inOrder).andThen) fun params => ?_
  refine InOrder.bind (.mapM_one fun o _ => (InOrder.one o.default).andThen) fun options => ?_
  exact (InOrder.optional typeTag_inOrder).andThen

/-- What is positional, then the options. -/
theorem arguments_inOrder (list : ArgumentList) (callee : Span) :
    InOrder around stack inLoop
      (fun eval => arguments (fun c => eval c stack inLoop) list callee) list.children := by
  refine (InOrder.each list.positional).bind fun positional => ?_
  exact InOrder.andThen (.mapM_one fun a _ => (InOrder.one a.value).andThen)

theorem callAll_inOrder (span : Span) (v : Value) (lists : List ArgumentList) :
    InOrder around stack inLoop (fun eval => callAll around eval span stack inLoop v lists)
      (lists.flatMap ArgumentList.children) := by
  induction lists generalizing v with
  | nil => exact .done _
  | cons list lists ih =>
    exact (arguments_inOrder list span).bind fun args => .call v args ih

/-- An expression evaluates its operands in the order in which they are stored. -/
theorem construct_inOrder (n : Nat) {node : Node} {operands : List Node}
    (h : node.kind.operands? = some operands) :
    InOrder around stack inLoop (fun eval => construct around n eval node stack inLoop)
      operands := by
  obtain ⟨kind, span⟩ := node
  cases kind with
  | int | float | str | read | declareNull =>
    cases h
    exact .done _
  | array items =>
    cases h
    exact (array_inOrder items).andThen
  | tuple items =>
    cases h
    exact (tuple_inOrder items).andThen
  | dict entries =>
    cases h
    exact (dict_inOrder entries).andThen
  | function literal =>
    cases h
    exact (function_inOrder literal stack.top.scope).andThen
  | assign name value =>
    cases h
    exact (InOrder.one value).andThen
  | declare name value =>
    cases h
    exact (InOrder.one value).andThen
  | unary op inner =>
    cases h
    exact (InOrder.one inner).andThen
  | binary left op right =>
    cases h
    exact (InOrder.one left).bind fun v => (InOrder.one right).andThen
  | member target name =>
    cases h
    exact (InOrder.one target).andThen
  | index target slot =>
    cases h
    exact (InOrder.one target).bind fun v => (InOrder.one slot).andThen
  | call callee lists =>
    cases h
    exact (InOrder.one callee).bind fun v => callAll_inOrder callee.span v lists
  | «return» | «break» | «continue» | «if» | switch | «for» | «while» | handler | «include» =>
    cases h

end Eval

/-- Operands that are stored in source order have no option before a positional argument of its
list. -/
theorem NodeKind.not_defers_of_pairwise {kind : NodeKind} {operands : List Node}
    (ho : kind.operands? = some operands)
    (h : operands.Pairwise fun a b => a.span.Before b.span) (option argument : Node) :
    ¬ kind.Defers option argument := by
  intro hd
  cases kind with
  | call callee lists =>
    cases ho
    obtain ⟨list, hl, defers⟩ := hd
    have within := (List.pairwise_flatMap.mp (List.pairwise_cons.mp h).2).1 list hl
    exact defers.not_behind ((List.pairwise_append.mp within).2.2 argument defers.argument_mem
      option defers.option_mem)
  | _ => exact hd

/-- Let `n` be an expression anywhere in a program. It evaluates its operands in the order in which
they are stored. Of two operands the one that is evaluated first also stands first, unless it is a
positional argument and the other one an option that stands before it in the same list. So the
operands are evaluated from left to right exactly if no option stands before a positional argument
of its list. -/
theorem operands_evaluated_left_to_right {source : Source} {statements : List Node} {c n : Node}
    {operands : List Node} (hp : source.program = .ok statements) (hc : c ∈ statements)
    (hn : n.Inside c) (ho : n.kind.operands? = some operands) (around : Surroundings)
    (allowance : Nat) (stack : CallStack) (inLoop : Bool) :
    Eval.InOrder around stack inLoop
      (fun eval => Eval.construct around allowance eval n stack inLoop) operands ∧
    operands.Pairwise (fun a b => a.span.Before b.span ∨ n.kind.Defers b a) ∧
    (operands.Pairwise (fun a b => a.span.Before b.span) ↔
      ∀ option argument, ¬ n.kind.Defers option argument) := by
  have sorted := Source.sorted_of_program hp c hc n hn operands ho
  refine ⟨Eval.construct_inOrder allowance ho, sorted, ?_⟩
  constructor
  · exact NodeKind.not_defers_of_pairwise ho
  · exact fun none => sorted.imp fun h => h.resolve_right (none _ _)

/-! ## One argument and one option -/

/-- The argument and the option of the last statement of a text, if it is a call with one of
each. -/
def Source.argumentAndOption? (s : Source) : Option (Node × Node) :=
  match s.program.toOption.bind List.getLast? with
  | some ⟨.call _ [⟨[argument], [option], _⟩], _⟩ => some (argument, option.value)
  | _ => none

theorem Source.exists_call {s : Source} {argument option : Node}
    (h : s.argumentAndOption? = some (argument, option)) :
    ∃ statements callee list, ∃ n ∈ statements, s.program = .ok statements ∧
      n.kind = .call callee [list] ∧ list.positional = [argument] ∧
      list.named.map (·.value) = [option] := by
  unfold argumentAndOption? at h
  split at h
  · rename_i hlast
    cases h
    cases hp : s.program with
    | error e =>
      rw [hp] at hlast
      cases hlast
    | ok statements =>
      rw [hp] at hlast
      exact ⟨statements, _, _, _, List.mem_of_getLast? hlast, rfl, rfl, rfl, rfl⟩
  · cases h

/-- An argument before an option: both are evaluated where they stand. -/
theorem argument_then_option :
    let source : Source := ⟨"main.peri", "f(1, o = 2)"⟩
    let around : Surroundings := ⟨.standard, .empty [], none⟩
    ∃ argument option, source.argumentAndOption? = some (argument, option) ∧
      ∃ n callee, n.kind.operands? = some [callee, argument, option] ∧
        Eval.InOrder around (.root "<program>" 1 .program) false
          (fun eval => Eval.construct around 9 eval n (.root "<program>" 1 .program) false)
          [callee, argument, option] ∧
        [callee, argument, option].Pairwise fun a b => a.span.Before b.span := by
  intro source around
  have placed : source.argumentAndOption?.any (fun p => p.1.span.Before p.2.span) = true := by
    decide +kernel
  obtain ⟨⟨argument, option⟩, hs, before⟩ := (Option.any_eq_true _ _).mp placed
  obtain ⟨statements, callee, list, n, hn, hp, hk, ha, ho⟩ := Source.exists_call hs
  have operands : n.kind.operands? = some [callee, argument, option] := by
    simp [hk, NodeKind.operands?, NodeKind.children, ArgumentList.children, ha, ho]
  obtain ⟨inOrder, -, leftToRight⟩ := operands_evaluated_left_to_right hp hn .refl operands around
    9 (.root "<program>" 1 .program) false
  refine ⟨argument, option, hs, n, callee, operands, inOrder, leftToRight.mpr ?_⟩
  intro o a hd
  rw [hk] at hd
  obtain ⟨l, hl, defers⟩ := hd
  obtain rfl := List.mem_singleton.mp hl
  obtain rfl : a = argument := by simpa [ha] using defers.argument_mem
  obtain rfl : o = option := by simpa [ho] using defers.option_mem
  exact defers.not_behind (of_decide_eq_true before)

/-- Prints `1` for an option, and `2` for the argument behind it. -/
def deferringProgram : String := "var f = func(x, o = 0) \x7b\x7d\nf(o = print(1), print(2))"

/-- The option stands first, and its line is printed last. -/
theorem option_evaluated_late :
    let source : Source := ⟨"main.peri", Text.normalize deferringProgram⟩
    let after := Machine.initial.run ⟨.standard, .empty [], none⟩ 9 "main.peri" deferringProgram
    (source.argumentAndOption?.any fun p => p.2.span.Before p.1.span) = true ∧
      after.2.printed = #["2", "1"] := by
  decide +kernel

end TracedScript
