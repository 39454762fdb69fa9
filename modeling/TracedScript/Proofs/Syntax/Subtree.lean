import TracedScript.Syntax.Tree

/-!
# Nodes inside nodes

`Inside d n`: the node `d` is `n` or stands somewhere in it, the bodies of function literals
included. A property of all nodes inside a node passes to its children by definition, which is what
an induction over evaluations needs.
-/

namespace TracedScript

def ArgumentList.children (list : ArgumentList) : List Node :=
  list.positional ++ list.named.map (·.value)

def Branch.children (b : Branch) : List Node := b.condition :: b.body

def FunctionLiteral.children (literal : FunctionLiteral) : List Node :=
  literal.params.flatMap (·.type.toList) ++ literal.options.map (·.default) ++
    literal.returns.toList ++ literal.body

def NodeKind.children : NodeKind → List Node
  | .int _ | .float _ | .str _ | .read _ | .declareNull _ | .break | .continue => []
  | .array items => items
  | .tuple items => items
  | .dict entries => entries.flatMap fun e => [e.1, e.2]
  | .assign _ value => [value]
  | .declare _ value => [value]
  | .unary _ operand => [operand]
  | .binary left _ right => [left, right]
  | .function literal => literal.children
  | .call callee lists => callee :: lists.flatMap ArgumentList.children
  | .member target _ => [target]
  | .index target slot => [target, slot]
  | .return value => value.toList
  | .if cases otherwise => cases.flatMap Branch.children ++ otherwise.getD []
  | .switch _ subject cases otherwise =>
    subject :: (cases.flatMap Branch.children ++ otherwise.getD [])
  | .for _ iterable body => iterable :: body
  | .while test body => test :: body
  | .handler body => body
  | .include module => [module]

namespace Node

/-- The nodes directly inside a node. -/
def children (n : Node) : List Node := n.kind.children

inductive Inside (d : Node) : Node → Prop where
  | refl : Inside d d
  | child {n c : Node} : c ∈ n.children → Inside d c → Inside d n

theorem Inside.trans {d n m : Node} (hd : d.Inside n) (hn : n.Inside m) : d.Inside m := by
  induction hn with
  | refl => exact hd
  | child hc _ ih => exact .child hc ih

/-- All nodes inside have a kind that `p` allows. -/
def All (p : NodeKind → Prop) (n : Node) : Prop := ∀ d : Node, d.Inside n → p d.kind

namespace All

variable {p : NodeKind → Prop} {n c : Node}

theorem self (h : n.All p) : p n.kind := h n .refl

theorem child (h : n.All p) (hc : c ∈ n.children) : c.All p := fun d hd => h d (.child hc hd)

theorem of_children (h : p n.kind) (hc : ∀ c ∈ n.children, c.All p) : n.All p := by
  intro d hd
  cases hd with
  | refl => exact h
  | child hm hd => exact hc _ hm d hd

end All

/-- Checks all nodes of a tree that is less than `k` nodes deep. -/
def allTo (p : NodeKind → Bool) : Nat → Node → Bool
  | 0, _ => false
  | k + 1, n => p n.kind && n.children.all (allTo p k)

theorem all_of_allTo {p : NodeKind → Bool} {k : Nat} {n : Node} (h : n.allTo p k = true) :
    n.All fun kind => p kind = true := by
  induction k generalizing n with
  | zero => cases h
  | succ k ih =>
    obtain ⟨hn, hc⟩ := Bool.and_eq_true_iff.mp h
    exact All.of_children hn fun c hm => ih (List.all_eq_true.mp hc c hm)

end Node

/-! ## Children are smaller -/

theorem ArgumentList.sizeOf_child {c : Node} {list : ArgumentList} (h : c ∈ list.children) :
    sizeOf c < sizeOf list := by
  obtain ⟨positional, named, span⟩ := list
  simp only [children, List.mem_append, List.mem_map] at h
  obtain h | ⟨⟨name, value, span⟩, h, rfl⟩ := h
  · have := List.sizeOf_lt_of_mem h
    simp; omega
  · have := List.sizeOf_lt_of_mem h
    simp at this ⊢; omega

theorem Branch.sizeOf_child {c : Node} {b : Branch} (h : c ∈ b.children) :
    sizeOf c < sizeOf b := by
  obtain ⟨condition, body⟩ := b
  simp only [children, List.mem_cons] at h
  obtain rfl | h := h
  · simp; omega
  · have := List.sizeOf_lt_of_mem h
    simp; omega

theorem FunctionLiteral.sizeOf_child {c : Node} {literal : FunctionLiteral}
    (h : c ∈ literal.children) : sizeOf c < sizeOf literal := by
  obtain ⟨params, options, returns, body⟩ := literal
  simp only [children, List.mem_append, List.mem_flatMap, List.mem_map, Option.mem_toList] at h
  obtain ((⟨⟨name, type, span⟩, h, ht⟩ | ⟨⟨name, default, span⟩, h, rfl⟩) | h) | h := h
  · have := List.sizeOf_lt_of_mem h
    simp only at ht
    subst ht
    simp at this ⊢; omega
  · have := List.sizeOf_lt_of_mem h
    simp at this ⊢; omega
  · subst h
    simp; omega
  · have := List.sizeOf_lt_of_mem h
    simp; omega

theorem sizeOf_branch_child {c : Node} {cases : List Branch} {otherwise : Option (List Node)}
    (h : c ∈ cases.flatMap Branch.children ++ otherwise.getD []) :
    sizeOf c < sizeOf cases + sizeOf otherwise := by
  simp only [List.mem_append, List.mem_flatMap] at h
  obtain ⟨b, hb, hc⟩ | h := h
  · have := List.sizeOf_lt_of_mem hb
    have := Branch.sizeOf_child hc
    omega
  · cases otherwise with
    | none => cases h
    | some body =>
      have := List.sizeOf_lt_of_mem h
      simp at this ⊢; omega

theorem Node.sizeOf_child {c n : Node} (h : c ∈ n.children) : sizeOf c < sizeOf n := by
  obtain ⟨kind, span⟩ := n
  suffices hk : sizeOf c < sizeOf kind by simp; omega
  cases kind with
  | int | float | str | read | declareNull | «break» | «continue» => cases h
  | array items | tuple items | handler items =>
    have : sizeOf c < sizeOf items := List.sizeOf_lt_of_mem h
    simp; omega
  | dict entries =>
    obtain ⟨⟨key, value⟩, he, hc⟩ := List.mem_flatMap.mp h
    have := List.sizeOf_lt_of_mem he
    simp only [List.mem_cons, List.not_mem_nil, or_false] at hc
    obtain rfl | rfl := hc <;> simp at this ⊢ <;> omega
  | assign _ inner | declare _ inner | unary _ inner | member inner _ =>
    obtain rfl : c = inner := List.mem_singleton.mp h
    simp only [NodeKind.assign.sizeOf_spec, NodeKind.declare.sizeOf_spec,
      NodeKind.unary.sizeOf_spec, NodeKind.member.sizeOf_spec]
    omega
  | «include» module =>
    obtain rfl : c = module := List.mem_singleton.mp h
    simp only [NodeKind.include.sizeOf_spec]
    omega
  | binary first _ second | index first second =>
    obtain rfl | rfl : c = first ∨ c = second := by
      simpa [children, NodeKind.children] using h
    all_goals
      simp only [NodeKind.binary.sizeOf_spec, NodeKind.index.sizeOf_spec]
      omega
  | function literal =>
    have := FunctionLiteral.sizeOf_child h
    simp; omega
  | call callee lists =>
    obtain rfl | h := List.mem_cons.mp h
    · simp; omega
    · obtain ⟨list, hl, hc⟩ := List.mem_flatMap.mp h
      have := List.sizeOf_lt_of_mem hl
      have := ArgumentList.sizeOf_child hc
      simp; omega
  | «return» value =>
    obtain rfl : value = some c := Option.mem_toList.mp h
    simp; omega
  | «if» cases otherwise =>
    have := sizeOf_branch_child h
    simp; omega
  | switch target subject cases otherwise =>
    obtain rfl | h := List.mem_cons.mp h
    · simp; omega
    · have := sizeOf_branch_child h
      simp; omega
  | «for» _ first body | «while» first body =>
    obtain rfl | h := List.mem_cons.mp h
    · simp; omega
    · have := List.sizeOf_lt_of_mem h
      simp; omega

end TracedScript
