import TracedScript.Proofs.Syntax.Layout
import TracedScript.Proofs.Syntax.Subtree

/-!
# How the nodes of a tree lie

What a construct keeps in one list stands in a row, and all rows lie inside of the span of the
construct. So the span of a node contains the spans of all nodes inside it. The operands of an
expression are its children without what a function runs when it is called; they are stored in
source order, but for options before positional arguments.
-/

namespace TracedScript

/-! ## Operands -/

/-- The nodes that an expression evaluates, each once; `none` of what runs blocks, jumps or
includes. The body of a function literal is no part of them. -/
def NodeKind.operands? : NodeKind → Option (List Node)
  | .if .. | .switch .. | .for .. | .while .. | .handler _ => none
  | .return _ | .break | .continue | .include _ => none
  | .function literal => some { literal with body := [] }.children
  | kind => some kind.children

theorem NodeKind.operands_sublist {kind : NodeKind} {operands : List Node}
    (h : kind.operands? = some operands) : operands.Sublist kind.children := by
  cases kind with
  | function literal =>
    obtain rfl := Option.some.inj h
    simp [NodeKind.children, FunctionLiteral.children]
  | «if» | switch | «for» | «while» | handler | «return» | «break» | «continue» | «include» =>
    cases h
  | _ =>
    obtain rfl := Option.some.inj h
    exact .refl _

/-- An option stands before a positional argument of its list. -/
structure ArgumentList.Defers (list : ArgumentList) (option argument : Node) : Prop where
  option_mem : option ∈ list.named.map (·.value)
  argument_mem : argument ∈ list.positional
  before : option.span.Before argument.span
  not_behind : ¬ argument.span.Before option.span

def NodeKind.Defers (option argument : Node) : NodeKind → Prop
  | .call _ lists => ∃ list ∈ lists, list.Defers option argument
  | _ => False

/-- The operands are stored in source order, but for options before positional arguments. -/
def NodeKind.Sorted (kind : NodeKind) : Prop :=
  ∀ operands, kind.operands? = some operands →
    operands.Pairwise fun a b => a.span.Before b.span ∨ kind.Defers b a

/-! ## Rows -/

def ArgumentList.rows (list : ArgumentList) : List (List Span) :=
  [list.positional.map (·.span), list.named.map (·.span), list.named.map (·.value.span)]

/-- The spans of what a construct keeps in one list, for each of its lists. Where lists stand one
behind the other they are one row. -/
def NodeKind.rows : NodeKind → List (List Span)
  | .function literal => [literal.params.map (·.span) ++ literal.options.map (·.span),
      literal.children.map (·.span)]
  | .call callee lists => (callee.span :: lists.map (·.span)) :: lists.flatMap ArgumentList.rows
  | kind => [kind.children.map (·.span)]

def NodeKind.lists : NodeKind → List ArgumentList
  | .call _ lists => lists
  | _ => []

/-- A construct whose children are its only row has no argument lists. -/
theorem NodeKind.lists_eq_nil {kind : NodeKind} (h : kind.rows = [kind.children.map (·.span)]) :
    kind.lists = [] := by
  cases kind with
  | call callee lists =>
    cases lists with
    | nil => rfl
    | cons list lists =>
      have := congrArg List.length h
      simp [rows, ArgumentList.rows] at this
  | _ => rfl

/-- Each child stands in a row. -/
theorem NodeKind.mem_rows {kind : NodeKind} {c : Node} (h : c ∈ kind.children) :
    ∃ row ∈ kind.rows, c.span ∈ row := by
  cases kind with
  | function literal => exact ⟨_, .tail _ (.head _), List.mem_map_of_mem h⟩
  | call callee lists =>
    obtain rfl | h := List.mem_cons.mp h
    · exact ⟨_, .head _, .head _⟩
    obtain ⟨list, hl, hc⟩ := List.mem_flatMap.mp h
    have inside : ∀ row ∈ list.rows, row ∈ (NodeKind.call callee lists).rows :=
      fun row hr => .tail _ (List.mem_flatMap.mpr ⟨list, hl, hr⟩)
    obtain hc | hc := List.mem_append.mp hc
    · exact ⟨_, inside _ (.head _), List.mem_map_of_mem hc⟩
    · refine ⟨list.named.map (·.value.span), inside _ (.tail _ (.tail _ (.head _))), ?_⟩
      obtain ⟨argument, ha, rfl⟩ := List.mem_map.mp hc
      exact List.mem_map_of_mem ha
  | _ => exact ⟨_, .head _, List.mem_map_of_mem h⟩

theorem NodeKind.mem_rows_push {callee : Node} {lists : List ArgumentList} {list : ArgumentList}
    {row : List Span} (h : row ∈ (NodeKind.call callee (lists ++ [list])).rows) :
    row = (callee.span :: lists.map (·.span)) ++ [list.span] ∨
      row ∈ (NodeKind.call callee lists).rows ∨ row ∈ list.rows := by
  simp only [rows, List.map_append, List.flatMap_append, List.mem_cons, List.mem_append] at h ⊢
  obtain h | h | h := h
  · exact .inl h
  · exact .inr (.inl (.inr h))
  · exact .inr (.inr (by simpa using h))

namespace Node

variable {t : Tape} {h i j k l : Nat} {n c d : Node} {ns ms : List Node}

/-- The node covers lexemes, as its argument lists and the options in them do, and its lists stand
in rows inside it. -/
structure Laid (t : Tape) (n : Node) : Prop where
  covers : t.Covers n.span
  rows : ∀ row ∈ n.kind.rows, Span.Row n.span.start.index n.span.stop.index row
  sorted : n.kind.Sorted
  lists : ∀ list ∈ n.kind.lists, t.Covers list.span ∧ ∀ a ∈ list.named, t.Covers a.span

theorem Laid.child (hn : n.Laid t) (hc : c ∈ n.children) :
    c.span.Within n.span.start.index n.span.stop.index := by
  obtain ⟨row, hr, hc⟩ := NodeKind.mem_rows hc
  exact (hn.rows row hr).within _ hc

/-- All nodes inside are laid. -/
def Tidy (t : Tape) (n : Node) : Prop := ∀ d : Node, d.Inside n → d.Laid t

namespace Tidy

theorem self (hn : n.Tidy t) : n.Laid t := hn n .refl

theorem child (hn : n.Tidy t) (hc : c ∈ n.children) : c.Tidy t := fun d hd => hn d (.child hc hd)

theorem of_children (hn : n.Laid t) (hc : ∀ c ∈ n.children, c.Tidy t) : n.Tidy t := by
  intro d hd
  cases hd with
  | refl => exact hn
  | child hm hd => exact hc _ hm d hd

/-- The span of a node contains the spans of all nodes inside it. -/
theorem contains (hn : n.Tidy t) (hd : d.Inside n)
    (forward : n.span.start.index ≤ n.span.stop.index) :
    d.span.Within n.span.start.index n.span.stop.index := by
  induction hd with
  | refl => exact ⟨Nat.le_refl _, forward, Nat.le_refl _⟩
  | child hc _ ih =>
    have inside := hn.self.child hc
    exact (ih (hn.child hc) inside.forward).widen inside.le_start inside.stop_le

end Tidy

/-- The node stands between the bytes `i` and `j`, and all nodes inside are laid. -/
structure Fits (t : Tape) (i j : Nat) (n : Node) : Prop where
  stands : t.Stands i j n.span
  tidy : n.Tidy t

/-- The nodes stand between the bytes `i` and `j`, one behind the other, and all nodes inside them
are laid. -/
structure Row (t : Tape) (i j : Nat) (ns : List Node) : Prop where
  spans : Span.Row i j (ns.map (·.span))
  tidy : ∀ n ∈ ns, n.Tidy t

namespace Fits

theorem le (hn : n.Fits t i j) : i ≤ j := hn.stands.le

theorem widen (hn : n.Fits t i j) (hi : h ≤ i) (hj : j ≤ k) : n.Fits t h k :=
  ⟨hn.stands.widen hi hj, hn.tidy⟩

/-- As close as possible at the start. -/
theorem fromStart (hn : n.Fits t i j) : n.Fits t n.span.start.index j :=
  ⟨hn.stands.fromStart, hn.tidy⟩

/-- As close as possible at the end. -/
theorem toStop (hn : n.Fits t i j) : n.Fits t i n.span.stop.index :=
  ⟨hn.stands.toStop, hn.tidy⟩

end Fits

namespace Row

theorem nil (h : i ≤ j) : Row t i j [] := ⟨.nil h, List.forall_mem_nil _⟩

theorem one (hn : n.Fits t i j) : Row t i j [n] :=
  ⟨.one hn.stands.within, by simpa using hn.tidy⟩

theorem le (hs : Row t i j ns) : i ≤ j := hs.spans.le

theorem widen (hs : Row t i j ns) (hi : h ≤ i) (hj : j ≤ k) : Row t h k ns :=
  ⟨hs.spans.widen hi hj, hs.tidy⟩

theorem append (hs : Row t i j ns) (ht : Row t j k ms) : Row t i k (ns ++ ms) where
  spans := by
    rw [List.map_append]
    exact hs.spans.append ht.spans
  tidy := by
    intro n hn
    obtain hn | hn := List.mem_append.mp hn
    · exact hs.tidy n hn
    · exact ht.tidy n hn

theorem cons (hn : n.Fits t i j) (hs : Row t j k ns) : Row t i k (n :: ns) := (one hn).append hs

theorem fits (hs : Row t i j ns) (hn : n ∈ ns) : n.Fits t i j :=
  ⟨⟨hs.spans.within _ (List.mem_map_of_mem hn), (hs.tidy n hn).self.covers⟩, hs.tidy n hn⟩

theorem apart (hs : Row t i j ns) : ns.Pairwise fun a b => a.span.Before b.span :=
  List.pairwise_map.mp hs.spans.apart

end Row

variable {kind : NodeKind} {s start close : Span}

theorem sorted_of_apart (h : kind.children.Pairwise fun a b => a.span.Before b.span) :
    kind.Sorted :=
  fun _ ho => (h.sublist (NodeKind.operands_sublist ho)).imp .inl

namespace Fits

/-- A node whose children are its only row. -/
theorem of_row (hk : kind.rows = [kind.children.map (·.span)]) (hs : t.Stands i j s)
    (hr : Row t s.start.index s.stop.index kind.children) : Fits t i j ⟨kind, s⟩ := by
  refine ⟨hs, .of_children ⟨hs.covers, ?_, sorted_of_apart hr.apart, ?_⟩ hr.tidy⟩
  · rw [hk]
    simpa using hr.spans
  · rw [NodeKind.lists_eq_nil hk]
    exact List.forall_mem_nil _

/-- A node from an opening to a closing lexeme. -/
theorem enclosed (hk : kind.rows = [kind.children.map (·.span)]) (hs : t.Stands i j start)
    (hr : Row t j k kind.children) (hc : t.Stands k l close) :
    Fits t i l ⟨kind, start.through close⟩ :=
  of_row hk (hs.through (hc.widen hr.le (Nat.le_refl l)))
    (hr.widen hs.within.start_le hc.within.le_stop)

/-- A node from an opening lexeme to the end of its only child. -/
theorem prefixed (hk : kind.rows = [kind.children.map (·.span)]) (hc : kind.children = [n])
    (hs : t.Stands i j start) (hn : n.Fits t j k) : Fits t i k ⟨kind, start.through n.span⟩ := by
  apply of_row hk (hs.through hn.stands)
  rw [hc]
  exact .one (hn.toStop.widen hs.within.start_le (Nat.le_refl _))

/-- A node that covers one lexeme. -/
theorem alone (hk : kind.rows = [kind.children.map (·.span)]) (hc : kind.children = [])
    (hs : t.Stands i j s) : Fits t i j ⟨kind, s⟩ := by
  apply of_row hk hs
  rw [hc]
  exact .nil hs.within.forward

/-- A node may get a span around the one it has. -/
theorem regroup (hs : t.Stands i j start) (hn : n.Fits t j k) (hc : t.Stands k l close) :
    Fits t i l { n with span := start.through close } := by
  have spans := hs.through (hc.widen hn.le (Nat.le_refl l))
  have first := Nat.le_trans hs.within.start_le hn.stands.within.le_start
  have last := Nat.le_trans hn.stands.within.stop_le hc.within.le_stop
  have laid := hn.tidy.self
  refine ⟨spans, .of_children ⟨spans.covers, ?_, laid.sorted, laid.lists⟩
    fun _ hm => hn.tidy.child hm⟩
  exact fun row hr => (laid.rows row hr).widen first last

end Fits

end Node

end TracedScript
