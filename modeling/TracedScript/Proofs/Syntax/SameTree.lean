import TracedScript.Proofs.Syntax.Alike

/-!
# The same tree at another place

Two nodes are the same up to spans: of one form all the way down, with the same names, operators and
literals, wherever they stand.
-/

namespace TracedScript.Node

inductive SameTree : Node → Node → Prop where
  /-- The nodes are of one form, with nodes inside that are the same up to spans. -/
  | mk {inside : Node → Node → Prop} {kind kind' : NodeKind} {span span' : Span} :
    (∀ n n', inside n n' → SameTree n n') →
    NodeKind.Alike inside (fun _ _ => True) kind kind' → SameTree ⟨kind, span⟩ ⟨kind', span'⟩

namespace SameTree

theorem of_kind {n n' : Node} (h : NodeKind.Alike SameTree (fun _ _ => True) n.kind n'.kind) :
    SameTree n n' := by
  obtain ⟨kind, span⟩ := n
  obtain ⟨kind', span'⟩ := n'
  exact .mk (fun _ _ => id) h

theorem kind {n n' : Node} (h : SameTree n n') :
    NodeKind.Alike SameTree (fun _ _ => True) n.kind n'.kind := by
  obtain ⟨inside, h⟩ := h
  exact h.mono inside fun _ _ => id

theorem refl (n : Node) : SameTree n n := by
  apply of_kind
  apply NodeKind.Alike.refl
  · exact fun _ => trivial
  · intro c hc
    exact refl c
termination_by sizeOf n
decreasing_by exact Node.sizeOf_child hc

theorem of_eq {n n' : Node} (h : n'.kind = n.kind) : SameTree n n' :=
  of_kind (h ▸ (refl n).kind)

end SameTree

end TracedScript.Node
