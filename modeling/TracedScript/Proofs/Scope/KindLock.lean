import TracedScript.Proofs.Run.Evaluation

/-!
# Kinds of bindings over whole evaluations

As long as nothing that runs binds a name anew, scopes go on binding it to values of the kind that
they bind it to, whatever is done to them. Main statement: `kinds_stay_locked`. The invariant is
`Locked`: it compares all scopes that there are at the start with what has become of them, and says
nothing of scopes that calls open later.
-/

namespace TracedScript

/-- No node inside binds the name anew or includes a module. -/
def Node.Leaves (x : String) (n : Node) : Prop :=
  n.All fun kind => ¬ kind.Declares x ∧ ¬ kind.IsInclude

namespace Store

/-- The value stands in a binding, or somewhere inside a value that does. -/
def Holds (s : Store) (v : Value) : Prop := ∃ id, ∃ b ∈ s.bindings id, v.Inside b.2

/-- Looking up a name gives a value of the same kind as before, or of any kind if it was null;
where there was none, there is none. -/
def KindKept (before now : Option Value) : Prop :=
  match before, now with
  | none, none => True
  | some v, some w => v.kind ≠ .null → w.kind = v.kind
  | _, _ => False

theorem KindKept.refl (v : Option Value) : KindKept v v := by
  cases v with
  | none => trivial
  | some v => exact fun _ => rfl

theorem KindKept.exists {v : Value} {now : Option Value} (h : KindKept (some v) now)
    (hk : v.kind ≠ .null) : ∃ w, now = some w ∧ w.kind = v.kind := by
  cases now with
  | none => exact h.elim
  | some w => exact ⟨w, rfl, h hk⟩

/-- An assignment that is not refused keeps what the binding has kept. -/
theorem KindKept.assigned {before : Option Value} {name : String} {current v : Value} {span : Span}
    (h : KindKept before (some current)) (hr : Eval.refusal? name current v span = none) :
    KindKept before (some (v.named name)) := by
  cases before with
  | none => exact h.elim
  | some w =>
    intro hw
    have hc : current.kind = w.kind := h hw
    unfold Eval.refusal? at hr
    split at hr
    · cases hr
    · split at hr
      · cases hr
      · rename_i hkind
        by_cases hv : current.kind = v.kind
        · exact hv.symm.trans hc
        · exact absurd ⟨hc ▸ hw, hv⟩ hkind

/-- Every scope of the first store still has its parent, and still binds the name as it did. -/
structure Locked (x : String) (s₀ s : Store) : Prop where
  next : s₀.next ≤ s.next
  parent : ∀ id < s₀.next, s.parent? id = s₀.parent? id
  binding : ∀ id < s₀.next, KindKept (s₀.local? id x) (s.local? id x)

namespace Locked

variable {x : String} {s₀ s : Store}

theorem refl (x : String) (s : Store) : Locked x s s :=
  ⟨Nat.le_refl _, fun _ _ => rfl, fun _ _ => .refl _⟩

/-- Opening a scope with what it starts with concerns no other scope. -/
theorem opened (h : Locked x s₀ s) (parent : Option ScopeId) (bs : Bindings) :
    Locked x s₀ ((s.add parent).defineAll s.next bs) := by
  refine ⟨?_, fun id hid => ?_, fun id hid => ?_⟩
  · rw [next_defineAll, next_add]
    exact Nat.le_succ_of_le h.next
  · have hne : id ≠ s.next := Nat.ne_of_lt (Nat.lt_of_lt_of_le hid h.next)
    rw [parent?_opened_of_ne s hne]
    exact h.parent id hid
  · have hne : id ≠ s.next := Nat.ne_of_lt (Nat.lt_of_lt_of_le hid h.next)
    rw [local?_opened_of_ne s hne]
    exact h.binding id hid

/-- Defining a name, if that is the name in question then in place of what may give way to it. -/
theorem define (h : Locked x s₀ s) {id : ScopeId} {name : String} {v : Value}
    (hv : name = x → ∀ before, KindKept before (s.local? id x) → KindKept before (some v)) :
    Locked x s₀ (s.define id name v) := by
  refine ⟨?_, fun j hj => ?_, fun j hj => ?_⟩
  · rw [next_define]
    exact h.next
  · rw [parent?_define]
    exact h.parent j hj
  · have hlt : j < s.next := Nat.lt_of_lt_of_le hj h.next
    rw [local?_define s hlt]
    split
    · rename_i hand
      obtain ⟨rfl, hname⟩ := hand
      exact hv hname _ (h.binding j hj)
    · exact h.binding j hj

theorem grows (h : Locked x s₀ s) : s₀.Grows s := ⟨h.next, h.parent⟩

/-- The nearest binding is in the same scope as before. -/
theorem get? (h : Locked x s₀ s) {id : ScopeId} (hid : id < s₀.next) :
    KindKept (s₀.get? id x) (s.get? id x) := by
  unfold Store.get?
  rw [h.grows.chain hid]
  have older : ∀ j ∈ s₀.chain id, j < s₀.next := fun j hj =>
    Nat.lt_of_le_of_lt (le_of_mem_chain hj) hid
  generalize s₀.chain id = scopes at older
  induction scopes with
  | nil => trivial
  | cons j js ih =>
    obtain ⟨hj, hjs⟩ := List.forall_mem_cons.mp older
    have kept := h.binding j hj
    rw [List.findSome?_cons, List.findSome?_cons]
    cases hbefore : s₀.local? j x with
    | none =>
      rw [hbefore] at kept
      cases hnow : s.local? j x with
      | none => exact ih hjs
      | some w =>
        rw [hnow] at kept
        exact kept.elim
    | some v =>
      rw [hbefore] at kept
      cases hnow : s.local? j x with
      | none =>
        rw [hnow] at kept
        exact kept.elim
      | some w =>
        rw [hnow] at kept
        exact kept

end Locked

end Store

namespace Invariant

/-- Allows code that leaves a name alone, in stores that have kept it locked since `s₀`. -/
def locked (x : String) (s₀ : Store) : Invariant where
  code n := n.Leaves x
  scope _ := True
  frame _ := True
  store s := s₀.Locked x s
  exhaustion := True
  code_child h hc := h.child hc
  scope_frame _ := trivial
  frame_next _ := trivial
  store_open h _ := h.opened _ _
  store_assign h _ _ ho hc hr _ := by
    refine h.define fun hname before kept => ?_
    subst hname
    rw [Store.local?_owner? ho, hc] at kept
    exact kept.assigned hr
  store_declare h hn hd _ _ _ := by
    obtain ⟨hdeclares, hinclude⟩ := hn.self
    refine h.define fun hname => ?_
    subst hname
    exact absurd hd (not_or.mpr ⟨hdeclares, hinclude⟩)

theorem locked_sound {x : String} {s : Store}
    (h : ∀ v f, s.Holds v → v.data = .func f → ∀ c ∈ f.body, c.Leaves x) :
    (locked x s).alone.Sound s := by
  refine ⟨fun id _ b hb w hw => ?_, fun _ _ _ _ => trivial, .refl x s⟩
  unfold Data.Allowed
  split
  · rename_i f hf
    exact ⟨h w f ⟨id, b, hb, hw⟩ hf, trivial⟩
  · trivial
  · trivial

end Invariant

/-- What an evaluation does not bind anew stays locked in all scopes that there were. -/
theorem locked_evaluate (around : Surroundings) (n : Nat) {node : Node} (stack : CallStack)
    (inLoop : Bool) {m : Machine} {x : String} (hn : node.Leaves x)
    (hf : ∀ v f, m.store.Holds v → v.data = .func f → ∀ c ∈ f.body, c.Leaves x) :
    m.store.Locked x (evaluate around n node stack inLoop m).2.store := by
  have covers : ∀ d, (Invariant.locked x m.store).code d → d.kind.IsInclude →
      (Invariant.locked x m.store).alone.Covers around := by
    intro d hd hi
    have leaves : d.Leaves x := hd
    exact absurd hi leaves.self.2
  have agree : ((Invariant.locked x m.store).alone.terms m.including).Agree _ _
      (evaluate around n node stack inLoop) (evaluate around n node stack inLoop) :=
    Invariant.agree_alone trivial covers n inLoop hn trivial
  have fair := Invariant.fair agree ⟨Invariant.locked_sound hf, rfl⟩
  exact fair.state.1.store

/-- Let a name be bound anew neither in a node nor in the body of any function held in the store,
and no module be included there. Whatever the evaluation of the node does and however it ends, every
scope then binds the name to a value of the kind that it was bound to, null apart; and the same goes
for what is found when the name is looked up from a scope. -/
theorem kinds_stay_locked (around : Surroundings) (n : Nat) (node : Node) (stack : CallStack)
    (inLoop : Bool) (m : Machine) (x : String) (hn : node.Leaves x)
    (hf : ∀ v f, m.store.Holds v → v.data = .func f → ∀ c ∈ f.body, c.Leaves x)
    (scope : ScopeId) (v : Value) (hk : v.kind ≠ .null) :
    (m.store.local? scope x = some v →
      ∃ w, (evaluate around n node stack inLoop m).2.store.local? scope x = some w ∧
        w.kind = v.kind) ∧
    (m.store.get? scope x = some v →
      ∃ w, (evaluate around n node stack inLoop m).2.store.get? scope x = some w ∧
        w.kind = v.kind) := by
  have locked := locked_evaluate around n stack inLoop hn hf
  constructor
  · intro hv
    have kept := locked.binding scope (Store.lt_next_of_local? hv)
    rw [hv] at kept
    exact kept.exists hk
  · intro hv
    have kept := locked.get? (Store.lt_next_of_get? hv)
    rw [hv] at kept
    exact kept.exists hk

/-- A scope that binds `a` to 1 and `f` to a function that assigns a text to `a`. -/
def lockedMachine : Machine :=
  let body : List Node := [⟨.assign "a" ⟨.str "b", default⟩, default⟩]
  ⟨⟨#[⟨[("a", .int 1), ("f", .ofData (.func ⟨0, [], [], none, body, 0⟩))], none⟩]⟩, #[], [], 1⟩

/-- Calling `f` can not make a text of `a`. -/
theorem int_stays_int :
    ∃ w, (evaluate ⟨.standard, .empty [], none⟩ 9
      ⟨.call ⟨.read "f", default⟩ [⟨[], [], default⟩], default⟩ (.root "<program>" 0 .program) false
      lockedMachine).2.store.local? 0 "a" = some w ∧ w.kind = .int := by
  have leaf {kind : NodeKind} (hk : ¬ kind.Declares "a" ∧ ¬ kind.IsInclude)
      (hc : kind.children = []) : Node.Leaves "a" ⟨kind, default⟩ := by
    refine Node.All.of_children hk fun c hm => ?_
    rw [Node.children, hc] at hm
    cases hm
  have assignment : Node.Leaves "a" ⟨.assign "a" ⟨.str "b", default⟩, default⟩ := by
    refine Node.All.of_children ⟨id, id⟩ fun c hm => ?_
    obtain rfl := List.mem_singleton.mp hm
    exact leaf ⟨id, id⟩ rfl
  refine (kinds_stay_locked _ 9 _ _ false lockedMachine "a" ?_ ?_ 0 (.int 1) ?_).1 rfl
  · refine Node.All.of_children ⟨id, id⟩ fun c hm => ?_
    obtain rfl := List.mem_singleton.mp hm
    exact leaf ⟨id, id⟩ rfl
  · rintro v f ⟨scope, b, hb, hv⟩ hd
    cases scope with
    | zero =>
      obtain rfl | hb := List.mem_cons.mp hb
      · cases hv with
        | refl => cases hd
        | part hu _ => cases hu
      · obtain rfl := List.mem_singleton.mp hb
        cases hv with
        | refl =>
          cases hd
          exact List.forall_mem_singleton.mpr assignment
        | part hu _ => cases hu
    | succ k =>
      rw [Store.bindings_of_next_le _ (Nat.succ_le_succ (Nat.zero_le k))] at hb
      cases hb
  · decide

end TracedScript
