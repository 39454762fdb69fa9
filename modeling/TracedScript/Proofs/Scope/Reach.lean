import TracedScript.Proofs.Scope.Reservation

/-!
# Scopes that code can get at

From a scope code gets at the one that encloses it, and by the values bound in it at the scopes of
functions and namespaces. An evaluation leaves all scopes alone that can not be reached like this
from the scope that it runs in, and a call those that can not be reached from the callee or an
argument: main statement `unreachable_scopes_unchanged`.

Which scopes can be reached changes while code runs, as scopes are opened and values are bound. So
the invariant is about the scopes that could be reached at the start, together with all that have
been opened since: these are closed under what code can do, and outside of them nothing changes.
-/

namespace TracedScript

/-- The scope that code gets at by a value with this content. -/
def Data.scope? : Data → Option ScopeId
  | .func f => some f.closure
  | .namespace _ id => some id
  | _ => none

/-- A function or namespace somewhere inside the value, default values of options included, belongs
to the scope. -/
def Value.Mentions (v : Value) (id : ScopeId) : Prop :=
  ∃ w : Value, w.Inside v ∧ w.data.scope? = some id

theorem Value.confined_of_mentions {v : Value} {scope : ScopeId → Prop}
    (h : ∀ id, v.Mentions id → scope id) : v.Confined (fun _ => True) scope := by
  intro w hw
  have own (id : ScopeId) (hd : w.data.scope? = some id) : scope id := h id ⟨w, hw, hd⟩
  cases hd : w.data with
  | func f => exact ⟨fun _ _ => trivial, own f.closure (by rw [hd]; rfl)⟩
  | «namespace» name id => exact own id (by rw [hd]; rfl)
  | _ => trivial

theorem Value.Confined.mentions {v : Value} {code : Node → Prop} {scope : ScopeId → Prop}
    (h : v.Confined code scope) {id : ScopeId} (hv : v.Mentions id) : scope id := by
  obtain ⟨w, hw, hd⟩ := hv
  have allowed := h w hw
  cases hdata : w.data with
  | func f =>
    rw [hdata] at allowed hd
    cases hd
    exact allowed.2
  | «namespace» name id =>
    rw [hdata] at allowed hd
    cases hd
    exact allowed
  | _ =>
    rw [hdata] at hd
    cases hd

namespace Store

/-- Code in the scope `id` can get at the other scope. -/
inductive Reaches (s : Store) (id : ScopeId) : ScopeId → Prop where
  | self : Reaches s id id
  | enclosing {j p : ScopeId} : Reaches s id j → s.parent? j = some p → Reaches s id p
  | held {j k : ScopeId} {b : String × Value} :
    Reaches s id j → b ∈ s.bindings j → b.2.Mentions k → Reaches s id k

/-- Of the scopes of `s` only those that `r` allows are different in `t`. -/
structure ChangesOnly (r : ScopeId → Prop) (s t : Store) : Prop where
  next : s.next ≤ t.next
  same : ∀ id < s.next, ¬ r id → t.scopes[id]? = s.scopes[id]?

/-- Code in one of the scopes gets at these only, and at the built-in names. -/
structure Closed (s : Store) (r : ScopeId → Prop) : Prop where
  enclosing : ∀ id p, r id → s.parent? id = some p → r p ∨ p = Machine.preludeScope
  held : ∀ id, r id → ∀ b ∈ s.bindings id, ∀ k, b.2.Mentions k → r k

theorem bindings_of_same {s t : Store} {id : ScopeId} (h : t.scopes[id]? = s.scopes[id]?) :
    t.bindings id = s.bindings id := by
  unfold bindings
  rw [h]

theorem parent?_of_same {s t : Store} {id : ScopeId} (h : t.scopes[id]? = s.scopes[id]?) :
    t.parent? id = s.parent? id := by
  unfold parent?
  rw [h]

theorem scopes_define_of_ne (s : Store) {id j : ScopeId} (h : j ≠ id) (name : String) (v : Value) :
    (s.define id name v).scopes[j]? = s.scopes[j]? := by
  unfold define
  rw [Array.getElem?_modify, if_neg (Ne.symm h)]

theorem scopes_defineAll_of_ne (s : Store) {id j : ScopeId} (h : j ≠ id) (bs : Bindings) :
    (s.defineAll id bs).scopes[j]? = s.scopes[j]? := by
  induction bs generalizing s with
  | nil => rfl
  | cons b bs ih => exact (ih (s.define id b.1 b.2)).trans (scopes_define_of_ne s h b.1 b.2)

theorem scopes_add_of_lt (s : Store) {id : ScopeId} (h : id < s.next) (parent : Option ScopeId) :
    (s.add parent).scopes[id]? = s.scopes[id]? := by
  have hne : id ≠ s.scopes.size := Nat.ne_of_lt h
  unfold add
  rw [Array.getElem?_push, if_neg hne]

namespace ChangesOnly

variable {r : ScopeId → Prop} {s t : Store}

theorem refl (r : ScopeId → Prop) (s : Store) : ChangesOnly r s s :=
  ⟨Nat.le_refl _, fun _ _ _ => rfl⟩

theorem opened (h : ChangesOnly r s t) (parent : Option ScopeId) (bs : Bindings) :
    ChangesOnly r s ((t.add parent).defineAll t.next bs) := by
  constructor
  · rw [next_defineAll, next_add]
    exact Nat.le_succ_of_le h.next
  · intro id hid hr
    have hlt : id < t.next := Nat.lt_of_lt_of_le hid h.next
    rw [scopes_defineAll_of_ne _ (Nat.ne_of_lt hlt), scopes_add_of_lt t hlt]
    exact h.same id hid hr

theorem define (h : ChangesOnly r s t) {id : ScopeId} (hid : r id ∨ s.next ≤ id) (name : String)
    (v : Value) : ChangesOnly r s (t.define id name v) := by
  constructor
  · rw [next_define]
    exact h.next
  · intro j hj hr
    have hne : j ≠ id := by
      rintro rfl
      obtain hid | hid := hid
      · exact hr hid
      · exact Nat.not_lt_of_le hid hj
    rw [scopes_define_of_ne t hne]
    exact h.same j hj hr

/-- Built-in names that may not change are still there. -/
theorem keepsPrelude (h : ChangesOnly r s t) (hs : s.KeepsPrelude)
    (hr : ¬ r Machine.preludeScope) : t.KeepsPrelude := by
  have same := h.same Machine.preludeScope hs.next hr
  constructor
  · rw [bindings_of_same same]
    exact hs.bindings
  · rw [parent?_of_same same]
    exact hs.parent
  · exact Nat.lt_of_lt_of_le hs.next h.next

end ChangesOnly

/-- The built-in names lead nowhere. -/
theorem Reaches.of_prelude {s : Store} (hs : s.KeepsPrelude) {id : ScopeId}
    (h : s.Reaches Machine.preludeScope id) : id = Machine.preludeScope := by
  induction h with
  | self => rfl
  | enclosing _ hp ih =>
    rw [ih, hs.parent] at hp
    cases hp
  | held _ hb hm ih =>
    rw [ih, hs.bindings] at hb
    have confined : Bindings.Confined (fun _ => True) (fun _ => False) Machine.prelude :=
      Machine.confined_prelude
    exact (Value.Confined.mentions (confined _ hb) hm).elim

theorem closed_reaches (s : Store) {start : ScopeId → Prop} :
    s.Closed fun id => ∃ k, start k ∧ s.Reaches k id := by
  constructor
  · rintro id p ⟨k, hk, hr⟩ hp
    exact .inl ⟨k, hk, hr.enclosing hp⟩
  · rintro id ⟨k, hk, hr⟩ b hb j hj
    exact ⟨k, hk, hr.held hb hj⟩

end Store

/-! ## Runs in closed sets of scopes -/

namespace Invariant

/-- Allows code in the given scopes of `s`, and in all that are opened later. -/
def confining (r : ScopeId → Prop) {s : Store} (hs : s.KeepsPrelude) : Invariant where
  code _ := True
  scope id := (r id ∨ s.next ≤ id) ∨ id = Machine.preludeScope
  frame id := r id ∨ s.next ≤ id
  store t := s.ChangesOnly r t
  exhaustion := True
  code_child _ _ := trivial
  scope_frame := .inl
  frame_next h := .inr h.next
  store_open h _ := h.opened _ _
  store_assign h _ hscope ho hc hr _ := by
    refine h.define ?_ _ _
    by_cases hp : r Machine.preludeScope
    · obtain hin | rfl := hscope
      · exact hin
      · exact .inl hp
    · exact hscope.resolve_right fun heq =>
        (h.keepsPrelude hs hp).ne_owner ho hc hr heq.symm
  store_declare h _ _ hid _ _ := h.define hid _ _

theorem confining_sound {r : ScopeId → Prop} {s : Store} (hs : s.KeepsPrelude) (hr : s.Closed r) :
    (confining r hs).alone.Sound s := by
  constructor
  · rintro id ((hid | hid) | rfl)
    · intro b hb
      exact Value.confined_of_mentions fun k hk => .inl (.inl (hr.held id hid b hb k hk))
    · rw [s.bindings_of_next_le hid]
      exact List.forall_mem_nil _
    · rw [hs.bindings]
      exact Machine.confined_prelude
  · rintro id p ((hid | hid) | rfl) hp
    · obtain hp | hp := hr.enclosing id p hid hp
      · exact .inl (.inl hp)
      · exact .inr hp
    · rw [s.parent?_of_next_le hid] at hp
      cases hp
    · rw [hs.parent] at hp
      cases hp
  · exact .refl r s

variable {r : ScopeId → Prop} {m : Machine}

theorem confining_covers (hs : m.store.KeepsPrelude) (around : Surroundings) :
    (confining r hs).alone.Covers around :=
  ⟨.inr rfl, fun _ _ _ _ _ _ _ _ => trivial⟩

theorem confining_evaluate (hs : m.store.KeepsPrelude) (around : Surroundings) (n : Nat)
    (names : List String) (node : Node) (inLoop : Bool) {stack : CallStack}
    (h : r stack.top.scope ∨ m.store.next ≤ stack.top.scope) :
    ((confining r hs).alone.terms names).Agree (confining r hs).alone.value
      ((confining r hs).alone.stop stack inLoop) (evaluate around n node stack inLoop)
      (evaluate around n node stack inLoop) :=
  agree_alone trivial (fun _ _ _ => confining_covers hs around) n inLoop trivial h

/-- What is known of the state that a run ends in. -/
theorem changesOnly_of_agree (hs : m.store.KeepsPrelude) (hr : m.store.Closed r) {α : Type}
    {p : α → Prop} {q : Stop → Prop} {x : Eval α}
    (h : ((confining r hs).alone.terms m.including).Agree p q x x) :
    m.store.ChangesOnly r (x m).2.store ∧ (x m).2.including = m.including := by
  have fair := fair h ⟨confining_sound hs hr, rfl⟩
  exact ⟨fair.state.1.store, fair.state.2⟩

end Invariant

/-! ## Reachable states -/

/-- A state that some run comes to: between programs, or where the evaluation of a node starts or
ends. -/
inductive Machine.Reachable : Machine → Prop where
  | between {m : Machine} : m.Reached → Reachable m
  | before {m : Machine} {around : Surroundings} {n : Nat} {name text : String} {u : Visit} :
    m.Reached → m.Visits around n name text u → Reachable u.machine
  | after {m : Machine} {around : Surroundings} {n : Nat} {name text : String} {u : Visit} :
    m.Reached → m.Visits around n name text u → Reachable (u.ending around).2

/-- A discipline that holds before all runs and covers everything holds in all states. -/
theorem Discipline.Universal.reachable {D : Discipline} (hD : D.Universal) {m : Machine}
    (h : m.Reachable) : D.Sound m.store := by
  have meets {m : Machine} {around : Surroundings} {n : Nat} {name text : String} {u : Visit}
      (hm : m.Reached) (hu : m.Visits around n name text u) : D.Meets m.store u :=
    hu.meets (hD.covers around) (hD.reached hm) (hD.reads name text)
  cases h with
  | between hm => exact hD.reached hm
  | before hm hu => exact (meets hm hu).sound
  | after hm hu => exact ((meets hm hu).ending (hD.covers _)).sound

theorem Machine.Reachable.prelude {m : Machine} (h : m.Reachable) : m.store.KeepsPrelude :=
  (Discipline.unreserved_universal.reachable h).prelude

/-- A program that has not done anything but open its scope. -/
theorem Machine.Reachable.opened : Machine.Reachable
    { Machine.initial with store := Machine.initial.store.add (some Machine.preludeScope) } := by
  have text : (Source.mk "main" (Text.normalize "1")).hasStatements = true := by decide +kernel
  obtain ⟨c, rest, hp⟩ := exists_of_hasStatements text
  exact .before .initial (Machine.initial.visits_first ⟨.standard, .empty [], none⟩ 9 hp)

/-- The value of the callee or of an argument, positional or named, mentions the scope. -/
def Arguments.Mentions (callee : Value) (args : Arguments) (id : ScopeId) : Prop :=
  callee.Mentions id ∨ (∃ v ∈ args.positional, v.Mentions id) ∨
    ∃ a ∈ args.named, a.value.Mentions id

/-- In every state that a run can come to: whatever node is evaluated in whatever frame, the scopes
that can not be reached from the scope of the frame are the same afterwards. And whatever is called
with whatever arguments, the scopes that can be reached neither from the callee nor from an argument
are the same afterwards, those of the frames on the call stack among them. -/
theorem unreachable_scopes_unchanged {m : Machine} (hm : m.Reachable) (around : Surroundings)
    (n : Nat) (stack : CallStack) (id : ScopeId) (hid : id < m.store.next) :
    (∀ node inLoop, ¬ m.store.Reaches stack.top.scope id →
      (evaluate around n node stack inLoop m).2.store.scopes[id]? = m.store.scopes[id]?) ∧
    ∀ callee args, (∀ k, Arguments.Mentions callee args k → ¬ m.store.Reaches k id) →
      (Eval.call around (evaluate around n) callee args stack m).2.store.scopes[id]? =
        m.store.scopes[id]? := by
  have hs := hm.prelude
  constructor
  · intro node inLoop hr
    let r : ScopeId → Prop := fun j => ∃ k, k = stack.top.scope ∧ m.store.Reaches k j
    have closed : m.store.Closed r := m.store.closed_reaches
    have frame : r stack.top.scope := ⟨stack.top.scope, rfl, .self⟩
    have run := Invariant.confining_evaluate hs around n m.including node inLoop (.inl frame)
    have changes := (Invariant.changesOnly_of_agree hs closed run).1
    apply changes.same id hid
    rintro ⟨k, rfl, hk⟩
    exact hr hk
  · intro callee args hr
    let r : ScopeId → Prop := fun j => ∃ k, Arguments.Mentions callee args k ∧ m.store.Reaches k j
    have closed : m.store.Closed r := m.store.closed_reaches
    let Γ := (Invariant.confining r hs).alone
    have given {v : Value} (h : ∀ k, v.Mentions k → Arguments.Mentions callee args k) :
        Γ.value v :=
      Value.confined_of_mentions fun k hk => .inl (.inl ⟨k, h k hk, .self⟩)
    have run : (Γ.terms m.including).Agree Γ.value (Γ.stop stack false)
        (Eval.call around (evaluate around n) callee args stack)
        (Eval.call around (evaluate around n) callee args stack) := by
      apply Contract.agree_call
      · intro name scope span hscope _ c _
        exact Invariant.confining_evaluate hs around n _ c false hscope
      · exact given fun k hk => .inl hk
      · constructor
        · exact fun v hv => given fun k hk => .inr (.inl ⟨v, hv, hk⟩)
        · exact fun a ha => given fun k hk => .inr (.inr ⟨a, ha, hk⟩)
    have changes := (Invariant.changesOnly_of_agree hs closed run).1
    apply changes.same id hid
    rintro ⟨k, hk, hreach⟩
    exact hr k hk hreach

/-- A call of a function that was made among the built-in names does not touch the scope of the
program that calls it, whatever it declares. -/
theorem caller_scope_unchanged :
    let around : Surroundings := ⟨.standard, .empty [], none⟩
    let m : Machine := { Machine.initial with
      store := Machine.initial.store.add (some Machine.preludeScope) }
    let body : List Node := [⟨.declareNull "x", default⟩]
    let callee : Value := .ofData (.func ⟨0, [], [], none, body, Machine.preludeScope⟩)
    (Eval.call around (evaluate around 9) callee ⟨[], [], default⟩
      (.root "<program>" 1 .program) m).2.store.scopes[1]? = some ⟨[], some 0⟩ := by
  intro around m body callee
  have hm : m.Reachable := .opened
  have unchanged := (unreachable_scopes_unchanged hm around 9 (.root "<program>" 1 .program) 1
    (by decide)).2 callee ⟨[], [], default⟩
  rw [unchanged]
  · rfl
  · rintro k (hc | ⟨v, hv, -⟩ | ⟨a, ha, -⟩) hr
    · have confined : callee.Confined (fun _ => True) (· = Machine.preludeScope) :=
        Value.confined_iff.mpr ⟨⟨fun _ _ => trivial, rfl⟩, List.forall_mem_nil _⟩
      obtain rfl : k = Machine.preludeScope := confined.mentions hc
      cases hr.of_prelude hm.prelude
    · cases hv
    · cases ha

end TracedScript
