import TracedScript.Proofs.Run.Obedience

/-!
# Only the built-in names are reserved

The mark of a reserved value stays with the bindings of the built-in names. It is lost when a value
is read, and nothing else makes it, so no evaluation gives a value with it, not even inside a
collection, and no other scope holds one. Main statement: `reservation_never_leaks`.
-/

namespace TracedScript

/-- Neither the value nor any value inside it is reserved. -/
def Value.Unreserved (v : Value) : Prop := v.Throughout fun w => w.isReserved = false

namespace Store

/-- The built-in names are as they were at first, and nothing else is reserved. -/
structure Ordinary (s : Store) : Prop where
  prelude : s.bindings Machine.preludeScope = Machine.prelude
  unreserved : ∀ id, Machine.preludeScope ≠ id → ∀ b ∈ s.bindings id, b.2.Unreserved

/-- The nearest binding is that in the scope itself, if there is one. -/
theorem get?_of_local? {s : Store} {id : ScopeId} {name : String} {v : Value}
    (h : s.local? id name = some v) : s.get? id name = some v := by
  have first : ∃ outer, s.chain id = id :: outer := by
    rw [chain]
    split
    · split
      · exact ⟨_, rfl⟩
      · exact ⟨[], rfl⟩
    · exact ⟨[], rfl⟩
  obtain ⟨outer, hchain⟩ := first
  rw [get?, hchain, List.findSome?_cons, h]

theorem owner?_of_get? {s : Store} {id : ScopeId} {name : String} {v : Value}
    (h : s.get? id name = some v) : ∃ owner, s.owner? id name = some owner := by
  obtain ⟨owner, hm, hv⟩ := exists_owner? h
  refine Option.isSome_iff_exists.mp (List.find?_isSome.mpr ⟨owner, hm, ?_⟩)
  rw [hv]
  rfl

/-- What holds of all bindings of all scopes but that of the built-in names goes on doing so where
such a scope gets another one, or a new scope is opened. -/
theorem elsewhere_define {p : Value → Prop} {s : Store}
    (h : ∀ id, Machine.preludeScope ≠ id → ∀ b ∈ s.bindings id, p b.2) {id : ScopeId}
    {name : String} {v : Value} (hv : p v) :
    ∀ j, Machine.preludeScope ≠ j → ∀ b ∈ (s.define id name v).bindings j, p b.2 :=
  fun j hj => forall_bindings_define (p := fun b => p b.2) (h j hj) hv

theorem elsewhere_opened {p : Value → Prop} {s : Store}
    (h : ∀ id, Machine.preludeScope ≠ id → ∀ b ∈ s.bindings id, p b.2) (parent : Option ScopeId)
    {bs : Bindings} (hb : ∀ b ∈ bs, p b.2) :
    ∀ j, Machine.preludeScope ≠ j →
      ∀ b ∈ ((s.add parent).defineAll s.next bs).bindings j, p b.2 := by
  intro j hj
  refine forall_bindings_defineAll (p := fun b => p b.2) ?_ hb
  rw [bindings_add]
  exact h j hj

end Store

theorem Value.modest_unreserved : Value.Modest fun v => v.isReserved = false where
  moved hv _ hr _ := by
    cases hw : Value.isReserved _ with
    | false => rfl
    | true => exact absurd (hr hw) (Bool.eq_false_iff.mp hv)
  plain _ _ := rfl

namespace Discipline

/-- Allows whatever is not reserved, everywhere but in the scope of the built-in names. -/
def unreserved : Discipline where
  code _ := True
  scope _ := True
  frame s id := Machine.preludeScope ≠ id ∧ id < s.next
  allows _ v := v.isReserved = false
  store s := ∀ id, Machine.preludeScope ≠ id → ∀ b ∈ s.bindings id, b.2.Unreserved
  code_child _ _ := trivial
  scope_prelude := trivial
  scope_frame _ := trivial
  frame_ne h := h.1
  frame_grows hst h := ⟨h.1, Nat.lt_of_lt_of_le h.2 hst.next⟩
  modest _ := Value.modest_unreserved
  allows_grows _ h := h
  allows_namespace _ := rfl
  scope_namespace _ _ := trivial
  allows_function _ _ _ _ _ _ := rfl
  body _ _ := ⟨fun _ _ => trivial, trivial⟩
  store_top h hp := ⟨Store.elsewhere_opened h (some Machine.preludeScope) (List.forall_mem_nil _),
    hp.opened_ne _ []⟩
  store_call h hp _ _ _ hb := ⟨Store.elsewhere_opened h _ hb, hp.opened_ne _ _⟩
  store_native h hb :=
    ⟨Store.elsewhere_opened h none (Value.modest_unreserved.native hb), rfl⟩
  store_assign h _ _ _ _ _ hv := Store.elsewhere_define h (Value.modest_unreserved.named hv _)
  store_declare h _ _ _ hv := Store.elsewhere_define h (Value.modest_unreserved.named hv _)

variable {m : Machine} {around : Surroundings} {n : Nat} {name text : String}

theorem unreserved_covers : unreserved.Covers around := fun _ _ _ _ _ _ _ _ => trivial

theorem unreserved_reads : unreserved.Reads name text := fun _ _ _ _ => trivial

theorem Sound.ordinary {s : Store} (h : unreserved.Sound s) : s.Ordinary :=
  ⟨h.prelude.bindings, h.store⟩

theorem unreserved_initial : unreserved.Sound Machine.initial.store := by
  refine .initial fun id hid => ?_
  rw [Machine.bindings_initial hid]
  exact List.forall_mem_nil _

theorem unreserved_universal : unreserved.Universal :=
  ⟨unreserved_initial, fun _ => unreserved_covers, fun _ _ => unreserved_reads⟩

theorem unreserved_reached (h : m.Reached) : unreserved.Sound m.store :=
  unreserved_universal.reached h

end Discipline

/-! ## Ordinary variables -/

/-- The variable takes another value of its kind, and can be declared anew with any value. -/
def Machine.Rebinds (m : Machine) (stack : CallStack) (x : String) (kind : Kind) : Prop :=
  ∀ v span, (v.kind = kind → (Eval.assign x v stack span m).1 = .ok v) ∧
    (Eval.declare x v stack span m).1 = .ok v

theorem Machine.rebinds_of_get? {m : Machine} {stack : CallStack} {x : String} {current : Value}
    (h : m.store.get? stack.top.scope x = some current) (hr : current.isReserved = false) :
    m.Rebinds stack x current.kind := by
  intro v span
  constructor
  · intro hk
    obtain ⟨owner, ho⟩ := Store.owner?_of_get? h
    have taken : Eval.refusal? x current v span = none := by
      unfold Eval.refusal?
      rw [hr, hk]
      simp
    rw [Eval.assign_apply, ho, h]
    dsimp only
    rw [taken]
  · rw [Eval.declare_apply, h, Option.any_some, hr]
    rfl

/-- A visit that declares a variable evaluates the value first and then defines the name in the
scope of its frame. -/
theorem declared_of_ending {around : Surroundings} {u : Visit} {x : String} {value : Node}
    {v : Value} (hk : u.node.kind = .declare x value) (hv : (u.ending around).1 = .ok v) :
    ∃ n m, evaluate around n value u.stack u.inLoop u.machine = (.ok v, m) ∧
      (u.ending around).2 =
        { m with store := m.store.define u.stack.top.scope x (v.named x) } := by
  obtain ⟨node, stack, inLoop, m, n⟩ := u
  cases n with
  | zero => cases hv
  | succ n =>
    have steps : (⟨node, stack, inLoop, m, n + 1⟩ : Visit).ending around =
        Eval.completed stack node.span (evaluate around n value stack inLoop >>= fun w =>
          Eval.declare x w stack node.span) m := by
      rw [Visit.ending, Visit.under, evaluate, Eval.construct]
      dsimp only at hk ⊢
      rw [hk]
    rw [steps, Eval.completed, Eval.adapt_apply, Eval.bind_apply] at hv ⊢
    refine ⟨n, ?_⟩
    dsimp only at hv ⊢
    generalize evaluate around n value stack inLoop m = ending at hv ⊢
    obtain ⟨r, m'⟩ := ending
    cases r with
    | error stop => cases hv
    | ok w =>
      rw [Ending.next, Eval.declare_apply] at hv ⊢
      split at hv
      · cases hv
      · rename_i hr
        cases hv
        rw [if_neg hr]
        exact ⟨m', rfl, rfl⟩

/-- A variable that has been declared in a visit can be bound to other values. -/
theorem rebinds_of_declared {around : Surroundings} {s : Store} {u : Visit} {x : String}
    {value : Node} {v : Value} (hu : Discipline.unreserved.Meets s u)
    (hk : u.node.kind = .declare x value) (hv : (u.ending around).1 = .ok v) :
    (u.ending around).2.Rebinds u.stack x v.kind := by
  obtain ⟨n, m, hvalue, hend⟩ := declared_of_ending hk hv
  have inner : Discipline.unreserved.KeepsFrom u.machine Discipline.unreserved.value
      (evaluate around n value u.stack u.inLoop) :=
    Discipline.obeys_evaluate Discipline.unreserved_covers n u.machine.store value u.stack u.inLoop
      (.refl _) trivial hu.standing u.machine (.refl _) hu.sound
  rw [Discipline.KeepsFrom, hvalue] at inner
  have room : u.stack.top.scope < m.store.next :=
    Nat.lt_of_lt_of_le hu.standing.top.2 inner.grows.next
  have found : (u.ending around).2.store.local? u.stack.top.scope x = some (v.named x) := by
    rw [hend, Store.local?_define _ room, if_pos ⟨rfl, rfl⟩]
  have held : (v.named x).isReserved = false := (inner.value v rfl).self
  have rebinds := Machine.rebinds_of_get? (Store.get?_of_local? found) held
  exact rebinds

/-- In every visit of every run that can be made, the built-in names are as they were at first and
no other binding is reserved, nor is any value inside one; the same holds after the visit and after
the run, and of the values that they give. So a variable that a program declares, also as a copy of
a built-in name, can be assigned to and declared anew like any other. -/
theorem reservation_never_leaks {m : Machine} (hm : m.Reached) (around : Surroundings) (n : Nat)
    (name text : String) :
    (∀ u, m.Visits around n name text u →
      u.machine.store.Ordinary ∧ (u.ending around).2.store.Ordinary ∧
      (∀ v, (u.ending around).1 = .ok v → v.Unreserved) ∧
      (∀ v span, (u.ending around).1 = .error (.returned v span) → v.Unreserved) ∧
      ∀ x value v, u.node.kind = .declare x value → (u.ending around).1 = .ok v →
        (u.ending around).2.Rebinds u.stack x v.kind) ∧
    (m.run around n name text).2.store.Ordinary ∧
    ∀ vs, (m.run around n name text).1 = .ok vs → ∀ v ∈ vs, v.Unreserved := by
  have sound := Discipline.unreserved_reached hm
  refine ⟨fun u hu => ?_, ?_⟩
  · have meets := hu.meets Discipline.unreserved_covers sound Discipline.unreserved_reads
    have outcome : Discipline.unreserved.Outcome u.machine.store _ (u.ending around) :=
      meets.ending Discipline.unreserved_covers
    exact ⟨meets.sound.ordinary, outcome.sound.ordinary, outcome.value, outcome.returned,
      fun x value v hk hv => rebinds_of_declared meets hk hv⟩
  · have after : Discipline.unreserved.After m (m.run around n name text) :=
      Discipline.after_run sound Discipline.unreserved_covers n Discipline.unreserved_reads
    exact ⟨after.sound.ordinary, after.values⟩

/-- The run has ended with a single value, which is a truth value. -/
def givesTruth : Except ProgramError (List Value) × Machine → Bool
  | (.ok [v], _) => v.kind = .bool
  | _ => false

/-- A copy of `True` is not reserved. -/
theorem copy_of_true_unreserved :
    ∃ v m, Machine.initial.run ⟨.standard, .empty [], none⟩ 9 "main" "var x = True" = (.ok [v], m) ∧
      v.kind = .bool ∧ v.Unreserved ∧ m.store.Ordinary := by
  have gives : givesTruth
      (Machine.initial.run ⟨.standard, .empty [], none⟩ 9 "main" "var x = True") = true := by
    decide +kernel
  obtain ⟨after, values⟩ :=
    (reservation_never_leaks .initial ⟨.standard, .empty [], none⟩ 9 "main" "var x = True").2
  rcases hr : Machine.initial.run ⟨.standard, .empty [], none⟩ 9 "main" "var x = True" with ⟨r, m⟩
  rw [hr] at gives after values
  unfold givesTruth at gives
  split at gives
  · rename_i v m' heq
    cases heq
    exact ⟨v, m, rfl, of_decide_eq_true gives, values [v] rfl v (List.mem_singleton_self v), after⟩
  · cases gives

end TracedScript
