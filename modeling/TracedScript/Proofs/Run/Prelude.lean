import TracedScript.Proofs.Run.Evaluation

/-!
# The built-in names stay as they are

No program binds or assigns to a built-in name in the scope that holds them: the frames that code
runs in have other scopes, and every binding there is reserved. So between the runs of programs the
built-in names are those that there were at first. Main statement: `Reached.prelude`.
-/

namespace TracedScript

namespace Machine

/-- A state before, between or after runs of programs. -/
inductive Reached : Machine → Prop where
  | initial : Reached .initial
  | run {m : Machine} (around : Surroundings) (allowance : Nat) (name text : String) :
    Reached m → Reached (m.run around allowance name text).2

theorem isReserved_of_mem_prelude : ∀ b ∈ prelude, b.2.isReserved = true := by decide

/-- A built-in name is bound to a value that has been nowhere and has none inside. -/
theorem exists_made_of_mem_prelude {b : String × Value} (hb : b ∈ prelude) :
    ∃ v : Value, v.Made ∧ b = reserved b.1 v := by
  obtain hb | hb := List.mem_append.mp hb
  · simp only [List.mem_cons, List.not_mem_nil, or_false] at hb
    obtain rfl | rfl | rfl := hb
    · exact ⟨_, Value.made_null, rfl⟩
    · exact ⟨_, Value.made_bool true, rfl⟩
    · exact ⟨_, Value.made_bool false, rfl⟩
  · obtain ⟨f, -, rfl⟩ := List.mem_map.mp hb
    exact ⟨_, Value.made_builtin f, rfl⟩

/-- Where it is read, the value is not reserved any more. -/
theorem modest_relocate_prelude {p : Value → Prop} (hp : Value.Modest p) {b : String × Value}
    (hb : b ∈ prelude) (span : Span) (owner : String) :
    (b.2.relocate span owner).Throughout p := by
  obtain ⟨v, hv, whole⟩ := exists_made_of_mem_prelude hb
  rw [whole]
  exact hp.changed (hp.made hv) rfl (fun hr => by cases hr) fun ho =>
    Value.Recent.relocate ho span owner

/-- The built-in names hold no function of a program. -/
theorem confined_prelude {code : Node → Prop} {scope : ScopeId → Prop} :
    Bindings.Confined code scope prelude := fun _ hb =>
  Value.confined_of_data (modest_relocate_prelude Value.modest_allowed hb default "") rfl

end Machine

/-- What can be assigned to is not reserved. -/
theorem Eval.unreserved_of_not_refused {name : String} {current v : Value} {span : Span}
    (h : refusal? name current v span = none) : current.isReserved = false := by
  unfold refusal? at h
  split at h
  · cases h
  · rename_i hr
    exact Bool.eq_false_iff.mpr hr

/-- The scope of the built-in names is there, is as it was at first and has none around it. -/
structure Store.KeepsPrelude (s : Store) : Prop where
  bindings : s.bindings Machine.preludeScope = Machine.prelude
  parent : s.parent? Machine.preludeScope = none
  next : Machine.preludeScope < s.next

namespace Store.KeepsPrelude

variable {s : Store}

theorem define (h : s.KeepsPrelude) {id : ScopeId} (hid : Machine.preludeScope ≠ id) (name : String)
    (v : Value) : (s.define id name v).KeepsPrelude := by
  refine ⟨?_, ?_, ?_⟩
  · rw [bindings_define_of_ne s hid]
    exact h.bindings
  · rw [parent?_define]
    exact h.parent
  · rw [next_define]
    exact h.next

theorem opened (h : s.KeepsPrelude) (parent : Option ScopeId) (bs : Bindings) :
    ((s.add parent).defineAll s.next bs).KeepsPrelude := by
  have hne : Machine.preludeScope ≠ s.next := Nat.ne_of_lt h.next
  refine ⟨?_, ?_, ?_⟩
  · rw [bindings_defineAll_of_ne _ hne, bindings_add]
    exact h.bindings
  · rw [parent?_opened_of_ne s hne]
    exact h.parent
  · rw [next_defineAll, next_add]
    exact Nat.lt_succ_of_lt h.next

/-- A scope that is opened is another one, and there is one more then. -/
theorem opened_ne (h : s.KeepsPrelude) (parent : Option ScopeId) (bs : Bindings) :
    Machine.preludeScope ≠ s.next ∧ s.next < ((s.add parent).defineAll s.next bs).next := by
  refine ⟨Nat.ne_of_lt h.next, ?_⟩
  rw [next_defineAll, next_add]
  exact Nat.lt_succ_self _

/-- What can be assigned to is not in the scope of the built-in names. -/
theorem ne_owner (h : s.KeepsPrelude) {id owner : ScopeId} {name : String} {current v : Value}
    {span : Span} (ho : s.owner? id name = some owner) (hc : s.get? id name = some current)
    (hr : Eval.refusal? name current v span = none) : Machine.preludeScope ≠ owner := by
  rintro rfl
  rw [← local?_owner? ho, local?, h.bindings] at hc
  obtain ⟨b, hb, rfl⟩ := Bindings.exists_mem_of_get? hc
  have free := Eval.unreserved_of_not_refused hr
  rw [Machine.isReserved_of_mem_prelude b hb] at free
  cases free

end Store.KeepsPrelude

namespace Invariant

/-- Allows everything in stores that keep the built-in names, but no code runs in their scope. -/
def keepingPrelude : Invariant where
  code _ := True
  scope _ := True
  frame id := Machine.preludeScope ≠ id
  store s := s.KeepsPrelude
  exhaustion := True
  code_child _ _ := trivial
  scope_frame _ := trivial
  frame_next h := Nat.ne_of_lt h.next
  store_open h _ := h.opened _ _
  store_assign h _ _ ho hc hr _ := h.define (h.ne_owner ho hc hr) _ _
  store_declare h _ _ hid _ _ := h.define hid _ _

theorem keepingPrelude_sound {s : Store} (h : s.KeepsPrelude) : keepingPrelude.alone.Sound s :=
  ⟨fun _ _ b _ => Contract.lenient_value (P := .never) b.2, fun _ _ _ _ => trivial, h⟩

end Invariant

namespace Machine

theorem keepsPrelude_initial : initial.store.KeepsPrelude := by
  refine ⟨?_, ?_, ?_⟩
  · rfl
  · unfold initial
    rw [Store.parent?_defineAll]
    rfl
  · unfold initial
    rw [Store.next_defineAll]
    exact Nat.zero_lt_one

/-- The built-in names are all that there is at first. -/
theorem bindings_initial {id : ScopeId} (h : preludeScope ≠ id) :
    initial.store.bindings id = [] := by
  apply Store.bindings_of_next_le
  have one : initial.store.next = 1 := by
    unfold initial
    rw [Store.next_defineAll]
    rfl
  rw [one]
  exact Nat.pos_of_ne_zero (Ne.symm h)

theorem parent?_initial (id : ScopeId) : initial.store.parent? id = none := by
  unfold initial
  rw [Store.parent?_defineAll]
  cases id <;> rfl

theorem keepsPrelude_run {m : Machine} (h : m.store.KeepsPrelude) (around : Surroundings) (n : Nat)
    (name text : String) : (m.run around n name text).2.store.KeepsPrelude := by
  have covers : Invariant.keepingPrelude.alone.Covers around :=
    ⟨trivial, fun _ _ _ _ _ _ _ _ => trivial⟩
  have sound := m.sound_run around trivial covers n name text (fun _ _ _ _ => trivial)
    (Invariant.keepingPrelude_sound h)
  exact sound.store

/-- Between runs the built-in names are there and as they were at first. -/
theorem Reached.prelude {m : Machine} (h : m.Reached) : m.store.KeepsPrelude := by
  induction h with
  | initial => exact keepsPrelude_initial
  | run around allowance name text _ ih => exact keepsPrelude_run ih around allowance name text

end Machine

end TracedScript
