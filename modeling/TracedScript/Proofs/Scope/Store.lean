import TracedScript.Scope

/-!
# The store, step by step

What adding a scope and defining a name change, seen through `bindings`, `parent?` and `local?`;
and what is found on the way up the chain of enclosing scopes.
-/

namespace TracedScript

/-- What is bound after a definition was bound before or is what has been defined. -/
theorem Bindings.forall_set {p : String × Value → Prop} {bs : Bindings} (h : ∀ b ∈ bs, p b)
    {name : String} {v : Value} (hv : p (name, v)) : ∀ b ∈ bs.set name v, p b := by
  induction bs with
  | nil => exact List.forall_mem_cons.mpr ⟨hv, h⟩
  | cons b bs ih =>
    obtain ⟨hb, hbs⟩ := List.forall_mem_cons.mp h
    unfold Bindings.set
    split
    · exact List.forall_mem_cons.mpr ⟨hv, hbs⟩
    · exact List.forall_mem_cons.mpr ⟨hb, ih hbs⟩

namespace Store

@[simp] theorem next_add (s : Store) (parent : Option ScopeId) :
    (s.add parent).next = s.next + 1 := by simp [add, next]

@[simp] theorem bindings_add (s : Store) (parent : Option ScopeId) (id : ScopeId) :
    (s.add parent).bindings id = s.bindings id := by
  unfold bindings add
  rw [Array.getElem?_push]
  by_cases h : id = s.scopes.size
  · rw [if_pos h, h, Array.getElem?_eq_none (Nat.le_refl _)]
  · rw [if_neg h]

theorem parent?_add (s : Store) (parent : Option ScopeId) (id : ScopeId) :
    (s.add parent).parent? id = if id = s.next then parent else s.parent? id := by
  unfold parent? add next
  rw [Array.getElem?_push]
  split <;> rfl

@[simp] theorem next_define (s : Store) (id : ScopeId) (name : String) (v : Value) :
    (s.define id name v).next = s.next := by simp [define, next]

@[simp] theorem parent?_define (s : Store) (id j : ScopeId) (name : String) (v : Value) :
    (s.define id name v).parent? j = s.parent? j := by
  unfold parent? define
  rw [Array.getElem?_modify]
  split
  · cases s.scopes[j]? <;> rfl
  · rfl

theorem bindings_define_of_ne (s : Store) {id j : ScopeId} (h : j ≠ id) (name : String)
    (v : Value) : (s.define id name v).bindings j = s.bindings j := by
  unfold bindings define
  rw [Array.getElem?_modify, if_neg (Ne.symm h)]

theorem bindings_define_self (s : Store) {id : ScopeId} (h : id < s.next) (name : String)
    (v : Value) : (s.define id name v).bindings id = (s.bindings id).set name v := by
  unfold bindings define
  rw [Array.getElem?_modify, if_pos rfl, Array.getElem?_eq_getElem h]
  rfl

/-- A scope that does not exist has no bindings, also after a definition. -/
theorem bindings_of_next_le (s : Store) {id : ScopeId} (h : s.next ≤ id) : s.bindings id = [] := by
  unfold bindings
  rw [Array.getElem?_eq_none h]

theorem parent?_of_next_le (s : Store) {id : ScopeId} (h : s.next ≤ id) : s.parent? id = none := by
  unfold parent?
  rw [Array.getElem?_eq_none h]
  rfl

theorem lt_next_of_local? {s : Store} {id : ScopeId} {name : String} {v : Value}
    (h : s.local? id name = some v) : id < s.next := by
  by_cases hid : id < s.next
  · exact hid
  · rw [local?, bindings_of_next_le s (Nat.le_of_not_lt hid)] at h
    cases h

theorem local?_define (s : Store) {j : ScopeId} (h : j < s.next) (id : ScopeId)
    (name other : String) (v : Value) :
    (s.define id name v).local? j other =
      if j = id ∧ name = other then some v else s.local? j other := by
  unfold local?
  by_cases hj : j = id
  · subst hj
    rw [bindings_define_self s h, Bindings.get?_set]
    simp only [true_and]
  · rw [bindings_define_of_ne s hj, if_neg fun hand => hj hand.1]

@[simp] theorem next_defineAll (s : Store) (id : ScopeId) (names : Bindings) :
    (s.defineAll id names).next = s.next := by
  induction names generalizing s with
  | nil => rfl
  | cons b bs ih => exact (ih _).trans (next_define s id b.1 b.2)

@[simp] theorem parent?_defineAll (s : Store) (id j : ScopeId) (names : Bindings) :
    (s.defineAll id names).parent? j = s.parent? j := by
  induction names generalizing s with
  | nil => rfl
  | cons b bs ih => exact (ih _).trans (parent?_define s id j b.1 b.2)

theorem bindings_defineAll_of_ne (s : Store) {id j : ScopeId} (h : j ≠ id) (names : Bindings) :
    (s.defineAll id names).bindings j = s.bindings j := by
  induction names generalizing s with
  | nil => rfl
  | cons b bs ih => exact (ih _).trans (bindings_define_of_ne s h b.1 b.2)

theorem forall_bindings_define {p : String × Value → Prop} {s : Store} {id j : ScopeId}
    {name : String} {v : Value} (h : ∀ b ∈ s.bindings j, p b) (hv : p (name, v)) :
    ∀ b ∈ (s.define id name v).bindings j, p b := by
  by_cases hne : j = id
  · subst hne
    by_cases hlt : j < s.next
    · rw [bindings_define_self s hlt]
      exact Bindings.forall_set h hv
    · rw [bindings_of_next_le _ (by simpa using hlt)]
      exact List.forall_mem_nil _
  · rwa [bindings_define_of_ne s hne]

theorem forall_bindings_defineAll {p : String × Value → Prop} {s : Store} {id j : ScopeId}
    {bs : Bindings} (h : ∀ b ∈ s.bindings j, p b) (hb : ∀ b ∈ bs, p b) :
    ∀ b ∈ (s.defineAll id bs).bindings j, p b := by
  induction bs generalizing s with
  | nil => exact h
  | cons b bs ih =>
    obtain ⟨hv, hbs⟩ := List.forall_mem_cons.mp hb
    exact ih (forall_bindings_define h hv) hbs

/-- Opening a scope with what it starts with concerns no other scope. -/
theorem local?_opened_of_ne (s : Store) {id : ScopeId} (h : id ≠ s.next) (parent : Option ScopeId)
    (bs : Bindings) (name : String) :
    ((s.add parent).defineAll s.next bs).local? id name = s.local? id name := by
  unfold local?
  rw [bindings_defineAll_of_ne _ h, bindings_add]

theorem parent?_opened_of_ne (s : Store) {id : ScopeId} (h : id ≠ s.next) (parent : Option ScopeId)
    (bs : Bindings) : ((s.add parent).defineAll s.next bs).parent? id = s.parent? id := by
  rw [parent?_defineAll, parent?_add, if_neg h]

/-! ## Up the chain -/

/-- What holds of a scope and passes to enclosing scopes holds of the chain. -/
theorem forall_mem_chain {s : Store} {p : ScopeId → Prop}
    (hp : ∀ id parent, p id → s.parent? id = some parent → p parent) {id : ScopeId} (h : p id) :
    ∀ j ∈ s.chain id, p j := by
  fun_induction chain s id with
  | case1 id parent hparent hlt ih =>
    exact List.forall_mem_cons.mpr ⟨h, ih (hp id parent h hparent)⟩
  | case2 id | case3 id => exact List.forall_mem_singleton.mpr h

theorem le_of_mem_chain {s : Store} {id j : ScopeId} (h : j ∈ s.chain id) : j ≤ id := by
  fun_induction chain s id with
  | case1 id parent hparent hlt ih =>
    obtain rfl | h := List.mem_cons.mp h
    · exact Nat.le_refl _
    · exact Nat.le_trans (ih h) (Nat.le_of_lt hlt)
  | case2 id | case3 id => exact Nat.le_of_eq (List.mem_singleton.mp h)

/-- The nearest binding is the one in the scope that owns the name. -/
theorem local?_owner? {s : Store} {id owner : ScopeId} {name : String}
    (h : s.owner? id name = some owner) : s.local? owner name = s.get? id name := by
  unfold owner? at h
  unfold get?
  revert h
  induction s.chain id with
  | nil => intro h; cases h
  | cons j js ih =>
    intro h
    rw [List.find?_cons] at h
    rw [List.findSome?_cons]
    cases hj : s.local? j name with
    | some v =>
      rw [hj] at h
      cases h
      exact hj
    | none =>
      rw [hj] at h
      exact ih h

theorem owner_mem_chain {s : Store} {id owner : ScopeId} {name : String}
    (h : s.owner? id name = some owner) : owner ∈ s.chain id := List.mem_of_find?_eq_some h

theorem exists_owner? {s : Store} {id : ScopeId} {name : String} {v : Value}
    (h : s.get? id name = some v) : ∃ owner ∈ s.chain id, s.local? owner name = some v := by
  obtain ⟨owner, hm, hv⟩ := List.exists_of_findSome?_eq_some h
  exact ⟨owner, hm, hv⟩

theorem lt_next_of_get? {s : Store} {id : ScopeId} {name : String} {v : Value}
    (h : s.get? id name = some v) : id < s.next := by
  obtain ⟨owner, hm, hv⟩ := exists_owner? h
  by_cases hid : id < s.next
  · exact hid
  · have alone : s.chain id = [id] := by
      rw [chain, parent?_of_next_le s (Nat.le_of_not_lt hid)]
    rw [alone, List.mem_singleton] at hm
    subst hm
    exact lt_next_of_local? hv

/-! ## Growing stores -/

/-- No scope is lost, and each goes on being enclosed by the same one. -/
structure Grows (s t : Store) : Prop where
  next : s.next ≤ t.next
  parent : ∀ id < s.next, t.parent? id = s.parent? id

namespace Grows

variable {s t u : Store}

theorem refl (s : Store) : s.Grows s := ⟨Nat.le_refl _, fun _ _ => rfl⟩

theorem trans (h : s.Grows t) (h' : t.Grows u) : s.Grows u :=
  ⟨Nat.le_trans h.next h'.next, fun id hid =>
    (h'.parent id (Nat.lt_of_lt_of_le hid h.next)).trans (h.parent id hid)⟩

theorem define (s : Store) (id : ScopeId) (name : String) (v : Value) :
    s.Grows (s.define id name v) :=
  ⟨Nat.le_of_eq (next_define s id name v).symm, fun j _ => parent?_define s id j name v⟩

theorem opened (s : Store) (parent : Option ScopeId) (bs : Bindings) :
    s.Grows ((s.add parent).defineAll s.next bs) := by
  refine ⟨?_, fun id hid => parent?_opened_of_ne s (Nat.ne_of_lt hid) parent bs⟩
  rw [next_defineAll, next_add]
  exact Nat.le_succ _

/-- The way up from a scope does not change. -/
theorem chain (h : s.Grows t) {id : ScopeId} (hid : id < s.next) : t.chain id = s.chain id := by
  fun_induction Store.chain s id with
  | case1 id p hp hlt ih =>
    rw [Store.chain, h.parent id hid, hp]
    simp only [hlt, ↓reduceDIte, ih (Nat.lt_trans hlt hid)]
  | case2 id p hp hlt =>
    rw [Store.chain, h.parent id hid, hp]
    simp only [hlt, ↓reduceDIte]
  | case3 id hp =>
    rw [Store.chain, h.parent id hid, hp]

end Grows

end Store

end TracedScript
