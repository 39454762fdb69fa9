import TracedScript.Proofs.Scope.Reach

/-!
# Lookups and the scopes that own names

In every state that a run can come to, each scope is enclosed by one that was made before it, so the
way up from a scope leads along its enclosing scopes and ends. On this way the nearest binding of a
name is found and its owner. What an assignment or a declaration changes of all lookups from all
scopes can then be told from the ways up alone: `writes_change_lookups_of_one_name`.
-/

namespace TracedScript

namespace Store

/-- Each scope is enclosed by one that was made before it. -/
def Layered (s : Store) : Prop := ∀ id p, s.parent? id = some p → p < id

/-- From the scope upwards there are just these scopes. -/
inductive Climbs (s : Store) : ScopeId → List ScopeId → Prop where
  | top {id : ScopeId} : s.parent? id = none → Climbs s id [id]
  | up {id p : ScopeId} {outer : List ScopeId} :
    s.parent? id = some p → Climbs s p outer → Climbs s id (id :: outer)

/-- The way up from a scope comes to another one, with no binding of the name before. -/
inductive Leads (s : Store) (name : String) : ScopeId → ScopeId → Prop where
  | here (id : ScopeId) : Leads s name id id
  | up {id p last : ScopeId} :
    s.local? id name = none → s.parent? id = some p → Leads s name p last → Leads s name id last

/-- The lookups of the name from some scopes give the value afterwards, and all others what they
gave before. -/
structure Updates (s t : Store) (name : String) (v : Value) (seen : ScopeId → Prop) : Prop where
  new : ∀ id, seen id → t.get? id name = some v
  old : ∀ id other, ¬ (other = name ∧ seen id) → t.get? id other = s.get? id other

variable {s : Store}

namespace Layered

theorem define (h : s.Layered) (id : ScopeId) (name : String) (v : Value) :
    (s.define id name v).Layered := by
  intro j p hp
  rw [parent?_define] at hp
  exact h j p hp

theorem opened (h : s.Layered) (parent : Option ScopeId) (hp : ∀ p ∈ parent, p < s.next)
    (bs : Bindings) : ((s.add parent).defineAll s.next bs).Layered := by
  intro j p hj
  rw [parent?_defineAll, parent?_add] at hj
  split at hj
  · rename_i heq
    rw [heq]
    exact hp p hj
  · exact h j p hj

/-- What holds of a scope if it holds of the enclosing one holds of all. -/
theorem induct (h : s.Layered) {p : ScopeId → Prop}
    (step : ∀ id, (∀ outer, s.parent? id = some outer → p outer) → p id) (id : ScopeId) : p id := by
  induction id using Nat.strongRecOn with
  | ind id ih => exact step id fun outer ho => ih outer (h id outer ho)

variable (h : s.Layered) (id : ScopeId) (name : String)
include h

theorem chain_eq : s.chain id = id :: ((s.parent? id).map s.chain).getD [] := by
  rw [chain]
  cases hp : s.parent? id with
  | none => rfl
  | some p =>
    simp only [h id p hp, ↓reduceDIte]
    rfl

theorem climbs : s.Climbs id (s.chain id) := by
  induction id using h.induct with
  | step id ih =>
    rw [h.chain_eq]
    cases hp : s.parent? id with
    | none => exact .top hp
    | some p => exact .up hp (ih p hp)

/-- The nearest binding is the one in the scope itself, or else the nearest to the enclosing one. -/
theorem get?_eq : s.get? id name =
    (s.local? id name).or ((s.parent? id).bind fun p => s.get? p name) := by
  unfold get?
  rw [h.chain_eq, List.findSome?_cons]
  cases s.local? id name with
  | some v => rfl
  | none => cases s.parent? id <;> rfl

theorem owner?_eq : s.owner? id name =
    if (s.local? id name).isSome then some id
    else (s.parent? id).bind fun p => s.owner? p name := by
  unfold owner?
  rw [h.chain_eq, List.find?_cons]
  cases s.local? id name with
  | some v => rfl
  | none => cases s.parent? id <;> rfl

end Layered

/-! ## The owner of a name -/

theorem owner?_eq_some_iff (h : s.Layered) {id owner : ScopeId} {name : String} :
    s.owner? id name = some owner ↔ s.Leads name id owner ∧ (s.local? owner name).isSome := by
  constructor
  · induction id using h.induct with
    | step id ih =>
      rw [h.owner?_eq]
      split
      · rename_i held
        rintro ⟨⟩
        exact ⟨.here _, held⟩
      · rename_i free
        rw [Option.not_isSome_iff_eq_none] at free
        rw [Option.bind_eq_some_iff]
        rintro ⟨p, hp, ho⟩
        obtain ⟨leads, held⟩ := ih p hp ho
        exact ⟨.up free hp leads, held⟩
  · rintro ⟨leads, held⟩
    induction leads with
    | here id => rw [h.owner?_eq, if_pos held]
    | up free hp _ ih =>
      rw [h.owner?_eq, free, hp]
      exact ih held

theorem get?_eq_none_iff (s : Store) (id : ScopeId) (name : String) :
    s.get? id name = none ↔ s.owner? id name = none := by
  rw [get?, owner?, List.findSome?_eq_none_iff, List.find?_eq_none]
  simp only [Option.not_isSome_iff_eq_none]

theorem get?_eq_owner? (s : Store) (id : ScopeId) (name : String) :
    s.get? id name = (s.owner? id name).bind fun owner => s.local? owner name := by
  cases ho : s.owner? id name with
  | some owner => exact (local?_owner? ho).symm
  | none => exact (s.get?_eq_none_iff id name).mpr ho

/-! ## One write -/

section

variable {id : ScopeId} {name : String} {v : Value}

/-- A definition in a scope that exists, seen from any scope. -/
theorem local?_defined (hid : id < s.next) (j : ScopeId) (other : String) :
    (s.define id name v).local? j other =
      if j = id ∧ name = other then some v else s.local? j other := by
  by_cases hj : j = id
  · subst hj
    exact local?_define s hid j name other v
  · unfold local?
    rw [bindings_define_of_ne s hj, if_neg fun both => hj both.1]

/-- What a scope binds to a name is found from where nothing on the way up to it binds the name. -/
theorem updates_define (h : s.Layered) (hid : id < s.next) :
    s.Updates (s.define id name v) name v fun j => s.Leads name j id := by
  constructor
  · intro j leads
    induction leads with
    | here j =>
      rw [(h.define j name v).get?_eq, local?_defined hid, if_pos ⟨rfl, rfl⟩, Option.some_or]
    | @up j p last free hp _ ih =>
      rw [(h.define last name v).get?_eq, local?_defined hid, free, parent?_define, hp,
        Option.bind_some, ih hid]
      split <;> rfl
  · intro j other hn
    have after := h.define id name v
    induction j using h.induct with
    | step j ih =>
      have elsewhere : ¬ (j = id ∧ name = other) := by
        rintro ⟨rfl, rfl⟩
        exact hn ⟨rfl, .here j⟩
      rw [after.get?_eq, h.get?_eq, local?_defined hid, if_neg elsewhere, parent?_define]
      cases free : s.local? j other with
      | some w => rfl
      | none =>
        cases hp : s.parent? j with
        | none => rfl
        | some p =>
          refine ih p hp ?_
          rintro ⟨rfl, leads⟩
          exact hn ⟨rfl, .up free hp leads⟩

/-- Names stay with their owners where one gets another value. -/
theorem owner?_define (h : s.Layered) (hid : id < s.next) (held : (s.local? id name).isSome)
    (j : ScopeId) (other : String) :
    (s.define id name v).owner? j other = s.owner? j other := by
  have after := h.define id name v
  have known (j : ScopeId) :
      ((s.define id name v).local? j other).isSome = (s.local? j other).isSome := by
    rw [local?_defined hid]
    split
    · rename_i both
      obtain ⟨rfl, rfl⟩ := both
      exact held.symm
    · rfl
  induction j using h.induct with
  | step j ih =>
    rw [after.owner?_eq, h.owner?_eq, known, parent?_define]
    cases hp : s.parent? j with
    | none => rfl
    | some p => rw [Option.bind_some, Option.bind_some, ih p hp]

end

end Store

/-! ## Layered stores in runs -/

theorem Data.Allowed.mono {code : Node → Prop} {scope scope' : ScopeId → Prop} {d : Data}
    (h : d.Allowed code scope) (hs : ∀ id, scope id → scope' id) : d.Allowed code scope' := by
  cases d with
  | func f => exact ⟨h.1, hs _ h.2⟩
  | «namespace» name id => exact hs _ h
  | _ => trivial

namespace Discipline

/-- Scopes are made inside of older ones, as functions belong to scopes that exist. -/
def layered : Discipline where
  code _ := True
  scope _ := True
  frame s id := id < s.next ∧ Machine.preludeScope ≠ id
  allows s v := v.data.Allowed (fun _ => True) (· < s.next)
  store s := s.Layered
  code_child _ _ := trivial
  scope_prelude := trivial
  scope_frame _ := trivial
  frame_ne h := h.2
  frame_grows hst h := ⟨Nat.lt_of_lt_of_le h.1 hst.next, h.2⟩
  modest _ := Value.modest_allowed
  allows_grows hst h := h.mono fun _ hid => Nat.lt_of_lt_of_le hid hst.next
  allows_namespace h := h.1
  scope_namespace _ _ := trivial
  allows_function _ _ _ _ _ h := ⟨fun _ _ => trivial, h.1⟩
  body _ _ := ⟨fun _ _ => trivial, trivial⟩
  store_top h hp := by
    refine ⟨h.opened (some Machine.preludeScope) (fun p hm => ?_) [], (hp.opened_ne _ []).symm⟩
    cases hm
    exact hp.next
  store_call h hp hv hd _ _ := by
    rw [hd] at hv
    refine ⟨h.opened (some _) (fun p hm => ?_) _, (hp.opened_ne _ _).symm⟩
    cases hm
    exact hv.2
  store_native {s _ _ bs} h _ := by
    refine ⟨h.opened none (fun p hm => by cases hm) bs, ?_⟩
    have room : s.next < ((s.add none).defineAll s.next bs).next := by
      rw [Store.next_defineAll, Store.next_add]
      exact Nat.lt_succ_self _
    exact room
  store_assign h _ _ _ _ _ _ := h.define _ _ _
  store_declare h _ _ _ _ := h.define _ _ _

theorem layered_universal : layered.Universal where
  start := .initial fun id p hp => by
    rw [Machine.parent?_initial] at hp
    cases hp
  covers _ _ _ _ _ _ _ _ _ := trivial
  reads _ _ _ _ _ _ := trivial

end Discipline

/-! ## Assigning and declaring -/

namespace Eval

variable {m : Machine} (hm : m.store.Layered) (name : String) (v : Value) (stack : CallStack)
  (span : Span)
include hm

theorem updates_assign : match assign name v stack span m with
    | (.ok w, m') => w = v ∧ ∃ owner, m.store.owner? stack.top.scope name = some owner ∧
      m.store.Updates m'.store name (v.named name)
        (fun id => m.store.owner? id name = some owner) ∧
      ∀ id other, m'.store.owner? id other = m.store.owner? id other
    | (.error _, m') => m'.store = m.store := by
  rw [assign_apply]
  cases ho : m.store.owner? stack.top.scope name with
  | none => rfl
  | some owner =>
    cases hv : m.store.get? stack.top.scope name with
    | none => rfl
    | some current =>
      dsimp only
      cases refusal? name current v span with
      | some e => rfl
      | none =>
        have held : (m.store.local? owner name).isSome := ((Store.owner?_eq_some_iff hm).mp ho).2
        obtain ⟨w, hw⟩ := Option.isSome_iff_exists.mp held
        have room := Store.lt_next_of_local? hw
        have seen : (fun id => m.store.owner? id name = some owner) =
            fun id => m.store.Leads name id owner :=
          funext fun id => propext ((Store.owner?_eq_some_iff hm).trans (and_iff_left held))
        refine ⟨rfl, owner, rfl, ?_, Store.owner?_define hm room held⟩
        rw [seen]
        exact Store.updates_define hm room

theorem updates_declare (hs : stack.top.scope < m.store.next) :
    match declare name v stack span m with
    | (.ok w, m') => w = v ∧ m.store.Updates m'.store name (v.named name)
      fun id => m.store.Leads name id stack.top.scope
    | (.error _, m') => m'.store = m.store := by
  rw [declare_apply]
  split
  · rename_i heq
    split at heq <;> cases heq
    exact ⟨rfl, Store.updates_define hm hs⟩
  · rename_i heq
    split at heq <;> cases heq
    rfl

end Eval

/-- In every state that a run can come to: from each scope the way up leads along its enclosing
scopes and ends. The value of a name is the one in the scope that owns it, the first on the way up
that binds it, and there is none just if no scope owns it. An assignment that succeeds changes the
lookups of its name from the scopes with the same owner of it as the scope of the frame; they give
the value, with this name. A declaration that succeeds does so for the scopes from which the way up
comes to the scope of the frame before any other binding of the name. All other lookups give what
they gave before, and so do all if the assignment or the declaration fails. -/
theorem writes_change_lookups_of_one_name {m : Machine} (hm : m.Reachable) :
    let s := m.store
    (∀ id, s.Climbs id (s.chain id)) ∧
    (∀ id name,
      s.get? id name = ((s.owner? id name).bind fun owner => s.local? owner name) ∧
      (s.get? id name = none ↔ s.owner? id name = none) ∧
      ∀ owner, s.owner? id name = some owner ↔
        s.Leads name id owner ∧ (s.local? owner name).isSome) ∧
    ∀ name v stack span,
      (match Eval.assign name v stack span m with
        | (.ok w, m') => w = v ∧ ∃ owner, s.owner? stack.top.scope name = some owner ∧
          s.Updates m'.store name (v.named name) (fun id => s.owner? id name = some owner) ∧
          ∀ id other, m'.store.owner? id other = s.owner? id other
        | (.error _, m') => m'.store = s) ∧
      (stack.top.scope < s.next → match Eval.declare name v stack span m with
        | (.ok w, m') => w = v ∧
          s.Updates m'.store name (v.named name) fun id => s.Leads name id stack.top.scope
        | (.error _, m') => m'.store = s) := by
  intro s
  have layered : s.Layered := (Discipline.layered_universal.reachable hm).store
  refine ⟨layered.climbs, fun id name => ⟨?_, ?_, fun owner => ?_⟩, fun name v stack span => ?_⟩
  · exact s.get?_eq_owner? id name
  · exact s.get?_eq_none_iff id name
  · exact Store.owner?_eq_some_iff layered
  · exact ⟨Eval.updates_assign layered name v stack span,
      Eval.updates_declare layered name v stack span⟩

/-- A variable is declared, and then a function is called that does nothing. -/
def declaringProgram : String := "var x = 1\n(func() \x7b\x7d)()"

/-- In the scope of the function, an assignment to the variable changes it for the program, too. A
declaration there leaves it to the program as it was. -/
theorem variable_written_in_function :
    let m := (Machine.initial.run ⟨.standard, .empty [], none⟩ 9 "main" declaringProgram).2
    let stack := (CallStack.root "<program>" 1 .program).call "<anonymous>" 2 default .function
    let v : Value := .ofData (.int 2)
    (∃ m', Eval.assign "x" v stack default m = (.ok v, m') ∧
      m'.store.get? 2 "x" = some (v.named "x") ∧ m'.store.get? 1 "x" = some (v.named "x") ∧
      m'.store.get? 0 "x" = none) ∧
    ∃ m', Eval.declare "x" v stack default m = (.ok v, m') ∧
      m'.store.get? 2 "x" = some (v.named "x") ∧
      (m'.store.get? 1 "x").map Value.repr = some "1" := by
  intro m stack v
  obtain ⟨-, -, writes⟩ := writes_change_lookups_of_one_name (m := m)
    (.between (.run _ _ _ _ .initial))
  obtain ⟨assigned, declared⟩ := writes "x" v stack default
  have first : (m.store.get? 1 "x").map Value.repr = some "1" := by decide +kernel
  have builtIn : m.store.owner? 0 "x" = none := by decide +kernel
  have outer : m.store.owner? 1 "x" = some 1 := by decide +kernel
  have inner : m.store.owner? 2 "x" = some 1 := by decide +kernel
  constructor
  · have succeeds : (Eval.assign "x" v stack default m).1.isOk = true := by decide +kernel
    rcases ha : Eval.assign "x" v stack default m with ⟨r, m'⟩
    rw [ha] at assigned succeeds
    cases r with
    | error s => cases succeeds
    | ok w =>
      obtain ⟨rfl, owner, ho, updates, -⟩ := assigned
      obtain rfl : owner = 1 := Option.some.inj (ho.symm.trans inner)
      have unseen : ¬ m.store.owner? 0 "x" = some 1 := by
        rw [builtIn]
        nofun
      refine ⟨m', rfl, updates.new 2 inner, updates.new 1 outer, ?_⟩
      rw [updates.old 0 "x" fun both => unseen both.2, Store.get?_eq_none_iff]
      exact builtIn
  · have succeeds : (Eval.declare "x" v stack default m).1.isOk = true := by decide +kernel
    have known : 2 < m.store.next := by decide +kernel
    have changes := declared known
    rcases hd : Eval.declare "x" v stack default m with ⟨r, m'⟩
    rw [hd] at changes succeeds
    cases r with
    | error s => cases succeeds
    | ok w =>
      obtain ⟨rfl, updates⟩ := changes
      have held : (m.store.local? 1 "x").isSome = true := by decide +kernel
      have unseen : ¬ m.store.Leads "x" 1 2 := by
        intro leads
        cases leads with
        | up free _ _ =>
          rw [free] at held
          cases held
      refine ⟨m', rfl, updates.new 2 (.here 2), ?_⟩
      rw [updates.old 1 "x" fun both => unseen both.2]
      exact first

end TracedScript
