import TracedScript.Machine.Evaluate
import TracedScript.Proofs.Run.Agreement
import TracedScript.Proofs.Scope.Store
import TracedScript.Proofs.Syntax.Subtree
import TracedScript.Proofs.Value.Confined

/-!
# Contracts

What a property of runs has to say of code, scopes and the store so that every step keeps it. A
contract names the code that may run, the scopes it may reach, and what else holds of the store;
its laws are the obligations at the few places where a run changes the store. All scopes that can
be reached are `Sound`: they hold confined values and are enclosed by scopes of the same sort.

The invariant is kept by a run beside another one, as long as they do not part. With itself a run
never parts, so that an invariant alone makes a contract.
-/

namespace TracedScript

/-- A node of this kind binds the name anew in its own scope, whatever happens inside it. -/
def NodeKind.Declares (name : String) : NodeKind → Prop
  | .declare n _ => n = name
  | .declareNull n => n = name
  | .for target _ _ => target.declares = true ∧ target.name = name
  | .switch target _ _ _ => target.declares = true ∧ target.name = name
  | _ => False

def NodeKind.IsInclude : NodeKind → Prop
  | .include _ => True
  | _ => False

def NodeKind.IsWhile : NodeKind → Prop
  | .while _ _ => True
  | _ => False

def NodeKind.IsHandler : NodeKind → Prop
  | .handler _ => True
  | _ => False

/-- A `return`, `break` or `continue` on its way to where it ends. -/
def Stop.IsJump : Stop → Prop
  | .returned _ _ | .broke _ | .continued _ => True
  | _ => False

/-- What holds all along a run: of the code that runs, of the scopes and of the store. -/
structure Invariant where
  /-- Code that may run. -/
  code : Node → Prop
  /-- Scopes that can be reached. -/
  scope : ScopeId → Prop
  /-- Scopes in which code runs. -/
  frame : ScopeId → Prop
  /-- What else holds of the store. -/
  store : Store → Prop
  /-- A run may use up its allowance. -/
  exhaustion : Prop
  code_child : ∀ {n c : Node}, code n → c ∈ n.children → code c
  scope_frame : ∀ {id : ScopeId}, frame id → scope id
  frame_next : ∀ {s : Store}, store s → frame s.next
  store_open : ∀ {s : Store} {parent : Option ScopeId} {bs : Bindings}, store s →
    bs.Confined code scope → store ((s.add parent).defineAll s.next bs)
  store_assign : ∀ {s : Store} {id owner : ScopeId} {name : String} {current v : Value}
    {span : Span}, store s → frame id → scope owner → s.owner? id name = some owner →
    s.get? id name = some current → Eval.refusal? name current v span = none →
    v.Confined code scope → store (s.define owner name (v.named name))
  store_declare : ∀ {s : Store} {n : Node} {id : ScopeId} {name : String} {v : Value}, store s →
    code n → n.kind.Declares name ∨ n.kind.IsInclude → frame id →
    (s.get? id name).any Value.isReserved = false → v.Confined code scope →
    store (s.define id name (v.named name))

/-- How one run may leave another that it is compared with. -/
structure Parting where
  /-- A stop with which the run may leave the other, and the state it leaves it in. -/
  stuck : Stop → Machine → Prop
  stuck_no_jump : ∀ {s : Stop} {m : Machine}, stuck s m → ¬ s.IsJump
  stuck_complete : ∀ {s : Stop} {m : Machine} (stack : CallStack) (span : Span), stuck s m →
    stuck (s.complete stack span) m
  stuck_including : ∀ {s : Stop} {m : Machine} (names : List String), stuck s m →
    stuck s { m with including := names }

structure Contract extends Invariant, Parting

namespace Parting

def never : Parting where
  stuck _ _ := False
  stuck_no_jump := False.elim
  stuck_complete _ _ := id
  stuck_including _ := id

/-- By using up the allowance. -/
def exhausted : Parting where
  stuck s _ := s = .exhausted
  stuck_no_jump h := by
    cases h
    exact id
  stuck_complete _ _ h := by
    cases h
    rfl
  stuck_including _ := id

end Parting

namespace Invariant

/-- Nothing is asked for. -/
def anything : Invariant where
  code _ := True
  scope _ := True
  frame _ := True
  store _ := True
  exhaustion := True
  code_child _ _ := trivial
  scope_frame _ := trivial
  frame_next _ := trivial
  store_open _ _ := trivial
  store_assign _ _ _ _ _ _ _ := trivial
  store_declare _ _ _ _ _ _ := trivial

/-- The contract of one run beside itself. -/
def alone (I : Invariant) : Contract := ⟨I, .never⟩

end Invariant

theorem Eval.declare_apply (name : String) (v : Value) (stack : CallStack) (span : Span)
    (m : Machine) : declare name v stack span m =
      if (m.store.get? stack.top.scope name).any Value.isReserved then
        (.error (.failed ((Fault.reserved name).failAt span)), m)
      else (.ok v, { m with store := m.store.define stack.top.scope name (v.named name) }) := by
  have steps : declare name v stack span m =
      (if (m.store.get? stack.top.scope name).any Value.isReserved then
        fail ((Fault.reserved name).failAt span)
      else do
        define stack.top.scope name (v.named name)
        return v : Eval Value) m := rfl
  rw [steps]
  split <;> rfl

theorem Eval.assign_apply (name : String) (v : Value) (stack : CallStack) (span : Span)
    (m : Machine) : assign name v stack span m =
      match m.store.owner? stack.top.scope name, m.store.get? stack.top.scope name with
      | some owner, some current =>
        match refusal? name current v span with
        | some e => (.error (.failed e), m)
        | none => (.ok v, { m with store := m.store.define owner name (v.named name) })
      | _, _ => (.error (.failed ((Fault.undefined name).failAt span)), m) := by
  have current : (get : Eval Machine) m = (.ok m, m) := rfl
  rw [assign, bind_apply, current, Ending.next]
  cases m.store.owner? stack.top.scope name with
  | none => rfl
  | some owner =>
    cases m.store.get? stack.top.scope name with
    | none => rfl
    | some held =>
      dsimp only
      cases refusal? name held v span <;> rfl

namespace Contract

/-- A value that may turn up. -/
def value (Γ : Contract) (v : Value) : Prop := v.Confined Γ.code Γ.scope

/-- A stop with which a node may end: jumps only where they have somewhere to go. -/
def stop (Γ : Contract) (stack : CallStack) (inLoop : Bool) : Stop → Prop
  | .returned v _ => stack.inFunction = true ∧ Γ.value v
  | .broke _ => inLoop = true
  | .continued _ => inLoop = true
  | .failed _ => True
  | .exhausted => Γ.exhaustion

structure Sound (Γ : Contract) (s : Store) : Prop where
  bindings : ∀ id, Γ.scope id → (s.bindings id).Confined Γ.code Γ.scope
  parent : ∀ id p, Γ.scope id → s.parent? id = some p → Γ.scope p
  store : Γ.store s

/-- The store is sound, and the given modules are being included. -/
def terms (Γ : Contract) (names : List String) : Terms :=
  ⟨fun m => Γ.Sound m.store ∧ m.including = names, Γ.stuck⟩

variable {Γ : Contract}

namespace Sound

variable {s : Store}

theorem local? (h : Γ.Sound s) {id : ScopeId} (hid : Γ.scope id) {name : String} {v : Value}
    (hv : s.local? id name = some v) : Γ.value v := (h.bindings id hid).get? hv

theorem chain (h : Γ.Sound s) {id : ScopeId} (hid : Γ.scope id) :
    ∀ j ∈ s.chain id, Γ.scope j := Store.forall_mem_chain h.parent hid

theorem get? (h : Γ.Sound s) {id : ScopeId} (hid : Γ.scope id) {name : String} {v : Value}
    (hv : s.get? id name = some v) : Γ.value v := by
  obtain ⟨owner, hm, hv⟩ := Store.exists_owner? hv
  exact h.local? (h.chain hid owner hm) hv

theorem member (h : Γ.Sound s) {v found : Value} (hv : Γ.value v) {name : String} {span : Span}
    (hm : v.member s name span = .ok found) : Γ.value found := by
  obtain made | ⟨module, id, hd, hl⟩ := Value.made_or_local_of_member hm
  · exact made.confined
  · exact h.local? (hv.namespace hd) hl

theorem define (h : Γ.Sound s) {id : ScopeId} {name : String} {v : Value} (hv : Γ.value v)
    (hs : Γ.store (s.define id name v)) : Γ.Sound (s.define id name v) := by
  refine ⟨fun j hj => Store.forall_bindings_define (h.bindings j hj) hv, fun j p hj hp => ?_, hs⟩
  rw [Store.parent?_define] at hp
  exact h.parent j p hj hp

/-- A scope opened inside a reachable one, with confined values in it. -/
theorem opened (h : Γ.Sound s) {parent : Option ScopeId} {bs : Bindings}
    (hp : ∀ p, parent = some p → Γ.scope p) (hb : bs.Confined Γ.code Γ.scope) :
    Γ.Sound ((s.add parent).defineAll s.next bs) := by
  refine ⟨fun j hj => Store.forall_bindings_defineAll ?_ hb, fun j p hj hjp => ?_,
    Γ.store_open h.store hb⟩
  · rw [Store.bindings_add]
    exact h.bindings j hj
  · rw [Store.parent?_defineAll, Store.parent?_add] at hjp
    split at hjp
    · exact hp p hjp
    · exact h.parent j p hj hjp

end Sound

/-! ## The steps that use the state -/

section Steps

variable {names : List String} {stack : CallStack} {inLoop : Bool} {name : String} {span : Span}

theorem agree_read (h : Γ.frame stack.top.scope) :
    (Γ.terms names).Agree Γ.value (Γ.stop stack inLoop) (Eval.read name stack span)
      (Eval.read name stack span) := by
  unfold Eval.read
  apply Terms.Agree.get
  intro m hm
  cases hv : m.store.get? stack.top.scope name with
  | some v =>
    exact Terms.Agree.pure ((hm.1.get? (Γ.scope_frame h) hv).relocate _ _) m hm
  | none => exact Terms.Agree.fail trivial m hm

/-- Defining a name, where the contract allows it, and going on with the value. -/
theorem agree_define {m : Machine} (hm : (Γ.terms names).state m) {id : ScopeId} {v : Value}
    (hv : Γ.value v) (hs : Γ.store (m.store.define id name (v.named name))) :
    (Γ.terms names).AgreeFrom m Γ.value (Γ.stop stack inLoop)
      (do Eval.define id name (v.named name); return v)
      (do Eval.define id name (v.named name); return v) := by
  refine .inl ⟨rfl, ⟨hm.1.define (hv.named name) hs, hm.2⟩, fun w hw => ?_, fun s hs => ?_⟩
  · cases hw
    exact hv
  · cases hs

theorem agree_assign (h : Γ.frame stack.top.scope) {v : Value} (hv : Γ.value v) :
    (Γ.terms names).Agree Γ.value (Γ.stop stack inLoop) (Eval.assign name v stack span)
      (Eval.assign name v stack span) := by
  unfold Eval.assign
  apply Terms.Agree.get
  intro m hm
  dsimp only
  split
  · rename_i owner current ho hc
    split
    · exact Terms.Agree.fail trivial m hm
    · rename_i hr
      have hscope := hm.1.chain (Γ.scope_frame h) owner (Store.owner_mem_chain ho)
      exact agree_define hm hv (Γ.store_assign hm.1.store h hscope ho hc hr hv)
  · exact Terms.Agree.fail trivial m hm

theorem agree_declare (h : Γ.frame stack.top.scope) {v : Value} (hv : Γ.value v) {n : Node}
    (hn : Γ.code n) (hd : n.kind.Declares name ∨ n.kind.IsInclude) :
    (Γ.terms names).Agree Γ.value (Γ.stop stack inLoop) (Eval.declare name v stack span)
      (Eval.declare name v stack span) := by
  unfold Eval.declare
  apply Terms.Agree.get
  intro m hm
  dsimp only
  split
  · exact Terms.Agree.fail trivial m hm
  · rename_i hr
    exact agree_define hm hv
      (Γ.store_declare hm.1.store hn hd h (Bool.eq_false_iff.mpr hr) hv)

theorem agree_bindTarget (h : Γ.frame stack.top.scope) {v : Value} (hv : Γ.value v) {n : Node}
    (hn : Γ.code n) {target : Target}
    (hd : target.declares = true → n.kind.Declares target.name) :
    (Γ.terms names).Agree Γ.value (Γ.stop stack inLoop) (Eval.bindTarget target v stack span)
      (Eval.bindTarget target v stack span) := by
  unfold Eval.bindTarget
  split
  · rename_i ht
    exact agree_declare h hv hn (.inl (hd ht))
  · exact agree_assign h hv

theorem agree_freshId :
    (Γ.terms names).Agree (fun _ => True) (Γ.stop stack inLoop) Eval.freshId Eval.freshId :=
  Terms.Agree.of_fair fun _ hm => ⟨hm, fun _ _ => trivial, fun _ hs => by cases hs⟩

theorem agree_printLine (around : Surroundings) (line : String) :
    (Γ.terms names).Agree (fun _ => True) (Γ.stop stack inLoop)
      (Eval.printLine around line span) (Eval.printLine around line span) := by
  unfold Eval.printLine
  apply Terms.Agree.get
  intro m hm
  dsimp only
  split
  · exact .inl ⟨rfl, hm, fun _ _ => trivial, fun _ hs => by cases hs⟩
  · exact Terms.Agree.fail trivial m hm

theorem agree_openScope {parent : Option ScopeId} (hp : ∀ p, parent = some p → Γ.scope p) :
    (Γ.terms names).Agree Γ.frame (Γ.stop stack inLoop) (Eval.openScope parent)
      (Eval.openScope parent) := by
  refine Terms.Agree.of_fair fun m hm => ⟨⟨?_, hm.2⟩, fun id hid => ?_, fun s hs => ?_⟩
  · exact hm.1.opened hp (List.forall_mem_nil _)
  · cases hid
    exact Γ.frame_next hm.1.store
  · cases hs

/-- Opening a scope inside a reachable one, with what it starts with. The two steps are one, as a
contract says nothing of scopes that are half filled. -/
theorem agree_open {α : Type} {p : α → Prop} {q : Stop → Prop} {parent : Option ScopeId}
    {bs : Bindings} {f g : ScopeId → Eval α} (hp : ∀ p, parent = some p → Γ.scope p)
    (hb : bs.Confined Γ.code Γ.scope)
    (h : ∀ id, Γ.frame id → (Γ.terms names).Agree p q (f id) (g id)) :
    (Γ.terms names).Agree p q
      (do let id ← Eval.openScope parent; Eval.defineAll id bs; f id)
      (do let id ← Eval.openScope parent; Eval.defineAll id bs; g id) := by
  intro m hm
  exact h m.store.next (Γ.frame_next hm.1.store)
    { m with store := (m.store.add parent).defineAll m.store.next bs }
    ⟨hm.1.opened hp hb, hm.2⟩

end Steps

end Contract

end TracedScript
