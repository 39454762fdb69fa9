import TracedScript.Proofs.Run.Output
import TracedScript.Proofs.Scope.Reach

/-!
# What an include leaves behind

A module runs in a scope that is opened for it, from which nothing but the built-in names can be
reached. So however its run ends, the scopes that were there are as they were, and the only change
to them is the one that the include makes itself, if all has gone well: it binds the namespace of
the module. Main statement: `include_changes_one_binding`.
-/

namespace TracedScript

namespace Store

theorem scopes_define (s : Store) (id j : ScopeId) (name : String) (v : Value) :
    (s.define id name v).scopes[j]? =
      if id = j then
        s.scopes[j]?.map fun scope => { scope with bindings := scope.bindings.set name v }
      else s.scopes[j]? := by
  unfold define
  rw [Array.getElem?_modify]

/-- From a scope that has just been opened at the top level only the built-in names are reached. -/
theorem closed_top (s : Store) : (s.add (some Machine.preludeScope)).Closed (· = s.next) := by
  constructor
  · rintro id p rfl hp
    rw [parent?_add, if_pos rfl] at hp
    exact .inr (Option.some.inj hp).symm
  · rintro id rfl b hb
    rw [bindings_add, s.bindings_of_next_le (Nat.le_refl _)] at hb
    cases hb

end Store

/-- No scope of the first state is different in the end, and the same modules are being included. A
scope that is given is the first one opened since. -/
structure Ending.Aside (m : Machine) (r : Ending ScopeId) : Prop where
  store : m.store.ChangesOnly (fun _ => False) r.2.store
  including : r.2.including = m.including
  fresh : ∀ id, r.1 = .ok id → id = m.store.next ∧ id < r.2.store.next

namespace Eval

variable {m : Machine} (around : Surroundings) (n : Nat)

/-- The top level of a module changes only the scopes that can be reached from its own. -/
theorem topLevel_changesOnly {r : ScopeId → Prop} (hs : m.store.KeepsPrelude)
    (hr : m.store.Closed r) (name : String) {frame : CallStack} (hf : frame.inFunction = false)
    (h : r frame.top.scope) (statements : List Node) :
    m.store.ChangesOnly r
        (whileIncluding name (topLevel (evaluate around n) frame statements) m).2.store ∧
      (whileIncluding name (topLevel (evaluate around n) frame statements) m).2.including =
        m.including := by
  let Γ := (Invariant.confining r hs).alone
  have nodes : Γ.AgreeOn (m.including ++ [name]) frame false statements
      (fun c => evaluate around n c frame false) (fun c => evaluate around n c frame false) :=
    fun c _ => Invariant.confining_evaluate hs around n _ c false (.inl h)
  have top : (Γ.terms (m.including ++ [name])).Agree (fun vs => ∀ v ∈ vs, Γ.value v)
      (Γ.stop frame false) (topLevel (evaluate around n) frame statements)
      (topLevel (evaluate around n) frame statements) :=
    Contract.agree_topLevel hf nodes
  exact Invariant.changesOnly_of_agree hs hr (Contract.agree_whileIncluding top)

/-- Running a script as a module touches no scope but the one that it is given. -/
theorem runScript_aside (hs : m.store.KeepsPrelude) (name : String) (script : Source)
    (stack : CallStack) (span : Span) :
    Ending.Aside m (runScript (evaluate around n) name script stack span m) := by
  let opened : Machine := { m with store := m.store.add (some Machine.preludeScope) }
  let frame := stack.call s!"<module {name}>" m.store.next span .module
  have first : m.store.ChangesOnly (fun _ => False) opened.store :=
    (Store.ChangesOnly.refl _ m.store).opened (some Machine.preludeScope) []
  rw [runScript_apply]
  split
  · exact ⟨first, rfl, fun id hid => by cases hid⟩
  · rename_i statements _
    have kept : opened.store.KeepsPrelude := hs.opened (some Machine.preludeScope) []
    have outside : frame.inFunction = false := rfl
    have own : frame.top.scope = m.store.next := rfl
    obtain ⟨changes, including⟩ :=
      topLevel_changesOnly around n kept m.store.closed_top name outside own statements
    rcases hr : whileIncluding name (topLevel (evaluate around n) frame statements) opened with
      ⟨r, m'⟩
    rw [hr] at changes including
    have untouched : m.store.ChangesOnly (fun _ => False) m'.store := by
      constructor
      · exact Nat.le_trans first.next changes.next
      · -- of the scopes that the module may change, its own is the only one, and it is new
        intro id hid _
        have older : ¬ id = m.store.next := Nat.ne_of_lt hid
        rw [changes.same id (Nat.lt_of_lt_of_le hid first.next) older]
        exact first.same id hid not_false
    cases r with
    | error s => exact ⟨untouched, including, fun id hid => by cases hid⟩
    | ok values =>
      refine ⟨untouched, including, fun id hid => ?_⟩
      cases hid
      have grown : opened.store.next ≤ m'.store.next := changes.next
      rw [Store.next_add] at grown
      exact ⟨rfl, grown⟩

theorem moduleScope_aside (hs : m.store.KeepsPrelude) (name : String) (stack : CallStack)
    (span : Span) :
    Ending.Aside m (moduleScope around (evaluate around n) name stack span m) := by
  unfold moduleScope
  cases Module.findScript around.files around.settings.directories name with
  | some found => exact runScript_aside around n hs name _ stack span
  | none =>
    cases Module.native? around.settings.directories name with
    | some bs =>
      refine ⟨(Store.ChangesOnly.refl _ m.store).opened none bs, rfl, fun id hid => ?_⟩
      cases hid
      exact ⟨rfl, (hs.opened_ne none bs).2⟩
    | none => exact ⟨.refl _ _, rfl, fun id hid => by cases hid⟩

/-- An include of a module that is named by a text either fails before anything has changed, or gets
the scope of the module and binds its namespace. -/
theorem evaluate_include (m : Machine) {node : Node} {asked : String} {place : Span}
    (hk : node.kind = .include ⟨.str asked, place⟩) (stack : CallStack) (inLoop : Bool) :
    (∃ s, evaluate around n node stack inLoop m = (.error s, m)) ∨
      ∃ k, evaluate around n node stack inLoop m =
        completed stack node.span (moduleScope around (evaluate around k) asked stack node.span >>=
          fun scope => declare (Module.bindingName asked)
            ((Value.ofData (.namespace asked scope)).place node.span stack.display) stack
            node.span) m := by
  match n with
  | 0 => exact .inl ⟨.exhausted, rfl⟩
  | 1 =>
    refine .inl ⟨.exhausted, ?_⟩
    unfold evaluate construct
    rw [hk]
    rfl
  | n + 2 =>
    have steps : evaluate around (n + 2) node stack inLoop m =
        completed stack node.span
          (includeModule around (evaluate around (n + 1)) ⟨.str asked, place⟩ stack node.span
            inLoop) m := by
      rw [evaluate, construct, hk]
    have literal : evaluate around (n + 1) ⟨.str asked, place⟩ stack inLoop m =
        (.ok ((Value.str asked).place place stack.display), m) := rfl
    rw [steps, completed, adapt_apply, includeModule_apply around literal rfl]
    by_cases hvalid : Module.isValidName asked = true
    · by_cases hcircular : asked ∈ m.including
      · rw [if_pos hvalid, if_pos hcircular]
        exact .inl ⟨_, rfl⟩
      · rw [if_pos hvalid, if_neg hcircular]
        exact .inr ⟨n + 1, rfl⟩
    · rw [if_neg hvalid]
      exact .inl ⟨_, rfl⟩

/-- An include brings the run to a state in which all scopes are as they were, and there it either
fails or binds the namespace of a new scope. -/
theorem include_ending (hs : m.store.KeepsPrelude) {node : Node} {asked : String} {place : Span}
    (hk : node.kind = .include ⟨.str asked, place⟩) (stack : CallStack) (inLoop : Bool) :
    ∃ m', m.store.ChangesOnly (fun _ => False) m'.store ∧ m'.including = m.including ∧
      ((∃ s, evaluate around n node stack inLoop m = (.error s, m')) ∨
        m.store.next < m'.store.next ∧ ∃ v, v.data = .namespace asked m.store.next ∧
          evaluate around n node stack inLoop m =
            (.ok v, { m' with
              store := m'.store.define stack.top.scope (Module.bindingName asked)
                (v.named (Module.bindingName asked)) })) := by
  obtain ⟨s, hr⟩ | ⟨k, hr⟩ := evaluate_include around n m hk stack inLoop
  · exact ⟨m, .refl _ _, rfl, .inl ⟨s, hr⟩⟩
  · have aside := moduleScope_aside around k hs asked stack node.span
    rw [completed, adapt_apply, bind_apply] at hr
    rcases hscope : moduleScope around (evaluate around k) asked stack node.span m with
      ⟨opened, m'⟩
    rw [hscope] at aside hr
    refine ⟨m', aside.store, aside.including, ?_⟩
    cases opened with
    | error s => exact .inl ⟨_, hr⟩
    | ok scope =>
      obtain ⟨rfl, hlt⟩ := aside.fresh scope rfl
      rw [Ending.next, declare_apply] at hr
      split at hr
      · exact .inl ⟨_, hr⟩
      · exact .inr ⟨hlt, _, rfl, hr⟩

end Eval

/-- In every state that a run can come to, an include of a module that is named by a text either
succeeds or fails. If it succeeds, its value is the namespace of a scope that is new, and of the
scopes that were there only the current one is different, in the binding of the last part of the
name, which holds this value. If it fails, for whatever reason, none is different. The same modules
are being included as before, and what was printed before is still there. -/
theorem include_changes_one_binding {m : Machine} (hm : m.Reachable) (around : Surroundings)
    (n : Nat) {node : Node} {asked : String} {place : Span}
    (hk : node.kind = .include ⟨.str asked, place⟩) (stack : CallStack) (inLoop : Bool) :
    let r := evaluate around n node stack inLoop m
    (∀ v, r.1 = .ok v →
      v.data = .namespace asked m.store.next ∧ m.store.next < r.2.store.next ∧
      ∀ id < m.store.next, r.2.store.scopes[id]? =
        (m.store.define stack.top.scope (Module.bindingName asked)
          (v.named (Module.bindingName asked))).scopes[id]?) ∧
    (∀ s, r.1 = .error s → ∀ id < m.store.next, r.2.store.scopes[id]? = m.store.scopes[id]?) ∧
    r.2.including = m.including ∧
    m.printed.toList <+: r.2.printed.toList := by
  intro r
  have printed : m.printed.toList <+: r.2.printed.toList := Eval.KeepsOutput.prefix_of m
  obtain ⟨m', same, including, ⟨s, hr⟩ | ⟨fresh, w, hw, hr⟩⟩ :=
    Eval.include_ending around n hm.prelude hk stack inLoop
  · have ending : r = (.error s, m') := hr
    rw [ending] at printed ⊢
    constructor
    · intro v hv
      cases hv
    · exact ⟨fun _ _ id hid => same.same id hid not_false, including, printed⟩
  · have ending : r = (.ok w, _) := hr
    rw [ending] at printed ⊢
    constructor
    · intro v hv
      cases hv
      refine ⟨hw, ?_, fun id hid => ?_⟩
      · rw [Store.next_define]
        exact fresh
      · rw [Store.scopes_define, Store.scopes_define, same.same id hid not_false]
    · have bound : ∀ s, (.ok w : Except Stop Value) ≠ .error s := fun s => nofun
      exact ⟨fun s hs => absurd hs (bound s), including, printed⟩

/-- Where there are no files, `math` is the module of the language. Included by the first statement
of a program, it leaves the built-in names as they are and is all that is bound in the program's own
scope. -/
theorem include_binds_math :
    let around : Surroundings := ⟨.standard, .empty [], none⟩
    let m : Machine := { Machine.initial with
      store := Machine.initial.store.add (some Machine.preludeScope) }
    let node : Node := ⟨.include ⟨.str "math", default⟩, default⟩
    let r := evaluate around 9 node (.root "<program>" 1 .program) false m
    ∃ v, r.1 = .ok v ∧ v.data = .namespace "math" 2 ∧
      r.2.store.scopes[0]? = m.store.scopes[0]? ∧
      r.2.store.scopes[1]? = some ⟨[("math", v.named "math")], some 0⟩ := by
  intro around m node r
  have hm : m.Reachable := .opened
  have succeeds : r.1.isOk = true := by decide +kernel
  have value : ∃ v, r.1 = .ok v := by
    generalize r.1 = result at succeeds ⊢
    cases result with
    | ok v => exact ⟨v, rfl⟩
    | error s => cases succeeds
  obtain ⟨v, hv⟩ := value
  have includes : node.kind = .include ⟨.str "math", default⟩ := rfl
  obtain ⟨data, -, same⟩ := (include_changes_one_binding hm around 9 includes
    (.root "<program>" 1 .program) false).1 v hv
  have builtIns := same 0 (by decide)
  have own := same 1 (by decide)
  rw [Store.scopes_define] at builtIns own
  exact ⟨v, hv, data, builtIns, own⟩

end TracedScript
