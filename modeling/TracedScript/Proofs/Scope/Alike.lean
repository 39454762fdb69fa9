import TracedScript.Proofs.Scope.Store
import TracedScript.Proofs.Value.Operations

/-!
# Stores that are alike

Scopes that correspond bind the same names in the same order, to values that are alike, and are
enclosed by scopes that correspond. Scopes that correspond to none do not matter. What is read from
such stores, and what is done to them, is alike again.
-/

namespace TracedScript

variable (K : Likeness)

/-- The same names with values that are alike. -/
def Bindings.Like (bs bs' : Bindings) : Prop :=
  List.Forall₂ (fun b b' => b.1 = b'.1 ∧ b.2.Like K b'.2) bs bs'

structure Scope.Like (a a' : Scope) : Prop where
  bindings : a.bindings.Like K a'.bindings
  parent : Option.Rel K.scope a.parent a'.parent

structure Store.Like (s t : Store) : Prop where
  next : K.next s.next t.next
  scopes : ∀ {a a' : ScopeId}, K.scope a a' →
    Option.Rel (Scope.Like K) s.scopes[a]? t.scopes[a']?

variable {K}

namespace Bindings.Like

variable {bs bs' : Bindings}

theorem get? (h : bs.Like K bs') (name : String) :
    Option.Rel (Value.Like K) (bs.get? name) (bs'.get? name) := by
  unfold Bindings.Like at h
  induction h with
  | nil => exact .none
  | @cons b b' _ _ hb _ ih =>
    obtain ⟨n, v⟩ := b
    obtain ⟨n', v'⟩ := b'
    obtain ⟨rfl, hv⟩ := hb
    unfold Bindings.get?
    split
    · exact .some hv
    · exact ih

theorem set (h : bs.Like K bs') (name : String) {v v' : Value} (hv : v.Like K v') :
    (bs.set name v).Like K (bs'.set name v') := by
  unfold Bindings.Like at h ⊢
  induction h with
  | nil => exact .cons ⟨rfl, hv⟩ .nil
  | @cons b b' _ _ hb hbs ih =>
    obtain ⟨n, w⟩ := b
    obtain ⟨n', w'⟩ := b'
    obtain ⟨rfl, hw⟩ := hb
    unfold Bindings.set
    split
    · exact .cons ⟨rfl, hv⟩ hbs
    · exact .cons ⟨rfl, hw⟩ ih

/-- The modules of the language itself hold no function of a program and no scope. -/
theorem native {directories : List String} {name : String}
    (h : Module.native? directories name = some bs) : bs.Like K bs := by
  unfold Module.native? at h
  split at h
  · cases h
    have functions : Bindings.Like K
        (Builtin.math.map fun f => Module.bind f.name (.ofData (.builtin f)))
        (Builtin.math.map fun f => Module.bind f.name (.ofData (.builtin f))) := by
      refine List.forall₂_same.mpr fun b hb => ?_
      obtain ⟨f, -, rfl⟩ := List.mem_map.mp hb
      exact ⟨rfl, (Value.Like.ofData (.builtin f)).named _⟩
    have number (name : String) (x : Float) :
        (Module.bind name (.float x)).1 = (Module.bind name (.float x)).1 ∧
          (Module.bind name (.float x)).2.Like K (Module.bind name (.float x)).2 :=
      ⟨rfl, (Value.Like.float x).named name⟩
    exact .cons (number _ _) (.cons (number _ _) (.cons (number _ _) functions))
  · split at h
    · cases h
      have path : List.Forall₂ (Value.Like K) (directories.map .str) (directories.map .str) := by
        refine List.forall₂_same.mpr fun v hv => ?_
        obtain ⟨s, -, rfl⟩ := List.mem_map.mp hv
        exact .str s
      exact .cons ⟨rfl, (Value.Like.str _).named _⟩
        (.cons ⟨rfl, (Value.Like.ofData (.array path)).named _⟩ .nil)
    · cases h

end Bindings.Like

namespace Store.Like

variable {s t : Store} {a a' : ScopeId}

/-! ## Reading -/

theorem bindings (h : s.Like K t) (ha : K.scope a a') : (s.bindings a).Like K (t.bindings a') := by
  have found := h.scopes ha
  unfold Store.bindings
  generalize s.scopes[a]? = o at found ⊢
  generalize t.scopes[a']? = o' at found ⊢
  cases found with
  | none => exact .nil
  | some hscope => exact hscope.bindings

theorem parent? (h : s.Like K t) (ha : K.scope a a') :
    Option.Rel K.scope (s.parent? a) (t.parent? a') := by
  have found := h.scopes ha
  unfold Store.parent?
  generalize s.scopes[a]? = o at found ⊢
  generalize t.scopes[a']? = o' at found ⊢
  cases found with
  | none => exact .none
  | some hscope => exact hscope.parent

theorem local? (h : s.Like K t) (ha : K.scope a a') (name : String) :
    Option.Rel (Value.Like K) (s.local? a name) (t.local? a' name) := (h.bindings ha).get? name

theorem chain (h : s.Like K t) (ha : K.scope a a') :
    List.Forall₂ K.scope (s.chain a) (t.chain a') := by
  induction a using Nat.strongRecOn generalizing a' with
  | ind a ih =>
    have enclosing := h.parent? ha
    rw [Store.chain, Store.chain]
    generalize s.parent? a = o at enclosing ⊢
    generalize t.parent? a' = o' at enclosing ⊢
    cases enclosing with
    | none => exact .cons ha .nil
    | some hp =>
      have older := K.scope_lt hp ha
      dsimp only
      split
      · rename_i hlt
        rw [dif_pos (older.mp hlt)]
        exact .cons ha (ih _ hlt hp)
      · rename_i hlt
        rw [dif_neg fun hlt' => hlt (older.mpr hlt')]
        exact .cons ha .nil

theorem get? (h : s.Like K t) (ha : K.scope a a') (name : String) :
    Option.Rel (Value.Like K) (s.get? a name) (t.get? a' name) :=
  forall₂_findSome? (h.chain ha) fun _ _ hi => h.local? hi name

theorem owner? (h : s.Like K t) (ha : K.scope a a') (name : String) :
    Option.Rel K.scope (s.owner? a name) (t.owner? a' name) := by
  refine forall₂_find? (h.chain ha) fun i i' hi => ?_
  have found := h.local? hi name
  generalize s.local? _ name = o at found ⊢
  generalize t.local? _ name = o' at found ⊢
  cases found <;> rfl

/-! ## Changing -/

theorem define (h : s.Like K t) (ha : K.scope a a') (name : String) {v v' : Value}
    (hv : v.Like K v') : (s.define a name v).Like K (t.define a' name v') := by
  constructor
  · rw [Store.next_define, Store.next_define]
    exact h.next
  · intro b b' hb
    have found := h.scopes hb
    unfold Store.define
    rw [Array.getElem?_modify, Array.getElem?_modify]
    by_cases hab : a = b
    · rw [if_pos hab, if_pos ((Likeness.scope_inj ha hb).mp hab)]
      generalize s.scopes[b]? = o at found ⊢
      generalize t.scopes[b']? = o' at found ⊢
      cases found with
      | none => exact .none
      | some hscope => exact .some ⟨hscope.bindings.set name hv, hscope.parent⟩
    · rw [if_neg hab, if_neg fun h => hab ((Likeness.scope_inj ha hb).mpr h)]
      exact found

theorem defineAll (h : s.Like K t) (ha : K.scope a a') {bs bs' : Bindings} (hb : bs.Like K bs') :
    (s.defineAll a bs).Like K (t.defineAll a' bs') := by
  unfold Bindings.Like at hb
  induction hb generalizing s t with
  | nil => exact h
  | @cons b b' bs bs' hb _ ih =>
    obtain ⟨hname, hv⟩ := hb
    have first : (s.define a b.1 b.2).Like K (t.define a' b'.1 b'.2) := by
      rw [← hname]
      exact h.define ha b.1 hv
    exact ih first

theorem add (h : s.Like K t) {p p' : Option ScopeId} (hp : Option.Rel K.scope p p') :
    (s.add p).Like K (t.add p') := by
  constructor
  · rw [Store.next_add, Store.next_add]
    exact K.next_succ h.next
  · intro b b' hb
    have last : b = s.scopes.size ↔ b' = t.scopes.size :=
      Likeness.scope_inj hb (K.scope_next h.next)
    unfold Store.add
    rw [Array.getElem?_push, Array.getElem?_push]
    by_cases hlast : b = s.scopes.size
    · rw [if_pos hlast, if_pos (last.mp hlast)]
      exact .some ⟨.nil, hp⟩
    · rw [if_neg hlast, if_neg fun h => hlast (last.mpr h)]
      exact h.scopes hb

end Store.Like

/-! ## Attributes -/

theorem Value.Like.member {s t : Store} (hs : s.Like K t) {v w : Value} (h : v.Like K w)
    (name : String) {sp sp' : Span} (hsp : K.span sp sp') :
    K.Results (Value.Like K) (v.member s name sp) (w.member t name sp') := by
  have counted (o : Option Nat) : Option.Rel (Value.Like K)
      (o.map fun n => Value.int (Number.Word.ofLength n))
      (o.map fun n => Value.int (Number.Word.ofLength n)) := by
    cases o with
    | none => exact .none
    | some n => exact .some (.int _)
  have found : Option.Rel (Value.Like K) (v.member? s name) (w.member? t name) := by
    have length := h.length?
    obtain ⟨hd, -⟩ := h
    cases hd with
    | «namespace» module hid => exact hs.local? hid name
    | exception hid he =>
      dsimp only [Value.member?]
      rw [he.kind, he.message]
      split
      · exact .some (.str _)
      · split
        · exact .some (.str _)
        · exact .none
    | _ =>
      dsimp only [Value.member?]
      rw [length]
      split
      · exact counted _
      · exact .none
  have owner : v.ownerName = w.ownerName := by
    obtain ⟨hd, -⟩ := h
    cases hd <;> rfl
  unfold Value.member
  generalize v.member? s name = o at found ⊢
  generalize w.member? t name = o' at found ⊢
  cases found with
  | none =>
    dsimp only
    rw [owner]
    exact .error ((Failure.Like.failAt _ hsp).withOrigin h.origin)
  | some hv => exact .ok hv

/-! ## Where everything corresponds to itself -/

namespace Likeness.Reflexive

theorem bindings (h : K.Reflexive) (bs : Bindings) : bs.Like K bs :=
  List.forall₂_same.mpr fun b _ => ⟨rfl, h.value b.2⟩

theorem eq_of_scope (h : K.Reflexive) {a a' : ScopeId} (ha : K.scope a a') : a = a' :=
  (scope_inj ha (h.scope a')).mpr rfl

theorem store (h : K.Reflexive) (s : Store) : s.Like K s := by
  constructor
  · exact h.next s.next
  · intro a a' ha
    obtain rfl := h.eq_of_scope ha
    exact optionRel_refl (fun a => ⟨h.bindings a.bindings, optionRel_refl h.scope a.parent⟩) _

end Likeness.Reflexive

/-! ## Where nothing corresponds to anything else -/

namespace Likeness.Exact

theorem bindings (hK : K.Exact) {bs bs' : Bindings} (h : bs.Like K bs') : bs = bs' :=
  eq_of_forall₂ h fun _ _ _ hb => Prod.ext hb.1 (hK.value hb.2)

theorem scopes (hK : K.Exact) {a a' : Scope} (h : a.Like K a') : a = a' := by
  obtain ⟨bs, parent⟩ := a
  obtain ⟨bs', parent'⟩ := a'
  obtain ⟨hb, hp⟩ := h
  obtain rfl := hK.bindings hb
  obtain rfl := eq_of_rel (fun _ _ => hK.scope) hp
  rfl

theorem store (hK : K.Exact) (hr : K.Reflexive) {s t : Store} (h : s.Like K t) : s = t := by
  have scopes : s.scopes = t.scopes :=
    Array.ext_getElem? fun id => eq_of_rel (fun _ _ => hK.scopes) (h.scopes (hr.scope id))
  exact congrArg Store.mk scopes

end Likeness.Exact

end TracedScript
