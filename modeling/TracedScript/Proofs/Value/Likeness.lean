import TracedScript.Machine.State
import TracedScript.Proofs.Syntax.Alike
import TracedScript.Proofs.Value.Throughout

/-!
# Values that are alike

What two runs have in common that differ only in how some things are called, or in what they
report. A `Likeness` says which spans, scopes, numbers, call stacks, nodes and outputs of the two
correspond, with the laws that evaluations rely on. From it follows which values are alike: they
have the same form and the same contents, up to what corresponds.
-/

namespace TracedScript

/-- What corresponds in two runs. -/
structure Likeness where
  span : Span → Span → Prop
  scope : ScopeId → ScopeId → Prop
  /-- The numbers that the next scopes will have. -/
  next : ScopeId → ScopeId → Prop
  /-- The numbers that functions and caught errors are known by. -/
  ident : Nat → Nat → Prop
  stack : CallStack → CallStack → Prop
  code : Node → Node → Prop
  output : Array String → Array String → Prop
  span_refl : ∀ s, span s s
  span_through : ∀ {s s' t t' : Span}, span s s' → span t t' → span (s.through t) (s'.through t')
  scope_prelude : scope Machine.preludeScope Machine.preludeScope
  /-- Scopes that correspond were made in the same order. -/
  scope_lt : ∀ {a a' b b' : ScopeId}, scope a a' → scope b b' → (a < b ↔ a' < b')
  scope_next : ∀ {n n' : ScopeId}, next n n' → scope n n'
  next_succ : ∀ {n n' : ScopeId}, next n n' → next (n + 1) (n' + 1)
  ident_inj : ∀ {i i' j j' : Nat}, ident i i' → ident j j' → (i = j ↔ i' = j')
  ident_succ : ∀ {i i' : Nat}, ident i i' → ident (i + 1) (i' + 1)
  stack_display : ∀ {c c' : CallStack}, stack c c' → c.display = c'.display
  stack_depth : ∀ {c c' : CallStack}, stack c c' → c.top.depth = c'.top.depth
  stack_root : ∀ (display : String) (kind : FrameKind) {s s' : ScopeId}, scope s s' →
    stack (.root display s kind) (.root display s' kind)
  stack_call : ∀ {c c' : CallStack} (display : String) (kind : FrameKind) {s s' : ScopeId}
    {t t' : Span}, stack c c' → scope s s' → span t t' →
    stack (c.call display s t kind) (c'.call display s' t' kind)
  code_refl : ∀ n, code n n
  code_span : ∀ {n n' : Node}, code n n' → span n.span n'.span
  code_kind : ∀ {n n' : Node}, code n n' → n.kind.Alike code span n'.kind

namespace Likeness

variable {K : Likeness}

theorem scope_inj {a a' b b' : ScopeId} (h : K.scope a a') (h' : K.scope b b') :
    a = b ↔ a' = b' := by
  have before := K.scope_lt h h'
  have behind := K.scope_lt h' h
  constructor
  · rintro rfl
    apply Nat.le_antisymm
    · exact Nat.le_of_not_lt fun hlt => Nat.lt_irrefl _ (behind.mpr hlt)
    · exact Nat.le_of_not_lt fun hlt => Nat.lt_irrefl _ (before.mpr hlt)
  · rintro rfl
    apply Nat.le_antisymm
    · exact Nat.le_of_not_lt fun hlt => Nat.lt_irrefl _ (behind.mp hlt)
    · exact Nat.le_of_not_lt fun hlt => Nat.lt_irrefl _ (before.mp hlt)

end Likeness

variable (K : Likeness)

structure Hop.Like (h h' : Hop) : Prop where
  span : K.span h.span h'.span
  display : h.display = h'.display

structure Trace.Like (t t' : Trace) : Prop where
  span : Option.Rel K.span t.span t'.span
  owner : t.owner = t'.owner
  origin : List.Forall₂ (Hop.Like K) t.origin t'.origin
  name : t.name = t'.name
  reserved : t.reserved = t'.reserved

structure Failure.Like (e e' : Failure) : Prop where
  kind : e.kind = e'.kind
  message : e.message = e'.message
  span : Option.Rel K.span e.span e'.span
  stack : Option.Rel K.stack e.stack e'.stack
  origin : List.Forall₂ (Hop.Like K) e.origin e'.origin

inductive Entry.Alike (like : Value → Value → Prop) : Entry → Entry → Prop where
  | mk {label label' value value' : Value} :
    like label label' → like value value' → Alike like ⟨label, value⟩ ⟨label', value'⟩

inductive OptionValue.Alike (like : Value → Value → Prop) : OptionValue → OptionValue → Prop where
  | mk {name : String} {v v' : Value} : like v v' → Alike like ⟨name, v⟩ ⟨name, v'⟩

inductive Function.Alike (like : Value → Value → Prop) : Function → Function → Prop where
  | mk {id id' : Nat} {params : List Parameter} {options options' : List OptionValue}
    {returns : Option Kind} {body body' : List Node} {closure closure' : ScopeId} :
    K.ident id id' → List.Forall₂ (OptionValue.Alike like) options options' →
    List.Forall₂ K.code body body' → K.scope closure closure' →
    Alike like ⟨id, params, options, returns, body, closure⟩
      ⟨id', params, options', returns, body', closure'⟩

/-- Contents of one form whose parts are alike. -/
inductive Data.Alike (like : Value → Value → Prop) : Data → Data → Prop where
  | null : Alike like .null .null
  | int (n : Int64) : Alike like (.int n) (.int n)
  | float (x : Float) : Alike like (.float x) (.float x)
  | str (s : String) : Alike like (.str s) (.str s)
  | bool (b : Bool) : Alike like (.bool b) (.bool b)
  | array {items items' : List Value} :
    List.Forall₂ like items items' → Alike like (.array items) (.array items')
  | tuple {items items' : List Value} :
    List.Forall₂ like items items' → Alike like (.tuple items) (.tuple items')
  | dict {entries entries' : List Entry} {index : List (Key × Nat)} :
    List.Forall₂ (Entry.Alike like) entries entries' →
    Alike like (.dict ⟨entries, index⟩) (.dict ⟨entries', index⟩)
  | func {f f' : Function} : Function.Alike K like f f' → Alike like (.func f) (.func f')
  | builtin (f : Builtin) : Alike like (.builtin f) (.builtin f)
  | exception {id id' : Nat} {e e' : Failure} : K.ident id id' → e.Like K e' →
    Alike like (.exception id e) (.exception id' e')
  | «namespace» (name : String) {s s' : ScopeId} : K.scope s s' →
    Alike like (.namespace name s) (.namespace name s')

inductive Value.Like : Value → Value → Prop where
  | mk {d d' : Data} {t t' : Trace} :
    d.Alike K (Value.Like) d' → t.Like K t' → Value.Like ⟨d, t⟩ ⟨d', t'⟩

variable {K}

/-! ## Traces and failures -/

namespace Trace.Like

variable {t t' : Trace} {s s' : Span}

theorem fresh : Trace.Like K .fresh .fresh := ⟨.none, rfl, .nil, rfl, rfl⟩

theorem place (h : t.Like K t') (hs : K.span s s') (owner : String) :
    (t.place s owner).Like K (t'.place s' owner) :=
  ⟨.some hs, rfl, h.origin, h.name, h.reserved⟩

theorem named (h : t.Like K t') (name : String) : (t.named name).Like K (t'.named name) :=
  ⟨h.span, h.owner, h.origin, rfl, h.reserved⟩

theorem remember {o o' : List Hop} (h : List.Forall₂ (Hop.Like K) o o') {hop hop' : Hop}
    (hh : hop.Like K hop') :
    List.Forall₂ (Hop.Like K) (Trace.remember o hop) (Trace.remember o' hop') := by
  have last : List.Forall₂ (Hop.Like K) [hop] [hop'] := .cons hh .nil
  unfold Trace.remember
  rw [← h.length_eq]
  split
  · exact List.rel_append (List.forall₂_drop 1 h) last
  · exact List.rel_append h last

theorem relocate (h : t.Like K t') (hs : K.span s s') (owner : String) :
    (t.relocate s owner).Like K (t'.relocate s' owner) := by
  obtain ⟨span, _, origin, _, _⟩ := t
  obtain ⟨span', _, origin', _, _⟩ := t'
  obtain ⟨hspan, rfl, horigin, rfl, -⟩ := h
  constructor
  · exact .some hs
  · rfl
  · cases hspan with
    | none => exact horigin
    | some h => exact remember horigin ⟨h, rfl⟩
  · rfl
  · rfl

theorem provenance (h : t.Like K t') : List.Forall₂ (Hop.Like K) t.provenance t'.provenance := by
  obtain ⟨span, owner, origin, _, _⟩ := t
  obtain ⟨span', _, origin', _, _⟩ := t'
  obtain ⟨hspan, rfl, horigin, -, -⟩ := h
  cases hspan with
  | none => exact horigin
  | some h =>
    cases owner with
    | none => exact horigin
    | some display => exact List.rel_append horigin (.cons ⟨h, rfl⟩ .nil)

end Trace.Like

namespace Failure.Like

variable {e e' : Failure}

theorem failure (f : Fault) {o o' : Option Span} (h : Option.Rel K.span o o') :
    (f.failure o).Like K (f.failure o') := ⟨rfl, rfl, h, .none, .nil⟩

theorem failAt (f : Fault) {s s' : Span} (h : K.span s s') : (f.failAt s).Like K (f.failAt s') :=
  failure f (.some h)

theorem withOrigin (h : e.Like K e') {o o' : List Hop} (ho : List.Forall₂ (Hop.Like K) o o') :
    (e.withOrigin o).Like K (e'.withOrigin o') := by
  have empty : e.origin.isEmpty = e'.origin.isEmpty := by
    rw [Bool.eq_iff_iff, List.isEmpty_iff_length_eq_zero, List.isEmpty_iff_length_eq_zero,
      h.origin.length_eq]
  unfold Failure.withOrigin
  rw [← empty]
  split
  · exact ⟨h.kind, h.message, h.span, h.stack, ho⟩
  · exact h

theorem complete (h : e.Like K e') {c c' : CallStack} {s s' : Span} (hc : K.stack c c')
    (hs : K.span s s') : (e.complete c s).Like K (e'.complete c' s') :=
  ⟨h.kind, h.message, optionRel_or h.span (.some hs), optionRel_or h.stack (.some hc), h.origin⟩

theorem isFatal (h : e.Like K e') : e.isFatal = e'.isFatal := by
  unfold Failure.isFatal
  rw [h.kind]

end Failure.Like

/-! ## Values -/

/-- The values directly inside a value are smaller. -/
theorem Value.sizeOf_part {u v : Value} (h : u ∈ v.data.parts) : sizeOf u < sizeOf v := by
  obtain ⟨data, trace⟩ := v
  cases data with
  | array items | tuple items =>
    have smaller : sizeOf u < sizeOf items := List.sizeOf_lt_of_mem h
    simp
    omega
  | dict d =>
    obtain ⟨entries, index⟩ := d
    obtain ⟨e, he, hu⟩ := List.mem_flatMap.mp h
    have := List.sizeOf_lt_of_mem he
    obtain ⟨label, value⟩ := e
    simp at hu this ⊢
    obtain rfl | rfl := hu <;> omega
  | func f =>
    obtain ⟨o, ho, rfl⟩ := List.mem_map.mp h
    have := List.sizeOf_lt_of_mem ho
    obtain ⟨name, default⟩ := o
    obtain ⟨id, params, options, returns, body, closure⟩ := f
    simp at this ho ⊢
    omega
  | _ => cases h

/-- What holds of a value because it holds of the values directly inside it. -/
theorem Value.induction {p : Value → Prop} (h : ∀ v : Value, (∀ u ∈ v.data.parts, p u) → p v)
    (v : Value) : p v := by
  apply h
  intro u hu
  exact Value.induction h u
termination_by sizeOf v
decreasing_by exact Value.sizeOf_part hu

/-- Entries correspond as far as the values in them do. -/
theorem Entry.Alike.of_parts {r q : Value → Value → Prop} {es es' : List Entry}
    (h : List.Forall₂ (Entry.Alike r) es es')
    {index : List (Key × Nat)} (hq : ∀ u ∈ (Data.dict ⟨es, index⟩).parts, ∀ w, r u w → q u w) :
    List.Forall₂ (Entry.Alike q) es es' := by
  refine forall₂_of_mem h fun e he e' hr => ?_
  have part {u : Value} (hu : u = e.label ∨ u = e.value) :
      u ∈ (Data.dict ⟨es, index⟩).parts :=
    List.mem_flatMap.mpr ⟨e, he, by simpa using hu⟩
  obtain ⟨hl, hv⟩ := hr
  exact .mk (hq _ (part (.inl rfl)) _ hl) (hq _ (part (.inr rfl)) _ hv)

namespace Value.Like

variable {v w : Value}

theorem trace (h : v.Like K w) : v.trace.Like K w.trace := by
  cases h
  assumption

theorem ofData {d d' : Data} (h : d.Alike K (Value.Like K) d') :
    (Value.ofData d).Like K (Value.ofData d') := .mk h .fresh

theorem null : Value.null.Like K Value.null := ofData .null

theorem int (n : Int64) : (Value.int n).Like K (Value.int n) := ofData (.int n)

theorem float (x : Float) : (Value.float x).Like K (Value.float x) := ofData (.float x)

theorem bool (b : Bool) : (Value.bool b).Like K (Value.bool b) := ofData (.bool b)

theorem str (s : String) : (Value.str s).Like K (Value.str s) := ofData (.str s)

theorem kind (h : v.Like K w) : v.kind = w.kind := by
  obtain ⟨hd, -⟩ := h
  cases hd <;> rfl

theorem span (h : v.Like K w) : Option.Rel K.span v.span w.span := h.trace.span

theorem origin (h : v.Like K w) : List.Forall₂ (Hop.Like K) v.origin w.origin := h.trace.origin

theorem name (h : v.Like K w) : v.name = w.name := h.trace.name

theorem isReserved (h : v.Like K w) : v.isReserved = w.isReserved := h.trace.reserved

theorem place (h : v.Like K w) {s s' : Span} (hs : K.span s s') (owner : String) :
    (v.place s owner).Like K (w.place s' owner) := by
  obtain ⟨hd, ht⟩ := h
  exact .mk hd (ht.place hs owner)

theorem relocate (h : v.Like K w) {s s' : Span} (hs : K.span s s') (owner : String) :
    (v.relocate s owner).Like K (w.relocate s' owner) := by
  obtain ⟨hd, ht⟩ := h
  exact .mk hd (ht.relocate hs owner)

theorem named (h : v.Like K w) (name : String) : (v.named name).Like K (w.named name) := by
  obtain ⟨hd, ht⟩ := h
  exact .mk hd (ht.named name)

theorem blame (h : v.Like K w) (f : Fault) {s s' : Span} (hs : K.span s s') :
    (v.blame f s).Like K (w.blame f s') := (Failure.Like.failAt f hs).withOrigin h.trace.provenance

theorem blameHere (h : v.Like K w) (f : Fault) : (v.blameHere f).Like K (w.blameHere f) :=
  (Failure.Like.failure f h.span).withOrigin h.origin

theorem blame_kind (h : v.Like K w) (f : Kind → Fault) {s s' : Span} (hs : K.span s s') :
    (v.blame (f v.kind) s).Like K (w.blame (f w.kind) s') := by
  rw [h.kind]
  exact h.blame _ hs

theorem blameHere_kind (h : v.Like K w) (f : Kind → Fault) :
    (v.blameHere (f v.kind)).Like K (w.blameHere (f w.kind)) := by
  rw [h.kind]
  exact h.blameHere _

end Value.Like

/-! ## Where everything corresponds to itself -/

/-- Everything corresponds to itself, whatever else it corresponds to. -/
structure Likeness.Reflexive (K : Likeness) : Prop where
  scope : ∀ id, K.scope id id
  next : ∀ id, K.next id id
  ident : ∀ id, K.ident id id
  stack : ∀ c, K.stack c c

namespace Likeness.Reflexive

theorem hops (hops : List Hop) : List.Forall₂ (Hop.Like K) hops hops :=
  List.forall₂_same.mpr fun hop _ => ⟨K.span_refl hop.span, rfl⟩

theorem trace (t : Trace) : t.Like K t :=
  ⟨optionRel_refl K.span_refl t.span, rfl, hops t.origin, rfl, rfl⟩

theorem failure (h : K.Reflexive) (e : Failure) : e.Like K e :=
  ⟨rfl, rfl, optionRel_refl K.span_refl e.span, optionRel_refl h.stack e.stack, hops e.origin⟩

theorem value (h : K.Reflexive) (v : Value) : v.Like K v := by
  induction v using Value.induction with
  | h v ih =>
    obtain ⟨data, t⟩ := v
    refine .mk ?_ (trace t)
    cases data with
    | null => exact .null
    | int n => exact .int n
    | float x => exact .float x
    | str s => exact .str s
    | bool b => exact .bool b
    | array items => exact .array (List.forall₂_same.mpr ih)
    | tuple items => exact .tuple (List.forall₂_same.mpr ih)
    | dict d =>
      obtain ⟨entries, index⟩ := d
      refine .dict (List.forall₂_same.mpr fun e he => ?_)
      have label : e.label.Like K e.label := ih _ (List.mem_flatMap.mpr ⟨e, he, by simp⟩)
      have value : e.value.Like K e.value := ih _ (List.mem_flatMap.mpr ⟨e, he, by simp⟩)
      obtain ⟨_, _⟩ := e
      exact .mk label value
    | func f =>
      obtain ⟨id, params, options, returns, body, closure⟩ := f
      have defaults : List.Forall₂ (OptionValue.Alike (Value.Like K)) options options := by
        refine List.forall₂_same.mpr fun o ho => ?_
        have default : o.default.Like K o.default := ih _ (List.mem_map_of_mem ho)
        obtain ⟨name, _⟩ := o
        exact .mk default
      have nodes : List.Forall₂ K.code body body :=
        List.forall₂_same.mpr fun n _ => K.code_refl n
      exact .func (.mk (h.ident id) defaults nodes (h.scope closure))
    | builtin f => exact .builtin f
    | exception id e => exact .exception (h.ident id) (h.failure e)
    | «namespace» name s => exact .namespace name (h.scope s)

end Likeness.Reflexive

/-- Nothing corresponds to anything but itself. -/
def Likeness.equal : Likeness where
  span := Eq
  scope := Eq
  next := Eq
  ident := Eq
  stack := Eq
  code := Eq
  output := Eq
  span_refl _ := rfl
  span_through h h' := by rw [h, h']
  scope_prelude := rfl
  scope_lt h h' := by rw [h, h']
  scope_next h := h
  next_succ h := by rw [h]
  ident_inj h h' := by rw [h, h']
  ident_succ h := by rw [h]
  stack_display h := by rw [h]
  stack_depth h := by rw [h]
  stack_root _ _ _ _ h := by rw [h]
  stack_call _ _ _ _ _ _ h h' h'' := by rw [h, h', h'']
  code_refl _ := rfl
  code_span h := by rw [h]
  code_kind h := h ▸ .refl (fun _ => rfl) fun _ _ => rfl

namespace Likeness

/-- Nothing corresponds to anything but itself, outputs apart. -/
structure Exact (K : Likeness) : Prop where
  span : ∀ {s s' : Span}, K.span s s' → s = s'
  scope : ∀ {a a' : ScopeId}, K.scope a a' → a = a'
  ident : ∀ {i i' : Nat}, K.ident i i' → i = i'
  stack : ∀ {c c' : CallStack}, K.stack c c' → c = c'
  code : ∀ {n n' : Node}, K.code n n' → n = n'

theorem eq_of_forall₂ {α : Type} {r : α → α → Prop} {as bs : List α} (h : List.Forall₂ r as bs)
    (heq : ∀ a ∈ as, ∀ b, r a b → a = b) : as = bs := by
  rw [← List.forall₂_eq_eq_eq]
  exact forall₂_of_mem h heq

theorem eq_of_rel {α : Type} {r : α → α → Prop} (hr : ∀ a b, r a b → a = b) {o o' : Option α}
    (h : Option.Rel r o o') : o = o' := by
  cases h with
  | none => rfl
  | some h => rw [hr _ _ h]

section

variable (hs : ∀ {s s' : Span}, K.span s s' → s = s')

include hs

theorem eq_of_hops {o o' : List Hop} (h : List.Forall₂ (Hop.Like K) o o') : o = o' := by
  refine eq_of_forall₂ h fun hop _ hop' hh => ?_
  obtain ⟨_, _⟩ := hop
  obtain ⟨_, _⟩ := hop'
  obtain ⟨hspan, rfl⟩ := hh
  obtain rfl := hs hspan
  rfl

theorem eq_of_trace {t t' : Trace} (h : t.Like K t') : t = t' := by
  obtain ⟨_, _, _, _, _⟩ := t
  obtain ⟨_, _, _, _, _⟩ := t'
  obtain ⟨hspan, rfl, horigin, rfl, rfl⟩ := h
  obtain rfl := eq_of_rel (fun _ _ => hs) hspan
  obtain rfl := eq_of_hops hs horigin
  rfl

end

namespace Exact

variable (hK : K.Exact)

include hK

theorem failure {e e' : Failure} (h : e.Like K e') : e = e' := by
  obtain ⟨_, _, _, _, _⟩ := e
  obtain ⟨_, _, _, _, _⟩ := e'
  obtain ⟨rfl, rfl, hspan, hstack, horigin⟩ := h
  obtain rfl := eq_of_rel (fun _ _ => hK.span) hspan
  obtain rfl := eq_of_rel (fun _ _ => hK.stack) hstack
  obtain rfl := eq_of_hops hK.span horigin
  rfl

theorem value {v w : Value} (h : v.Like K w) : v = w := by
  induction v using Value.induction generalizing w with
  | h v ih =>
    obtain ⟨hd, ht⟩ := h
    obtain rfl := eq_of_trace hK.span ht
    cases hd with
    | array hvs | tuple hvs => rw [eq_of_forall₂ hvs fun u hu w h => ih u hu h]
    | dict hes =>
      have entries := Entry.Alike.of_parts (q := Eq) hes fun u hu w h => ih u hu h
      rw [eq_of_forall₂ entries fun e _ e' h => ?_]
      obtain ⟨rfl, rfl⟩ := h
      rfl
    | func hf =>
      obtain ⟨hi, hos, hb, hc⟩ := hf
      have options := eq_of_forall₂ hos fun o ho o' h => by
        obtain ⟨hv⟩ := h
        obtain rfl := ih _ (List.mem_map_of_mem ho) hv
        rfl
      have body := eq_of_forall₂ hb fun _ _ _ => hK.code
      rw [options, body, hK.ident hi, hK.scope hc]
    | exception hi he =>
      obtain rfl := hK.failure he
      rw [hK.ident hi]
    | «namespace» name hs => rw [hK.scope hs]
    | _ => rfl

end Exact

end Likeness

end TracedScript
