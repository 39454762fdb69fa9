import TracedScript.Proofs.Run.Prelude

/-!
# Disciplines

What a property of runs has to say if it changes as the store grows. A contract names the scopes in
which code runs once and for all; a discipline tells it from the store, as with "the built-in names
are around it", and it looks at values with the marks they carry. What it says of scopes and values
must last while the store grows.

`D.Keeps s p x`: from every sound store that `s` may grow into, the run `x` ends in a sound store
that has grown, with a result such that `p`. There is one rule for each way in which runs are put
together, and one lemma for each step that uses the state.
-/

namespace TracedScript

/-- What holds all along a run of the code, of the scopes, of values and of the store. -/
structure Discipline where
  /-- Code that may run. -/
  code : Node → Prop
  /-- Scopes that can be reached. -/
  scope : ScopeId → Prop
  /-- Scopes in which code runs. -/
  frame : Store → ScopeId → Prop
  /-- What is asked of each value by itself, whatever it is inside of. -/
  allows : Store → Value → Prop
  /-- What else holds of the store. -/
  store : Store → Prop
  code_child : ∀ {n c : Node}, code n → c ∈ n.children → code c
  scope_prelude : scope Machine.preludeScope
  scope_frame : ∀ {s : Store} {id : ScopeId}, frame s id → scope id
  frame_ne : ∀ {s : Store} {id : ScopeId}, frame s id → Machine.preludeScope ≠ id
  frame_grows : ∀ {s t : Store} {id : ScopeId}, s.Grows t → frame s id → frame t id
  modest : ∀ s : Store, Value.Modest (allows s)
  allows_grows : ∀ {s t : Store} {v : Value}, s.Grows t → allows s v → allows t v
  allows_namespace : ∀ {s : Store} {name : String} {id : ScopeId}, frame s id →
    allows s (.ofData (.namespace name id))
  scope_namespace : ∀ {s : Store} {v : Value} {name : String} {id : ScopeId}, allows s v →
    v.data = .namespace name id → scope id
  allows_function : ∀ {s : Store} {n : Node} {literal : FunctionLiteral} {f : Function}, code n →
    n.kind = .function literal → f.params.map (·.name) = literal.params.map (·.name) →
    f.options.map (·.name) = literal.options.map (·.name) → f.body = literal.body →
    frame s f.closure → allows s (.ofData (.func f))
  body : ∀ {s : Store} {v : Value} {f : Function}, allows s v → v.data = .func f →
    (∀ c ∈ f.body, code c) ∧ scope f.closure
  store_top : ∀ {s : Store}, store s → s.KeepsPrelude →
    store (s.add (some Machine.preludeScope)) ∧ frame (s.add (some Machine.preludeScope)) s.next
  store_call : ∀ {s : Store} {v : Value} {f : Function} {function : String} {args : Arguments}
    {bs : Bindings}, store s → s.KeepsPrelude → allows s v → v.data = .func f →
    f.bind function args = .ok bs → (∀ b ∈ bs, b.2.Throughout (allows s)) →
    store ((s.add (some f.closure)).defineAll s.next bs) ∧
      frame ((s.add (some f.closure)).defineAll s.next bs) s.next
  store_native : ∀ {s : Store} {directories : List String} {name : String} {bs : Bindings},
    store s → Module.native? directories name = some bs →
    store ((s.add none).defineAll s.next bs) ∧
      allows ((s.add none).defineAll s.next bs) (.ofData (.namespace name s.next))
  store_assign : ∀ {s : Store} {id owner : ScopeId} {name : String} {current v : Value}
    {span : Span}, store s → s.KeepsPrelude → frame s id → s.owner? id name = some owner →
    s.get? id name = some current → Eval.refusal? name current v span = none →
    v.Throughout (allows s) → store (s.define owner name (v.named name))
  store_declare : ∀ {s : Store} {id : ScopeId} {name : String} {v : Value}, store s →
    s.KeepsPrelude → frame s id → (s.get? id name).any Value.isReserved = false →
    v.Throughout (allows s) → store (s.define id name (v.named name))

namespace Discipline

/-- A value that may turn up. -/
def value (D : Discipline) (s : Store) (v : Value) : Prop := v.Throughout (D.allows s)

/-- A value that may be bound in a scope that can be reached: one that may turn up when read. -/
def bound (D : Discipline) (s : Store) (v : Value) : Prop :=
  ∀ span owner, D.value s (v.relocate span owner)

structure Sound (D : Discipline) (s : Store) : Prop where
  prelude : s.KeepsPrelude
  bindings : ∀ id, D.scope id → ∀ b ∈ s.bindings id, D.bound s b.2
  parent : ∀ id p, D.scope id → s.parent? id = some p → D.scope p
  store : D.store s

/-- All frames of the stack have scopes in which code may run. -/
def Standing (D : Discipline) (s : Store) (stack : CallStack) : Prop :=
  ∀ f ∈ stack.frames, D.frame s f.scope

variable {D : Discipline} {s t : Store}

theorem value_grows (h : s.Grows t) {v : Value} (hv : D.value s v) : D.value t v :=
  hv.mono fun _ => D.allows_grows h

theorem bound_grows (h : s.Grows t) {v : Value} (hv : D.bound s v) : D.bound t v :=
  fun span owner => value_grows h (hv span owner)

theorem bound_of_value {v : Value} (hv : D.value s v) : D.bound s v :=
  fun span owner => (D.modest s).relocate hv span owner

namespace Standing

variable {stack : CallStack}

theorem grows (h : D.Standing s stack) (hst : s.Grows t) : D.Standing t stack :=
  fun f hf => D.frame_grows hst (h f hf)

theorem top (h : D.Standing s stack) : D.frame s stack.top.scope := h _ (List.mem_cons_self ..)

theorem call (h : D.Standing s stack) {scope : ScopeId} (hs : D.frame s scope) (name : String)
    (span : Span) (kind : FrameKind) : D.Standing s (stack.call name scope span kind) :=
  List.forall_mem_cons.mpr ⟨hs, h⟩

theorem root {scope : ScopeId} (hs : D.frame s scope) (name : String) (kind : FrameKind) :
    D.Standing s (.root name scope kind) :=
  List.forall_mem_singleton.mpr hs

end Standing

namespace Sound

theorem chain (h : D.Sound s) {id : ScopeId} (hid : D.scope id) : ∀ j ∈ s.chain id, D.scope j :=
  Store.forall_mem_chain h.parent hid

theorem local? (h : D.Sound s) {id : ScopeId} (hid : D.scope id) {name : String} {v : Value}
    (hv : s.local? id name = some v) : D.bound s v := by
  obtain ⟨b, hb, rfl⟩ := Bindings.exists_mem_of_get? hv
  exact h.bindings id hid b hb

theorem get? (h : D.Sound s) {id : ScopeId} (hid : D.scope id) {name : String} {v : Value}
    (hv : s.get? id name = some v) : D.bound s v := by
  obtain ⟨owner, hm, hv⟩ := Store.exists_owner? hv
  exact h.local? (h.chain hid owner hm) hv

theorem define (h : D.Sound s) {id : ScopeId} (hid : Machine.preludeScope ≠ id) {name : String}
    {v : Value} (hv : D.value s v) (hs : D.store (s.define id name v)) :
    D.Sound (s.define id name v) := by
  refine ⟨h.prelude.define hid name v, fun j hj b hb => ?_, fun j p hj hp => ?_, hs⟩
  · exact bound_grows (.define s id name v)
      (Store.forall_bindings_define (h.bindings j hj) (bound_of_value hv) b hb)
  · rw [Store.parent?_define] at hp
    exact h.parent j p hj hp

/-- A scope opened inside a reachable one, or inside none. -/
theorem opened (h : D.Sound s) {parent : Option ScopeId} {bs : Bindings}
    (hp : ∀ p, parent = some p → D.scope p) (hb : ∀ b ∈ bs, D.value s b.2)
    (hs : D.store ((s.add parent).defineAll s.next bs)) :
    D.Sound ((s.add parent).defineAll s.next bs) := by
  refine ⟨h.prelude.opened parent bs, fun j hj b hm => ?_, fun j p hj hjp => ?_, hs⟩
  · have before : ∀ b ∈ (s.add parent).bindings j, D.bound s b.2 := by
      rw [Store.bindings_add]
      exact h.bindings j hj
    have all : ∀ b ∈ ((s.add parent).defineAll s.next bs).bindings j, D.bound s b.2 :=
      Store.forall_bindings_defineAll before fun b hb' => bound_of_value (hb b hb')
    exact bound_grows (.opened s parent bs) (all b hm)
  · rw [Store.parent?_defineAll, Store.parent?_add] at hjp
    split at hjp
    · exact hp p hjp
    · exact h.parent j p hj hjp

/-- The state before all runs holds the built-in names alone, which every discipline allows. -/
theorem initial (h : D.store Machine.initial.store) : D.Sound Machine.initial.store := by
  refine ⟨Machine.keepsPrelude_initial, fun id _ b hb => ?_, fun id p _ hp => ?_, h⟩
  · by_cases hid : Machine.preludeScope = id
    · subst hid
      rw [Machine.keepsPrelude_initial.bindings] at hb
      exact Machine.modest_relocate_prelude (D.modest _) hb
    · rw [Machine.bindings_initial hid] at hb
      cases hb
  · rw [Machine.parent?_initial] at hp
    cases hp

end Sound

/-! ## Runs -/

/-- What a run leaves that starts in the store `s`. -/
structure Outcome {α : Type} (D : Discipline) (s : Store) (p : Store → α → Prop) (r : Ending α) :
    Prop where
  grows : s.Grows r.2.store
  sound : D.Sound r.2.store
  value : ∀ a, r.1 = .ok a → p r.2.store a
  returned : ∀ v span, r.1 = .error (.returned v span) → D.value r.2.store v

/-- The run keeps the discipline when it starts in the given state. -/
def KeepsFrom {α : Type} (D : Discipline) (m : Machine) (p : Store → α → Prop) (x : Eval α) :
    Prop := D.Outcome m.store p (x m)

def Keeps {α : Type} (D : Discipline) (s : Store) (p : Store → α → Prop) (x : Eval α) : Prop :=
  ∀ m, s.Grows m.store → D.Sound m.store → D.KeepsFrom m p x

/-- A stop that may leave a node. -/
def stop (D : Discipline) (s : Store) (stop : Stop) : Prop :=
  ∀ v span, stop = .returned v span → D.value s v

namespace Keeps

variable {α β : Type} {p : Store → α → Prop} {q : Store → β → Prop}

theorem grows {x : Eval α} (h : D.Keeps s p x) (hst : s.Grows t) : D.Keeps t p x :=
  fun m hm => h m (hst.trans hm)

theorem weaken {p' : Store → α → Prop} {x : Eval α} (h : D.Keeps s p' x)
    (hp : ∀ t a, s.Grows t → p' t a → p t a) : D.Keeps s p x := by
  intro m hs hm
  have outcome := h m hs hm
  exact ⟨outcome.grows, outcome.sound,
    fun a ha => hp _ a (hs.trans outcome.grows) (outcome.value a ha), outcome.returned⟩

theorem pure {a : α} (h : ∀ t, s.Grows t → p t a) : D.Keeps s p (Pure.pure a) := by
  intro m hs hm
  refine ⟨.refl _, hm, fun b hb => ?_, fun v span h => by cases h⟩
  cases hb
  exact h m.store hs

theorem throw {stop : Stop} (h : ∀ t, s.Grows t → D.stop t stop) :
    D.Keeps s p (MonadExcept.throw stop) := by
  intro m hs hm
  refine ⟨.refl _, hm, fun b hb => (by cases hb), fun v span hv => ?_⟩
  cases hv
  exact h m.store hs v span rfl

theorem fail {e : Failure} : D.Keeps s p (Eval.fail e) :=
  throw fun _ _ _ _ h => by cases h

theorem ofExcept {o : Except Failure α} (h : ∀ t a, s.Grows t → o = .ok a → p t a) :
    D.Keeps s p (Eval.ofExcept o) := by
  cases o with
  | ok a => exact pure fun t hst => h t a hst rfl
  | error e => exact fail

theorem bind {x : Eval α} {f : α → Eval β} (hx : D.Keeps s p x)
    (hf : ∀ t a, s.Grows t → p t a → D.Keeps t q (f a)) : D.Keeps s q (x >>= f) := by
  intro m hs hm
  rw [KeepsFrom, Eval.bind_apply]
  have first : D.Outcome m.store p (x m) := hx m hs hm
  rcases hr : x m with ⟨r, m'⟩
  rw [hr] at first
  cases r with
  | ok a =>
    have later := hf m'.store a (hs.trans first.grows) (first.value a rfl) m' (.refl _) first.sound
    exact ⟨first.grows.trans later.grows, later.sound, later.value, later.returned⟩
  | error stop =>
    refine ⟨first.grows, first.sound, fun b hb => (by cases hb), fun v span hv => ?_⟩
    cases hv
    exact first.returned v span rfl

/-- What would follow a failure does not matter. -/
theorem fail_bind {e : Failure} {f : α → Eval β} : D.Keeps s q (Eval.fail e >>= f) :=
  (fail (p := fun _ _ => False)).bind fun _ _ _ h => h.elim

/-- What the state is looked up for can be told from its being sound. -/
theorem get {f : Machine → Eval α}
    (h : ∀ m, s.Grows m.store → D.Sound m.store → D.KeepsFrom m p (f m)) :
    D.Keeps s p (MonadState.get >>= f) := h

theorem tryCatch {x : Eval α} {h : Stop → Eval α} (hx : D.Keeps s p x)
    (hh : ∀ t stop, s.Grows t → D.stop t stop → D.Keeps t p (h stop)) :
    D.Keeps s p (tryCatch x h) := by
  intro m hs hm
  rw [KeepsFrom, Eval.tryCatch_apply]
  have first : D.Outcome m.store p (x m) := hx m hs hm
  rcases hr : x m with ⟨r, m'⟩
  rw [hr] at first
  cases r with
  | ok a =>
    refine ⟨first.grows, first.sound, fun b hb => ?_, fun v span hv => by cases hv⟩
    cases hb
    exact first.value a rfl
  | error stop =>
    have given : D.stop m'.store stop := by
      rintro v span rfl
      exact first.returned v span rfl
    have later := hh m'.store stop (hs.trans first.grows) given m' (.refl _) first.sound
    exact ⟨first.grows.trans later.grows, later.sound, later.value, later.returned⟩

theorem adapt {x : Eval α} {f : Stop → Stop} (hx : D.Keeps s p x)
    (hf : ∀ stop v span, f stop = .returned v span → stop = .returned v span) :
    D.Keeps s p (ExceptT.adapt f x) := by
  intro m hs hm
  rw [KeepsFrom, Eval.adapt_apply]
  have first : D.Outcome m.store p (x m) := hx m hs hm
  rcases hr : x m with ⟨r, m'⟩
  rw [hr] at first
  cases r with
  | ok a =>
    refine ⟨first.grows, first.sound, fun b hb => ?_, fun v span hv => by cases hv⟩
    cases hb
    exact first.value a rfl
  | error stop =>
    refine ⟨first.grows, first.sound, fun b hb => (by cases hb), fun v span hv => ?_⟩
    have same : f stop = .returned v span := Except.error.inj hv
    exact first.returned v span (congrArg Except.error (hf stop v span same))

theorem completed {x : Eval α} (hx : D.Keeps s p x) (stack : CallStack) (span : Span) :
    D.Keeps s p (Eval.completed stack span x) := by
  refine hx.adapt fun stop v place h => ?_
  cases stop <;> first | exact h | cases h

/-! ### Lists and options -/

/-- Results that are told from what they come from, as by a name that they take over. -/
theorem mapM_map {γ : Type} {xs : List β} {f : β → Eval α} {g : α → γ} {k : β → γ}
    (h : ∀ b ∈ xs, D.Keeps s (fun t a => g a = k b ∧ p t a) (f b))
    (hp : ∀ {t u a}, t.Grows u → p t a → p u a) :
    D.Keeps s (fun t as => as.map g = xs.map k ∧ ∀ a ∈ as, p t a) (xs.mapM f) := by
  induction xs generalizing s with
  | nil => exact pure fun _ _ => ⟨rfl, List.forall_mem_nil _⟩
  | cons b bs ih =>
    obtain ⟨hb, hbs⟩ := List.forall_mem_cons.mp h
    rw [List.mapM_cons]
    refine hb.bind fun t a hst ⟨hname, ha⟩ => ?_
    refine (ih fun c hc => (hbs c hc).grows hst).bind fun u as htu ⟨hnames, has⟩ => ?_
    refine pure fun w huw => ⟨?_, ?_⟩
    · rw [List.map_cons, List.map_cons, hname, hnames]
    · exact List.forall_mem_cons.mpr ⟨hp (htu.trans huw) ha, fun c hc => hp huw (has c hc)⟩

theorem mapM {xs : List β} {f : β → Eval α} (h : ∀ b ∈ xs, D.Keeps s p (f b))
    (hp : ∀ {t u a}, t.Grows u → p t a → p u a) :
    D.Keeps s (fun t as => ∀ a ∈ as, p t a) (xs.mapM f) :=
  (mapM_map (g := fun _ => ()) (k := fun _ => ())
    (fun b hb => (h b hb).weaken fun _ _ _ ha => ⟨rfl, ha⟩) hp).weaken fun _ _ _ has => has.2

theorem forM {xs : List β} {f : β → Eval Unit}
    (h : ∀ b ∈ xs, D.Keeps s (fun _ _ => True) (f b)) :
    D.Keeps s (fun _ _ => True) (xs.forM f) := by
  induction xs generalizing s with
  | nil => exact pure fun _ _ => trivial
  | cons b bs ih =>
    obtain ⟨hb, hbs⟩ := List.forall_mem_cons.mp h
    exact hb.bind fun t _ hst _ => ih fun c hc => (hbs c hc).grows hst

theorem optionMapM {o : Option β} {f : β → Eval α}
    (h : ∀ b ∈ o, D.Keeps s (fun _ _ => True) (f b)) :
    D.Keeps s (fun _ _ => True) (o.mapM f) := by
  cases o with
  | none => exact pure fun _ _ => trivial
  | some b => exact (h b rfl).bind fun _ _ _ _ => pure fun _ _ => trivial

theorem discard {x : Eval α} (h : D.Keeps s p x) :
    D.Keeps s (fun _ _ => True) (Functor.discard x) :=
  h.bind (f := fun _ => Pure.pure PUnit.unit) fun _ _ _ _ => pure fun _ _ => trivial

end Keeps

/-! ## The steps that use the state -/

section Steps

variable {name : String} {stack : CallStack} {span : Span} {v : Value}

theorem keeps_value (h : D.value s v) : D.Keeps s D.value (pure v) :=
  .pure fun _ hst => value_grows hst h

theorem keeps_read (h : D.frame s stack.top.scope) :
    D.Keeps s D.value (Eval.read name stack span) := by
  unfold Eval.read
  apply Keeps.get
  intro m hs hm
  cases hv : m.store.get? stack.top.scope name with
  | some v =>
    have found := hm.get? (D.scope_frame (D.frame_grows hs h)) hv span stack.display
    exact keeps_value found m (.refl _) hm
  | none => exact Keeps.fail m (.refl _) hm

/-- Defining a name, where the discipline allows it, and going on with the value. -/
theorem keepsFrom_define {m : Machine} (hm : D.Sound m.store) {id : ScopeId}
    (hid : Machine.preludeScope ≠ id) (hv : D.value m.store v)
    (hs : D.store (m.store.define id name (v.named name))) :
    D.KeepsFrom m D.value (do Eval.define id name (v.named name); return v) := by
  have grows : m.store.Grows (m.store.define id name (v.named name)) := .define ..
  refine ⟨grows, hm.define hid ((D.modest _).named hv name) hs, fun w hw => ?_,
    fun w place hw => by cases hw⟩
  cases hw
  exact value_grows grows hv

theorem keeps_assign (h : D.frame s stack.top.scope) (hv : D.value s v) :
    D.Keeps s D.value (Eval.assign name v stack span) := by
  unfold Eval.assign
  apply Keeps.get
  intro m hs hm
  dsimp only
  split
  · rename_i owner current ho hc
    split
    · exact Keeps.fail m (.refl _) hm
    · rename_i hr
      have held := value_grows hs hv
      exact keepsFrom_define hm (hm.prelude.ne_owner ho hc hr) held
        (D.store_assign hm.store hm.prelude (D.frame_grows hs h) ho hc hr held)
  · exact Keeps.fail m (.refl _) hm

theorem keeps_declare (h : D.frame s stack.top.scope) (hv : D.value s v) :
    D.Keeps s D.value (Eval.declare name v stack span) := by
  unfold Eval.declare
  apply Keeps.get
  intro m hs hm
  dsimp only
  split
  · exact Keeps.fail m (.refl _) hm
  · rename_i hr
    have held := value_grows hs hv
    have frame := D.frame_grows hs h
    exact keepsFrom_define hm (D.frame_ne frame) held
      (D.store_declare hm.store hm.prelude frame (Bool.eq_false_iff.mpr hr) held)

theorem keeps_bindTarget (h : D.frame s stack.top.scope) (hv : D.value s v) {target : Target} :
    D.Keeps s D.value (Eval.bindTarget target v stack span) := by
  unfold Eval.bindTarget
  split
  · exact keeps_declare h hv
  · exact keeps_assign h hv

theorem keeps_freshId : D.Keeps s (fun _ _ => True) Eval.freshId :=
  fun _ _ hm => ⟨.refl _, hm, fun _ _ => trivial, fun _ _ hv => by cases hv⟩

theorem keeps_printLine (around : Surroundings) (line : String) :
    D.Keeps s (fun _ _ => True) (Eval.printLine around line span) := by
  unfold Eval.printLine
  apply Keeps.get
  intro m hs hm
  dsimp only
  split
  · exact ⟨.refl _, hm, fun _ _ => trivial, fun _ _ hv => by cases hv⟩
  · exact Keeps.fail m (.refl _) hm

/-- The scope of a program or of the script of a module. -/
theorem keeps_openTop :
    D.Keeps s D.frame (Eval.openScope (some Machine.preludeScope)) := by
  intro m hs hm
  obtain ⟨hstore, hframe⟩ := D.store_top hm.store hm.prelude
  refine ⟨.opened m.store (some Machine.preludeScope) [], ?_, fun id hid => ?_,
    fun v place hv => by cases hv⟩
  · refine hm.opened (fun p hp => ?_) (List.forall_mem_nil _) hstore
    cases hp
    exact D.scope_prelude
  · cases hid
    exact hframe

/-- The scope of a call. The steps are taken as one, as nothing is said of scopes that are half
filled. -/
theorem keeps_openCall {α : Type} {p : Store → α → Prop} {callee : Value} {f : Function}
    (hc : D.value s callee) (hd : callee.data = .func f) {function : String} {args : Arguments}
    {bs : Bindings} (hbind : f.bind function args = .ok bs) (hb : ∀ b ∈ bs, D.value s b.2)
    {next : ScopeId → Eval α} (h : ∀ t id, s.Grows t → D.frame t id → D.Keeps t p (next id)) :
    D.Keeps s p (do
      let id ← Eval.openScope (some f.closure)
      Eval.defineAll id bs
      next id) := by
  intro m hs hm
  let opened := (m.store.add (some f.closure)).defineAll m.store.next bs
  have grows : m.store.Grows opened := .opened ..
  have bound : ∀ b ∈ bs, D.value m.store b.2 := fun b hm => value_grows hs (hb b hm)
  have callee := (value_grows hs hc).self
  obtain ⟨hstore, hframe⟩ := D.store_call hm.store hm.prelude callee hd hbind bound
  have sound : D.Sound opened := by
    refine hm.opened (fun p hp => ?_) bound hstore
    cases hp
    exact (D.body callee hd).2
  have rest := h opened m.store.next (hs.trans grows) hframe { m with store := opened } (.refl _)
    sound
  exact ⟨grows.trans rest.grows, rest.sound, rest.value, rest.returned⟩

/-- The scope of a module that is part of the language. -/
theorem keeps_nativeScope {directories : List String} {bs : Bindings}
    (h : Module.native? directories name = some bs) :
    D.Keeps s (fun t id => D.allows t (.ofData (.namespace name id))) (Eval.nativeScope bs) := by
  intro m hs hm
  obtain ⟨hstore, hallows⟩ := D.store_native hm.store h
  refine ⟨.opened .., ?_, fun id hid => ?_, fun v place hv => by cases hv⟩
  · exact hm.opened (fun p hp => by cases hp) ((D.modest _).native h) hstore
  · cases hid
    exact hallows

end Steps

end Discipline

end TracedScript
