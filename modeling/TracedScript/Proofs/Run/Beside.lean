import TracedScript.Proofs.Run.Output
import TracedScript.Proofs.Scope.Alike

/-!
# Runs that are alike

`C.Beside p x y`: from states that are alike, `x` and `y` end alike, with results that `p` relates or
with stops that are alike; or else the first run has parted from the second one in a way that the
comparison `C` allows. It can do so only by a failure that no handler catches, and while the second
run may go on, nothing that has been printed is taken back. So a parting is passed on by everything
that is put around the runs. As for one run there is a rule for each way in which runs are put
together, and one for each step that uses the state.
-/

namespace TracedScript

/-- What corresponds in two runs, and how the first one may part from the second. -/
structure Comparison extends Likeness where
  /-- The stop and the state of the first run, and what the second one has printed by its end. -/
  parted : Stop → Machine → Array String → Prop
  parted_fatal : ∀ {s : Stop} {m : Machine} {out : Array String}, parted s m out →
    ∃ e : Failure, s = .failed e ∧ e.isFatal = true
  parted_complete : ∀ {s : Stop} {m : Machine} {out : Array String} (stack : CallStack)
    (span : Span), parted s m out → parted (s.complete stack span) m out
  parted_including : ∀ {s : Stop} {m : Machine} {out : Array String} (names : List String),
    parted s m out → parted s { m with including := names } out
  parted_grows : ∀ {s : Stop} {m : Machine} {out out' : Array String}, parted s m out →
    out.toList <+: out'.toList → parted s m out'

/-- The comparison in which the runs never part. -/
def Likeness.forever (K : Likeness) : Comparison where
  toLikeness := K
  parted _ _ _ := False
  parted_fatal := False.elim
  parted_complete _ _ := id
  parted_including _ := id
  parted_grows h _ := h

section

variable (K : Likeness)

structure Machine.Like (m m' : Machine) : Prop where
  store : m.store.Like K m'.store
  printed : K.output m.printed m'.printed
  including : m.including = m'.including
  nextId : K.ident m.nextId m'.nextId

inductive Stop.Like : Stop → Stop → Prop where
  | returned {v v' : Value} {s s' : Span} : v.Like K v' → K.span s s' →
    Like (.returned v s) (.returned v' s')
  | broke {s s' : Span} : K.span s s' → Like (.broke s) (.broke s')
  | continued {s s' : Span} : K.span s s' → Like (.continued s) (.continued s')
  | failed {e e' : Failure} : e.Like K e' → Like (.failed e) (.failed e')
  | exhausted : Like .exhausted .exhausted

inductive Ending.Like {α β : Type} (p : α → β → Prop) : Ending α → Ending β → Prop where
  | ok {a : α} {b : β} {m m' : Machine} : p a b → m.Like K m' → Like p (.ok a, m) (.ok b, m')
  | error {s s' : Stop} {m m' : Machine} : s.Like K s' → m.Like K m' →
    Like p (.error s, m) (.error s', m')

/-- Frames in which code runs alike. -/
structure Likeness.Frames (c c' : CallStack) : Prop where
  stack : K.stack c c'
  scope : K.scope c.top.scope c'.top.scope
  inFunction : c.inFunction = c'.inFunction

end

namespace Likeness.Frames

variable {K : Likeness} {a a' : ScopeId}

theorem root (display : String) (kind : FrameKind) (ha : K.scope a a') :
    K.Frames (.root display a kind) (.root display a' kind) := ⟨K.stack_root display kind ha, ha, rfl⟩

theorem call {c c' : CallStack} (hc : K.stack c c') (display : String) (kind : FrameKind)
    (ha : K.scope a a') {t t' : Span} (ht : K.span t t') :
    K.Frames (c.call display a t kind) (c'.call display a' t' kind) :=
  ⟨K.stack_call display kind hc ha ht, ha, rfl⟩

end Likeness.Frames

theorem Stop.Like.complete {K : Likeness} {s s' : Stop} (h : s.Like K s') {c c' : CallStack}
    {t t' : Span} (hc : K.stack c c') (ht : K.span t t') :
    (s.complete c t).Like K (s'.complete c' t') := by
  cases h with
  | failed he => exact .failed (he.complete hc ht)
  | returned hv hs => exact .returned hv hs
  | broke hs => exact .broke hs
  | continued hs => exact .continued hs
  | exhausted => exact .exhausted

theorem Stop.Like.escaped {K : Likeness} {s s' : Stop} (h : s.Like K s') :
    s.escaped.Like K s'.escaped := by
  cases h with
  | failed he => exact .failed he
  | returned _ hs | broke hs | continued hs => exact .failed (.failAt _ hs)
  | exhausted => exact .exhausted

namespace Comparison

variable {α β γ δ : Type}

/-- The first run has stopped in a way that parts it from the second. -/
def Parted (C : Comparison) (r : Ending α) (r' : Ending β) : Prop :=
  ∃ s, r.1 = .error s ∧ C.parted s r.2 r'.2.printed

def BesideFrom (C : Comparison) (m m' : Machine) (p : α → β → Prop) (x : Eval α) (y : Eval β) :
    Prop :=
  Ending.Like C.toLikeness p (x m) (y m') ∨ C.Parted (x m) (y m')

def Beside (C : Comparison) (p : α → β → Prop) (x : Eval α) (y : Eval β) : Prop :=
  ∀ m m', m.Like C.toLikeness m' → C.BesideFrom m m' p x y

variable {C : Comparison} {p : α → β → Prop} {q : γ → δ → Prop}

namespace Beside

theorem pure {a : α} {b : β} (h : p a b) : C.Beside p (pure a) (pure b) :=
  fun _ _ hm => .inl (.ok h hm)

theorem throw {s s' : Stop} (h : s.Like C.toLikeness s') :
    C.Beside p (throw s : Eval α) (throw s' : Eval β) := fun _ _ hm => .inl (.error h hm)

theorem fail {e e' : Failure} (h : e.Like C.toLikeness e') :
    C.Beside p (Eval.fail e) (Eval.fail e') := throw (.failed h)

theorem ofExcept {o : Except Failure α} {o' : Except Failure β} (h : C.Results p o o') :
    C.Beside p (Eval.ofExcept o) (Eval.ofExcept o') := by
  cases h with
  | ok h => exact pure h
  | error h => exact fail h

theorem get {f : Machine → Eval α} {g : Machine → Eval β}
    (h : ∀ m m', m.Like C.toLikeness m' → C.BesideFrom m m' p (f m) (g m')) :
    C.Beside p (MonadState.get >>= f) (MonadState.get >>= g) := h

variable {x : Eval α} {y : Eval β}

theorem bind (hx : C.Beside p x y) {f : α → Eval γ} {g : β → Eval δ}
    (hf : ∀ a b, p a b → C.Beside q (f a) (g b)) [hg : ∀ b, Eval.KeepsOutput (g b)] :
    C.Beside q (x >>= f) (y >>= g) := by
  intro m m' hm
  unfold BesideFrom
  rw [Eval.bind_apply, Eval.bind_apply]
  obtain hlike | ⟨s, hs, hp⟩ := hx m m' hm
  · generalize x m = r at hlike ⊢
    generalize y m' = r' at hlike ⊢
    cases hlike with
    | ok hab hm => exact hf _ _ hab _ _ hm
    | error hs hm => exact .inl (.error hs hm)
  · -- the first run has parted, so all that counts is that the second one takes nothing back
    have grown := Ending.printed_next (y m') g
    rcases hr : x m with ⟨r, m₁⟩
    rw [hr] at hs hp
    cases hs
    exact .inr ⟨s, rfl, C.parted_grows hp grown⟩

/-- As `bind`, where it takes some steps to see that what follows takes back no output. -/
theorem bind_keeping (hx : C.Beside p x y) {f : α → Eval γ} {g : β → Eval δ}
    (hg : ∀ b, Eval.KeepsOutput (g b)) (hf : ∀ a b, p a b → C.Beside q (f a) (g b)) :
    C.Beside q (x >>= f) (y >>= g) := hx.bind hf

/-- What is done about a stop is done alike, and nothing is done about a failure that can not be
caught. -/
theorem tryCatch (hx : C.Beside p x y) {f : Stop → Eval α} {g : Stop → Eval β}
    (hg : ∀ s, Eval.KeepsOutput (g s))
    (hf : ∀ s s', s.Like C.toLikeness s' → C.Beside p (f s) (g s'))
    (hfatal : ∀ e, e.isFatal = true → f (.failed e) = MonadExcept.throw (.failed e)) :
    C.Beside p (tryCatch x f) (tryCatch y g) := by
  intro m m' hm
  unfold BesideFrom
  rw [Eval.tryCatch_apply, Eval.tryCatch_apply]
  obtain hlike | ⟨s, hs, hp⟩ := hx m m' hm
  · generalize x m = r at hlike ⊢
    generalize y m' = r' at hlike ⊢
    cases hlike with
    | ok hab hm => exact .inl (.ok hab hm)
    | error hs hm => exact hf _ _ hs _ _ hm
  · have grown := Ending.printed_rescue (y m') g
    obtain ⟨e, rfl, he⟩ := C.parted_fatal hp
    rcases hr : x m with ⟨r, m₁⟩
    rw [hr] at hs hp
    cases hs
    have passed : Ending.rescue (.error (.failed e), m₁) f = (.error (.failed e), m₁) := by
      unfold Ending.rescue
      dsimp only
      rw [hfatal e he]
      rfl
    rw [passed]
    exact .inr ⟨.failed e, rfl, C.parted_grows hp grown⟩

theorem adapt (hx : C.Beside p x y) {f g : Stop → Stop}
    (hf : ∀ s s', s.Like C.toLikeness s' → (f s).Like C.toLikeness (g s'))
    (hp : ∀ s m out, C.parted s m out → C.parted (f s) m out) :
    C.Beside p (ExceptT.adapt f x) (ExceptT.adapt g y) := by
  intro m m' hm
  unfold BesideFrom
  rw [Eval.adapt_apply, Eval.adapt_apply]
  obtain hlike | ⟨s, hs, hparted⟩ := hx m m' hm
  · generalize x m = r at hlike ⊢
    generalize y m' = r' at hlike ⊢
    cases hlike with
    | ok hab hm => exact .inl (.ok hab hm)
    | error hs hm => exact .inl (.error (hf _ _ hs) hm)
  · refine .inr ⟨f s, ?_, hp s _ _ hparted⟩
    rw [hs]
    rfl

theorem completed (hx : C.Beside p x y) {c c' : CallStack} {t t' : Span} (hc : C.stack c c')
    (ht : C.span t t') : C.Beside p (Eval.completed c t x) (Eval.completed c' t' y) :=
  hx.adapt (fun _ _ hs => hs.complete hc ht) fun _ _ _ => C.parted_complete c t

theorem discard (hx : C.Beside p x y) :
    C.Beside (fun _ _ => True) (Functor.discard x : Eval PUnit) (Functor.discard y : Eval PUnit) :=
  hx.bind (f := fun _ => Pure.pure PUnit.unit) (g := fun _ => Pure.pure PUnit.unit)
    fun _ _ _ => pure trivial

theorem whileIncluding (name : String) (hx : C.Beside p x y) :
    C.Beside p (Eval.whileIncluding name x) (Eval.whileIncluding name y) := by
  intro m m' hm
  have inner : ({ m with including := m.including ++ [name] } : Machine).Like C.toLikeness
      { m' with including := m'.including ++ [name] } :=
    ⟨hm.store, hm.printed, congrArg (· ++ [name]) hm.including, hm.nextId⟩
  have run {ε : Type} (z : Eval ε) (m : Machine) : Eval.whileIncluding name z m =
      ((z { m with including := m.including ++ [name] }).1,
        { (z { m with including := m.including ++ [name] }).2 with
          including := (z { m with including := m.including ++ [name] }).2.including.dropLast }) :=
    rfl
  unfold BesideFrom
  rw [run, run]
  obtain hlike | ⟨s, hs, hp⟩ := hx _ _ inner
  · generalize x _ = r at hlike ⊢
    generalize y _ = r' at hlike ⊢
    have popped {m m' : Machine} (h : m.Like C.toLikeness m') :
        ({ m with including := m.including.dropLast } : Machine).Like C.toLikeness
          { m' with including := m'.including.dropLast } :=
      ⟨h.store, h.printed, congrArg List.dropLast h.including, h.nextId⟩
    cases hlike with
    | ok hab h => exact .inl (.ok hab (popped h))
    | error hs h => exact .inl (.error hs (popped h))
  · exact .inr ⟨s, hs, C.parted_including _ hp⟩

/-! ## Lists and options -/

section

variable {r : γ → δ → Prop} {f : γ → Eval α} {g : δ → Eval β}
  (h : ∀ c d, r c d → C.Beside p (f c) (g d))

include h

theorem mapM [∀ d, Eval.KeepsOutput (g d)] {cs : List γ} {ds : List δ} (hr : List.Forall₂ r cs ds) :
    C.Beside (List.Forall₂ p) (cs.mapM f) (ds.mapM g) := by
  induction hr with
  | nil => exact pure .nil
  | cons hcd _ ih =>
    rw [List.mapM_cons, List.mapM_cons]
    exact (h _ _ hcd).bind fun a b hab => ih.bind fun as bs hs => pure (.cons hab hs)

theorem optionMapM {o : Option γ} {o' : Option δ} (hr : Option.Rel r o o') :
    C.Beside (Option.Rel p) (o.mapM f) (o'.mapM g) := by
  cases hr with
  | none => exact pure .none
  | some hcd =>
    exact (h _ _ hcd).bind (f := fun a => Pure.pure (some a)) (g := fun b => Pure.pure (some b))
      fun a b hab => pure (.some hab)

end

theorem forM {r : γ → δ → Prop} {f : γ → Eval Unit} {g : δ → Eval Unit}
    (h : ∀ c d, r c d → C.Beside (fun _ _ => True) (f c) (g d)) [∀ d, Eval.KeepsOutput (g d)]
    {cs : List γ} {ds : List δ} (hr : List.Forall₂ r cs ds) :
    C.Beside (fun _ _ => True) (cs.forM f) (ds.forM g) := by
  induction hr with
  | nil => exact pure trivial
  | cons hcd _ ih => exact (h _ _ hcd).bind fun _ _ _ => ih

end Beside

/-! ## The steps that use the state -/

section Steps

variable {c c' : CallStack} {t t' : Span}

theorem beside_read (name : String) (h : C.Frames c c') (ht : C.span t t') :
    C.Beside (Value.Like C.toLikeness) (Eval.read name c t) (Eval.read name c' t') := by
  unfold Eval.read
  apply Beside.get
  intro m m' hm
  have found := hm.store.get? h.scope name
  rw [C.stack_display h.stack]
  generalize m.store.get? c.top.scope name = o at found ⊢
  generalize m'.store.get? c'.top.scope name = o' at found ⊢
  cases found with
  | none => exact Beside.fail (.failAt _ ht) m m' hm
  | some hv => exact Beside.pure (hv.relocate ht _) m m' hm

theorem like_refusal? (name : String) {current current' v v' : Value}
    (hc : current.Like C.toLikeness current') (hv : v.Like C.toLikeness v') (ht : C.span t t') :
    Option.Rel (Failure.Like C.toLikeness) (Eval.refusal? name current v t)
      (Eval.refusal? name current' v' t') := by
  unfold Eval.refusal?
  rw [← hc.isReserved, ← hc.kind, ← hv.kind]
  split
  · exact .some (.failAt _ ht)
  · split
    · exact .some (hv.blame _ ht)
    · exact .none

/-- Defining a name and going on with the value. -/
theorem beside_define {a a' : ScopeId} (ha : C.scope a a') (name : String) {v v' : Value}
    (hv : v.Like C.toLikeness v') :
    C.Beside (Value.Like C.toLikeness) (do Eval.define a name (v.named name); return v)
      (do Eval.define a' name (v'.named name); return v') := by
  intro m m' hm
  have store := hm.store.define ha name (hv.named name)
  exact .inl (.ok hv ⟨store, hm.printed, hm.including, hm.nextId⟩)

theorem beside_assign (name : String) {v v' : Value} (hv : v.Like C.toLikeness v')
    (h : C.Frames c c') (ht : C.span t t') :
    C.Beside (Value.Like C.toLikeness) (Eval.assign name v c t) (Eval.assign name v' c' t') := by
  unfold Eval.assign
  apply Beside.get
  intro m m' hm
  have owner := hm.store.owner? h.scope name
  have found := hm.store.get? h.scope name
  dsimp only
  generalize m.store.owner? c.top.scope name = i at owner ⊢
  generalize m'.store.owner? c'.top.scope name = i' at owner ⊢
  generalize m.store.get? c.top.scope name = o at found ⊢
  generalize m'.store.get? c'.top.scope name = o' at found ⊢
  cases owner with
  | none => exact Beside.fail (.failAt _ ht) m m' hm
  | some howner =>
    cases found with
    | none => exact Beside.fail (.failAt _ ht) m m' hm
    | some hcurrent =>
      have refused := like_refusal? name hcurrent hv ht
      dsimp only
      generalize Eval.refusal? name _ v t = e at refused ⊢
      generalize Eval.refusal? name _ v' t' = e' at refused ⊢
      cases refused with
      | none => exact beside_define howner name hv m m' hm
      | some he => exact Beside.fail he m m' hm

theorem beside_declare (name : String) {v v' : Value} (hv : v.Like C.toLikeness v')
    (h : C.Frames c c') (ht : C.span t t') :
    C.Beside (Value.Like C.toLikeness) (Eval.declare name v c t)
      (Eval.declare name v' c' t') := by
  unfold Eval.declare
  apply Beside.get
  intro m m' hm
  have found := hm.store.get? h.scope name
  have reserved : (m.store.get? c.top.scope name).any Value.isReserved =
      (m'.store.get? c'.top.scope name).any Value.isReserved := by
    generalize m.store.get? c.top.scope name = o at found ⊢
    generalize m'.store.get? c'.top.scope name = o' at found ⊢
    cases found with
    | none => rfl
    | some hcurrent => exact hcurrent.isReserved
  dsimp only
  rw [← reserved]
  split
  · exact Beside.fail (.failAt _ ht) m m' hm
  · exact beside_define h.scope name hv m m' hm

theorem beside_bindTarget (target : Target) {v v' : Value} (hv : v.Like C.toLikeness v')
    (h : C.Frames c c') (ht : C.span t t') :
    C.Beside (Value.Like C.toLikeness) (Eval.bindTarget target v c t)
      (Eval.bindTarget target v' c' t') := by
  unfold Eval.bindTarget
  split
  · exact beside_declare target.name hv h ht
  · exact beside_assign target.name hv h ht

theorem beside_freshId : C.Beside C.ident Eval.freshId Eval.freshId := fun _ _ hm =>
  .inl (.ok hm.nextId ⟨hm.store, hm.printed, hm.including, C.ident_succ hm.nextId⟩)

theorem beside_openScope {a a' : Option ScopeId} (ha : Option.Rel C.scope a a') :
    C.Beside C.scope (Eval.openScope a) (Eval.openScope a') := fun _ _ hm =>
  .inl (.ok (C.scope_next hm.store.next)
    ⟨hm.store.add ha, hm.printed, hm.including, hm.nextId⟩)

theorem beside_defineAll {a a' : ScopeId} (ha : C.scope a a') {bs bs' : Bindings}
    (hb : bs.Like C.toLikeness bs') :
    C.Beside (fun _ _ => True) (Eval.defineAll a bs) (Eval.defineAll a' bs') := fun _ _ hm =>
  .inl (.ok trivial ⟨hm.store.defineAll ha hb, hm.printed, hm.including, hm.nextId⟩)

theorem beside_printLine (around : Surroundings) (line : String)
    (hsize : ∀ p p', C.output p p' → p.size = p'.size)
    (hpush : ∀ p p', C.output p p' → C.output (p.push line) (p'.push line)) (ht : C.span t t') :
    C.Beside (fun _ _ => True) (Eval.printLine around line t) (Eval.printLine around line t') := by
  unfold Eval.printLine
  apply Beside.get
  intro m m' hm
  dsimp only
  rw [hsize _ _ hm.printed]
  split
  · exact .inl (.ok trivial ⟨hm.store, hpush _ _ hm.printed, hm.including, hm.nextId⟩)
  · exact Beside.fail (.failAt _ ht) m m' hm

end Steps

/-- Runs that never part end alike. -/
theorem Beside.ending {K : Likeness} {p : α → β → Prop} {x : Eval α} {y : Eval β}
    (h : K.forever.Beside p x y) {m m' : Machine} (hm : m.Like K m') :
    Ending.Like K p (x m) (y m') := by
  obtain hlike | ⟨s, -, hp⟩ := h m m' hm
  · exact hlike
  · exact hp.elim

end Comparison

theorem Likeness.Reflexive.machine {K : Likeness} (h : K.Reflexive) {m : Machine}
    (ho : K.output m.printed m.printed) : m.Like K m :=
  ⟨h.store m.store, ho, rfl, h.ident m.nextId⟩

namespace Likeness.Exact

variable {K : Likeness} (hK : K.Exact)

include hK

theorem stop {s s' : Stop} (h : s.Like K s') : s = s' := by
  cases h with
  | returned hv hs => rw [hK.value hv, hK.span hs]
  | broke hs | continued hs => rw [hK.span hs]
  | failed he => rw [hK.failure he]
  | exhausted => rfl

theorem machine (hr : K.Reflexive) (ho : ∀ p p', K.output p p' → p = p') {m m' : Machine}
    (h : m.Like K m') : m = m' := by
  obtain ⟨store, printed, including, nextId⟩ := m
  obtain ⟨store', printed', including', nextId'⟩ := m'
  obtain ⟨hstore, hprinted, rfl, hid⟩ := h
  obtain rfl := hK.store hr hstore
  obtain rfl := ho _ _ hprinted
  obtain rfl := hK.ident hid
  rfl

theorem ending (hr : K.Reflexive) (ho : ∀ p p', K.output p p' → p = p') {α : Type}
    {p : α → α → Prop} (hp : ∀ a b, p a b → a = b) {r r' : Ending α} (h : Ending.Like K p r r') :
    r = r' := by
  cases h with
  | ok hab hm => rw [hp _ _ hab, hK.machine hr ho hm]
  | error hs hm => rw [hK.stop hs, hK.machine hr ho hm]

end Likeness.Exact

theorem Ending.Like.machine {K : Likeness} {α β : Type} {p : α → β → Prop} {r : Ending α}
    {r' : Ending β} (h : Ending.Like K p r r') : r.2.Like K r'.2 := by
  cases h <;> assumption

end TracedScript
