import TracedScript.Machine.State

/-!
# Two runs side by side

`T.Agree p q x y`: from every state that the terms `T` allow, `x` and `y` end alike, in a state that
`T` allows, with a result that `p` allows or a stop that `q` allows; or else `x` is stuck. With `x`
and `y` the same this says what one run keeps; with different ones it says that nothing else can
come of the difference. There is one rule for each way in which runs are put together, so that
constructs are followed without opening them.
-/

namespace TracedScript

/-- How a run ends: with a result or a stop, and in a state. -/
abbrev Ending (α : Type) := Except Stop α × Machine

namespace Ending

variable {α β : Type}

/-- Goes on from a result, and from a stop not at all. -/
def next (r : Ending α) (f : α → Eval β) : Ending β :=
  match r with
  | (.ok a, m) => f a m
  | (.error s, m) => (.error s, m)

/-- Goes on from a stop, and from a result not at all. -/
def rescue (r : Ending α) (h : Stop → Eval α) : Ending α :=
  match r with
  | (.ok a, m) => (.ok a, m)
  | (.error s, m) => h s m

end Ending

namespace Eval

variable {α β : Type}

theorem bind_apply (x : Eval α) (f : α → Eval β) (m : Machine) :
    (x >>= f) m = Ending.next (x m) f := by
  have step (r : Except Stop α) (m' : Machine) :
      ExceptT.bindCont (m := StateM Machine) f r m' = Ending.next (r, m') f := by
    cases r <;> rfl
  exact step (x m).1 (x m).2

theorem bind_of_ok {x : Eval α} {a : α} {m m' : Machine} (h : x m = (.ok a, m'))
    (f : α → Eval β) : (x >>= f) m = f a m' := by
  rw [bind_apply, h]
  rfl

theorem tryCatch_apply (x : Eval α) (h : Stop → Eval α) (m : Machine) :
    (tryCatch x h) m = Ending.rescue (x m) h := by
  have step (r : Except Stop α) (m' : Machine) :
      ExceptT.tryCatch (m := StateM Machine) (fun _ => (r, m')) h m = Ending.rescue (r, m') h := by
    cases r <;> rfl
  exact step (x m).1 (x m).2

theorem adapt_apply (f : Stop → Stop) (x : Eval α) (m : Machine) :
    (ExceptT.adapt f x : Eval α) m = ((x m).1.mapError f, (x m).2) := rfl

end Eval

/-- What is agreed on for all states of two runs. -/
structure Terms where
  /-- Holds of every state between two steps. -/
  state : Machine → Prop
  /-- A stop with which the first run may leave the second, and the state it leaves it in. -/
  stuck : Stop → Machine → Prop

namespace Terms

variable {α β : Type} {T : Terms}

/-- What is known of an ending that is not stuck. -/
structure Fair (T : Terms) (p : α → Prop) (q : Stop → Prop) (r : Ending α) : Prop where
  state : T.state r.2
  value : ∀ a, r.1 = .ok a → p a
  stop : ∀ s, r.1 = .error s → q s

/-- The run ended in a stop in which it may be stuck. -/
def Stuck (T : Terms) (r : Ending α) : Prop := ∃ s, r.1 = .error s ∧ T.stuck s r.2

/-- The runs agree when they start in the given state. -/
def AgreeFrom (T : Terms) (m : Machine) (p : α → Prop) (q : Stop → Prop) (x y : Eval α) :
    Prop :=
  x m = y m ∧ T.Fair p q (x m) ∨ T.Stuck (x m)

def Agree (T : Terms) (p : α → Prop) (q : Stop → Prop) (x y : Eval α) : Prop :=
  ∀ m, T.state m → T.AgreeFrom m p q x y

namespace Agree

variable {p : α → Prop} {r : β → Prop} {q : Stop → Prop}

theorem weaken {p' : α → Prop} {q' : Stop → Prop} {x y : Eval α}
    (h : T.Agree p' q' x y) (hv : ∀ a, p' a → p a) (hs : ∀ s, q' s → q s) :
    T.Agree p q x y := by
  intro m hm
  obtain ⟨heq, hf⟩ | hstuck := h m hm
  · exact .inl ⟨heq, hf.state, fun a ha => hv a (hf.value a ha), fun s h => hs s (hf.stop s h)⟩
  · exact .inr hstuck

/-- One run beside itself. -/
theorem of_fair {x : Eval α} (h : ∀ m, T.state m → T.Fair p q (x m)) :
    T.Agree p q x x := fun m hm => .inl ⟨rfl, h m hm⟩

theorem pure {a : α} (h : p a) : T.Agree p q (pure a) (pure a) := by
  intro m hm
  refine .inl ⟨rfl, hm, fun b hb => ?_, fun s hs => ?_⟩
  · cases hb
    exact h
  · cases hs

theorem throw {s : Stop} (h : q s) :
    T.Agree p q (throw s : Eval α) (throw s : Eval α) := by
  intro m hm
  refine .inl ⟨rfl, hm, fun b hb => ?_, fun s' hs => ?_⟩
  · cases hb
  · cases hs
    exact h

theorem fail {e : Failure} (h : q (.failed e)) :
    T.Agree p q (Eval.fail e) (Eval.fail e) := throw h

theorem ofExcept {o : Except Failure α} (hv : ∀ a, o = .ok a → p a)
    (hs : ∀ e, o = .error e → q (.failed e)) :
    T.Agree p q (Eval.ofExcept o) (Eval.ofExcept o) := by
  cases o with
  | ok a => exact pure (hv a rfl)
  | error e => exact fail (hs e rfl)

theorem bind {x y : Eval α} {f g : α → Eval β} (hx : T.Agree p q x y)
    (hf : ∀ a, p a → T.Agree r q (f a) (g a)) :
    T.Agree r q (x >>= f) (y >>= g) := by
  intro m hm
  unfold AgreeFrom
  rw [Eval.bind_apply, Eval.bind_apply]
  obtain ⟨heq, hfair⟩ | ⟨s, hs, hstuck⟩ := hx m hm
  · rw [← heq]
    rcases hr : x m with ⟨r, m'⟩
    rw [hr] at hfair
    cases r with
    | ok a => exact hf a (hfair.value a rfl) m' hfair.state
    | error s =>
      refine .inl ⟨rfl, hfair.state, fun b hb => ?_, fun s' hs => ?_⟩
      · cases hb
      · cases hs
        exact hfair.stop s rfl
  · rcases hr : x m with ⟨r, m'⟩
    rw [hr] at hs hstuck
    cases hs
    exact .inr ⟨s, rfl, hstuck⟩

/-- What would follow a failure does not matter. -/
theorem fail_bind {e : Failure} {f g : α → Eval β} (h : q (.failed e)) :
    T.Agree r q (Eval.fail e >>= f) (Eval.fail e >>= g) :=
  (fail (p := fun _ => False) h).bind fun _ hf => hf.elim

/-- What the state is looked up for can be told from the terms. -/
theorem get {f g : Machine → Eval α}
    (h : ∀ m, T.state m → T.AgreeFrom m p q (f m) (g m)) :
    T.Agree p q (MonadState.get >>= f) (MonadState.get >>= g) := h

/-- A stop in which a run may be stuck must be passed on. -/
theorem tryCatch {x y : Eval α} {h k : Stop → Eval α} {q' : Stop → Prop}
    (hx : T.Agree p q' x y)
    (hh : ∀ s, q' s → T.Agree p q (h s) (k s))
    (hs : ∀ s m, T.stuck s m → h s m = (.error s, m)) :
    T.Agree p q (tryCatch x h) (tryCatch y k) := by
  intro m hm
  unfold AgreeFrom
  rw [Eval.tryCatch_apply, Eval.tryCatch_apply]
  obtain ⟨heq, hfair⟩ | ⟨s, hr, hstuck⟩ := hx m hm
  · rw [← heq]
    rcases hr : x m with ⟨r, m'⟩
    rw [hr] at hfair
    cases r with
    | ok a =>
      refine .inl ⟨rfl, hfair.state, fun b hb => ?_, fun s hs => ?_⟩
      · cases hb
        exact hfair.value a rfl
      · cases hs
    | error s => exact hh s (hfair.stop s rfl) m' hfair.state
  · rcases hx : x m with ⟨r, m'⟩
    rw [hx] at hr hstuck
    cases hr
    have passed : Ending.rescue (.error s, m') h = (.error s, m') := hs s m' hstuck
    rw [passed]
    exact .inr ⟨s, rfl, hstuck⟩

theorem adapt {x y : Eval α} {f : Stop → Stop} {q' : Stop → Prop}
    (hx : T.Agree p q' x y) (hf : ∀ s, q' s → q (f s))
    (hs : ∀ s m, T.stuck s m → T.stuck (f s) m) :
    T.Agree p q (ExceptT.adapt f x) (ExceptT.adapt f y) := by
  intro m hm
  unfold AgreeFrom
  rw [Eval.adapt_apply, Eval.adapt_apply]
  obtain ⟨heq, hfair⟩ | ⟨s, hr, hstuck⟩ := hx m hm
  · rw [← heq]
    refine .inl ⟨rfl, hfair.state, fun a ha => ?_, fun s hr => ?_⟩
    · cases h : (x m).1 with
      | ok b =>
        rw [h] at ha
        exact hfair.value a (h.trans ha)
      | error s => rw [h] at ha; cases ha
    · cases h : (x m).1 with
      | ok b => rw [h] at hr; cases hr
      | error s' =>
        rw [h] at hr
        cases hr
        exact hf s' (hfair.stop s' h)
  · exact .inr ⟨f s, by rw [hr]; rfl, hs s _ hstuck⟩

theorem discard {x y : Eval α} (h : T.Agree p q x y) :
    T.Agree (fun _ => True) q (Functor.discard x) (Functor.discard y) :=
  h.bind (f := fun _ => Pure.pure PUnit.unit) (g := fun _ => Pure.pure PUnit.unit)
    fun _ _ => pure trivial

/-! ## Lists and options -/

theorem mapM {xs : List β} {f g : β → Eval α}
    (h : ∀ b ∈ xs, T.Agree p q (f b) (g b)) :
    T.Agree (fun as => ∀ a ∈ as, p a) q (xs.mapM f) (xs.mapM g) := by
  induction xs with
  | nil => exact pure (List.forall_mem_nil _)
  | cons b bs ih =>
    obtain ⟨hb, hbs⟩ := List.forall_mem_cons.mp h
    rw [List.mapM_cons, List.mapM_cons]
    exact hb.bind fun a ha => (ih hbs).bind fun as has =>
      pure (List.forall_mem_cons.mpr ⟨ha, has⟩)

theorem forM {xs : List β} {f g : β → Eval Unit}
    (h : ∀ b ∈ xs, T.Agree (fun _ => True) q (f b) (g b)) :
    T.Agree (fun _ => True) q (xs.forM f) (xs.forM g) := by
  induction xs with
  | nil => exact pure trivial
  | cons b bs ih =>
    obtain ⟨hb, hbs⟩ := List.forall_mem_cons.mp h
    exact hb.bind fun _ _ => ih hbs

theorem optionMapM {o : Option β} {f g : β → Eval α}
    (h : ∀ b ∈ o, T.Agree p q (f b) (g b)) :
    T.Agree (fun a => ∀ b ∈ a, p b) q (o.mapM f) (o.mapM g) := by
  cases o with
  | none => exact pure (by simp)
  | some b => exact (h b rfl).bind fun a ha => pure (by simpa using ha)

end Agree

end Terms

end TracedScript
