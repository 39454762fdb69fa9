import TracedScript.Proofs.Run.Obedience

/-!
# All collections are well-formed

However a collection comes about, by a literal, a conversion, a range or a module of the language,
one of the constructors has built it, and contents never change. So no run ever holds an ill-formed
collection, in no value, whatever it is inside of. Main statement: `collections_well_formed`.
-/

namespace TracedScript

/-- All collections in the value, itself included, are well-formed; the defaults of a function are
in it. -/
def Value.WellFormed (v : Value) : Prop := v.Throughout fun w => w.data.WellFormed

theorem Value.modest_wellFormed : Modest fun w => w.data.WellFormed where
  moved h hd _ _ := hd ▸ h
  plain _ hw := hw

/-- Where a value has been does not matter. -/
theorem Value.WellFormed.of_data {v w : Value} (h : v.WellFormed) (hd : w.data = v.data) :
    w.WellFormed := by
  unfold WellFormed at h ⊢
  rw [throughout_iff] at h ⊢
  rw [hd]
  exact h

/-- All values bound in the scopes of the store are well-formed. -/
def Store.WellFormed (s : Store) : Prop := ∀ id, ∀ b ∈ s.bindings id, b.2.WellFormed

namespace Discipline

/-- Allows well-formed collections, everywhere. -/
def wellFormed : Discipline where
  code _ := True
  scope _ := True
  frame _ id := Machine.preludeScope ≠ id
  allows _ v := v.data.WellFormed
  store _ := True
  code_child _ _ := trivial
  scope_prelude := trivial
  scope_frame _ := trivial
  frame_ne h := h
  frame_grows _ h := h
  modest _ := Value.modest_wellFormed
  allows_grows _ h := h
  allows_namespace _ := trivial
  scope_namespace _ _ := trivial
  allows_function _ _ _ _ _ _ := trivial
  body _ _ := ⟨fun _ _ => trivial, trivial⟩
  store_top _ hp := ⟨trivial, (hp.opened_ne (some Machine.preludeScope) []).1⟩
  store_call _ hp _ _ _ _ := ⟨trivial, (hp.opened_ne none []).1⟩
  store_native _ _ := ⟨trivial, trivial⟩
  store_assign _ _ _ _ _ _ _ := trivial
  store_declare _ _ _ _ _ := trivial

variable {m : Machine} {around : Surroundings} {name text : String}

theorem covers_wellFormed : wellFormed.Covers around := fun _ _ _ _ _ _ _ _ => trivial

theorem reads_wellFormed : wellFormed.Reads name text := fun _ _ _ _ => trivial

theorem Sound.wellFormed {s : Store} (h : wellFormed.Sound s) : s.WellFormed :=
  fun id b hb => Value.WellFormed.of_data (h.bindings id trivial b hb default "") rfl

theorem wellFormed_reached (h : m.Reached) : wellFormed.Sound m.store :=
  Universal.reached ⟨.initial trivial, fun _ => covers_wellFormed, fun _ _ => reads_wellFormed⟩ h

end Discipline

/-- In every visit of every run that can be made, all elements of an array or tuple have one kind,
and of a dictionary all labels and all values have one; its labels are keys, no two of them the
same, and its index maps each to the place of its entry and maps nothing else. This holds of the
values bound in any scope before and after the visit, of the value that it gives or returns, and of
all values inside these; the same holds after the run and of the values that it gives. -/
theorem collections_well_formed {m : Machine} (hm : m.Reached) (around : Surroundings) (n : Nat)
    (name text : String) :
    (∀ u, m.Visits around n name text u →
      u.machine.store.WellFormed ∧ (u.ending around).2.store.WellFormed ∧
      (∀ v, (u.ending around).1 = .ok v → v.WellFormed) ∧
      ∀ v span, (u.ending around).1 = .error (.returned v span) → v.WellFormed) ∧
    (m.run around n name text).2.store.WellFormed ∧
    ∀ vs, (m.run around n name text).1 = .ok vs → ∀ v ∈ vs, v.WellFormed := by
  have sound := Discipline.wellFormed_reached hm
  refine ⟨fun u hu => ?_, ?_⟩
  · have meets := hu.meets Discipline.covers_wellFormed sound Discipline.reads_wellFormed
    have outcome : Discipline.wellFormed.Outcome u.machine.store _ (u.ending around) :=
      meets.ending Discipline.covers_wellFormed
    exact ⟨meets.sound.wellFormed, outcome.sound.wellFormed, outcome.value, outcome.returned⟩
  · have after : Discipline.wellFormed.After m (m.run around n name text) :=
      Discipline.after_run sound Discipline.covers_wellFormed n Discipline.reads_wellFormed
    exact ⟨after.sound.wellFormed, after.values⟩

/-- The run has ended with a single value, a dictionary with one entry. -/
def givesOneEntry : Except ProgramError (List Value) × Machine → Bool
  | (.ok [⟨.dict d, _⟩], _) => d.entries.length = 1
  | _ => false

/-- Two entries with one key make a dictionary of one entry, with an index for that one. -/
theorem repeated_key_well_formed :
    ∃ d trace m, Machine.initial.run ⟨.standard, .empty [], none⟩ 9 "main"
        "\x7b(1, 2): [1], (1, 2): [2, 3]\x7d" = (.ok [⟨.dict d, trace⟩], m) ∧
      d.entries.length = 1 ∧ d.Indexed ∧ m.store.WellFormed := by
  have gives : givesOneEntry (Machine.initial.run ⟨.standard, .empty [], none⟩ 9 "main"
      "\x7b(1, 2): [1], (1, 2): [2, 3]\x7d") = true := by
    decide +kernel
  obtain ⟨after, values⟩ := (collections_well_formed .initial ⟨.standard, .empty [], none⟩ 9 "main"
    "\x7b(1, 2): [1], (1, 2): [2, 3]\x7d").2
  rcases hr : Machine.initial.run ⟨.standard, .empty [], none⟩ 9 "main"
    "\x7b(1, 2): [1], (1, 2): [2, 3]\x7d" with ⟨r, m⟩
  rw [hr] at gives after values
  unfold givesOneEntry at gives
  split at gives
  · rename_i d trace m' heq
    cases heq
    have whole : Value.WellFormed ⟨.dict d, trace⟩ := values _ rfl _ (List.mem_singleton_self _)
    have here : Data.WellFormed (.dict d) := whole.self
    exact ⟨d, trace, m, rfl, of_decide_eq_true gives, here.2.2, after⟩
  · cases gives

end TracedScript
