import TracedScript.Proofs.Value.Keys

/-!
# Well-formed collections

What the constructors of collections establish: elements of one kind, and in a dictionary labels of
one kind, values of one kind and an index in step with the entries. The index is kept by position:
its `i`-th item is for the `i`-th entry, and no two of its keys are the same. Main statements:
`Dictionary.InStep.indexed`, `wellFormed_of_dict`.
-/

namespace TracedScript

/-- What runs after a result only runs if there is one. -/
theorem exists_of_bind_ok {ε α β : Type} {x : Except ε α} {f : α → Except ε β} {b : β}
    (h : (x >>= f) = .ok b) : ∃ a, x = .ok a ∧ f a = .ok b := by
  cases x with
  | error e => cases h
  | ok a => exact ⟨a, rfl, h⟩

/-- What fails is either the first of two steps or the second one. -/
theorem error_of_bind {ε α β : Type} {x : Except ε α} {f : α → Except ε β} {e : ε}
    (h : (x >>= f) = .error e) : x = .error e ∨ ∃ a, x = .ok a ∧ f a = .error e := by
  cases x with
  | error e' =>
    cases h
    exact .inl rfl
  | ok a => exact .inr ⟨a, rfl, h⟩

theorem exists_of_map_ok {ε α β : Type} {x : Except ε α} {f : α → β} {b : β}
    (h : x.map f = .ok b) : ∃ a, x = .ok a ∧ f a = b := by
  cases x with
  | error e => cases h
  | ok a => exact ⟨a, rfl, Except.ok.inj h⟩

namespace Value

/-- The values have one kind. -/
def OneKind (vs : List Value) : Prop := ∀ v ∈ vs, ∀ w ∈ vs, v.kind = w.kind

theorem OneKind.of_forall {vs : List Value} (kind : Kind) (h : ∀ v ∈ vs, v.kind = kind) :
    OneKind vs := by
  intro v hv w hw
  rw [h v hv, h w hw]

theorem OneKind.subset {vs ws : List Value} (h : OneKind ws) (hs : vs ⊆ ws) : OneKind vs :=
  fun v hv w hw => h v (hs hv) w (hs hw)

theorem oneKind_of_sameKinds {container what : String} {vs : List Value}
    (h : sameKinds container what vs = .ok ()) : OneKind vs := by
  cases vs with
  | nil => exact fun _ hv => by cases hv
  | cons first rest =>
    rw [sameKinds] at h
    split at h
    · rename_i alike
      have same := List.find?_eq_none.mp alike
      refine .of_forall first.kind (List.forall_mem_cons.mpr ⟨rfl, fun v hv => ?_⟩)
      simpa using same v hv
    · cases h

/-- Values of one kind pass the check. -/
theorem sameKinds_of_oneKind {vs : List Value} (h : OneKind vs) (container what : String) :
    sameKinds container what vs = .ok () := by
  cases vs with
  | nil => rfl
  | cons first rest =>
    have alike : rest.find? (fun v => v.kind ≠ first.kind) = none := by
      refine List.find?_eq_none.mpr fun v hv => ?_
      simpa using h v (List.mem_cons_of_mem _ hv) first (List.mem_cons_self ..)
    rw [sameKinds, alike]

theorem array_of_oneKind {vs : List Value} (h : OneKind vs) :
    array vs = .ok (ofData (.array vs)) := by
  rw [array, sameKinds_of_oneKind h]
  rfl

theorem tuple_of_oneKind {vs : List Value} (h : OneKind vs) :
    tuple vs = .ok (ofData (.tuple vs)) := by
  rw [tuple, sameKinds_of_oneKind h]
  rfl

end Value

namespace Dictionary

variable {d : Dictionary}

/-- The index says of each entry where it stands, under the key that its label is, and says nothing
else. The keys of the entries are all different. -/
structure Indexed (d : Dictionary) : Prop where
  hashable : ∀ e ∈ d.entries, ∃ k : Key, e.label.key? = some k
  different : d.entries.Pairwise fun e f =>
    ∀ k l : Key, e.label.key? = some k → f.label.key? = some l → k.same l = false
  found : ∀ (i : Nat) (e : Entry) (k : Key), d.entries[i]? = some e → e.label.key? = some k →
    d.slot? k = some i
  nothingElse : ∀ b ∈ d.index, ∃ (e : Entry) (k : Key), d.entries[b.2]? = some e ∧
    e.label.key? = some k ∧ b.1.same k = true
  once : d.index.Pairwise fun b c => b.1.same c.1 = false

/-- The index lists the entries in their order. -/
structure InStep (d : Dictionary) : Prop where
  length : d.index.length = d.entries.length
  listed : ∀ (i : Nat) (e : Entry), d.entries[i]? = some e →
    ∃ k l : Key, d.index[i]? = some (k, i) ∧ e.label.key? = some l ∧ k.same l = true
  once : d.index.Pairwise fun b c => b.1.same c.1 = false

theorem InStep.empty : Dictionary.empty.InStep := ⟨rfl, fun _ _ h => (by cases h), .nil⟩

namespace InStep

/-- What the index has at a place is for the entry at that place. -/
theorem entry (h : d.InStep) {i : Nat} {b : Key × Nat} (hb : d.index[i]? = some b) :
    b.2 = i ∧ ∃ (e : Entry) (l : Key),
      d.entries[i]? = some e ∧ e.label.key? = some l ∧ b.1.same l = true := by
  have room : i < d.entries.length := by
    rw [← h.length]
    exact (List.getElem?_eq_some_iff.mp hb).1
  obtain ⟨k, l, hk, hl, same⟩ := h.listed i _ (List.getElem?_eq_getElem room)
  rw [hb] at hk
  cases hk
  exact ⟨rfl, _, l, List.getElem?_eq_getElem room, hl, same⟩

/-- A key stands where the index lists it, as no other item before is for the same key. -/
theorem slot (h : d.InStep) {i : Nat} {k l : Key} (hk : d.index[i]? = some (k, i))
    (same : k.same l = true) : d.slot? l = some i := by
  obtain ⟨room, at_i⟩ := List.getElem?_eq_some_iff.mp hk
  have first : d.index.find? (fun b => b.1.same l) = some (k, i) := by
    refine List.find?_eq_some_iff_getElem.mpr ⟨same, i, room, at_i, fun j hj => ?_⟩
    have other := List.pairwise_iff_getElem.mp h.once j i (by omega) room hj
    rw [at_i, Key.same_comm, Key.same_congr same, Key.same_comm] at other
    simpa using other
  rw [slot?, first]
  rfl

theorem indexed (h : d.InStep) : d.Indexed where
  hashable e he := by
    obtain ⟨i, hi⟩ := List.mem_iff_getElem?.mp he
    obtain ⟨_, l, -, hl, -⟩ := h.listed i e hi
    exact ⟨l, hl⟩
  different := by
    refine List.pairwise_iff_getElem.mpr fun i j hi hj hij k l hk hl => ?_
    obtain ⟨a, k', ha, hk', hak⟩ := h.listed i _ (List.getElem?_eq_getElem hi)
    obtain ⟨b, l', hb, hl', hbl⟩ := h.listed j _ (List.getElem?_eq_getElem hj)
    cases hk.symm.trans hk'
    cases hl.symm.trans hl'
    obtain ⟨roomi, at_i⟩ := List.getElem?_eq_some_iff.mp ha
    obtain ⟨roomj, at_j⟩ := List.getElem?_eq_some_iff.mp hb
    have other := List.pairwise_iff_getElem.mp h.once i j roomi roomj hij
    rw [at_i, at_j] at other
    rw [← Key.same_congr hak, Key.same_comm, ← Key.same_congr hbl, Key.same_comm]
    exact other
  found i e k hi hk := by
    obtain ⟨a, l, ha, hl, same⟩ := h.listed i e hi
    cases hk.symm.trans hl
    exact h.slot ha same
  nothingElse b hb := by
    obtain ⟨i, hi⟩ := List.mem_iff_getElem?.mp hb
    obtain ⟨rfl, e, l, he, hl, same⟩ := h.entry hi
    exact ⟨e, l, he, hl, same⟩
  once := h.once

/-- An entry is put in the place of the one with the same key, or behind all others. -/
theorem insert (h : d.InStep) {key : Key} {e : Entry} (he : e.label.key? = some key) :
    (d.insert key e).InStep := by
  unfold Dictionary.insert
  cases hs : d.slot? key with
  | some i =>
    obtain ⟨b, hb, rfl⟩ := Option.map_eq_some_iff.mp hs
    have same := List.find?_some hb
    obtain ⟨i, hi⟩ := List.mem_iff_getElem?.mp (List.mem_of_find?_eq_some hb)
    obtain ⟨rfl, -⟩ := h.entry hi
    refine ⟨by simpa using h.length, fun j f hf => ?_, h.once⟩
    rw [List.getElem?_set] at hf
    split at hf
    · rename_i hij
      subst hij
      split at hf <;> cases hf
      exact ⟨b.1, key, hi, he, same⟩
    · exact h.listed j f hf
  | none =>
    have new : ∀ b ∈ d.index, b.1.same key = false := by
      have none := List.find?_eq_none.mp (Option.map_eq_none_iff.mp hs)
      simpa using none
    refine ⟨by simpa using h.length, fun j f hf => ?_, ?_⟩
    · dsimp only at hf ⊢
      by_cases hj : j < d.entries.length
      · rw [List.getElem?_append_left hj] at hf
        rw [List.getElem?_append_left (by rw [h.length]; exact hj)]
        exact h.listed j f hf
      · obtain rfl : j = d.entries.length := by
          have := (List.getElem?_eq_some_iff.mp hf).1
          simp at this
          omega
        rw [List.getElem?_concat_length] at hf
        cases hf
        refine ⟨key, key, ?_, he, Key.same_self key⟩
        rw [← h.length, List.getElem?_concat_length]
    · refine List.pairwise_append.mpr ⟨h.once, List.pairwise_singleton .., fun b hb c hc => ?_⟩
      obtain rfl := List.mem_singleton.mp hc
      exact new b hb

end InStep

/-- An entry that is found in a dictionary after an insertion is the new one or was there. -/
theorem mem_of_mem_insert {key : Key} {e f : Entry} (h : f ∈ (d.insert key e).entries) :
    f ∈ d.entries ∨ f = e := by
  unfold insert at h
  split at h
  · exact List.mem_or_eq_of_mem_set h
  · simpa using h

theorem key?_of_asKey {v : Value} {k : Key} (h : v.asKey = .ok k) : v.key? = some k := by
  unfold Value.asKey at h
  split at h
  · cases h
    assumption
  · cases h

/-- What all insertions together keep: the index in step, and no entries but those given. -/
theorem insertAll_spec {pairs : List (Value × Value)} {out : Dictionary}
    (h : d.insertAll pairs = .ok out) (hd : d.InStep) :
    out.InStep ∧ ∀ e ∈ out.entries, e ∈ d.entries ∨ (e.label, e.value) ∈ pairs := by
  induction pairs generalizing d with
  | nil =>
    cases h
    exact ⟨hd, fun e he => .inl he⟩
  | cons b pairs ih =>
    obtain ⟨label, value⟩ := b
    obtain ⟨key, hk, h⟩ := exists_of_bind_ok h
    obtain ⟨inStep, given⟩ := ih h (hd.insert (key?_of_asKey hk))
    refine ⟨inStep, fun e he => ?_⟩
    obtain old | new := given e he
    · obtain old | rfl := mem_of_mem_insert old
      · exact .inl old
      · exact .inr (List.mem_cons_self ..)
    · exact .inr (List.mem_cons_of_mem _ new)

end Dictionary

/-- What is asked of a collection by itself, whatever is inside its elements. -/
def Data.WellFormed : Data → Prop
  | .array items => Value.OneKind items
  | .tuple items => Value.OneKind items
  | .dict d => Value.OneKind (d.entries.map (·.label)) ∧ Value.OneKind (d.entries.map (·.value)) ∧
    d.Indexed
  | _ => True

namespace Value

variable {v : Value}

theorem wellFormed_of_array {items : List Value} (h : array items = .ok v) :
    v = ofData (.array items) ∧ v.data.WellFormed := by
  obtain ⟨⟨⟩, hk, h⟩ := exists_of_bind_ok h
  cases h
  exact ⟨rfl, oneKind_of_sameKinds hk⟩

theorem wellFormed_of_tuple {items : List Value} (h : tuple items = .ok v) :
    v = ofData (.tuple items) ∧ v.data.WellFormed := by
  obtain ⟨⟨⟩, hk, h⟩ := exists_of_bind_ok h
  cases h
  exact ⟨rfl, oneKind_of_sameKinds hk⟩

/-- A dictionary is well-formed, and its entries are from among the pairs it is built from. -/
theorem wellFormed_of_dict {pairs : List (Value × Value)} (h : dict pairs = .ok v) :
    ∃ d, v = ofData (.dict d) ∧ v.data.WellFormed ∧
      ∀ e ∈ d.entries, (e.label, e.value) ∈ pairs := by
  obtain ⟨⟨⟩, hlabels, h⟩ := exists_of_bind_ok h
  obtain ⟨⟨⟩, hvalues, h⟩ := exists_of_bind_ok h
  obtain ⟨d, hd, h⟩ := exists_of_bind_ok h
  cases h
  obtain ⟨inStep, given⟩ := Dictionary.insertAll_spec hd .empty
  have given : ∀ e ∈ d.entries, (e.label, e.value) ∈ pairs := fun e he =>
    (given e he).resolve_left (List.not_mem_nil)
  refine ⟨d, rfl, ⟨?_, ?_, inStep.indexed⟩, given⟩
  · refine (oneKind_of_sameKinds hlabels).subset fun u hu => ?_
    obtain ⟨e, he, rfl⟩ := List.mem_map.mp hu
    exact List.mem_map_of_mem (given e he)
  · refine (oneKind_of_sameKinds hvalues).subset fun u hu => ?_
    obtain ⟨e, he, rfl⟩ := List.mem_map.mp hu
    exact List.mem_map_of_mem (given e he)

end Value

end TracedScript
