import TracedScript.Proofs.Run.Collections
import TracedScript.Proofs.Value.Operations

/-!
# Values that can be written down

Which values have a literal that stands for them, and when two values can stand in for each other:
`Value.Twin` says that neither `==` nor `repr` nor their use as keys tells them apart. Collections
with twins in the same places are twins: `Twin.array`, `Twin.tuple` and `Twin.dict`.
-/

namespace TracedScript

/-- Between quotes the character shows as itself or as an escape that string literals have. -/
def Text.Quotable (c : Char) : Prop := quoteChar c = [c] ∨ c ∈ ['\x22', '\\', '\n', '\t']

instance (c : Char) : Decidable (Text.Quotable c) :=
  inferInstanceAs (Decidable (Text.quoteChar c = [c] ∨ c ∈ ['\x22', '\\', '\n', '\t']))

namespace Value

/-- A value built from null, truth values, whole numbers but the least one, and strings of quotable
characters. The least number has no literal, as its digits alone are no number. -/
inductive Readable : Value → Prop where
  | null {trace : Trace} : Readable ⟨.null, trace⟩
  | bool {b : Bool} {trace : Trace} : Readable ⟨.bool b, trace⟩
  | int {n : Int64} {trace : Trace} : n ≠ Int64.minValue → Readable ⟨.int n, trace⟩
  | str {s : String} {trace : Trace} : (∀ c ∈ s.toList, Text.Quotable c) → Readable ⟨.str s, trace⟩
  | array {items : List Value} {trace : Trace} :
    (∀ v ∈ items, Readable v) → Readable ⟨.array items, trace⟩
  | tuple {items : List Value} {trace : Trace} :
    (∀ v ∈ items, Readable v) → Readable ⟨.tuple items, trace⟩
  | dict {d : Dictionary} {trace : Trace} : (∀ e ∈ d.entries, Readable e.label) →
    (∀ e ∈ d.entries, Readable e.value) → Readable ⟨.dict d, trace⟩

/-- Nothing tells the values apart but where they have been. -/
structure Twin (v w : Value) : Prop where
  kind : v.kind = w.kind
  key? : v.key? = w.key?
  repr : v.repr = w.repr
  same_left : ∀ u, v.same u = w.same u
  same_right : ∀ u : Value, u.same v = u.same w

end Value

/-! ## Dictionaries with the same keys -/

namespace Dictionary

variable {d d' : Dictionary}

theorem slot?_same (d : Dictionary) {k l : Key} (h : k.same l = true) : d.slot? k = d.slot? l := by
  have alike (b : Key × Nat) : b.1.same k = b.1.same l := by
    rw [Key.same_comm, Key.same_congr h, Key.same_comm]
  unfold slot?
  simp only [alike]

/-- The keys of the entries, in their order. -/
def labels (d : Dictionary) : List (Option Key) := d.entries.map (·.label.key?)

theorem Indexed.slot?_iff (h : d.Indexed) {k : Key} {i : Nat} :
    d.slot? k = some i ↔ ∃ l, d.labels[i]? = some (some l) ∧ l.same k = true := by
  have at_place (l : Key) : d.labels[i]? = some (some l) ↔
      ∃ e, d.entries[i]? = some e ∧ e.label.key? = some l := by
    simp [labels]
  constructor
  · intro hs
    obtain ⟨b, hb, rfl⟩ := Option.map_eq_some_iff.mp hs
    obtain ⟨e, l, he, hl, same⟩ := h.nothingElse b (List.mem_of_find?_eq_some hb)
    have asked : b.1.same k = true := by simpa using List.find?_some hb
    exact ⟨l, (at_place l).mpr ⟨e, he, hl⟩, (Key.same_congr same k).symm.trans asked⟩
  · rintro ⟨l, hl, same⟩
    obtain ⟨e, he, hl⟩ := (at_place l).mp hl
    rw [← d.slot?_same same]
    exact h.found i e l he hl

/-- Where a key stands is told by the keys of the entries alone. -/
theorem Indexed.slot?_eq (h : d.Indexed) (h' : d'.Indexed) (hl : d.labels = d'.labels) (k : Key) :
    d.slot? k = d'.slot? k := by
  apply Option.ext
  intro i
  rw [h.slot?_iff, h'.slot?_iff, hl]

end Dictionary

namespace Value.Twin

variable {v w : Value} {vs ws : List Value} {d d' : Dictionary} {t t' : Trace}

/-! ## Twins inside collections -/

/-- The text of a function depends on the name that it is bound to, other texts do not. -/
theorem of_data {data : Data} (h : ∀ f, data ≠ .func f) : Twin ⟨data, t⟩ ⟨data, t'⟩ where
  kind := rfl
  key? := rfl
  repr := by
    cases data with
    | func f => exact absurd rfl (h f)
    | bool b => cases b <;> rfl
    | tuple items =>
      cases items with
      | nil => rfl
      | cons v vs => cases vs <;> rfl
    | dict d => cases d; rfl
    | _ => rfl
  same_left u := by simp only [same]
  same_right u := by cases u; simp only [same]

theorem sameAll_left (h : List.Forall₂ Twin vs ws) (us : List Value) :
    Value.sameAll vs us = Value.sameAll ws us := by
  induction h generalizing us with
  | nil => rfl
  | cons h _ ih =>
    cases us with
    | nil => simp only [Value.sameAll]
    | cons u us => rw [Value.sameAll, Value.sameAll, h.same_left, ih]

theorem sameAll_right (h : List.Forall₂ Twin vs ws) (us : List Value) :
    Value.sameAll us vs = Value.sameAll us ws := by
  induction h generalizing us with
  | nil => rfl
  | cons h _ ih =>
    cases us with
    | nil => simp only [Value.sameAll]
    | cons u us => rw [Value.sameAll, Value.sameAll, h.same_right, ih]

theorem reprs (h : List.Forall₂ Twin vs ws) : Value.reprs vs = Value.reprs ws :=
  Value.Like.reprs (h.imp fun _ _ hvw => hvw.repr)

theorem array (h : List.Forall₂ Twin vs ws) : Twin ⟨.array vs, t⟩ ⟨.array ws, t'⟩ where
  kind := rfl
  key? := rfl
  repr := by simp only [Value.repr, Data.repr, reprs h]
  same_left u := by
    obtain ⟨data, _⟩ := u
    cases data with
    | array us =>
      simp only [same, Data.same]
      exact sameAll_left h us
    | _ => simp only [same, Data.same]
  same_right u := by
    obtain ⟨data, _⟩ := u
    cases data with
    | array us =>
      simp only [same, Data.same]
      exact sameAll_right h us
    | _ => simp only [same, Data.same]

theorem tuple (h : List.Forall₂ Twin vs ws) : Twin ⟨.tuple vs, t⟩ ⟨.tuple ws, t'⟩ where
  kind := rfl
  key? := by
    have keys := Value.Like.keys? (h.imp fun _ _ hvw => hvw.key?)
    simp only [Value.key?, Data.key?, keys]
  repr := by
    have items := reprs h
    cases h with
    | nil => rfl
    | cons h hs =>
      cases hs with
      | nil => simp only [Value.repr, Data.repr, h.repr]
      | cons => rw [Value.repr, Value.repr, Data.repr, Data.repr, items] <;> simp
  same_left u := by
    obtain ⟨data, _⟩ := u
    cases data with
    | tuple us =>
      simp only [same, Data.same]
      exact sameAll_left h us
    | _ => simp only [same, Data.same]
  same_right u := by
    obtain ⟨data, _⟩ := u
    cases data with
    | tuple us =>
      simp only [same, Data.same]
      exact sameAll_right h us
    | _ => simp only [same, Data.same]

theorem labels (h : List.Forall₂ (Entry.Alike Twin) d.entries d'.entries) :
    d.labels = d'.labels := by
  unfold Dictionary.labels
  rw [← List.forall₂_eq_eq_eq, List.forall₂_map_left_iff, List.forall₂_map_right_iff]
  refine h.imp fun _ _ he => ?_
  obtain ⟨hl, -⟩ := he
  exact hl.key?

theorem find? (h : List.Forall₂ (Entry.Alike Twin) d.entries d'.entries) (hd : d.Indexed)
    (hd' : d'.Indexed) (k : Key) : Option.Rel (Entry.Alike Twin) (d.find? k) (d'.find? k) := by
  unfold Dictionary.find?
  rw [hd.slot?_eq hd' (labels h)]
  cases d'.slot? k with
  | none => exact .none
  | some i => exact forall₂_getElem? h i

theorem sameIn_left {es es' : List Entry} (h : List.Forall₂ (Entry.Alike Twin) es es')
    (u : Dictionary) : Entry.sameIn es u = Entry.sameIn es' u := by
  induction h with
  | nil => rfl
  | cons h _ ih =>
    obtain ⟨hl, hv⟩ := h
    rw [Entry.sameIn, Entry.sameIn, ih, hl.key?]
    congr 1
    cases Option.bind _ _ with
    | none => rfl
    | some other => exact hv.same_left other.value

theorem sameIn_right (h : List.Forall₂ (Entry.Alike Twin) d.entries d'.entries) (hd : d.Indexed)
    (hd' : d'.Indexed) (es : List Entry) : Entry.sameIn es d = Entry.sameIn es d' := by
  induction es with
  | nil => simp only [Entry.sameIn]
  | cons e es ih =>
    obtain ⟨label, value⟩ := e
    rw [Entry.sameIn, Entry.sameIn, ih]
    congr 1
    cases label.key? with
    | none => rfl
    | some k =>
      have found := find? h hd hd' k
      rw [Option.bind_some, Option.bind_some]
      generalize d.find? k = o at found ⊢
      generalize d'.find? k = o' at found ⊢
      cases found with
      | none => rfl
      | some h =>
        obtain ⟨-, hv⟩ := h
        exact hv.same_right value

theorem dict (h : List.Forall₂ (Entry.Alike Twin) d.entries d'.entries) (hd : d.Indexed)
    (hd' : d'.Indexed) : Twin ⟨.dict d, t⟩ ⟨.dict d', t'⟩ where
  kind := rfl
  key? := rfl
  repr := by
    have entries := Value.Like.entryReprs (h.imp fun _ _ he => by
      obtain ⟨hl, hv⟩ := he
      exact .mk hl.repr hv.repr)
    obtain ⟨es, index⟩ := d
    obtain ⟨es', index'⟩ := d'
    simp only [Value.repr, Data.repr, entries]
  same_left u := by
    obtain ⟨data, _⟩ := u
    obtain ⟨es, index⟩ := d
    obtain ⟨es', index'⟩ := d'
    cases data with
    | dict u =>
      simp only [same, Data.same]
      rw [h.length_eq, sameIn_left h]
    | _ => simp only [same, Data.same]
  same_right u := by
    obtain ⟨data, _⟩ := u
    cases data with
    | dict u =>
      obtain ⟨us, index⟩ := u
      simp only [same, Data.same]
      rw [h.length_eq, sameIn_right h hd hd']
    | _ => simp only [same, Data.same]

end Value.Twin

/-! ## Collections built again -/

namespace Value

variable {vs ws : List Value}

theorem OneKind.twins (h : OneKind vs) (hw : List.Forall₂ Twin vs ws) : OneKind ws := by
  have kinds : vs.map kind = ws.map kind := by
    rw [← List.forall₂_eq_eq_eq, List.forall₂_map_left_iff, List.forall₂_map_right_iff]
    exact hw.imp fun _ _ hvw => hvw.kind
  cases vs with
  | nil =>
    cases hw
    exact h
  | cons first rest =>
    refine .of_forall first.kind fun w hm => ?_
    have listed : w.kind ∈ (first :: rest).map kind := kinds ▸ List.mem_map_of_mem hm
    obtain ⟨v, hv, same⟩ := List.mem_map.mp listed
    rw [← same]
    exact h v hv first (List.mem_cons_self ..)

end Value

namespace Dictionary

/-- All are keys, no two of them the same. -/
structure DistinctKeys (labels : List (Option Key)) : Prop where
  hashable : ∀ o ∈ labels, ∃ k, o = some k
  different : labels.Pairwise fun o o' => ∀ k l, o = some k → o' = some l → k.same l = false

theorem Indexed.distinctKeys {d : Dictionary} (h : d.Indexed) : DistinctKeys d.labels where
  hashable := List.forall_mem_map.mpr h.hashable
  different := List.pairwise_map.mpr h.different

theorem slot?_insert_of_ne {d : Dictionary} {k l : Key} {e : Entry} (hk : d.slot? k = none)
    (hl : d.slot? l = none) (h : k.same l = false) : (d.insert k e).slot? l = none := by
  rw [insert, hk]
  unfold slot? at hl ⊢
  have others := Option.map_eq_none_iff.mp hl
  rw [List.find?_append, others]
  simp [h]

/-- Entries with new keys, no two of them the same, are all put behind those that are there. -/
theorem insertAll_of_distinct {pairs : List (Value × Value)}
    (h : DistinctKeys (pairs.map (·.1.key?))) {d : Dictionary}
    (hd : ∀ b ∈ pairs, ∀ k, b.1.key? = some k → d.slot? k = none) :
    ∃ out, d.insertAll pairs = .ok out ∧
      out.entries = d.entries ++ pairs.map fun b => ⟨b.1, b.2⟩ := by
  induction pairs generalizing d with
  | nil => exact ⟨d, rfl, by simp⟩
  | cons b pairs ih =>
    obtain ⟨label, value⟩ := b
    obtain ⟨⟨k, hk⟩, hashable⟩ := List.forall_mem_cons.mp h.hashable
    obtain ⟨first, different⟩ := List.pairwise_cons.mp h.different
    obtain ⟨new, later⟩ := List.forall_mem_cons.mp hd
    have hk : label.key? = some k := hk
    have new : d.slot? k = none := new k hk
    have free (b : Value × Value) (hb : b ∈ pairs) (l : Key) (hl : b.1.key? = some l) :
        (d.insert k ⟨label, value⟩).slot? l = none := by
      refine slot?_insert_of_ne new (later b hb l hl) ?_
      exact first _ (List.mem_map_of_mem hb) k l hk hl
    obtain ⟨out, ho, entries⟩ := ih ⟨hashable, different⟩ free
    have key : label.asKey = .ok k := by rw [Value.asKey, hk]
    refine ⟨out, ?_, ?_⟩
    · rw [insertAll, key]
      exact ho
    · rw [entries, insert, new]
      simp

end Dictionary

/-- A dictionary built from twins of the entries of another one, in their order, has the same keys
with twins of the values. -/
theorem Value.dict_of_twins {d : Dictionary} (hd : Data.WellFormed (.dict d))
    {pairs : List (Value × Value)}
    (h : List.Forall₂ (fun e b => Twin e.label b.1 ∧ Twin e.value b.2) d.entries pairs) :
    ∃ d', Value.dict pairs = .ok (ofData (.dict d')) ∧
      ∀ t t', Twin ⟨.dict d, t⟩ ⟨.dict d', t'⟩ := by
  obtain ⟨oneKey, oneValue, indexed⟩ := hd
  have labels : List.Forall₂ Twin (d.entries.map (·.label)) (pairs.map (·.1)) := by
    rw [List.forall₂_map_left_iff, List.forall₂_map_right_iff]
    exact h.imp fun _ _ hb => hb.1
  have values : List.Forall₂ Twin (d.entries.map (·.value)) (pairs.map (·.2)) := by
    rw [List.forall₂_map_left_iff, List.forall₂_map_right_iff]
    exact h.imp fun _ _ hb => hb.2
  have keys : d.labels = pairs.map (·.1.key?) := by
    unfold Dictionary.labels
    rw [← List.forall₂_eq_eq_eq, List.forall₂_map_left_iff, List.forall₂_map_right_iff]
    exact h.imp fun _ _ hb => hb.1.key?
  obtain ⟨d', hi, entries⟩ := Dictionary.insertAll_of_distinct (d := .empty)
    (keys ▸ indexed.distinctKeys) fun _ _ _ _ => rfl
  have rebuilt : Value.dict pairs = .ok (ofData (.dict d')) := by
    rw [Value.dict, sameKinds_of_oneKind (oneKey.twins labels),
      sameKinds_of_oneKind (oneValue.twins values)]
    show (do return ofData (.dict (← Dictionary.empty.insertAll pairs))) = Except.ok _
    rw [hi]
    rfl
  refine ⟨d', rebuilt, fun t t' => .dict ?_ indexed ?_⟩
  · rw [entries]
    show List.Forall₂ _ _ (pairs.map _)
    rw [List.forall₂_map_right_iff]
    refine h.imp fun e _ hb => ?_
    obtain ⟨label, value⟩ := e
    exact .mk hb.1 hb.2
  · exact (Dictionary.insertAll_spec hi .empty).1.indexed

end TracedScript
