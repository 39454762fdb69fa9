import Mathlib.Data.List.Nodup
import Mathlib.Data.List.Perm.Subperm
import TracedScript.Proofs.Value.Readable
import TracedScript.Value.Equality

/-!
# Equality is an equivalence

`==` looks at the elements of arrays and tuples and at the values in dictionaries, and compares keys
by the index of one side only. Where the dictionaries in two values are indexed as they should be,
the sides can be exchanged: if each entry of one dictionary has a partner in another one of the same
length, different entries have different partners, so no entry of the other one is left over. What
is no number keeps a value from being equal to itself, unless it is a key. Main statement:
`same_is_equivalence`.
-/

namespace TracedScript

/-! ## What is compared -/

namespace Data

/-- The values inside a content that `==` compares. Keys are not among them. -/
def elements : Data → List Value
  | .array items => items
  | .tuple items => items
  | .dict d => d.entries.map (·.value)
  | _ => []

/-- A dictionary has different keys and an index that matches them. -/
def Keyed : Data → Prop
  | .dict d => d.Indexed
  | _ => True

theorem elements_subset (x : Data) : x.elements ⊆ x.parts := by
  intro u hu
  cases x with
  | array | tuple => exact hu
  | dict d =>
    obtain ⟨e, he, rfl⟩ := List.mem_map.mp hu
    exact List.mem_flatMap.mpr ⟨e, he, by simp⟩
  | _ => cases hu

/-- A float is a number. -/
def Numeric : Data → Prop
  | .float x => x.isNaN = false
  | _ => True

end Data

/-- The condition holds of the content and of all values inside it that `==` compares. -/
inductive Value.Deeply (p : Data → Prop) : Value → Prop where
  | mk {v : Value} : p v.data → (∀ u ∈ v.data.elements, Deeply p u) → Deeply p v

/-- In the values of a run all dictionaries are as they should be: see `collections_well_formed`. -/
theorem Value.WellFormed.keyed {v : Value} (h : v.WellFormed) : v.Deeply Data.Keyed := by
  induction v using Value.induction with
  | h v ih =>
    refine ⟨?_, fun u hu => ?_⟩
    · have whole := h.self
      cases hd : v.data with
      | dict d =>
        rw [hd] at whole
        exact whole.2.2
      | _ => trivial
    · have part := Data.elements_subset _ hu
      exact ih u part (h.part part)

/-- A value that can be written down has no float in it. -/
theorem Value.Readable.numeric {v : Value} (h : v.Readable) : v.Deeply Data.Numeric := by
  induction h with
  | array _ ih | tuple _ ih => exact ⟨trivial, ih⟩
  | dict _ _ _ ih => exact ⟨trivial, List.forall_mem_map.mpr ih⟩
  | _ => exact ⟨trivial, fun u hu => by cases hu⟩

/-! ## Equal contents -/

/-- Equal contents, kind by kind. -/
inductive Data.Equal : Data → Data → Prop where
  | null : Equal .null .null
  | int {n : Int64} : Equal (.int n) (.int n)
  | float {x y : Float} : (x == y) = true → Equal (.float x) (.float y)
  | str {s : String} : Equal (.str s) (.str s)
  | bool {b : Bool} : Equal (.bool b) (.bool b)
  | array {vs ws : List Value} : List.Forall₂ (fun v w => v.same w = true) vs ws →
    Equal (.array vs) (.array ws)
  | tuple {vs ws : List Value} : List.Forall₂ (fun v w => v.same w = true) vs ws →
    Equal (.tuple vs) (.tuple ws)
  | dict {d d' : Dictionary} : d.entries.length = d'.entries.length →
    Entry.sameIn d.entries d' = true → Equal (.dict d) (.dict d')
  | func {f g : Function} : f.id = g.id → Equal (.func f) (.func g)
  | builtin {f : Builtin} : Equal (.builtin f) (.builtin f)
  | exception {id : Nat} {e e' : Failure} : Equal (.exception id e) (.exception id e')
  | namespace {name name' : String} {scope : ScopeId} :
    Equal (.namespace name scope) (.namespace name' scope)

theorem Value.sameAll_iff {vs ws : List Value} :
    Value.sameAll vs ws = true ↔ List.Forall₂ (fun v w => v.same w = true) vs ws := by
  induction vs generalizing ws with
  | nil => cases ws <;> simp [Value.sameAll]
  | cons v vs ih => cases ws <;> simp [Value.sameAll, ih]

theorem Data.same_iff {x y : Data} : x.same y = true ↔ x.Equal y := by
  constructor
  · intro h
    unfold Data.same at h
    split at h
    · exact .null
    · cases eq_of_beq h
      exact .int
    · exact .float h
    · cases eq_of_beq h
      exact .str
    · cases eq_of_beq h
      exact .bool
    · exact .array (Value.sameAll_iff.mp h)
    · exact .tuple (Value.sameAll_iff.mp h)
    · rw [Bool.and_eq_true, beq_iff_eq] at h
      exact .dict h.1 h.2
    · exact .func (eq_of_beq h)
    · cases eq_of_beq h
      exact .builtin
    · cases eq_of_beq h
      exact .exception
    · cases eq_of_beq h
      exact .namespace
    · cases h
  · intro h
    cases h with
    | null => simp only [Data.same]
    | int | str | bool | builtin => simp only [Data.same, beq_self_eq_true]
    | float h => simpa only [Data.same] using h
    | array h | tuple h => simpa only [Data.same, Value.sameAll_iff] using h
    | @dict d d' hl h =>
      obtain ⟨es, index⟩ := d
      simp only [Data.same, Bool.and_eq_true, beq_iff_eq]
      exact ⟨hl, h⟩
    | func h => simpa only [Data.same, beq_iff_eq] using h
    | exception | «namespace» => simp only [Data.same, beq_self_eq_true]

/-! ## Entries with the same key -/

namespace Entry

variable {e f g : Entry} {k : Key}

def HasKey (e : Entry) (k : Key) : Prop := ∃ l, e.label.key? = some l ∧ l.same k = true

def SameKey (e f : Entry) : Prop :=
  ∃ k l : Key, e.label.key? = some k ∧ f.label.key? = some l ∧ k.same l = true

theorem SameKey.symm (h : e.SameKey f) : f.SameKey e := by
  obtain ⟨k, l, hk, hl, same⟩ := h
  exact ⟨l, k, hl, hk, Key.same_symm same⟩

theorem SameKey.trans (h : e.SameKey f) (h' : f.SameKey g) : e.SameKey g := by
  obtain ⟨k, l, hk, hl, same⟩ := h
  obtain ⟨l', m, hl', hm, same'⟩ := h'
  cases hl.symm.trans hl'
  exact ⟨k, m, hk, hm, (Key.same_congr same m).trans same'⟩

theorem HasKey.sameKey (h : e.HasKey k) (h' : f.HasKey k) : e.SameKey f := by
  obtain ⟨l, hl, same⟩ := h
  obtain ⟨m, hm, same'⟩ := h'
  exact ⟨l, m, hl, hm, (Key.same_congr same m).trans (Key.same_symm same')⟩

theorem HasKey.of_sameKey (h : e.HasKey k) (same : e.SameKey f) : f.HasKey k := by
  obtain ⟨l, hl, hk⟩ := h
  obtain ⟨l', m, hl', hm, same⟩ := same
  cases hl.symm.trans hl'
  exact ⟨m, hm, (Key.same_congr same k).symm.trans hk⟩

/-- The same key with equal values. -/
def Matches (e f : Entry) : Prop := e.SameKey f ∧ e.value.same f.value = true

end Entry

namespace Dictionary

variable {d d' : Dictionary}

/-- The dictionary has the value under the key. -/
def Holds (d : Dictionary) (k : Key) (v : Value) : Prop :=
  ∃ e ∈ d.entries, e.HasKey k ∧ e.value = v

theorem Indexed.find?_iff (h : d.Indexed) {k : Key} {e : Entry} :
    d.find? k = some e ↔ e ∈ d.entries ∧ e.HasKey k := by
  constructor
  · intro hf
    obtain ⟨i, hs, hi⟩ := Option.bind_eq_some_iff.mp hf
    obtain ⟨l, hl, same⟩ := h.slot?_iff.mp hs
    simp only [labels, List.getElem?_map, hi, Option.map_some, Option.some.injEq] at hl
    exact ⟨List.mem_of_getElem? hi, l, hl, same⟩
  · rintro ⟨he, l, hl, same⟩
    obtain ⟨i, hi⟩ := List.mem_iff_getElem?.mp he
    rw [find?, ← d.slot?_same same, h.found i e l hi hl]
    exact hi

theorem Indexed.hasKey (h : d.Indexed) {e : Entry} (he : e ∈ d.entries) : ∃ k, e.HasKey k := by
  obtain ⟨k, hk⟩ := h.hashable e he
  exact ⟨k, k, hk, Key.same_self k⟩

/-- An entry is told by its key. -/
theorem Indexed.eq_of_sameKey (h : d.Indexed) {e f : Entry} (he : e ∈ d.entries)
    (hf : f ∈ d.entries) (same : e.SameKey f) : e = f := by
  obtain ⟨k, l, hk, hl, same⟩ := same
  have first := h.find?_iff.mpr ⟨he, k, hk, same⟩
  have second := h.find?_iff.mpr ⟨hf, l, hl, Key.same_self l⟩
  exact Option.some.inj (first.symm.trans second)

theorem Indexed.nodup (h : d.Indexed) : d.entries.Nodup := by
  refine (List.pairwise_iff_forall_sublist.mpr fun {e f} sub => ?_)
  rintro rfl
  have both := List.pairwise_iff_forall_sublist.mp h.different sub
  obtain ⟨k, hk⟩ := h.hashable e (sub.subset (List.mem_cons_self ..))
  exact Bool.false_ne_true ((both k k hk hk).symm.trans (Key.same_self k))

/-- If each entry has a partner with the same key among other entries, no two have the same one. -/
theorem Indexed.exists_partners (h : d.Indexed) {fs : List Entry} {R : Entry → Entry → Prop}
    (sameKey : ∀ e f, R e f → e.SameKey f) (partner : ∀ e ∈ d.entries, ∃ f ∈ fs, R e f) :
    ∃ g : Entry → Entry, (d.entries.map g).Subperm fs ∧ ∀ e ∈ d.entries, R e (g e) := by
  have : Nonempty Entry := ⟨⟨.null, .null⟩⟩
  choose! g listed related using partner
  refine ⟨g, List.subperm_of_subset ?_ ?_, related⟩
  · refine List.Nodup.map_on (fun e he f hf heq => h.eq_of_sameKey he hf ?_) h.nodup
    have key := sameKey e (g e) (related e he)
    rw [heq] at key
    exact key.trans (sameKey f (g f) (related f hf)).symm
  · exact List.forall_mem_map.mpr listed

theorem Indexed.length_le (h : d.Indexed) {fs : List Entry}
    (partner : ∀ e ∈ d.entries, ∃ f ∈ fs, e.SameKey f) : d.entries.length ≤ fs.length := by
  obtain ⟨g, subperm, -⟩ := h.exists_partners (fun _ _ same => same) partner
  have length := subperm.length_le
  rwa [List.length_map] at length

/-- Among as many other entries, each is the partner of one. -/
theorem Indexed.partner_back (h : d.Indexed) {fs : List Entry} {R : Entry → Entry → Prop}
    (sameKey : ∀ e f, R e f → e.SameKey f) (partner : ∀ e ∈ d.entries, ∃ f ∈ fs, R e f)
    (length : d.entries.length = fs.length) : ∀ f ∈ fs, ∃ e ∈ d.entries, R e f := by
  obtain ⟨g, subperm, related⟩ := h.exists_partners sameKey partner
  have perm := subperm.perm_of_length_le (by simp [length])
  intro f hf
  obtain ⟨e, he, rfl⟩ := List.mem_map.mp (perm.mem_iff.mpr hf)
  exact ⟨e, he, related e he⟩

theorem sameIn_eq_all (es : List Entry) (d : Dictionary) :
    Entry.sameIn es d =
      es.all fun e => (e.label.key?.bind d.find?).any fun other => e.value.same other.value := by
  induction es with
  | nil => rw [Entry.sameIn, List.all_nil]
  | cons e es ih =>
    obtain ⟨label, value⟩ := e
    rw [Entry.sameIn, ih, List.all_cons]
    cases label.key?.bind d.find? <;> rfl

theorem sameIn_iff (hd : d'.Indexed) {es : List Entry} :
    Entry.sameIn es d' = true ↔ ∀ e ∈ es, ∃ f ∈ d'.entries, e.Matches f := by
  rw [sameIn_eq_all, List.all_eq_true]
  refine forall₂_congr fun e _ => ?_
  rw [Option.any_eq_true]
  constructor
  · rintro ⟨f, hf, h⟩
    obtain ⟨k, hk, hf⟩ := Option.bind_eq_some_iff.mp hf
    obtain ⟨listed, l, hl, same⟩ := hd.find?_iff.mp hf
    exact ⟨f, listed, ⟨k, l, hk, hl, Key.same_symm same⟩, h⟩
  · rintro ⟨f, listed, ⟨k, l, hk, hl, same⟩, h⟩
    have found := hd.find?_iff.mpr ⟨listed, l, hl, Key.same_symm same⟩
    exact ⟨f, Option.bind_eq_some_iff.mpr ⟨k, hk, found⟩, h⟩

end Dictionary

/-! ## Equal values -/

namespace Value

variable {u v w : Value} {us vs ws : List Value} {d d' : Dictionary}

theorem same_eq (v w : Value) : v.same w = v.data.same w.data := by
  cases v
  simp only [same]

theorem sameEach_symm (h : ∀ v ∈ vs, ∀ w ∈ ws, v.same w = true → w.same v = true)
    (hvw : List.Forall₂ (fun v w => v.same w = true) vs ws) :
    List.Forall₂ (fun w v => w.same v = true) ws vs := by
  obtain ⟨length, each⟩ := List.forall₂_iff_get.mp hvw
  exact List.forall₂_iff_get.mpr ⟨length.symm, fun i hw hv =>
    h _ (List.get_mem ..) _ (List.get_mem ..) (each i hv hw)⟩

theorem sameEach_trans (h : ∀ u ∈ us, ∀ v ∈ vs, ∀ w ∈ ws, u.same v = true → v.same w = true →
      u.same w = true)
    (huv : List.Forall₂ (fun u v => u.same v = true) us vs)
    (hvw : List.Forall₂ (fun v w => v.same w = true) vs ws) :
    List.Forall₂ (fun u w => u.same w = true) us ws := by
  obtain ⟨length, first⟩ := List.forall₂_iff_get.mp huv
  obtain ⟨length', second⟩ := List.forall₂_iff_get.mp hvw
  refine List.forall₂_iff_get.mpr ⟨length.trans length', fun i hu hw => ?_⟩
  have hv : i < vs.length := length ▸ hu
  exact h _ (List.get_mem ..) _ (List.get_mem ..) _ (List.get_mem ..) (first i hu hv)
    (second i hv hw)

theorem same_symm (hv : v.Deeply Data.Keyed) (hw : w.Deeply Data.Keyed) (h : v.same w = true) :
    w.same v = true := by
  induction hv generalizing w with
  | @mk v keyed _ ih =>
    obtain ⟨keyed', element⟩ := hw
    rw [same_eq, Data.same_iff] at h ⊢
    generalize v.data = x at h keyed ih ⊢
    generalize w.data = y at h element keyed' ⊢
    cases h with
    | null => exact .null
    | int => exact .int
    | float h =>
      obtain ⟨numbers, isNumber⟩ := Key.beq_iff_number.mp h
      exact .float (Key.beq_iff_number.mpr ⟨numbers.symm, numbers ▸ isNumber⟩)
    | str => exact .str
    | bool => exact .bool
    | array h => exact .array (sameEach_symm (fun v hv w hw => ih v hv (element w hw)) h)
    | tuple h => exact .tuple (sameEach_symm (fun v hv w hw => ih v hv (element w hw)) h)
    | @dict d d' length h =>
      have keyed : d.Indexed := keyed
      have keyed' : d'.Indexed := keyed'
      have partner := (Dictionary.sameIn_iff keyed').mp h
      have back := keyed.partner_back (fun _ _ h => h.1) partner length
      refine .dict length.symm ((Dictionary.sameIn_iff keyed).mpr fun f hf => ?_)
      obtain ⟨e, he, same, h⟩ := back f hf
      refine ⟨e, he, same.symm, ih e.value ?_ (element f.value ?_) h⟩
      · exact List.mem_map_of_mem he
      · exact List.mem_map_of_mem hf
    | func h => exact .func h.symm
    | builtin => exact .builtin
    | exception => exact .exception
    | «namespace» => exact .namespace

/-- Of the two values under a key either may be compared with the other. -/
theorem same_dict_turned (hd : (ofData (.dict d)).Deeply Data.Keyed)
    (hd' : (ofData (.dict d')).Deeply Data.Keyed) (t t' : Trace) :
    same ⟨.dict d, t⟩ ⟨.dict d', t'⟩ = (d.entries.length == d'.entries.length &&
      d.entries.all fun e =>
        (e.label.key?.bind d'.find?).any fun other => other.value.same e.value) := by
  obtain ⟨-, value⟩ := hd
  obtain ⟨keyed, value'⟩ := hd'
  have keyed : d'.Indexed := keyed
  have turned (e : Entry) (he : e ∈ d.entries) (f : Entry) (hf : f ∈ d'.entries) :
      e.value.same f.value = f.value.same e.value :=
    Bool.eq_iff_iff.mpr
      ⟨same_symm (value _ (List.mem_map_of_mem he)) (value' _ (List.mem_map_of_mem hf)),
        same_symm (value' _ (List.mem_map_of_mem hf)) (value _ (List.mem_map_of_mem he))⟩
  have each (e : Entry) (he : e ∈ d.entries) :
      ((e.label.key?.bind d'.find?).any fun other => e.value.same other.value) =
        (e.label.key?.bind d'.find?).any fun other => other.value.same e.value := by
    cases hf : e.label.key?.bind d'.find? with
    | none => rfl
    | some f =>
      obtain ⟨k, -, found⟩ := Option.bind_eq_some_iff.mp hf
      exact turned e he f (keyed.find?_iff.mp found).1
  obtain ⟨es, index⟩ := d
  rw [same_eq, Data.same, Dictionary.sameIn_eq_all]
  congr 1
  rw [Bool.eq_iff_iff, List.all_eq_true, List.all_eq_true]
  exact forall₂_congr fun e he => by rw [each e he]

theorem same_trans (hu : u.Deeply Data.Keyed) (hv : v.Deeply Data.Keyed) (hw : w.Deeply Data.Keyed)
    (h : u.same v = true) (h' : v.same w = true) : u.same w = true := by
  induction hu generalizing v w with
  | @mk u _ _ ih =>
    obtain ⟨keyed, element⟩ := hv
    obtain ⟨keyed', element'⟩ := hw
    rw [same_eq, Data.same_iff] at h h' ⊢
    generalize u.data = x at h ih ⊢
    generalize v.data = y at h h' element keyed
    generalize w.data = z at h' element' keyed' ⊢
    cases h with
    | null => exact h'
    | int => exact h'
    | float h =>
      cases h' with
      | float h' =>
        obtain ⟨numbers, isNumber⟩ := Key.beq_iff_number.mp h
        obtain ⟨numbers', -⟩ := Key.beq_iff_number.mp h'
        exact .float (Key.beq_iff_number.mpr ⟨numbers.trans numbers', isNumber⟩)
    | str => exact h'
    | bool => exact h'
    | array h =>
      cases h' with
      | array h' =>
        exact .array (sameEach_trans
          (fun u hu v hv w hw => ih u hu (element v hv) (element' w hw)) h h')
    | tuple h =>
      cases h' with
      | tuple h' =>
        exact .tuple (sameEach_trans
          (fun u hu v hv w hw => ih u hu (element v hv) (element' w hw)) h h')
    | @dict d d' length h =>
      cases h' with
      | @dict _ d'' length' h' =>
        have keyed : d'.Indexed := keyed
        have keyed' : d''.Indexed := keyed'
        refine .dict (length.trans length') ((Dictionary.sameIn_iff keyed').mpr fun e he => ?_)
        obtain ⟨f, hf, same, h⟩ := (Dictionary.sameIn_iff keyed).mp h e he
        obtain ⟨g, hg, same', h'⟩ := (Dictionary.sameIn_iff keyed').mp h' f hf
        have whole := ih e.value ?_ (element f.value ?_) (element' g.value ?_) h h'
        · exact ⟨g, hg, same.trans same', whole⟩
        · exact List.mem_map_of_mem he
        · exact List.mem_map_of_mem hf
        · exact List.mem_map_of_mem hg
    | func h =>
      cases h' with
      | func h' => exact .func (h.trans h')
    | builtin => exact h'
    | exception =>
      cases h'
      exact .exception
    | «namespace» =>
      cases h'
      exact .namespace

theorem same_self_of_numeric (hv : v.Deeply Data.Keyed) (hn : v.Deeply Data.Numeric) :
    v.same v = true := by
  induction hv with
  | @mk v keyed _ ih =>
    obtain ⟨numeric, element⟩ := hn
    rw [same_eq, Data.same_iff]
    generalize v.data = x at keyed numeric ih element ⊢
    cases x with
    | null => exact .null
    | int => exact .int
    | float x =>
      have isNumber : Key.number x ≠ .notANumber := by
        rw [Ne, ← Key.isNaN_iff_number, numeric]
        exact Bool.false_ne_true
      exact .float (Key.beq_iff_number.mpr ⟨rfl, isNumber⟩)
    | str => exact .str
    | bool => exact .bool
    | array vs => exact .array (List.forall₂_same.mpr fun u hu => ih u hu (element u hu))
    | tuple vs => exact .tuple (List.forall₂_same.mpr fun u hu => ih u hu (element u hu))
    | dict d =>
      have keyed : d.Indexed := keyed
      refine .dict rfl ((Dictionary.sameIn_iff keyed).mpr fun e he => ?_)
      obtain ⟨k, hk⟩ := keyed.hashable e he
      have listed : e.value ∈ (Data.dict d).elements := List.mem_map_of_mem he
      exact ⟨e, he, ⟨k, k, hk, hk, Key.same_self k⟩, ih _ listed (element _ listed)⟩
    | func => exact .func rfl
    | builtin => exact .builtin
    | exception => exact .exception
    | «namespace» => exact .namespace

theorem same_dict_iff (hd : d.Indexed) (hd' : d'.Indexed) (t t' : Trace) :
    same ⟨.dict d, t⟩ ⟨.dict d', t'⟩ = true ↔
      (∀ k, (∃ v, d.Holds k v) ↔ ∃ w, d'.Holds k w) ∧
      ∀ k v w, d.Holds k v → d'.Holds k w → v.same w = true := by
  have unfolded : same ⟨.dict d, t⟩ ⟨.dict d', t'⟩ = true ↔
      d.entries.length = d'.entries.length ∧ ∀ e ∈ d.entries, ∃ f ∈ d'.entries, e.Matches f := by
    rw [same_eq, Data.same_iff, ← Dictionary.sameIn_iff hd']
    exact ⟨fun | .dict length h => ⟨length, h⟩, fun ⟨length, h⟩ => .dict length h⟩
  rw [unfolded]
  constructor
  · rintro ⟨length, partner⟩
    have back := hd.partner_back (fun _ _ h => h.1) partner length
    refine ⟨fun k => ⟨?_, ?_⟩, ?_⟩
    · rintro ⟨_, e, he, key, -⟩
      obtain ⟨f, hf, same, -⟩ := partner e he
      exact ⟨f.value, f, hf, key.of_sameKey same, rfl⟩
    · rintro ⟨_, f, hf, key, -⟩
      obtain ⟨e, he, same, -⟩ := back f hf
      exact ⟨e.value, e, he, key.of_sameKey same.symm, rfl⟩
    · rintro k _ _ ⟨e, he, key, rfl⟩ ⟨f, hf, key', rfl⟩
      obtain ⟨g, hg, same, h⟩ := partner e he
      exact hd'.eq_of_sameKey hg hf ((key.of_sameKey same).sameKey key') ▸ h
  · rintro ⟨keys, values⟩
    have partner (e : Entry) (he : e ∈ d.entries) : ∃ f ∈ d'.entries, e.Matches f := by
      obtain ⟨k, key⟩ := hd.hasKey he
      obtain ⟨w, held⟩ := (keys k).mp ⟨e.value, e, he, key, rfl⟩
      obtain ⟨f, hf, key', rfl⟩ := id held
      exact ⟨f, hf, key.sameKey key', values k _ _ ⟨e, he, key, rfl⟩ held⟩
    have partner' (f : Entry) (hf : f ∈ d'.entries) : ∃ e ∈ d.entries, f.SameKey e := by
      obtain ⟨k, key⟩ := hd'.hasKey hf
      obtain ⟨_, e, he, key', -⟩ := (keys k).mpr ⟨f.value, f, hf, key, rfl⟩
      exact ⟨e, he, key.sameKey key'⟩
    refine ⟨Nat.le_antisymm (hd.length_le fun e he => ?_) (hd'.length_le partner'), partner⟩
    obtain ⟨f, hf, same, -⟩ := partner e he
    exact ⟨f, hf, same⟩

/-! ## Main statement -/

/-- `==` is symmetric and transitive on the values in which every dictionary has different keys and
an index that matches them, however deep, and among these it is reflexive on those in which, keys
apart, every float is a number. Two dictionaries are equal if they have the same keys with equal
values under them; the order of their entries does not count. -/
theorem same_is_equivalence :
    (∀ v w : Value, v.Deeply Data.Keyed → w.Deeply Data.Keyed → v.same w = true →
      w.same v = true) ∧
    (∀ u v w : Value, u.Deeply Data.Keyed → v.Deeply Data.Keyed → w.Deeply Data.Keyed →
      u.same v = true → v.same w = true → u.same w = true) ∧
    (∀ v : Value, v.Deeply Data.Keyed → v.Deeply Data.Numeric → v.same v = true) ∧
    ∀ (d d' : Dictionary) (t t' : Trace), d.Indexed → d'.Indexed →
      (same ⟨.dict d, t⟩ ⟨.dict d', t'⟩ = true ↔
        (∀ k, (∃ v, d.Holds k v) ↔ ∃ w, d'.Holds k w) ∧
        ∀ k v w, d.Holds k v → d'.Holds k w → v.same w = true) :=
  ⟨fun _ _ => same_symm, fun _ _ _ => same_trans, fun _ => same_self_of_numeric,
    fun _ _ t t' hd hd' => same_dict_iff hd hd' t t'⟩

/-- A dictionary made by two insertions. -/
def ofTwo (k l : Float) (v w : Value) : Dictionary :=
  (Dictionary.empty.insert (.float k) ⟨float k, v⟩).insert (.float l) ⟨float l, w⟩

theorem indexed_ofTwo (k l : Float) (v w : Value) : (ofTwo k l v w).Indexed :=
  ((Dictionary.InStep.empty.insert rfl).insert rfl).indexed

theorem deeply_ofTwo {p : Data → Prop} {k l : Float} (hp : p (.dict (ofTwo k l v w)))
    (hv : v.Deeply p) (hw : w.Deeply p) : (ofData (.dict (ofTwo k l v w))).Deeply p := by
  refine .mk hp (List.forall_mem_map.mpr fun e he => ?_)
  obtain old | rfl := Dictionary.mem_of_mem_insert he
  · obtain old | rfl := Dictionary.mem_of_mem_insert old
    · cases old
    · exact hv
  · exact hw

theorem deeply_atom {p : Data → Prop} {data : Data} (hp : p data) (none : data.elements = []) :
    (ofData data).Deeply p :=
  .mk hp fun u hu => by
    have hu : u ∈ data.elements := hu
    rw [none] at hu
    cases hu

/-- What is no number is found again under itself, zero under the zero of the other sign, and the
entries may stand in another order at both depths. -/
theorem same_in_another_order :
    let inner := ofData (.dict (ofTwo 3 5 (int 1) (int 2)))
    let turned := ofData (.dict (ofTwo 5 3 (int 2) (int 1)))
    let empty := ofData (.dict .empty)
    let v := ofData (.dict (ofTwo (0 / 0) 0 inner empty))
    let w := ofData (.dict (ofTwo (-0) (0 / 0) empty turned))
    v.Deeply Data.Keyed ∧ w.Deeply Data.Keyed ∧ v.Deeply Data.Numeric ∧ v.same w = true ∧
      w.same v = true ∧ w.same w = true ∧ v.same v = true := by
  intro inner turned empty v w
  have keyed {k l : Float} {v w : Value} (hv : v.Deeply Data.Keyed) (hw : w.Deeply Data.Keyed) :
      (ofData (.dict (ofTwo k l v w))).Deeply Data.Keyed :=
    deeply_ofTwo (indexed_ofTwo k l v w) hv hw
  have int_keyed (n : Int64) : (int n).Deeply Data.Keyed := deeply_atom trivial rfl
  have empty_keyed : empty.Deeply Data.Keyed := deeply_atom Dictionary.InStep.empty.indexed rfl
  have v_keyed : v.Deeply Data.Keyed := keyed (keyed (int_keyed 1) (int_keyed 2)) empty_keyed
  have w_keyed : w.Deeply Data.Keyed := keyed empty_keyed (keyed (int_keyed 2) (int_keyed 1))
  have int_numeric (n : Int64) : (int n).Deeply Data.Numeric := deeply_atom trivial rfl
  have empty_numeric : empty.Deeply Data.Numeric := deeply_atom trivial rfl
  have inner_numeric : inner.Deeply Data.Numeric :=
    deeply_ofTwo trivial (int_numeric 1) (int_numeric 2)
  have v_numeric : v.Deeply Data.Numeric := deeply_ofTwo trivial inner_numeric empty_numeric
  have there : v.same w = true := by decide +kernel
  obtain ⟨symm, trans, self, -⟩ := same_is_equivalence
  have back := symm v w v_keyed w_keyed there
  exact ⟨v_keyed, w_keyed, v_numeric, there, back, trans w v w w_keyed v_keyed w_keyed back there,
    self v v_keyed v_numeric⟩

end Value

end TracedScript
