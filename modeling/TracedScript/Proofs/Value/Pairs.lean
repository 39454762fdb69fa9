import TracedScript.Proofs.Value.Equivalence
import TracedScript.Value.Access

/-!
# Dictionaries and the pairs they are made of

What a dictionary holds is told by the list of pairs that it is made of, without an index: for each
key one entry, in the order of the first pairs with these keys, which holds the label and the value
of the last one. So the dictionary can be compared with plain lists: its entries are `merged`, and
what it has under a key is the last pair with this key, `last?`. The keys are compared by `sameKey`,
which is `==` wherever every float is a number. Main statement: `dictionaries_agree_with_pairs`.
-/

namespace TracedScript

/-! ## Values as keys -/

/-- The key that a content is, kind by kind. -/
inductive Data.HasKey : Data → Key → Prop where
  | null : HasKey .null .null
  | int {n : Int64} : HasKey (.int n) (.int n)
  | float {x : Float} : HasKey (.float x) (.float x)
  | str {s : String} : HasKey (.str s) (.str s)
  | bool {b : Bool} : HasKey (.bool b) (.bool b)
  | tuple {items : List Value} {ks : List Key} : Value.keys? items = some ks →
    HasKey (.tuple items) (.tuple ks)

theorem Data.key?_iff {x : Data} {k : Key} : x.key? = some k ↔ x.HasKey k := by
  constructor
  · intro h
    cases x with
    | tuple items =>
      rw [Data.key?, Option.map_eq_some_iff] at h
      obtain ⟨ks, hks, rfl⟩ := h
      exact .tuple hks
    | null | int | float | str | bool =>
      cases h
      constructor
    | _ => cases h
  · intro h
    cases h with
    | tuple h => rw [Data.key?, h, Option.map_some]
    | _ => rfl

namespace Value

variable {v w : Value} {vs ws : List Value} {k l : Key}

/-- The value can be used as a key: it is not a collection nor a function, or it is a tuple of such
values. -/
inductive IsKey : Value → Prop where
  | atom {v : Value} : v.kind ∈ [.null, .int, .float, .str, .bool] → IsKey v
  | tuple {items : List Value} {trace : Trace} : (∀ v ∈ items, IsKey v) →
    IsKey ⟨.tuple items, trace⟩

/-- Both values are keys, and they are the same one. -/
def sameKey (v w : Value) : Bool := v.key?.any fun k => w.key?.any k.same

theorem key?_eq (v : Value) : v.key? = v.data.key? := by
  cases v
  simp only [key?]

theorem keys?_eq_some_iff : (∃ ks, keys? vs = some ks) ↔ ∀ v ∈ vs, ∃ k, v.key? = some k := by
  induction vs with
  | nil => simp [keys?]
  | cons v vs ih =>
    rw [List.forall_mem_cons, ← ih, keys?]
    cases v.key? with
    | none => simp
    | some k => cases keys? vs <;> simp

theorem isKey_iff : v.IsKey ↔ ∃ k, v.key? = some k := by
  constructor
  · intro h
    induction h with
    | @atom v h =>
      obtain ⟨data, trace⟩ := v
      cases data <;> simp [kind, Data.kind, key?, Data.key?] at h ⊢
    | @tuple items trace _ ih =>
      obtain ⟨ks, hks⟩ := keys?_eq_some_iff.mpr ih
      exact ⟨.tuple ks, by simp [key?, Data.key?, hks]⟩
  · induction v using Value.induction with
    | h v ih =>
      rintro ⟨k, hk⟩
      obtain ⟨data, trace⟩ := v
      cases data with
      | tuple items =>
        simp only [key?, Data.key?, Option.map_eq_some_iff] at hk
        obtain ⟨ks, hks, -⟩ := hk
        have each := keys?_eq_some_iff.mp ⟨ks, hks⟩
        exact .tuple fun u hu => ih u hu (each u hu)
      | null | int | float | str | bool => exact .atom (by simp [kind, Data.kind])
      | _ => simp [key?, Data.key?] at hk

theorem isKey_of_keys {ks : List Key} (h : keys? vs = some ks) : ∀ v ∈ vs, v.IsKey :=
  fun v hv => isKey_iff.mpr (keys?_eq_some_iff.mp ⟨ks, h⟩ v hv)

theorem sameKey_eq (hv : v.key? = some k) (hw : w.key? = some l) : v.sameKey w = k.same l := by
  simp [sameKey, hv, hw]

theorem sameKey_iff :
    v.sameKey w = true ↔ ∃ k l, v.key? = some k ∧ w.key? = some l ∧ k.same l = true := by
  simp [sameKey, Option.any_eq_true]

theorem sameKey_symm (h : v.sameKey w = true) : w.sameKey v = true := by
  obtain ⟨k, l, hk, hl, same⟩ := sameKey_iff.mp h
  exact sameKey_iff.mpr ⟨l, k, hl, hk, Key.same_symm same⟩

theorem sameKey_trans {u : Value} (h : u.sameKey v = true) (h' : v.sameKey w = true) :
    u.sameKey w = true := by
  obtain ⟨k, l, hk, hl, same⟩ := sameKey_iff.mp h
  obtain ⟨l', m, hl', hm, same'⟩ := sameKey_iff.mp h'
  cases hl.symm.trans hl'
  exact sameKey_iff.mpr ⟨k, m, hk, hm, (Key.same_congr same m).trans same'⟩

/-- Tuples are the same key if their items are, one by one. -/
theorem sameKeys_iff :
    (∃ ks ls, keys? vs = some ks ∧ keys? ws = some ls ∧ Key.sameAll ks ls = true) ↔
      List.Forall₂ (fun v w => v.sameKey w = true) vs ws := by
  induction vs generalizing ws with
  | nil =>
    cases ws with
    | nil => simp [keys?, Key.sameAll]
    | cons w ws => cases hw : w.key? <;> cases hws : keys? ws <;> simp [keys?, Key.sameAll, hw, hws]
  | cons v vs ih =>
    cases ws with
    | nil => cases hv : v.key? <;> cases hvs : keys? vs <;> simp [keys?, Key.sameAll, hv, hvs]
    | cons w ws =>
      rw [List.forall₂_cons, ← ih, sameKey_iff]
      constructor
      · rintro ⟨ks, ls, hks, hls, same⟩
        rw [keys?] at hks hls
        split at hks <;> cases hks
        split at hls <;> cases hls
        rw [Key.sameAll, Bool.and_eq_true] at same
        exact ⟨⟨_, _, ‹_›, ‹_›, same.1⟩, _, _, ‹_›, ‹_›, same.2⟩
      · rintro ⟨⟨k, l, hk, hl, same⟩, ks, ls, hks, hls, sames⟩
        exact ⟨k :: ks, l :: ls, by simp [keys?, hk, hks], by simp [keys?, hl, hls],
          by rw [Key.sameAll, same, sames, Bool.and_self]⟩

/-- Where every float is a number, being the same key is being equal. -/
theorem sameKey_iff_same (hn : v.Deeply Data.Numeric) (hv : v.IsKey) (w : Value) :
    v.sameKey w = true ↔ v.same w = true := by
  induction hn generalizing w with
  | @mk v numeric _ ih =>
    obtain ⟨k, hk⟩ := isKey_iff.mp hv
    rw [same_eq, Data.same_iff, sameKey_iff]
    rw [key?_eq, Data.key?_iff] at hk
    simp only [key?_eq, Data.key?_iff]
    generalize v.data = x at numeric ih hk ⊢
    generalize w.data = y
    have items {vs ws : List Value} (hvs : ∀ v ∈ vs, v.IsKey) (elements : x.elements = vs) :
        List.Forall₂ (fun v w => v.sameKey w = true) vs ws ↔
          List.Forall₂ (fun v w => v.same w = true) vs ws := by
      subst elements
      constructor
      · exact fun h => forall₂_of_mem h fun u hu w same => (ih u hu (hvs u hu) w).mp same
      · exact fun h => forall₂_of_mem h fun u hu w same => (ih u hu (hvs u hu) w).mpr same
    constructor
    · rintro ⟨k', l, hk', hl, same⟩
      cases hk' <;> cases hl <;> try cases same
      case null.refl => exact .null
      case int a b => exact eq_of_beq same ▸ .int
      case float a b =>
        have number : a.isNaN = false := numeric
        rw [Key.same, Key.sameFloat, number, Bool.false_and, Bool.or_false] at same
        exact .float same
      case str a b => exact eq_of_beq same ▸ .str
      case bool a b => exact eq_of_beq same ▸ .bool
      case tuple vs ks hks ws ls hls =>
        have each := sameKeys_iff.mp ⟨ks, ls, hks, hls, same⟩
        exact .tuple ((items (isKey_of_keys hks) rfl).mp each)
    · intro equal
      cases equal with
      | null => exact ⟨.null, .null, .null, .null, rfl⟩
      | int => exact ⟨_, _, .int, .int, Key.same_self _⟩
      | float equal => exact ⟨_, _, .float, .float, by simp [Key.same, Key.sameFloat, equal]⟩
      | str => exact ⟨_, _, .str, .str, Key.same_self _⟩
      | bool => exact ⟨_, _, .bool, .bool, Key.same_self _⟩
      | tuple equal =>
        cases hk with
        | tuple hks =>
          have each := (items (isKey_of_keys hks) rfl).mpr equal
          obtain ⟨ks, ls, hks, hls, same⟩ := sameKeys_iff.mpr each
          exact ⟨.tuple ks, .tuple ls, .tuple hks, .tuple hls, same⟩
      | _ => cases hk

end Value

theorem Entry.hasKey_iff {e : Entry} {v : Value} {k : Key} (hk : v.key? = some k) :
    e.HasKey k ↔ v.sameKey e.label = true := by
  rw [Value.sameKey_iff, HasKey]
  constructor
  · rintro ⟨l, hl, same⟩
    exact ⟨k, l, hk, hl, Key.same_symm same⟩
  · rintro ⟨k', l, hk', hl, same⟩
    cases hk.symm.trans hk'
    exact ⟨l, hl, Key.same_symm same⟩

namespace Dictionary

variable {d out : Dictionary} {k : Key} {e f : Entry} {v : Value} {b : Value × Value}
  {pairs acc : List (Value × Value)}

/-! ## One insertion -/

theorem Indexed.entry (h : d.Indexed) {i : Nat} (hs : d.slot? k = some i) :
    ∃ e, d.entries[i]? = some e ∧ e.HasKey k := by
  obtain ⟨l, hl, same⟩ := h.slot?_iff.mp hs
  obtain ⟨e, he, hl⟩ := by simpa only [labels, List.getElem?_map, Option.map_eq_some_iff] using hl
  exact ⟨e, he, l, hl, same⟩

theorem Indexed.mem_insert (h : d.Indexed) (k : Key) (e : Entry) :
    e ∈ (d.insert k e).entries := by
  unfold insert
  split
  · rename_i i hs
    obtain ⟨f, hf, -⟩ := h.entry hs
    exact List.mem_set (List.getElem?_eq_some_iff.mp hf).1 e
  · simp

theorem Indexed.mem_insert_of_mem (h : d.Indexed) (hf : f ∈ d.entries) (hk : ¬ f.HasKey k) :
    f ∈ (d.insert k e).entries := by
  unfold insert
  split
  · rename_i i hs
    obtain ⟨j, hj⟩ := List.mem_iff_getElem?.mp hf
    obtain ⟨g, hg, key⟩ := h.entry hs
    by_cases hij : i = j
    · subst hij
      rw [hg] at hj
      cases hj
      exact absurd key hk
    · apply List.mem_iff_getElem?.mpr
      exact ⟨j, by rw [List.getElem?_set_ne hij, hj]⟩
  · exact List.mem_append_left _ hf

/-- An insertion changes what is under its key, and nothing else. -/
theorem InStep.find?_insert (h : d.InStep) (he : e.label.key? = some k) (l : Key) :
    (d.insert k e).find? l = if k.same l then some e else d.find? l := by
  have after := (h.insert he).indexed
  apply Option.ext
  intro f
  rw [after.find?_iff]
  by_cases same : k.same l
  · rw [if_pos same, Option.some.injEq]
    have key : e.HasKey l := ⟨k, he, same⟩
    constructor
    · rintro ⟨hf, key'⟩
      exact after.eq_of_sameKey (h.indexed.mem_insert k e) hf (key.sameKey key')
    · rintro rfl
      exact ⟨h.indexed.mem_insert k e, key⟩
  · rw [if_neg same, h.indexed.find?_iff]
    constructor
    · rintro ⟨hf, key⟩
      obtain old | rfl := mem_of_mem_insert hf
      · exact ⟨old, key⟩
      · obtain ⟨k', hk', key⟩ := key
        cases he.symm.trans hk'
        exact absurd key same
    · rintro ⟨hf, key⟩
      refine ⟨h.indexed.mem_insert_of_mem hf fun key' => same ?_, key⟩
      obtain ⟨l', hl', same'⟩ := key
      obtain ⟨k', hk', same''⟩ := key'
      cases hl'.symm.trans hk'
      rw [← Key.same_congr same'' l]
      exact same'

/-! ## All insertions -/

/-- The last pair whose label is the same key as the value. -/
def last? (pairs : List (Value × Value)) (v : Value) : Option (Value × Value) :=
  pairs.findRev? fun b => b.1.sameKey v

/-- The first pairs with their keys, in their order. -/
def firsts (pairs : List (Value × Value)) : List (Value × Value) :=
  pairs.eraseDupsBy fun b c => b.1.sameKey c.1

/-- One pair for each key: in the order of the first pairs the last ones. -/
def merged (pairs : List (Value × Value)) : List (Value × Value) :=
  (firsts pairs).map fun b => (last? pairs b.1).getD b

theorem last?_cons (b : Value × Value) (pairs : List (Value × Value)) (v : Value) :
    last? (b :: pairs) v = (last? pairs v).or (if b.1.sameKey v then some b else none) := by
  unfold last?
  rw [List.findRev?]
  cases pairs.findRev? fun b => b.1.sameKey v <;> rfl

/-- All pairs can be inserted exactly if all their labels are keys. -/
theorem insertAll_ok_iff : (∃ out, d.insertAll pairs = .ok out) ↔ ∀ b ∈ pairs, b.1.IsKey := by
  induction pairs generalizing d with
  | nil => simp [insertAll]
  | cons b pairs ih =>
    obtain ⟨label, value⟩ := b
    rw [List.forall_mem_cons, Value.isKey_iff, insertAll, Value.asKey]
    cases hk : label.key? with
    | none => simp [bind, Except.bind]
    | some k =>
      have later := ih (d := d.insert k ⟨label, value⟩)
      simpa [bind, Except.bind] using later

/-- What is found after all insertions is the last pair with the key, or what was there. -/
theorem find?_insertAll (hd : d.InStep) (h : d.insertAll pairs = .ok out) (hv : v.key? = some k) :
    out.find? k = ((last? pairs v).map fun b => ⟨b.1, b.2⟩).or (d.find? k) := by
  induction pairs generalizing d with
  | nil =>
    cases h
    rfl
  | cons b pairs ih =>
    obtain ⟨key, hk, h⟩ := exists_of_bind_ok h
    have hk := key?_of_asKey hk
    have later := ih (hd.insert (e := ⟨b.1, b.2⟩) hk) h
    rw [later, hd.find?_insert hk, last?_cons, Value.sameKey_eq hk hv]
    cases last? pairs v <;> cases key.same k <;> rfl

/-- The entries have the keys of the pairs, one by one. -/
def Alongside (es : List Entry) (pairs : List (Value × Value)) : Prop :=
  List.Forall₂ (fun e b => b.1.sameKey e.label = true) es pairs

/-- A pair whose key is listed has the key of an entry. -/
theorem Alongside.any_iff {es : List Entry} (h : Alongside es acc.reverse)
    (hk : b.1.key? = some k) :
    acc.any (fun c => b.1.sameKey c.1) = true ↔ ∃ e ∈ es, e.HasKey k := by
  rw [← List.any_reverse, List.any_eq_true]
  generalize acc.reverse = listed at h
  induction h with
  | nil => simp
  | @cons e c _ _ same _ ih =>
    simp only [List.mem_cons, exists_eq_or_imp, ih]
    apply or_congr_left
    rw [Entry.hasKey_iff hk]
    constructor
    · exact fun h => Value.sameKey_trans h same
    · exact fun h => Value.sameKey_trans h (Value.sameKey_symm same)

/-- The keys of the entries stand in the order in which they come first. -/
theorem alongside_insertAll (hd : d.InStep) (h : d.insertAll pairs = .ok out)
    (ha : Alongside d.entries acc.reverse) :
    Alongside out.entries (List.eraseDupsBy.loop (fun b c => b.1.sameKey c.1) pairs acc) := by
  -- The accumulator holds the pairs kept so far, the last one first.
  induction pairs generalizing d acc with
  | nil =>
    cases h
    exact ha
  | cons b pairs ih =>
    obtain ⟨key, hk, h⟩ := exists_of_bind_ok h
    have hk := key?_of_asKey hk
    have next := hd.insert (e := ⟨b.1, b.2⟩) hk
    rw [List.eraseDupsBy.loop]
    cases hs : d.slot? key with
    | some i =>
      obtain ⟨e, he, key⟩ := hd.indexed.entry hs
      rw [(ha.any_iff hk).mpr ⟨e, List.mem_of_getElem? he, key⟩]
      apply ih next h
      -- The entry in slot `i` gets another label, which is the same key as the listed one.
      rw [insert, hs]
      have pair := forall₂_getElem? ha i
      rw [he] at pair
      generalize hc : acc.reverse[i]? = o at pair
      cases pair with
      | @some _ c same =>
        obtain ⟨room, rfl⟩ := List.getElem?_eq_some_iff.mp hc
        have replaced := forall₂_set ha (a := ⟨b.1, b.2⟩) (b := acc.reverse[i]) ?_ i
        · rwa [List.set_getElem_self room] at replaced
        · have asked := (Entry.hasKey_iff hk).mp key
          exact Value.sameKey_trans same (Value.sameKey_symm asked)
    | none =>
      have new : acc.any (fun c => b.1.sameKey c.1) = false := by
        rw [Bool.eq_false_iff, Ne, ha.any_iff hk]
        rintro ⟨e, he, key⟩
        have found := hd.indexed.find?_iff.mpr ⟨he, key⟩
        rw [find?, hs] at found
        cases found
      rw [new]
      apply ih next h
      rw [insert, hs, List.reverse_cons]
      apply List.rel_append ha
      exact .cons (Value.sameKey_iff.mpr ⟨key, key, hk, hk, Key.same_self key⟩) .nil

/-! ## Made of pairs -/

theorem find?_of_pairs (h : empty.insertAll pairs = .ok out) (hv : v.key? = some k) :
    (out.find? k).map (fun e => (e.label, e.value)) = last? pairs v := by
  have nothing : empty.find? k = none := rfl
  rw [find?_insertAll .empty h hv, nothing]
  cases last? pairs v <;> rfl

theorem entries_of_pairs (h : empty.insertAll pairs = .ok out) :
    out.entries.map (fun e => (e.label, e.value)) = merged pairs := by
  have indexed := (insertAll_spec h .empty).1.indexed
  have alongside : Alongside out.entries (firsts pairs) := alongside_insertAll .empty h .nil
  rw [merged, ← List.forall₂_eq_eq_eq, List.forall₂_map_left_iff, List.forall₂_map_right_iff]
  apply forall₂_of_mem alongside
  intro e he b same
  obtain ⟨k, -, hk, -, -⟩ := Value.sameKey_iff.mp same
  have found := indexed.find?_iff.mpr ⟨he, (Entry.hasKey_iff hk).mpr same⟩
  rw [← find?_of_pairs h hk, found]
  rfl

/-- The dictionary, and what programs see of it, agrees with the list of pairs. -/
structure Agrees (d : Dictionary) (pairs : List (Value × Value)) : Prop where
  entries : d.entries.map (fun e => (e.label, e.value)) = merged pairs
  find : ∀ (v : Value) (k : Key), v.key? = some k →
    (d.find? k).map (fun e => (e.label, e.value)) = last? pairs v
  length : ∀ (s : Store) (t : Trace),
    Value.member? s ⟨.dict d, t⟩ "length" = some (.int (Number.Word.ofLength (merged pairs).length))
  elements : ∀ t, Value.elements? ⟨.dict d, t⟩ = some ((merged pairs).map (·.1))
  index : ∀ (t : Trace) (v : Value) (span : Span), v.IsKey →
    Value.index ⟨.dict d, t⟩ v span =
      match last? pairs v with
      | some b => .ok b.2
      | none => .error (((Fault.missingKey v.repr).failAt span).withOrigin v.origin)
  /-- What a loop over the dictionary yields is found in it. -/
  present : ∀ (t : Trace) (span : Span), ∀ b ∈ merged pairs,
    Value.index ⟨.dict d, t⟩ b.1 span = .ok b.2

theorem index_of_key (d : Dictionary) (hv : v.key? = some k) (t : Trace) (span : Span) :
    Value.index ⟨.dict d, t⟩ v span =
      match d.find? k with
      | some e => .ok e.value
      | none => .error (((Fault.missingKey v.repr).failAt span).withOrigin v.origin) := by
  rw [Value.index, Value.asKey, hv]
  rfl

theorem agrees_of_pairs (h : empty.insertAll pairs = .ok out) : out.Agrees pairs := by
  have indexed := (insertAll_spec h .empty).1.indexed
  have entries := entries_of_pairs h
  constructor
  case entries => exact entries
  case find => exact fun v k hv => find?_of_pairs h hv
  case length =>
    intro s t
    simp [Value.member?, Value.length?, ← entries]
  case elements =>
    intro t
    simp [Value.elements?, ← entries]
  case index =>
    intro t v span hv
    obtain ⟨k, hk⟩ := Value.isKey_iff.mp hv
    rw [index_of_key out hk, ← find?_of_pairs h hk]
    cases out.find? k <;> rfl
  case present =>
    intro t span b hb
    rw [← entries] at hb
    obtain ⟨e, he, rfl⟩ := List.mem_map.mp hb
    obtain ⟨k, hk⟩ := indexed.hashable e he
    have found := indexed.find?_iff.mpr ⟨he, k, hk, Key.same_self k⟩
    rw [index_of_key out hk, found]

end Dictionary

/-! ## Main statement -/

/-- A dictionary can be made of pairs exactly if all their labels are keys, which a tuple is if all
its items are. Then it agrees with the pairs: for each key it has one entry, in the order of the
first pairs with these keys, which holds the label and the value of the last one; that value is
found under the key, and no other key is found. Two keys in which every float is a number are the
same one exactly if they are equal. -/
theorem dictionaries_agree_with_pairs :
    (∀ pairs : List (Value × Value),
      (∃ f, Dictionary.empty.insertAll pairs = .error f) ↔ ∃ b ∈ pairs, ¬ b.1.IsKey) ∧
    (∀ pairs : List (Value × Value), (∀ b ∈ pairs, b.1.IsKey) →
      ∃ d, Dictionary.empty.insertAll pairs = .ok d ∧ d.Agrees pairs) ∧
    ∀ v w : Value, v.IsKey → v.Deeply Data.Numeric → (v.sameKey w = true ↔ v.same w = true) := by
  constructor
  · intro pairs
    have possible : (∃ out, Dictionary.empty.insertAll pairs = .ok out) ↔ ∀ b ∈ pairs, b.1.IsKey :=
      Dictionary.insertAll_ok_iff
    cases made : Dictionary.empty.insertAll pairs with
    | ok d =>
      rw [made] at possible
      simpa using possible.mp ⟨d, rfl⟩
    | error f =>
      rw [made] at possible
      simpa using possible
  constructor
  · intro pairs h
    obtain ⟨d, made⟩ := Dictionary.insertAll_ok_iff.mpr h
    exact ⟨d, made, Dictionary.agrees_of_pairs made⟩
  · exact fun v w hv hn => Value.sameKey_iff_same hn hv w

open Value in
/-- What is no number is one key, and so are the zeros of both signs, also as items of tuples; an
array in a tuple keeps it from being a key. -/
theorem last_of_same_keys_kept :
    let nan := float (0 / 0)
    let pairs := [(nan, int 1), (float 0, int 2), (nan, int 3), (float (-0), int 4)]
    let zeros := ofData (.tuple [float 0, float 1])
    let zeros' := ofData (.tuple [float (-0), float 1])
    let pairs' := [(nan, null), (ofData (.tuple [ofData (.array [])]), null)]
    (∀ b ∈ pairs, b.1.IsKey) ∧
      Dictionary.merged pairs = [(nan, int 3), (float (-0), int 4)] ∧
      (∃ d, Dictionary.empty.insertAll pairs = .ok d ∧ d.Agrees pairs) ∧
      zeros.IsKey ∧ zeros.Deeply Data.Numeric ∧ zeros.same zeros' = true ∧
      zeros.sameKey zeros' = true ∧
      ∃ f, Dictionary.empty.insertAll pairs' = .error f := by
  intro nan pairs zeros zeros' pairs'
  obtain ⟨fails, agrees, same⟩ := dictionaries_agree_with_pairs
  have atoms : ∀ b ∈ pairs, b.1.IsKey := by
    intro b hb
    simp only [pairs, List.mem_cons, List.not_mem_nil, or_false] at hb
    obtain rfl | rfl | rfl | rfl := hb <;> exact .atom (by decide)
  have tuple : zeros.IsKey := by
    apply IsKey.tuple
    intro v hv
    simp only [List.mem_cons, List.not_mem_nil, or_false] at hv
    obtain rfl | rfl := hv <;> exact .atom (by decide)
  have numeric : zeros.Deeply Data.Numeric := by
    apply Deeply.mk trivial
    intro v hv
    simp only [zeros, ofData, Data.elements, List.mem_cons, List.not_mem_nil, or_false] at hv
    obtain rfl | rfl := hv
    · exact deeply_atom (show (0 : Float).isNaN = false by decide +kernel) rfl
    · exact deeply_atom (show (1 : Float).isNaN = false by decide +kernel) rfl
  have equal : zeros.same zeros' = true := by decide +kernel
  have broken : ∃ b ∈ pairs', ¬ b.1.IsKey := by
    refine ⟨_, List.mem_cons_of_mem _ (List.mem_cons_self ..), fun h => ?_⟩
    obtain ⟨k, hk⟩ := isKey_iff.mp h
    cases hk
  exact ⟨atoms, rfl, agrees pairs atoms, tuple, numeric, equal,
    (same zeros zeros' tuple numeric).mpr equal, (fails pairs').mpr broken⟩

end TracedScript
