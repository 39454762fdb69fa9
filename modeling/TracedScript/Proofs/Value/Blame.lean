import TracedScript.Proofs.Value.Throughout

/-!
# What failures of operations point at

A failure that an operation on values ends in has no frame yet, and it points at where the operation
is done or at one of its operands. That of a collection whose elements are of different kinds would
point at an element, but there are no such elements in a well-formed collection. One that does point
elsewhere is left: using a tuple as a key may fail at an item inside, wherever that was produced.
-/

namespace TracedScript

/-- The failure has no frame yet, and if it has a span, then one of the given ones. -/
structure Failure.Raw (own : Span → Prop) (e : Failure) : Prop where
  stack : e.stack = none
  span : ∀ s, e.span = some s → own s

variable {own : Span → Prop}

theorem Failure.Raw.withOrigin {e : Failure} (h : e.Raw own) (origin : List Hop) :
    (e.withOrigin origin).Raw own := by
  unfold Failure.withOrigin
  split
  · exact ⟨h.stack, h.span⟩
  · exact h

theorem Fault.raw_failure {span : Option Span} (h : ∀ s, span = some s → own s) (f : Fault) :
    (f.failure span).Raw own := ⟨rfl, h⟩

theorem Fault.raw_failAt {span : Span} (h : own span) (f : Fault) : (f.failAt span).Raw own :=
  f.raw_failure fun _ hs => Option.some.inj hs ▸ h

namespace Value

/-- If the value has a place, then one of the given ones. -/
def Stands (own : Span → Prop) (v : Value) : Prop := ∀ s, v.span = some s → own s

/-- What an operand has to be for failures to point at one of the given spans; where all spans are
given, it may be anything. -/
structure Given (own : Span → Prop) (v : Value) : Prop where
  stands : v.Stands own
  wellFormed : v.data.WellFormed ∨ ∀ s, own s

variable {v w : Value} {span : Span}

theorem stands_place (h : own span) (v : Value) (owner : String) :
    (v.place span owner).Stands own := fun _ hs => Option.some.inj hs ▸ h

theorem stands_relocate (h : own span) (v : Value) (owner : String) :
    (v.relocate span owner).Stands own := fun _ hs => Option.some.inj hs ▸ h

theorem raw_blame (h : own span) (v : Value) (f : Fault) : (v.blame f span).Raw own :=
  (f.raw_failAt h).withOrigin _

theorem raw_blameHere (h : v.Stands own) (f : Fault) : (v.blameHere f).Raw own :=
  (f.raw_failure h).withOrigin _

theorem raw_failAt_withOrigin (h : own span) (f : Fault) (origin : List Hop) :
    ((f.failAt span).withOrigin origin).Raw own := (f.raw_failAt h).withOrigin origin

/-! ## Collections -/

section Collections

variable {e : Failure}

theorem raw_of_sameKinds {container what : String} {vs : List Value}
    (h : sameKinds container what vs = .error e) (hv : ∀ v ∈ vs, v.Stands own) : e.Raw own := by
  cases vs with
  | nil => cases h
  | cons first rest =>
    rw [sameKinds] at h
    split at h
    · cases h
    · rename_i v hf
      cases h
      exact raw_blameHere (hv v (List.mem_cons_of_mem _ (List.mem_of_find?_eq_some hf))) _

theorem raw_of_array {vs : List Value} (h : array vs = .error e) (hv : ∀ v ∈ vs, v.Stands own) :
    e.Raw own := by
  obtain h | ⟨_, -, h⟩ := error_of_bind h
  · exact raw_of_sameKinds h hv
  · cases h

theorem raw_of_tuple {vs : List Value} (h : tuple vs = .error e) (hv : ∀ v ∈ vs, v.Stands own) :
    e.Raw own := by
  obtain h | ⟨_, -, h⟩ := error_of_bind h
  · exact raw_of_sameKinds h hv
  · cases h

theorem unhashable_eq (h : ∀ items, v.data ≠ .tuple items) : v.unhashable = v := by
  obtain ⟨data, trace⟩ := v
  cases data with
  | tuple items => exact absurd rfl (h items)
  | _ => rfl

/-- Of a value that is no key, what can not be hashed is to blame: the value itself, unless it is a
tuple. -/
theorem raw_of_asKey (h : v.asKey = .error e) (hv : v.unhashable.Stands own) : e.Raw own := by
  unfold asKey at h
  split at h
  · cases h
  · cases h
    exact raw_blameHere hv _

/-- A pair that can not be inserted has a label that is no key. -/
theorem exists_of_insertAll {d : Dictionary} {pairs : List (Value × Value)}
    (h : d.insertAll pairs = .error e) : ∃ b ∈ pairs, b.1.asKey = .error e := by
  induction pairs generalizing d with
  | nil => cases h
  | cons b pairs ih =>
    obtain ⟨label, value⟩ := b
    obtain h | ⟨k, -, h⟩ := error_of_bind h
    · exact ⟨_, List.mem_cons_self .., h⟩
    · obtain ⟨b, hb, he⟩ := ih h
      exact ⟨b, List.mem_cons_of_mem _ hb, he⟩

theorem raw_or_asKey_of_dict {pairs : List (Value × Value)} (h : dict pairs = .error e)
    (hp : ∀ b ∈ pairs, b.1.Stands own ∧ b.2.Stands own) :
    e.Raw own ∨ ∃ b ∈ pairs, b.1.asKey = .error e := by
  obtain h | ⟨_, -, h⟩ := error_of_bind h
  · refine .inl (raw_of_sameKinds h fun v hv => ?_)
    obtain ⟨b, hb, rfl⟩ := List.mem_map.mp hv
    exact (hp b hb).1
  obtain h | ⟨_, -, h⟩ := error_of_bind h
  · refine .inl (raw_of_sameKinds h fun v hv => ?_)
    obtain ⟨b, hb, rfl⟩ := List.mem_map.mp hv
    exact (hp b hb).2
  obtain h | ⟨_, -, h⟩ := error_of_bind h
  · exact .inr (exists_of_insertAll h)
  · cases h

end Collections

/-- The elements of a well-formed value have one kind. -/
theorem oneKind_of_elements? {items : List Value} (hv : v.data.WellFormed)
    (h : v.elements? = some items) : OneKind items := by
  unfold elements? at h
  cases hd : v.data with
  | array | tuple =>
    rw [hd] at h hv
    cases h
    exact hv
  | str s =>
    rw [hd] at h
    cases h
    refine .of_forall .str fun u hu => ?_
    obtain ⟨c, -, rfl⟩ := List.mem_map.mp hu
    rfl
  | dict d =>
    rw [hd] at h hv
    cases h
    exact hv.1
  | _ => rw [hd] at h; cases h

/-! ## Elements and attributes -/

section Access

variable {e : Failure} (hs : own span)
include hs

theorem raw_of_member {s : Store} {name : String} (h : v.member s name span = .error e) :
    e.Raw own := by
  unfold member at h
  split at h
  · cases h
  · cases h
    exact raw_failAt_withOrigin hs _ _

theorem raw_of_element {items : List Value} {i : Int64} (h : v.element items i span = .error e) :
    e.Raw own := by
  unfold element at h
  split at h
  · cases h
  · cases h
    exact raw_failAt_withOrigin hs _ _

theorem raw_of_sequence {items : List Value} (h : (match w.data with
      | .int i => v.element items i span
      | _ => .error (((Fault.indexNotInt v.kind w.kind).failAt span).withOrigin w.origin)) =
      .error e) : e.Raw own := by
  split at h
  · exact raw_of_element hs h
  · cases h
    exact raw_failAt_withOrigin hs _ _

theorem raw_or_asKey_of_index (h : v.index w span = .error e) :
    e.Raw own ∨ w.asKey = .error e := by
  unfold index at h
  cases hd : v.data with
  | array | tuple | str =>
    rw [hd] at h
    exact .inl (raw_of_sequence hs h)
  | dict d =>
    rw [hd] at h
    obtain h | ⟨k, -, h⟩ := error_of_bind h
    · exact .inr h
    · split at h
      · cases h
      · cases h
        exact .inl (raw_failAt_withOrigin hs _ _)
  | _ =>
    rw [hd] at h
    cases h
    exact .inl (raw_failAt_withOrigin hs _ _)

end Access

/-! ## Operators -/

section Operators

variable {e : Failure}

theorem raw_of_truth (h : v.truth = .error e) (hv : v.Stands own) : e.Raw own := by
  unfold truth at h
  split at h
  · cases h
  · cases h
    exact raw_blameHere hv _

theorem raw_of_applyUnary {op : UnaryOperator} (h : applyUnary op v = .error e)
    (hv : v.Stands own) : e.Raw own := by
  cases op <;> simp only [applyUnary] at h
  all_goals
    repeat' split at h
    all_goals first
      | cases h
        done
      | cases h
        exact raw_blameHere hv _
      | cases h
        exact Fault.raw_failure hv _

variable (through : ∀ s t, own s → own t → own (s.through t)) (hv : v.Stands own)
  (hw : w.Stands own)
include through hv hw

theorem joinedSpan_own : ∀ s, joinedSpan v w = some s → own s := by
  intro s h
  unfold joinedSpan at h
  split at h
  · rename_i a b ha hb
    cases h
    exact through _ _ (hv a ha) (hw b hb)
  · rename_i a ha hb
    cases h
    exact hv _ ha
  · exact hw s h

theorem raw_unsupported (op : BinaryOperator) : (unsupported op v w).Raw own :=
  (Fault.raw_failure (joinedSpan_own through hv hw) _).withOrigin _

theorem raw_blameRight (f : Fault) : (blameRight v w f).Raw own :=
  (Fault.raw_failure (joinedSpan_own through hv hw) _).withOrigin _

theorem raw_of_checked {n : Option Int64} (h : checked v w n = .error e) : e.Raw own := by
  cases n <;> cases h
  exact Fault.raw_failure (joinedSpan_own through hv hw) _

theorem raw_of_applyBinary {op : BinaryOperator} (h : applyBinary op v w = .error e) :
    e.Raw own := by
  cases op <;>
    simp only [applyBinary, add, subtract, multiply, divide, power, compare, connect] at h
  all_goals
    repeat' split at h
    all_goals first
      | cases h
        done
      | exact raw_of_checked through hv hw h
      | cases h
        exact raw_unsupported through hv hw _
      | cases h
        exact raw_blameRight through hv hw _

end Operators

/-! ## Built-in functions -/

section Builtins

variable {e : Failure} (hs : own span)
include hs

theorem raw_of_converted {α : Type} {target : Kind} {wrap : α → Value} {a : Option α}
    (h : v.converted target span wrap a = .error e) : e.Raw own := by
  cases a <;> cases h
  exact raw_blame hs v _

theorem raw_of_toInt (h : v.toInt span = .error e) : e.Raw own := by
  unfold toInt at h
  split at h
  · cases h
  · cases h
  · exact raw_of_converted hs h
  · exact raw_of_converted hs h
  · cases h
    exact raw_blame hs v _

theorem raw_of_toFloat (h : v.toFloat span = .error e) : e.Raw own := by
  unfold toFloat at h
  split at h
  · cases h
  · exact raw_of_converted hs h
  · cases h
  · exact raw_of_converted hs h
  · cases h
    exact raw_blame hs v _

theorem raw_of_sqrt (h : v.sqrt span = .error e) : e.Raw own := by
  simp only [sqrt, sqrtOf] at h
  repeat' split at h
  all_goals cases h
  all_goals first
    | exact raw_blame hs v _
    | exact Fault.raw_failAt hs _

theorem raw_of_rounded {function : String} {round : Float → Option Int64}
    (h : v.rounded function round span = .error e) : e.Raw own := by
  unfold rounded at h
  repeat' split at h
  all_goals cases h
  all_goals exact raw_blame hs v _

theorem raw_of_abs (h : v.abs span = .error e) : e.Raw own := by
  unfold abs at h
  repeat' split at h
  all_goals cases h
  all_goals first
    | exact raw_blame hs v _
    | exact Fault.raw_failAt hs _

theorem raw_of_range {r : IntRange} (h : r.array span = .error e) : e.Raw own := by
  unfold IntRange.array at h
  repeat' split at h
  all_goals cases h
  all_goals exact Fault.raw_failAt hs _

theorem raw_of_checkAssertion {message : Option Value}
    (h : Builtin.checkAssertion v message span = .error e) : e.Raw own := by
  unfold Builtin.checkAssertion at h
  split at h <;> cases h
  · exact Fault.raw_failAt hs _
  · exact raw_blame hs v _

theorem raw_of_intArgument {f : Builtin} (h : f.intArgument span v = .error e) : e.Raw own := by
  unfold Builtin.intArgument at h
  split at h <;> cases h
  exact raw_blame hs v _

/-- The elements of a well-formed value are of one kind, so they make up a collection again. -/
theorem raw_of_toCollection {target : Kind} {collect : List Value → Except Failure Value}
    (h : v.toCollection target collect span = .error e) (hv : v.Given own)
    (hc : ∀ items, OneKind items → collect items ≠ .error e)
    (hr : (∀ s, own s) → ∀ items, collect items = .error e → e.Raw own) : e.Raw own := by
  unfold toCollection at h
  split at h
  · rename_i items hi
    obtain hw | all := hv.wellFormed
    · exact absurd h (hc items (oneKind_of_elements? hw hi))
    · exact hr all items h
  · cases h
    exact raw_blame hs v _

/-- What a built-in function fails with points at its call. -/
theorem raw_of_result {f : Builtin} {args : List Value} (h : f.result args span = .error e)
    (ha : ∀ v ∈ args, v.Given own) : e.Raw own := by
  unfold Builtin.result at h
  split at h
  -- the three ways to give the bounds of a range
  case h_3 =>
    obtain h | ⟨_, -, h⟩ := error_of_bind h
    · exact raw_of_intArgument hs h
    · exact raw_of_range hs h
  case h_4 =>
    obtain h | ⟨_, -, h⟩ := error_of_bind h
    · exact raw_of_intArgument hs h
    obtain h | ⟨_, -, h⟩ := error_of_bind h
    · exact raw_of_intArgument hs h
    · exact raw_of_range hs h
  case h_5 =>
    obtain h | ⟨_, -, h⟩ := error_of_bind h
    · exact raw_of_intArgument hs h
    obtain h | ⟨_, -, h⟩ := error_of_bind h
    · exact raw_of_intArgument hs h
    obtain h | ⟨_, -, h⟩ := error_of_bind h
    · exact raw_of_intArgument hs h
    · exact raw_of_range hs h
  case h_9 | h_10 => exact raw_of_checkAssertion hs h
  case h_12 => exact raw_of_toInt hs h
  case h_13 => exact raw_of_toFloat hs h
  case h_15 v =>
    refine raw_of_toCollection hs h (ha v (List.mem_singleton.mpr rfl)) ?_ fun all items hi => ?_
    · intro items hk hi
      rw [array_of_oneKind hk] at hi
      cases hi
    · exact raw_of_array hi fun _ _ s _ => all s
  case h_16 v =>
    refine raw_of_toCollection hs h (ha v (List.mem_singleton.mpr rfl)) ?_ fun all items hi => ?_
    · intro items hk hi
      rw [tuple_of_oneKind hk] at hi
      cases hi
    · exact raw_of_tuple hi fun _ _ s _ => all s
  case h_17 => exact raw_of_sqrt hs h
  case h_18 | h_19 => exact raw_of_rounded hs h
  case h_20 => exact raw_of_abs hs h
  -- what is left succeeds, panics, throws or takes another number of arguments
  all_goals cases h
  all_goals exact Fault.raw_failAt hs _

end Builtins

end Value

end TracedScript
