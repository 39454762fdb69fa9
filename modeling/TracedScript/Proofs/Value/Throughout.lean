import TracedScript.Builtin.Apply
import TracedScript.Machine.Calls
import TracedScript.Module.Native
import TracedScript.Proofs.Value.WellFormed

/-!
# What holds throughout values

`v.Throughout p`: the condition `p` holds of `v` and of all values inside it, however deep.
Operations on values never make up a function, a namespace, a reserved value or an ill-formed
collection. So a condition that asks for something of these only, a `Modest` one, holds throughout
the results of operations if it holds throughout what they are given; each operation has its lemma
here.
-/

namespace TracedScript

namespace Data

/-- The values directly inside a content. -/
def parts : Data → List Value
  | .array items => items
  | .tuple items => items
  | .dict d => d.entries.flatMap fun e => [e.label, e.value]
  | .func f => f.options.map (·.default)
  | _ => []

/-- Neither a function of a program nor a namespace. -/
def Plain : Data → Prop
  | .func _ | .namespace .. => False
  | _ => True

end Data

namespace Value

inductive Inside (w : Value) : Value → Prop where
  | refl : Inside w w
  | part {v u : Value} : u ∈ v.data.parts → Inside w u → Inside w v

/-- The condition holds of the value and of all values inside it. -/
def Throughout (p : Value → Prop) (v : Value) : Prop := ∀ w : Value, w.Inside v → p w

/-- The value has no more former places than a value remembers. -/
def Recent (v : Value) : Prop := v.origin.length ≤ Trace.limit

/-- A condition that looks at the content, at the mark of reserved values and at whether there are
too many former places, and asks for nothing where an operation makes up a value. -/
structure Modest (p : Value → Prop) : Prop where
  moved : ∀ {v w : Value}, p v → w.data = v.data → (w.isReserved = true → v.isReserved = true) →
    (v.Recent → w.Recent) → p w
  plain : ∀ {d : Data}, d.Plain → d.WellFormed → p (ofData d)

variable {p q : Value → Prop}

theorem throughout_iff {v : Value} :
    v.Throughout p ↔ p v ∧ ∀ u ∈ v.data.parts, u.Throughout p := by
  constructor
  · intro h
    exact ⟨h v .refl, fun u hu w hw => h w (.part hu hw)⟩
  · rintro ⟨hv, hp⟩ w hw
    cases hw with
    | refl => exact hv
    | part hu hw => exact hp _ hu w hw

namespace Throughout

variable {v : Value}

theorem self (h : v.Throughout p) : p v := h v .refl

theorem part (h : v.Throughout p) {u : Value} (hu : u ∈ v.data.parts) : u.Throughout p :=
  (throughout_iff.mp h).2 u hu

theorem mono (h : v.Throughout p) (hpq : ∀ w, p w → q w) : v.Throughout q :=
  fun w hw => hpq w (h w hw)

theorem default (h : v.Throughout p) {f : Function} (hd : v.data = .func f) {o : OptionValue}
    (ho : o ∈ f.options) : o.default.Throughout p := by
  apply h.part
  rw [hd]
  exact List.mem_map_of_mem ho

theorem label (h : v.Throughout p) {d : Dictionary} (hd : v.data = .dict d)
    {e : Entry} (he : e ∈ d.entries) : e.label.Throughout p := by
  apply h.part
  rw [hd]
  exact List.mem_flatMap.mpr ⟨e, he, by simp⟩

theorem value (h : v.Throughout p) {d : Dictionary} (hd : v.data = .dict d)
    {e : Entry} (he : e ∈ d.entries) : e.value.Throughout p := by
  apply h.part
  rw [hd]
  exact List.mem_flatMap.mpr ⟨e, he, by simp⟩

end Throughout

/-- Where a value is moved to, it forgets its oldest place if it can not remember one more. -/
theorem Recent.relocate {v : Value} (h : v.Recent) (span : Span) (owner : String) :
    (v.relocate span owner).Recent := by
  unfold Recent origin Value.relocate Trace.relocate Trace.remember at *
  cases v.trace.span with
  | none => exact h
  | some previous =>
    dsimp only
    split
    · rename_i full
      simp [full, Trace.limit]
    · simp only [List.length_append, List.length_singleton]
      omega

/-! ## What holds no other values -/

/-- Not a collection, a function or a namespace. -/
def Atomic (v : Value) : Prop :=
  match v.data with
  | .array _ | .tuple _ | .dict _ | .func _ | .namespace .. => False
  | _ => True

/-- A value without others in it that has been nowhere. -/
structure Made (v : Value) : Prop where
  atomic : v.Atomic
  fresh : v.trace = .fresh

@[simp] theorem made_null : null.Made := ⟨trivial, rfl⟩

@[simp] theorem made_int (n : Int64) : (int n).Made := ⟨trivial, rfl⟩

@[simp] theorem made_float (x : Float) : (float x).Made := ⟨trivial, rfl⟩

@[simp] theorem made_str (s : String) : (str s).Made := ⟨trivial, rfl⟩

@[simp] theorem made_bool (b : Bool) : (bool b).Made := ⟨trivial, rfl⟩

@[simp] theorem made_builtin (f : Builtin) : (ofData (.builtin f)).Made := ⟨trivial, rfl⟩

@[simp] theorem made_exception (id : Nat) (e : Failure) : (ofData (.exception id e)).Made :=
  ⟨trivial, rfl⟩

theorem Atomic.plain {v : Value} (h : v.Atomic) : v.data.Plain := by
  unfold Atomic at h
  cases hd : v.data <;> simp_all [Data.Plain]

theorem Atomic.wellFormed {v : Value} (h : v.Atomic) : v.data.WellFormed := by
  unfold Atomic at h
  cases hd : v.data <;> simp_all [Data.WellFormed]

theorem Atomic.parts {v : Value} (h : v.Atomic) : v.data.parts = [] := by
  unfold Atomic at h
  cases hd : v.data <;> simp_all [Data.parts]

/-! ## Operators and built-in functions that make up their results -/

theorem made_checked {v w u : Value} {n : Option Int64} (h : checked v w n = .ok u) : u.Made := by
  cases n <;> cases h
  exact made_int _

theorem made_applyBinary {op : BinaryOperator} {v w u : Value} (h : applyBinary op v w = .ok u) :
    u.Made := by
  cases op <;>
    simp only [applyBinary, add, subtract, multiply, divide, power, compare, connect] at h
  all_goals
    repeat' split at h
    all_goals first
      | exact made_checked h
      | (cases h <;> exact ⟨trivial, rfl⟩)

theorem made_converted {α : Type} {v w : Value} {target : Kind} {span : Span}
    {wrap : α → Value} {a : Option α} (h : v.converted target span wrap a = .ok w)
    (hw : ∀ a, (wrap a).Made) : w.Made := by
  cases a <;> cases h
  exact hw _

theorem made_toInt {v w : Value} {span : Span} (h : v.toInt span = .ok w) : w.Made := by
  unfold toInt at h
  split at h
  · cases h; exact made_int _
  · cases h; exact made_int _
  · exact made_converted h made_int
  · exact made_converted h made_int
  · cases h

theorem made_toFloat {v w : Value} {span : Span} (h : v.toFloat span = .ok w) : w.Made := by
  unfold toFloat at h
  split at h
  · cases h; exact made_float _
  · exact made_converted h made_float
  · cases h; exact made_float _
  · exact made_converted h made_float
  · cases h

theorem made_sqrt {v w : Value} {span : Span} (h : v.sqrt span = .ok w) : w.Made := by
  simp only [sqrt, sqrtOf] at h
  repeat' split at h
  all_goals cases h
  all_goals exact made_float _

theorem made_rounded {v w : Value} {function : String} {round : Float → Option Int64}
    {span : Span} (h : v.rounded function round span = .ok w) : w.Made := by
  unfold rounded at h
  repeat' split at h
  all_goals cases h
  all_goals exact made_int _

theorem made_abs {v w : Value} {span : Span} (h : v.abs span = .ok w) : w.Made := by
  unfold abs at h
  repeat' split at h
  all_goals cases h
  all_goals exact ⟨trivial, rfl⟩

theorem element_mem {v w : Value} {items : List Value} {i : Int64} {span : Span}
    (h : element v items i span = .ok w) : w ∈ items := by
  unfold element at h
  split at h
  · rename_i found hf
    cases h
    obtain ⟨slot, -, hs⟩ := Option.bind_eq_some_iff.mp hf
    exact List.mem_of_getElem? hs
  · cases h

/-- An attribute is a name in a namespace or made up. -/
theorem made_or_local_of_member {s : Store} {v found : Value} {name : String} {span : Span}
    (h : v.member s name span = .ok found) :
    found.Made ∨ ∃ module id, v.data = .namespace module id ∧ s.local? id name = some found := by
  unfold member at h
  split at h
  · rename_i w hw
    cases h
    unfold member? at hw
    split at hw
    · rename_i module id hd
      exact .inr ⟨module, id, hd, hw⟩
    · repeat' split at hw
      all_goals cases hw
      all_goals exact .inl (made_str _)
    · split at hw
      · obtain ⟨n, -, rfl⟩ := Option.map_eq_some_iff.mp hw
        exact .inl (made_int _)
      · cases hw
  · cases h

end Value

theorem Builtin.made_checkAssertion {condition w : Value} {message : Option Value} {span : Span}
    (h : checkAssertion condition message span = .ok w) : w.Made := by
  unfold checkAssertion at h
  split at h <;> cases h
  exact Value.made_null

theorem Bindings.exists_mem_of_get? {bs : Bindings} {name : String} {v : Value}
    (h : bs.get? name = some v) : ∃ b ∈ bs, b.2 = v := by
  induction bs with
  | nil => cases h
  | cons b bs ih =>
    rw [get?] at h
    split at h
    · cases h
      exact ⟨b, List.mem_cons_self .., rfl⟩
    · obtain ⟨c, hc, hv⟩ := ih h
      exact ⟨c, List.mem_cons_of_mem b hc, hv⟩

/-! ## Modest conditions -/

namespace Value.Modest

variable {p : Value → Prop} (hp : Modest p)
include hp

theorem made {v : Value} (h : v.Made) : v.Throughout p := by
  have whole : v = ofData v.data := by
    obtain ⟨d, t⟩ := v
    exact congrArg (Value.mk d) h.fresh
  rw [throughout_iff, h.atomic.parts, whole]
  exact ⟨hp.plain h.atomic.plain h.atomic.wellFormed, List.forall_mem_nil _⟩

/-! ### Moving values -/

theorem changed {v w : Value} (h : v.Throughout p) (hd : w.data = v.data)
    (hr : w.isReserved = true → v.isReserved = true) (ho : v.Recent → w.Recent) :
    w.Throughout p := by
  rw [throughout_iff] at h ⊢
  exact ⟨hp.moved h.1 hd hr ho, hd ▸ h.2⟩

theorem place {v : Value} (h : v.Throughout p) (span : Span) (owner : String) :
    (v.place span owner).Throughout p := hp.changed h rfl id id

theorem relocate {v : Value} (h : v.Throughout p) (span : Span) (owner : String) :
    (v.relocate span owner).Throughout p :=
  hp.changed h rfl (fun hr => by cases hr) fun ho => ho.relocate span owner

theorem named {v : Value} (h : v.Throughout p) (name : String) : (v.named name).Throughout p :=
  hp.changed h rfl id id

/-! ### Collections -/

theorem collection {d : Data} (hd : d.Plain) (hw : d.WellFormed)
    (h : ∀ u ∈ d.parts, u.Throughout p) : (ofData d).Throughout p :=
  throughout_iff.mpr ⟨hp.plain hd hw, h⟩

theorem array {items : List Value} {v : Value} (h : Value.array items = .ok v)
    (hi : ∀ u ∈ items, u.Throughout p) : v.Throughout p := by
  obtain ⟨rfl, hw⟩ := wellFormed_of_array h
  exact hp.collection trivial hw hi

theorem tuple {items : List Value} {v : Value} (h : Value.tuple items = .ok v)
    (hi : ∀ u ∈ items, u.Throughout p) : v.Throughout p := by
  obtain ⟨rfl, hw⟩ := wellFormed_of_tuple h
  exact hp.collection trivial hw hi

theorem dict {pairs : List (Value × Value)} {v : Value} (h : Value.dict pairs = .ok v)
    (hpairs : ∀ b ∈ pairs, b.1.Throughout p ∧ b.2.Throughout p) : v.Throughout p := by
  obtain ⟨d, rfl, hw, given⟩ := wellFormed_of_dict h
  refine hp.collection trivial hw fun u hu => ?_
  obtain ⟨e, he, hu⟩ := List.mem_flatMap.mp hu
  obtain ⟨label, value⟩ := hpairs _ (given e he)
  obtain rfl | rfl : u = e.label ∨ u = e.value := by simpa using hu
  · exact label
  · exact value

/-! ### Parts of values -/

theorem characters (s : String) : ∀ u ∈ Value.characters s, u.Throughout p := by
  intro u hu
  obtain ⟨c, -, rfl⟩ := List.mem_map.mp hu
  exact hp.made (made_str _)

theorem elements? {v : Value} (h : v.Throughout p) {items : List Value}
    (he : v.elements? = some items) : ∀ u ∈ items, u.Throughout p := by
  have parts := (throughout_iff.mp h).2
  unfold Value.elements? at he
  cases hd : v.data with
  | array | tuple =>
    rw [hd] at he parts
    cases he
    exact parts
  | str s =>
    rw [hd] at he
    cases he
    exact hp.characters s
  | dict d =>
    rw [hd] at he
    cases he
    intro u hu
    obtain ⟨e, hm, rfl⟩ := List.mem_map.mp hu
    exact h.label hd hm
  | _ => rw [hd] at he; cases he

theorem index {v slot w : Value} {span : Span} (h : v.Throughout p)
    (hw : v.index slot span = .ok w) : w.Throughout p := by
  have parts := (throughout_iff.mp h).2
  unfold Value.index at hw
  cases hd : v.data with
  | array | tuple =>
    rw [hd] at hw parts
    dsimp only at hw
    split at hw
    · exact parts _ (element_mem hw)
    · cases hw
  | str s =>
    rw [hd] at hw
    dsimp only at hw
    split at hw
    · exact hp.characters s _ (element_mem hw)
    · cases hw
  | dict d =>
    rw [hd] at hw
    obtain ⟨key, -, hw⟩ := exists_of_bind_ok hw
    split at hw
    · rename_i e hf
      cases hw
      obtain ⟨i, -, hi⟩ := Option.bind_eq_some_iff.mp hf
      exact h.value hd (List.mem_of_getElem? hi)
    · cases hw
  | _ => rw [hd] at hw; cases hw

/-! ### Operators and built-in functions -/

theorem applyUnary {op : UnaryOperator} {v w : Value} (h : v.Throughout p)
    (hw : Value.applyUnary op v = .ok w) : w.Throughout p := by
  cases op with
  | plus =>
    simp only [Value.applyUnary] at hw
    split at hw <;> cases hw <;> exact h
  | minus =>
    simp only [Value.applyUnary] at hw
    split at hw
    · split at hw <;> cases hw
      exact hp.made (made_int _)
    · cases hw
      exact hp.made (made_float _)
    · cases hw
  | not =>
    simp only [Value.applyUnary] at hw
    split at hw <;> cases hw
    exact hp.made (made_bool _)

theorem toCollection {v w : Value} {target : Kind}
    {collect : List Value → Except Failure Value} {span : Span} (h : v.Throughout p)
    (hw : v.toCollection target collect span = .ok w)
    (hc : ∀ items w, collect items = .ok w → (∀ u ∈ items, u.Throughout p) →
      w.Throughout p) : w.Throughout p := by
  unfold Value.toCollection at hw
  split at hw
  · rename_i items hi
    exact hc items w hw (hp.elements? h hi)
  · cases hw

theorem range {r : IntRange} {span : Span} {w : Value} (h : r.array span = .ok w) :
    w.Throughout p := by
  unfold IntRange.array at h
  repeat' split at h
  all_goals cases h
  refine hp.collection trivial (OneKind.of_forall .int fun u hu => ?_) fun u hu => ?_
  · obtain ⟨n, -, rfl⟩ := List.mem_map.mp hu
    rfl
  · obtain ⟨n, -, rfl⟩ := List.mem_map.mp hu
    exact hp.made (made_int n)

/-- What a built-in function gives. -/
theorem result {f : Builtin} {args : List Value} {span : Span} {w : Value}
    (h : f.result args span = .ok w) (ha : ∀ v ∈ args, v.Throughout p) : w.Throughout p := by
  unfold Builtin.result at h
  split at h
  -- the three ways to give the bounds of a range
  case h_3 =>
    obtain ⟨stop, -, h⟩ := exists_of_bind_ok h
    exact hp.range h
  case h_4 =>
    obtain ⟨start, -, h⟩ := exists_of_bind_ok h
    obtain ⟨stop, -, h⟩ := exists_of_bind_ok h
    exact hp.range h
  case h_5 =>
    obtain ⟨start, -, h⟩ := exists_of_bind_ok h
    obtain ⟨stop, -, h⟩ := exists_of_bind_ok h
    obtain ⟨step, -, h⟩ := exists_of_bind_ok h
    exact hp.range h
  case h_9 | h_10 => exact hp.made (Builtin.made_checkAssertion h)
  case h_12 => exact hp.made (made_toInt h)
  case h_13 => exact hp.made (made_toFloat h)
  case h_15 v =>
    exact hp.toCollection (ha v (List.mem_singleton.mpr rfl)) h fun _ _ => hp.array
  case h_16 v =>
    exact hp.toCollection (ha v (List.mem_singleton.mpr rfl)) h fun _ _ => hp.tuple
  case h_17 => exact hp.made (made_sqrt h)
  case h_18 | h_19 => exact hp.made (made_rounded h)
  case h_20 => exact hp.made (made_abs h)
  -- what is left fails or gives null, a text or a truth value
  all_goals cases h
  all_goals exact hp.made ⟨trivial, rfl⟩

/-! ### Bindings -/

theorem bindParameters {function : String} {params : List Parameter} {args : List Value}
    {bs : Bindings} (h : Function.bindParameters function params args = .ok bs)
    (ha : ∀ v ∈ args, v.Throughout p) : ∀ b ∈ bs, b.2.Throughout p := by
  induction params generalizing args bs with
  | nil =>
    cases h
    exact List.forall_mem_nil _
  | cons param params ih =>
    cases args with
    | nil =>
      cases h
      exact List.forall_mem_nil _
    | cons v vs =>
      obtain ⟨hv, hvs⟩ := List.forall_mem_cons.mp ha
      have rest (h : (Function.bindParameters function params vs).map
          ((param.name, v.named param.name) :: ·) = .ok bs) : ∀ b ∈ bs, b.2.Throughout p := by
        obtain ⟨cs, hc, rfl⟩ := exists_of_map_ok h
        exact List.forall_mem_cons.mpr ⟨hp.named hv _, ih hc hvs⟩
      unfold Function.bindParameters at h
      split at h
      · split at h
        · exact rest h
        · cases h
      · exact rest h

theorem bindOptions {f : Function} {function : String} {named : List NamedValue} {bs : Bindings}
    (h : Function.bindOptions f function named = .ok bs)
    (ha : ∀ a ∈ named, a.value.Throughout p) : ∀ b ∈ bs, b.2.Throughout p := by
  induction named generalizing bs with
  | nil =>
    cases h
    exact List.forall_mem_nil _
  | cons a rest ih =>
    obtain ⟨hhead, htail⟩ := List.forall_mem_cons.mp ha
    unfold Function.bindOptions at h
    split at h
    · obtain ⟨cs, hc, rfl⟩ := exists_of_map_ok h
      exact List.forall_mem_cons.mpr ⟨hp.named hhead _, ih hc htail⟩
    · cases h

/-- A call binds the arguments it is given and the defaults of the function. -/
theorem bind {f : Function} {function : String} {args : Arguments} {bs : Bindings}
    (h : f.bind function args = .ok bs)
    (hd : ∀ o ∈ f.options, o.default.Throughout p)
    (ha : ∀ v ∈ args.positional, v.Throughout p)
    (hn : ∀ a ∈ args.named, a.value.Throughout p) : ∀ b ∈ bs, b.2.Throughout p := by
  unfold Function.bind at h
  split at h
  · cases h
  · obtain ⟨params, hparams, h⟩ := exists_of_bind_ok h
    obtain ⟨options, hoptions, h⟩ := exists_of_bind_ok h
    cases h
    intro b hb
    obtain hb | hb := List.mem_append.mp hb
    · obtain hb | hb := List.mem_append.mp hb
      · exact hp.bindParameters hparams ha b hb
      · obtain ⟨o, ho, rfl⟩ := List.mem_map.mp hb
        exact hp.named (hd o ho) _
    · exact hp.bindOptions hoptions hn b hb

/-- Modules of the language hold no functions of programs. -/
theorem native {directories : List String} {name : String} {bs : Bindings}
    (h : Module.native? directories name = some bs) : ∀ b ∈ bs, b.2.Throughout p := by
  unfold Module.native? at h
  split at h
  · cases h
    intro b hb
    simp only [Module.math, Module.bind, List.mem_append, List.mem_cons, List.mem_map,
      List.not_mem_nil, or_false] at hb
    obtain (rfl | rfl | rfl) | ⟨f, -, rfl⟩ := hb
    all_goals
      apply hp.named
      apply hp.made
      exact ⟨trivial, rfl⟩
  · split at h
    · cases h
      intro b hb
      simp only [Module.sys, Module.bind, List.mem_cons, List.not_mem_nil, or_false] at hb
      obtain rfl | rfl := hb
      · exact hp.named (hp.made (made_str Module.version)) _
      · apply hp.named
        refine hp.collection trivial (OneKind.of_forall .str fun u hu => ?_) fun u hu => ?_
        · obtain ⟨d, -, rfl⟩ := List.mem_map.mp hu
          rfl
        · obtain ⟨d, -, rfl⟩ := List.mem_map.mp hu
          exact hp.made (made_str d)
    · cases h

end Value.Modest

end TracedScript
