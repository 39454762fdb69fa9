import TracedScript.Builtin.Apply
import TracedScript.Machine.Control
import TracedScript.Proofs.Run.Agreement
import TracedScript.Proofs.Value.Blame

/-!
# Elements in a row

Programs see the elements of an array, a tuple or a string in three ways: a loop visits them,
`length` counts them, and an index picks one of them, from the front or from the end. All three see
the same row. Main statement: `sequences_agree`.
-/

namespace TracedScript

/-! ## Lengths and slots -/

namespace Number.Word

variable {i : Int64} {n k : Nat}

theorem toInt_ofLength (h : n ≤ Int64.maxValue.toInt) : (ofLength n).toInt = n := by
  have high : Int64.maxValue.toInt = 2 ^ 63 - 1 := rfl
  rw [ofLength, if_pos h]
  exact Int64.toInt_ofInt_of_le (by omega) (by omega)

/-- A slot is meant by its number from the front and by its number from the end. -/
theorem slot?_eq_some_iff (h : n ≤ Int64.maxValue.toInt) :
    slot? i n = some k ↔ k < n ∧ (i.toInt = k ∨ i.toInt = k - n) := by
  unfold slot?
  dsimp only
  rw [Option.ite_none_right_eq_some, Option.some.injEq]
  split <;> omega

theorem slot?_eq_none (h : i.toInt < -n ∨ n ≤ i.toInt) : slot? i n = none := by
  apply if_neg
  split <;> omega

end Number.Word

/-! ## Rows -/

/-- The content is a row of the elements. -/
inductive Data.Row : Data → List Value → Prop where
  | array {items : List Value} : Row (.array items) items
  | tuple {items : List Value} : Row (.tuple items) items
  | str {s : String} : Row (.str s) (Value.characters s)

namespace Data.Row

variable {v w : Value} {items : List Value} {i : Int64}

theorem of_kind (h : v.kind ∈ [Kind.array, .tuple, .str]) : ∃ items, v.data.Row items := by
  obtain ⟨data, trace⟩ := v
  cases data with
  | array items => exact ⟨items, .array⟩
  | tuple items => exact ⟨items, .tuple⟩
  | str s => exact ⟨_, .str⟩
  | _ => simp [Value.kind, Data.kind] at h

theorem elements? (h : v.data.Row items) : v.elements? = some items := by
  obtain ⟨data, trace⟩ := v
  cases h <;> rfl

theorem length? (h : v.data.Row items) : v.length? = some items.length := by
  obtain ⟨data, trace⟩ := v
  cases h with
  | array | tuple => rfl
  | str => simp [Value.length?, Value.characters]

theorem member (h : v.data.Row items) (s : Store) (span : Span) :
    v.member s "length" span = .ok (.int (Number.Word.ofLength items.length)) := by
  have length := h.length?
  obtain ⟨data, trace⟩ := v
  cases h <;> simp [Value.member, Value.member?, length]

theorem index (h : v.data.Row items) (hw : w.data = .int i) (span : Span) :
    v.index w span = v.element items i span := by
  obtain ⟨data, trace⟩ := v
  cases h <;> simp [Value.index, hw]

end Data.Row

namespace Value

variable {v : Value} {items : List Value} {i : Int64} {span : Span}

theorem element_of_slot (h : items.length ≤ Int64.maxValue.toInt) {k : Nat} {u : Value}
    (hk : items[k]? = some u) (hi : i.toInt = k ∨ i.toInt = k - items.length) :
    v.element items i span = .ok u := by
  obtain ⟨room, -⟩ := List.getElem?_eq_some_iff.mp hk
  have slot := (Number.Word.slot?_eq_some_iff h).mpr ⟨room, hi⟩
  rw [element, slot, Option.bind_some, hk]

theorem element_of_outside (h : i.toInt < -items.length ∨ items.length ≤ i.toInt) :
    FailsAs (v.element items i span) .index
      s!"Index {Fault.decimal i.toInt} is out of range for {v.kind.name} of length {
        Fault.decimal items.length}" := by
  rw [element, Number.Word.slot?_eq_none h]
  exact (Fault.outOfRange i v.kind items.length).failsAs_withOrigin (some span) v.origin

/-- Added one after another to a string, strings are appended to it in order, wherever they come
from. -/
theorem foldlM_add_characters {ws : List Value} {s : String}
    (h : ws.map (·.data) = (characters s).map (·.data)) (t : String) :
    ws.foldlM (applyBinary .add) (.str t) = .ok (.str (t ++ s)) := by
  obtain ⟨cs, rfl⟩ : ∃ cs, s = String.ofList cs := ⟨_, String.ofList_toList.symm⟩
  rw [characters, String.toList_ofList, List.map_map] at h
  induction cs generalizing ws t with
  | nil =>
    obtain rfl := List.map_eq_nil_iff.mp h
    exact congrArg (fun s => Except.ok (str s)) (String.append_empty).symm
  | cons c cs ih =>
    obtain ⟨w, ws, rfl, hw, hws⟩ := List.map_eq_cons_iff.mp h
    have sum : applyBinary .add (.str t) w = .ok (.str (t ++ c.toString)) := by
      change add (.str t) w = _
      rw [add, hw]
      rfl
    rw [List.foldlM_cons, sum]
    refine (ih _ hws).trans ?_
    congr 2
    apply String.ext
    simp [String.toList_append, String.toList_ofList]

end Value

/-! ## Loops -/

namespace Eval

/-- The turn of an element in a loop: the element is bound, and the body runs and tells whether the
loop goes on. -/
def turn (eval : Evaluator) (target : Target) (iterable : Node) (body : List Node)
    (stack : CallStack) (u : Value) : Eval Bool := do
  let _ ← bindTarget target (u.relocate iterable.span stack.display) stack iterable.span
  pass (fun node => eval node stack true) body

/-- How the turns of elements end, from first to last: none is left, or one of them ends the loop,
or one does not come to its end. -/
inductive Turns (turn : Value → Eval Bool) : List Value → Machine → Ending Unit → Prop where
  | done {m : Machine} : Turns turn [] m (.ok (), m)
  | next {u : Value} {us : List Value} {m m' : Machine} {r : Ending Unit} :
    turn u m = (.ok true, m') → Turns turn us m' r → Turns turn (u :: us) m r
  | last {u : Value} {us : List Value} {m m' : Machine} :
    turn u m = (.ok false, m') → Turns turn (u :: us) m (.ok (), m')
  | stopped {u : Value} {us : List Value} {m m' : Machine} {s : Stop} :
    turn u m = (.error s, m') → Turns turn (u :: us) m (.error s, m')

theorem turns_passes (bind : Value → Eval Unit) (pass : Eval Bool) (us : List Value) (m : Machine) :
    Turns (fun u => do bind u; pass) us m (passes bind pass us m) := by
  induction us generalizing m with
  | nil => exact .done
  | cons u us ih =>
    have first : passes bind pass (u :: us) =
        ((do bind u; pass) >>= fun more => if more then passes bind pass us else return) := by
      rw [passes, bind_assoc]
    rw [first, bind_apply]
    rcases hu : (do bind u; pass : Eval Bool) m with ⟨r, m'⟩
    cases r with
    | error s => exact .stopped hu
    | ok more =>
      cases more with
      | false => exact .last hu
      | true => exact .next hu (ih m')

theorem turns_forEach {eval : Evaluator} {target : Target} {iterable : Node} {body : List Node}
    {stack : CallStack} {m m' : Machine} {v : Value} {items : List Value}
    (hv : eval iterable stack false m = (.ok v, m')) (h : v.elements? = some items) :
    Turns (turn eval target iterable body stack) items m'
      (forEach eval target iterable body stack m) := by
  have turns := turns_passes
    (fun u => do
      let _ ← bindTarget target (u.relocate iterable.span stack.display) stack iterable.span)
    (pass (fun node => eval node stack true) body) items m'
  simp only [bind_assoc, pure_bind] at turns
  rw [forEach, bind_of_ok hv, h]
  exact turns

end Eval

/-! ## Main statement -/

/-- Programs see the elements, and no others, in all that they do with a value. Lengths are bounded
as no more elements fit into memory. -/
structure Value.Shows (v : Value) (items : List Value) : Prop where
  loop : ∀ {eval : Evaluator} {iterable : Node} {stack : CallStack} {m m' : Machine}
    (target : Target) (body : List Node), eval iterable stack false m = (.ok v, m') →
    Eval.Turns (Eval.turn eval target iterable body stack) items m'
      (Eval.forEach eval target iterable body stack m)
  length : items.length ≤ Int64.maxValue.toInt → ∀ (s : Store) (span : Span), ∃ n : Int64,
    v.member s "length" span = .ok (.int n) ∧ n.toInt = items.length
  /-- An element is found under its number from the front and from the end. -/
  inside : items.length ≤ Int64.maxValue.toInt →
    ∀ (w : Value) (i : Int64) (k : Nat) (u : Value) (span : Span), w.data = .int i →
    items[k]? = some u → i.toInt = k ∨ i.toInt = k - items.length → v.index w span = .ok u
  outside : ∀ (w : Value) (i : Int64) (span : Span), w.data = .int i →
    i.toInt < -items.length ∨ items.length ≤ i.toInt →
    FailsAs (v.index w span) .index
      s!"Index {Fault.decimal i.toInt} is out of range for {v.kind.name} of length {
        Fault.decimal items.length}"
  array : ∀ span : Span, Builtin.result .array [v] span = .ok (.ofData (.array items))
  tuple : ∀ span : Span, Builtin.result .tuple [v] span = .ok (.ofData (.tuple items))
  /-- The elements of a string, wherever they have been, add up to it. -/
  sum : ∀ (s : String) (ws : List Value), v.data = .str s →
    ws.map (·.data) = items.map (·.data) →
    ws.foldlM (Value.applyBinary .add) (.str "") = .ok (.str s)

/-- What a loop over an array, a tuple or a string visits is what `length` counts, what indices pick
and what collections are made of. The value is to be well-formed, as all are that programs make. -/
theorem sequences_agree {v : Value} (kind : v.kind ∈ [Kind.array, .tuple, .str])
    (wellFormed : v.data.WellFormed) : ∃ items, v.elements? = some items ∧ v.Shows items := by
  obtain ⟨items, row⟩ := Data.Row.of_kind kind
  have oneKind := Value.oneKind_of_elements? wellFormed row.elements?
  refine ⟨items, row.elements?, ?_⟩
  constructor
  case loop => exact fun target body hv => Eval.turns_forEach hv row.elements?
  case length => exact fun room s span => ⟨_, row.member s span, Number.Word.toInt_ofLength room⟩
  case inside =>
    intro room w i k u span hw hk hi
    rw [row.index hw]
    exact Value.element_of_slot room hk hi
  case outside =>
    intro w i span hw hi
    rw [row.index hw]
    exact Value.element_of_outside hi
  case array =>
    intro span
    rw [Builtin.result, Value.toCollection, row.elements?]
    exact Value.array_of_oneKind oneKind
  case tuple =>
    intro span
    rw [Builtin.result, Value.toCollection, row.elements?]
    exact Value.tuple_of_oneKind oneKind
  case sum =>
    intro s ws hs hw
    rw [hs] at row
    cases row
    rw [Value.foldlM_add_characters hw, String.empty_append]

/-- A string is as long as it has characters, whatever their sizes in bytes, and has nothing at the
least of all indices. -/
theorem wide_characters_count_once :
    let v : Value := .str "aé😀"
    (∃ n : Int64, v.member Machine.initial.store "length" default = .ok (.int n) ∧ n.toInt = 3) ∧
      v.index (.int (-3)) default = .ok (.str "a") ∧ v.index (.int 2) default = .ok (.str "😀") ∧
      FailsAs (v.index (.int Int64.minValue) default) .index
        "Index -9223372036854775808 is out of range for Str of length 3" ∧
      Builtin.result .tuple [v] default =
        .ok (.ofData (.tuple [.str "a", .str "é", .str "😀"])) := by
  intro v
  obtain ⟨items, elements, shows⟩ := @sequences_agree v (by decide) trivial
  have chars : "aé😀".toList = ['a', 'é', '😀'] := by decide +kernel
  have visited : v.elements? = some [.str "a", .str "é", .str "😀"] := by
    change some (List.map _ "aé😀".toList) = _
    rw [chars]
    rfl
  obtain rfl := Option.some.inj (visited.symm.trans elements)
  refine ⟨shows.length (by decide) _ _, ?_, ?_, ?_, shows.tuple default⟩
  · exact shows.inside (by decide) _ (-3) 0 _ default rfl rfl (.inr (by decide))
  · exact shows.inside (by decide) _ 2 2 _ default rfl rfl (.inl (by decide))
  · have text : (Fault.outOfRange Int64.minValue .str 3).message =
        "Index -9223372036854775808 is out of range for Str of length 3" := by decide +kernel
    rw [← text]
    exact shows.outside (.int Int64.minValue) Int64.minValue default rfl (.inl (by decide))

end TracedScript
