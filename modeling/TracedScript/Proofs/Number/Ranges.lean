import Mathlib.Tactic.Linarith
import TracedScript.Builtin.Apply
import TracedScript.Proofs.Number.Powers

/-!
# Ranges are exact

A range is counted and listed with 128 bits, which is more than any step of it takes: `Roomy`. So
its length is the number of its places before the stop, `reaches_iff`, and all numbers at these
places have 64 bits. Main statement: `ranges_exact`.
-/

namespace TracedScript

namespace IntRange

variable {r : IntRange}

/-! ## What a range is to be -/

/-- The number so many steps from the start. -/
def place (r : IntRange) (k : Nat) : Int := r.start.toInt + k * r.step.toInt

/-- The number stands before the stop, seen in the direction of the step. -/
def Reaches (r : IntRange) (n : Int) : Prop :=
  if 0 < r.step.toInt then n < r.stop.toInt else r.stop.toInt < n

instance (r : IntRange) (n : Int) : Decidable (r.Reaches n) :=
  inferInstanceAs (Decidable (if 0 < r.step.toInt then n < r.stop.toInt else r.stop.toInt < n))

/-- No step of counting and listing the range leaves the 128 bits that it is done with. -/
structure Roomy (r : IntRange) : Prop where
  forth : (widen r.stop).ssubOverflow (widen r.start) = false
  back : (widen r.start).ssubOverflow (widen r.stop) = false
  stride : (widen r.step).negOverflow = false
  reach : r.distance.saddOverflow r.stride = false
  last : (r.distance + r.stride).ssubOverflow 1 = false
  count : (r.distance + r.stride - 1).sdivOverflow r.stride = false
  steps : ∀ k < r.length.toInt.toNat, (BitVec.ofNat 128 k).smulOverflow (widen r.step) = false
  item : ∀ k < r.length.toInt.toNat,
    (widen r.start).saddOverflow (BitVec.ofNat 128 k * widen r.step) = false

/-- The arguments that ask for the range. -/
inductive AskedBy : IntRange → List Value → Prop where
  | upTo {stop : Int64} {t : Trace} : AskedBy ⟨0, stop, 1⟩ [⟨.int stop, t⟩]
  | between {start stop : Int64} {t u : Trace} :
    AskedBy ⟨start, stop, 1⟩ [⟨.int start, t⟩, ⟨.int stop, u⟩]
  | stepping {start stop step : Int64} {t u s : Trace} :
    AskedBy ⟨start, stop, step⟩ [⟨.int start, t⟩, ⟨.int stop, u⟩, ⟨.int step, s⟩]

theorem AskedBy.result_eq {args : List Value} (h : r.AskedBy args) (span : Span) :
    Builtin.result .range args span = r.array span := by
  cases h <;> rfl

/-! ## Steps with 128 bits -/

section Steps

variable {x y : BitVec 128}

theorem add_exact (h : -2 ^ 127 ≤ x.toInt + y.toInt ∧ x.toInt + y.toInt < 2 ^ 127) :
    x.saddOverflow y = false ∧ (x + y).toInt = x.toInt + y.toInt := by
  have room : x.saddOverflow y = false := by simpa [BitVec.saddOverflow] using h.symm
  exact ⟨room, BitVec.toInt_add_of_not_saddOverflow (by simp [room])⟩

theorem sub_exact (h : -2 ^ 127 ≤ x.toInt - y.toInt ∧ x.toInt - y.toInt < 2 ^ 127) :
    x.ssubOverflow y = false ∧ (x - y).toInt = x.toInt - y.toInt := by
  have room : x.ssubOverflow y = false := by simpa [BitVec.ssubOverflow] using h.symm
  exact ⟨room, BitVec.toInt_sub_of_not_ssubOverflow (by simp [room])⟩

theorem mul_exact (h : -2 ^ 127 ≤ x.toInt * y.toInt ∧ x.toInt * y.toInt < 2 ^ 127) :
    x.smulOverflow y = false ∧ (x * y).toInt = x.toInt * y.toInt := by
  have room : x.smulOverflow y = false := by simpa [BitVec.smulOverflow] using h.symm
  exact ⟨room, BitVec.toInt_mul_of_not_smulOverflow (by simp [room])⟩

theorem toInt_widen (n : Int64) : (widen n).toInt = n.toInt :=
  BitVec.toInt_signExtend_of_le (by decide)

theorem widen_sub_exact (m n : Int64) :
    (widen m).ssubOverflow (widen n) = false ∧ (widen m - widen n).toInt = m.toInt - n.toInt := by
  have hm := And.intro m.le_toInt m.toInt_lt
  have hn := And.intro n.le_toInt n.toInt_lt
  rw [← toInt_widen m, ← toInt_widen n] at *
  exact sub_exact (by omega)

end Steps

/-! ## Counting -/

theorem toInt_distance (r : IntRange) : r.distance.toInt =
    if 0 < r.step.toInt then r.stop.toInt - r.start.toInt else r.start.toInt - r.stop.toInt := by
  unfold distance
  split <;> exact (widen_sub_exact _ _).2

theorem distance_small (r : IntRange) : -2 ^ 64 < r.distance.toInt ∧ r.distance.toInt < 2 ^ 64 := by
  have start := And.intro r.start.le_toInt r.start.toInt_lt
  have stop := And.intro r.stop.le_toInt r.stop.toInt_lt
  rw [toInt_distance]
  split <;> omega

theorem negOverflow_step (r : IntRange) : (widen r.step).negOverflow = false := by
  have low := r.step.le_toInt
  simp only [BitVec.negOverflow, toInt_widen, beq_eq_false_iff_ne]
  omega

theorem toInt_stride (r : IntRange) : r.stride.toInt = r.step.toInt.natAbs := by
  rw [stride, BitVec.toInt_abs_eq_natAbs, if_neg, toInt_widen]
  intro least
  have overflow := r.negOverflow_step
  rw [least] at overflow
  cases overflow

section Stepping

variable (h : r.step ≠ 0)

include h

theorem stride_small : 1 ≤ r.stride.toInt ∧ r.stride.toInt ≤ 2 ^ 63 := by
  have range := And.intro r.step.le_toInt r.step.toInt_lt
  have nonzero : r.step.toInt ≠ 0 := fun zero => h (Int64.toInt_inj.mp zero)
  rw [toInt_stride]
  omega

theorem reach_exact : r.distance.saddOverflow r.stride = false ∧
    (r.distance + r.stride).toInt = r.distance.toInt + r.stride.toInt := by
  have distance := r.distance_small
  have stride := stride_small h
  exact add_exact (by omega)

theorem last_exact : (r.distance + r.stride).ssubOverflow 1 = false ∧
    (r.distance + r.stride - 1).toInt = r.distance.toInt + r.stride.toInt - 1 := by
  have distance := r.distance_small
  have stride := stride_small h
  have one : (1 : BitVec 128).toInt = 1 := rfl
  have less := sub_exact (x := r.distance + r.stride) (y := 1)
  rw [(reach_exact h).2, one] at less
  exact less (by omega)

theorem toInt_length : r.length.toInt =
    if r.distance.toInt ≤ 0 then 0
    else (r.distance.toInt + r.stride.toInt - 1) / r.stride.toInt := by
  have stride := stride_small h
  unfold length
  split
  · rfl
  · have one : r.stride ≠ -1#128 := by
      intro minus
      rw [minus] at stride
      exact absurd stride.1 (by decide)
    rw [BitVec.toInt_sdiv_of_ne_or_ne _ _ (.inr one), (last_exact h).2,
      Int.tdiv_eq_ediv_of_nonneg (by omega)]

/-- A place is counted if the steps up to it are shorter than the distance. -/
theorem lt_length_iff (k : Nat) :
    (k : Int) < r.length.toInt ↔ k * r.stride.toInt < r.distance.toInt := by
  obtain ⟨one, -⟩ := stride_small h
  rw [toInt_length h]
  split
  · have : 0 ≤ k * r.stride.toInt := by positivity
    omega
  · rw [Int.lt_iff_add_one_le, Int.le_ediv_iff_mul_le (by omega), add_mul]
    omega

/-! ## Listing -/

variable {k : Nat}

theorem reaches_iff : r.Reaches (r.place k) ↔ k < r.length.toInt.toNat := by
  rw [Int.lt_toNat, lt_length_iff h, toInt_distance, toInt_stride, Reaches, place]
  split
  · rename_i forward
    rw [Int.natAbs_of_nonneg (by omega)]
    omega
  · rename_i backward
    rw [Int.ofNat_natAbs_of_nonpos (by omega), mul_neg]
    omega

omit h in
/-- A number before the stop lies between the start and the stop. -/
theorem place_small (hk : r.Reaches (r.place k)) : -2 ^ 63 ≤ r.place k ∧ r.place k < 2 ^ 63 := by
  have start := And.intro r.start.le_toInt r.start.toInt_lt
  have stop := And.intro r.stop.le_toInt r.stop.toInt_lt
  unfold Reaches at hk
  split at hk
  · rename_i forward
    have : 0 ≤ k * r.step.toInt := by positivity
    have : r.start.toInt ≤ r.place k := by
      unfold place
      omega
    omega
  · rename_i backward
    have : k * r.step.toInt ≤ 0 := mul_nonpos_of_nonneg_of_nonpos (by positivity) (by omega)
    have : r.place k ≤ r.start.toInt := by
      unfold place
      omega
    omega

theorem toInt_ofNat_place (hk : k < r.length.toInt.toNat) : (BitVec.ofNat 128 k).toInt = k := by
  have distance := r.distance_small
  obtain ⟨stride, -⟩ := stride_small h
  have before := (lt_length_iff h k).mp (Int.lt_toNat.mp hk)
  have wider : (k : Int) ≤ k * r.stride.toInt := le_mul_of_one_le_right (by positivity) stride
  have same : (BitVec.ofNat 128 k).toNat = k := Nat.mod_eq_of_lt (by omega)
  rw [BitVec.toInt_eq_toNat_of_lt (by rw [same]; omega), same]

theorem steps_exact (hk : k < r.length.toInt.toNat) :
    (BitVec.ofNat 128 k).smulOverflow (widen r.step) = false ∧
      (BitVec.ofNat 128 k * widen r.step).toInt = k * r.step.toInt := by
  have small := place_small ((reaches_iff h).mpr hk)
  have start := And.intro r.start.le_toInt r.start.toInt_lt
  have steps := mul_exact (x := BitVec.ofNat 128 k) (y := widen r.step)
  rw [toInt_ofNat_place h hk, toInt_widen] at steps
  unfold place at small
  exact steps (by omega)

theorem item_exact (hk : k < r.length.toInt.toNat) :
    (widen r.start).saddOverflow (BitVec.ofNat 128 k * widen r.step) = false ∧
      (r.number k).toInt = r.place k := by
  have small := place_small ((reaches_iff h).mpr hk)
  have item := add_exact (x := widen r.start) (y := BitVec.ofNat 128 k * widen r.step)
  rw [(steps_exact h hk).2, toInt_widen] at item
  unfold place at small
  exact item (by omega)

theorem roomy : r.Roomy where
  forth := (widen_sub_exact _ _).1
  back := (widen_sub_exact _ _).1
  stride := r.negOverflow_step
  reach := (reach_exact h).1
  last := (last_exact h).1
  count := by
    have distance := r.distance_small
    have stride := stride_small h
    simp only [BitVec.sdivOverflow, (last_exact h).2, Bool.or_eq_false_iff, decide_eq_false_iff_not,
      not_le, not_lt]
    constructor
    · apply Int.ediv_lt_of_lt_mul <;> omega
    · apply Int.le_ediv_of_mul_le <;> omega
  steps k hk := (steps_exact h hk).1
  item k hk := (item_exact h hk).1

/-- No number is dropped. -/
theorem map_toInt_numbers :
    r.numbers.map Int64.toInt = (List.range r.length.toInt.toNat).map r.place := by
  unfold numbers
  rw [List.map_filterMap, ← List.filterMap_eq_map]
  apply List.filterMap_congr
  intro k hk
  have hk := List.mem_range.mp hk
  have small := place_small ((reaches_iff h).mpr hk)
  rw [(item_exact h hk).2]
  cases kept : Number.Word.ofInt? (r.place k) with
  | none =>
    have := Number.Word.ofInt?_eq_none_iff.mp kept
    omega
  | some n => exact congrArg some (Number.Word.ofInt?_eq_some_iff.mp kept)

end Stepping

end IntRange

/-! ## Main statement -/

/-- Let a range have a step other than zero, and let it be asked for with one, two or three
arguments. The places of the range whose numbers stand before its stop are the first `n` ones, for
some `n`. If these are at most ten million, the result is the array of the numbers at these places,
in order, and else a failure that names `n`. -/
theorem ranges_exact {r : IntRange} (h : r.step ≠ 0) :
    r.Roomy ∧ ∃ n : Nat, (∀ k : Nat, r.Reaches (r.place k) ↔ k < n) ∧
      ∀ (args : List Value) (span : Span), r.AskedBy args →
        (n ≤ 10000000 → ∃ items : List Int64,
          Builtin.result .range args span = .ok (.ofData (.array (items.map .int))) ∧
          items.map Int64.toInt = (List.range n).map r.place) ∧
        (10000000 < n → FailsAs (Builtin.result .range args span) .value
          s!"Range of {Fault.decimal n} items exceeds the limit of 10000000") := by
  refine ⟨IntRange.roomy h, r.length.toInt.toNat, fun k => IntRange.reaches_iff h, ?_⟩
  intro args span asked
  rw [asked.result_eq, IntRange.array, if_neg h]
  have limit : (IntRange.limit : Int) = 10000000 := rfl
  constructor
  · intro few
    rw [if_neg (by omega)]
    exact ⟨r.numbers, rfl, IntRange.map_toInt_numbers h⟩
  · intro many
    have count : (r.length.toInt.toNat : Int) = r.length.toInt := Int.toNat_of_nonneg (by omega)
    rw [if_pos (by omega), count]
    have text : " items exceeds the limit of " ++ Fault.decimal IntRange.limit =
        " items exceeds the limit of 10000000" := by decide +kernel
    have wording (most : Int) : (Fault.rangeTooLong r.length.toInt most).message =
        "Range of " ++ Fault.decimal r.length.toInt ++ " items exceeds the limit of " ++
          Fault.decimal most := rfl
    have fails := (Fault.rangeTooLong r.length.toInt IntRange.limit).failsAs_failure (some span)
      (α := Value)
    rw [wording, String.append_assoc, text] at fails
    exact fails

/-- From the least number to the greatest one, in wide steps upward and one by one downward. -/
theorem ranges_between_extremes :
    let wide : IntRange := ⟨Int64.minValue, Int64.maxValue, 4611686018427387904⟩
    let args : List Value := [.int wide.start, .int wide.stop, .int wide.step]
    let args' : List Value := [.int Int64.maxValue, .int Int64.minValue, .int (-1)]
    wide.step ≠ 0 ∧ wide.AskedBy args ∧
      (∃ items : List Int64,
        Builtin.result .range args default = .ok (.ofData (.array (items.map .int))) ∧
        items.map Int64.toInt = [-2 ^ 63, -2 ^ 62, 0, 2 ^ 62]) ∧
      FailsAs (Builtin.result .range args' default) .value
        "Range of 18446744073709551615 items exceeds the limit of 10000000" := by
  intro wide args args'
  have nonzero : wide.step ≠ 0 := by decide
  refine ⟨nonzero, .stepping, ?_, ?_⟩
  · obtain ⟨-, n, places, result⟩ := ranges_exact nonzero
    have fourth := (places 3).mp (by decide)
    have fifth := mt (places 4).mpr (by decide)
    obtain rfl : n = 4 := by omega
    have numbers : (List.range 4).map wide.place = [-2 ^ 63, -2 ^ 62, 0, 2 ^ 62] := by decide
    rw [← numbers]
    exact (result args default .stepping).1 (by omega)
  · let back : IntRange := ⟨Int64.maxValue, Int64.minValue, -1⟩
    obtain ⟨-, n, places, result⟩ := ranges_exact (r := back) (by decide)
    have last := (places 18446744073709551614).mp (by decide)
    have behind := mt (places 18446744073709551615).mpr (by decide)
    obtain rfl : n = 18446744073709551615 := by omega
    have text : Fault.decimal (18446744073709551615 : Nat) = "18446744073709551615" := by
      decide +kernel
    have fails := (result args' default .stepping).2 (by omega)
    rw [text] at fails
    exact fails

end TracedScript
