import Mathlib.Algebra.Order.Ring.Abs
import Mathlib.Algebra.Order.Ring.Int
import Mathlib.Tactic.Linarith
import Mathlib.Tactic.Positivity
import Mathlib.Tactic.Ring
import TracedScript.Value.Operators
import TracedScript.Proofs.Number.Digits

/-!
# Powers of whole numbers

Repeated squaring finds the power exactly, and finds none only if the power has no 64 bits:
`Word.timesPower?_eq`. For once a product has left the range, the factors that are left do not lead
back into it. Main statement: `powers_exact`.
-/

namespace TracedScript

namespace Number.Word

variable {a b : Int64} {n x : Int}

theorem ofInt?_eq_some_iff : ofInt? n = some a ↔ a.toInt = n := by
  constructor
  · intro h
    unfold ofInt? at h
    split at h
    · rename_i range
      cases h
      exact Int64.toInt_ofInt_of_le range.1 (Int.lt_add_one_of_le range.2)
    · cases h
  · rintro rfl
    exact ofInt?_toInt a

theorem ofInt?_eq_none_iff : ofInt? n = none ↔ n < -2 ^ 63 ∨ 2 ^ 63 ≤ n := by
  have low : Int64.minValue.toInt = -2 ^ 63 := rfl
  have high : Int64.maxValue.toInt = 2 ^ 63 - 1 := rfl
  unfold ofInt?
  rw [low, high]
  split <;> simp <;> omega

/-! ## Products that leave the range -/

/-- A positive factor does not lead back into the range. -/
theorem ofInt?_mul_of_pos (h : ofInt? n = none) (hx : 0 < x) : ofInt? (n * x) = none := by
  rw [ofInt?_eq_none_iff] at h ⊢
  obtain h | h := h
  · left
    nlinarith
  · right
    nlinarith

/-- No factor but zero leads back into the range once a square has left it: no square is `2 ^ 63`,
so that its opposite has left the range as well. -/
theorem ofInt?_square_mul (h : ofInt? (n * n) = none) (hx : x ≠ 0) :
    ofInt? (n * n * x) = none := by
  have large : 2 ^ 63 < n * n := by
    have above : 2 ^ 63 ≤ n * n := by
      obtain below | above := ofInt?_eq_none_iff.mp h
      · have := mul_self_nonneg n
        omega
      · exact above
    rw [← abs_mul_abs_self n] at above ⊢
    -- The root of `2 ^ 63` lies between two neighbours.
    obtain small | root : |n| ≤ 3037000499 ∨ 3037000500 ≤ |n| := by omega
    · have := mul_self_le_mul_self (abs_nonneg n) small
      omega
    · have := mul_self_le_mul_self (by norm_num) root
      omega
  rw [ofInt?_eq_none_iff]
  obtain hx | hx := lt_or_gt_of_ne hx
  · left
    nlinarith
  · right
    nlinarith

/-! ## Repeated squaring -/

theorem ne_zero_of_mul?_eq_none (h : mul? a b = none) : a.toInt ≠ 0 ∧ b.toInt ≠ 0 := by
  rw [← mul_ne_zero_iff]
  intro zero
  rw [mul?, zero] at h
  cases h

/-- One squaring, and then the power of the square. -/
theorem square_timesPower?_eq (acc base : Int64) (k : Nat)
    (h : acc.toInt = 0 → base.toInt = 0)
    (ih : ∀ square : Int64, (acc.toInt = 0 → square.toInt = 0) →
      timesPower? acc square (k + 1) = ofInt? (acc.toInt * square.toInt ^ (k + 1))) :
    (do timesPower? acc (← mul? base base) (k + 1)) =
      ofInt? (acc.toInt * base.toInt ^ (2 * (k + 1))) := by
  cases hs : mul? base base with
  | none =>
    obtain ⟨nonzero, -⟩ := ne_zero_of_mul?_eq_none hs
    have rest : acc.toInt * (base.toInt * base.toInt) ^ k ≠ 0 :=
      mul_ne_zero (mt h nonzero) (pow_ne_zero k (mul_ne_zero nonzero nonzero))
    have power : acc.toInt * base.toInt ^ (2 * (k + 1)) =
        base.toInt * base.toInt * (acc.toInt * (base.toInt * base.toInt) ^ k) := by
      rw [pow_mul, pow_succ, pow_two]
      ring
    rw [power, ofInt?_square_mul hs rest]
    rfl
  | some square =>
    have value := ofInt?_eq_some_iff.mp hs
    have zero : acc.toInt = 0 → square.toInt = 0 := fun ha => by rw [value, h ha, mul_zero]
    rw [pow_mul, pow_two, ← value]
    exact ih square zero

/-- The product is found if it has 64 bits, and else none is. The accumulator is zero only if the
base is, as it is a product of powers of the base. -/
theorem timesPower?_eq {acc base : Int64} (h : acc.toInt = 0 → base.toInt = 0) (n : Nat) :
    timesPower? acc base n = ofInt? (acc.toInt * base.toInt ^ n) := by
  induction n using Nat.strong_induction_on generalizing acc base with
  | h n ih =>
    rw [timesPower?]
    split
    · rename_i hn
      rw [hn, pow_zero, mul_one, ofInt?_toInt]
    split
    · rename_i hn
      rw [hn, pow_one]
      rfl
    obtain ⟨k, hk⟩ : ∃ k, n / 2 = k + 1 := ⟨n / 2 - 1, by omega⟩
    rw [hk]
    split
    · rename_i even
      have double : n = 2 * (k + 1) := by omega
      have squared := square_timesPower?_eq acc base k h fun square => ih (k + 1) (by omega)
      rw [double]
      exact squared
    · have double : n = 2 * (k + 1) + 1 := by omega
      have power : acc.toInt * base.toInt ^ n =
          acc.toInt * base.toInt * base.toInt ^ (2 * (k + 1)) := by
        rw [double, pow_succ]
        ring
      rw [power]
      cases hp : mul? acc base with
      | none =>
        obtain ⟨-, nonzero⟩ := ne_zero_of_mul?_eq_none hp
        have rest : 0 < base.toInt ^ (2 * (k + 1)) := by
          rw [pow_mul]
          positivity
        rw [ofInt?_mul_of_pos hp rest]
        rfl
      | some acc' =>
        have value := ofInt?_eq_some_iff.mp hp
        have zero : acc'.toInt = 0 → base.toInt = 0 := by
          rw [value, mul_eq_zero]
          exact fun either => either.elim h id
        rw [← value]
        exact square_timesPower?_eq acc' base k zero fun square => ih (k + 1) (by omega)

/-! ## Powers of any size -/

theorem pow?_of_small (ha : 0 ≤ b.toInt) (hb : b.toInt < 2 ^ 32) :
    pow? a b = ofInt? (a.toInt ^ b.toInt.toNat) := by
  have one : (1 : Int64).toInt = 1 := rfl
  rw [pow?, if_pos ⟨ha, hb⟩, timesPower?_eq (by rw [one]; exact fun h => by cases h), one, one_mul]

theorem pow?_of_large (hb : 2 ^ 32 ≤ b.toInt) : pow? a b = none :=
  if_neg fun h => absurd h.2 (not_lt.mpr hb)

/-- Powers with large exponents have no 64 bits, those of 0, 1 and -1 apart. -/
theorem ofInt?_pow_of_large (hx : 2 ≤ x.natAbs) {k : Nat} (hk : 64 ≤ k) :
    ofInt? (x ^ k) = none := by
  have large : 2 ^ 64 ≤ (x ^ k).natAbs := by
    rw [Int.natAbs_pow]
    calc 2 ^ 64 ≤ 2 ^ k := Nat.pow_le_pow_right (by decide) hk
      _ ≤ x.natAbs ^ k := Nat.pow_le_pow_left hx k
  rw [ofInt?_eq_none_iff]
  omega

end Number.Word

/-! ## Main statement -/

/-- The power of two whole numbers is exact: it is the integer that the power is, if that has 64
bits, and else the failure of an overflow; a negative exponent is another failure. This is so for
all bases and exponents but those of more than 32 bits of the bases 0, 1 and -1. -/
theorem powers_exact (a b : Int64) (t u : Trace) (h : a.toInt.natAbs ≤ 1 → b.toInt < 2 ^ 32) :
    let power := a.toInt ^ b.toInt.toNat
    let result := Value.applyBinary .power ⟨.int a, t⟩ ⟨.int b, u⟩
    (0 ≤ b.toInt → -2 ^ 63 ≤ power ∧ power < 2 ^ 63 →
      ∃ c : Int64, c.toInt = power ∧ result = .ok (.int c)) ∧
    (0 ≤ b.toInt → power < -2 ^ 63 ∨ 2 ^ 63 ≤ power → FailsAs result .value "Integer overflow") ∧
    (b.toInt < 0 → FailsAs result .value
      s!"Int can not be raised to the negative power {Fault.decimal b.toInt}") := by
  intro power result
  have checks (hb : 0 ≤ b.toInt) : result =
      Value.checked ⟨.int a, t⟩ ⟨.int b, u⟩ (Number.Word.ofInt? power) := by
    have same : Number.Word.pow? a b = Number.Word.ofInt? power := by
      by_cases small : b.toInt < 2 ^ 32
      · exact Number.Word.pow?_of_small hb small
      · rw [Number.Word.pow?_of_large (not_lt.mp small)]
        exact (Number.Word.ofInt?_pow_of_large (by omega) (by omega)).symm
    rw [← same]
    exact if_neg (not_lt.mpr hb)
  refine ⟨fun hb fits => ?_, fun hb leaves => ?_, fun hb => ?_⟩
  · cases hc : Number.Word.ofInt? power with
    | none =>
      have := Number.Word.ofInt?_eq_none_iff.mp hc
      omega
    | some c =>
      rw [checks hb, hc]
      exact ⟨c, Number.Word.ofInt?_eq_some_iff.mp hc, rfl⟩
  · rw [checks hb, Number.Word.ofInt?_eq_none_iff.mpr leaves]
    exact Fault.overflow.failsAs_failure _
  · have negative : result =
        .error (Value.blameRight ⟨.int a, t⟩ ⟨.int b, u⟩ (.negativePower b)) := if_pos hb
    rw [negative]
    exact (Fault.negativePower b).failsAs_withOrigin _ _

/-- The least number is a power of -2, although its opposite, which is a power of 2, does not have
64 bits. -/
theorem least_number_is_power :
    let result (exponent : Int64) := Value.applyBinary .power (.int (-2)) (.int exponent)
    ((-2 : Int64).toInt.natAbs ≤ 1 → (63 : Int64).toInt < 2 ^ 32) ∧
      (∃ c : Int64, c.toInt = -2 ^ 63 ∧ result 63 = .ok (.int c)) ∧
      FailsAs (result 64) .value "Integer overflow" ∧
      FailsAs (result (-1)) .value "Int can not be raised to the negative power -1" := by
  intro result
  have odd : (-2 : Int64).toInt ^ (63 : Int64).toInt.toNat = -2 ^ 63 := by decide
  have even : 2 ^ 63 ≤ (-2 : Int64).toInt ^ (64 : Int64).toInt.toNat := by decide
  obtain ⟨fits, -, -⟩ := powers_exact (-2) 63 .fresh .fresh (by decide)
  obtain ⟨-, leaves, -⟩ := powers_exact (-2) 64 .fresh .fresh (by decide)
  obtain ⟨-, -, negative⟩ := powers_exact (-2) (-1) .fresh .fresh (by decide)
  rw [odd] at fits
  have text : s!"Int can not be raised to the negative power {Fault.decimal (-1 : Int64).toInt}" =
      "Int can not be raised to the negative power -1" := by decide +kernel
  rw [text] at negative
  exact ⟨by decide, fits (by decide) (by decide), leaves (by decide) (.inr even),
    negative (by decide)⟩

/-- An exponent of more than 32 bits is taken for an overflow, although every power of one is
one. -/
theorem power_of_one_overflows :
    (1 : Int64).toInt ^ (4294967296 : Int64).toInt.toNat = 1 ∧
      FailsAs (Value.applyBinary .power (.int 1) (.int 4294967296)) .value "Integer overflow" := by
  constructor
  · exact one_pow _
  · have refused : Number.Word.pow? 1 4294967296 = none := Number.Word.pow?_of_large (by decide)
    have result : Value.applyBinary .power (.int 1) (.int 4294967296) =
        .error (Fault.overflow.failure none) := by
      change Value.checked _ _ (Number.Word.pow? 1 4294967296) = _
      rw [refused]
      rfl
    rw [result]
    exact Fault.overflow.failsAs_failure _

end TracedScript
