import TracedScript.Number.Word

/-!
# Digits read back

What is written in decimal digits is read as the same number: `integer?_digits`, and for whole
numbers of 64 bits `Word.ofText?_digits`.
-/

namespace TracedScript.Number

/-! ## One digit -/

theorem digitValue?_digitChar (n : Nat) : digitValue? (digitChar n) = some (n % 10) := by
  have all : ∀ k < 10, digitValue? (Char.ofNat ('0'.toNat + k)) = some k := by decide
  exact all (n % 10) (Nat.mod_lt n (by decide))

theorem isDigit_digitChar (n : Nat) : isDigit (digitChar n) = true := by
  rw [isDigit, digitValue?_digitChar]
  rfl

/-! ## Natural numbers -/

theorem digits_ne_nil (n : Nat) : digits n ≠ [] := by
  unfold digits
  split
  · exact List.cons_ne_nil _ _
  · exact List.append_ne_nil_of_right_ne_nil _ (List.cons_ne_nil _ _)

theorem isDigit_of_mem_digits {n : Nat} {c : Char} (h : c ∈ digits n) : isDigit c = true := by
  fun_induction digits n with
  | case1 n =>
    obtain rfl := List.mem_singleton.mp h
    exact isDigit_digitChar n
  | case2 n _ ih =>
    obtain h | h := List.mem_append.mp h
    · exact ih h
    · obtain rfl := List.mem_singleton.mp h
      exact isDigit_digitChar n

theorem exists_digits (n : Nat) :
    ∃ d ds, digits n = d :: ds ∧ ∀ c ∈ d :: ds, isDigit c = true := by
  cases hd : digits n with
  | nil => exact absurd hd (digits_ne_nil n)
  | cons d ds => exact ⟨d, ds, rfl, fun c hc => isDigit_of_mem_digits (hd ▸ hc)⟩

/-- The digits are those that the standard library writes. -/
theorem digits_eq_toDigits (n : Nat) : digits n = Nat.toDigits 10 n := by
  have digit : ∀ k < 10, Char.ofNat ('0'.toNat + k) = k.digitChar := by decide
  have last (n : Nat) : digitChar n = (n % 10).digitChar :=
    digit (n % 10) (Nat.mod_lt n (by decide))
  fun_induction digits n with
  | case1 n small => rw [Nat.toDigits_of_lt_base small, last, Nat.mod_eq_of_lt small]
  | case2 n large ih =>
    rw [Nat.toDigits_of_base_le (by decide) (Nat.le_of_not_lt large), ih, last]

theorem appendDigits_append (acc : Nat) (cs ds : List Char) :
    appendDigits acc (cs ++ ds) = (appendDigits acc cs).bind fun k => appendDigits k ds := by
  induction cs generalizing acc with
  | nil => rfl
  | cons c cs ih =>
    rw [List.cons_append, appendDigits, appendDigits]
    cases digitValue? c with
    | none => rfl
    | some d => exact ih _

theorem appendDigits_digits (n : Nat) : appendDigits 0 (digits n) = some n := by
  fun_induction digits n with
  | case1 n small =>
    simp only [appendDigits, digitValue?_digitChar]
    congr 1
    omega
  | case2 n _ ih =>
    rw [appendDigits_append, ih, Option.bind_some]
    simp only [appendDigits, digitValue?_digitChar]
    congr 1
    omega

/-- Digits are read as digits, so no sign stands in front of them. -/
theorem integer?_digits (n : Nat) : integer? (digits n) = some (n : Int) := by
  obtain ⟨d, ds, hd, digit⟩ := exists_digits n
  have value : natural? (d :: ds) = some n := by
    rw [← appendDigits_digits n, hd]
    rfl
  have first := digit d (List.mem_cons_self ..)
  rw [hd]
  unfold integer?
  split
  · rename_i hs
    cases hs
    cases first
  · rename_i hs
    cases hs
    cases first
  · rw [value]
    rfl

/-! ## Whole numbers of 64 bits -/

namespace Word

theorem ofInt?_toInt (a : Int64) : ofInt? a.toInt = some a := by
  have low : Int64.minValue.toInt ≤ a.toInt := a.le_toInt
  have high : a.toInt ≤ Int64.maxValue.toInt := Int.le_of_lt_add_one a.toInt_lt
  rw [ofInt?, if_pos ⟨low, high⟩, Int64.ofInt_toInt]

/-- Only the least number has no opposite. -/
theorem toInt_neg {a : Int64} (h : a ≠ Int64.minValue) : (-a).toInt = -a.toInt := by
  have low : -2 ^ 63 ≤ a.toInt := a.le_toInt
  have high : a.toInt < 2 ^ 63 := a.toInt_lt
  have least : a.toInt ≠ -2 ^ 63 := fun he => h (Int64.toInt_inj.mp he)
  rw [Int64.toInt_neg]
  apply Int.bmod_eq_of_le <;> omega

theorem ofText?_digits {a : Int64} (h : 0 ≤ a.toInt) :
    ofText? (digits a.toInt.natAbs) = some a := by
  have value : (a.toInt.natAbs : Int) = a.toInt := Int.natAbs_of_nonneg h
  rw [ofText?, integer?_digits, Option.bind_some, value, ofInt?_toInt]

theorem neg?_neg {a : Int64} (h : a ≠ Int64.minValue) : neg? (-a) = some a := by
  rw [neg?, toInt_neg h, Int.neg_neg, ofInt?_toInt]

end Word

end TracedScript.Number
