import Mathlib.Data.List.TakeWhile
import TracedScript.Number.FloatText

/-!
# Digits as numbers

A text of decimal digits is read as the number that the digits have in base ten, as an integer if it
has 64 bits: `Word.ofText?_of_digits`. With a point in it, it is read as a float, which is nearest
to the number without the point divided by a power of ten: `float?_of_digits`.
-/

namespace TracedScript.Number

/-- All the characters are digits. -/
def Digits (cs : List Char) : Prop := ∀ c ∈ cs, c.isDigit = true

instance (cs : List Char) : Decidable (Digits cs) := List.decidableBAll _ cs

variable {c : Char} {cs whole part : List Char}

/-! ## Whole numbers -/

theorem digitValue?_of_digit (h : c.isDigit = true) :
    digitValue? c = some (c.toNat - '0'.toNat) :=
  if_pos (Char.isDigit_iff_toNat.mp h)

theorem isDigit_iff : isDigit c = true ↔ c.isDigit = true := by
  constructor
  · intro h
    unfold isDigit digitValue? at h
    split at h
    · rename_i range
      exact Char.isDigit_iff_toNat.mpr range
    · cases h
  · intro h
    rw [isDigit, digitValue?_of_digit h]
    rfl

theorem appendDigits_of_digits (h : Digits cs) (acc : Nat) :
    appendDigits acc cs = some (Nat.ofDigitChars 10 cs acc) := by
  induction cs generalizing acc with
  | nil => rw [appendDigits, Nat.ofDigitChars_nil]
  | cons c cs ih =>
    obtain ⟨hc, hcs⟩ := List.forall_mem_cons.mp h
    rw [appendDigits, digitValue?_of_digit hc, Nat.ofDigitChars_cons, Nat.mul_comm 10]
    exact ih hcs _

theorem natural?_of_digits (h : Digits cs) (hne : cs ≠ []) :
    natural? cs = some (Nat.ofDigitChars 10 cs 0) := by
  cases cs with
  | nil => exact absurd rfl hne
  | cons c cs => exact appendDigits_of_digits h 0

/-- No sign stands in front of digits. -/
theorem integer?_of_digits (h : Digits cs) : integer? cs = (natural? cs).map Int.ofNat := by
  unfold integer?
  split
  · cases h '+' (List.mem_cons_self ..)
  · cases h '-' (List.mem_cons_self ..)
  · rfl

namespace Word

/-- A natural number has 64 bits exactly if it is below `2 ^ 63`. -/
theorem ofInt?_natCast (n : Nat) :
    ofInt? n = if n < Nat.pow 2 63 then some (Int64.ofNat n) else none := by
  have low : Int64.minValue.toInt = -(Nat.pow 2 63 : Nat) := rfl
  have high : Int64.maxValue.toInt = (Nat.pow 2 63 : Nat) - 1 := rfl
  rw [ofInt?, low, high]
  by_cases fits : n < Nat.pow 2 63
  · rw [if_pos fits, if_pos (by omega)]
    rfl
  · rw [if_neg fits, if_neg (by omega)]

theorem ofText?_of_digits (h : Digits cs) (hne : cs ≠ []) :
    let n := Nat.ofDigitChars 10 cs 0
    ofText? cs = if n < Nat.pow 2 63 then some (Int64.ofNat n) else none := by
  rw [ofText?, integer?_of_digits h, natural?_of_digits h hne]
  exact ofInt?_natCast _

end Word

/-! ## Floats -/

theorem magnitude?_of_digits (hw : Digits whole) (hp : Digits part) (hne : whole ++ part ≠ []) :
    magnitude? (whole ++ '.' :: part) =
      some (ofScientific ⟨Nat.ofDigitChars 10 (whole ++ part) 0, -part.length⟩) := by
  have front (c : Char) (hc : c ∈ whole) : isDigit c = true := isDigit_iff.mpr (hw c hc)
  have behind (c : Char) (hc : c ∈ part) : isDigit c = true := isDigit_iff.mpr (hp c hc)
  have point : isDigit '.' = false := rfl
  have both : Digits (whole ++ part) := by
    intro c hc
    exact (List.mem_append.mp hc).elim (hw c) (hp c)
  have value := natural?_of_digits both hne
  unfold magnitude?
  simp only [List.takeWhile_append_of_pos front, List.dropWhile_append_of_pos front,
    List.takeWhile_cons, List.dropWhile_cons, point, Bool.false_eq_true, ↓reduceIte,
    List.append_nil, List.takeWhile_eq_self_iff.mpr behind, List.dropWhile_eq_nil_iff.mpr behind,
    exponent?, value, Int.zero_sub]

/-- Neither a sign nor a word starts with a digit or a point. -/
theorem first_of_number (h : c.isDigit = true ∨ c = '.') :
    c ∉ ['+', '-'] ∧ c.toLower ∉ ['i', 'n'] := by
  obtain digit | rfl := h
  · have all : ∀ n < 10, Char.ofNat (48 + n) ∉ ['+', '-'] ∧
        (Char.ofNat (48 + n)).toLower ∉ ['i', 'n'] := by decide
    have range : 48 ≤ c.toNat ∧ c.toNat ≤ 57 := Char.isDigit_iff_toNat.mp digit
    have place : 48 + (c.toNat - 48) = c.toNat := by omega
    have first := all (c.toNat - 48) (by omega)
    rwa [place, Char.ofNat_toNat] at first
  · decide

theorem float?_of_digits (hw : Digits whole) (hp : Digits part) (hne : whole ++ part ≠ []) :
    float? (whole ++ '.' :: part) =
      some (ofScientific ⟨Nat.ofDigitChars 10 (whole ++ part) 0, -part.length⟩) := by
  obtain ⟨c, cs, number, first⟩ : ∃ c cs, whole ++ '.' :: part = c :: cs ∧
      (c.isDigit = true ∨ c = '.') := by
    cases whole with
    | nil => exact ⟨'.', part, rfl, .inr rfl⟩
    | cons c whole => exact ⟨c, whole ++ '.' :: part, rfl, .inl (hw c (List.mem_cons_self ..))⟩
  obtain ⟨noSign, noWord⟩ := first_of_number first
  simp only [List.mem_cons, List.not_mem_nil, or_false, not_or] at noSign noWord
  rw [← magnitude?_of_digits hw hp hne, number]
  have plain : float? (c :: cs) = unsigned? (c :: cs) := by
    unfold float?
    split
    · rename_i hs
      exact absurd (List.cons.inj hs).1 noSign.1
    · rename_i hs
      exact absurd (List.cons.inj hs).1 noSign.2
    · rfl
  rw [plain, unsigned?]
  simp [lower, noWord]

end TracedScript.Number
