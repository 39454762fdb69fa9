import TracedScript.Proofs.Number.Digits
import TracedScript.Proofs.Number.Numerals
import TracedScript.Proofs.Number.Powers

/-!
# Signed numerals

`Numeral cs z`: the text is an optional sign and decimal digits, which stand for `z`. Just these
texts are read as integers, `integer?_eq_some_iff`, and as whole numbers of 64 bits if they stand
for one, `Word.ofText?_eq_some_iff`. An integer is written as a numeral that stands for it.
-/

namespace TracedScript.Number

/-- An optional sign and one or more digits, with the value that they have. -/
inductive Numeral : List Char → Int → Prop where
  | unsigned {ds : List Char} : Digits ds → ds ≠ [] → Numeral ds (Nat.ofDigitChars 10 ds 0)
  | plus {ds : List Char} : Digits ds → ds ≠ [] → Numeral ('+' :: ds) (Nat.ofDigitChars 10 ds 0)
  | minus {ds : List Char} : Digits ds → ds ≠ [] →
    Numeral ('-' :: ds) (-(Nat.ofDigitChars 10 ds 0 : Nat))

variable {cs : List Char} {z : Int}

/-! ## Reading -/

theorem digits_of_appendDigits {acc n : Nat} (h : appendDigits acc cs = some n) : Digits cs := by
  induction cs generalizing acc with
  | nil => exact List.forall_mem_nil _
  | cons c cs ih =>
    rw [appendDigits] at h
    cases value : digitValue? c with
    | none =>
      rw [value] at h
      cases h
    | some d =>
      rw [value] at h
      have digit : c.isDigit = true := isDigit_iff.mp (Option.isSome_iff_exists.mpr ⟨d, value⟩)
      exact List.forall_mem_cons.mpr ⟨digit, ih h⟩

theorem natural?_eq_some_iff {n : Nat} :
    natural? cs = some n ↔ Digits cs ∧ cs ≠ [] ∧ n = Nat.ofDigitChars 10 cs 0 := by
  constructor
  · intro h
    obtain ⟨digits, hne⟩ : Digits cs ∧ cs ≠ [] := by
      cases cs with
      | nil => cases h
      | cons c cs => exact ⟨digits_of_appendDigits h, List.cons_ne_nil c cs⟩
    rw [natural?_of_digits digits hne] at h
    exact ⟨digits, hne, (Option.some.inj h).symm⟩
  · rintro ⟨digits, hne, rfl⟩
    exact natural?_of_digits digits hne

theorem integer?_eq_some_iff : integer? cs = some z ↔ Numeral cs z := by
  constructor
  · intro h
    unfold integer? at h
    split at h
    all_goals
      obtain ⟨n, hn, rfl⟩ := Option.map_eq_some_iff.mp h
      obtain ⟨digits, hne, rfl⟩ := natural?_eq_some_iff.mp hn
    · exact .plus digits hne
    · exact .minus digits hne
    · exact .unsigned digits hne
  · intro h
    cases h with
    | unsigned digits hne => rw [integer?_of_digits digits, natural?_of_digits digits hne]; rfl
    | plus digits hne => rw [integer?, natural?_of_digits digits hne]; rfl
    | minus digits hne => rw [integer?, natural?_of_digits digits hne]; rfl

theorem Word.ofText?_eq_some_iff {a : Int64} : ofText? cs = some a ↔ Numeral cs a.toInt := by
  rw [ofText?, Option.bind_eq_some_iff, ← integer?_eq_some_iff]
  constructor
  · rintro ⟨z, hz, ha⟩
    rw [ofInt?_eq_some_iff.mp ha]
    exact hz
  · exact fun h => ⟨a.toInt, h, ofInt?_eq_some_iff.mpr rfl⟩

/-! ## Writing -/

theorem digits_digits (n : Nat) : Digits (digits n) := fun _ hc =>
  isDigit_iff.mp (isDigit_of_mem_digits hc)

theorem ofDigitChars_digits (n : Nat) : Nat.ofDigitChars 10 (digits n) 0 = n := by
  have value := appendDigits_of_digits (digits_digits n) 0
  rw [appendDigits_digits] at value
  exact (Option.some.inj value).symm

theorem numeral_integerText (z : Int) : Numeral (integerText z) z := by
  have digits := digits_digits z.natAbs
  have hne := digits_ne_nil z.natAbs
  unfold integerText
  split
  · rename_i negative
    have numeral := Numeral.minus digits hne
    rw [ofDigitChars_digits] at numeral
    have value : -(z.natAbs : Int) = z := by omega
    rwa [value] at numeral
  · rename_i natural
    have numeral := Numeral.unsigned digits hne
    rw [ofDigitChars_digits] at numeral
    have value : (z.natAbs : Int) = z := by omega
    rwa [value] at numeral

/-- A numeral has no other characters than digits and signs. -/
theorem Numeral.plain (h : Numeral cs z) : ∀ c ∈ cs, c.isDigit = true ∨ c = '+' ∨ c = '-' := by
  cases h with
  | unsigned digits _ => exact fun c hc => .inl (digits c hc)
  | plus digits _ =>
    exact List.forall_mem_cons.mpr ⟨.inr (.inl rfl), fun c hc => .inl (digits c hc)⟩
  | minus digits _ =>
    exact List.forall_mem_cons.mpr ⟨.inr (.inr rfl), fun c hc => .inl (digits c hc)⟩

end TracedScript.Number
