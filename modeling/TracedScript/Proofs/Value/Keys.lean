import TracedScript.Value.Collection

/-!
# Being the same key

`same` on keys is an equivalence, which is more than `==` on values is: what is no number does not
equal itself, but it is the same key as itself. Main statements: `same_self`, `same_congr`.
-/

namespace TracedScript.Key

/-! ## Floats -/

open Float.Model (UnpackedFloat)

/-- The number that a float stands for, without the sign of a zero. -/
def number (x : Float) : UnpackedFloat :=
  match x.toModel.unpack with
  | .zero _ => .zero .positive
  | u => u

theorem beq_iff_number {x y : Float} :
    (x == y) = true ↔ number x = number y ∧ number x ≠ .notANumber := by
  show UnpackedFloat.beq x.toModel.unpack y.toModel.unpack = true ↔ _
  unfold number UnpackedFloat.beq
  generalize x.toModel.unpack = u
  generalize y.toModel.unpack = w
  cases u with
  | notANumber => cases w <;> exact iff_of_false Bool.false_ne_true fun h => h.2 rfl
  | infinity s => cases w with
    | infinity t => cases s <;> cases t <;> simp +decide
    | _ => cases s <;> exact iff_of_false Bool.false_ne_true fun h => by cases h.1
  | zero s => cases w with
    | infinity t | finite t =>
      cases t <;> exact iff_of_false Bool.false_ne_true fun h => by cases h.1
    | zero => exact iff_of_true rfl ⟨rfl, UnpackedFloat.noConfusion⟩
    | notANumber => exact iff_of_false Bool.false_ne_true fun h => by cases h.1
  | finite s m e hm => cases w with
    | infinity t =>
      cases s <;> cases t <;> exact iff_of_false Bool.false_ne_true fun h => by cases h.1
    | zero | notANumber => cases s <;> exact iff_of_false Bool.false_ne_true fun h => by cases h.1
    | finite t m' e' hm' =>
      have isNumber : UnpackedFloat.finite s m e hm ≠ .notANumber := UnpackedFloat.noConfusion
      rw [and_iff_left isNumber, UnpackedFloat.finite.injEq]
      cases s with
      | positive => cases t with
        | positive =>
          show (some ((compare e e').then (compare m m')) == some .eq) = true ↔ _
          simp [Ordering.then_eq_eq, and_comm]
        | negative => exact iff_of_false Bool.false_ne_true fun h => by cases h.1
      | negative => cases t with
        | positive => exact iff_of_false Bool.false_ne_true fun h => by cases h.1
        | negative =>
          show (some ((compare e e').then (compare m m')).swap == some .eq) = true ↔ _
          simp [Ordering.then_eq_eq, and_comm]

theorem isNaN_iff_number {x : Float} : x.isNaN = true ↔ number x = .notANumber := by
  show UnpackedFloat.isNaN x.toModel.unpack = true ↔ _
  unfold number
  cases x.toModel.unpack with
  | notANumber => exact iff_of_true rfl rfl
  | infinity | zero | finite => exact iff_of_false Bool.false_ne_true UnpackedFloat.noConfusion

/-- As keys, floats are the same if they stand for the same number or for none. -/
theorem sameFloat_iff {x y : Float} : sameFloat x y = true ↔ number x = number y := by
  simp only [sameFloat, Bool.or_eq_true, Bool.and_eq_true, beq_iff_number, isNaN_iff_number]
  grind

/-! ## Keys -/

mutual

theorem same_self : (k : Key) → k.same k = true
  | .null => rfl
  | .int n => beq_self_eq_true n
  | .float _ => sameFloat_iff.mpr rfl
  | .str s => beq_self_eq_true s
  | .bool b => beq_self_eq_true b
  | .tuple ks => sameAll_self ks

theorem sameAll_self : (ks : List Key) → sameAll ks ks = true
  | [] => rfl
  | k :: ks => by rw [sameAll, same_self k, sameAll_self ks, Bool.and_self]

end

mutual

/-- The same key is the same as the same others. -/
theorem same_congr {k l : Key} (h : k.same l = true) (m : Key) : k.same m = l.same m := by
  cases k <;> cases l <;> try cases h
  case null => rfl
  case int a b => rw [show a = b from eq_of_beq h]
  case str a b => rw [show a = b from eq_of_beq h]
  case bool a b => rw [show a = b from eq_of_beq h]
  case float x y =>
    cases m with
    | float z =>
      have numbers := sameFloat_iff.mp h
      rw [same, same, Bool.eq_iff_iff, sameFloat_iff, sameFloat_iff, numbers]
    | _ => rfl
  case tuple ks ls =>
    cases m with
    | tuple ms => exact sameAll_congr h ms
    | _ => rfl

theorem sameAll_congr {ks ls : List Key} (h : sameAll ks ls = true) (ms : List Key) :
    sameAll ks ms = sameAll ls ms := by
  cases ks <;> cases ls <;> try cases h
  case nil => rfl
  case cons k ks l ls =>
    cases ms with
    | nil => rfl
    | cons m ms =>
      rw [sameAll, Bool.and_eq_true] at h
      rw [sameAll, sameAll, same_congr h.1 m, sameAll_congr h.2 ms]

end

theorem same_symm {k l : Key} (h : k.same l = true) : l.same k = true := by
  rw [← same_congr h k, same_self]

theorem same_comm (k l : Key) : k.same l = l.same k :=
  Bool.eq_iff_iff.mpr ⟨same_symm, same_symm⟩

end TracedScript.Key
