/-
  Lib/Floats.lean --- conversions into `double`, and what the operations do to the order.

  A number of C's types `double` and `float` is one of `Float` and `Float32`, with their
  comparisons and their rounding.  Nothing is below a NaN, and a NaN is below nothing; a
  number subtracted from itself leaves a zero or a NaN; and a product of numbers none of
  which is below zero is not below zero.
-/
import Mathlib.Tactic.TypeStar

set_option autoImplicit false

namespace InduRtdb.Lib

open Float.Model Float.Model.UnpackedFloat

/-! ## Conversions -/

/-- The number as it is, where it fits the format; else one next to it. -/
def roundTo (spec : Format) : UnpackedFloat → UnpackedFloat
  | .finite sign mantissa exponent _ => UnpackedFloat.round spec sign mantissa exponent
  | .zero sign => .zero sign
  | .infinity sign => .infinity sign
  | .notANumber => .notANumber

/-- An integer as a `double`. -/
def doubleOfInt (n : Int) : Float := .ofModel (.ofInt n)

/-- A `float` as a `double`. -/
def doubleOfFloat (f : Float32) : Float :=
  .ofModel (.pack (roundTo Format.binary64 f.toModel.unpack))

/-! ## Numbers below zero -/

/-- The number is below zero. -/
def belowZero : UnpackedFloat → Bool
  | .infinity .negative => true
  | .finite .negative .. => true
  | _ => false

theorem lt_zero {x : UnpackedFloat} (h : belowZero x = false) (sign : Sign) :
    UnpackedFloat.lt x (.zero sign) = false := by
  cases x with
  | infinity s =>
      cases s with
      | negative => cases h
      | positive => rfl
  | notANumber => rfl
  | zero s => rfl
  | finite s m e hm =>
      cases s with
      | negative => cases h
      | positive => rfl

theorem lt_notANumber (x : UnpackedFloat) : UnpackedFloat.lt x .notANumber = false := by
  cases x with
  | _ => rfl

theorem lt_self (x : UnpackedFloat) : UnpackedFloat.lt x x = false := by
  cases x with
  | infinity s =>
      cases s with
      | negative => rfl
      | positive => rfl
  | notANumber => rfl
  | zero s => rfl
  | finite s m e hm =>
      cases s with
      | negative =>
          change (some ((compare e e).then (compare m m)).swap == some .lt) = false
          rw [Std.compare_self, Std.compare_self]
          rfl
      | positive =>
          change (some ((compare e e).then (compare m m)) == some .lt) = false
          rw [Std.compare_self, Std.compare_self]
          rfl

theorem belowZero_of_le {x : UnpackedFloat} {sign : Sign}
    (h : UnpackedFloat.le (.zero sign) x = true) : belowZero x = false := by
  cases x with
  | infinity s =>
      cases s with
      | negative => cases h
      | positive => rfl
  | notANumber => rfl
  | zero s => rfl
  | finite s m e hm =>
      cases s with
      | negative => cases h
      | positive => rfl

theorem belowZero_of_not_le {x : UnpackedFloat} {sign : Sign}
    (h : UnpackedFloat.le x (.zero sign) = false) : belowZero x = false := by
  cases x with
  | infinity s =>
      cases s with
      | negative => cases h
      | positive => rfl
  | notANumber => rfl
  | zero s => rfl
  | finite s m e hm =>
      cases s with
      | negative => cases h
      | positive => rfl

theorem belowZero_ite {p : Prop} [Decidable p] {x y : UnpackedFloat} (hx : belowZero x = false)
    (hy : belowZero y = false) : belowZero (if p then x else y) = false := by
  split
  · exact hx
  · exact hy

theorem belowZero_dite {p : Prop} [Decidable p] {x : p → UnpackedFloat} {y : ¬ p → UnpackedFloat}
    (hx : ∀ h, belowZero (x h) = false) (hy : ∀ h, belowZero (y h) = false) :
    belowZero (if h : p then x h else y h) = false := by
  split
  · exact hx _
  · exact hy _

/-! ## Rounding and packing -/

section

variable {spec : Format}

theorem belowZero_roundWithAccuracy (mantissa : Nat) (exponent : Int) (accuracy : Accuracy) :
    belowZero (roundWithAccuracy spec .positive mantissa exponent accuracy) = false := by
  unfold roundWithAccuracy
  exact belowZero_dite (fun _ => rfl) fun _ => rfl

theorem belowZero_roundTo {x : UnpackedFloat} (h : belowZero x = false) :
    belowZero (roundTo spec x) = false := by
  cases x with
  | infinity s => exact h
  | notANumber => rfl
  | zero s => rfl
  | finite s m e hm =>
      cases s with
      | negative => cases h
      | positive => exact belowZero_roundWithAccuracy _ _ _

theorem belowZero_mul {x y : UnpackedFloat} (hx : belowZero x = false)
    (hy : belowZero y = false) : belowZero (UnpackedFloat.mul spec x y) = false := by
  cases x with
  | notANumber => rfl
  | zero s =>
      cases y with
      | _ => rfl
  | infinity s =>
      cases s with
      | negative => cases hx
      | positive =>
          cases y with
          | notANumber => rfl
          | zero t => rfl
          | infinity t =>
              cases t with
              | negative => cases hy
              | positive => rfl
          | finite t n k hn =>
              cases t with
              | negative => cases hy
              | positive => rfl
  | finite s m e hm =>
      cases s with
      | negative => cases hx
      | positive =>
          cases y with
          | notANumber => rfl
          | zero t => rfl
          | infinity t =>
              cases t with
              | negative => cases hy
              | positive => rfl
          | finite t n k hn =>
              cases t with
              | negative => cases hy
              | positive => exact belowZero_roundWithAccuracy _ _ _

theorem unpackSign_packComponents (sign : Sign) (exponent : BitVec spec.exponentBits)
    (mantissa : BitVec spec.mantissaBitsWithoutImplicit) :
    unpackSign (packComponents spec sign exponent mantissa) = sign.toBitVec := by
  ext i hi
  obtain rfl : i = 0 := by omega
  delta unpackSign packComponents
  simp [BitVec.getLsbD_append, BitVec.getElem_append]

/-- What is unpacked with a positive sign is not below zero. -/
theorem belowZero_unpack {b : BitVec spec.numBits} (h : unpackSign b = 0#1) :
    belowZero (UnpackedFloat.unpack spec b) = false := by
  unfold UnpackedFloat.unpack
  dsimp only
  rw [h]
  exact belowZero_ite (belowZero_ite rfl rfl)
    (belowZero_ite (belowZero_dite (fun _ => rfl) fun _ => rfl) rfl)

end

/-- Packing does not bring a number below zero. -/
theorem belowZero_unpack_pack {x : UnpackedFloat} (h : belowZero x = false) :
    belowZero (Float.Model.pack x).unpack = false := by
  cases x with
  | notANumber => rfl
  | zero s =>
      cases s with
      | negative => rfl
      | positive => rfl
  | infinity s =>
      cases s with
      | negative => cases h
      | positive => rfl
  | finite s m e hm =>
      cases s with
      | negative => cases h
      | positive =>
          refine belowZero_unpack (b := UnpackedFloat.pack Format.binary64 _) ?_
          unfold UnpackedFloat.pack
          dsimp only
          split
          · exact unpackSign_packComponents _ _ _
          · split
            · exact unpackSign_packComponents _ _ _
            · exact unpackSign_packComponents _ _ _

/-! ## Doubles -/

/-- The number is a zero, above zero, or none. -/
def NonNegative (a : Float) : Prop := belowZero a.toModel.unpack = false

instance (a : Float) : Decidable (NonNegative a) := inferInstanceAs (Decidable (_ = false))

theorem lt_iff {a b : Float} :
    a < b ↔ UnpackedFloat.lt a.toModel.unpack b.toModel.unpack = true := decide_eq_true_iff

theorem le_iff {a b : Float} :
    a ≤ b ↔ UnpackedFloat.le a.toModel.unpack b.toModel.unpack = true := decide_eq_true_iff

theorem not_lt_self (a : Float) : ¬ a < a := by
  rw [lt_iff, lt_self]
  exact Bool.false_ne_true

theorem nonNegative_of_not_le {a : Float} (h : ¬ a ≤ doubleOfInt 0) : NonNegative a := by
  have hzero : (doubleOfInt 0).toModel.unpack = .zero .positive := rfl
  rw [le_iff, hzero] at h
  exact belowZero_of_not_le (Bool.eq_false_iff.mpr h)

theorem NonNegative.mul {a b : Float} (ha : NonNegative a) (hb : NonNegative b) :
    NonNegative (a * b) :=
  belowZero_unpack_pack (belowZero_mul ha hb)

/-- A `float` that is no less than zero. -/
theorem nonNegative_doubleOfFloat {f : Float32} (h : Float32.ofBits 0 ≤ f) :
    NonNegative (doubleOfFloat f) :=
  belowZero_unpack_pack (belowZero_roundTo (belowZero_of_le (decide_eq_true_iff.mp h)))

theorem unpack_pack_zero (sign : Sign) : (Float.Model.pack (.zero sign)).unpack = .zero sign := by
  cases sign with
  | negative => rfl
  | positive => rfl

/-- A number subtracted from itself leaves a zero or a NaN. -/
theorem unpack_sub_self (a : Float) :
    (a - a).toModel.unpack = .notANumber ∨ ∃ sign, (a - a).toModel.unpack = .zero sign := by
  have hsub : (a - a).toModel.unpack = (Float.Model.pack
      (UnpackedFloat.sub Format.binary64 a.toModel.unpack a.toModel.unpack)).unpack := rfl
  rw [hsub]
  cases a.toModel.unpack with
  | notANumber => exact .inl rfl
  | zero s =>
      cases s with
      | negative => exact .inr ⟨.positive, rfl⟩
      | positive => exact .inr ⟨.positive, rfl⟩
  | infinity s =>
      cases s with
      | negative => exact .inl rfl
      | positive => exact .inl rfl
  | finite s m e hm =>
      have hzero : UnpackedFloat.sub Format.binary64 (.finite s m e hm) (.finite s m e hm) =
          .zero .positive := by
        let shifted := s.apply (decreaseExponent m e (min e e)).1
        change normalize Format.binary64 (shifted - shifted) (min e e) .positive = _
        rw [Int.sub_self]
        rfl
      rw [hzero]
      exact .inr ⟨.positive, unpack_pack_zero .positive⟩

/-- No difference of a number with itself is above a number that is not below zero. -/
theorem NonNegative.not_lt_sub_self {a : Float} (h : NonNegative a) (b : Float) :
    ¬ a < b - b := by
  rw [lt_iff]
  rcases unpack_sub_self b with hnan | ⟨sign, hzero⟩
  · rw [hnan, lt_notANumber]
    exact Bool.false_ne_true
  · rw [hzero, lt_zero h]
    exact Bool.false_ne_true

end InduRtdb.Lib
