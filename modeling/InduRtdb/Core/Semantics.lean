/-
  Core/Semantics.lean --- what a value and a threshold mean as numbers.

  Source: `src/core/irt_semantics.c` and `indurtdb_validate_point_meta` of
  `src/api/indurtdb.c`.

  A `double` is a `Float` and a `float` a `Float32`: comparisons with a NaN are false,
  and conversions, differences and products are rounded.
-/
import InduRtdb.Core.Types
import InduRtdb.Lib.Floats

set_option autoImplicit false

namespace InduRtdb.Core

open InduRtdb.Lib

/-! ## Bits read as numbers -/

/-- A number of `w` bits read in two's complement. -/
def signedOfBits (w : Nat) (bits : Nat) : Int :=
  if bits % 2 ^ w < 2 ^ (w - 1) then (bits % 2 ^ w : Nat) else (bits % 2 ^ w : Nat) - (2 ^ w : Nat)

/-- `indurtdb_value_to_double` on the eight bytes of `value_bits`. -/
def indurtdbValueToDouble (type : UInt8) (valueBits : UInt64) : Float :=
  if type.toNat = indurtdbTypeBool then
    (if valueBits.toNat % 2 ^ 8 = 0 then doubleOfInt 0 else doubleOfInt 1)
  else if type.toNat = indurtdbTypeInt32 then doubleOfInt (signedOfBits 32 valueBits.toNat)
  else if type.toNat = indurtdbTypeUint32 then doubleOfInt (valueBits.toNat % 2 ^ 32 : Nat)
  else if type.toNat = indurtdbTypeInt64 then doubleOfInt (signedOfBits 64 valueBits.toNat)
  else if type.toNat = indurtdbTypeFloat then doubleOfFloat (Float32.ofBits valueBits.toUInt32)
  else if type.toNat = indurtdbTypeDouble then Float.ofBits valueBits
  else doubleOfInt 0

/-! ## Range and deadband -/

abbrev indurtdbLimitNone : UInt8 := 0
abbrev indurtdbLimitLow : UInt8 := 1
abbrev indurtdbLimitHigh : UInt8 := 2

/-- `indurtdb_eurange_limit`. -/
def indurtdbEurangeLimit (eurEnabled : Bool) (eurMin eurMax value : Float) : UInt8 :=
  if !eurEnabled then indurtdbLimitNone
  else if value < eurMin then indurtdbLimitLow
  else if eurMax < value then indurtdbLimitHigh
  else indurtdbLimitNone

/-- The literal `0.01`. -/
def hundredth : Float := Float.ofBits 0x3f847ae147ae147b

/-- `indurtdb_deadband_exceeded`. -/
def indurtdbDeadbandExceeded (absMode : Bool) (deadband eurMin eurMax last cur : Float) : Bool :=
  let delta := if last < cur then cur - last else last - cur
  if absMode then decide (deadband < delta)
  else
    let span := eurMax - eurMin
    if span ≤ doubleOfInt 0 then false
    else decide (deadband * hundredth * span < delta)

/-- No value is further from itself than a deadband that is not below zero. -/
theorem deadbandExceeded_self (absMode : Bool) {deadband : Float} (hdeadband : NonNegative deadband)
    (eurMin eurMax v : Float) :
    indurtdbDeadbandExceeded absMode deadband eurMin eurMax v v = false := by
  have hhundredth : NonNegative hundredth := by decide +kernel
  unfold indurtdbDeadbandExceeded
  simp only [if_neg (not_lt_self v)]
  cases absMode with
  | true => exact decide_eq_false (hdeadband.not_lt_sub_self v)
  | false =>
      simp only [Bool.false_eq_true, if_false]
      split
      next => rfl
      next hspan =>
        have hthreshold := (hdeadband.mul hhundredth).mul (nonNegative_of_not_le hspan)
        exact decide_eq_false (hthreshold.not_lt_sub_self v)

/-! ## Metadata -/

abbrev indurtdbMetaFlagEur : UInt32 := 1
abbrev indurtdbMetaFlagDeadband : UInt32 := 2
abbrev indurtdbMetaFlagDeadbandPct : UInt32 := 4

/-- A flag of a metadata record is set. -/
def IndurtdbMeta.has (m : IndurtdbMeta) (flag : UInt32) : Bool := m.flags &&& flag != 0

/-- `INDURTDB_CFG_*`: what is wrong with a metadata record. -/
inductive CfgError where
  | eurRange
  | deadband
  | deadbandPct
  | flags
  deriving DecidableEq, Repr

/-- `indurtdb_validate_point_meta`, on a record that is there. -/
def indurtdbValidatePointMeta (m : IndurtdbMeta) : Option CfgError :=
  if m.flags &&& ~~~(indurtdbMetaFlagEur ||| indurtdbMetaFlagDeadband
      ||| indurtdbMetaFlagDeadbandPct) ≠ 0 then some .flags
  else if m.has indurtdbMetaFlagEur ∧ ¬ ((Float.ofBits m.eurMin).isFinite ∧
      (Float.ofBits m.eurMax).isFinite ∧ Float.ofBits m.eurMin < Float.ofBits m.eurMax) then
    some .eurRange
  else if ¬ Float32.ofBits 0 ≤ Float32.ofBits m.deadband then some .deadband
  else if m.has indurtdbMetaFlagDeadbandPct ∧
      ¬ Float32.ofBits m.deadband ≤ Float32.ofBits 0x42c80000 then some .deadbandPct
  else none

end InduRtdb.Core
