/-
This file settles what quantisation to eight bits keeps of a number, in exact
arithmetic.

`RoundHalfToEven` decides by the fractional part and, at one half, by the
remainder of the floor, which is negative for a negative odd floor but not zero.
So it is rounding to the nearest integer, and the rest follows from three facts
about rounding: it keeps the order, it leaves an integer alone, and it moves a
number by at most one half. The bounds of the eight-bit range are integers after
scaling, so that saturation is idle between them and complete beyond.
-/

import Mathlib.Data.Rat.Floor
import Mathlib.Tactic.FieldSimp
import Mathlib.Tactic.NormNum.OfScientific
import ControllerBridge.Library.Rounding
import ControllerBridge.Exact

namespace ControllerBridge

open Rounding

/-! ### Rounding -/

/-- The range of `int32_t`. -/
def FitsInt32 (value : ℤ) : Prop := -2147483648 ≤ value ∧ value ≤ 2147483647

instance (value : ℤ) : Decidable (FitsInt32 value) :=
  inferInstanceAs (Decidable (-2147483648 ≤ value ∧ value ≤ 2147483647))

/-- `std::floor` and the cast to `int32_t`, as far as the cast is defined. -/
structure Converts (libm : Libm ℚ) : Prop where
  floor : ∀ value, libm.floor value = ⌊value⌋
  toInt32 : ∀ value : ℤ, FitsInt32 value → libm.toInt32 value = value

/-- C's remainder by two tells the even from the odd, below zero too. -/
theorem tmod_two_eq_zero_iff (value : ℤ) : value.tmod 2 = 0 ↔ Even value := by
  rw [even_iff_two_dvd, Int.dvd_iff_tmod_eq_zero]

/-- The rounding of the source, where its floor and the cast of the floor are right. -/
theorem roundsTo_of_floor {Number : Type} [Field Number] [LinearOrder Number]
    [IsStrictOrderedRing Number] [FloorRing Number] {libm : Libm Number} {value : Number}
    (floor : libm.floor value = ⌊value⌋) (cast : libm.toInt32 (⌊value⌋ : Number) = ⌊value⌋) :
    RoundsTo value (roundHalfToEven libm value) := by
  obtain ⟨down, up⟩ := abs_sub_floor value
  have half : (0.5 : Number) = 1 / 2 := by norm_num
  unfold roundHalfToEven
  dsimp only
  rw [floor, cast, Int.self_sub_floor, half]
  by_cases below : Int.fract value < 1 / 2
  · rw [if_pos below]
    exact roundsTo_of_abs_lt (down ▸ below)
  by_cases above : 1 / 2 < Int.fract value
  · rw [if_neg below, if_pos above]
    exact roundsTo_of_abs_lt (by rw [up]; linarith)
  -- the number lies at one half between its floor and the next integer
  have middle : Int.fract value = 1 / 2 := le_antisymm (not_lt.mp above) (not_lt.mp below)
  rw [if_neg below, if_neg above]
  by_cases even : Even ⌊value⌋
  · rw [if_pos ((tmod_two_eq_zero_iff _).mpr even)]
    exact roundsTo_of_half (down.trans middle) even
  · rw [if_neg (mt (tmod_two_eq_zero_iff _).mp even)]
    refine roundsTo_of_half (by rw [up, middle]; norm_num) ?_
    exact (Int.not_even_iff_odd.mp even).add_one

theorem roundHalfToEven_roundsTo {libm : Libm ℚ} (converts : Converts libm) {value : ℚ}
    (fits : FitsInt32 ⌊value⌋) : RoundsTo value (roundHalfToEven libm value) :=
  roundsTo_of_floor (converts.floor value) (converts.toInt32 _ fits)

/-! ### Scaling and saturation -/

/-- The `int32_t` values `Quantize` computes for `x` are in range: the floor, its rounding, and
the sum with the zero point. -/
structure NoOverflow (libm : Libm ℚ) (x scale : ℚ) (zeroPoint : ℤ) : Prop where
  floor : FitsInt32 ⌊x / scale⌋
  rounded : FitsInt32 (roundHalfToEven libm (x / scale))
  shifted : FitsInt32 (roundHalfToEven libm (x / scale) + zeroPoint)

theorem quantize_toInt {Double : Type} [Sub Double] [Div Double] [LT Double] [DecidableLT Double]
    [OfScientific Double] (libm : Libm Double) (x scale : Double) (zeroPoint : ℤ) :
    (quantize libm x scale zeroPoint).toInt =
      max (-128) (min 127 (roundHalfToEven libm (x / scale) + zeroPoint)) := by
  unfold quantize
  refine Int8.toInt_ofInt_of_le ?_ ?_
  · exact le_max_left _ _
  · exact max_lt (by decide) (lt_of_le_of_lt (min_le_left _ _) (by decide))

theorem quantize_mono {libm : Libm ℚ} (converts : Converts libm) {x y scale : ℚ}
    {zeroPoint : ℤ} (positive : 0 < scale) (fits : FitsInt32 ⌊x / scale⌋)
    (fits' : FitsInt32 ⌊y / scale⌋) (le : x ≤ y) :
    quantize libm x scale zeroPoint ≤ quantize libm y scale zeroPoint := by
  have scaled : x / scale ≤ y / scale := (div_le_div_iff_of_pos_right positive).mpr le
  have rounded := (roundHalfToEven_roundsTo converts fits).monotone
    (roundHalfToEven_roundsTo converts fits') scaled
  rw [Int8.le_iff_toInt_le, quantize_toInt, quantize_toInt]
  exact max_le_max_left _ (min_le_min_left _ (by omega))

/-- The numbers between the bounds the eight-bit range has after scaling. -/
def InScaledRange (x scale : ℚ) (zeroPoint : ℤ) : Prop :=
  scale * (-128 - zeroPoint) ≤ x ∧ x ≤ scale * (127 - zeroPoint)

/-- Between the bounds the scaled number lies between integers, which are small enough for
`int32_t`. -/
theorem InScaledRange.scaled {x scale : ℚ} {zeroPoint : ℤ}
    (inside : InScaledRange x scale zeroPoint) (positive : 0 < scale) :
    ((-128 - zeroPoint : ℤ) : ℚ) ≤ x / scale ∧ x / scale ≤ ((127 - zeroPoint : ℤ) : ℚ) := by
  obtain ⟨low, high⟩ := inside
  push_cast
  rw [le_div_iff₀' positive, div_le_iff₀' positive]
  exact ⟨low, high⟩

theorem InScaledRange.fitsInt32 {x scale : ℚ} {zeroPoint : ℤ}
    (inside : InScaledRange x scale zeroPoint) (positive : 0 < scale) (low : -128 ≤ zeroPoint)
    (high : zeroPoint ≤ 127) : FitsInt32 ⌊x / scale⌋ := by
  obtain ⟨above, below⟩ := inside.scaled positive
  have floorAbove : -128 - zeroPoint ≤ ⌊x / scale⌋ := Int.le_floor.mpr above
  have floorBelow : ⌊x / scale⌋ ≤ 127 - zeroPoint := by
    exact_mod_cast (Int.floor_le (x / scale)).trans below
  constructor <;> omega

/-- Between the bounds nothing is saturated. -/
theorem quantize_toInt_of_inside {libm : Libm ℚ} (converts : Converts libm) {x scale : ℚ}
    {zeroPoint : ℤ} (positive : 0 < scale) (low : -128 ≤ zeroPoint) (high : zeroPoint ≤ 127)
    (inside : InScaledRange x scale zeroPoint) :
    (quantize libm x scale zeroPoint).toInt = roundHalfToEven libm (x / scale) + zeroPoint := by
  have rounds := roundHalfToEven_roundsTo converts (inside.fitsInt32 positive low high)
  have above := rounds.ge_of_ge (inside.scaled positive).1
  have below := rounds.le_of_le (inside.scaled positive).2
  rw [quantize_toInt, min_eq_right (by omega), max_eq_right (by omega)]

theorem dequantize_mem (q : Int8) {scale : ℚ} (positive : 0 < scale) (zeroPoint : ℤ) :
    InScaledRange (dequantize q scale zeroPoint) scale zeroPoint := by
  have low : (-128 : ℚ) ≤ q.toInt := by exact_mod_cast q.le_toInt
  have high : (q.toInt : ℚ) ≤ 127 := by exact_mod_cast Int.le_of_lt_add_one q.toInt_lt
  unfold dequantize
  constructor
  · exact mul_le_mul_of_nonneg_left (by linarith) positive.le
  · exact mul_le_mul_of_nonneg_left (by linarith) positive.le

theorem quantize_dequantize {libm : Libm ℚ} (converts : Converts libm) {scale : ℚ}
    {zeroPoint : ℤ} (positive : 0 < scale) (low : -128 ≤ zeroPoint) (high : zeroPoint ≤ 127)
    (q : Int8) : quantize libm (dequantize q scale zeroPoint) scale zeroPoint = q := by
  have inside := dequantize_mem q positive zeroPoint
  have whole : dequantize q scale zeroPoint / scale = ((q.toInt - zeroPoint : ℤ) : ℚ) := by
    unfold dequantize
    rw [mul_div_cancel_left₀ _ positive.ne', Int.cast_sub]
  have rounds := roundHalfToEven_roundsTo converts (inside.fitsInt32 positive low high)
  have exact := rounds.unique (whole ▸ RoundsTo.intCast (q.toInt - zeroPoint))
  refine Int8.toInt_inj.mp ?_
  rw [quantize_toInt_of_inside converts positive low high inside, exact, sub_add_cancel]

theorem dequantize_quantize {libm : Libm ℚ} (converts : Converts libm) {x scale : ℚ}
    {zeroPoint : ℤ} (positive : 0 < scale) (low : -128 ≤ zeroPoint) (high : zeroPoint ≤ 127)
    (inside : InScaledRange x scale zeroPoint) :
    |dequantize (quantize libm x scale zeroPoint) scale zeroPoint - x| ≤ scale / 2 := by
  have rounds := roundHalfToEven_roundsTo converts (inside.fitsInt32 positive low high)
  have error : dequantize (quantize libm x scale zeroPoint) scale zeroPoint - x =
      scale * (roundHalfToEven libm (x / scale) - x / scale) := by
    unfold dequantize
    rw [quantize_toInt_of_inside converts positive low high inside, Int.cast_add,
      add_sub_cancel_right, mul_sub, mul_div_cancel₀ _ positive.ne']
  calc |dequantize (quantize libm x scale zeroPoint) scale zeroPoint - x|
      = scale * |x / scale - roundHalfToEven libm (x / scale)| := by
        rw [error, abs_mul, abs_of_pos positive, abs_sub_comm]
    _ ≤ scale * (1 / 2) := mul_le_mul_of_nonneg_left rounds.abs_sub_le_half positive.le
    _ = scale / 2 := mul_one_div _ _

/-- Below the bounds the result is the lower end of the eight-bit range. -/
theorem quantize_below {libm : Libm ℚ} (converts : Converts libm) {x scale : ℚ} {zeroPoint : ℤ}
    (positive : 0 < scale) (fits : FitsInt32 ⌊x / scale⌋)
    (below : x < scale * (-128 - zeroPoint)) : quantize libm x scale zeroPoint = -128 := by
  have rounds := roundHalfToEven_roundsTo converts fits
  have scaled : x / scale ≤ ((-128 - zeroPoint : ℤ) : ℚ) := by
    push_cast
    exact (div_le_iff₀' positive).mpr below.le
  have rounded := rounds.le_of_le scaled
  refine Int8.toInt_inj.mp ?_
  rw [quantize_toInt, min_eq_right (by omega), max_eq_left (by omega)]
  rfl

theorem quantize_above {libm : Libm ℚ} (converts : Converts libm) {x scale : ℚ} {zeroPoint : ℤ}
    (positive : 0 < scale) (fits : FitsInt32 ⌊x / scale⌋)
    (above : scale * (127 - zeroPoint) < x) : quantize libm x scale zeroPoint = 127 := by
  have rounds := roundHalfToEven_roundsTo converts fits
  have scaled : ((127 - zeroPoint : ℤ) : ℚ) ≤ x / scale := by
    push_cast
    exact (le_div_iff₀' positive).mpr above.le
  have rounded := rounds.ge_of_ge scaled
  refine Int8.toInt_inj.mp ?_
  rw [quantize_toInt, min_eq_left (by omega)]
  rfl

/-! ### The laws -/

/-- What holds of `Quantize` and `Dequantize` at a scale and a zero point. -/
structure QuantizationLaws (libm : Libm ℚ) (scale : ℚ) (zeroPoint : ℤ) : Prop where
  mono : ∀ x y, NoOverflow libm x scale zeroPoint → NoOverflow libm y scale zeroPoint → x ≤ y →
    quantize libm x scale zeroPoint ≤ quantize libm y scale zeroPoint
  inverse : ∀ q, quantize libm (dequantize q scale zeroPoint) scale zeroPoint = q
  near : ∀ x, InScaledRange x scale zeroPoint →
    |dequantize (quantize libm x scale zeroPoint) scale zeroPoint - x| ≤ scale / 2
  below : ∀ x, NoOverflow libm x scale zeroPoint → x < scale * (-128 - zeroPoint) →
    quantize libm x scale zeroPoint = -128
  above : ∀ x, NoOverflow libm x scale zeroPoint → scale * (127 - zeroPoint) < x →
    quantize libm x scale zeroPoint = 127

/-- `RoundHalfToEven` rounds to the nearest integer and halves to the even one, and the laws of
quantisation hold at every positive scale and every zero point of eight bits. -/
theorem quantization_laws {libm : Libm ℚ} (converts : Converts libm) :
    (∀ value : ℚ, FitsInt32 ⌊value⌋ → FitsInt32 (⌊value⌋ + 1) →
      RoundsTo value (roundHalfToEven libm value)) ∧
    ∀ scale : ℚ, 0 < scale → ∀ zeroPoint : ℤ, -128 ≤ zeroPoint → zeroPoint ≤ 127 →
      QuantizationLaws libm scale zeroPoint := by
  refine ⟨fun value fits _ => roundHalfToEven_roundsTo converts fits, ?_⟩
  intro scale positive zeroPoint low high
  exact {
    mono := fun x y fits fits' le => quantize_mono converts positive fits.floor fits'.floor le
    inverse := quantize_dequantize converts positive low high
    near := fun x inside => dequantize_quantize converts positive low high inside
    below := fun x fits below => quantize_below converts positive fits.floor below
    above := fun x fits above => quantize_above converts positive fits.floor above }

theorem exampleLibm_converts : Converts exampleLibm where
  floor := fun _ => rfl
  toInt32 := fun value _ => Int.floor_intCast value

theorem exampleLibm_noOverflow :
    NoOverflow exampleLibm (-100) (1 / 2) 3 ∧ NoOverflow exampleLibm (5 / 4) (1 / 2) 3 ∧
      NoOverflow exampleLibm 100 (1 / 2) 3 := by
  refine ⟨⟨?_, ?_, ?_⟩, ⟨?_, ?_, ?_⟩, ⟨?_, ?_, ?_⟩⟩ <;> decide +kernel

/-- The half above an odd floor below zero; and a half, an inverse and both ends of the range at
a scale of one half. -/
theorem exampleLibm_quantization_laws :
    RoundsTo (-5 / 2 : ℚ) (roundHalfToEven exampleLibm (-5 / 2)) ∧
      quantize exampleLibm (5 / 4) (1 / 2) 3 ≤ quantize exampleLibm 100 (1 / 2) 3 ∧
      quantize exampleLibm (dequantize (-7) (1 / 2 : ℚ) 3) (1 / 2) 3 = -7 ∧
      |dequantize (quantize exampleLibm (5 / 4) (1 / 2) 3) (1 / 2 : ℚ) 3 - (5 / 4 : ℚ)| ≤ 1 / 2 / 2 ∧
      quantize exampleLibm (-100) (1 / 2) 3 = -128 ∧ quantize exampleLibm 100 (1 / 2) 3 = 127 := by
  obtain ⟨fitsLow, fitsHalf, fitsHigh⟩ := exampleLibm_noOverflow
  obtain ⟨rounds, laws⟩ := quantization_laws exampleLibm_converts
  have here := laws (1 / 2) one_half_pos 3 (by decide) (by decide)
  exact ⟨rounds (-5 / 2) (by decide +kernel) (by decide +kernel),
    here.mono _ _ fitsHalf fitsHigh (by norm_num), here.inverse (-7),
    here.near (5 / 4) ⟨by norm_num, by norm_num⟩, here.below _ fitsLow (by norm_num),
    here.above _ fitsHigh (by norm_num)⟩

end ControllerBridge
