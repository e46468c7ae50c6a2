/-
This file settles what the inference is given for a joystick position, in exact
arithmetic on the real numbers.

The source takes the position to an angle and a radius and back. What comes out
is the position itself, drawn to the square and then to the unit disc, times
ninety degrees (`bend`): the angle cancels, and so do the two conversions of
degrees. Quantised, each coordinate becomes the eight-bit number that stands for
the nearest value any of them stands for; on the way nothing overflows, for no
position whatever.
-/

import Mathlib.Analysis.CStarAlgebra.Classes
import ControllerBridge.Library.Retraction
import ControllerBridge.RealArithmetic

namespace ControllerBridge

open Rounding Retraction

/-! ### The bend of a position -/

theorem clamp_eq {value low high : ℝ} (ordered : low ≤ high) :
    clamp value low high = max low (min high value) := by
  unfold clamp
  by_cases below : value < low
  · rw [if_pos below, min_eq_right (below.le.trans ordered), max_eq_left below.le]
  · rw [if_neg below]
    by_cases above : high < value
    · rw [if_pos above, min_eq_left above.le, max_eq_right ordered]
    · rw [if_neg above, min_eq_right (not_lt.mp above), max_eq_right (not_lt.mp below)]

/-- A joystick position in the plane, each coordinate between -1 and 1. -/
noncomputable def stick (joystickX joystickY : ℝ) : ℂ :=
  ⟨max (-1) (min 1 joystickX), max (-1) (min 1 joystickY)⟩

/-- The bend a position asks for, in degrees. -/
noncomputable def bend (joystickX joystickY : ℝ) : ℂ :=
  (90 : ℝ) • retract (stick joystickX joystickY)

theorem norm_bend (joystickX joystickY : ℝ) :
    ‖bend joystickX joystickY‖ = 90 * min ‖stick joystickX joystickY‖ 1 := by
  rw [bend, norm_smul, norm_retract]
  norm_num

/-- A length along the direction of a point, in polar coordinates. -/
theorem polar_eq (point : ℂ) (degrees : ℝ) :
    (Real.cos point.arg * (min ‖point‖ 1 * degrees),
        Real.sin point.arg * (min ‖point‖ 1 * degrees)) =
      ((degrees • retract point).re, (degrees • retract point).im) := by
  by_cases origin : point = 0
  · subst origin
    simp [retract]
  · have positive : 0 < ‖point‖ := norm_pos_iff.mpr origin
    have share : min ‖point‖ 1 / ‖point‖ = (max 1 ‖point‖)⁻¹ := by
      rcases le_total ‖point‖ 1 with inside | outside
      · rw [min_eq_left inside, max_eq_left inside, div_self positive.ne', inv_one]
      · rw [min_eq_right outside, max_eq_right outside, one_div]
    rw [Complex.cos_arg origin, Complex.sin_arg, retract, Complex.smul_re, Complex.smul_re,
      Complex.smul_im, Complex.smul_im, ← share]
    simp only [smul_eq_mul]
    exact Prod.ext (by ring) (by ring)

/-- The features of a position are the coordinates of its bend. -/
theorem motionSample_eq {libm : Libm ℝ} (exact : ExactLibm libm) (joystickX joystickY : ℝ) :
    motionSample libm joystickX joystickY =
      ((bend joystickX joystickY).re, (bend joystickX joystickY).im) := by
  have ones : (-1.0 : ℝ) = -1 ∧ (1.0 : ℝ) = 1 ∧ (0.0 : ℝ) = 0 := by norm_num
  have degrees : ∀ radius : ℝ, radToDeg (radius * kThetaLimitRad) = radius * 90 := by
    intro radius
    unfold radToDeg kThetaLimitRad degToRad kThetaLimitDeg kPi
    norm_num
    ring
  have length : √((stick joystickX joystickY).re * (stick joystickX joystickY).re +
      (stick joystickX joystickY).im * (stick joystickX joystickY).im) =
        ‖stick joystickX joystickY‖ := by
    rw [Complex.norm_def, Complex.normSq_apply]
  unfold motionSample xyToAngles featureTransform
  dsimp only
  rw [ones.1, ones.2.1, ones.2.2, clamp_eq (show (-1 : ℝ) ≤ 1 by norm_num),
    clamp_eq (show (-1 : ℝ) ≤ 1 by norm_num), clamp_eq zero_le_one, exact.sqrt, exact.atan2,
    exact.cos, exact.sin, exact.toFloat, exact.toFloat]
  have offset : ∀ phi : ℝ, phi + kPhiOffset = phi := by
    intro phi
    unfold kPhiOffset
    norm_num
  rw [offset, degrees]
  have radius : max 0 (min 1 ‖stick joystickX joystickY‖) = min ‖stick joystickX joystickY‖ 1 := by
    rw [max_eq_right (le_min zero_le_one (norm_nonneg _)), min_comm]
  have polar := polar_eq (stick joystickX joystickY) 90
  rw [← radius, ← length] at polar
  exact polar

/-! ### Distances -/

theorem abs_max_min_sub_le (first second : ℝ) :
    |max (-1) (min 1 first) - max (-1) (min 1 second)| ≤ |first - second| := by
  have idle : ∀ bound value : ℝ, max |bound - bound| |value| = |value| := by
    intro bound value
    rw [sub_self, abs_zero, max_eq_right (abs_nonneg value)]
  calc |max (-1) (min 1 first) - max (-1) (min 1 second)|
      ≤ max |(-1 : ℝ) - -1| |min 1 first - min 1 second| := abs_max_sub_max_le_max _ _ _ _
    _ = |min 1 first - min 1 second| := idle _ _
    _ ≤ max |(1 : ℝ) - 1| |first - second| := abs_min_sub_min_le_max _ _ _ _
    _ = |first - second| := idle _ _

/-- Two positions are at least as far apart as what the source takes them for. -/
theorem dist_stick_le (x y x' y' : ℝ) :
    dist (stick x y) (stick x' y') ≤ dist (⟨x, y⟩ : ℂ) ⟨x', y'⟩ := by
  rw [Complex.dist_eq_re_im, Complex.dist_eq_re_im]
  refine Real.sqrt_le_sqrt (add_le_add ?_ ?_)
  · exact sq_le_sq.mpr (abs_max_min_sub_le x x')
  · exact sq_le_sq.mpr (abs_max_min_sub_le y y')

/-- The bends of two positions are at most ninety degrees apart for each unit between them. -/
theorem dist_bend_le (x y x' y' : ℝ) :
    dist (bend x y) (bend x' y') ≤ 90 * dist (⟨x, y⟩ : ℂ) ⟨x', y'⟩ := by
  rw [bend, bend, dist_smul₀, Real.norm_of_nonneg (by norm_num)]
  exact mul_le_mul_of_nonneg_left ((dist_retract_le _ _).trans (dist_stick_le x y x' y'))
    (by norm_num)

/-! ### Quantisation -/

/-- The eight-bit number that stands for the nearest value any of them stands for. -/
def Quantised (value : ℝ) (q : Int8) : Prop :=
  ∀ other : Int8, |dequantize q kInputScale kInputZeroPoint - value| ≤
    |dequantize other kInputScale kInputZeroPoint - value|

/-- The numbers `Quantize` computes for a feature are in the range of `int32_t`. -/
structure Fits (libm : Libm ℝ) (value : ℝ) : Prop where
  floor : FitsInt32 ⌊value / kInputScale⌋
  rounded : FitsInt32 (roundHalfToEven libm (value / kInputScale))
  shifted : FitsInt32 (roundHalfToEven libm (value / kInputScale) + kInputZeroPoint)

theorem kInputScale_pos : (0 : ℝ) < kInputScale := by
  unfold kInputScale
  norm_num

/-- What an eight-bit number stands for, against a value on the scale of the numbers. -/
theorem abs_dequantize_sub (q : Int8) (value : ℝ) :
    |dequantize q kInputScale kInputZeroPoint - value| =
      kInputScale * |value / kInputScale - ((q.toInt - kInputZeroPoint : ℤ) : ℝ)| := by
  have scaled : dequantize q kInputScale kInputZeroPoint - value =
      kInputScale * (((q.toInt - kInputZeroPoint : ℤ) : ℝ) - value / kInputScale) := by
    unfold dequantize
    rw [mul_sub kInputScale (_ : ℝ) (value / kInputScale), mul_div_cancel₀ _ kInputScale_pos.ne',
      Int.cast_sub]
  rw [scaled, abs_mul, abs_of_pos kInputScale_pos, abs_sub_comm]

/-- A rounded number, kept within bounds, is nearer than any other integer within them. -/
theorem nearest_of_roundsTo {value : ℝ} {rounded low high other : ℤ}
    (rounds : RoundsTo value rounded) (ordered : low ≤ high) (fromLow : low ≤ other)
    (toHigh : other ≤ high) :
    |value - (max low (min high rounded) : ℤ)| ≤ |value - other| := by
  have near := abs_le.mp rounds.abs_sub_le_half
  rcases lt_or_ge rounded low with below | inside
  · have kept : max low (min high rounded) = low := by omega
    have apart : (rounded : ℝ) + 1 ≤ low := by exact_mod_cast below
    have larger : (low : ℝ) ≤ other := by exact_mod_cast fromLow
    rw [kept, abs_of_nonpos (by linarith), abs_of_nonpos (by linarith)]
    linarith
  rcases lt_or_ge high rounded with above | inside'
  · have kept : max low (min high rounded) = high := by omega
    have apart : (high : ℝ) + 1 ≤ rounded := by exact_mod_cast above
    have smaller : (other : ℝ) ≤ high := by exact_mod_cast toHigh
    rw [kept, abs_of_nonneg (by linarith), abs_of_nonneg (by linarith)]
    linarith
  · rw [min_eq_right inside', max_eq_right inside]
    exact rounds.nearest other

/-- A feature of at most ninety degrees is quantised without an overflow, to the nearest value. -/
theorem quantised_of_abs_le {libm : Libm ℝ} (exact : ExactLibm libm) {value : ℝ}
    (bounded : |value| ≤ 90) :
    Fits libm value ∧ Quantised value (quantize libm value kInputScale kInputZeroPoint) := by
  have scale : (0.44 : ℝ) < kInputScale := by
    unfold kInputScale
    norm_num
  obtain ⟨low, high⟩ := abs_le.mp bounded
  have scaledLow : ((-205 : ℤ) : ℝ) ≤ value / kInputScale := by
    rw [le_div_iff₀ kInputScale_pos]
    push_cast
    linarith
  have scaledHigh : value / kInputScale ≤ ((205 : ℤ) : ℝ) := by
    rw [div_le_iff₀ kInputScale_pos]
    push_cast
    linarith
  have floorLow : -205 ≤ ⌊value / kInputScale⌋ := Int.le_floor.mpr scaledLow
  have floorHigh : ⌊value / kInputScale⌋ ≤ 205 := by
    exact_mod_cast (Int.floor_le _).trans scaledHigh
  have fits : FitsInt32 ⌊value / kInputScale⌋ := ⟨by omega, by omega⟩
  have rounds : RoundsTo (value / kInputScale) (roundHalfToEven libm (value / kInputScale)) :=
    roundsTo_of_floor (exact.floor _) (exact.toInt32 _ fits)
  have roundedLow := rounds.ge_of_ge scaledLow
  have roundedHigh := rounds.le_of_le scaledHigh
  have zero : kInputZeroPoint = -7 := rfl
  refine ⟨⟨fits, ⟨by omega, by omega⟩, ⟨by omega, by omega⟩⟩, fun other => ?_⟩
  have kept : (quantize libm value kInputScale kInputZeroPoint).toInt - kInputZeroPoint =
      max (-121) (min 134 (roundHalfToEven libm (value / kInputScale))) := by
    rw [quantize_toInt, zero]
    omega
  have otherLow := other.le_toInt
  have otherHigh := other.toInt_lt
  rw [abs_dequantize_sub, abs_dequantize_sub, kept]
  refine mul_le_mul_of_nonneg_left ?_ kInputScale_pos.le
  exact nearest_of_roundsTo rounds (by decide) (by omega) (by omega)

theorem abs_bend_le (joystickX joystickY : ℝ) :
    |(bend joystickX joystickY).re| ≤ 90 ∧ |(bend joystickX joystickY).im| ≤ 90 := by
  have length : ‖bend joystickX joystickY‖ ≤ 90 := by
    rw [norm_bend]
    have toOne := min_le_right ‖stick joystickX joystickY‖ 1
    linarith
  exact ⟨(Complex.abs_re_le_norm _).trans length, (Complex.abs_im_le_norm _).trans length⟩

end ControllerBridge
