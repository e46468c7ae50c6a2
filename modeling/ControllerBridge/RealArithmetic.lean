/-
This file instantiates the model with exact arithmetic on the real numbers, for
the results about angles, roots and exponentials.

`ExactLibm` says what the mathematics library computes without rounding, and
leaves open what the source does not rely on: the cast of a number beyond the
range of `int32_t`, and the largest number. The other facts are the constants of
the source as real numbers.
-/

import Mathlib.Analysis.SpecialFunctions.Complex.Arg
import Mathlib.Analysis.SpecialFunctions.Exp
import ControllerBridge.MotorFilter
import ControllerBridge.Quantization

namespace ControllerBridge

/-! ### The mathematics library -/

/-- The mathematics library without rounding; the cast to `int32_t` as far as it is defined. -/
structure ExactLibm (libm : Libm ℝ) : Prop where
  floor : ∀ value, libm.floor value = ⌊value⌋
  sqrt : ∀ value, libm.sqrt value = √value
  sin : ∀ angle, libm.sin angle = Real.sin angle
  cos : ∀ angle, libm.cos angle = Real.cos angle
  exp : ∀ value, libm.exp value = Real.exp value
  atan2 : ∀ y x, libm.atan2 y x = Complex.arg ⟨x, y⟩
  toFloat : ∀ value, libm.toFloat value = value
  toInt32 : ∀ value : ℤ, FitsInt32 value → libm.toInt32 value = value

/-- A library that casts by cutting off the fraction. -/
noncomputable def realLibm : Libm ℝ where
  floor := fun value => ⌊value⌋
  sqrt := fun value => √value
  sin := Real.sin
  cos := Real.cos
  exp := Real.exp
  atan2 := fun y x => Complex.arg ⟨x, y⟩
  toFloat := fun value => value
  toInt32 := fun value => ⌊value⌋
  dblMax := (2 ^ 53 - 1) * 2 ^ 971

theorem realLibm_exact : ExactLibm realLibm where
  floor := fun _ => rfl
  sqrt := fun _ => rfl
  sin := fun _ => rfl
  cos := fun _ => rfl
  exp := fun _ => rfl
  atan2 := fun _ _ => rfl
  toFloat := fun _ => rfl
  toInt32 := fun value _ => Int.floor_intCast value

/-! ### Constants -/

/-- The coefficient of both stages of the filter. -/
noncomputable def lpfAlpha : ℝ := 1 - Real.exp (-2 * kPi * kLpfFc * kControlTs)

theorem lpfAlpha_pos : 0 < lpfAlpha := by
  unfold lpfAlpha
  rw [sub_pos, Real.exp_lt_one_iff]
  norm_num [kPi, kLpfFc, kControlTs]

theorem lpfAlpha_lt_one : lpfAlpha < 1 := by
  unfold lpfAlpha
  rw [sub_lt_self_iff]
  exact Real.exp_pos _

theorem lpfCoefficients_eq {libm : Libm ℝ} (exact : ExactLibm libm) :
    lpfCoefficients libm = List.replicate kLpfStages lpfAlpha := by
  unfold lpfCoefficients CascadedEMA.coefficients CascadedEMA.create lpfAlpha
  dsimp only
  rw [List.map_replicate, exact.exp]
  norm_num

end ControllerBridge
