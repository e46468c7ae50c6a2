/-
This file is a library about the retraction of a space onto its unit ball.

A point outside the ball is drawn along its ray to the sphere, and a point
inside stays where it is. In an inner product space this brings no two points
farther apart (`dist_retract_le`): the farther end of each ray is given up, and
the angle between the rays stays.
-/

import Mathlib.Analysis.InnerProductSpace.Basic

namespace Retraction

open RealInnerProductSpace

variable {Space : Type} [NormedAddCommGroup Space] [InnerProductSpace ℝ Space]

/-- A point, drawn to the unit ball along its ray. -/
noncomputable def retract (point : Space) : Space := (max 1 ‖point‖)⁻¹ • point

theorem retract_of_norm_le {point : Space} (inside : ‖point‖ ≤ 1) : retract point = point := by
  rw [retract, max_eq_left inside, inv_one, one_smul]

theorem norm_retract (point : Space) : ‖retract point‖ = min ‖point‖ 1 := by
  rw [retract, norm_smul, norm_inv, Real.norm_of_nonneg (zero_le_one.trans (le_max_left _ _))]
  rcases le_total ‖point‖ 1 with inside | outside
  · rw [max_eq_left inside, min_eq_left inside, inv_one, one_mul]
  · rw [max_eq_right outside, min_eq_right outside]
    exact inv_mul_cancel₀ (zero_lt_one.trans_le outside).ne'

/-- The squared distance between points drawn along their rays. -/
theorem norm_sub_smul_sq (first second : Space) (a b : ℝ) :
    ‖a • first - b • second‖ ^ 2 =
      a ^ 2 * ‖first‖ ^ 2 - 2 * (a * b * ⟪first, second⟫) + b ^ 2 * ‖second‖ ^ 2 := by
  rw [norm_sub_sq_real, norm_smul, norm_smul, mul_pow, mul_pow, Real.norm_eq_abs,
    Real.norm_eq_abs, sq_abs, sq_abs, real_inner_smul_left, real_inner_smul_right, mul_assoc a b]

/-- A point outside and one inside. -/
theorem norm_retract_sub_le_of_inside {first second : Space} (outside : 1 ≤ ‖first‖)
    (inside : ‖second‖ ≤ 1) : ‖retract first - second‖ ≤ ‖first - second‖ := by
  have positive : 0 < ‖first‖ := zero_lt_one.trans_le outside
  have product : ⟪first, second⟫ ≤ ‖first‖ :=
    (real_inner_le_norm first second).trans (mul_le_of_le_one_right positive.le inside)
  have drawn := norm_sub_smul_sq first second ‖first‖⁻¹ 1
  have whole := norm_sub_smul_sq first second 1 1
  rw [one_smul] at drawn whole
  rw [one_smul] at whole
  have unit : ‖first‖⁻¹ ^ 2 * ‖first‖ ^ 2 = 1 := by
    rw [← mul_pow, inv_mul_cancel₀ positive.ne', one_pow]
  have share : ‖first‖⁻¹ * ⟪first, second⟫ ≤ 1 := by
    rw [inv_mul_le_iff₀ positive, mul_one]
    exact product
  rw [retract, max_eq_right outside]
  refine (sq_le_sq₀ (norm_nonneg _) (norm_nonneg _)).mp ?_
  rw [drawn, whole, unit]
  -- the inner product is a multiple of the norm of the first point
  have inner_eq : ⟪first, second⟫ = ‖first‖ * (‖first‖⁻¹ * ⟪first, second⟫) := by
    rw [← mul_assoc, mul_inv_cancel₀ positive.ne', one_mul]
  nlinarith [mul_nonneg (sub_nonneg.mpr outside) (sub_nonneg.mpr share),
    sq_nonneg (‖first‖ - 1)]

/-- Two points outside. -/
theorem norm_retract_sub_le_of_outside {first second : Space} (outside : 1 ≤ ‖first‖)
    (outside' : 1 ≤ ‖second‖) : ‖retract first - retract second‖ ≤ ‖first - second‖ := by
  have positive : 0 < ‖first‖ := zero_lt_one.trans_le outside
  have positive' : 0 < ‖second‖ := zero_lt_one.trans_le outside'
  have drawn := norm_sub_smul_sq first second ‖first‖⁻¹ ‖second‖⁻¹
  have whole := norm_sub_smul_sq first second 1 1
  rw [one_smul, one_smul] at whole
  have unit : ‖first‖⁻¹ ^ 2 * ‖first‖ ^ 2 = 1 := by
    rw [← mul_pow, inv_mul_cancel₀ positive.ne', one_pow]
  have unit' : ‖second‖⁻¹ ^ 2 * ‖second‖ ^ 2 = 1 := by
    rw [← mul_pow, inv_mul_cancel₀ positive'.ne', one_pow]
  have cosine : ‖first‖⁻¹ * ‖second‖⁻¹ * ⟪first, second⟫ ≤ 1 := by
    rw [← mul_inv, inv_mul_le_iff₀ (mul_pos positive positive'), mul_one]
    exact real_inner_le_norm first second
  have inner_eq : ⟪first, second⟫ =
      ‖first‖ * ‖second‖ * (‖first‖⁻¹ * ‖second‖⁻¹ * ⟪first, second⟫) := by
    rw [← mul_assoc, ← mul_inv, mul_inv_cancel₀ (mul_pos positive positive').ne', one_mul]
  rw [retract, retract, max_eq_right outside, max_eq_right outside']
  refine (sq_le_sq₀ (norm_nonneg _) (norm_nonneg _)).mp ?_
  rw [drawn, whole, unit, unit']
  have product : 1 ≤ ‖first‖ * ‖second‖ := one_le_mul_of_one_le_of_one_le outside outside'
  nlinarith [mul_nonneg (sub_nonneg.mpr product) (sub_nonneg.mpr cosine),
    sq_nonneg (‖first‖ - ‖second‖)]

/-- The retraction brings no two points farther apart. -/
theorem dist_retract_le (first second : Space) :
    dist (retract first) (retract second) ≤ dist first second := by
  rw [dist_eq_norm, dist_eq_norm]
  rcases le_total ‖first‖ 1 with inside | outside <;>
    rcases le_total ‖second‖ 1 with inside' | outside'
  · rw [retract_of_norm_le inside, retract_of_norm_le inside']
  · rw [retract_of_norm_le inside, norm_sub_rev, norm_sub_rev first]
    exact norm_retract_sub_le_of_inside outside' inside
  · rw [retract_of_norm_le inside']
    exact norm_retract_sub_le_of_inside outside inside'
  · exact norm_retract_sub_le_of_outside outside outside'

end Retraction
