/-
This file settles how fast a motor position follows what the model predicts, in
exact arithmetic on the real numbers.

Whatever the calls before, once the prediction for a motor is held, the two
stages of the filter settle on it: what is left of their errors after `n` frames
is `(1 - alpha) ^ n` for the last stage and `n * alpha * (1 - alpha) ^ n` for the
one before. The errors are no larger than the range of the predictions, so that
one number of frames does for every run.
-/

import Mathlib.Analysis.SpecificLimits.Normed
import ControllerBridge.Library.Settling
import ControllerBridge.MotorRange
import ControllerBridge.RealArithmetic

namespace ControllerBridge

open Machine Smoothing

open Filter (Tendsto atTop eventually_atTop)

/-! ### Held predictions -/

/-- After some run, a call puts out `position` for a motor whose last `count` predictions, this
call's included, are `value`. -/
def HeldPosition {Variables : Type} (tflite : Tflite Variables) (libm : Libm ℝ)
    (k : Fin kNumTendonMotors) (count : ℕ) (value position : ℝ) : Prop :=
  ∃ useNpu tensors start motor history joystickX joystickY reply out earlier,
    motorInferenceInit tflite libm useNpu tensors = some start ∧
    Run (MotorStep tflite libm) start (history ++ [(.compute joystickX joystickY, reply)]) motor ∧
    reply.motorOut = some out ∧
    predictions k (history ++ [(.compute joystickX joystickY, reply)]) =
      earlier ++ List.replicate count value ∧
    out.tendon k = position

/-- The range of the predictions. -/
noncomputable def outputRange : ℝ := 255 * kOutputScale

section

variable {Variables : Type} {tflite : Tflite Variables} {libm : Libm ℝ}

/-- The position is off by what is left of the errors of the two stages. -/
theorem HeldPosition.errors (exact : ExactLibm libm) {k : Fin kNumTendonMotors} {count : ℕ}
    {value position : ℝ} (held : HeldPosition tflite libm k (count + 1) value position) :
    ∃ errors : List ℝ, errors.length = kLpfStages ∧ (∀ error ∈ errors, |error| ≤ outputRange) ∧
      position = value + residual lpfAlpha (count + 1) errors := by
  obtain ⟨useNpu, tensors, start, motor, history, joystickX, joystickY, reply, out, earlier,
    initialised, run, succeeds, holds, rfl⟩ := held
  obtain ⟨before, after, early, taken, -⟩ := run.split_step
  obtain ⟨-, smooths⟩ :=
    ((filtered_of_run (.initial initialised) early).step taken).2 out succeeds
  have smoothsHeld := smooths k
  rw [holds, lpfCoefficients_eq exact] at smoothsHeld
  have inside : ∀ input ∈ earlier ++ List.replicate (count + 1) value,
      input ∈ Set.Icc 0 outputRange := by
    rw [← holds]
    intro input member
    obtain ⟨outData, -, rfl⟩ := List.mem_map.mp member
    exact dequantize_mem_Icc _
  obtain ⟨errors, length, bounded, off⟩ :=
    smoothed_held lpfAlpha_pos.le lpfAlpha_lt_one.le inside smoothsHeld
  rw [sub_zero] at bounded
  exact ⟨errors, length, bounded, off⟩

/-! ### Settling -/

theorem residual_pair (share second first : ℝ) (count : ℕ) :
    residual share count [second, first] =
      (1 - share) ^ count * (second + count * share * first) := by
  rw [Smoothing.residual, List.length_cons, List.length_singleton, Finset.sum_range_succ,
    Finset.sum_range_one]
  simp

theorem remaining_two (share : ℝ) (count : ℕ) :
    remaining share 2 count = (1 - share) ^ count * (1 + count * share) := by
  rw [remaining, Finset.sum_range_succ, Finset.sum_range_one]
  simp

/-- Nothing is left in the end. -/
theorem tendsto_remaining {share : ℝ} (positive : 0 < share) (toOne : share ≤ 1) :
    Tendsto (fun count => remaining share 2 count) atTop (nhds 0) := by
  have fromOne : 0 ≤ 1 - share := sub_nonneg.mpr toOne
  have below : 1 - share < 1 := sub_lt_self 1 positive
  have last := tendsto_pow_atTop_nhds_zero_of_lt_one fromOne below
  have first := (tendsto_self_mul_const_pow_of_lt_one fromOne below).const_mul share
  have both := last.add first
  rw [mul_zero, add_zero] at both
  refine both.congr fun count => ?_
  rw [remaining_two]
  ring

/-- Once the prediction for a motor is held, the position differs from it by the errors of the two
stages, each within the range of the predictions, as far as they are left; and for every tolerance
there is a number of frames after which the position is that close, in every run, of every
interpreter, whatever came before. -/
theorem motors_settle {libm : Libm ℝ} (exact : ExactLibm libm) :
    (∀ {Variables : Type} (tflite : Tflite Variables) k count value position,
      HeldPosition tflite libm k (count + 1) value position →
      ∃ first second, |first| ≤ outputRange ∧ |second| ≤ outputRange ∧
        position = value +
          (1 - lpfAlpha) ^ (count + 1) * (second + (count + 1 : ℕ) * lpfAlpha * first)) ∧
    ∀ tolerance > 0, ∃ frames, ∀ {Variables : Type} (tflite : Tflite Variables) k count value
      position, frames ≤ count → HeldPosition tflite libm k (count + 1) value position →
      |position - value| ≤ tolerance := by
  constructor
  · intro Variables tflite k count value position held
    obtain ⟨errors, length, bounded, off⟩ := held.errors exact
    obtain ⟨second, first, rfl⟩ := List.length_eq_two.mp length
    rw [residual_pair] at off
    exact ⟨first, second, bounded first (by simp), bounded second (by simp), off⟩
  · intro tolerance positive
    have range : 0 < outputRange := by
      unfold outputRange
      norm_num [kOutputScale]
    obtain ⟨frames, small⟩ := eventually_atTop.mp
      ((tendsto_remaining lpfAlpha_pos lpfAlpha_lt_one.le).eventually
        (gt_mem_nhds (div_pos positive range)))
    refine ⟨frames, fun {Variables} tflite k count value position enough held => ?_⟩
    obtain ⟨errors, length, bounded, off⟩ := held.errors exact
    have left := abs_residual_le lpfAlpha_pos.le lpfAlpha_lt_one.le (count + 1) bounded
    rw [length] at left
    calc |position - value| = |residual lpfAlpha (count + 1) errors| := by
          rw [off, add_sub_cancel_left]
      _ ≤ remaining lpfAlpha 2 (count + 1) * outputRange := left
      _ ≤ tolerance / outputRange * outputRange :=
          mul_le_mul_of_nonneg_right (small (count + 1) (by omega)).le range.le
      _ = tolerance := div_mul_cancel₀ _ range.ne'

end

/-! ### A step of the prediction -/

/-- An interpreter that predicts the lowest position first, and then the highest. -/
def steppingTflite : Tflite Bool where
  resetVariableTensors := fun _ => false
  invoke := fun stepped _ => (true, some fun _ => if stepped then 127 else -128)

/-- A call predicts the lowest position at first, and the highest one later. -/
theorem steppingTflite_answers (motor : MotorInference ℝ Bool) (joystickX joystickY : ℝ) :
    ∃ next out, MotorStep steppingTflite realLibm motor (.compute joystickX joystickY) next
      ⟨some fun _ => if motor.tensors then 127 else -128, some out⟩ ∧ next.tensors = true :=
  ⟨_, _, rfl, rfl⟩

/-- The start of the module, and runs of calls from there. -/
theorem steppingTflite_runs (count : ℕ) : ∃ start history motor,
    motorInferenceInit steppingTflite realLibm false false = some start ∧
    Run (MotorStep steppingTflite realLibm) start history motor ∧
    outputsSince history = (fun _ => -128) :: List.replicate count (fun _ => 127) ∧
    motor.tensors = true := by
  induction count with
  | zero =>
    obtain ⟨start, initialised, fresh⟩ : ∃ start : MotorInference ℝ Bool,
      motorInferenceInit steppingTflite realLibm false false = some start ∧
        start.tensors = false := ⟨_, rfl, rfl⟩
    obtain ⟨next, out, taken, stepped⟩ := steppingTflite_answers start 0 0
    rw [fresh, if_neg Bool.false_ne_true] at taken
    refine ⟨start, _, next, initialised, Run.start.step taken, ?_, stepped⟩
    exact outputsSince_compute [] 0 0 _
  | succ count inductionHypothesis =>
    obtain ⟨start, history, motor, initialised, run, outputs, stepped⟩ := inductionHypothesis
    obtain ⟨next, out, taken, steppedNext⟩ := steppingTflite_answers motor 0 0
    rw [stepped, if_pos rfl] at taken
    refine ⟨start, _, next, initialised, run.step taken, ?_, steppedNext⟩
    rw [outputsSince_compute, outputs, List.replicate_succ', List.cons_append]
    rfl

/-- It may go on with the highest position for any number of frames. -/
theorem steppingTflite_held (count : ℕ) : ∃ position,
    HeldPosition steppingTflite realLibm 0 (count + 1)
      (dequantize 127 kOutputScale kOutputZeroPoint) position := by
  obtain ⟨start, history, motor, initialised, run, outputs, stepped⟩ := steppingTflite_runs count
  obtain ⟨next, out, taken, -⟩ := steppingTflite_answers motor 0 0
  rw [stepped, if_pos rfl] at taken
  refine ⟨_, false, false, start, next, history, 0, 0, _, out,
    [dequantize (-128) kOutputScale kOutputZeroPoint], initialised, run.step taken, rfl, ?_, rfl⟩
  rw [predictions, outputsSince_compute, outputs, List.map_append, List.map_cons,
    List.map_replicate, List.replicate_succ']
  rfl

/-- From the lowest to the highest position it takes some number of frames to come within a
thousandth. -/
theorem steppingTflite_settles : ∃ frames, ∀ count ≥ frames, ∃ position,
    HeldPosition steppingTflite realLibm 0 (count + 1)
      (dequantize 127 kOutputScale kOutputZeroPoint) position ∧
    |position - dequantize 127 kOutputScale kOutputZeroPoint| ≤ 1 / 1000 := by
  obtain ⟨frames, settles⟩ := (motors_settle realLibm_exact).2 (1 / 1000) (by norm_num)
  refine ⟨frames, fun count enough => ?_⟩
  obtain ⟨position, held⟩ := steppingTflite_held count
  exact ⟨position, held, settles _ _ _ _ _ enough held⟩

end ControllerBridge
