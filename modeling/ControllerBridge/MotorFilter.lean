/-
This file is about the low-pass filter of the inference and what no call of the
module changes.

The filter works on vectors, and each component of it is a cascade of its own
(`component_step`): what it does to one motor depends on the other motors in no
way. Over a whole run its outputs are those of its stages one after the other
(`outputs_eq_stages`). Its coefficients, and the parameters of the motion history, are in every
state those of the start (`Configured`).
-/

import ControllerBridge.Library.Machine
import ControllerBridge.Library.Smoothing
import ControllerBridge.MotorInference

namespace ControllerBridge

open Smoothing

/-! ### The filter, component by component -/

namespace CascadedEMA

section

variable {Double : Type} {dim : Nat}

/-- The coefficients of a filter. -/
def coefficients (filter : CascadedEMA Double dim) : List Double := filter.stages.map Prod.fst

/-- One component of the stages. -/
def component (filter : CascadedEMA Double dim) (d : Fin dim) : List (Double × Double) :=
  filter.stages.map fun stage => (stage.1, stage.2 d)

/-- A filter that is seeded keeps of its past only the coefficients. -/
theorem reset_eq_of_coefficients {first second : CascadedEMA Double dim}
    (same : first.coefficients = second.coefficients) (seed : Fin dim → Double) :
    first.reset seed = second.reset seed := by
  have pairs : ∀ filter : CascadedEMA Double dim,
      filter.reset seed = ⟨filter.coefficients.map fun alpha => (alpha, seed)⟩ := by
    intro filter
    rw [reset, coefficients, List.map_map]
    rfl
  rw [pairs, pairs, same]

theorem coefficients_reset (filter : CascadedEMA Double dim) (seed : Fin dim → Double) :
    (filter.reset seed).coefficients = filter.coefficients := by
  rw [coefficients, reset, List.map_map]
  rfl

theorem component_reset (filter : CascadedEMA Double dim) (seed : Fin dim → Double)
    (d : Fin dim) : (filter.reset seed).component d = seeded filter.coefficients (seed d) := by
  rw [component, reset, seeded, coefficients, List.map_map, List.map_map]
  rfl

end

section

variable {Double : Type} [Add Double] [Sub Double] [Mul Double] {dim : Nat}

theorem coefficients_stepStages (stages : List (Double × (Fin dim → Double)))
    (input : Fin dim → Double) :
    (stepStages stages input).1.map Prod.fst = stages.map Prod.fst := by
  induction stages generalizing input with
  | nil => rfl
  | cons stage stages inductionHypothesis =>
    rw [stepStages, List.map_cons, inductionHypothesis, List.map_cons]

theorem coefficients_step (filter : CascadedEMA Double dim) (input : Fin dim → Double) :
    (filter.step input).1.coefficients = filter.coefficients :=
  coefficients_stepStages filter.stages input

theorem component_stepStages (stages : List (Double × (Fin dim → Double)))
    (input : Fin dim → Double) (d : Fin dim) :
    ((stepStages stages input).1.map (fun stage => (stage.1, stage.2 d)),
        (stepStages stages input).2 d) =
      cascade (stages.map fun stage => (stage.1, stage.2 d)) (input d) := by
  induction stages generalizing input with
  | nil => rfl
  | cons stage stages inductionHypothesis =>
    obtain ⟨alpha, y⟩ := stage
    have rest := inductionHypothesis (stageStep alpha y input)
    rw [stepStages, List.map_cons, List.map_cons, cascade]
    dsimp only
    rw [← show stageStep alpha y input d = approach alpha (y d) (input d) from rfl, ← rest]

/-- A step of the filter is, component by component, a step of a cascade. -/
theorem component_step (filter : CascadedEMA Double dim) (input : Fin dim → Double)
    (d : Fin dim) :
    ((filter.step input).1.component d, (filter.step input).2 d) =
      cascade (filter.component d) (input d) :=
  component_stepStages filter.stages input d

/-! ### The filter, stage by stage -/

/-- The stages as those of a cascade on vectors, with the same coefficient in each component. -/
def vectors (filter : CascadedEMA Double dim) :
    List ((Fin dim → Double) × (Fin dim → Double)) :=
  filter.stages.map fun stage => (fun _ => stage.1, stage.2)

theorem vectors_stepStages (stages : List (Double × (Fin dim → Double)))
    (input : Fin dim → Double) :
    ((stepStages stages input).1.map (fun stage => (fun _ => stage.1, stage.2)),
        (stepStages stages input).2) =
      cascade (stages.map fun stage => ((fun _ => stage.1 : Fin dim → Double), stage.2))
        input := by
  induction stages generalizing input with
  | nil => rfl
  | cons stage stages inductionHypothesis =>
    obtain ⟨alpha, y⟩ := stage
    rw [stepStages, List.map_cons, List.map_cons, cascade]
    dsimp only
    rw [← show stageStep alpha y input = approach (fun _ => alpha) y input from rfl,
      ← inductionHypothesis]

theorem outputs_step (filter : CascadedEMA Double dim) (inputs : List (Fin dim → Double)) :
    Machine.outputs step filter inputs = cascadeSignal filter.vectors inputs := by
  induction inputs generalizing filter with
  | nil => rw [Machine.outputs, cascadeSignal]
  | cons input inputs inductionHypothesis =>
    have taken : ((filter.step input).1.vectors, (filter.step input).2) =
        cascade filter.vectors input := vectors_stepStages filter.stages input
    rw [Machine.outputs, cascadeSignal, inductionHypothesis, ← taken]

/-- The outputs of the filter after a reset are what its stages give when each of them, starting
at the seed, runs over all outputs of the one before. -/
theorem outputs_eq_stages (filter : CascadedEMA Double dim) (seed : Fin dim → Double)
    (inputs : List (Fin dim → Double)) :
    Machine.outputs step (filter.reset seed) inputs =
      filter.coefficients.foldl
        (fun signal alpha => stageSignal (fun _ => alpha) seed signal) inputs := by
  have starts : (filter.reset seed).vectors =
      seeded (filter.coefficients.map fun alpha _ => alpha) seed := by
    rw [vectors, reset, seeded, coefficients, List.map_map, List.map_map, List.map_map]
    rfl
  rw [outputs_step, starts, cascadeSignal_seeded, List.foldl_map]

end

end CascadedEMA

/-! ### The parameters of the inference -/

section

variable {Double Variables : Type} [Sub Double] [Mul Double] [Neg Double] [OfScientific Double]

/-- The coefficients the filter is created with. -/
def lpfCoefficients (libm : Libm Double) : List Double :=
  (CascadedEMA.create libm kNumTendonMotors kControlTs kLpfFc kLpfStages).coefficients

/-- The parameters of the history and of the filter are those of the start. -/
structure Configured (libm : Libm Double) (motor : MotorInference Double Variables) : Prop where
  seqLen : motor.history.seqLen = kSeqLen
  anchorDistance : motor.history.anchorDistance = kAnchorDistance
  coefficients : motor.lpf.coefficients = lpfCoefficients libm

/-- After the start the filter waits for its seed, and the parameters are set. -/
theorem motorInferenceInit_configured {tflite : Tflite Variables} {libm : Libm Double}
    {useNpu : Bool} {tensors : Variables} {motor : MotorInference Double Variables}
    (initialised : motorInferenceInit tflite libm useNpu tensors = some motor) :
    Configured libm motor ∧ motor.lpfInitialized = false := by
  rw [motorInferenceInit] at initialised
  split at initialised
  · rw [Option.map_eq_some_iff] at initialised
    obtain ⟨_, -, rfl⟩ := initialised
    exact ⟨⟨rfl, rfl, rfl⟩, rfl⟩
  · cases initialised
    exact ⟨⟨rfl, rfl, rfl⟩, rfl⟩

theorem Configured.reset (tflite : Tflite Variables) {libm : Libm Double}
    {motor : MotorInference Double Variables} (configured : Configured libm motor) :
    Configured libm (motorInferenceReset tflite motor) :=
  ⟨configured.seqLen, configured.anchorDistance, configured.coefficients⟩

variable [Add Double]

theorem Configured.filterOutput [IntCast Double] {libm : Libm Double}
    {motor : MotorInference Double Variables} (configured : Configured libm motor)
    (output : Option (Fin kNumTendonMotors → Int8)) :
    Configured libm (filterOutput motor output).1 := by
  cases output with
  | none => exact configured
  | some outData =>
    refine ⟨configured.seqLen, configured.anchorDistance, ?_⟩
    rw [← configured.coefficients, ControllerBridge.filterOutput, filterTendons]
    dsimp only
    rw [CascadedEMA.coefficients_step]
    split
    · rfl
    · exact CascadedEMA.coefficients_reset _ _

variable [Div Double] [LT Double] [DecidableLT Double] [LE Double] [DecidableLE Double]

theorem Configured.invokeModel (tflite : Tflite Variables) {libm : Libm Double}
    {motor : MotorInference Double Variables} (configured : Configured libm motor)
    (joystickX joystickY : Double) :
    Configured libm (invokeModel tflite libm motor joystickX joystickY).1 := by
  have build : ∀ cur,
      (motor.history.build (HistoryWindowBuilder.planeDistance libm) cur).1.seqLen = kSeqLen ∧
        (motor.history.build (HistoryWindowBuilder.planeDistance libm) cur).1.anchorDistance =
          kAnchorDistance := by
    intro cur
    rw [HistoryWindowBuilder.build, HistoryWindowBuilder.anchor, HistoryWindowBuilder.move,
      HistoryWindowBuilder.start, ← configured.seqLen, ← configured.anchorDistance]
    dsimp only
    split_ifs <;> exact ⟨rfl, rfl⟩
  exact ⟨(build _).1, (build _).2, configured.coefficients⟩

theorem Configured.compute [IntCast Double] (tflite : Tflite Variables) {libm : Libm Double}
    {motor : MotorInference Double Variables} (configured : Configured libm motor)
    (joystickX joystickY : Double) :
    Configured libm (motorInferenceCompute tflite libm motor joystickX joystickY).1 :=
  (configured.invokeModel tflite joystickX joystickY).filterOutput _

end

end ControllerBridge
