/-
This file settles where the motor positions lie, in exact arithmetic.

A reset leaves the filter as it is and only takes its flag away, so the stages
still hold what an earlier session left there. They are overwritten by the first
output tensor after the reset, whatever number of failed inferences come before
it. From then on each motor's component of the filter is the cascade run over
this motor's predictions since the reset (`Filtered`), and a cascade whose
coefficients lie between zero and one stays in every interval that holds its
inputs.
-/

import Mathlib.Tactic.NormNum.OfScientific
import ControllerBridge.Exact
import ControllerBridge.MotorFilter

namespace ControllerBridge

open Machine Smoothing

/-! ### Runs of the module -/

/-- The calls made of the module after its start. -/
inductive MotorCall (Double : Type) where
  | reset
  | compute (joystickX joystickY : Double)

/-- What a call shows: the output tensor, when the model has run, and `motor_out`, when the call
succeeds. -/
structure MotorReply (Double : Type) where
  outData : Option (Fin kNumTendonMotors → Int8)
  motorOut : Option (MotorOut Double)

section

variable {Double : Type}

/-- The output tensors since the last reset, oldest first. -/
def outputsSince (history : List (MotorCall Double × MotorReply Double)) :
    List (Fin kNumTendonMotors → Int8) :=
  history.foldl (fun outputs entry =>
    match entry.1 with
    | .reset => []
    | .compute _ _ => outputs ++ entry.2.outData.toList) []

theorem outputsSince_reset (history : List (MotorCall Double × MotorReply Double))
    (reply : MotorReply Double) : outputsSince (history ++ [(.reset, reply)]) = [] := by
  rw [outputsSince, List.foldl_append]
  rfl

theorem outputsSince_compute (history : List (MotorCall Double × MotorReply Double))
    (joystickX joystickY : Double) (reply : MotorReply Double) :
    outputsSince (history ++ [(.compute joystickX joystickY, reply)]) =
      outputsSince history ++ reply.outData.toList := by
  rw [outputsSince, List.foldl_append]
  rfl

end

section

variable {Double Variables : Type} [Add Double] [Sub Double] [Mul Double] [Div Double]
  [Neg Double] [LT Double] [DecidableLT Double] [LE Double] [DecidableLE Double]
  [OfScientific Double] [IntCast Double]

/-- The state after a call, and what the call shows. -/
def motorAnswer (tflite : Tflite Variables) (libm : Libm Double)
    (motor : MotorInference Double Variables) :
    MotorCall Double → MotorInference Double Variables × MotorReply Double
  | .reset => (motorInferenceReset tflite motor, ⟨none, none⟩)
  | .compute joystickX joystickY =>
    let (next, motorOut) := motorInferenceCompute tflite libm motor joystickX joystickY
    (next, ⟨(invokeModel tflite libm motor joystickX joystickY).2, motorOut⟩)

def MotorStep (tflite : Tflite Variables) (libm : Libm Double)
    (motor : MotorInference Double Variables) (call : MotorCall Double)
    (next : MotorInference Double Variables) (reply : MotorReply Double) : Prop :=
  motorAnswer tflite libm motor call = (next, reply)

/-- The dequantised outputs for one motor since the last reset. -/
def predictions (k : Fin kNumTendonMotors)
    (history : List (MotorCall Double × MotorReply Double)) : List Double :=
  (outputsSince history).map fun outData => dequantize (outData k) kOutputScale kOutputZeroPoint

end

/-! ### The filter along a run -/

section

variable {Number Variables : Type} [Field Number]

/-- The filter after some calls: it waits for its seed when no output came since the last reset,
and otherwise each component is the cascade run over the motor's predictions. -/
structure Filtered (libm : Libm Number) (history : List (MotorCall Number × MotorReply Number))
    (motor : MotorInference Number Variables) : Prop where
  configured : Configured libm motor
  waiting : outputsSince history = [] → motor.lpfInitialized = false
  running : ∀ first rest, outputsSince history = first :: rest →
    motor.lpfInitialized = true ∧ ∀ k, motor.lpf.component k =
      (smoothedFrom (lpfCoefficients libm) (tendonOutputs first k)
        (rest.map fun outData => tendonOutputs outData k)).1

theorem Filtered.initial {tflite : Tflite Variables} {libm : Libm Number} {useNpu : Bool}
    {tensors : Variables} {motor : MotorInference Number Variables}
    (initialised : motorInferenceInit tflite libm useNpu tensors = some motor) :
    Filtered libm [] motor where
  configured := (motorInferenceInit_configured initialised).1
  waiting := fun _ => (motorInferenceInit_configured initialised).2
  running := nofun

theorem Filtered.reset (tflite : Tflite Variables) {libm : Libm Number}
    {history : List (MotorCall Number × MotorReply Number)}
    {motor : MotorInference Number Variables} (filtered : Filtered libm history motor)
    (reply : MotorReply Number) :
    Filtered libm (history ++ [(.reset, reply)]) (motorInferenceReset tflite motor) where
  configured := filtered.configured.reset tflite
  waiting := fun _ => rfl
  running := by
    intro first rest outputs
    rw [outputsSince_reset] at outputs
    cases outputs

/-- One output tensor through the filter: each component, with its output, is the cascade run over
the motor's predictions and then this one. -/
theorem Filtered.filterTendons {libm : Libm Number}
    {history : List (MotorCall Number × MotorReply Number)}
    {motor : MotorInference Number Variables} (filtered : Filtered libm history motor)
    {outData first : Fin kNumTendonMotors → Int8} {rest : List (Fin kNumTendonMotors → Int8)}
    (outputs : outputsSince history ++ [outData] = first :: rest) (k : Fin kNumTendonMotors) :
    ((filterTendons motor (tendonOutputs outData)).1.lpf.component k,
        (filterTendons motor (tendonOutputs outData)).2 k) =
      smoothedFrom (lpfCoefficients libm) (tendonOutputs first k)
        (rest.map fun outData => tendonOutputs outData k) := by
  cases before : outputsSince history with
  | nil =>
    -- the output seeds the stages, and then moves none of them
    rw [before, List.nil_append, List.cons.injEq] at outputs
    obtain ⟨rfl, rfl⟩ := outputs
    rw [ControllerBridge.filterTendons, filtered.waiting before]
    dsimp only
    rw [CascadedEMA.component_step, if_neg Bool.false_ne_true, CascadedEMA.component_reset,
      cascade_seeded, filtered.configured.coefficients]
    rfl
  | cons first' rest' =>
    obtain ⟨seen, components⟩ := filtered.running first' rest' before
    rw [before, List.cons_append, List.cons.injEq] at outputs
    obtain ⟨rfl, rfl⟩ := outputs
    rw [ControllerBridge.filterTendons, seen]
    dsimp only
    rw [CascadedEMA.component_step, if_pos rfl, components, List.map_append, List.map_singleton,
      smoothedFrom_concat]

/-- With one more output tensor the filter runs on, and the new positions are what the cascades
put out. -/
theorem Filtered.output {libm : Libm Number}
    {history : List (MotorCall Number × MotorReply Number)}
    {motor : MotorInference Number Variables} (filtered : Filtered libm history motor)
    (joystickX joystickY : Number) (outData : Fin kNumTendonMotors → Int8)
    (reply : MotorReply Number) (shows : reply.outData = some outData) :
    Filtered libm (history ++ [(.compute joystickX joystickY, reply)])
        (ControllerBridge.filterTendons motor (tendonOutputs outData)).1 ∧
      ∀ k, smoothed (lpfCoefficients libm)
          (predictions k (history ++ [(.compute joystickX joystickY, reply)])) =
        some ((ControllerBridge.filterTendons motor (tendonOutputs outData)).2 k) := by
  have outputs : outputsSince (history ++ [(.compute joystickX joystickY, reply)]) =
      outputsSince history ++ [outData] := by
    rw [outputsSince_compute, shows]
    rfl
  refine ⟨⟨filtered.configured.filterOutput (some outData), ?_, ?_⟩, ?_⟩
  · rw [outputs]
    exact fun impossible => absurd impossible (List.append_ne_nil_of_right_ne_nil _
      (List.cons_ne_nil _ _))
  · rw [outputs]
    exact fun first rest whole => ⟨rfl, fun k => congrArg Prod.fst (filtered.filterTendons whole k)⟩
  · intro k
    obtain ⟨first, rest, whole⟩ := List.exists_cons_of_ne_nil
      (List.append_ne_nil_of_right_ne_nil (outputsSince history) (List.cons_ne_nil outData []))
    rw [predictions, outputs, whole]
    exact congrArg some (congrArg Prod.snd (filtered.filterTendons whole k)).symm

variable [LinearOrder Number]

/-- A call keeps the filter running over the predictions, and a position it puts out is the
cascade's output. -/
theorem Filtered.step {tflite : Tflite Variables} {libm : Libm Number}
    {history : List (MotorCall Number × MotorReply Number)}
    {motor next : MotorInference Number Variables} (filtered : Filtered libm history motor)
    {call : MotorCall Number} {reply : MotorReply Number}
    (taken : MotorStep tflite libm motor call next reply) :
    Filtered libm (history ++ [(call, reply)]) next ∧
      ∀ out ∈ reply.motorOut, (∃ outData, reply.outData = some outData) ∧
        ∀ k, smoothed (lpfCoefficients libm) (predictions k (history ++ [(call, reply)])) =
          some (out.tendon k) := by
  cases call with
  | reset =>
    cases taken
    refine ⟨filtered.reset tflite _, ?_⟩
    intro out impossible
    cases impossible
  | compute joystickX joystickY =>
    have answer : motorAnswer tflite libm motor (.compute joystickX joystickY) =
        ((filterOutput (invokeModel tflite libm motor joystickX joystickY).1
            (invokeModel tflite libm motor joystickX joystickY).2).1,
          ⟨(invokeModel tflite libm motor joystickX joystickY).2,
            (filterOutput (invokeModel tflite libm motor joystickX joystickY).1
              (invokeModel tflite libm motor joystickX joystickY).2).2⟩) := rfl
    rw [MotorStep, answer] at taken
    cases taken
    have invoked : Filtered libm history (invokeModel tflite libm motor joystickX joystickY).1 :=
      ⟨filtered.configured.invokeModel tflite _ _, filtered.waiting, filtered.running⟩
    cases output : (invokeModel tflite libm motor joystickX joystickY).2 with
    | none =>
      have outputs := outputsSince_compute history joystickX joystickY
        (⟨none, none⟩ : MotorReply Number)
      rw [Option.toList_none, List.append_nil] at outputs
      refine ⟨⟨invoked.configured, ?_, ?_⟩, ?_⟩
      · exact fun empty => invoked.waiting (outputs.symm.trans empty)
      · exact fun first rest whole => invoked.running first rest (outputs.symm.trans whole)
      · intro out impossible
        cases impossible
    | some outData =>
      obtain ⟨after, outs⟩ := invoked.output joystickX joystickY outData
        ⟨some outData, some ⟨_, kInsertionMotorPosition⟩⟩ rfl
      refine ⟨after, ?_⟩
      rintro out ⟨⟩
      exact ⟨⟨outData, rfl⟩, outs⟩

theorem filtered_of_run {tflite : Tflite Variables} {libm : Libm Number}
    {start motor : MotorInference Number Variables}
    {history : List (MotorCall Number × MotorReply Number)} (initial : Filtered libm [] start)
    (run : Run (MotorStep tflite libm) start history motor) : Filtered libm history motor :=
  run.invariant (Filtered libm) initial fun _ _ _ _ _ filtered taken => (filtered.step taken).1

/-! ### The range -/

theorem proper_shares {libm : Libm Number}
    (proper : ∀ alpha ∈ lpfCoefficients libm, 0 < alpha ∧ alpha ≤ 1) :
    ∀ alpha ∈ lpfCoefficients libm, 0 ≤ alpha ∧ alpha ≤ 1 :=
  fun alpha member => ⟨(proper alpha member).1.le, (proper alpha member).2⟩

variable [IsStrictOrderedRing Number]

/-- The dequantised outputs of the model. -/
theorem dequantize_mem_Icc (output : Int8) :
    dequantize output kOutputScale kOutputZeroPoint ∈
      Set.Icc (0 : Number) (255 * kOutputScale) := by
  have low : ((-128 : Int) : Number) ≤ output.toInt := by exact_mod_cast output.le_toInt
  have high : (output.toInt : Number) ≤ (127 : Int) := by exact_mod_cast output.toInt_le
  have scale : (0 : Number) ≤ kOutputScale := by
    rw [kOutputScale]
    norm_num
  have shift : ((kOutputZeroPoint : Int) : Number) = -128 := by norm_num [kOutputZeroPoint]
  push_cast at low high
  rw [dequantize, shift, sub_neg_eq_add]
  constructor
  · exact mul_nonneg scale (by linarith)
  · rw [mul_comm]
    exact mul_le_mul_of_nonneg_right (by linarith) scale

/-- The positions a call puts out are in the range of the dequantised outputs. -/
theorem Filtered.tendon_mem_Icc {tflite : Tflite Variables} {libm : Libm Number}
    (proper : ∀ alpha ∈ lpfCoefficients libm, 0 < alpha ∧ alpha ≤ 1)
    {history : List (MotorCall Number × MotorReply Number)}
    {motor next : MotorInference Number Variables} (filtered : Filtered libm history motor)
    {call : MotorCall Number} {reply : MotorReply Number}
    (taken : MotorStep tflite libm motor call next reply) {out : MotorOut Number}
    (succeeds : reply.motorOut = some out) (k : Fin kNumTendonMotors) :
    out.tendon k ∈ Set.Icc 0 (255 * kOutputScale) := by
  obtain ⟨-, smooths⟩ := (filtered.step taken).2 out succeeds
  refine smoothed_mem_Icc (proper_shares proper) ?_ (smooths k)
  intro value member
  obtain ⟨outData, -, rfl⟩ := List.mem_map.mp member
  exact dequantize_mem_Icc _

/-- After any run of resets and calls, with any outputs and failures of the interpreter, a call
that succeeds puts out for each motor what a cascade makes of this motor's predictions since the
last reset: a position between the smallest and the largest of them, and exactly the prediction
when it is the first. -/
theorem motor_range {tflite : Tflite Variables} {libm : Libm Number}
    (proper : ∀ alpha ∈ lpfCoefficients libm, 0 < alpha ∧ alpha ≤ 1) {useNpu : Bool}
    {tensors : Variables} {start motor : MotorInference Number Variables}
    (initialised : motorInferenceInit tflite libm useNpu tensors = some start)
    {history : List (MotorCall Number × MotorReply Number)} {joystickX joystickY : Number}
    {reply : MotorReply Number} {out : MotorOut Number}
    (run : Run (MotorStep tflite libm) start
      (history ++ [(.compute joystickX joystickY, reply)]) motor)
    (succeeds : reply.motorOut = some out) (k : Fin kNumTendonMotors) :
    let values := predictions k (history ++ [(.compute joystickX joystickY, reply)])
    values.minimum ≤ (out.tendon k : WithTop Number) ∧
      (out.tendon k : WithBot Number) ≤ values.maximum ∧
      0 ≤ out.tendon k ∧ out.tendon k ≤ 255 * kOutputScale ∧
      (predictions k history = [] → ∃ outData, reply.outData = some outData ∧
        out.tendon k = dequantize (outData k) kOutputScale kOutputZeroPoint) ∧
      smoothed (lpfCoefficients libm) values = some (out.tendon k) := by
  obtain ⟨before, after, early, taken, -⟩ := run.split_step
  have filtered := filtered_of_run (.initial initialised) early
  obtain ⟨⟨outData, shows⟩, smooths⟩ := (filtered.step taken).2 out succeeds
  obtain ⟨below, above⟩ := smoothed_between (proper_shares proper) (smooths k)
  have inside := filtered.tendon_mem_Icc proper taken succeeds k
  refine ⟨below, above, inside.1, inside.2, ?_, smooths k⟩
  intro first
  refine ⟨outData, shows, ?_⟩
  have alone := smooths k
  rw [predictions, outputsSince_compute, shows, List.map_append, ← predictions, first] at alone
  exact (Option.some.inj alone).symm

end

theorem exampleLibm_proper : ∀ alpha ∈ lpfCoefficients exampleLibm, 0 < alpha ∧ alpha ≤ 1 := by
  have coefficients : lpfCoefficients exampleLibm = List.replicate 2 (1.0 - 0.2846) := rfl
  intro alpha member
  rw [coefficients] at member
  rw [List.eq_of_mem_replicate member]
  norm_num

/-- After a reset, a call and a second one the position is between the two predictions. -/
theorem exampleRun_motor_range : ∃ history reply out motor,
    Run (MotorStep exampleTflite exampleLibm) exampleMotor
      (history ++ [(.compute 0 0, reply)]) motor ∧ reply.motorOut = some out ∧
    (predictions 0 history).length = 1 ∧
    0 ≤ out.tendon 0 ∧ out.tendon 0 ≤ 255 * kOutputScale := by
  have reset : MotorStep exampleTflite exampleLibm exampleMotor .reset _ _ := rfl
  have first : MotorStep exampleTflite exampleLibm (motorInferenceReset exampleTflite exampleMotor)
    (.compute 0 0) _ _ := rfl
  have second : MotorStep exampleTflite exampleLibm (motorAnswer exampleTflite exampleLibm
    (motorInferenceReset exampleTflite exampleMotor) (.compute 0 0)).1 (.compute 0 0) _ _ := rfl
  have run := ((Run.start.step reset).step first).step second
  refine ⟨_, _, _, _, run, rfl, rfl, ?_⟩
  have initialised : motorInferenceInit exampleTflite exampleLibm false 0 = some exampleMotor := rfl
  obtain ⟨-, -, fromZero, toTop, -⟩ := motor_range exampleLibm_proper initialised run rfl 0
  exact ⟨fromZero, toTop⟩

end ControllerBridge
