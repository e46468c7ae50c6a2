/-
This file is the model of `motor_inference.cpp`.

The interpreter is a parameter, `Tflite`: its variable tensors are a state that
`Invoke` reads and writes together with the input tensor, and that
`ResetVariableTensors` resets. The rest of the module's process-wide state is
the motion history and the low-pass filter.
-/

import ControllerBridge.ControllerPipeline

namespace ControllerBridge

/-- The three tendon motors. -/
abbrev kNumTendonMotors : Nat := 3

instance kNumTendonMotors_neZero : NeZero kNumTendonMotors := ⟨Nat.succ_ne_zero _⟩

/-- The interpreter: what its two operations make of the variable tensors, and the output tensor
of an `Invoke` that does not fail. -/
structure Tflite (Variables : Type) where
  resetVariableTensors : Variables → Variables
  invoke : Variables → List Int8 → Variables × Option (Fin kNumTendonMotors → Int8)

/-- The state of the module: `g_interpreter`, `g_history`, `g_lpf` and `g_lpf_initialized`. -/
structure MotorInference (Double Variables : Type) where
  tensors : Variables
  history : HistoryWindowBuilder (Double × Double) Double
  lpf : CascadedEMA Double kNumTendonMotors
  lpfInitialized : Bool

/-- `motor_out`: the tendon motors and the insertion motor. -/
structure MotorOut (Double : Type) where
  tendon : Fin kNumTendonMotors → Double
  insertion : Double

def kSeqLen : Nat := 20

section

variable {Double Variables : Type} [OfScientific Double] [Neg Double]

def kControlTs : Double := 0.02

def kThetaLimitDeg : Double := 90.0

def kPhiOffset : Double := 0.0

def kAnchorDistance : Double := 0.05

def kInputScale : Double := 0.4401035010814667

def kInputZeroPoint : Int := -7

def kOutputScale : Double := 0.04787081480026245

def kOutputZeroPoint : Int := -128

def kLpfFc : Double := 10.0

def kLpfStages : Nat := 2

def kInsertionMotorPosition : Double := 0.0

variable [Add Double] [Sub Double] [Mul Double] [Div Double] [LT Double] [DecidableLT Double]
  [LE Double] [DecidableLE Double] [IntCast Double]

def kThetaLimitRad : Double := degToRad kThetaLimitDeg

/-- What `motor_inference_init` leaves of a freshly built interpreter, when it succeeds. On the
NPU it invokes the model once, on an input of zero points. -/
def motorInferenceInit (tflite : Tflite Variables) (libm : Libm Double) (useNpu : Bool)
    (tensors : Variables) : Option (MotorInference Double Variables) :=
  let history := HistoryWindowBuilder.create (0.0, 0.0) kSeqLen kAnchorDistance
  let lpf := CascadedEMA.create libm kNumTendonMotors kControlTs kLpfFc kLpfStages
  if useNpu then
    let warmUp := tflite.invoke tensors
      (List.replicate (kSeqLen * 2) (Int8.ofInt kInputZeroPoint))
    warmUp.2.map fun _ => ⟨warmUp.1, history, lpf, false⟩
  else some ⟨tensors, history, lpf, false⟩

def motorInferenceReset (tflite : Tflite Variables) (motor : MotorInference Double Variables) :
    MotorInference Double Variables :=
  { motor with
    tensors := tflite.resetVariableTensors motor.tensors
    history := motor.history.reset
    lpfInitialized := false }

/-- The sample of the motion history that a joystick position is. -/
def motionSample (libm : Libm Double) (joystickX joystickY : Double) : Double × Double :=
  let x := clamp joystickX (-1.0) 1.0
  let y := clamp joystickY (-1.0) 1.0
  let (theta, phi) := xyToAngles libm x y kThetaLimitRad
  let phi := phi + kPhiOffset
  let (u, v) := featureTransform libm theta phi
  (libm.toFloat u, libm.toFloat v)

/-- The input tensor of a window. -/
def inputTensor (libm : Libm Double) (window : List (Double × Double)) : List Int8 :=
  (window.take kSeqLen).flatMap fun sample =>
    [quantize libm sample.1 kInputScale kInputZeroPoint,
      quantize libm sample.2 kInputScale kInputZeroPoint]

/-- The tendon positions of an output tensor. -/
def tendonOutputs (outData : Fin kNumTendonMotors → Int8) : Fin kNumTendonMotors → Double :=
  fun k => dequantize (outData k) kOutputScale kOutputZeroPoint

/-- The filter with the tendon positions of an output tensor: they seed it, if it has not been
seeded since the last reset, and then go through it. -/
def filterTendons (motor : MotorInference Double Variables)
    (tendon : Fin kNumTendonMotors → Double) :
    MotorInference Double Variables × (Fin kNumTendonMotors → Double) :=
  let lpf := if motor.lpfInitialized then motor.lpf else motor.lpf.reset tendon
  let (lpf, filtered) := lpf.step tendon
  ({ motor with lpf := lpf, lpfInitialized := true }, filtered)

/-- The first part of `motor_inference_compute`, up to `Invoke`: the state with the window built
and the model run on it, and the output tensor, unless the inference fails. -/
def invokeModel (tflite : Tflite Variables) (libm : Libm Double)
    (motor : MotorInference Double Variables) (joystickX joystickY : Double) :
    MotorInference Double Variables × Option (Fin kNumTendonMotors → Int8) :=
  let (history, window) := motor.history.build (HistoryWindowBuilder.planeDistance libm)
    (motionSample libm joystickX joystickY)
  let (tensors, output) := tflite.invoke motor.tensors (inputTensor libm window)
  ({ motor with tensors := tensors, history := history }, output)

/-- The second part, from the output tensor on: the state afterwards and `motor_out`. -/
def filterOutput (motor : MotorInference Double Variables)
    (output : Option (Fin kNumTendonMotors → Int8)) :
    MotorInference Double Variables × Option (MotorOut Double) :=
  match output with
  | none => (motor, none)
  | some outData =>
    let (motor, filtered) := filterTendons motor (tendonOutputs outData)
    (motor, some ⟨filtered, kInsertionMotorPosition⟩)

/-- The state afterwards and `motor_out`, unless the inference fails. -/
def motorInferenceCompute (tflite : Tflite Variables) (libm : Libm Double)
    (motor : MotorInference Double Variables) (joystickX joystickY : Double) :
    MotorInference Double Variables × Option (MotorOut Double) :=
  let (motor, output) := invokeModel tflite libm motor joystickX joystickY
  filterOutput motor output

end

end ControllerBridge
