/-
This file instantiates the model with exact arithmetic on the rationals.

`exactLibc` reads and renders numbers exactly. The rest of the platform is an
example to run the model on: its functions are right at the joystick positions
on the axes, where the angles are `0` and half a turn's half, and its interpreter
counts its calls in the variable tensors.
-/

import Mathlib.Data.Rat.Floor
import Mathlib.Data.Rat.Sqrt
import ControllerBridge.Library.Decimal
import ControllerBridge.System

namespace ControllerBridge

open Region

/-- The number conversions in exact arithmetic. -/
def exactLibc : Libc ℚ where
  strtod := Decimal.parse
  printf := fun places value => some (Decimal.fixed places value)

def exampleLibm : Libm ℚ where
  floor := fun value => ⌊value⌋
  sqrt := Rat.sqrt
  sin := fun angle => if angle = 0 then 0 else 1
  cos := fun angle => if angle = 0 then 1 else 0
  exp := fun _ => 0.2846
  atan2 := fun y _ => if y = 0 then 0 else kPi / 2
  toFloat := fun value => value
  toInt32 := fun value => ⌊value⌋
  dblMax := (2 ^ 53 - 1) * 2 ^ 971

/-- An interpreter whose calls have the outputs `-128`, `-127` and so on in turn, since the last
reset, and whose third call fails. -/
def exampleTflite : Tflite Nat where
  resetVariableTensors := fun _ => 0
  invoke := fun tensors _ =>
    (tensors + 1, if tensors = 2 then none else some fun _ => Int8.ofInt (tensors - 128))

def examplePlatform : Platform ℚ Nat := ⟨exactLibc, exampleLibm, exampleTflite⟩

def exampleMotor : MotorInference ℚ Nat where
  tensors := 0
  history := HistoryWindowBuilder.create (0.0, 0.0) kSeqLen kAnchorDistance
  lpf := CascadedEMA.create exampleLibm kNumTendonMotors kControlTs kLpfFc kLpfStages
  lpfInitialized := false

def exampleProcess : Process ℚ Nat where
  motor := exampleMotor
  samples := []
  stats := .initial
  logOpen := false
  server := bridgeServerStart (.zeroed maxBridgedFrameLen)

def exampleSystem : System ℚ Nat where
  process := exampleProcess
  sessions := fun _ => ⟨.zeroed maxControllerFrameLen, 0⟩
  lws := .idle

theorem exampleSystem_started : Started examplePlatform exampleSystem where
  motor := ⟨false, 0, rfl⟩
  samples := rfl
  stats := rfl
  server := ⟨_, rfl⟩
  idle := rfl

theorem exampleSystem_runs : Runs examplePlatform [] exampleSystem :=
  ⟨exampleSystem, exampleSystem_started, .start⟩

end ControllerBridge
