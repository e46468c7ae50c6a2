/-
This file is the model of `bridge_server.cpp`, with the process it runs in.

`Process` is the process-wide state of every module a frame goes through. A call
of `bridgeServerForward` is given the clock value that the source reads half-way
through, and returns the new state with a record of what it computed. The last
section states the call on texts: whether the frame is dropped, and the payload
that is published.
-/

import ControllerBridge.FrameText
import ControllerBridge.MotorInference
import ControllerBridge.Timing

namespace ControllerBridge

open Region

/-! ### The server and its process -/

def maxControllerFrameLen : Nat := 512

def maxBridgedFrameLen : Nat := 1024

/-- The state of `bridge_server.cpp`: the payload behind its `LWS_PRE` bytes of headroom, its
length, and whether `s_protocol` has been set. -/
structure BridgeServer where
  payload : Buffer maxBridgedFrameLen
  payloadLen : Nat
  protocol : Bool

/-- `bridge_server_start`. -/
def bridgeServerStart (payload : Buffer maxBridgedFrameLen) : BridgeServer := ⟨payload, 0, false⟩

/-- The bytes a client is sent. -/
def BridgeServer.published (server : BridgeServer) : List UInt8 :=
  server.payload.text server.payloadLen

/-- `LWS_CALLBACK_ESTABLISHED` of `callback_icu`. -/
def icuEstablished (server : BridgeServer) : BridgeServer := { server with protocol := true }

/-- `LWS_CALLBACK_SERVER_WRITEABLE` of `callback_icu`: what is handed to `lws_write`, and the
result of the callback; `written` is what `lws_write` returns. -/
def icuWriteable (server : BridgeServer) (written : Int) : Checked (Option (List UInt8) × Int) :=
  if 0 < server.payloadLen then do
    let payload ← slice server.payload.bytes 0 server.payloadLen
    if written < toInt server.payloadLen then .ok (some payload, -1) else .ok (some payload, 0)
  else .ok (none, 0)

/-- What the process takes from outside: the C library, the mathematics library and the
interpreter. -/
structure Platform (Double Variables : Type) where
  libc : Libc Double
  libm : Libm Double
  tflite : Tflite Variables

/-- The process-wide state. -/
structure Process (Double Variables : Type) where
  motor : MotorInference Double Variables
  samples : Samples Double
  stats : FrameStats Double
  logOpen : Bool
  server : BridgeServer

/-- What a call that publishes its frame computes after the stamping. -/
structure Published (Double : Type) where
  frameTransferTime : Double
  processingTime : Double
  report : Option (StatReport Double)
  correctedTransferTime : Double
  withCorrection : Int
  row : Option (LogRow Double)
  reformatted : Option Int
  withMotor : Option Int
  requested : Bool

/-- What a call of `bridge_server_forward` computes: the joystick and motor values it has, the
result of the stamping and, unless that is negative, the rest. -/
structure Forwarded (Double : Type) where
  joystick : Option (Double × Double)
  motor : Option (MotorOut Double)
  stamped : Int
  published : Option (Published Double)

/-- The length after a step: its result, or the length before when it failed. -/
def lengthAfter (n : Nat) (result : Int) : Nat := if 0 ≤ result then result.toNat else n

def correctedKey : List UInt8 := ascii "frame_transfer_time_corrected"

section

variable {Double Variables : Type} [Add Double] [Sub Double] [Mul Double] [Div Double]
  [Neg Double] [LT Double] [DecidableLT Double] [LE Double] [DecidableLE Double]
  [OfScientific Double] [NatCast Double] [IntCast Double]

/-- The clock value for what `clock_gettime` leaves in its `timespec`. -/
def currentEpochSeconds (tvSec tvNsec : Int) : Double :=
  (tvSec : Double) + (tvNsec : Double) / 1e9

/-- The inference for a frame: it runs only for one with joystick values. -/
def inferMotor (platform : Platform Double Variables) (motor : MotorInference Double Variables) :
    Option (Double × Double) → MotorInference Double Variables × Option (MotorOut Double)
  | none => (motor, none)
  | some (x, y) => motorInferenceCompute platform.tflite platform.libm motor x y

/-- The block `if (have_joystick)`: the payload, its length and the results of the two steps. -/
def spliceJoystick {capacity : Nat} (libc : Libc Double) (payload : Buffer capacity) (n : Nat)
    (joystick : Option (Double × Double)) (motor : Option (MotorOut Double)) :
    Checked (Buffer capacity × Nat × Option Int × Option Int) :=
  match joystick with
  | none => .ok (payload, n, none, none)
  | some (x, y) => do
    let (reformatted, payload) ← bridgeReformatJoystick libc payload n x y
    let n := lengthAfter n reformatted
    match motor with
    | none => .ok (payload, n, some reformatted, none)
    | some out =>
      let (withMotor, payload) ← bridgeAppendMotorFields libc payload n (out.tendon 0)
        (out.tendon 1) (out.tendon 2) out.insertion
      .ok (payload, lengthAfter n withMotor, some reformatted, some withMotor)

def bridgeServerForward (platform : Platform Double Variables)
    (process : Process Double Variables) (rawFrame : List UInt8)
    (receivedNtpTime forwardNtpTime : Double) :
    Checked (Process Double Variables × Forwarded Double) := do
  let joystick ← bridgeExtractJoystick platform.libc rawFrame
  let (motorState, motor) := inferMotor platform process.motor joystick
  let stamp ← bridgeStampFrame platform.libc rawFrame receivedNtpTime forwardNtpTime
    process.server.payload
  if stamp.returned < 0 then
    .ok ({ process with
      motor := motorState
      server := { process.server with payload := stamp.out } },
      ⟨joystick, motor, stamp.returned, none⟩)
  else do
    let n := stamp.returned.toNat
    let (frameTransferTime, processingTime) := stamp.timing.getD (0.0, 0.0)
    let (stats, report) :=
      frameStatsRecord platform.libm.dblMax process.stats frameTransferTime processingTime
    let (samples, corrected) :=
      clockOffsetCorrect process.samples frameTransferTime receivedNtpTime
    let (withCorrection, payload) ←
      bridgeAppendField platform.libc stamp.out n correctedKey corrected
    let n := lengthAfter n withCorrection
    let row := timingLogRecord process.logOpen receivedNtpTime frameTransferTime corrected
      processingTime
    let (payload, n, reformatted, withMotor) ←
      spliceJoystick platform.libc payload n joystick motor
    .ok ({
      motor := motorState
      samples := samples
      stats := stats
      logOpen := process.logOpen
      server := ⟨payload, n, process.server.protocol⟩ }, {
      joystick := joystick
      motor := motor
      stamped := stamp.returned
      published := some {
        frameTransferTime := frameTransferTime
        processingTime := processingTime
        report := report
        correctedTransferTime := corrected
        withCorrection := withCorrection
        row := row
        reformatted := reformatted
        withMotor := withMotor
        requested := process.server.protocol } })

end

end ControllerBridge
