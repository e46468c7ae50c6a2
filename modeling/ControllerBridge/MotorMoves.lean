/-
This file settles how far a motor position moves from one frame to the next, in
exact arithmetic on the real numbers.

The two stages of the filter keep `1 - alpha` of their values, which is at most
one half, so that a change of the prediction reaches the position with at most
`alpha ^ 2` of the range. The invariant is that the last position is what the
filter makes of the predictions so far (`Moves`); only a new controller lets the
position jump.
-/

import Mathlib.Analysis.Complex.ExponentialBounds
import ControllerBridge.InferenceInput
import ControllerBridge.MotorSettling
import ControllerBridge.ReadBack

namespace ControllerBridge

open Smoothing

/-! ### Positions since a connection -/

section

variable {Double : Type}

/-- The positions that are computed for the frame an event hands over. -/
def computedPositions (entry : Event Double × Observation Double) : Option (MotorOut Double) :=
  (forwardCall entry).bind fun call => call.handed.forwarded.motor

/-- The positions computed since a controller connected last, oldest first. -/
def motorsSince (history : List (Event Double × Observation Double)) : List (MotorOut Double) :=
  sinceConnected computedPositions history

theorem motorsSince_concat (history : List (Event Double × Observation Double))
    {event : Event Double} {observation : Observation Double} {call : ForwardCall Double}
    (quiet : event.connects = false) (makes : forwardCall (event, observation) = some call) :
    motorsSince (history ++ [(event, observation)]) =
      motorsSince history ++ call.handed.forwarded.motor.toList := by
  rw [motorsSince, sinceConnected_concat, quiet, if_neg Bool.false_ne_true, computedPositions,
    makes]
  rfl

end

/-! ### The moves along a run -/

/-- From one of the positions to the next no tendon motor moves by more than the bound. -/
def MovesWithin (bound : ℝ) (positions : List (MotorOut ℝ)) : Prop :=
  positions.IsChain fun previous next => ∀ k, |next.tendon k - previous.tendon k| ≤ bound

/-- How far a position may move. -/
noncomputable def furthestMove : ℝ := lpfAlpha ^ kLpfStages * outputRange

section

variable {Variables : Type} {tflite : Tflite Variables} {libm : Libm ℝ}

/-- Some positions move no further than they may, and the last one is what the filter makes of the
predictions. -/
structure Moves (libm : Libm ℝ) (positions : List (MotorOut ℝ))
    (motor : MotorInference ℝ Variables) : Prop where
  within : MovesWithin furthestMove positions
  follows : ∃ calls, Filtered libm calls motor ∧ ∀ last ∈ positions.getLast?, ∀ k,
    smoothed (lpfCoefficients libm) (predictions k calls) = some (last.tendon k)

/-- The two stages keep at most half of their values each. -/
theorem kLpfStages_mul_le : kLpfStages * (1 - lpfAlpha) ≤ 1 := by
  have small : Real.exp (-2 * kPi * kLpfFc * kControlTs) ≤ 2⁻¹ := by
    refine (Real.le_log_iff_exp_le (by norm_num)).mp ?_
    rw [Real.log_inv]
    have log := Real.log_two_lt_d9
    norm_num [kPi, kLpfFc, kControlTs] at log ⊢
    linarith
  have two : (kLpfStages : ℝ) = 2 := rfl
  rw [two, lpfAlpha]
  linarith

/-- A call that puts out no positions has had no output from the interpreter. -/
theorem outData_of_motorOut {motor next : MotorInference ℝ Variables} {joystickX joystickY : ℝ}
    {reply : MotorReply ℝ} (taken : MotorStep tflite libm motor (.compute joystickX joystickY) next
      reply) (fails : reply.motorOut = none) : reply.outData = none := by
  rw [MotorStep, motorAnswer] at taken
  dsimp only at taken
  cases taken
  rw [motorInferenceCompute] at fails
  dsimp only at fails ⊢
  cases output : (invokeModel tflite libm motor joystickX joystickY).2 with
  | none => rfl
  | some outData =>
    rw [output] at fails
    cases fails

/-- A call moves the positions no further than they may. -/
theorem Moves.compute (exact : ExactLibm libm) {positions : List (MotorOut ℝ)}
    {motor next : MotorInference ℝ Variables} (moves : Moves libm positions motor)
    {joystickX joystickY : ℝ} {reply : MotorReply ℝ}
    (taken : MotorStep tflite libm motor (.compute joystickX joystickY) next reply) :
    Moves libm (positions ++ reply.motorOut.toList) next := by
  obtain ⟨calls, filtered, last⟩ := moves.follows
  obtain ⟨filteredNext, smooths⟩ := filtered.step taken
  have grows : ∀ k, predictions k (calls ++ [(.compute joystickX joystickY, reply)]) =
      predictions k calls ++ (reply.outData.toList.map fun outData =>
        dequantize (outData k) kOutputScale kOutputZeroPoint) := by
    intro k
    rw [predictions, outputsSince_compute, List.map_append]
    rfl
  cases computed : reply.motorOut with
  | none =>
    rw [Option.toList_none, List.append_nil]
    refine ⟨moves.within, _, filteredNext, fun out member k => ?_⟩
    rw [grows, outData_of_motorOut taken computed, Option.toList_none, List.map_nil,
      List.append_nil]
    exact last out member k
  | some out =>
    obtain ⟨⟨outData, shows⟩, smooths⟩ := smooths out computed
    rw [Option.toList_some]
    refine ⟨List.isChain_append.mpr ⟨moves.within, .singleton _, ?_⟩, _, filteredNext, ?_⟩
    · intro previous before out' member k
      obtain rfl := Option.some_inj.mp member
      have smoothsBefore := last previous before k
      have smoothsAfter := smooths k
      rw [grows, shows, Option.toList_some, List.map_singleton] at smoothsAfter
      rw [lpfCoefficients_eq exact] at smoothsBefore smoothsAfter
      have inside : ∀ input ∈ predictions k calls ++
          [dequantize (outData k) kOutputScale kOutputZeroPoint],
          input ∈ Set.Icc 0 outputRange := by
        intro input member
        rcases List.mem_append.mp member with earlier | new
        · obtain ⟨outData', -, rfl⟩ := List.mem_map.mp earlier
          exact dequantize_mem_Icc _
        · rw [List.mem_singleton.mp new]
          exact dequantize_mem_Icc _
      have bound := smoothed_moves lpfAlpha_pos.le lpfAlpha_lt_one.le kLpfStages_mul_le inside
        smoothsBefore smoothsAfter
      rwa [sub_zero] at bound
    · intro out' member k
      rw [List.getLast?_concat] at member
      obtain rfl := Option.some_inj.mp member
      exact smooths k

end

section

variable {Variables : Type} {platform : Platform ℝ Variables}
  {history : List (Event ℝ × Observation ℝ)} {system : System ℝ Variables}

/-- A call on a frame moves the positions no further than they may. -/
theorem Moves.forward (exact : ExactLibm platform.libm) {process process' : Process ℝ Variables}
    {positions : List (MotorOut ℝ)} (moves : Moves platform.libm positions process.motor)
    {frame : List UInt8} {receivedNtpTime forwardNtpTime : ℝ} {forwarded : Forwarded ℝ}
    (run : bridgeServerForward platform process frame receivedNtpTime forwardNtpTime =
      .ok (process', forwarded)) :
    Moves platform.libm (positions ++ forwarded.motor.toList) process'.motor := by
  rw [(bridgeServerForward_reports _ _ _ _ _ run).2,
    bridgeServerForward_motor platform process frame _ _ run, frameInference]
  cases joystickValues platform.libc frame with
  | none =>
    rw [inferMotor, Option.toList_none, List.append_nil]
    exact moves
  | some values =>
    obtain ⟨x, y⟩ := values
    have taken : MotorStep platform.tflite platform.libm process.motor (.compute x y)
      (inferMotor platform process.motor (some (x, y))).1
      ⟨_, (inferMotor platform process.motor (some (x, y))).2⟩ := rfl
    exact moves.compute exact taken

theorem Runs.moves (exact : ExactLibm platform.libm) (runs : Runs platform history system) :
    Moves platform.libm (motorsSince history) system.process.motor := by
  refine (runs.invariant (fun history (system : System ℝ Variables) => SessionsHold system ∧
      Moves platform.libm (motorsSince history) system.process.motor)
    (fun start started => ⟨Runs.sessionsHold ⟨start, started, .start⟩, ?_⟩) ?_).2
  · obtain ⟨useNpu, tensors, initialised⟩ := started.motor
    exact ⟨.nil, [], .initial initialised, nofun⟩
  · rintro history system event next observation ⟨sessionsHold, moves⟩ taken
    refine ⟨sessionsHold_step sessionsHold taken, ?_⟩
    obtain ⟨connects, -, process⟩ | ⟨quiet, ⟨call, makes, run⟩ | ⟨idle, server, process⟩⟩ :=
      process_of_step sessionsHold taken
    · obtain ⟨calls, filtered, -⟩ := moves.follows
      rw [motorsSince, sinceConnected_concat, connects, if_pos rfl, process]
      exact ⟨.nil, _, filtered.reset platform.tflite ⟨none, none⟩, nofun⟩
    · rw [motorsSince_concat history quiet makes]
      exact moves.forward exact run
    · rw [motorsSince, sinceConnected_concat, quiet, if_neg Bool.false_ne_true, computedPositions,
        idle, Option.bind_none, Option.toList_none, List.append_nil, process]
      exact moves

/-- In every run, whatever the frames and the interpreter, from one frame of a connection to the
next no tendon motor moves by more than `alpha ^ 2` of the range of the predictions. -/
theorem motors_move_within (exact : ExactLibm platform.libm) (runs : Runs platform history system) :
    MovesWithin furthestMove (motorsSince history) :=
  (runs.moves exact).within

end

/-! ### The furthest move -/

theorem stickFrame_values (libc : Libc ℝ) : joystickValues libc stickFrame =
    some (readSpan libc (ascii "0.5"), readSpan libc (ascii "-4")) :=
  joystickValues_of_spanAfter (by decide) (by decide) (by decide +kernel) (by decide +kernel)

/-- A call on the frame runs the interpreter once. -/
theorem stickFrame_answers {process process' : Process ℝ Bool} {forwarded : Forwarded ℝ}
    (run : bridgeServerForward (realPlatform steppingTflite) process stickFrame 1 2 =
      .ok (process', forwarded)) : ∃ x y out, forwarded.motor = some out ∧
    MotorStep steppingTflite realLibm process.motor (.compute x y) process'.motor
      ⟨some fun _ => if process.motor.tensors then 127 else -128, some out⟩ ∧
    process'.motor.tensors = true := by
  obtain ⟨next, out, taken, stepped⟩ := steppingTflite_answers process.motor
    (readSpan realLibc (ascii "0.5")) (readSpan realLibc (ascii "-4"))
  have answer : frameInference (realPlatform steppingTflite) process stickFrame =
      (next, some out) := by
    rw [frameInference, stickFrame_values]
    cases taken
    rfl
  have motor : process'.motor = next := by
    rw [bridgeServerForward_motor _ _ _ _ _ run, answer]
  refine ⟨_, _, out, ?_, motor ▸ taken, motor ▸ stepped⟩
  rw [(bridgeServerForward_reports _ _ _ _ _ run).2, answer]

/-- One frame after a new controller's first one the positions may go through the furthest move. -/
theorem steppingTflite_moves : ∃ history system first second,
    Runs (realPlatform steppingTflite) history system ∧ motorsSince history = [first, second] ∧
    (∀ k, second.tendon k - first.tendon k = furthestMove) ∧
    MovesWithin furthestMove (motorsSince history) := by
  obtain ⟨connection, system, runs, connected, renewed⟩ :=
    exists_connection (realSystem_started steppingTflite false)
  obtain ⟨observation, system', handed, taken, connected, -, makes, call⟩ :=
    exists_frame_step (realPlatform steppingTflite) runs.sessionsHold connected 1 2
      stickFrame_length_le
  replace runs := runs.step taken
  obtain ⟨observation', system'', handed', taken', -, -, makes', call'⟩ :=
    exists_frame_step (realPlatform steppingTflite) runs.sessionsHold connected 1 2
      stickFrame_length_le
  replace runs := runs.step taken'
  obtain ⟨x, y, first, computed, answers, stepped⟩ := stickFrame_answers call
  obtain ⟨x', y', second, computed', answers', -⟩ := stickFrame_answers call'
  refine ⟨_, _, first, second, runs, ?_, fun k => ?_, motors_move_within realLibm_exact runs⟩
  · rw [motorsSince_concat _ rfl makes', motorsSince_concat _ rfl makes, computed, computed']
    rfl
  · -- the new controller has cleared the interpreter, which then predicts both ends of the range
    have fresh : system.process.motor.tensors = false := by
      rw [renewed]
      rfl
    rw [fresh] at answers
    rw [stepped] at answers'
    have initialised : motorInferenceInit steppingTflite realLibm false false =
        some (realSystem false).process.motor := rfl
    have filtered := (Filtered.initial initialised).reset steppingTflite ⟨none, none⟩
    obtain ⟨filteredNext, smooths⟩ := filtered.step (renewed ▸ answers)
    obtain ⟨-, low⟩ := smooths first rfl
    obtain ⟨-, high⟩ := (filteredNext.step answers').2 second rfl
    have bottom : smoothed (List.replicate kLpfStages lpfAlpha)
        [dequantize (-128) kOutputScale kOutputZeroPoint] = some (first.tendon k) := by
      rw [← lpfCoefficients_eq realLibm_exact]
      exact low k
    have top : smoothed (List.replicate kLpfStages lpfAlpha)
        [dequantize (-128) kOutputScale kOutputZeroPoint,
          dequantize 127 kOutputScale kOutputZeroPoint] = some (second.tendon k) := by
      rw [← lpfCoefficients_eq realLibm_exact]
      exact high k
    have range : (dequantize 127 kOutputScale kOutputZeroPoint : ℝ) -
        dequantize (-128) kOutputScale kOutputZeroPoint = outputRange := by
      have lowest : (-128 : Int8).toInt = -128 := rfl
      have highest : (127 : Int8).toInt = 127 := rfl
      rw [dequantize, dequantize, lowest, highest, kOutputZeroPoint, outputRange]
      push_cast
      ring
    rw [smoothed_pair, Option.some_inj, range] at top
    rw [← top, ← Option.some_inj.mp bottom]
    exact add_sub_cancel_left _ _

end ControllerBridge
