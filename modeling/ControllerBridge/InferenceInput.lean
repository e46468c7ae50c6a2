/-
This file settles what the interpreter is handed, in every state the process can
reach.

The motion history is state of the whole process, changed by frames and cleared
by connections. Along a run it is in step with the joystick positions of the
frames handed over since a controller connected last (`Runs.history_inStep`).
So the input tensor of the next inference is a function of these positions and
the new one: the window of their bends, each coordinate quantised to the nearest
value (`inference_input`). How many anchors the window has is bounded by the way
the joystick has gone since the connection (`anchors_of_path`).
-/

import ControllerBridge.Deflection
import ControllerBridge.HistoryWindow
import ControllerBridge.ReadBack
import ControllerBridge.Reassembly

namespace ControllerBridge

open HistoryWindowBuilder Retraction

/-! ### Positions since a connection -/

section

variable {Double : Type}

/-- The joystick position of the frame an event hands over. -/
def handedPosition (entry : Event Double × Observation Double) : Option (Double × Double) :=
  (forwardCall entry).bind fun call => call.handed.forwarded.joystick

/-- The joystick positions handed over since a controller connected last, oldest first. -/
def positionsSince (history : List (Event Double × Observation Double)) : List (Double × Double) :=
  sinceConnected handedPosition history

theorem positionsSince_concat (history : List (Event Double × Observation Double))
    {event : Event Double} {observation : Observation Double} {call : ForwardCall Double}
    (quiet : event.connects = false) (makes : forwardCall (event, observation) = some call) :
    positionsSince (history ++ [(event, observation)]) =
      positionsSince history ++ call.handed.forwarded.joystick.toList := by
  rw [positionsSince, sinceConnected_concat, quiet, if_neg Bool.false_ne_true, handedPosition,
    makes]
  rfl

end

section

variable {Double Variables : Type} [Add Double] [Sub Double] [Mul Double] [Div Double]
  [Neg Double] [LT Double] [DecidableLT Double] [LE Double] [DecidableLE Double]
  [OfScientific Double] [NatCast Double] [IntCast Double]
  {platform : Platform Double Variables}

/-- The motion history after the inference for a position. -/
def historyAfter (libm : Libm Double)
    (builder : HistoryWindowBuilder (Double × Double) Double) :
    Option (Double × Double) → HistoryWindowBuilder (Double × Double) Double
  | none => builder
  | some (x, y) => (builder.build (planeDistance libm) (motionSample libm x y)).1

omit [NatCast Double] in
theorem inferMotor_history (motor : MotorInference Double Variables)
    (joystick : Option (Double × Double)) :
    (inferMotor platform motor joystick).1.history =
      historyAfter platform.libm motor.history joystick := by
  cases joystick with
  | none => rfl
  | some position =>
    obtain ⟨x, y⟩ := position
    unfold inferMotor motorInferenceCompute filterOutput
    dsimp only
    cases (invokeModel platform.tflite platform.libm motor x y).2 <;> rfl

/-- A step clears the motion history for a new controller, and otherwise adds the position of the
frame it hands over, if the frame has one. -/
theorem history_of_step {system next : System Double Variables} {event : Event Double}
    {observation : Observation Double} (sessionsHold : SessionsHold system)
    (taken : Step platform system event next observation) :
    next.process.motor.history =
      if event.connects then system.process.motor.history.reset
      else historyAfter platform.libm system.process.motor.history
        (handedPosition (event, observation)) := by
  obtain ⟨connects, -, process⟩ | ⟨connects, ⟨call, makes, run⟩ | ⟨idle, server, process⟩⟩ :=
    process_of_step sessionsHold taken
  · rw [connects, if_pos rfl, process]
    rfl
  · have position : handedPosition (event, observation) = call.handed.forwarded.joystick := by
      unfold handedPosition
      rw [makes]
      rfl
    rw [connects, if_neg Bool.false_ne_true, position,
      (bridgeServerForward_reports _ _ _ _ _ run).1,
      bridgeServerForward_motor platform system.process call.handed.frame _ _ run,
      frameInference, inferMotor_history]
  · have position : handedPosition (event, observation) = none := by
      unfold handedPosition
      rw [idle]
      rfl
    rw [connects, if_neg Bool.false_ne_true, position, process]
    rfl

end

/-! ### The motion history along a run -/

section

variable {Variables : Type} {platform : Platform ℝ Variables}
  {history : List (Event ℝ × Observation ℝ)} {system : System ℝ Variables}

/-- The bends of some positions, numbered. -/
noncomputable def bends (positions : List (ℝ × ℝ)) (index : ℕ) : ℂ :=
  let position := positions.getD index (0, 0)
  bend position.1 position.2

/-- A point of the plane as a sample of the motion history. -/
def sample (place : ℂ) : ℝ × ℝ := (place.re, place.im)

theorem planeDistance_sample {libm : Libm ℝ} (exact : ExactLibm libm) (first second : ℂ) :
    planeDistance libm (sample first) (sample second) = dist first second := by
  unfold planeDistance sample
  rw [exact.sqrt, dist_comm, Complex.dist_eq_re_im]
  ring_nf

theorem planeDistance_self {libm : Libm ℝ} (exact : ExactLibm libm) (place : ℝ × ℝ) :
    planeDistance libm place place = 0 :=
  (planeDistance_sample exact ⟨place.1, place.2⟩ ⟨place.1, place.2⟩).trans (dist_self _)

theorem kAnchorDistance_pos : (0 : ℝ) < kAnchorDistance := by
  unfold kAnchorDistance
  norm_num

/-- The builder is in step with the bends of some positions. -/
def HistoryInStep (libm : Libm ℝ) (positions : List (ℝ × ℝ))
    (builder : HistoryWindowBuilder (ℝ × ℝ) ℝ) : Prop :=
  ∀ p : ℕ → ℂ, positions.map (fun position => bend position.1 position.2) =
      (List.range positions.length).map p →
    InStep kSeqLen kAnchorDistance (planeDistance libm) (fun index => sample (p index))
      positions.length builder

theorem HistoryInStep.build {libm : Libm ℝ} (exact : ExactLibm libm)
    {positions : List (ℝ × ℝ)} {builder : HistoryWindowBuilder (ℝ × ℝ) ℝ}
    (inStep : HistoryInStep libm positions builder) (x y : ℝ) :
    HistoryInStep libm (positions ++ [(x, y)])
      (builder.build (planeDistance libm) (motionSample libm x y)).1 := by
  intro p numbered
  rw [List.length_append, List.length_singleton] at numbered ⊢
  rw [List.range_succ, List.map_append, List.map_append, List.map_singleton,
    List.map_singleton] at numbered
  obtain ⟨before, current⟩ := List.append_inj' numbered rfl
  have new : motionSample libm x y = sample (p positions.length) := by
    rw [motionSample_eq exact, ← List.singleton_inj.mp current]
    rfl
  rw [new]
  exact ((inStep p before).build (planeDistance_self exact) kAnchorDistance_pos).1

/-- In every reachable state the motion history is in step with the positions since the
connection. -/
theorem Runs.historyInStep (exact : ExactLibm platform.libm)
    (runs : Runs platform history system) :
    HistoryInStep platform.libm (positionsSince history) system.process.motor.history := by
  refine (runs.invariant (fun (history : List (Event ℝ × Observation ℝ))
      (system : System ℝ Variables) => SessionsHold system ∧
        HistoryInStep platform.libm (positionsSince history) system.process.motor.history)
    (fun start started => ⟨Runs.sessionsHold ⟨start, started, .start⟩, fun p _ => ?_⟩) ?_).2
  · obtain ⟨useNpu, tensors, initialised⟩ := started.motor
    have fresh : start.process.motor.history =
        HistoryWindowBuilder.create (0.0, 0.0) kSeqLen kAnchorDistance := by
      unfold motorInferenceInit at initialised
      dsimp only at initialised
      split at initialised
      · obtain ⟨_, _, same⟩ := Option.map_eq_some_iff.mp initialised
        rw [← same]
      · rw [← Option.some_inj.mp initialised]
    rw [fresh]
    exact .nil rfl rfl rfl rfl rfl kAnchorDistance_pos
  · rintro history system event next observation ⟨sessionsHold, inStep⟩ taken
    refine ⟨sessionsHold_step sessionsHold taken, ?_⟩
    rw [history_of_step sessionsHold taken, positionsSince, sinceConnected_concat]
    by_cases connects : event.connects
    · rw [if_pos connects, if_pos connects]
      intro p _
      obtain ⟨before, numbered⟩ := exists_sequence 0
        ((positionsSince history).map fun position => bend position.1 position.2)
      rw [List.length_map] at numbered
      have inStep := inStep before numbered
      exact .nil inStep.sameLen inStep.sameDistance rfl rfl rfl kAnchorDistance_pos
    · rw [if_neg connects, if_neg connects]
      cases handedPosition (event, observation) with
      | none =>
        rw [Option.toList_none, List.append_nil]
        exact inStep
      | some position => exact inStep.build exact position.1 position.2

/-! ### What the interpreter is handed -/

/-- The window of some positions: the bends of the last anchors, and of the last position. -/
noncomputable def bendWindow (positions : List (ℝ × ℝ)) : List ℂ :=
  arcWindow kSeqLen kAnchorDistance dist (bends positions) (positions.length - 1)

theorem map_bend_eq (positions rest : List (ℝ × ℝ)) :
    positions.map (fun position => bend position.1 position.2) =
      (List.range positions.length).map (bends (positions ++ rest)) := by
  refine List.ext_getElem (by simp) fun index inside _ => ?_
  rw [List.length_map] at inside
  rw [List.getElem_map, List.getElem_map, List.getElem_range]
  unfold bends
  rw [List.getD_eq_getElem?_getD, List.getElem?_append_left inside,
    List.getElem?_eq_getElem inside, Option.getD_some]

theorem abs_bends_le (positions : List (ℝ × ℝ)) {place : ℂ}
    (member : place ∈ bendWindow positions) : |place.re| ≤ 90 ∧ |place.im| ≤ 90 := by
  obtain ⟨index, -, rfl⟩ := mem_arcWindow member
  exact abs_bend_le _ _

/-- The window the history gives for a new position. -/
theorem window_eq (exact : ExactLibm platform.libm) (runs : Runs platform history system)
    (joystickX joystickY : ℝ) :
    (system.process.motor.history.build (planeDistance platform.libm)
        (motionSample platform.libm joystickX joystickY)).2 =
      (bendWindow (positionsSince history ++ [(joystickX, joystickY)])).map sample := by
  have inStep := runs.historyInStep exact _
    (map_bend_eq (positionsSince history) [(joystickX, joystickY)])
  have new : motionSample platform.libm joystickX joystickY =
      sample (bends (positionsSince history ++ [(joystickX, joystickY)])
        (positionsSince history).length) := by
    unfold bends
    rw [motionSample_eq exact, List.getD_eq_getElem?_getD, List.getElem?_concat_length]
    rfl
  rw [new, (inStep.build (planeDistance_self exact) kAnchorDistance_pos).2, bendWindow,
    List.length_append, List.length_singleton, Nat.add_sub_cancel]
  exact arcWindow_map (planeDistance_sample exact) _ _ _

/-- In every reachable state the next inference is run on the window of the bends of the positions
since a controller connected last: every coordinate, computed without an overflow, is given by the
number that stands for the nearest value. -/
theorem inference_input (exact : ExactLibm platform.libm) (runs : Runs platform history system)
    (joystickX joystickY : ℝ) :
    ∃ tensor : List Int8,
      List.Forall₂ (fun value q => Fits platform.libm value ∧ Quantised value q)
        ((bendWindow (positionsSince history ++ [(joystickX, joystickY)])).flatMap
          fun place => [place.re, place.im]) tensor ∧
      tensor.length = kSeqLen * 2 ∧
      (invokeModel platform.tflite platform.libm system.process.motor joystickX joystickY).2 =
        (platform.tflite.invoke system.process.motor.tensors tensor).2 := by
  have length : (bendWindow (positionsSince history ++ [(joystickX, joystickY)])).length =
      kSeqLen := arcWindow_length (by decide)
  refine ⟨(bendWindow (positionsSince history ++ [(joystickX, joystickY)])).flatMap fun place =>
    [quantize platform.libm place.re kInputScale kInputZeroPoint,
      quantize platform.libm place.im kInputScale kInputZeroPoint], ?_, ?_, ?_⟩
  · have places : List.Forall₂ (fun place place' => place = place' ∧
        place ∈ bendWindow (positionsSince history ++ [(joystickX, joystickY)]))
        (bendWindow (positionsSince history ++ [(joystickX, joystickY)]))
        (bendWindow (positionsSince history ++ [(joystickX, joystickY)])) :=
      List.forall₂_same.mpr fun place member => ⟨rfl, member⟩
    refine List.rel_flatMap places ?_
    rintro place _ ⟨rfl, member⟩
    obtain ⟨re, im⟩ := abs_bends_le _ member
    exact .cons (quantised_of_abs_le exact re) (.cons (quantised_of_abs_le exact im) .nil)
  · rw [List.length_flatMap]
    change (List.map (fun _ => 2) _).sum = _
    rw [List.map_const', List.sum_replicate, length, smul_eq_mul]
  · unfold invokeModel inputTensor
    dsimp only
    rw [window_eq exact runs, List.take_of_length_le (by rw [List.length_map, length]),
      List.flatMap_map]
    rfl

/-! ### The way of the joystick -/

/-- The length of the way of the joystick along some positions. -/
noncomputable def joystickWay (positions : List (ℝ × ℝ)) : ℝ :=
  way dist (fun index => (⟨(positions.getD index (0, 0)).1, (positions.getD index (0, 0)).2⟩ : ℂ))
    0 (positions.length - 1)

theorem way_bends_le (positions : List (ℝ × ℝ)) :
    way dist (bends positions) 0 (positions.length - 1) ≤ 90 * joystickWay positions := by
  unfold joystickWay way
  rw [Finset.mul_sum]
  exact Finset.sum_le_sum fun _ _ => dist_bend_le _ _ _ _

/-- In every reachable state the motion history holds anchors for at most the way the joystick has
gone since a controller connected last, ninety degrees for each unit. -/
theorem anchors_of_path (exact : ExactLibm platform.libm) (runs : Runs platform history system) :
    system.process.motor.history.hist.length * kAnchorDistance ≤
      90 * joystickWay (positionsSince history) := by
  have numbered := map_bend_eq (positionsSince history) []
  rw [List.append_nil] at numbered
  have inStep := runs.historyInStep exact _ numbered
  have kept : system.process.motor.history.hist.length ≤
      (anchors kAnchorDistance dist (bends (positionsSince history))
        (positionsSince history).length).length := by
    rw [inStep.hist, List.length_map, lastAnchors, anchors_map (planeDistance_sample exact),
      List.rtake, List.length_drop]
    exact Nat.sub_le _ _
  have parts := anchors_length_mul_le kAnchorDistance dist_self
    (bends (positionsSince history)) (positionsSince history).length
  have ahead : 0 ≤ way dist (bends (positionsSince history))
      ((anchors kAnchorDistance dist (bends (positionsSince history))
        (positionsSince history).length).getLastD 0) ((positionsSince history).length - 1) :=
    Finset.sum_nonneg fun _ _ => dist_nonneg
  calc (system.process.motor.history.hist.length : ℝ) * kAnchorDistance
      ≤ (anchors kAnchorDistance dist (bends (positionsSince history))
          (positionsSince history).length).length * kAnchorDistance :=
        mul_le_mul_of_nonneg_right (Nat.cast_le.mpr kept) kAnchorDistance_pos.le
    _ ≤ way dist (bends (positionsSince history)) 0 ((positionsSince history).length - 1) := by
        linarith
    _ ≤ 90 * joystickWay (positionsSince history) := way_bends_le _

end

/-! ### A frame on the way -/

/-- Decimals of reals are decimals of rationals; a number is printed as a decimal nearest to it. -/
noncomputable def realLibc : Libc ℝ where
  strtod := fun text => (Decimal.parse text : ℚ)
  printf := fun places value =>
    some (Decimal.fixed places (round (value * 10 ^ places) / 10 ^ places))

noncomputable def realPlatform {Variables : Type} (tflite : Tflite Variables) :
    Platform ℝ Variables := ⟨realLibc, realLibm, tflite⟩

/-- The process as it starts without an accelerator. -/
noncomputable def realSystem {Variables : Type} (tensors : Variables) : System ℝ Variables where
  process := {
    motor := {
      tensors
      history := HistoryWindowBuilder.create (0.0, 0.0) kSeqLen kAnchorDistance
      lpf := CascadedEMA.create realLibm kNumTendonMotors kControlTs kLpfFc kLpfStages
      lpfInitialized := false }
    samples := []
    stats := .initial
    logOpen := false
    server := bridgeServerStart (.zeroed maxBridgedFrameLen) }
  sessions := fun _ => ⟨.zeroed maxControllerFrameLen, 0⟩
  lws := .idle

theorem realSystem_started {Variables : Type} (tflite : Tflite Variables) (tensors : Variables) :
    Started (realPlatform tflite) (realSystem tensors) where
  motor := ⟨false, tensors, rfl⟩
  samples := rfl
  stats := rfl
  server := ⟨_, rfl⟩
  idle := rfl

def stickFrame : List UInt8 := ascii "\x7b\"joystick_x\":0.5,\"joystick_y\":-4\x7d"

theorem stickFrame_length_le : stickFrame.length ≤ maxControllerFrameLen := by decide

/-- The input for a next position outside the square, after one frame. -/
theorem stickFrame_input : ∃ history system call,
    Runs (realPlatform exampleTflite) history system ∧
    forwardCalls history = [call] ∧ call.handed.frame = stickFrame ∧
    ∃ tensor : List Int8,
      List.Forall₂ (fun value q => Fits realLibm value ∧ Quantised value q)
        ((bendWindow (positionsSince history ++ [(3, -4)])).flatMap
          fun place => [place.re, place.im]) tensor ∧
      tensor.length = kSeqLen * 2 ∧
      (invokeModel exampleTflite realLibm system.process.motor 3 (-4)).2 =
        (exampleTflite.invoke system.process.motor.tensors tensor).2 := by
  obtain ⟨history, system, call, runs, calls, frame, -⟩ :=
    exists_frame_run (realSystem_started exampleTflite 0) 1 2 stickFrame_length_le
  exact ⟨history, system, call, runs, calls, frame, inference_input realLibm_exact runs 3 (-4)⟩

/-- The joystick at rest, and pushed to the right. -/
def restFrame : List UInt8 := ascii "\x7b\"joystick_x\":0,\"joystick_y\":0\x7d"

def rightFrame : List UInt8 := ascii "\x7b\"joystick_x\":1,\"joystick_y\":0\x7d"

theorem readSpan_real {span : List UInt8} {value : ℚ}
    (parsed : Decimal.parse (span.take 63) = value) : readSpan realLibc span = value :=
  congrArg Rat.cast parsed

theorem restFrame_values : joystickValues realLibc restFrame = some (0, 0) := by
  have zero : Decimal.parse ((ascii "0").take 63) = 0 := by decide +kernel
  rw [joystickValues_of_spanAfter (x := ascii "0") (y := ascii "0") (by decide) (by decide)
    (by decide +kernel) (by decide +kernel), readSpan_real zero, Rat.cast_zero]

theorem rightFrame_values : joystickValues realLibc rightFrame = some (1, 0) := by
  have zero : Decimal.parse ((ascii "0").take 63) = 0 := by decide +kernel
  have one : Decimal.parse ((ascii "1").take 63) = 1 := by decide +kernel
  rw [joystickValues_of_spanAfter (x := ascii "1") (y := ascii "0") (by decide) (by decide)
    (by decide +kernel) (by decide +kernel), readSpan_real one, readSpan_real zero, Rat.cast_one,
    Rat.cast_zero]

/-- From rest to the right the bend goes through ninety degrees. -/
theorem dist_bend_right : dist (bend 0 0) (bend 1 0) = 90 := by
  have origin : stick 0 0 = 0 := by
    rw [stick]
    norm_num [Complex.ext_iff]
  have unit : stick 1 0 = 1 := by
    rw [stick]
    norm_num [Complex.ext_iff]
  rw [bend, bend, origin, unit, retract_of_norm_le (by simp), retract_of_norm_le (by simp),
    dist_smul₀, dist_zero_left]
  norm_num

/-- The way to the right is an anchor. -/
theorem anchors_right : anchors kAnchorDistance dist (bends [(0, 0), (1, 0)]) 2 = [1] := by
  have here : way dist (bends [(0, 0), (1, 0)]) 0 0 = 0 := way_self 0
  have there : way dist (bends [(0, 0), (1, 0)]) 0 1 = 90 := by
    have step := way_step (p := bends [(0, 0), (1, 0)]) (n := 1) dist_self (Nat.zero_le 0)
    rw [step, Nat.sub_self, here, zero_add]
    exact dist_bend_right
  have rest : anchors kAnchorDistance dist (bends [(0, 0), (1, 0)]) 1 = [] := by
    rw [anchors, anchors]
    exact if_neg (here ▸ kAnchorDistance_pos.not_ge)
  rw [anchors, rest]
  refine if_pos ?_
  rw [List.getLastD_nil, there, kAnchorDistance]
  norm_num

/-- The anchor of a push to the right after the joystick was at rest. -/
theorem pushedStick_anchors : ∃ history system,
    Runs (realPlatform exampleTflite) history system ∧
    positionsSince history = [(0, 0), (1, 0)] ∧
    system.process.motor.history.hist.length = 1 ∧
    system.process.motor.history.hist.length * kAnchorDistance ≤
      90 * joystickWay (positionsSince history) := by
  obtain ⟨connection, system, runs, connected, -⟩ :=
    exists_connection (realSystem_started exampleTflite 0)
  obtain ⟨observation, system', handed, taken, connected, -, makes, call⟩ :=
    exists_frame_step (realPlatform exampleTflite) runs.sessionsHold connected 1 2
      (show restFrame.length ≤ maxControllerFrameLen by decide)
  replace runs := runs.step taken
  obtain ⟨observation', system'', handed', taken', -, -, makes', call'⟩ :=
    exists_frame_step (realPlatform exampleTflite) runs.sessionsHold connected 3 4
      (show rightFrame.length ≤ maxControllerFrameLen by decide)
  replace runs := runs.step taken'
  have rest : handed.forwarded.joystick = some (0, 0) :=
    (bridgeServerForward_reports _ _ _ _ _ call).1.trans restFrame_values
  have right : handed'.forwarded.joystick = some (1, 0) :=
    (bridgeServerForward_reports _ _ _ _ _ call').1.trans rightFrame_values
  have positions : positionsSince ([(.controller 0 .established, connection)] ++
      [(frameEvent restFrame 1 2, observation)] ++ [(frameEvent rightFrame 3 4, observation')]) =
        [(0, 0), (1, 0)] := by
    rw [positionsSince_concat _ rfl makes', positionsSince_concat _ rfl makes, rest, right]
    rfl
  have exact : ExactLibm (realPlatform exampleTflite).libm := realLibm_exact
  have inStep := runs.historyInStep exact
  rw [positions] at inStep
  have numbered := map_bend_eq [(0, 0), (1, 0)] []
  rw [List.append_nil] at numbered
  refine ⟨_, system'', runs, positions, ?_, anchors_of_path exact runs⟩
  rw [(inStep _ numbered).hist, List.length_map, lastAnchors,
    anchors_map (planeDistance_sample exact)]
  exact congrArg (fun kept : List ℕ => (kept.rtake (kSeqLen - 1)).length) anchors_right

end ControllerBridge
