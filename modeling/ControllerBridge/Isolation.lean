/-
This file settles that a controller session does not see what came before it.

The state of the process is spread over the modules. A reset clears some of it
and hides the rest: the first and the previous sample of the motion history
behind a flag, the filter behind another, the bytes in the payload buffer and in
the session behind their lengths. `SameMotor` and `SameSession` relate two
states that agree on what is not hidden. Any two reachable states are so related
right after the session is established, and every fragment keeps the relation
and publishes the same payload on both sides.
-/

import ControllerBridge.FailOpen
import ControllerBridge.MotorFilter
import ControllerBridge.Reassembly

namespace ControllerBridge

open Region Machine

/-! ### What a session depends on -/

/-- Two motion histories agree on what the next window depends on. -/
structure SameHistory {Sample Double : Type} (first second : HistoryWindowBuilder Sample Double) :
    Prop where
  seqLen : first.seqLen = second.seqLen
  anchorDistance : first.anchorDistance = second.anchorDistance
  hist : first.hist = second.hist
  accumDist : first.accumDist = second.accumDist
  hasFirst : first.hasFirst = second.hasFirst
  samples : first.hasFirst = true →
    first.firstSample = second.firstSample ∧ first.prevSample = second.prevSample

theorem SameHistory.refl {Sample Double : Type} (history : HistoryWindowBuilder Sample Double) :
    SameHistory history history :=
  ⟨rfl, rfl, rfl, rfl, rfl, fun _ => ⟨rfl, rfl⟩⟩

/-- Two inference states agree on what the next inference depends on. -/
structure SameMotor {Double Variables : Type} (first second : MotorInference Double Variables) :
    Prop where
  tensors : first.tensors = second.tensors
  history : SameHistory first.history second.history
  coefficients : first.lpf.coefficients = second.lpf.coefficients
  lpfInitialized : first.lpfInitialized = second.lpfInitialized
  lpf : first.lpfInitialized = true → first.lpf = second.lpf

/-- The next sample makes histories that agree equal. -/
theorem SameHistory.start_eq {Sample Double : Type}
    {first second : HistoryWindowBuilder Sample Double} (same : SameHistory first second)
    (cur : Sample) : first.start cur = second.start cur := by
  obtain ⟨seqLen, anchorDistance, hist, firstSample, prevSample, accumDist, hasFirst⟩ := first
  obtain ⟨rfl, rfl, rfl, rfl, rfl, samples⟩ := same
  rw [HistoryWindowBuilder.start, HistoryWindowBuilder.start]
  split
  · rename_i seen
    obtain ⟨rfl, rfl⟩ := samples seen
    rfl
  · rfl

theorem SameHistory.build_eq {Sample Double : Type} [Add Double] [LE Double] [DecidableLE Double]
    [OfScientific Double] {first second : HistoryWindowBuilder Sample Double}
    (same : SameHistory first second) (distance : Sample → Sample → Double) (cur : Sample) :
    first.build distance cur = second.build distance cur := by
  rw [HistoryWindowBuilder.build, HistoryWindowBuilder.build, same.start_eq]

section

variable {Double Variables : Type}

theorem SameMotor.filterTendons [Add Double] [Sub Double] [Mul Double]
    {first second : MotorInference Double Variables}
    (same : SameMotor first second) (tendon : Fin kNumTendonMotors → Double) :
    SameMotor (filterTendons first tendon).1 (filterTendons second tendon).1 ∧
      (filterTendons first tendon).2 = (filterTendons second tendon).2 := by
  have filters : (if first.lpfInitialized then first.lpf else first.lpf.reset tendon) =
      if second.lpfInitialized then second.lpf else second.lpf.reset tendon := by
    rw [← same.lpfInitialized]
    split
    · rename_i seeded
      exact same.lpf seeded
    · exact CascadedEMA.reset_eq_of_coefficients same.coefficients tendon
  rw [ControllerBridge.filterTendons, ControllerBridge.filterTendons, filters]
  exact ⟨⟨same.tensors, same.history, rfl, rfl, fun _ => rfl⟩, rfl⟩

theorem SameMotor.filterOutput [Add Double] [Sub Double] [Mul Double] [OfScientific Double]
    [IntCast Double] {first second : MotorInference Double Variables}
    (same : SameMotor first second) (output : Option (Fin kNumTendonMotors → Int8)) :
    SameMotor (filterOutput first output).1 (filterOutput second output).1 ∧
      (filterOutput first output).2 = (filterOutput second output).2 := by
  cases output with
  | none => exact ⟨same, rfl⟩
  | some outData =>
    obtain ⟨filtered, outputs⟩ := same.filterTendons (tendonOutputs outData)
    refine ⟨filtered, ?_⟩
    rw [ControllerBridge.filterOutput, ControllerBridge.filterOutput]
    dsimp only
    rw [outputs]

theorem SameMotor.reset [OfScientific Double] (tflite : Tflite Variables)
    {first second : MotorInference Double Variables} (same : SameMotor first second) :
    SameMotor (motorInferenceReset tflite first) (motorInferenceReset tflite second) where
  tensors := congrArg tflite.resetVariableTensors same.tensors
  history := {
    seqLen := same.history.seqLen
    anchorDistance := same.history.anchorDistance
    hist := rfl
    accumDist := rfl
    hasFirst := rfl
    samples := nofun }
  coefficients := same.coefficients
  lpfInitialized := rfl
  lpf := nofun

/-- Two systems agree on what a controller session depends on. -/
structure SameSession (connection : Nat) (first second : System Double Variables) : Prop where
  motor : SameMotor first.process.motor second.process.motor
  samples : first.process.samples = second.process.samples
  delivered : first.lws.controllers connection = second.lws.controllers connection
  holdsFirst : SessionsHold first
  holdsSecond : SessionsHold second

/-- The events of controllers; those of clients are not seen. -/
def Event.isController : Event Double → Bool
  | .controller _ _ => true
  | _ => false

theorem SameSession.symm {connection : Nat} {first second : System Double Variables}
    (same : SameSession connection first second) : SameSession connection second first where
  motor := {
    tensors := same.motor.tensors.symm
    history := {
      seqLen := same.motor.history.seqLen.symm
      anchorDistance := same.motor.history.anchorDistance.symm
      hist := same.motor.history.hist.symm
      accumDist := same.motor.history.accumDist.symm
      hasFirst := same.motor.history.hasFirst.symm
      samples := fun seen =>
        have both := same.motor.history.samples (same.motor.history.hasFirst.trans seen)
        ⟨both.1.symm, both.2.symm⟩ }
    coefficients := same.motor.coefficients.symm
    lpfInitialized := same.motor.lpfInitialized.symm
    lpf := fun seeded => (same.motor.lpf (same.motor.lpfInitialized.trans seeded)).symm }
  samples := same.samples.symm
  delivered := same.delivered.symm
  holdsFirst := same.holdsSecond
  holdsSecond := same.holdsFirst

theorem request_deliver_controllers (lws : Lws) (connection : Nat)
    (reason : ControllerReason Double) (requested : Bool) :
    ((lws.deliver connection reason).request requested).controllers connection =
      lws.delivered connection reason := by
  rw [request_controllers]
  exact Function.update_self ..

theorem SameSession.fragments {connection : Nat} {first second : System Double Variables}
    (same : SameSession connection first second) :
    first.lws.fragments connection = second.lws.fragments connection := by
  rw [Lws.fragments, Lws.fragments, same.delivered]

/-- The callbacks of controllers along a history. -/
def controllerEvents (history : List (Event Double × Observation Double)) :
    List (Event Double) :=
  (history.map Prod.fst).filter Event.isController

theorem controllerEvents_eq (history : List (Event Double × Observation Double)) :
    controllerEvents history = (seen Event.isController history).map Prod.fst := by
  rw [controllerEvents, List.filter_map]
  rfl

end

section

variable {Double Variables : Type} [Sub Double] [Mul Double] [Neg Double] [OfScientific Double]

/-- A reset makes any two inference states with the same parameters agree. -/
theorem sameMotor_reset {libm : Libm Double} {tflite : Tflite Variables}
    (resets : ∀ first second : Variables,
      tflite.resetVariableTensors first = tflite.resetVariableTensors second)
    {first second : MotorInference Double Variables} (configured : Configured libm first)
    (configured' : Configured libm second) :
    SameMotor (motorInferenceReset tflite first)
      (motorInferenceReset tflite second) where
  tensors := resets _ _
  history := {
    seqLen := configured.seqLen.trans configured'.seqLen.symm
    anchorDistance := configured.anchorDistance.trans configured'.anchorDistance.symm
    hist := rfl
    accumDist := rfl
    hasFirst := rfl
    samples := nofun }
  coefficients := configured.coefficients.trans configured'.coefficients.symm
  lpfInitialized := rfl
  lpf := nofun

end

section

variable {Double Variables : Type} [Add Double] [Sub Double] [Mul Double] [Div Double]
  [Neg Double] [LT Double] [DecidableLT Double] [LE Double] [DecidableLE Double]
  [OfScientific Double]

theorem SameMotor.invokeModel (tflite : Tflite Variables) (libm : Libm Double)
    {first second : MotorInference Double Variables} (same : SameMotor first second)
    (joystickX joystickY : Double) :
    SameMotor (invokeModel tflite libm first joystickX joystickY).1
        (invokeModel tflite libm second joystickX joystickY).1 ∧
      (invokeModel tflite libm first joystickX joystickY).2 =
        (invokeModel tflite libm second joystickX joystickY).2 := by
  rw [ControllerBridge.invokeModel, ControllerBridge.invokeModel, same.history.build_eq,
    same.tensors]
  exact ⟨⟨rfl, .refl _, same.coefficients, same.lpfInitialized, same.lpf⟩, rfl⟩

variable [IntCast Double]

/-- Inference states that agree compute the same motor positions and agree afterwards. -/
theorem SameMotor.compute (tflite : Tflite Variables) (libm : Libm Double)
    {first second : MotorInference Double Variables} (same : SameMotor first second)
    (joystickX joystickY : Double) :
    SameMotor (motorInferenceCompute tflite libm first joystickX joystickY).1
        (motorInferenceCompute tflite libm second joystickX joystickY).1 ∧
      (motorInferenceCompute tflite libm first joystickX joystickY).2 =
        (motorInferenceCompute tflite libm second joystickX joystickY).2 := by
  obtain ⟨invoked, output⟩ := same.invokeModel tflite libm joystickX joystickY
  rw [motorInferenceCompute, motorInferenceCompute]
  dsimp only
  rw [output]
  exact invoked.filterOutput _

variable [NatCast Double] {platform : Platform Double Variables}

/-- In every reachable state the parameters are those of the start. -/
theorem Runs.configured {history : List (Event Double × Observation Double)}
    {system : System Double Variables} (runs : Runs platform history system) :
    Configured platform.libm system.process.motor := by
  refine runs.process_invariant (fun process => Configured platform.libm process.motor) ?_ ?_
    (fun _ configured => configured) ?_
  · intro start started
    obtain ⟨useNpu, tensors, initialised⟩ := started.motor
    exact (motorInferenceInit_configured initialised).1
  · exact fun _ configured => configured.reset platform.tflite
  · intro process frame receivedNtpTime forwardNtpTime process' forwarded _ configured run
    rw [bridgeServerForward_motor platform process frame _ _ run, frameInference]
    cases joystickValues platform.libc frame with
    | none => exact configured
    | some values => exact configured.compute platform.tflite values.1 values.2

/-! ### One callback on both sides -/

/-- Calls on the same frame with the same clock values, in processes that agree, publish the same
payload, and the processes agree afterwards. -/
theorem same_forward {first second first' second' : Process Double Variables}
    {forwarded forwarded' : Forwarded Double} (motor : SameMotor first.motor second.motor)
    (samples : first.samples = second.samples) {frame : List UInt8}
    {receivedNtpTime forwardNtpTime : Double}
    (run : bridgeServerForward platform first frame receivedNtpTime forwardNtpTime =
      .ok (first', forwarded))
    (run' : bridgeServerForward platform second frame receivedNtpTime forwardNtpTime =
      .ok (second', forwarded')) :
    SameMotor first'.motor second'.motor ∧ first'.samples = second'.samples ∧
      Handed.payload ⟨frame, forwarded⟩ first'.server =
        Handed.payload ⟨frame, forwarded'⟩ second'.server := by
  have inference : SameMotor (frameInference platform first frame).1
        (frameInference platform second frame).1 ∧
      (frameInference platform first frame).2 = (frameInference platform second frame).2 := by
    rw [frameInference, frameInference]
    cases joystickValues platform.libc frame with
    | none => exact ⟨motor, rfl⟩
    | some values => exact motor.compute platform.tflite platform.libm values.1 values.2
  have correction : frameCorrection platform first frame receivedNtpTime forwardNtpTime =
      frameCorrection platform second frame receivedNtpTime forwardNtpTime := by
    rw [frameCorrection, frameCorrection, samples]
  obtain ⟨stamp, rfl, rfl⟩ | ⟨stamped, payload, n, stamp, rfl, rfl, holds⟩ :=
    bridgeServerForward_cases platform first frame _ _ run
  · obtain ⟨-, rfl, rfl⟩ | ⟨_, _, _, stamp', -⟩ :=
      bridgeServerForward_cases platform second frame _ _ run'
    · exact ⟨inference.1, samples, rfl⟩
    · rw [stamp] at stamp'
      cases stamp'
  · obtain ⟨stamp', -⟩ | ⟨stamped', payload', n', stamp', rfl, rfl, holds'⟩ :=
      bridgeServerForward_cases platform second frame _ _ run'
    · rw [stamp] at stamp'
      cases stamp'
    · rw [stamp, Option.some_inj] at stamp'
      subst stamp'
      refine ⟨inference.1, congrArg Prod.fst correction, congrArg some ?_⟩
      have published : publishedFrame platform first frame receivedNtpTime forwardNtpTime stamped =
          publishedFrame platform second frame receivedNtpTime forwardNtpTime stamped := by
        rw [publishedFrame, publishedFrame, correction, inference.2]
      exact holds.reads.trans (published.trans holds'.reads.symm)

/-- The callbacks of clients change nothing a session depends on. -/
theorem sameSession_client {connection : Nat} {first second next : System Double Variables}
    {event : Event Double} {observation : Observation Double}
    (unseen : event.isController = false) (same : SameSession connection first second)
    (taken : Step platform first event next observation) :
    SameSession connection next second := by
  refine ⟨?_, ?_, ?_, sessionsHold_step same.holdsFirst taken, same.holdsSecond⟩ <;>
    cases taken <;> first
      | exact same.motor
      | exact same.samples
      | exact same.delivered
      | cases unseen

/-- A callback of the session's controller keeps two systems in agreement, and publishes the
same on both sides. -/
theorem sameSession_controller {connection : Nat} {reason : ControllerReason Double}
    {first second first' second' : System Double Variables}
    {observation observation' : Observation Double}
    (same : SameSession connection first second)
    (taken : Step platform first (.controller connection reason) first' observation)
    (taken' : Step platform second (.controller connection reason) second' observation') :
    SameSession connection first' second' ∧ observation.published = observation'.published := by
  have holdsFirst := sessionsHold_step same.holdsFirst taken
  have holdsSecond := sessionsHold_step same.holdsSecond taken'
  cases taken with
  | @controller _ _ process session handed permitted run =>
  cases taken' with
  | @controller _ _ process' session' handed' permitted' run' =>
  have delivered : first.lws.delivered connection reason =
      second.lws.delivered connection reason := by
    cases reason <;> simp only [Lws.delivered, same.fragments]
  have deliveredAfter := (request_deliver_controllers first.lws connection reason
    (handed.any fun call => call.requested)).trans (delivered.trans
      (request_deliver_controllers second.lws connection reason
        (handed'.any fun call => call.requested)).symm)
  cases reason with
  | established =>
    cases run
    cases run'
    exact ⟨⟨same.motor.reset platform.tflite, rfl, deliveredAfter, holdsFirst, holdsSecond⟩, rfl⟩
  | closed =>
    cases run
    cases run'
    exact ⟨⟨same.motor, same.samples, deliveredAfter, holdsFirst, holdsSecond⟩, rfl⟩
  | receive data firstFragment final receivedNtpTime forwardNtpTime =>
    have received := received_of_run same.holdsFirst permitted run
    have received' := received_of_run same.holdsSecond permitted' run'
    have frames := received.frame.trans (same.fragments ▸ received'.frame.symm)
    cases handed with
    | none =>
      cases handed' with
      | none =>
        obtain rfl := received.idle rfl
        obtain rfl := received'.idle rfl
        exact ⟨⟨same.motor, same.samples, deliveredAfter, holdsFirst, holdsSecond⟩, rfl⟩
      | some call' => cases frames
    | some call =>
      cases handed' with
      | none => cases frames
      | some call' =>
        obtain ⟨frame, forwarded⟩ := call
        obtain ⟨frame', forwarded'⟩ := call'
        obtain rfl : frame = frame' := Option.some.inj frames
        have forward := received.call ⟨frame, forwarded⟩ rfl
        have forward' := received'.call ⟨frame, forwarded'⟩ rfl
        obtain ⟨motor, samples, published⟩ :=
          same_forward same.motor same.samples forward forward'
        exact ⟨⟨motor, samples, deliveredAfter, holdsFirst, holdsSecond⟩, published⟩

/-- Right after a session is established, any two reachable systems agree. -/
theorem sameSession_established (resets : ∀ first second : Variables,
      platform.tflite.resetVariableTensors first = platform.tflite.resetVariableTensors second)
    {connection : Nat} {history history' : List (Event Double × Observation Double)}
    {first second first' second' : System Double Variables}
    {observation observation' : Observation Double} (runs : Runs platform history first)
    (runs' : Runs platform history' second)
    (taken : Step platform first (.controller connection .established) first' observation)
    (taken' : Step platform second (.controller connection .established) second' observation') :
    SameSession connection first' second' ∧ observation.published = observation'.published := by
  have holdsFirst := sessionsHold_step runs.sessionsHold taken
  have holdsSecond := sessionsHold_step runs'.sessionsHold taken'
  cases taken with
  | @controller _ _ process session handed permitted run =>
  cases taken' with
  | @controller _ _ process' session' handed' permitted' run' =>
  cases run
  cases run'
  refine ⟨⟨?_, rfl, ?_, holdsFirst, holdsSecond⟩, rfl⟩
  · exact sameMotor_reset resets runs.configured runs'.configured
  · exact (request_deliver_controllers first.lws connection
      (.established : ControllerReason Double) false).trans
        (request_deliver_controllers second.lws connection
          (.established : ControllerReason Double) false).symm

/-- Only controller callbacks publish. -/
theorem published_seen {start state : System Double Variables}
    {history : List (Event Double × Observation Double)}
    (run : Run (Step platform) start history state) :
    publishedPayloads history = publishedPayloads (seen Event.isController history) := by
  induction run with
  | start => rfl
  | step before taken inductionHypothesis =>
    rw [seen_append, publishedPayloads_append, publishedPayloads_append, inductionHypothesis]
    cases taken <;> rfl

/-- A session publishes the same payloads from any two reachable systems. In both it is
established and gets the same fragments with the same clock values, no other controller makes a
callback, and clients come and go in any way. -/
theorem session_isolated (resets : ∀ first second : Variables,
      platform.tflite.resetVariableTensors first = platform.tflite.resetVariableTensors second)
    {earlier earlier' : List (Event Double × Observation Double)}
    {first second first' second' : System Double Variables} (runs : Runs platform earlier first)
    (runs' : Runs platform earlier' second) {connection : Nat}
    {session session' : List (Event Double × Observation Double)}
    {observation observation' : Observation Double}
    (run : Run (Step platform) first
      ((.controller connection .established, observation) :: session) first')
    (run' : Run (Step platform) second
      ((.controller connection .established, observation') :: session') second')
    (alone : ∀ event ∈ controllerEvents session, ∃ reason, event = .controller connection reason)
    (sameEvents : controllerEvents session = controllerEvents session') :
    publishedPayloads session = publishedPayloads session' := by
  rw [controllerEvents_eq] at alone
  rw [controllerEvents_eq, controllerEvents_eq] at sameEvents
  obtain ⟨after, established, rest⟩ := run.head
  obtain ⟨after', established', rest'⟩ := run'.head
  obtain ⟨same, -⟩ := sameSession_established resets runs runs' established established'
  have silent : ∀ (state state' : System Double Variables) event next output,
      event.isController = false → SameSession connection state state' →
      Step platform state event next output → SameSession connection next state' :=
    fun _ _ _ _ _ unseen same taken => sameSession_client unseen same taken
  obtain ⟨-, agree⟩ := rest.lockstep (fun output output' => output.published = output'.published)
    Event.isController (fun event => ∃ reason, event = .controller connection reason) silent
    (fun _ _ _ _ _ unseen same taken => (sameSession_client unseen same.symm taken).symm)
    (fun _ _ _ _ _ _ _ _ ⟨_, controller⟩ same taken taken' => by
      subst controller
      exact sameSession_controller same taken taken')
    same rest' (fun entry member => alone _ (List.mem_map_of_mem member)) sameEvents
  rw [published_seen rest, published_seen rest', publishedPayloads, publishedPayloads]
  have lists : (seen Event.isController session).map (fun entry => entry.2.published) =
      (seen Event.isController session').map fun entry => entry.2.published := by
    rw [← List.forall₂_eq_eq_eq, List.forall₂_map_left_iff, List.forall₂_map_right_iff]
    exact List.forall₂_map_left_iff.mp (List.forall₂_map_right_iff.mp agree)
  have gathered := congrArg (List.filterMap id) lists
  rwa [List.filterMap_map, List.filterMap_map] at gathered

end

/-- A session of one message publishes the same after the start and after an earlier session. -/
theorem exampleSession_isolated : ∃ earlier second session session',
    earlier ≠ [] ∧ Runs examplePlatform earlier second ∧
    (∃ observation next, Run (Step examplePlatform) exampleSystem
      ((.controller 0 .established, observation) :: session) next) ∧
    (∃ observation next, Run (Step examplePlatform) second
      ((.controller 0 .established, observation) :: session') next) ∧
    controllerEvents session = fragmentEvents 0 0 0 true [tornFrame] ∧
    publishedPayloads session = publishedPayloads session' := by
  obtain ⟨observation, session, first', run, events, connected, -⟩ :=
    exists_session_run examplePlatform 0 0 0 [tornFrame] (List.cons_ne_nil _ _)
      exampleSystem_runs.sessionsHold rfl
  have runsFirst := exampleSystem_runs.append run
  obtain ⟨second, ended, closes, controllers, -⟩ :=
    exists_controller_step examplePlatform runsFirst.sessionsHold 0 .closed
      (by rw [Lws.Permits, connected]; exact nofun)
  have runsSecond := runsFirst.step closes
  have absent : second.lws.controllers 0 = none := by
    rw [controllers, Function.update_self]
    rfl
  obtain ⟨observation', session', second', run', events', -⟩ :=
    exists_session_run examplePlatform 0 0 0 [tornFrame] (List.cons_ne_nil _ _)
      runsSecond.sessionsHold absent
  have sent : controllerEvents session = fragmentEvents 0 0 0 true [tornFrame] := by
    rw [controllerEvents, events]
    rfl
  have sent' : controllerEvents session' = fragmentEvents 0 0 0 true [tornFrame] := by
    rw [controllerEvents, events']
    rfl
  refine ⟨_, second, session, session', List.append_ne_nil_of_right_ne_nil _
    (List.cons_ne_nil _ _), runsSecond, ⟨_, _, run⟩, ⟨_, _, run'⟩, sent, ?_⟩
  refine session_isolated (fun _ _ => rfl) exampleSystem_runs runsSecond run run' ?_
    (sent.trans sent'.symm)
  rw [sent]
  intro event member
  exact ⟨_, List.mem_singleton.mp member⟩

end ControllerBridge
