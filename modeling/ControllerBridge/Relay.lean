/-
This file says what the bridge is for, and proves that the process does it and
nothing else.

A relay has no memory to splice texts in. It knows the fragments of the messages
under way, the payload published last, which clients have yet to be written it,
and what the computed fields depend on. A callback is answered with the frame
handed over, the payload published, the numbers printed and logged, and the
bytes written. The process keeps the same things in byte buffers with lengths,
in a flag for the protocol and in sessions that are edited in place
(`Represents`). The two have the same traces from every start.
-/

import ControllerBridge.IcuDelivery

namespace ControllerBridge

open Region Machine

/-! ### The relay -/

/-- What the relay knows: for a controller that is connected the fragments of its message under
way, and for a client whether it has yet to be written the latest payload, which is empty before
any. -/
structure Relay (Double Variables : Type) where
  motor : MotorInference Double Variables
  samples : Samples Double
  stats : FrameStats Double
  logOpen : Bool
  latest : List UInt8
  controllers : Nat → Option (List (List UInt8))
  clients : Nat → Option Bool

/-- What is seen of a callback from outside: the frame handed over, the payload published, the
report printed, the row logged, and the bytes written to the client. -/
structure Shown (Double : Type) where
  handed : Option (List UInt8)
  published : Option (List UInt8)
  report : Option (StatReport Double)
  row : Option (LogRow Double)
  written : Option (List UInt8)

def Shown.nothing {Double : Type} : Shown Double := ⟨none, none, none, none, none⟩

section

variable {Double Variables : Type}

/-- What an observation shows. -/
def Observation.shown (observation : Observation Double) : Shown Double :=
  let record := observation.handed.bind fun call => call.forwarded.published
  { handed := observation.handed.map Handed.frame
    published := observation.published
    report := record.bind Published.report
    row := record.bind Published.row
    written := observation.written }

namespace Relay

/-- The relay with the state of one controller connection set. -/
def setController (relay : Relay Double Variables) (connection : Nat)
    (fragments : Option (List (List UInt8))) : Relay Double Variables :=
  { relay with controllers := Function.update relay.controllers connection fragments }

/-- The relay with the state of one client set. -/
def setClient (relay : Relay Double Variables) (client : Nat) (waiting : Option Bool) :
    Relay Double Variables :=
  { relay with clients := Function.update relay.clients client waiting }

variable [Add Double] [Sub Double] [Mul Double] [Div Double] [Neg Double] [LT Double]
  [DecidableLT Double] [LE Double] [DecidableLE Double] [OfScientific Double] [NatCast Double]
  [IntCast Double]

variable (platform : Platform Double Variables)

/-- A frame is relayed to every client that is connected, unless it cannot be stamped. -/
def forward (relay : Relay Double Variables) (frame : List UInt8)
    (receivedNtpTime forwardNtpTime : Double) : Relay Double Variables × Shown Double :=
  let joystick := joystickValues platform.libc frame
  let (motorState, motor) := inferMotor platform relay.motor joystick
  match stampText platform.libc maxBridgedFrameLen frame receivedNtpTime forwardNtpTime with
  | none => ({ relay with motor := motorState }, { Shown.nothing with handed := some frame })
  | some stamped =>
    let (transfer, processing) :=
      (stampTimes platform.libc frame receivedNtpTime forwardNtpTime).getD (0.0, 0.0)
    let (stats, report) :=
      frameStatsRecord platform.libm.dblMax relay.stats transfer processing
    let (samples, corrected) := clockOffsetCorrect relay.samples transfer receivedNtpTime
    let payload :=
      publishedText platform.libc maxBridgedFrameLen corrected joystick motor stamped
    ({ relay with
      motor := motorState
      samples := samples
      stats := stats
      latest := payload
      clients := fun client => (relay.clients client).map fun _ => true }, {
      handed := some frame
      published := some payload
      report := report
      row := timingLogRecord relay.logOpen receivedNtpTime transfer corrected processing
      written := none })

/-- The answer to a callback, if it is one that may be made. -/
def answer (relay : Relay Double Variables) :
    Event Double → Option (Relay Double Variables × Shown Double)
  | .controller connection .established =>
    match relay.controllers connection with
    | some _ => none
    | none =>
      some ({ relay.setController connection (some []) with
        motor := motorInferenceReset platform.tflite relay.motor
        samples := clockOffsetReset }, .nothing)
  | .controller connection (.receive data first final receivedNtpTime forwardNtpTime) =>
    match relay.controllers connection with
    | none => none
    | some fragments =>
      if first = fragments.isEmpty then
        if final then
          let relay := relay.setController connection (some [])
          match handedText (fragments ++ [data]) with
          | none => some (relay, .nothing)
          | some frame => some (relay.forward platform frame receivedNtpTime forwardNtpTime)
        else some (relay.setController connection (some (fragments ++ [data])), .nothing)
      else none
  | .controller connection .closed =>
    match relay.controllers connection with
    | none => none
    | some _ => some (relay.setController connection none, .nothing)
  | .icuEstablished client =>
    match relay.clients client with
    | some _ => none
    | none => some (relay.setClient client (some false), .nothing)
  | .icuWriteable client _ =>
    match relay.clients client with
    | some true =>
      some (relay.setClient client (some false), {
        Shown.nothing with written := if relay.latest = [] then none else some relay.latest })
    | _ => none
  | .icuClosed client =>
    match relay.clients client with
    | none => none
    | some _ => some (relay.setClient client none, .nothing)

/-- The steps of the relay. -/
def Step (relay : Relay Double Variables) (event : Event Double)
    (next : Relay Double Variables) (shown : Shown Double) : Prop :=
  relay.answer platform event = some (next, shown)

end Relay

/-! ### The process as a relay -/

/-- The process with its connections keeps what a relay knows. -/
structure Represents (system : System Double Variables) (relay : Relay Double Variables) :
    Prop where
  motor : system.process.motor = relay.motor
  samples : system.process.samples = relay.samples
  stats : system.process.stats = relay.stats
  logOpen : system.process.logOpen = relay.logOpen
  latest : Holds system.process.server.payload system.process.server.payloadLen relay.latest
  controllers : system.lws.controllers = relay.controllers
  clients : system.lws.clients = relay.clients
  protocol : ∀ client, relay.clients client ≠ none → system.process.server.protocol = true
  sessions : SessionsHold system

/-- A publication asks for every client that is connected, whether or not there is a protocol. -/
theorem Represents.request_clients {system : System Double Variables}
    {relay : Relay Double Variables} (represents : Represents system relay) :
    (system.lws.request system.process.server.protocol).clients =
      fun client => (relay.clients client).map fun _ => true := by
  funext client
  rw [ControllerBridge.request_clients, represents.clients]
  by_cases known : system.process.server.protocol = true
  · rw [if_pos known]
  · rw [if_neg known]
    have absent : relay.clients client = none := by
      by_contra connected
      exact known (represents.protocol client connected)
    rw [absent, Option.map_none]

/-- A controller callback delivered to the process is a controller set in the relay. -/
theorem Represents.deliver {system : System Double Variables} {relay : Relay Double Variables}
    (represents : Represents system relay) (connection : Nat)
    (reason : ControllerReason Double) {sessions : Nat → ControllerSession}
    (holds : SessionsHold (⟨system.process, sessions, system.lws.deliver connection reason⟩ :
      System Double Variables)) :
    Represents ⟨system.process, sessions, system.lws.deliver connection reason⟩
      (relay.setController connection (system.lws.delivered connection reason)) := by
  refine ⟨represents.motor, represents.samples, represents.stats, represents.logOpen,
    represents.latest, ?_, represents.clients, represents.protocol, holds⟩
  unfold Lws.deliver Relay.setController
  rw [represents.controllers]

/-- A client set in the process is a client set in the relay, once there is a protocol. -/
theorem Represents.setClient {system : System Double Variables} {relay : Relay Double Variables}
    (represents : Represents system relay) (server : BridgeServer)
    (payload : server.payload = system.process.server.payload)
    (payloadLen : server.payloadLen = system.process.server.payloadLen)
    (keeps : system.process.server.protocol = true → server.protocol = true) (client : Nat)
    {waiting : Option Bool} (known : waiting ≠ none → server.protocol = true) :
    Represents ⟨{ system.process with server := server }, system.sessions,
        system.lws.setClient client waiting⟩ (relay.setClient client waiting) := by
  refine ⟨represents.motor, represents.samples, represents.stats, represents.logOpen, ?_,
    represents.controllers, ?_, ?_, represents.sessions⟩
  · dsimp only
    rw [payload, payloadLen]
    exact represents.latest
  · unfold Lws.setClient Relay.setClient
    rw [represents.clients]
  · intro other connected
    unfold Relay.setClient at connected
    dsimp only at connected
    rw [Function.update_apply] at connected
    split at connected
    · exact known connected
    · exact keeps (represents.protocol other connected)

variable [Add Double] [Sub Double] [Mul Double] [Div Double] [Neg Double] [LT Double]
  [DecidableLT Double] [LE Double] [DecidableLE Double] [OfScientific Double] [NatCast Double]
  [IntCast Double]

/-- The relay at the start of a process. -/
def Relay.start (process : Process Double Variables) : Relay Double Variables where
  motor := process.motor
  samples := []
  stats := .initial
  logOpen := process.logOpen
  latest := []
  controllers := fun _ => none
  clients := fun _ => none

variable {platform : Platform Double Variables}

theorem represents_start {system : System Double Variables} (started : Started platform system) :
    Represents system (Relay.start system.process) := by
  obtain ⟨payload, server⟩ := started.server
  refine ⟨rfl, started.samples, started.stats, rfl, ?_, ?_, ?_, fun _ => absurd rfl,
    Runs.sessionsHold ⟨system, started, .start⟩⟩
  · rw [server]
    exact ⟨Nat.zero_le _, rfl⟩
  · rw [started.idle]
    rfl
  · rw [started.idle]
    rfl

section

variable {system : System Double Variables} {relay : Relay Double Variables}
  {frame : List UInt8} {receivedNtpTime forwardNtpTime : Double}

/-- The relay drops what the process drops. -/
theorem Represents.forward_dropped (represents : Represents system relay)
    (dropped : stampedFrame platform frame receivedNtpTime forwardNtpTime = none) :
    relay.forward platform frame receivedNtpTime forwardNtpTime =
      ({ relay with motor := (frameInference platform system.process frame).1 },
        { Shown.nothing with handed := some frame }) := by
  rw [stampedFrame] at dropped
  unfold Relay.forward
  rw [dropped, ← represents.motor]
  rfl

/-- The relay publishes what the process publishes. -/
theorem Represents.forward_published (represents : Represents system relay)
    {stamped : List UInt8}
    (stamp : stampedFrame platform frame receivedNtpTime forwardNtpTime = some stamped) :
    let payload := publishedFrame platform system.process frame receivedNtpTime forwardNtpTime
      stamped
    let record := publishedRecord platform system.process frame receivedNtpTime forwardNtpTime
      stamped
    relay.forward platform frame receivedNtpTime forwardNtpTime =
      ({ relay with
        motor := (frameInference platform system.process frame).1
        samples := (frameCorrection platform system.process frame receivedNtpTime
          forwardNtpTime).1
        stats := (frameStatistics platform system.process frame receivedNtpTime
          forwardNtpTime).1
        latest := payload
        clients := fun client => (relay.clients client).map fun _ => true },
        ⟨some frame, some payload, record.report, record.row, none⟩) := by
  rw [stampedFrame] at stamp
  unfold Relay.forward
  rw [stamp, ← represents.motor, ← represents.samples, ← represents.stats,
    ← represents.logOpen]
  rfl

/-- What a call of `bridge_server_forward` leaves and shows is what the relay answers. -/
theorem Represents.forward (represents : Represents system relay)
    {process : Process Double Variables} {forwarded : Forwarded Double}
    (run : bridgeServerForward platform system.process frame receivedNtpTime forwardNtpTime =
      .ok (process, forwarded)) (message : Option (List (List UInt8))) :
    Represents
        ⟨process, system.sessions, system.lws.request (Handed.requested ⟨frame, forwarded⟩)⟩
        (relay.forward platform frame receivedNtpTime forwardNtpTime).1 ∧
      Observation.shown ⟨message, some ⟨frame, forwarded⟩,
          Handed.payload ⟨frame, forwarded⟩ process.server, none⟩ =
        (relay.forward platform frame receivedNtpTime forwardNtpTime).2 := by
  have controllers : ∀ requested, (system.lws.request requested).controllers =
      relay.controllers := fun requested =>
    (request_controllers system.lws requested).trans represents.controllers
  have sessions : ∀ requested, SessionsHold
      (⟨process, system.sessions, system.lws.request requested⟩ : System Double Variables) := by
    intro requested connection delivered connected
    rw [request_controllers] at connected
    exact represents.sessions connection delivered connected
  obtain ⟨stamp, rfl, rfl⟩ | ⟨stamped, payload, n, stamp, rfl, rfl, text⟩ :=
    bridgeServerForward_cases platform system.process frame _ _ run
  · rw [represents.forward_dropped stamp]
    exact ⟨⟨rfl, represents.samples, represents.stats, represents.logOpen, represents.latest,
      controllers false, represents.clients, represents.protocol, sessions false⟩, rfl⟩
  · rw [represents.forward_published stamp]
    refine ⟨⟨rfl, rfl, rfl, represents.logOpen, text, controllers _, represents.request_clients,
      ?_, sessions _⟩, ?_⟩
    · intro client connected
      refine represents.protocol client fun absent => connected ?_
      dsimp only
      rw [absent, Option.map_none]
    · have reads : BridgeServer.published ⟨payload, n, system.process.server.protocol⟩ =
          publishedFrame platform system.process frame receivedNtpTime forwardNtpTime stamped :=
        text.reads
      rw [← reads]
      rfl

/-- A received fragment is answered by the relay. -/
theorem Represents.receive (represents : Represents system relay) {connection : Nat}
    {data : List UInt8} {first final : Bool} {process : Process Double Variables}
    {session : ControllerSession} {handed : Option (Handed Double)}
    (permitted : system.lws.Permits connection
      (.receive data first final receivedNtpTime forwardNtpTime))
    (run : callbackController platform system.process (system.sessions connection)
      (.receive data first final receivedNtpTime forwardNtpTime) = .ok (process, session, handed))
    (holds : SessionsHold (⟨system.process, Function.update system.sessions connection session,
      system.lws.deliver connection
        (.receive data first final receivedNtpTime forwardNtpTime)⟩ : System Double Variables))
    (message : Option (List (List UInt8))) :
    ∃ next, relay.answer platform (.controller connection
        (.receive data first final receivedNtpTime forwardNtpTime)) =
          some (next, Observation.shown ⟨message, handed,
            handed.bind fun call => call.payload process.server, none⟩) ∧
      Represents ⟨process, Function.update system.sessions connection session,
        (system.lws.deliver connection
          (.receive data first final receivedNtpTime forwardNtpTime)).request
            (handed.any fun call => call.requested)⟩ next := by
  have received := received_of_run represents.sessions permitted run
  have delivers := represents.deliver connection _ holds
  obtain ⟨fragments, connected, flag⟩ := permitted
  have begins : first = fragments.isEmpty := by
    rw [Bool.eq_iff_iff, flag, List.isEmpty_iff]
  have same : system.lws.fragments connection = fragments := by
    rw [Lws.fragments, connected]
    rfl
  unfold Lws.delivered at delivers
  rw [same] at received delivers
  unfold Relay.answer
  dsimp only
  rw [← represents.controllers, connected]
  dsimp only
  rw [if_pos begins]
  have frame := received.frame
  cases final with
  | false =>
    obtain rfl := Option.map_eq_none_iff.mp frame
    obtain rfl := received.idle rfl
    exact ⟨_, rfl, delivers⟩
  | true =>
    rw [if_pos rfl] at frame ⊢
    rw [← frame]
    cases handed with
    | none =>
      obtain rfl := received.idle rfl
      exact ⟨_, rfl, delivers⟩
    | some call =>
      obtain ⟨next, shown⟩ := delivers.forward (received.call call rfl) message
      exact ⟨_, congrArg some (Prod.ext rfl shown.symm), next⟩

/-- The relay takes every step of the process with it. -/
theorem relay_simulates {next : System Double Variables} {event : Event Double}
    {observation : Observation Double} (represents : Represents system relay)
    (taken : ControllerBridge.Step platform system event next observation) :
    ∃ next', Relay.Step platform relay event next' observation.shown ∧
      Represents next next' := by
  have holds := sessionsHold_step represents.sessions taken
  unfold Relay.Step
  cases taken with
  | @controller connection reason process session handed permitted run =>
    have delivered : SessionsHold (⟨system.process, Function.update system.sessions connection
        session, system.lws.deliver connection reason⟩ : System Double Variables) := by
      intro other fragments connected
      refine holds other fragments ?_
      dsimp only
      rw [request_controllers]
      exact connected
    cases reason with
    | established =>
      have absent : system.lws.controllers connection = none := permitted
      cases run
      unfold Relay.answer
      dsimp only
      rw [← represents.controllers, absent]
      have delivers := represents.deliver connection .established delivered
      refine ⟨_, rfl, ⟨?_, rfl, delivers.stats, delivers.logOpen, delivers.latest,
        delivers.controllers, delivers.clients, delivers.protocol, delivers.sessions⟩⟩
      exact congrArg (motorInferenceReset platform.tflite) represents.motor
    | closed =>
      obtain ⟨fragments, connected⟩ := Option.ne_none_iff_exists'.mp permitted
      cases run
      unfold Relay.answer
      dsimp only
      rw [← represents.controllers, connected]
      exact ⟨_, rfl, represents.deliver connection .closed delivered⟩
    | receive data first final receivedNtpTime forwardNtpTime =>
      exact represents.receive permitted run delivered _
  | @icuEstablished client permitted =>
    unfold Relay.answer
    dsimp only
    rw [← represents.clients, permitted]
    exact ⟨_, rfl, represents.setClient (icuEstablished system.process.server) rfl rfl
      (fun _ => rfl) client fun _ => rfl⟩
  | @icuClosed client permitted =>
    obtain ⟨waiting, connected⟩ := Option.ne_none_iff_exists'.mp permitted
    unfold Relay.answer
    dsimp only
    rw [← represents.clients, connected]
    exact ⟨_, rfl, represents.setClient system.process.server rfl rfl id client (absurd rfl)⟩
  | @icuWriteable client written result payload permitted run =>
    obtain ⟨result', run'⟩ := icuWriteable_eq represents.latest written
    rw [run', Except.ok.injEq, Prod.mk.injEq] at run
    obtain ⟨rfl, rfl⟩ := run
    have known : system.process.server.protocol = true := by
      refine represents.protocol client ?_
      rw [← represents.clients, permitted]
      exact Option.some_ne_none _
    unfold Relay.answer
    dsimp only
    rw [← represents.clients, permitted]
    exact ⟨_, rfl, represents.setClient system.process.server rfl rfl id client fun _ => known⟩

/-- What the relay answers, the process may be called with. -/
theorem exists_step_of_answer (represents : Represents system relay) {event : Event Double}
    (answers : relay.answer platform event ≠ none) :
    ∃ next observation, ControllerBridge.Step platform system event next observation := by
  unfold Relay.answer at answers
  rw [← represents.controllers, ← represents.clients] at answers
  cases event with
  | controller connection reason =>
    have permitted : system.lws.Permits connection reason := by
      cases reason with
      | established =>
        dsimp only at answers
        split at answers
        · exact absurd rfl answers
        · assumption
      | closed =>
        dsimp only at answers
        split at answers
        · exact absurd rfl answers
        · rename_i fragments connected
          exact Option.ne_none_iff_exists'.mpr ⟨fragments, connected⟩
      | receive data first final receivedNtpTime forwardNtpTime =>
        dsimp only at answers
        split at answers
        · exact absurd rfl answers
        · rename_i fragments connected
          by_cases begins : first = fragments.isEmpty
          · refine ⟨fragments, connected, ?_⟩
            rw [begins, List.isEmpty_iff]
          · rw [if_neg begins] at answers
            exact absurd rfl answers
    obtain ⟨next, observation, taken, -⟩ :=
      exists_controller_step platform represents.sessions connection reason permitted
    exact ⟨next, observation, taken⟩
  | icuEstablished client =>
    dsimp only at answers
    split at answers
    · exact absurd rfl answers
    · rename_i absent
      exact ⟨_, _, .icuEstablished absent⟩
  | icuClosed client =>
    dsimp only at answers
    split at answers
    · exact absurd rfl answers
    · rename_i waiting connected
      exact ⟨_, _, .icuClosed (Option.ne_none_iff_exists'.mpr ⟨waiting, connected⟩)⟩
  | icuWriteable client written =>
    dsimp only at answers
    split at answers
    · rename_i pending
      obtain ⟨result, run⟩ := icuWriteable_eq represents.latest written
      exact ⟨_, _, .icuWriteable pending run⟩
    · exact absurd rfl answers

/-- The process takes every step of the relay with it. -/
theorem relay_reflects {event : Event Double} {next' : Relay Double Variables}
    {shown : Shown Double} (represents : Represents system relay)
    (taken' : Relay.Step platform relay event next' shown) :
    ∃ next observation, ControllerBridge.Step platform system event next observation ∧
      observation.shown = shown ∧ Represents next next' := by
  unfold Relay.Step at taken'
  obtain ⟨next, observation, taken⟩ := exists_step_of_answer represents
    (Option.ne_none_iff_exists'.mpr ⟨_, taken'⟩)
  obtain ⟨next'', answers, represents'⟩ := relay_simulates represents taken
  unfold Relay.Step at answers
  rw [taken', Option.some_inj, Prod.mk.injEq] at answers
  obtain ⟨rfl, rfl⟩ := answers
  exact ⟨next, observation, taken, rfl, represents'⟩

end

/-- A run of the relay is the trace of a run of the process. -/
theorem exists_run_of_relay {system : System Double Variables} {relay : Relay Double Variables}
    (started : Started platform system) {traced : List (Event Double × Shown Double)}
    (answers : Run (Relay.Step platform) (Relay.start system.process) traced relay) :
    ∃ history next, Run (ControllerBridge.Step platform) system history next ∧
      trace Observation.shown history = traced ∧ Represents next relay := by
  refine Run.reflects ?_ (represents_start started) answers
  exact fun _ _ _ _ _ represents taken => relay_reflects represents taken

/-- From every start the process and the relay have the same traces: the callbacks that may be
made, and what each of them shows. -/
theorem process_traces_iff_relay_traces {system : System Double Variables}
    (started : Started platform system) (traced : List (Event Double × Shown Double)) :
    (∃ history next, Run (ControllerBridge.Step platform) system history next ∧
        trace Observation.shown history = traced) ↔
      ∃ relay, Run (Relay.Step platform) (Relay.start system.process) traced relay := by
  refine traces_iff ?_ ?_ (represents_start started) traced
  · exact fun _ _ _ _ _ represents taken => relay_simulates represents taken
  · exact fun _ _ _ _ _ represents taken => relay_reflects represents taken

end

/-- The relay of the example process with a client and a controller connected. -/
def exampleRelay : Relay ℚ Nat :=
  { (Relay.start exampleProcess).setClient 7 (some false) with
    controllers := Function.update (fun _ => none) 0 (some [])
    motor := motorInferenceReset exampleTflite exampleMotor }

/-- A frame without a sent time, and the payload published for it. -/
def untimedFrame : List UInt8 := ascii "\x7b\"id\":1\x7d"

def untimedPayload : List UInt8 :=
  ascii "\x7b\"id\":1,\"frame_transfer_time_corrected\":0.000000\x7d"

/-- What is seen of the bytes. -/
def Shown.bytes {Double : Type} (shown : Shown Double) :
    Option (List UInt8) × Option (List UInt8) × Option (List UInt8) :=
  (shown.handed, shown.published, shown.written)

/-- What the relay answers to the two frames and to the writable callback. -/
theorem exampleRelay_answers :
    ((exampleRelay.answer examplePlatform (frameEvent untimedFrame 1 2)).bind
      fun kept => (kept.1.answer examplePlatform (frameEvent droppedFrame 3 4)).bind
        fun dropped => (dropped.1.answer examplePlatform (.icuWriteable 7 100)).map
          fun written => [kept.2.bytes, dropped.2.bytes, written.2.bytes]) =
      some [(some untimedFrame, some untimedPayload, none), (some droppedFrame, none, none),
        (none, none, some untimedPayload)] := by
  decide +kernel

/-- A client connects, and a controller sends a frame without a sent time and one that is dropped.
The client is written the payload of the first. -/
theorem exampleSystem_traces : ∃ history next kept dropped written,
    Run (ControllerBridge.Step examplePlatform) exampleSystem history next ∧
      trace Observation.shown history =
        [(.icuEstablished 7, .nothing), (.controller 0 .established, .nothing),
          (frameEvent untimedFrame 1 2, kept), (frameEvent droppedFrame 3 4, dropped),
          (.icuWriteable 7 100, written)] ∧
      [kept.bytes, dropped.bytes, written.bytes] =
        [(some untimedFrame, some untimedPayload, none), (some droppedFrame, none, none),
          (none, none, some untimedPayload)] := by
  obtain ⟨⟨relay3, kept⟩, keeps, answers⟩ := Option.bind_eq_some_iff.mp exampleRelay_answers
  obtain ⟨⟨relay4, dropped⟩, drops, answers⟩ := Option.bind_eq_some_iff.mp answers
  obtain ⟨⟨relay5, written⟩, writes, shown⟩ := Option.map_eq_some_iff.mp answers
  have connects : Relay.Step examplePlatform (Relay.start exampleSystem.process)
    (.icuEstablished 7) _ .nothing := rfl
  have establishes : Relay.Step examplePlatform
    ((Relay.start exampleSystem.process).setClient 7 (some false))
    (.controller 0 .established) exampleRelay .nothing := rfl
  have run := (Run.start.step connects).step establishes
  obtain ⟨history, next, run, same⟩ :=
    (process_traces_iff_relay_traces exampleSystem_started _).mpr
      ⟨relay5, ((run.step keeps).step drops).step writes⟩
  exact ⟨history, next, kept, dropped, written, run, same, shown⟩

end ControllerBridge
