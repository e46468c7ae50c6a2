/-
This file settles what the statistics of the process are about, over whole runs.

The reports of `frame_stats.cpp` are about all frames the process publishes, in
windows of a hundred, whoever sends them and however often a controller connects
again (`run_reports`). The samples of `clock_offset.cpp` are those of the frames
since a controller connected last, pruned as the library prunes windows. They are
few as long as frames come apart (`run_samples_few`), and they are what the
corrected transfer times are taken from (`run_corrections`).
-/

import ControllerBridge.ClockWindow
import ControllerBridge.Exact
import ControllerBridge.StatReports
import ControllerBridge.TimingLog

namespace ControllerBridge

/-! ### Published frames -/

section

variable {Double : Type}

/-- The record of the frame an event publishes, with its call. -/
def publishedFrameOf (entry : Event Double × Observation Double) :
    Option (ForwardCall Double × Published Double) :=
  (forwardCall entry).bind fun call =>
    call.handed.forwarded.published.map fun record => (call, record)

/-- The frames a history publishes, in order. -/
def publishedFrames (history : List (Event Double × Observation Double)) :
    List (ForwardCall Double × Published Double) :=
  history.filterMap publishedFrameOf

/-- The transfer and the processing times of the frames a history publishes. -/
def publishedTimes (history : List (Event Double × Observation Double)) :
    List (Double × Double) :=
  (publishedFrames history).map fun frame => (frame.2.frameTransferTime, frame.2.processingTime)

/-- The reports a history prints. -/
def printedReports (history : List (Event Double × Observation Double)) :
    List (StatReport Double) :=
  (publishedFrames history).filterMap fun frame => frame.2.report

/-- The sample of the frame an event publishes: its time of arrival and its transfer time. -/
def publishedSample (entry : Event Double × Observation Double) : Option (Double × Double) :=
  (publishedFrameOf entry).map fun frame => (frame.1.receivedNtpTime, frame.2.frameTransferTime)

/-- The samples of the frames published since a controller connected last. -/
def samplesSinceConnected (history : List (Event Double × Observation Double)) : Samples Double :=
  sinceConnected publishedSample history

/-- No event is a new controller and publishes a frame. -/
theorem connects_of_published {entry : Event Double × Observation Double}
    {frame : ForwardCall Double × Published Double}
    (published : publishedFrameOf entry = some frame) : entry.1.connects = false := by
  obtain ⟨event, observation⟩ := entry
  cases event with
  | controller connection reason =>
    cases reason with
    | established => cases published
    | receive => rfl
    | closed => rfl
  | icuEstablished => rfl
  | icuWriteable => rfl
  | icuClosed => rfl

theorem publishedFrames_concat (history : List (Event Double × Observation Double))
    (entry : Event Double × Observation Double) :
    publishedFrames (history ++ [entry]) =
      publishedFrames history ++ (publishedFrameOf entry).toList := by
  unfold publishedFrames
  rw [List.filterMap_append, List.filterMap_cons, List.filterMap_nil]
  cases publishedFrameOf entry <;> rfl

theorem publishedTimes_concat (history : List (Event Double × Observation Double))
    {entry : Event Double × Observation Double} {call : ForwardCall Double}
    {record : Published Double} (published : publishedFrameOf entry = some (call, record)) :
    publishedTimes (history ++ [entry]) =
      publishedTimes history ++ [(record.frameTransferTime, record.processingTime)] := by
  rw [publishedTimes, publishedFrames_concat, published, List.map_append]
  rfl

theorem samplesSinceConnected_concat (history : List (Event Double × Observation Double))
    {entry : Event Double × Observation Double} {call : ForwardCall Double}
    {record : Published Double} (published : publishedFrameOf entry = some (call, record)) :
    samplesSinceConnected (history ++ [entry]) =
      samplesSinceConnected history ++ [(call.receivedNtpTime, record.frameTransferTime)] := by
  rw [samplesSinceConnected, sinceConnected_concat, connects_of_published published,
    if_neg Bool.false_ne_true, publishedSample, published]
  rfl

end

/-! ### One step -/

section

variable {Double Variables : Type} [Add Double] [Sub Double] [Mul Double] [Div Double]
  [Neg Double] [LT Double] [DecidableLT Double] [LE Double] [DecidableLE Double]
  [OfScientific Double] [NatCast Double] [IntCast Double]

variable {platform : Platform Double Variables}

/-- The statistics and the samples after a frame, if one is published. -/
inductive Records (platform : Platform Double Variables) (stats : FrameStats Double)
    (samples : Samples Double) (process' : Process Double Variables) :
    Option (ForwardCall Double × Published Double) → Prop where
  | quiet (sameStats : process'.stats = stats) (sameSamples : process'.samples = samples) :
    Records platform stats samples process' none
  | frame {call : ForwardCall Double} {record : Published Double}
      (times : (record.frameTransferTime, record.processingTime) =
        frameTimes platform call.handed.frame call.receivedNtpTime call.forwardNtpTime)
      (counted : frameStatsRecord platform.libm.dblMax stats record.frameTransferTime
        record.processingTime = (process'.stats, record.report))
      (corrected : clockOffsetCorrect samples record.frameTransferTime call.receivedNtpTime =
        (process'.samples, record.correctedTransferTime)) :
    Records platform stats samples process' (some (call, record))

theorem records_of_call {process process' : Process Double Variables} {call : ForwardCall Double}
    (run : bridgeServerForward platform process call.handed.frame call.receivedNtpTime
      call.forwardNtpTime = .ok (process', call.handed.forwarded)) :
    Records platform process.stats process.samples process'
      (call.handed.forwarded.published.map fun record => (call, record)) := by
  obtain ⟨-, after, same⟩ | ⟨stamped, payload, n, -, after, same, -⟩ :=
    bridgeServerForward_cases platform process call.handed.frame _ _ run
  · have published : call.handed.forwarded.published = none := by rw [same]
    rw [published, Option.map_none, after]
    exact .quiet rfl rfl
  · have published : call.handed.forwarded.published = some (publishedRecord platform process
        call.handed.frame call.receivedNtpTime call.forwardNtpTime stamped) := by rw [same]
    rw [published, Option.map_some, after]
    exact .frame rfl rfl rfl

/-- A new controller clears the samples, and a frame that is published is recorded. -/
theorem records_of_step {system next : System Double Variables} {event : Event Double}
    {observation : Observation Double} (sessionsHold : SessionsHold system)
    (taken : Step platform system event next observation) :
    Records platform system.process.stats
      (if event.connects then [] else system.process.samples) next.process
      (publishedFrameOf (event, observation)) := by
  obtain ⟨connects, idle, after⟩ | ⟨connects, ⟨call, makes, run⟩ | ⟨idle, server, after⟩⟩ :=
    process_of_step sessionsHold taken
  · rw [connects, if_pos rfl, after, publishedFrameOf, idle]
    exact .quiet rfl rfl
  · rw [connects, if_neg Bool.false_ne_true, publishedFrameOf, makes]
    exact records_of_call run
  · rw [connects, if_neg Bool.false_ne_true, after, publishedFrameOf, idle]
    exact .quiet rfl rfl

variable (platform) in
/-- A connected controller between two messages may send a frame, which is published if it can be
stamped. -/
theorem exists_published_step {system : System Double Variables}
    (sessionsHold : SessionsHold system) (connected : system.lws.controllers 0 = some [])
    {receivedNtpTime forwardNtpTime : Double} {frame : List UInt8}
    (short : frame.length ≤ maxControllerFrameLen)
    (stamps : stampedFrame platform frame receivedNtpTime forwardNtpTime ≠ none) :
    ∃ event observation next call record, Step platform system event next observation ∧
      next.lws.controllers 0 = some [] ∧
      publishedFrameOf (event, observation) = some (call, record) ∧
      call.handed.frame = frame ∧
      call.handed.forwarded.joystick = joystickValues platform.libc frame ∧
      call.receivedNtpTime = receivedNtpTime ∧
      (record.frameTransferTime, record.processingTime) =
        frameTimes platform frame receivedNtpTime forwardNtpTime := by
  obtain ⟨observation, next, handed, taken, connectedNext, rfl, makes, run⟩ :=
    exists_frame_step platform sessionsHold connected receivedNtpTime forwardNtpTime short
  obtain ⟨dropped, -⟩ | ⟨stamped, payload, n, -, -, same, -⟩ :=
    bridgeServerForward_cases platform system.process handed.frame _ _ run
  · exact absurd dropped stamps
  · refine ⟨_, observation, next, ⟨receivedNtpTime, forwardNtpTime, handed⟩, publishedRecord
      platform system.process handed.frame receivedNtpTime forwardNtpTime stamped, taken,
      connectedNext, ?_, rfl, ?_, rfl, rfl⟩
    · rw [publishedFrameOf, makes, Option.bind_some]
      dsimp only
      rw [same]
      rfl
    · dsimp only
      rw [same]

/-- After its start the process may publish any frames that can be stamped, given with the times
they are received and forwarded at, and nothing else. -/
theorem exists_published_run {start : System Double Variables} (started : Started platform start)
    (frames : List (List UInt8 × Double × Double))
    (short : ∀ frame ∈ frames, frame.1.length ≤ maxControllerFrameLen)
    (stamps : ∀ frame ∈ frames, stampedFrame platform frame.1 frame.2.1 frame.2.2 ≠ none) :
    ∃ history system, Runs platform history system ∧ system.lws.controllers 0 = some [] ∧
      publishedTimes history =
        frames.map (fun frame => frameTimes platform frame.1 frame.2.1 frame.2.2) ∧
      samplesSinceConnected history =
        frames.map fun frame =>
          (frame.2.1, (frameTimes platform frame.1 frame.2.1 frame.2.2).1) := by
  induction frames using List.reverseRecOn with
  | nil =>
    obtain ⟨observation, system, runs, connected, -⟩ := exists_connection started
    exact ⟨_, system, runs, connected, rfl, rfl⟩
  | append_singleton frames frame inductionHypothesis =>
    obtain ⟨history, system, runs, connected, times, samples⟩ := inductionHypothesis
      (fun earlier member => short earlier (List.mem_append_left _ member))
      fun earlier member => stamps earlier (List.mem_append_left _ member)
    obtain ⟨event, observation, next, call, record, taken, connectedNext, published, -, -, received,
      timesLast⟩ := exists_published_step platform runs.sessionsHold connected
        (short frame List.mem_concat_self) (stamps frame List.mem_concat_self)
    refine ⟨_, next, runs.step taken, connectedNext, ?_, ?_⟩
    · rw [publishedTimes_concat history published, times, timesLast, List.map_append,
        List.map_singleton]
    · rw [samplesSinceConnected_concat history published, samples, received, List.map_append,
        List.map_singleton, ← timesLast]

theorem Runs.publishedFrames_length {history : List (Event Double × Observation Double)}
    {system : System Double Variables} (runs : Runs platform history system) :
    (publishedFrames history).length = (publishedPayloads history).length := by
  unfold publishedFrames publishedPayloads
  rw [List.length_filterMap_eq_countP, List.length_filterMap_eq_countP]
  refine List.countP_congr fun entry member => ?_
  rw [← (runs.logsRow entry member).published, publishedFrameOf]
  cases forwardCall entry with
  | none => rfl
  | some call =>
    rw [Option.bind_some, Option.bind_some, publishedRow, Option.isSome_map, Option.isSome_map]

end

/-! ### The reports of a run -/

section

variable {Number Variables : Type} [Field Number] [LinearOrder Number]
  {platform : Platform Number Variables} {history : List (Event Number × Observation Number)}

variable (platform) in
/-- The times a call reads from its frame. -/
def callTimes (call : ForwardCall Number) : Number × Number :=
  frameTimes platform call.handed.frame call.receivedNtpTime call.forwardNtpTime

variable (platform) in
/-- The statistics are those of the times of all frames published, and so are the reports. -/
structure Reporting (history : List (Event Number × Observation Number))
    (stats : FrameStats Number) : Prop where
  times : publishedTimes history =
    (publishedFrames history).map fun frame => callTimes platform frame.1
  stats : stats = statsAfter platform.libm.dblMax (publishedTimes history)
  printed : printedReports history = reports platform.libm.dblMax (publishedTimes history)

theorem Reporting.concat {stats : FrameStats Number} {samples : Samples Number}
    {process' : Process Number Variables} {entry : Event Number × Observation Number}
    (reporting : Reporting platform history stats)
    (records : Records platform stats samples process' (publishedFrameOf entry)) :
    Reporting platform (history ++ [entry]) process'.stats := by
  have grown := publishedFrames_concat history entry
  cases published : publishedFrameOf entry with
  | none =>
    rw [published, Option.toList_none, List.append_nil] at grown
    rw [published] at records
    cases records with
    | quiet sameStats _ =>
      refine ⟨?_, ?_, ?_⟩
      · rw [publishedTimes, grown]
        exact reporting.times
      · rw [sameStats, publishedTimes, grown]
        exact reporting.stats
      · rw [printedReports, publishedTimes, grown]
        exact reporting.printed
  | some frame =>
    obtain ⟨call, record⟩ := frame
    rw [published, Option.toList_some] at grown
    rw [published, reporting.stats] at records
    cases records with
    | frame times counted _ =>
      refine ⟨?_, ?_, ?_⟩
      · rw [publishedTimes_concat history published, reporting.times, times, grown,
          List.map_append, List.map_singleton]
        rfl
      · rw [publishedTimes_concat history published, statsAfter_concat, counted]
      · rw [publishedTimes_concat history published, reports_concat, counted, ← reporting.printed,
          printedReports, grown, List.filterMap_append, List.filterMap_cons, List.filterMap_nil]
        cases record.report <;> rfl

theorem Runs.reporting {system : System Number Variables}
    (runs : Runs platform history system) :
    Reporting platform history system.process.stats := by
  refine (runs.invariant (fun (history : List (Event Number × Observation Number))
      (system : System Number Variables) => SessionsHold system ∧
        Reporting platform history system.process.stats)
    (fun start started => ⟨Runs.sessionsHold ⟨start, started, .start⟩, rfl, started.stats, rfl⟩)
    ?_).2
  rintro history system event next observation ⟨sessionsHold, reporting⟩ taken
  exact ⟨sessionsHold_step sessionsHold taken,
    reporting.concat (records_of_step sessionsHold taken)⟩

/-- Along every run one report is printed for each hundred frames published, whoever sends them and
however often a controller connects again, and it is about the times read from exactly these
frames. -/
theorem run_reports [IsStrictOrderedRing Number] {system : System Number Variables}
    (runs : Runs platform history system)
    (inRange : InRange platform.libm.dblMax (publishedTimes history)) :
    publishedTimes history = (publishedFrames history).map (fun frame =>
        callTimes platform frame.1) ∧
      (printedReports history).length = (publishedPayloads history).length / windowSize ∧
      ∀ number report, (printedReports history)[number]? = some report →
        Reports (windowFrames (publishedTimes history) number) report := by
  obtain ⟨-, count, windows⟩ := reports_pending (publishedTimes history) inRange
  refine ⟨runs.reporting.times, ?_, ?_⟩
  · rw [runs.reporting.printed, count, ← runs.publishedFrames_length, publishedTimes,
      List.length_map]
  · rw [runs.reporting.printed]
    exact windows

end

/-- A frame that was sent at the time zero. -/
def timedFrame : List UInt8 := ascii "\x7b\"ntp_time\":0\x7d"

theorem timedFrame_length_le : timedFrame.length ≤ maxControllerFrameLen := by decide

/-- A run of a hundred frames prints a report. -/
theorem timedFrame_reports : ∃ history system, Runs examplePlatform history system ∧
    publishedTimes history = List.replicate 100 (1, 1) ∧
    publishedTimes history = (publishedFrames history).map (fun frame =>
      callTimes examplePlatform frame.1) ∧
    (printedReports history).length = (publishedPayloads history).length / windowSize ∧
    ∀ number report, (printedReports history)[number]? = some report →
      Reports (windowFrames (publishedTimes history) number) report := by
  have stamps : stampedFrame examplePlatform timedFrame 1 2 ≠ none := by decide +kernel
  have reads : frameTimes examplePlatform timedFrame 1 2 = (1, 1) := by decide +kernel
  obtain ⟨history, system, runs, -, times, -⟩ := exists_published_run exampleSystem_started
    (List.replicate 100 (timedFrame, 1, 2))
    (fun frame member => by
      rw [List.eq_of_mem_replicate member]
      exact timedFrame_length_le)
    fun frame member => by
      rw [List.eq_of_mem_replicate member]
      exact stamps
  rw [List.map_replicate, reads] at times
  refine ⟨history, system, runs, times, run_reports runs ?_⟩
  rw [times]
  intro frame member
  rw [List.eq_of_mem_replicate member]
  decide +kernel

/-! ### The samples of a run -/

section

variable {Number Variables : Type} [Field Number] [LinearOrder Number]
  {platform : Platform Number Variables} {history : List (Event Number × Observation Number)}

/-- The samples after a step are those of the window again. -/
theorem Records.window {stats : FrameStats Number} {samples : Samples Number}
    {process' : Process Number Variables} {entry : Event Number × Observation Number}
    (holds : samples = Window.window kWindowSeconds (samplesSinceConnected history))
    (records : Records platform stats (if entry.1.connects then [] else samples) process'
      (publishedFrameOf entry)) :
    process'.samples =
      Window.window kWindowSeconds (samplesSinceConnected (history ++ [entry])) := by
  cases published : publishedFrameOf entry with
  | none =>
    rw [published] at records
    rw [samplesSinceConnected, sinceConnected_concat, publishedSample, published, Option.map_none,
      Option.toList_none, List.append_nil]
    cases records with
    | quiet _ sameSamples =>
      rw [sameSamples, holds]
      split <;> rfl
  | some frame =>
    obtain ⟨call, record⟩ := frame
    rw [connects_of_published published, if_neg Bool.false_ne_true, published] at records
    rw [samplesSinceConnected_concat history published, Window.window_concat, ← holds]
    cases records with
    | frame _ _ corrected => exact (congrArg Prod.fst corrected).symm

theorem Runs.window {system : System Number Variables} (runs : Runs platform history system) :
    system.process.samples =
      Window.window kWindowSeconds (samplesSinceConnected history) := by
  refine (runs.invariant (fun (history : List (Event Number × Observation Number))
      (system : System Number Variables) => SessionsHold system ∧
        system.process.samples = Window.window kWindowSeconds (samplesSinceConnected history))
    (fun start started => ⟨Runs.sessionsHold ⟨start, started, .start⟩, started.samples⟩) ?_).2
  rintro history system event next observation ⟨sessionsHold, holds⟩ taken
  exact ⟨sessionsHold_step sessionsHold taken,
    Records.window holds (records_of_step sessionsHold taken)⟩

variable [IsStrictOrderedRing Number]

/-- While the frames published since a controller connected last have come apart, the process
keeps few samples. -/
theorem run_samples_few {system : System Number Variables} (runs : Runs platform history system)
    {gap : Number} (apart : Window.Apart gap (samplesSinceConnected history)) :
    (system.process.samples.length - 1) • gap ≤ kWindowSeconds := by
  rw [runs.window]
  exact Window.length_window_le kWindowSeconds_nonneg apart

/-- The corrected transfer time of a frame is its transfer time less the least one that any
controller's frame has had in the last half minute and since a controller connected last, as long
as the clock has not gone back since then. -/
theorem run_corrections {system : System Number Variables} (runs : Runs platform history system)
    {front back : List (Event Number × Observation Number)}
    {entry : Event Number × Observation Number} {call : ForwardCall Number}
    {record : Published Number} (place : history = front ++ entry :: back)
    (published : publishedFrameOf entry = some (call, record))
    (sorted : Window.Sorted (samplesSinceConnected (front ++ [entry]))) :
    ∃ low, IsLeast {transfer | ∃ time,
        (time, transfer) ∈ samplesSinceConnected (front ++ [entry]) ∧
          call.receivedNtpTime - time ≤ kWindowSeconds} low ∧
      record.correctedTransferTime = record.frameTransferTime - low := by
  obtain ⟨start, started, run⟩ := runs
  rw [place] at run
  obtain ⟨before, after, runFront, taken, -⟩ := run.split_step
  have runsFront : Runs platform front before := ⟨start, started, runFront⟩
  have records := records_of_step runsFront.sessionsHold taken
  rw [connects_of_published published, if_neg Bool.false_ne_true, published] at records
  cases records with
  | frame _ _ corrected =>
    rw [samplesSinceConnected_concat front published] at sorted ⊢
    obtain ⟨low, least, value⟩ := clockOffsetCorrect_of_sorted sorted
    rw [← runsFront.window, corrected] at value
    exact ⟨low, least, value⟩

end

/-- Two frames that come a second apart, and the second one's correction. -/
theorem exists_timedFrames : ∃ history entry system call record,
    Runs examplePlatform (history ++ [entry]) system ∧
    publishedFrameOf entry = some (call, record) ∧
    samplesSinceConnected (history ++ [entry]) = [(1, 1), (2, 2)] := by
  have stamps : ∀ received ∈ [(1 : ℚ), 2],
      stampedFrame examplePlatform timedFrame received (received + 1) ≠ none := by decide +kernel
  have reads : ∀ received ∈ [(1 : ℚ), 2],
      frameTimes examplePlatform timedFrame received (received + 1) = (received, 1) := by
    decide +kernel
  obtain ⟨history, system, runs, connected, -, samples⟩ := exists_published_run
    exampleSystem_started [(timedFrame, 1, 1 + 1)] (by decide +kernel)
    (List.forall_mem_singleton.mpr (stamps 1 List.mem_cons_self))
  obtain ⟨event, observation, next, call, record, taken, -, published, -, -, received, times⟩ :=
    exists_published_step examplePlatform runs.sessionsHold connected timedFrame_length_le
      (stamps 2 (List.mem_cons_of_mem _ (List.mem_singleton_self _)))
  refine ⟨history, _, next, call, record, runs.step taken, published, ?_⟩
  rw [reads 2 (List.mem_cons_of_mem _ (List.mem_singleton_self _)), Prod.mk.injEq] at times
  rw [samplesSinceConnected_concat history published, samples, List.map_singleton,
    reads 1 List.mem_cons_self, received, times.1]
  rfl

theorem timedFrames_few : ∃ history system, Runs examplePlatform history system ∧
    samplesSinceConnected history = [(1, 1), (2, 2)] ∧
    (system.process.samples.length - 1) • (1 : ℚ) ≤ kWindowSeconds := by
  obtain ⟨history, entry, system, call, record, runs, -, samples⟩ := exists_timedFrames
  refine ⟨_, system, runs, samples, run_samples_few runs ?_⟩
  rw [samples, Window.Apart, List.isChain_pair]
  norm_num

theorem timedFrames_corrected : ∃ history entry system call record,
    Runs examplePlatform (history ++ [entry]) system ∧
    publishedFrameOf entry = some (call, record) ∧
    samplesSinceConnected (history ++ [entry]) = [(1, 1), (2, 2)] ∧
    ∃ low, IsLeast {transfer | ∃ time,
        (time, transfer) ∈ samplesSinceConnected (history ++ [entry]) ∧
          call.receivedNtpTime - time ≤ kWindowSeconds} low ∧
      record.correctedTransferTime = record.frameTransferTime - low := by
  obtain ⟨history, entry, system, call, record, runs, published, samples⟩ := exists_timedFrames
  refine ⟨history, entry, system, call, record, runs, published, samples,
    run_corrections runs (show _ = history ++ entry :: [] from rfl) published ?_⟩
  rw [samples, Window.Sorted, List.pairwise_pair]
  norm_num

end ControllerBridge
