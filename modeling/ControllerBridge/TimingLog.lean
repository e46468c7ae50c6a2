/-
This file is the model of `timing_log.cpp` with the file it appends to, over the
lives of any number of processes.

A process opens the file for appending, or not, and appends a row in every
callback that publishes a frame; in the end it closes the file, or it is killed.
What one process leaves is what the next one finds. The header is written by the
first process that opens an empty file, and by no other; every row is flushed
right away, so that a process that is killed loses at most a part of the row it
is writing.
-/

import ControllerBridge.Library.AppendStream
import ControllerBridge.Relay

namespace ControllerBridge

/-! ### The log -/

/-- The first line of the log. -/
def logHeader : List UInt8 :=
  ascii "wall_epoch_seconds,frame_transfer_time_ms,frame_transfer_time_corrected_ms,base_station_processing_time_ms\n"

/-- `timing_log_init`: its result, and `s_file`. `opens` is whether `fopen` succeeds, `early` how
many bytes of the header are written before they are flushed. -/
def timingLogInit (path : Option (List UInt8)) (opens : Bool) (early : Nat)
    (disk : Option (List UInt8)) : Int × Option (AppendStream UInt8) :=
  if path.getD [] = [] then (0, none)
  else if opens then
    let file := .opened (disk.getD [])
    if (disk.getD []).length = 0 then (0, some (file.put early logHeader)) else (0, some file)
  else (-1, none)

section

variable {Double : Type}

/-- The text of a row. -/
def rowText (libc : Libc Double) (row : LogRow Double) : Option (List UInt8) := do
  let wall ← libc.printf 6 row.wallEpochSeconds
  let transfer ← libc.printf 4 row.frameTransferTime
  let corrected ← libc.printf 4 row.frameTransferTimeCorrected
  let processing ← libc.printf 4 row.baseStationProcessingTime
  some (wall ++ ascii "," ++ transfer ++ ascii "," ++ corrected ++ ascii "," ++ processing ++
    ascii "\n")

/-- What `fprintf` prints of a row: nothing, if it fails. -/
def printedRow (libc : Libc Double) (row : LogRow Double) : List UInt8 :=
  (rowText libc row).getD []

/-- How a process ends: at its end it closes the log; or it is killed, between two callbacks or
when `early` bytes of a row have been written. -/
inductive Ending (Double : Type) where
  | close
  | kill
  | killWriting (row : LogRow Double) (early : Nat)

/-- The row a call logs, if its frame is published. -/
def publishedRow [Mul Double] [OfScientific Double] (call : ForwardCall Double) :
    Option (LogRow Double) :=
  call.handed.forwarded.published.map fun record => {
    wallEpochSeconds := call.receivedNtpTime
    frameTransferTime := record.frameTransferTime * 1000.0
    frameTransferTimeCorrected := record.correctedTransferTime * 1000.0
    baseStationProcessingTime := record.processingTime * 1000.0 }

end

/-! ### Lives of the process -/

section

variable {Double Variables : Type} [Add Double] [Sub Double] [Mul Double] [Div Double]
  [Neg Double] [LT Double] [DecidableLT Double] [LE Double] [DecidableLE Double]
  [OfScientific Double] [NatCast Double] [IntCast Double]

/-- The rows a history logs, in order. -/
def loggedRows (history : List (Event Double × Observation Double)) : List (LogRow Double) :=
  history.filterMap fun entry => entry.2.shown.row

/-- One life of the process: whether it is given a path and can open it, a run of it with the
rows of this run, and its end. Before each row stands how much of it is written early. -/
structure Life (platform : Platform Double Variables) where
  path : Option (List UInt8)
  opens : Bool
  early : Nat
  history : List (Event Double × Observation Double)
  system : System Double Variables
  runs : Runs platform history system
  logOpen : system.process.logOpen = true ↔ path.getD [] ≠ [] ∧ opens = true
  rows : List (Nat × LogRow Double)
  logged : rows.map Prod.snd = loggedRows history
  ending : Ending Double

variable {platform : Platform Double Variables}

namespace Life

/-- A process that has the log open. -/
def Logs (life : Life platform) : Prop := life.path.getD [] ≠ [] ∧ life.opens = true

instance (life : Life platform) : Decidable life.Logs := inferInstanceAs (Decidable (_ ∧ _))

/-- The file a process leaves, from the one it finds. -/
def file (life : Life platform) (disk : Option (List UInt8)) : Option (List UInt8) :=
  match (timingLogInit life.path life.opens life.early disk).2 with
  | none => disk
  | some opened =>
    let stream := opened.puts (life.rows.map fun row => (row.1, printedRow platform.libc row.2))
    match life.ending with
    | .close => some stream.close
    | .kill => some stream.abandon
    | .killWriting row early =>
      some (stream.print early (printedRow platform.libc row)).abandon

/-- What a process that is killed in the middle of a row leaves of this row. -/
def torn (life : Life platform) : List UInt8 :=
  match life.ending with
  | .killWriting row early => (printedRow platform.libc row).take early
  | _ => []

/-- What a process adds to the file: its rows in their order. -/
def text (life : Life platform) : List UInt8 :=
  (loggedRows life.history).flatMap (printedRow platform.libc) ++ life.torn

end Life

/-! ### The rows of a run -/

/-- A callback logs the row of the frame it publishes, if it publishes one and the log is open. -/
structure LogsRow (logOpen : Bool) (entry : Event Double × Observation Double) : Prop where
  row : entry.2.shown.row = if logOpen then (forwardCall entry).bind publishedRow else none
  published : ((forwardCall entry).bind publishedRow).isSome = entry.2.published.isSome

/-- A callback leaves the log open or closed as it is, and logs its row. -/
theorem row_of_step {system next : System Double Variables} {event : Event Double}
    {observation : Observation Double} (sessionsHold : SessionsHold system)
    (taken : Step platform system event next observation) :
    next.process.logOpen = system.process.logOpen ∧
      LogsRow system.process.logOpen (event, observation) := by
  cases taken with
  | @controller connection reason process session handed permitted run =>
    cases reason with
    | established =>
      cases run
      exact ⟨rfl, (ite_self _).symm, rfl⟩
    | closed =>
      cases run
      exact ⟨rfl, (ite_self _).symm, rfl⟩
    | receive data first final receivedNtpTime forwardNtpTime =>
      have received := received_of_run sessionsHold permitted run
      cases handed with
      | none =>
        obtain rfl := received.idle rfl
        exact ⟨rfl, (ite_self _).symm, rfl⟩
      | some call =>
        obtain ⟨frame, forwarded⟩ := call
        obtain ⟨-, rfl, rfl⟩ | ⟨stamped, payload, n, -, rfl, rfl, -⟩ :=
          bridgeServerForward_cases platform system.process frame _ _
            (received.call ⟨frame, forwarded⟩ rfl)
        · exact ⟨rfl, (ite_self _).symm, rfl⟩
        · exact ⟨rfl, rfl, rfl⟩
  | icuEstablished _ => exact ⟨rfl, (ite_self _).symm, rfl⟩
  | icuWriteable _ _ => exact ⟨rfl, (ite_self _).symm, rfl⟩
  | icuClosed _ => exact ⟨rfl, (ite_self _).symm, rfl⟩

theorem Runs.logsRow {history : List (Event Double × Observation Double)}
    {system : System Double Variables} (runs : Runs platform history system) :
    ∀ entry ∈ history, LogsRow system.process.logOpen entry := by
  refine (runs.invariant (fun (history : List (Event Double × Observation Double))
      (system : System Double Variables) => SessionsHold system ∧
        ∀ entry ∈ history, LogsRow system.process.logOpen entry)
    (fun start started => ⟨Runs.sessionsHold ⟨start, started, .start⟩,
      fun _ member => absurd member List.not_mem_nil⟩) ?_).2
  rintro history system event next observation ⟨sessionsHold, rows⟩ taken
  obtain ⟨same, row⟩ := row_of_step sessionsHold taken
  refine ⟨sessionsHold_step sessionsHold taken, fun entry member => ?_⟩
  rw [same]
  rcases List.mem_append.mp member with earlier | last
  · exact rows entry earlier
  · rw [List.mem_singleton.mp last]
    exact row

/-- A run with the log open logs the row of every frame it publishes, in their order. -/
theorem Runs.loggedRows {history : List (Event Double × Observation Double)}
    {system : System Double Variables} (runs : Runs platform history system)
    (logOpen : system.process.logOpen = true) :
    loggedRows history = (forwardCalls history).filterMap publishedRow ∧
      (ControllerBridge.loggedRows history).length = (publishedPayloads history).length := by
  have rows : ControllerBridge.loggedRows history =
      (forwardCalls history).filterMap publishedRow := by
    unfold ControllerBridge.loggedRows forwardCalls
    rw [List.filterMap_filterMap]
    refine List.filterMap_congr fun entry member => ?_
    rw [(runs.logsRow entry member).row, if_pos logOpen]
  refine ⟨rows, ?_⟩
  unfold ControllerBridge.loggedRows publishedPayloads
  rw [List.length_filterMap_eq_countP, List.length_filterMap_eq_countP]
  refine List.countP_congr fun entry member => ?_
  have logs := runs.logsRow entry member
  rw [logs.row, if_pos logOpen, logs.published]

/-! ### The file over all lives -/

/-- The header an opened file is missing. -/
def missingHeader (disk : Option (List UInt8)) : List UInt8 :=
  if disk.getD [] = [] then logHeader else []

theorem timingLogInit_logs {path : Option (List UInt8)} {opens : Bool}
    (logs : path.getD [] ≠ [] ∧ opens = true) (early : Nat) (disk : Option (List UInt8)) :
    (timingLogInit path opens early disk).2 =
      some (.opened (disk.getD [] ++ missingHeader disk)) := by
  obtain ⟨given, rfl⟩ := logs
  unfold timingLogInit missingHeader
  rw [if_neg given]
  dsimp only
  by_cases empty : disk.getD [] = []
  · rw [if_pos empty, if_pos rfl, if_pos (List.length_eq_zero_iff.mpr empty)]
    exact congrArg some (AppendStream.put_opened _ _ _)
  · rw [if_neg empty, if_pos rfl, if_neg (mt List.length_eq_zero_iff.mp empty), List.append_nil]

theorem timingLogInit_not_logs {path : Option (List UInt8)} {opens : Bool}
    (logs : ¬ (path.getD [] ≠ [] ∧ opens = true)) (early : Nat) (disk : Option (List UInt8)) :
    (timingLogInit path opens early disk).2 = none := by
  unfold timingLogInit
  by_cases given : path.getD [] = []
  · rw [if_pos given]
  · rw [if_neg given, if_neg fun opens => logs ⟨given, opens⟩]

/-- A process that has the log open adds the missing header and its rows, and any other one
leaves the file as it is. -/
theorem Life.file_eq (life : Life platform) (disk : Option (List UInt8)) :
    life.file disk =
      if life.Logs then some (disk.getD [] ++ missingHeader disk ++ life.text) else disk := by
  unfold Life.file
  by_cases logs : life.Logs
  · have texts : (life.rows.map fun row => (row.1, printedRow platform.libc row.2)).flatMap
        Prod.snd = (ControllerBridge.loggedRows life.history).flatMap
          (printedRow platform.libc) := by
      rw [← life.logged, List.flatMap_map, List.flatMap_map]
    rw [timingLogInit_logs logs, if_pos logs]
    dsimp only
    rw [AppendStream.puts_opened, texts]
    unfold Life.text Life.torn
    cases life.ending with
    | close =>
      dsimp only
      rw [AppendStream.close_opened, List.append_nil]
    | kill =>
      dsimp only
      rw [AppendStream.abandon_opened, List.append_nil]
    | killWriting row early =>
      dsimp only
      rw [AppendStream.abandon_print_opened, List.append_assoc _ _ (List.take _ _)]
  · rw [timingLogInit_not_logs logs, if_neg logs]

/-- The file after the lives of some processes, from the one before them. -/
def filesAfter (lives : List (Life platform)) (disk : Option (List UInt8)) :
    Option (List UInt8) :=
  lives.foldl (fun disk life => life.file disk) disk

theorem logHeader_ne_nil : logHeader ≠ [] := by decide

/-- A file with its header is missing none. -/
theorem missingHeader_of_written (disk : Option (List UInt8)) (text : List UInt8) :
    missingHeader (some (disk.getD [] ++ missingHeader disk ++ text)) = [] := by
  unfold missingHeader
  rw [Option.getD_some]
  refine if_neg fun empty => ?_
  rw [List.append_eq_nil_iff, List.append_eq_nil_iff] at empty
  obtain ⟨⟨nothing, header⟩, -⟩ := empty
  rw [if_pos nothing] at header
  exact logHeader_ne_nil header

theorem filesAfter_eq (lives : List (Life platform)) (disk : Option (List UInt8)) :
    filesAfter lives disk =
      if ∃ life ∈ lives, life.Logs then
        some (disk.getD [] ++ missingHeader disk ++
          (lives.filter fun life => life.Logs).flatMap Life.text)
      else disk := by
  induction lives generalizing disk with
  | nil => exact (if_neg fun ⟨life, member, _⟩ => nomatch member).symm
  | cons life lives inductionHypothesis =>
    have rest : filesAfter (life :: lives) disk = filesAfter lives (life.file disk) := rfl
    rw [rest, inductionHypothesis, life.file_eq]
    by_cases logs : life.Logs
    · have whole : ∃ other ∈ life :: lives, other.Logs := ⟨life, List.mem_cons_self, logs⟩
      rw [if_pos logs, if_pos whole, missingHeader_of_written,
        List.filter_cons_of_pos (by exact decide_eq_true logs), List.flatMap_cons,
        Option.getD_some, List.append_nil]
      by_cases later : ∃ other ∈ lives, other.Logs
      · rw [if_pos later, List.append_assoc _ life.text]
      · have none : lives.filter (fun life => life.Logs) = [] := by
          refine List.filter_eq_nil_iff.mpr fun other member holds => later ?_
          exact ⟨other, member, of_decide_eq_true holds⟩
        rw [if_neg later, none, List.flatMap_nil, List.append_nil]
    · have same : (∃ other ∈ life :: lives, other.Logs) ↔ ∃ other ∈ lives, other.Logs := by
        simp only [List.mem_cons, exists_eq_or_imp, logs, false_or]
      rw [if_neg logs, if_congr same rfl rfl,
        List.filter_cons_of_neg (by exact fun holds => logs (of_decide_eq_true holds))]

/-- Whatever processes live and die, the log is the file they found with its header, written at
most once and only in front of everything, and then, life by life and in order, one row for every
frame published by a process that could open it. What else may be there is a prefix of one row for
each process that was killed while it wrote. -/
theorem timing_log_over_lives (lives : List (Life platform)) (disk : Option (List UInt8)) :
    (filesAfter lives disk =
      if ∃ life ∈ lives, life.Logs then
        some (disk.getD [] ++ missingHeader disk ++
          (lives.filter fun life => life.Logs).flatMap fun life =>
            ((forwardCalls life.history).filterMap publishedRow).flatMap
              (printedRow platform.libc) ++ life.torn)
      else disk) ∧
    ∀ life ∈ lives, life.Logs →
      ((forwardCalls life.history).filterMap publishedRow).length =
        (publishedPayloads life.history).length := by
  have logged : ∀ life : Life platform, life.Logs →
      ControllerBridge.loggedRows life.history =
          (forwardCalls life.history).filterMap publishedRow ∧
        (ControllerBridge.loggedRows life.history).length =
          (publishedPayloads life.history).length :=
    fun life logs => life.runs.loggedRows (life.logOpen.mpr logs)
  constructor
  · have texts : (lives.filter fun life => life.Logs).flatMap Life.text =
        (lives.filter fun life => life.Logs).flatMap fun life =>
          ((forwardCalls life.history).filterMap publishedRow).flatMap
            (printedRow platform.libc) ++ life.torn := by
      refine List.flatMap_congr fun life member => ?_
      unfold Life.text
      rw [(logged life (of_decide_eq_true (List.mem_filter.mp member).2)).1]
    rw [filesAfter_eq, texts]
  · intro life _ logs
    obtain ⟨rows, lengths⟩ := logged life logs
    rw [← rows, lengths]

end

/-- The example process with its log open. -/
def loggingSystem : System ℚ Nat :=
  { exampleSystem with process := { exampleProcess with logOpen := true } }

theorem loggingSystem_started : Started examplePlatform loggingSystem where
  motor := ⟨false, 0, rfl⟩
  samples := rfl
  stats := rfl
  server := ⟨_, rfl⟩
  idle := rfl

/-- The relay of this process with a controller connected. -/
def loggingRelay : Relay ℚ Nat :=
  { Relay.start loggingSystem.process with
    controllers := Function.update (fun _ => none) 0 (some [])
    motor := motorInferenceReset exampleTflite exampleMotor }

/-- The process may log one frame. -/
theorem loggingSystem_logs : ∃ history system row, Runs examplePlatform history system ∧
    system.process.logOpen = true ∧ loggedRows history = [row] ∧
    printedRow exactLibc row = ascii "1.000000,1000.0000,0.0000,1000.0000\n" := by
  have logs : ((loggingRelay.answer examplePlatform
      (.controller 0 (.receive (ascii "\x7b\"ntp_time\":0\x7d") true true 1 2))).map
        fun answer => (answer.1.logOpen, answer.2.row.map (printedRow exactLibc))) =
      some (true, some (ascii "1.000000,1000.0000,0.0000,1000.0000\n")) := by
    decide +kernel
  obtain ⟨⟨relay, shown⟩, answers, logged⟩ := Option.map_eq_some_iff.mp logs
  obtain ⟨stillOpen, printed⟩ := Prod.mk.inj logged
  obtain ⟨row, logsRow, text⟩ := Option.map_eq_some_iff.mp printed
  have establishes : Relay.Step examplePlatform (Relay.start loggingSystem.process)
    (.controller 0 .established) loggingRelay .nothing := rfl
  obtain ⟨history, system, run, same, represents⟩ :=
    exists_run_of_relay loggingSystem_started
      ((Machine.Run.start.step establishes).step answers)
  refine ⟨history, system, row, ⟨_, loggingSystem_started, run⟩,
    represents.logOpen.trans stillOpen, ?_, text⟩
  have rows : loggedRows history =
      (Machine.trace Observation.shown history).filterMap fun entry => entry.2.row := by
    unfold loggedRows Machine.trace
    rw [List.filterMap_map]
    rfl
  rw [rows, same]
  exact congrArg Option.toList logsRow

/-- A process that logs one frame and closes its log, and one that is killed after eight bytes of
the row of its first frame. -/
theorem exampleLives_log : ∃ first second : Life examplePlatform,
    filesAfter [first, second] none =
      some (logHeader ++ ascii "1.000000,1000.0000,0.0000,1000.0000\n1.000000") := by
  obtain ⟨history, system, row, runs, logOpen, rows, text⟩ := loggingSystem_logs
  let first : Life examplePlatform := {
    path := some (ascii "log"), opens := true, early := 5, history := history, system := system
    runs := runs, logOpen := iff_of_true logOpen ⟨by decide, rfl⟩
    rows := [(2, row)], logged := rows.symm, ending := .close }
  let second : Life examplePlatform := {
    path := some (ascii "log"), opens := true, early := 0, history := [], system := loggingSystem
    runs := ⟨loggingSystem, loggingSystem_started, .start⟩
    logOpen := iff_of_true rfl ⟨by decide, rfl⟩
    rows := [], logged := rfl, ending := .killWriting row 8 }
  have named : ascii "log" ≠ [] := by decide
  have logs : first.Logs ∧ second.Logs := ⟨⟨named, rfl⟩, ⟨named, rfl⟩⟩
  refine ⟨first, second, ?_⟩
  have published : (forwardCalls history).filterMap publishedRow = [row] := by
    rw [← (runs.loggedRows logOpen).1, rows]
  rw [(timing_log_over_lives [first, second] none).1, if_pos ⟨first, List.mem_cons_self, logs.1⟩,
    List.filter_cons_of_pos (by exact decide_eq_true logs.1),
    List.filter_cons_of_pos (by exact decide_eq_true logs.2), List.filter_nil,
    List.flatMap_cons, List.flatMap_singleton]
  change some (logHeader ++ (((forwardCalls history).filterMap publishedRow).flatMap
    (printedRow exactLibc) ++ [] ++ (([].flatMap (printedRow exactLibc)) ++
      (printedRow exactLibc row).take 8))) = _
  have torn : ascii "1.000000,1000.0000,0.0000,1000.0000\n" ++ [] ++
      ([] ++ (ascii "1.000000,1000.0000,0.0000,1000.0000\n").take 8) =
        ascii "1.000000,1000.0000,0.0000,1000.0000\n1.000000" := by decide
  rw [published, List.flatMap_singleton, text, List.flatMap_nil, torn]

end ControllerBridge
