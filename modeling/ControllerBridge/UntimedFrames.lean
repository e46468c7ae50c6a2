/-
This file settles what frames without timing data do to the others.

The stamping leaves its timing outputs untouched for such a frame, and its
documentation asks the caller to take this as "no timing data". The caller hands
on the zeros it started them with instead: they count as a sample in the
statistics, and as a transfer time of zero in the window of the clock offset,
where they are the minimum as long as the true times are positive. So the frames
without timing data may be left out of a sequence unnoticed exactly when none of
them is published. On the corrected times alone a published one shows exactly
where its zero is the least in the window of a later frame with timing data
(`corrected_undisturbed_iff`, for clocks that never go back).
-/

import ControllerBridge.ClockWindow
import ControllerBridge.Exact
import ControllerBridge.ForwardText

namespace ControllerBridge

open Region

/-- A call of `bridge_server_forward`: the frame, and the clock values before and after the
inference. -/
structure FrameCall (Double : Type) where
  frame : List UInt8
  receivedNtpTime : Double
  forwardNtpTime : Double

/-- A frame that contains a sent-time key. -/
def Timed (frame : List UInt8) : Prop := ntpKey <:+: frame ∨ timestampKey <:+: frame

instance (frame : List UInt8) : Decidable (Timed frame) := inferInstanceAs (Decidable (_ ∨ _))

theorem not_timed_iff {frame : List UInt8} : ¬ Timed frame ↔ locateSentTime frame = none := by
  rw [Timed, not_or, locateSentTime_eq_none_iff]

section

variable {Double : Type}

/-- The corrected transfer times computed for the frames with timing data, in order; none for a
frame that is dropped. -/
def correctedTimes (history : List (FrameCall Double × Forwarded Double)) :
    List (Option Double) :=
  (history.filter fun entry => Timed entry.1.frame).map fun entry =>
    entry.2.published.map fun record => record.correctedTransferTime

/-- The samples handed to `frame_stats_record`, in order. -/
def recordedSamples (history : List (FrameCall Double × Forwarded Double)) :
    List (Double × Double) :=
  history.filterMap fun entry =>
    entry.2.published.map fun record => (record.frameTransferTime, record.processingTime)

end

section

variable {Double Variables : Type} [Sub Double] {platform : Platform Double Variables}

/-- Whether a call publishes its frame does not depend on the process. -/
def Publishes (platform : Platform Double Variables) (call : FrameCall Double) : Bool :=
  (stampedFrame platform call.frame call.receivedNtpTime call.forwardNtpTime).isSome

theorem publishes_of_not_timed {call : FrameCall Double} (untimed : ¬ Timed call.frame) :
    Publishes platform call = true ↔ call.frame.length ≤ maxBridgedFrameLen := by
  rw [Publishes, stampedFrame, stampText, not_timed_iff.mp untimed]
  dsimp only
  rw [within]
  split <;> simp_all

end

section

variable {Double Variables : Type} [Add Double] [Sub Double] [Mul Double] [Div Double]
  [Neg Double] [LT Double] [DecidableLT Double] [LE Double] [DecidableLE Double]
  [OfScientific Double] [NatCast Double] [IntCast Double]
  (platform : Platform Double Variables)

/-- Calls one after the other: the process afterwards, and what each call computed. -/
def forwardAll (process : Process Double Variables) : List (FrameCall Double) →
    Checked (Process Double Variables × List (FrameCall Double × Forwarded Double))
  | [] => .ok (process, [])
  | call :: calls => do
    let (process, forwarded) ← bridgeServerForward platform process call.frame
      call.receivedNtpTime call.forwardNtpTime
    let (process, history) ← forwardAll process calls
    .ok (process, (call, forwarded) :: history)

/-- Leaving out the frames without timing data changes neither the corrected times of the others
nor the samples recorded. -/
def Undisturbed (process : Process Double Variables) (calls : List (FrameCall Double)) : Prop :=
  ∀ after history after' history', forwardAll platform process calls = .ok (after, history) →
    forwardAll platform process (calls.filter fun call => Timed call.frame) =
      .ok (after', history') →
    correctedTimes history = correctedTimes history' ∧
      recordedSamples history = recordedSamples history'

variable {platform}

theorem forwardAll_cons {process after : Process Double Variables} {call : FrameCall Double}
    {calls : List (FrameCall Double)} {history : List (FrameCall Double × Forwarded Double)}
    (run : forwardAll platform process (call :: calls) = .ok (after, history)) :
    ∃ next forwarded rest, bridgeServerForward platform process call.frame call.receivedNtpTime
        call.forwardNtpTime = .ok (next, forwarded) ∧
      forwardAll platform next calls = .ok (after, rest) ∧
      history = (call, forwarded) :: rest := by
  obtain ⟨next, forwarded, forward⟩ := bridgeServerForward_ok platform process call.frame
    call.receivedNtpTime call.forwardNtpTime
  rw [forwardAll, forward, ok_bind] at run
  dsimp only at run
  cases later : forwardAll platform next calls with
  | error fault =>
    rw [later] at run
    cases run
  | ok result =>
    obtain ⟨after', rest⟩ := result
    rw [later, ok_bind] at run
    cases run
    exact ⟨next, forwarded, rest, forward, later, rfl⟩

variable (platform) in
theorem forwardAll_ok (process : Process Double Variables) (calls : List (FrameCall Double)) :
    ∃ after history, forwardAll platform process calls = .ok (after, history) := by
  induction calls generalizing process with
  | nil => exact ⟨process, [], rfl⟩
  | cons call calls inductionHypothesis =>
    obtain ⟨next, forwarded, forward⟩ := bridgeServerForward_ok platform process call.frame
      call.receivedNtpTime call.forwardNtpTime
    obtain ⟨after, rest, run⟩ := inductionHypothesis next
    refine ⟨after, (call, forwarded) :: rest, ?_⟩
    rw [forwardAll, forward, ok_bind]
    dsimp only
    rw [run, ok_bind]

/-- The statistics after some calls come from the samples recorded. -/
theorem stats_of_forwardAll {process after : Process Double Variables}
    {calls : List (FrameCall Double)} {history : List (FrameCall Double × Forwarded Double)}
    (run : forwardAll platform process calls = .ok (after, history)) :
    after.stats = (recordedSamples history).foldl
      (fun stats sample => (frameStatsRecord platform.libm.dblMax stats sample.1 sample.2).1)
      process.stats := by
  induction calls generalizing process history with
  | nil =>
    cases run
    rfl
  | cons call calls inductionHypothesis =>
    obtain ⟨next, forwarded, rest, forward, later, rfl⟩ := forwardAll_cons run
    rw [inductionHypothesis later]
    obtain ⟨-, rfl, rfl⟩ | ⟨_, _, _, -, rfl, rfl, -⟩ :=
      bridgeServerForward_cases platform process call.frame _ _ forward
    · rfl
    · rfl

/-- There is a sample for every call that publishes its frame. -/
theorem recordedSamples_length {process after : Process Double Variables}
    {calls : List (FrameCall Double)} {history : List (FrameCall Double × Forwarded Double)}
    (run : forwardAll platform process calls = .ok (after, history)) :
    (recordedSamples history).length = (calls.filter (Publishes platform)).length := by
  induction calls generalizing process history with
  | nil =>
    cases run
    rfl
  | cons call calls inductionHypothesis =>
    obtain ⟨next, forwarded, rest, forward, later, rfl⟩ := forwardAll_cons run
    have tail := inductionHypothesis later
    obtain ⟨dropped, -, rfl⟩ | ⟨stamped, _, _, stamp, -, rfl, -⟩ :=
      bridgeServerForward_cases platform process call.frame _ _ forward
    · rw [List.filter_cons_of_neg (by rw [Publishes, dropped]; exact Bool.false_ne_true), ← tail]
      rfl
    · rw [List.filter_cons_of_pos (by rw [Publishes, stamp]; rfl), List.length_cons, ← tail]
      rfl

/-- What is computed of a frame's timing depends on the process only through the samples of the
clock offset. -/
theorem timing_of_forward {first second first' second' : Process Double Variables}
    {forwarded forwarded' : Forwarded Double} (samples : first.samples = second.samples)
    {call : FrameCall Double}
    (run : bridgeServerForward platform first call.frame call.receivedNtpTime
      call.forwardNtpTime = .ok (first', forwarded))
    (run' : bridgeServerForward platform second call.frame call.receivedNtpTime
      call.forwardNtpTime = .ok (second', forwarded')) :
    first'.samples = second'.samples ∧
      (forwarded.published.map fun record => record.correctedTransferTime) =
        (forwarded'.published.map fun record => record.correctedTransferTime) ∧
      (forwarded.published.map fun record => (record.frameTransferTime, record.processingTime)) =
        (forwarded'.published.map fun record =>
          (record.frameTransferTime, record.processingTime)) := by
  have correction : frameCorrection platform first call.frame call.receivedNtpTime
      call.forwardNtpTime = frameCorrection platform second call.frame call.receivedNtpTime
        call.forwardNtpTime := by
    rw [frameCorrection, frameCorrection, samples]
  obtain ⟨stamp, rfl, rfl⟩ | ⟨stamped, payload, n, stamp, rfl, rfl, -⟩ :=
    bridgeServerForward_cases platform first call.frame _ _ run
  · obtain ⟨-, rfl, rfl⟩ | ⟨_, _, _, stamp', -⟩ :=
      bridgeServerForward_cases platform second call.frame _ _ run'
    · exact ⟨samples, rfl, rfl⟩
    · rw [stamp] at stamp'
      cases stamp'
  · obtain ⟨stamp', -⟩ | ⟨stamped', payload', n', stamp', rfl, rfl, -⟩ :=
      bridgeServerForward_cases platform second call.frame _ _ run'
    · rw [stamp] at stamp'
      cases stamp'
    · exact ⟨congrArg Prod.fst correction, congrArg some (congrArg Prod.snd correction), rfl⟩

/-- Frames that are not published may be left out. -/
theorem undisturbed_of_not_published {first second : Process Double Variables}
    (samples : first.samples = second.samples) {calls : List (FrameCall Double)}
    (published : ∀ call ∈ calls, Publishes platform call = true → Timed call.frame)
    {after after' : Process Double Variables}
    {history history' : List (FrameCall Double × Forwarded Double)}
    (run : forwardAll platform first calls = .ok (after, history))
    (run' : forwardAll platform second (calls.filter fun call => Timed call.frame) =
      .ok (after', history')) :
    correctedTimes history = correctedTimes history' ∧
      recordedSamples history = recordedSamples history' := by
  induction calls generalizing first second history history' with
  | nil =>
    cases run
    cases run'
    exact ⟨rfl, rfl⟩
  | cons call calls inductionHypothesis =>
    obtain ⟨next, forwarded, rest, forward, later, rfl⟩ := forwardAll_cons run
    have publishedLater := fun call member => published call (List.mem_cons_of_mem _ member)
    by_cases timed : Timed call.frame
    · rw [List.filter_cons_of_pos (by exact decide_eq_true timed)] at run'
      obtain ⟨next', forwarded', rest', forward', later', rfl⟩ := forwardAll_cons run'
      obtain ⟨samplesNext, corrected, sample⟩ := timing_of_forward samples forward forward'
      obtain ⟨correctedRest, recordedRest⟩ :=
        inductionHypothesis samplesNext publishedLater later later'
      constructor
      · rw [correctedTimes, correctedTimes, List.filter_cons_of_pos (by exact decide_eq_true timed),
          List.filter_cons_of_pos (by exact decide_eq_true timed), List.map_cons, List.map_cons,
          corrected]
        exact congrArg _ correctedRest
      · rw [recordedSamples, recordedSamples, List.filterMap_cons, List.filterMap_cons, sample]
        dsimp only
        rw [← recordedSamples, ← recordedSamples, recordedRest]
    · rw [List.filter_cons_of_neg (by exact fun holds => timed (of_decide_eq_true holds))] at run'
      have dropped : Publishes platform call = false :=
        Bool.eq_false_iff.mpr fun publishes => timed (published call List.mem_cons_self publishes)
      obtain ⟨-, rfl, rfl⟩ | ⟨_, _, _, stamp, -⟩ :=
        bridgeServerForward_cases platform first call.frame _ _ forward
      · obtain ⟨correctedRest, recordedRest⟩ :=
          inductionHypothesis (by exact samples) publishedLater later run'
        refine ⟨?_, recordedRest⟩
        rw [correctedTimes,
          List.filter_cons_of_neg (by exact fun holds => timed (of_decide_eq_true holds))]
        exact correctedRest
      · rw [Publishes, stamp] at dropped
        cases dropped

/-- The frames without timing data go unnoticed exactly when none of them is published: when each
is longer than the payload buffer. -/
theorem undisturbed_iff (process : Process Double Variables) (calls : List (FrameCall Double)) :
    Undisturbed platform process calls ↔
      ∀ call ∈ calls, ¬ Timed call.frame → maxBridgedFrameLen < call.frame.length := by
  have condition : (∀ call ∈ calls, ¬ Timed call.frame →
      maxBridgedFrameLen < call.frame.length) ↔
        ∀ call ∈ calls, Publishes platform call = true → Timed call.frame := by
    refine forall₂_congr fun call _ => ?_
    constructor
    · intro long publishes
      by_contra untimed
      exact absurd ((publishes_of_not_timed untimed).mp publishes) (Nat.not_le.mpr (long untimed))
    · intro timed untimed
      by_contra short
      exact untimed (timed ((publishes_of_not_timed untimed).mpr (Nat.not_lt.mp short)))
  rw [condition]
  constructor
  · intro undisturbed
    obtain ⟨after, history, run⟩ := forwardAll_ok platform process calls
    obtain ⟨after', history', run'⟩ := forwardAll_ok platform process
      (calls.filter fun call => Timed call.frame)
    have recorded := congrArg List.length (undisturbed _ _ _ _ run run').2
    rw [recordedSamples_length run, recordedSamples_length run', List.filter_comm] at recorded
    have all := List.length_filter_eq_length_iff.mp recorded.symm
    intro call member publishes
    exact of_decide_eq_true (all call (List.mem_filter.mpr ⟨member, publishes⟩))
  · intro published after history after' history' run run'
    exact undisturbed_of_not_published rfl published run run'

end

/-! ### The corrected times alone -/

section

variable {Number Variables : Type} [Field Number] [LinearOrder Number]
  (platform : Platform Number Variables)

/-- The transfer time a call works with; zero for a frame without timing data. -/
def transferTime (call : FrameCall Number) : Number :=
  (frameTimes platform call.frame call.receivedNtpTime call.forwardNtpTime).1

/-- The sample a call hands to the clock offset, if its frame is published. -/
def sampleOf (call : FrameCall Number) : Option (Number × Number) :=
  if Publishes platform call then some (call.receivedNtpTime, transferTime platform call) else none

/-- The samples of some calls. -/
def callSamples (calls : List (FrameCall Number)) : Samples Number :=
  calls.filterMap (sampleOf platform)

/-- The corrected time of a call after some others. -/
def correctedAfter (front : List (FrameCall Number)) (call : FrameCall Number) : Option Number :=
  (sampleOf platform call).map fun sample =>
    (clockOffsetCorrect (Window.window kWindowSeconds (callSamples platform front)) sample.2
      sample.1).2

variable {platform}

omit [LinearOrder Number] in
theorem mem_callSamples {calls : List (FrameCall Number)} {time transfer : Number} :
    (time, transfer) ∈ callSamples platform calls ↔ ∃ call ∈ calls,
      Publishes platform call = true ∧ call.receivedNtpTime = time ∧
        transferTime platform call = transfer := by
  rw [callSamples, List.mem_filterMap]
  refine exists_congr fun call => and_congr_right fun _ => ?_
  rw [sampleOf, Option.ite_none_right_eq_some, Option.some_inj, Prod.mk.injEq]

/-- A call leaves the window over one sample more, and its corrected time is taken from it. -/
theorem correctedAfter_of_forward {process process' : Process Number Variables}
    {forwarded : Forwarded Number} {front : List (FrameCall Number)} {call : FrameCall Number}
    (samples : process.samples = Window.window kWindowSeconds (callSamples platform front))
    (run : bridgeServerForward platform process call.frame call.receivedNtpTime
      call.forwardNtpTime = .ok (process', forwarded)) :
    process'.samples = Window.window kWindowSeconds (callSamples platform (front ++ [call])) ∧
      (forwarded.published.map fun record => record.correctedTransferTime) =
        correctedAfter platform front call := by
  rw [correctedAfter, callSamples, callSamples, List.filterMap_append, ← callSamples, ← samples]
  obtain ⟨stamp, rfl, rfl⟩ | ⟨stamped, payload, n, stamp, rfl, rfl, -⟩ :=
    bridgeServerForward_cases platform process call.frame _ _ run
  · have dropped : sampleOf platform call = none := by
      rw [sampleOf, Publishes, stamp]
      rfl
    rw [List.filterMap_cons, dropped, List.filterMap_nil, List.append_nil]
    exact ⟨samples, rfl⟩
  · have published : sampleOf platform call =
        some (call.receivedNtpTime, transferTime platform call) := by
      rw [sampleOf, Publishes, stamp]
      rfl
    rw [List.filterMap_cons, published, List.filterMap_nil, Window.window_concat, ← samples]
    exact ⟨rfl, rfl⟩

/-- Something holds at all places of a list that has a first entry. -/
theorem forall_places_cons {Entry : Type} {first : Entry} {entries : List Entry}
    {holds : List Entry → Entry → Prop} :
    (∀ before entry after, first :: entries = before ++ entry :: after → holds before entry) ↔
      holds [] first ∧ ∀ before entry after,
        entries = before ++ entry :: after → holds (first :: before) entry := by
  constructor
  · intro everywhere
    refine ⟨everywhere [] first entries rfl, ?_⟩
    rintro before entry after rfl
    exact everywhere (first :: before) entry after rfl
  · rintro ⟨atFirst, later⟩ before entry after split
    cases before with
    | nil =>
      obtain ⟨rfl, -⟩ := List.cons_eq_cons.mp split
      exact atFirst
    | cons head before =>
      obtain ⟨rfl, rest⟩ := List.cons_eq_cons.mp split
      exact later before entry after rest

/-- Two runs with and without the frames that have no timing data compute the same corrected times
exactly when they do so at every frame with timing data. -/
theorem correctedTimes_eq_iff (front : List (FrameCall Number)) {calls : List (FrameCall Number)}
    {first second after after' : Process Number Variables}
    (samples : first.samples = Window.window kWindowSeconds (callSamples platform front))
    (samples' : second.samples = Window.window kWindowSeconds
      (callSamples platform (front.filter fun call => Timed call.frame)))
    {history history' : List (FrameCall Number × Forwarded Number)}
    (run : forwardAll platform first calls = .ok (after, history))
    (run' : forwardAll platform second (calls.filter fun call => Timed call.frame) =
      .ok (after', history')) :
    correctedTimes history = correctedTimes history' ↔
      ∀ before call rest, calls = before ++ call :: rest → Timed call.frame →
        correctedAfter platform (front ++ before) call =
          correctedAfter platform ((front ++ before).filter fun call => Timed call.frame) call := by
  induction calls generalizing front first second history history' with
  | nil =>
    cases run
    cases run'
    exact iff_of_true rfl fun before call rest split =>
      absurd split.symm (List.append_ne_nil_of_right_ne_nil _ (List.cons_ne_nil _ _))
  | cons call calls inductionHypothesis =>
    obtain ⟨next, forwarded, rest, forward, later, rfl⟩ := forwardAll_cons run
    obtain ⟨samplesNext, corrected⟩ := correctedAfter_of_forward samples forward
    rw [forall_places_cons]
    by_cases timed : Timed call.frame
    · rw [List.filter_cons_of_pos (by exact decide_eq_true timed)] at run'
      obtain ⟨next', forwarded', rest', forward', later', rfl⟩ := forwardAll_cons run'
      obtain ⟨samplesNext', corrected'⟩ := correctedAfter_of_forward samples' forward'
      have filtered : (front.filter fun call => Timed call.frame) ++ [call] =
          (front ++ [call]).filter fun call => Timed call.frame := by
        rw [List.filter_append, List.filter_cons_of_pos (by exact decide_eq_true timed),
          List.filter_nil]
      rw [filtered] at samplesNext'
      have tail := inductionHypothesis _ samplesNext samplesNext' later later'
      simp only [List.append_assoc, List.singleton_append] at tail
      rw [correctedTimes, correctedTimes, List.filter_cons_of_pos (by exact decide_eq_true timed),
        List.filter_cons_of_pos (by exact decide_eq_true timed), List.map_cons, List.map_cons,
        List.cons_eq_cons, corrected, corrected', List.append_nil]
      exact and_congr (imp_iff_right timed).symm tail
    · rw [List.filter_cons_of_neg (by exact fun holds => timed (of_decide_eq_true holds))] at run'
      have filtered : (front.filter fun call => Timed call.frame) =
          (front ++ [call]).filter fun call => Timed call.frame := by
        rw [List.filter_append,
          List.filter_cons_of_neg (by exact fun holds => timed (of_decide_eq_true holds)),
          List.filter_nil, List.append_nil]
      rw [filtered] at samples'
      have tail := inductionHypothesis _ samplesNext samples' later run'
      simp only [List.append_assoc, List.singleton_append] at tail
      rw [correctedTimes,
        List.filter_cons_of_neg (by exact fun holds => timed (of_decide_eq_true holds))]
      exact tail.trans (and_iff_right fun here => absurd here timed).symm

variable [IsStrictOrderedRing Number]

theorem transferTime_of_not_timed {call : FrameCall Number} (untimed : ¬ Timed call.frame) :
    transferTime platform call = 0 := by
  rw [transferTime, frameTimes, stampTimes, not_timed_iff.mp untimed]
  norm_num

/-- Where the window of a call has the zero of a frame without timing data, it has a transfer time
of another frame that is not above zero. -/
def Covered (platform : Platform Number Variables) (front : List (FrameCall Number))
    (call : FrameCall Number) : Prop :=
  ∀ gone ∈ front, ¬ Timed gone.frame → Publishes platform gone = true →
    call.receivedNtpTime - gone.receivedNtpTime ≤ kWindowSeconds →
    ∃ kept ∈ front ++ [call], Timed kept.frame ∧ Publishes platform kept = true ∧
      call.receivedNtpTime - kept.receivedNtpTime ≤ kWindowSeconds ∧
      transferTime platform kept ≤ 0

/-- While the clock never goes back, the corrected time of a published call is its transfer time
less the least one of the published calls of the last half minute. -/
theorem correctedAfter_of_sorted {front : List (FrameCall Number)} {call : FrameCall Number}
    (published : Publishes platform call = true)
    (sorted : (front ++ [call]).Pairwise fun earlier later =>
      earlier.receivedNtpTime ≤ later.receivedNtpTime) :
    ∃ low, IsLeast {transfer | ∃ earlier ∈ front ++ [call], Publishes platform earlier = true ∧
        call.receivedNtpTime - earlier.receivedNtpTime ≤ kWindowSeconds ∧
          transferTime platform earlier = transfer} low ∧
      correctedAfter platform front call = some (transferTime platform call - low) := by
  have sample : sampleOf platform call =
      some (call.receivedNtpTime, transferTime platform call) := if_pos published
  have samples : callSamples platform (front ++ [call]) = callSamples platform front ++
      [(call.receivedNtpTime, transferTime platform call)] := by
    rw [callSamples, List.filterMap_append, List.filterMap_cons, sample, List.filterMap_nil,
      ← callSamples]
  have sortedSamples : Window.Sorted (callSamples platform (front ++ [call])) := by
    refine List.pairwise_filterMap.mpr (sorted.imp ?_)
    rintro earlier later ordered first made second made'
    rw [sampleOf, Option.ite_none_right_eq_some] at made made'
    obtain ⟨-, made⟩ := made
    obtain ⟨-, made'⟩ := made'
    cases made
    cases made'
    exact ordered
  rw [samples] at sortedSamples
  obtain ⟨low, least, value⟩ := clockOffsetCorrect_of_sorted sortedSamples
  rw [← samples] at least
  refine ⟨low, ?_, ?_⟩
  · convert least using 3 with transfer
    simp only [mem_callSamples]
    constructor
    · rintro ⟨earlier, member, publishes, recent, same⟩
      exact ⟨_, ⟨earlier, member, publishes, rfl, same⟩, recent⟩
    · rintro ⟨_, ⟨earlier, member, publishes, rfl, same⟩, recent⟩
      exact ⟨earlier, member, publishes, recent, same⟩
  · rw [correctedAfter, sample, Option.map_some, value]

/-- The corrected time of a call does not change exactly when it is covered. -/
theorem correctedAfter_eq_iff {front : List (FrameCall Number)} {call : FrameCall Number}
    (timed : Timed call.frame) (published : Publishes platform call = true)
    (sorted : (front ++ [call]).Pairwise fun earlier later =>
      earlier.receivedNtpTime ≤ later.receivedNtpTime) :
    correctedAfter platform front call =
        correctedAfter platform (front.filter fun call => Timed call.frame) call ↔
      Covered platform front call := by
  have filtered : ∀ earlier, earlier ∈ (front.filter fun call => Timed call.frame) ++ [call] ↔
      earlier ∈ front ++ [call] ∧ Timed earlier.frame := by
    intro earlier
    simp only [List.mem_append, List.mem_filter, List.mem_singleton, decide_eq_true_eq]
    constructor
    · rintro (⟨member, holds⟩ | rfl)
      · exact ⟨Or.inl member, holds⟩
      · exact ⟨Or.inr rfl, timed⟩
    · rintro ⟨member | rfl, holds⟩
      · exact Or.inl ⟨member, holds⟩
      · exact Or.inr rfl
  obtain ⟨low, ⟨attained, least⟩, value⟩ := correctedAfter_of_sorted published sorted
  obtain ⟨low', ⟨attained', least'⟩, value'⟩ := correctedAfter_of_sorted published
    (sorted.sublist (List.filter_sublist.append (List.Sublist.refl [call])))
  rw [value, value', Option.some_inj, sub_right_inj]
  have below : low ≤ low' := by
    obtain ⟨kept, member, publishes, recent, same⟩ := attained'
    exact least ⟨kept, ((filtered kept).mp member).1, publishes, recent, same⟩
  constructor
  · rintro rfl gone member untimed publishes recent
    have zero : low ≤ 0 := (least ⟨gone, List.mem_append_left _ member, publishes, recent,
      rfl⟩).trans_eq (transferTime_of_not_timed untimed)
    obtain ⟨kept, member', publishes', recent', same⟩ := attained'
    obtain ⟨inside, timed'⟩ := (filtered kept).mp member'
    exact ⟨kept, inside, timed', publishes', recent', same.trans_le zero⟩
  · intro covered
    refine le_antisymm below ?_
    obtain ⟨earlier, member, publishes, recent, rfl⟩ := attained
    by_cases here : Timed earlier.frame
    · exact least' ⟨earlier, (filtered earlier).mpr ⟨member, here⟩, publishes, recent, rfl⟩
    · -- the least transfer time is the zero of a frame without timing data
      have inFront : earlier ∈ front := by
        rcases List.mem_append.mp member with before | last
        · exact before
        · rw [List.mem_singleton.mp last] at here
          exact absurd timed here
      obtain ⟨kept, inside, timed', publishes', recent', low⟩ :=
        covered earlier inFront here publishes recent
      have above := least' ⟨kept, (filtered kept).mpr ⟨inside, timed'⟩, publishes', recent', rfl⟩
      rw [transferTime_of_not_timed here]
      exact above.trans low

/-- In a session whose clock never goes back, leaving out the frames without timing data changes no
corrected time exactly when every published frame with timing data that comes within half a minute
of a published one without has a transfer time in that half minute that is not above zero. -/
theorem corrected_undisturbed_iff {process after after' : Process Number Variables}
    (fresh : process.samples = []) {calls : List (FrameCall Number)}
    (sorted : calls.Pairwise fun earlier later => earlier.receivedNtpTime ≤ later.receivedNtpTime)
    {history history' : List (FrameCall Number × Forwarded Number)}
    (run : forwardAll platform process calls = .ok (after, history))
    (run' : forwardAll platform process (calls.filter fun call => Timed call.frame) =
      .ok (after', history')) :
    correctedTimes history = correctedTimes history' ↔
      ∀ front call back, calls = front ++ call :: back → Timed call.frame →
        Publishes platform call = true → Covered platform front call := by
  rw [correctedTimes_eq_iff [] fresh fresh run run']
  refine forall₄_congr fun front call back split => forall_congr' fun timed => ?_
  rw [List.nil_append]
  by_cases published : Publishes platform call = true
  · rw [split, List.append_cons] at sorted
    rw [imp_iff_right published]
    exact correctedAfter_eq_iff timed published (List.pairwise_append.mp sorted).1
  · have dropped : sampleOf platform call = none := if_neg published
    refine iff_of_true ?_ fun publishes => absurd publishes published
    rw [correctedAfter, correctedAfter, dropped, Option.map_none, Option.map_none]

end

/-- Two frames sent at time zero, and between them one without timing data. -/
def disturbedCalls : List (FrameCall ℚ) :=
  [⟨ascii "\x7b\"ntp_time\":0\x7d", 5, 5⟩, ⟨ascii "\x7b\"id\":1\x7d", 6, 6⟩,
    ⟨ascii "\x7b\"ntp_time\":0\x7d", 7, 7⟩]

/-- The frame in the middle takes the place of the fastest one: the last transfer time is
corrected to seven, and without it to two. -/
theorem disturbedCalls_disturbed :
    ¬ Undisturbed examplePlatform exampleProcess disturbedCalls := by
  intro undisturbed
  obtain ⟨after, history, run⟩ :=
    forwardAll_ok examplePlatform exampleProcess disturbedCalls
  obtain ⟨after', history', run'⟩ := forwardAll_ok examplePlatform exampleProcess
    (disturbedCalls.filter fun call => Timed call.frame)
  have corrected : (forwardAll examplePlatform exampleProcess disturbedCalls).toOption.map
      (fun result => correctedTimes result.2) = some [some 0, some 7] := by decide +kernel
  have corrected' : (forwardAll examplePlatform exampleProcess
      (disturbedCalls.filter fun call => Timed call.frame)).toOption.map
        (fun result => correctedTimes result.2) = some [some 0, some 2] := by decide +kernel
  rw [run] at corrected
  rw [run'] at corrected'
  have times : correctedTimes history = [some 0, some 7] := Option.some.inj corrected
  have times' : correctedTimes history' = [some 0, some 2] := Option.some.inj corrected'
  have same := (undisturbed _ _ _ _ run run').1
  rw [times, times'] at same
  exact absurd same (by decide)

end ControllerBridge
