/-
This file is about the reports of `frame_stats.cpp` over whole runs, in exact
arithmetic.

The statistics start over with every hundredth frame, and the values they start
at are no values of a frame: they are above and below all of them. Between two
reports the statistics are those of the frames since the last report
(`Pending`), so that each report is about a hundred frames of its own
(`reports_windows`).
-/

import Mathlib.Algebra.Order.BigOperators.Group.List
import Mathlib.Algebra.Order.Field.Basic
import Mathlib.Data.List.ReduceOption
import Mathlib.Order.Bounds.Basic
import Mathlib.Tactic.NormNum
import ControllerBridge.Library.Machine
import ControllerBridge.Timing

namespace ControllerBridge

theorem windowSize_pos : 0 < windowSize := by decide

section

variable {Number : Type} [Field Number] [LinearOrder Number]

/-- The reports printed over some frames, each with its transfer and its processing time. -/
def reports (dblMax : Number) (frames : List (Number × Number)) : List (StatReport Number) :=
  (Machine.outputs (fun stats (frame : Number × Number) =>
    frameStatsRecord dblMax stats frame.1 frame.2) .initial frames).reduceOption

/-- The statistics after some frames. -/
def statsAfter (dblMax : Number) (frames : List (Number × Number)) : FrameStats Number :=
  Machine.after (fun stats (frame : Number × Number) =>
    frameStatsRecord dblMax stats frame.1 frame.2) .initial frames

/-- The times of a frame together. -/
def totalTime (frame : Number × Number) : Number := frame.1 + frame.2

/-! ### One statistic -/

/-- A printed line gives the least, the mean and the greatest of some values, in this order. -/
def Summarises (values : List Number) (line : StatLine Number) : Prop :=
  ∃ low high, IsLeast {value | value ∈ values} low ∧ IsGreatest {value | value ∈ values} high ∧
    line = ⟨low * 1000, values.sum / values.length * 1000, high * 1000⟩ ∧
    low ≤ values.sum / values.length ∧ values.sum / values.length ≤ high

/-- A statistic that has seen some values since it was reset. -/
structure Accumulates (dblMax : Number) (values : List Number) (stat : RunningStat Number) :
    Prop where
  sum : stat.sum = values.sum
  min : IsLeast (insert dblMax {value | value ∈ values}) stat.min
  max : IsGreatest (insert (-dblMax) {value | value ∈ values}) stat.max

variable {dblMax : Number} {values : List Number} {stat : RunningStat Number}

theorem Accumulates.add (accumulates : Accumulates dblMax values stat) (value : Number) :
    Accumulates dblMax (values ++ [value]) (statAdd stat value) := by
  have grows : ∀ first : Number, insert first {other | other ∈ values ++ [value]} =
      insert value (insert first {other | other ∈ values}) := by
    intro first
    ext other
    simp only [Set.mem_insert_iff, Set.mem_ofPred_eq, List.mem_append, List.mem_singleton]
    tauto
  refine ⟨?_, ?_, ?_⟩
  · rw [statAdd, List.sum_append, List.sum_singleton, accumulates.sum]
  · rw [grows, statAdd, ← min_def_lt]
    exact accumulates.min.insert value
  · rw [grows, statAdd, ← max_def_lt, max_comm]
    exact accumulates.max.insert value

omit [Field Number] in
/-- A value that is above all others does not count for the least one. -/
theorem isLeast_of_insert {above least : Number} {others : Set Number}
    (isLeast : IsLeast (insert above others) least) (nonempty : others.Nonempty)
    (below : ∀ other ∈ others, other ≤ above) : IsLeast others least := by
  have lower : least ∈ lowerBounds others :=
    fun other member => isLeast.2 (Set.mem_insert_of_mem _ member)
  refine ⟨?_, lower⟩
  rcases isLeast.1 with rfl | member
  · obtain ⟨other, member⟩ := nonempty
    rwa [← (lower member).antisymm (below other member)] at member
  · exact member

omit [Field Number] in
theorem isGreatest_of_insert {below greatest : Number} {others : Set Number}
    (isGreatest : IsGreatest (insert below others) greatest) (nonempty : others.Nonempty)
    (above : ∀ other ∈ others, below ≤ other) : IsGreatest others greatest := by
  have upper : greatest ∈ upperBounds others :=
    fun other member => isGreatest.2 (Set.mem_insert_of_mem _ member)
  refine ⟨?_, upper⟩
  rcases isGreatest.1 with rfl | member
  · obtain ⟨other, member⟩ := nonempty
    rwa [(upper member).antisymm (above other member)] at member
  · exact member

variable [IsStrictOrderedRing Number]

theorem accumulates_statReset (dblMax : Number) : Accumulates dblMax [] (statReset dblMax) := by
  have alone : ∀ first : Number, insert first {value | value ∈ ([] : List Number)} = {first} := by
    intro first
    ext value
    simp only [List.not_mem_nil, Set.mem_insert_iff, Set.mem_ofPred_eq, or_false,
      Set.mem_singleton_iff]
  refine ⟨?_, ?_, ?_⟩
  · rw [statReset, List.sum_nil]
    norm_num
  · rw [alone]
    exact isLeast_singleton
  · rw [alone]
    exact isGreatest_singleton

/-- What is printed of a statistic that has seen some values, none of them out of range. -/
theorem Accumulates.summarises (accumulates : Accumulates dblMax values stat)
    (nonempty : values ≠ []) (inRange : ∀ value ∈ values, |value| ≤ dblMax) :
    Summarises values (statPrint stat values.length) := by
  have some : {value | value ∈ values}.Nonempty := List.exists_mem_of_ne_nil values nonempty
  have least := isLeast_of_insert accumulates.min some
    fun value member => (abs_le.mp (inRange value member)).2
  have greatest := isGreatest_of_insert accumulates.max some
    fun value member => (abs_le.mp (inRange value member)).1
  have positive : (0 : Number) < values.length :=
    Nat.cast_pos.mpr (List.length_pos_of_ne_nil nonempty)
  refine ⟨stat.min, stat.max, least, greatest, ?_, ?_, ?_⟩
  · rw [statPrint, accumulates.sum, show (1000.0 : Number) = 1000 by norm_num]
  · rw [le_div_iff₀ positive, mul_comm, ← nsmul_eq_mul]
    exact List.card_nsmul_le_sum values _ fun value member => least.2 member
  · rw [div_le_iff₀ positive, mul_comm, ← nsmul_eq_mul]
    exact List.sum_le_card_nsmul values _ fun value member => greatest.2 member

/-! ### The statistics of some frames -/

/-- The reset at the beginning of a window. -/
def startWindow (dblMax : Number) (stats : FrameStats Number) : FrameStats Number :=
  if stats.count = 0 then ⟨0, statReset dblMax, statReset dblMax, statReset dblMax⟩ else stats

def addFrame (stats : FrameStats Number) (frame : Number × Number) : FrameStats Number :=
  ⟨stats.count + 1, statAdd stats.transfer frame.1, statAdd stats.processing frame.2,
    statAdd stats.total (totalTime frame)⟩

def statReport (stats : FrameStats Number) : StatReport Number where
  count := stats.count
  transfer := statPrint stats.transfer stats.count
  processing := statPrint stats.processing stats.count
  total := statPrint stats.total stats.count

omit [IsStrictOrderedRing Number] in
theorem frameStatsRecord_eq (dblMax : Number) (stats : FrameStats Number)
    (frame : Number × Number) :
    frameStatsRecord dblMax stats frame.1 frame.2 =
      let added := addFrame (startWindow dblMax stats) frame
      if windowSize ≤ added.count then ({ added with count := 0 }, some (statReport added))
      else (added, none) :=
  rfl

variable (dblMax) in
/-- The statistics are those of some frames. -/
structure Sees (frames : List (Number × Number)) (stats : FrameStats Number) : Prop where
  count : stats.count = frames.length
  transfer : Accumulates dblMax (frames.map Prod.fst) stats.transfer
  processing : Accumulates dblMax (frames.map Prod.snd) stats.processing
  total : Accumulates dblMax (frames.map totalTime) stats.total

variable (dblMax) in
/-- The statistics wait for some more frames until the next report. -/
structure Pending (frames : List (Number × Number)) (stats : FrameStats Number) : Prop where
  count : stats.count = frames.length
  short : frames.length < windowSize
  sees : frames ≠ [] → Sees dblMax frames stats

variable (dblMax) in
/-- The times of the frames, and their sums, are in range. -/
def InRange (frames : List (Number × Number)) : Prop :=
  ∀ frame ∈ frames, |frame.1| ≤ dblMax ∧ |frame.2| ≤ dblMax ∧ |totalTime frame| ≤ dblMax

/-- A report about the frames of a window. -/
structure Reports (frames : List (Number × Number)) (report : StatReport Number) : Prop where
  count : report.count = windowSize
  divisor : (report.count : Number) ≠ 0
  transfer : Summarises (frames.map Prod.fst) report.transfer
  processing : Summarises (frames.map Prod.snd) report.processing
  total : Summarises (frames.map totalTime) report.total
  together : report.total.average = report.transfer.average + report.processing.average

variable {frames : List (Number × Number)} {stats : FrameStats Number}

theorem Pending.startWindow (pending : Pending dblMax frames stats) :
    Sees dblMax frames (startWindow dblMax stats) := by
  rw [ControllerBridge.startWindow]
  split
  · rename_i none
    rw [pending.count, List.length_eq_zero_iff] at none
    rw [none]
    exact ⟨rfl, accumulates_statReset dblMax, accumulates_statReset dblMax,
      accumulates_statReset dblMax⟩
  · rename_i some
    rw [pending.count, List.length_eq_zero_iff] at some
    exact pending.sees some

omit [IsStrictOrderedRing Number] in
theorem Sees.addFrame (sees : Sees dblMax frames stats) (frame : Number × Number) :
    Sees dblMax (frames ++ [frame]) (addFrame stats frame) := by
  refine ⟨?_, ?_, ?_, ?_⟩
  · rw [List.length_append, List.length_singleton, ← sees.count]
    rfl
  · rw [List.map_append]
    exact sees.transfer.add frame.1
  · rw [List.map_append]
    exact sees.processing.add frame.2
  · rw [List.map_append]
    exact sees.total.add (totalTime frame)

theorem Sees.reports (sees : Sees dblMax frames stats) (full : frames.length = windowSize)
    (inRange : InRange dblMax frames) : Reports frames (statReport stats) := by
  have nonempty : frames ≠ [] := by
    rintro rfl
    exact absurd full windowSize_pos.ne
  have line : ∀ {stat : RunningStat Number} {time : Number × Number → Number},
      Accumulates dblMax (frames.map time) stat → (∀ frame ∈ frames, |time frame| ≤ dblMax) →
      Summarises (frames.map time) (statPrint stat stats.count) := by
    intro stat time accumulates inRange
    rw [sees.count, ← frames.length_map time]
    refine accumulates.summarises (mt List.map_eq_nil_iff.mp nonempty) ?_
    rw [List.forall_mem_map]
    exact inRange
  have sums : (frames.map totalTime).sum = (frames.map Prod.fst).sum + (frames.map Prod.snd).sum :=
    List.sum_map_add
  refine ⟨sees.count.trans full, ?_, ?_, ?_, ?_, ?_⟩
  · rw [statReport, sees.count, full, Nat.cast_ne_zero]
    exact windowSize_pos.ne'
  · exact line sees.transfer fun frame member => (inRange frame member).1
  · exact line sees.processing fun frame member => (inRange frame member).2.1
  · exact line sees.total fun frame member => (inRange frame member).2.2
  · rw [statReport, statPrint, statPrint, statPrint, sees.transfer.sum, sees.processing.sum,
      sees.total.sum, sums, add_div, add_mul]

/-- A frame is added to those since the last report, or completes a window and its report. -/
theorem Pending.record (pending : Pending dblMax frames stats) {frame : Number × Number}
    (inRange : InRange dblMax (frames ++ [frame])) :
    frames.length + 1 < windowSize ∧
        (frameStatsRecord dblMax stats frame.1 frame.2).2 = none ∧
        Pending dblMax (frames ++ [frame]) (frameStatsRecord dblMax stats frame.1 frame.2).1 ∨
      frames.length + 1 = windowSize ∧
        (∃ report, (frameStatsRecord dblMax stats frame.1 frame.2).2 = some report ∧
          Reports (frames ++ [frame]) report) ∧
        Pending dblMax [] (frameStatsRecord dblMax stats frame.1 frame.2).1 := by
  have sees := pending.startWindow.addFrame frame
  have length : (frames ++ [frame]).length = frames.length + 1 := List.length_append
  have room := pending.short
  rw [frameStatsRecord_eq]
  dsimp only
  rw [sees.count, length]
  split
  · rename_i full
    have full : frames.length + 1 = windowSize := Nat.le_antisymm room full
    refine Or.inr ⟨full, ⟨_, rfl, sees.reports (length.trans full) inRange⟩, rfl,
      windowSize_pos, fun some => absurd rfl some⟩
  · rename_i short
    rw [not_le] at short
    exact Or.inl ⟨short, rfl, sees.count, length.trans_lt short, fun _ => sees⟩

/-! ### Runs -/

/-- The frames of a window, by its number. -/
def windowFrames (frames : List (Number × Number)) (number : ℕ) : List (Number × Number) :=
  (frames.drop (windowSize * number)).take windowSize

omit [Field Number] [LinearOrder Number] [IsStrictOrderedRing Number] in
/-- A window that is complete stays as it is. -/
theorem windowFrames_concat (frame : Number × Number) {number : ℕ}
    (complete : number < frames.length / windowSize) :
    windowFrames (frames ++ [frame]) number = windowFrames frames number := by
  have inside : windowSize * number + windowSize ≤ frames.length :=
    (Nat.mul_le_mul_left windowSize complete).trans (Nat.mul_div_le _ _)
  rw [windowFrames, windowFrames, List.drop_append_of_le_length (by omega),
    List.take_append_of_le_length (by rw [List.length_drop]; omega)]

omit [IsStrictOrderedRing Number] in
theorem reports_concat (frames : List (Number × Number)) (frame : Number × Number) :
    reports dblMax (frames ++ [frame]) = reports dblMax frames ++
      (frameStatsRecord dblMax (statsAfter dblMax frames) frame.1 frame.2).2.toList := by
  rw [reports, Machine.outputs_concat, List.reduceOption_append, List.reduceOption_singleton]
  rfl

omit [IsStrictOrderedRing Number] in
theorem statsAfter_concat (frames : List (Number × Number)) (frame : Number × Number) :
    statsAfter dblMax (frames ++ [frame]) =
      (frameStatsRecord dblMax (statsAfter dblMax frames) frame.1 frame.2).1 :=
  Machine.after_concat ..

/-- What holds of the items of a list by their numbers, and of one more behind them. -/
theorem forall_getElem?_concat {Item : Type} {items : List Item} {item : Item}
    {Holds : ℕ → Item → Prop} (old : ∀ number other, items[number]? = some other →
      Holds number other) (last : Holds items.length item) :
    ∀ number other, (items ++ [item])[number]? = some other → Holds number other := by
  intro number other found
  rcases Nat.lt_or_ge number items.length with before | beyond
  · rw [List.getElem?_append_left before] at found
    exact old number other found
  · rw [List.getElem?_append_right beyond, List.getElem?_singleton] at found
    split at found
    · rename_i here
      obtain rfl := Option.some_inj.mp found
      rwa [Nat.le_antisymm (Nat.sub_eq_zero_iff_le.mp here) beyond]
    · cases found

/-- Over any frames there is one report for each full window of them, in order, and the
statistics are those of the frames after the last full window. -/
theorem reports_pending (frames : List (Number × Number)) (inRange : InRange dblMax frames) :
    Pending dblMax (frames.drop (windowSize * (frames.length / windowSize)))
        (statsAfter dblMax frames) ∧
      (reports dblMax frames).length = frames.length / windowSize ∧
      ∀ number report, (reports dblMax frames)[number]? = some report →
        Reports (windowFrames frames number) report := by
  induction frames using List.reverseRecOn with
  | nil =>
    rw [List.drop_nil, List.length_nil, Nat.zero_div]
    refine ⟨⟨rfl, windowSize_pos, fun some => absurd rfl some⟩, rfl, ?_⟩
    intro number report printed
    cases printed
  | append_singleton frames frame inductionHypothesis =>
    obtain ⟨pending, count, windows⟩ := inductionHypothesis fun earlier member =>
      inRange earlier (List.mem_append_left _ member)
    have upTo : windowSize * (frames.length / windowSize) ≤ frames.length := Nat.mul_div_le _ _
    have rest : (frames ++ [frame]).drop (windowSize * (frames.length / windowSize)) =
        frames.drop (windowSize * (frames.length / windowSize)) ++ [frame] :=
      List.drop_append_of_le_length upTo
    have restInRange : InRange dblMax
        (frames.drop (windowSize * (frames.length / windowSize)) ++ [frame]) := by
      rw [← rest]
      exact fun earlier member => inRange earlier (List.mem_of_mem_drop member)
    have old : ∀ number report, (reports dblMax frames)[number]? = some report →
        Reports (windowFrames (frames ++ [frame]) number) report := by
      intro number report printed
      obtain ⟨before, -⟩ := List.getElem?_eq_some_iff.mp printed
      rw [windowFrames_concat frame (count ▸ before)]
      exact windows number report printed
    rw [reports_concat, statsAfter_concat, List.length_append, List.length_append,
      List.length_singleton]
    rcases pending.record restInRange with
      ⟨short, silent, next⟩ | ⟨full, ⟨report, prints, about⟩, next⟩
    · have same : (frames.length + 1) / windowSize = frames.length / windowSize := by
        rw [List.length_drop] at short
        rw [windowSize] at short ⊢
        omega
      rw [silent, same, rest, Option.toList_none, List.append_nil]
      exact ⟨next, count, old⟩
    · have another : (frames.length + 1) / windowSize = frames.length / windowSize + 1 ∧
          frames.length + 1 = windowSize * (frames.length / windowSize + 1) := by
        rw [List.length_drop] at full
        rw [windowSize] at full upTo ⊢
        omega
      have nothing : (frames ++ [frame]).drop (windowSize * (frames.length / windowSize + 1)) =
          [] := by
        rw [← another.2]
        exact List.drop_of_length_le List.length_append.le
      rw [prints, another.1, nothing, Option.toList_some, count, List.length_singleton]
      refine ⟨next, rfl, forall_getElem?_concat old ?_⟩
      rw [count, windowFrames, rest, List.take_of_length_le (List.length_append.trans full).le]
      exact about

/-- Over any frames whose times are in range, one report is printed for each hundred frames. It
gives the least, the mean and the greatest of the times of exactly the frames of its window, for
the transfer, the processing and both together, whose mean is the sum of the two means. -/
theorem reports_windows (frames : List (Number × Number)) (inRange : InRange dblMax frames) :
    (reports dblMax frames).length = frames.length / windowSize ∧
      ∀ number report, (reports dblMax frames)[number]? = some report →
        Reports (windowFrames frames number) report :=
  (reports_pending frames inRange).2

theorem exampleFrames_reports :
    (reports (10 : ℚ) (List.replicate 100 (1, 2) ++ List.replicate 150 (-3, 5))).length =
        (List.replicate 100 ((1 : ℚ), (2 : ℚ)) ++ List.replicate 150 (-3, 5)).length /
          windowSize ∧
      ∀ number report, (reports (10 : ℚ)
          (List.replicate 100 (1, 2) ++ List.replicate 150 (-3, 5)))[number]? = some report →
        Reports (windowFrames (List.replicate 100 (1, 2) ++ List.replicate 150 (-3, 5)) number)
          report := by
  refine reports_windows _ fun frame member => ?_
  rcases List.mem_append.mp member with first | second
  · rw [List.eq_of_mem_replicate first, totalTime]
    norm_num
  · rw [List.eq_of_mem_replicate second, totalTime]
    norm_num

end

end ControllerBridge
