/-
This file is the model of the three consumers of a frame's timing values:
`clock_offset.cpp`, `frame_stats.cpp` and `timing_log.cpp`.

Their state is process-wide in the source and an argument here. What they print
or append to a file is the numbers they hand to `printf`.
-/

import Mathlib.Data.List.TakeWhile
import Mathlib.Tactic.Common

namespace ControllerBridge

/-! ### The clock offset -/

/-- `g_samples`: the time and the frame transfer time of recent frames, oldest first. -/
abbrev Samples (Double : Type) := List (Double × Double)

section

variable {Double : Type} [Sub Double] [LT Double] [DecidableLT Double] [OfScientific Double]

def kWindowSeconds : Double := 30.0

def clockOffsetReset : Samples Double := []

/-- A sample that has left the window. -/
def expired (now : Double) (sample : Double × Double) : Bool :=
  kWindowSeconds < now - sample.1

/-- The running minimum of the loop over the samples. -/
def smaller (rollingMin : Double) (sample : Double × Double) : Double :=
  if sample.2 < rollingMin then sample.2 else rollingMin

/-- The samples that are left and the corrected transfer time. The window holds the new sample
when the loop over it starts, as that sample is not expired; were it empty, the source would
read past its end, and the model takes the new sample. -/
def clockOffsetCorrect (samples : Samples Double) (frameTransferTime now : Double) :
    Samples Double × Double :=
  let samples := (samples ++ [(now, frameTransferTime)]).dropWhile (expired now)
  let front := samples.headD (now, frameTransferTime)
  let rollingMin := samples.foldl smaller front.2
  (samples, frameTransferTime - rollingMin)

end

/-! ### Statistics -/

/-- `running_stat_t`. -/
structure RunningStat (Double : Type) where
  sum : Double
  min : Double
  max : Double

/-- The statistics of `frame_stats.cpp`. -/
structure FrameStats (Double : Type) where
  count : Nat
  transfer : RunningStat Double
  processing : RunningStat Double
  total : RunningStat Double

/-- The numbers of one printed line, in milliseconds. -/
structure StatLine (Double : Type) where
  min : Double
  average : Double
  max : Double

/-- The numbers of one printed report. -/
structure StatReport (Double : Type) where
  count : Nat
  transfer : StatLine Double
  processing : StatLine Double
  total : StatLine Double

def windowSize : Nat := 100

section

variable {Double : Type} [Add Double] [Mul Double] [Div Double] [Neg Double] [LT Double]
  [DecidableLT Double] [OfScientific Double] [NatCast Double]

/-- `stat_reset`; `dblMax` is the largest finite number. -/
def statReset (dblMax : Double) : RunningStat Double := ⟨0.0, dblMax, -dblMax⟩

def statAdd (stat : RunningStat Double) (value : Double) : RunningStat Double where
  sum := stat.sum + value
  min := if value < stat.min then value else stat.min
  max := if stat.max < value then value else stat.max

def statPrint (stat : RunningStat Double) (count : Nat) : StatLine Double :=
  ⟨stat.min * 1000.0, stat.sum / (count : Double) * 1000.0, stat.max * 1000.0⟩

/-- The statistics before the first frame, zero as the source's static data. -/
def FrameStats.initial : FrameStats Double :=
  ⟨0, ⟨0.0, 0.0, 0.0⟩, ⟨0.0, 0.0, 0.0⟩, ⟨0.0, 0.0, 0.0⟩⟩

/-- The statistics with one more frame, and the report when this frame completes a window. -/
def frameStatsRecord (dblMax : Double) (stats : FrameStats Double)
    (frameTransferTime processingTime : Double) :
    FrameStats Double × Option (StatReport Double) :=
  let start := if stats.count = 0 then
      ⟨0, statReset dblMax, statReset dblMax, statReset dblMax⟩
    else stats
  let count := start.count + 1
  let transfer := statAdd start.transfer frameTransferTime
  let processing := statAdd start.processing processingTime
  let total := statAdd start.total (frameTransferTime + processingTime)
  if windowSize ≤ count then
    (⟨0, transfer, processing, total⟩, some {
      count := count
      transfer := statPrint transfer count
      processing := statPrint processing count
      total := statPrint total count })
  else (⟨count, transfer, processing, total⟩, none)

/-! ### The timing log -/

/-- The numbers of one row of the timing log. -/
structure LogRow (Double : Type) where
  wallEpochSeconds : Double
  frameTransferTime : Double
  frameTransferTimeCorrected : Double
  baseStationProcessingTime : Double

/-- The row appended, if the log is open. -/
def timingLogRecord (isOpen : Bool) (wallEpochSeconds frameTransferTime
    frameTransferTimeCorrected baseStationProcessingTime : Double) : Option (LogRow Double) :=
  if isOpen then some {
    wallEpochSeconds := wallEpochSeconds
    frameTransferTime := frameTransferTime * 1000.0
    frameTransferTimeCorrected := frameTransferTimeCorrected * 1000.0
    baseStationProcessingTime := baseStationProcessingTime * 1000.0 }
  else none

end

end ControllerBridge
