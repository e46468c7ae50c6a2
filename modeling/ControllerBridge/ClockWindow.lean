/-
This file is about the runs of the clock estimator, in exact arithmetic.

The samples of a run are the window of the library over the calls since the
last reset. While the clock never goes back within a session this is the
rolling minimum over the last half minute (`rolling_minimum`). A clock that is
stepped may leave a sample behind one that looks younger, and `fresh_iff` says
when it does not. Whatever the clock does, an offset that is the same for a
whole session cancels (`offset_cancels`).
-/

import ControllerBridge.ClockOffset
import ControllerBridge.Library.Machine
import ControllerBridge.Library.Window

namespace ControllerBridge

/-- A call of `clock_offset.cpp`. -/
inductive ClockCall (Number : Type) where
  | reset
  | correct (frameTransferTime now : Number)

/-- The samples of all calls since the last reset, oldest first. -/
def sessionSamples {Number : Type} (calls : List (ClockCall Number)) : Samples Number :=
  calls.foldl (fun session call => match call with
    | .reset => []
    | .correct frameTransferTime now => session ++ [(now, frameTransferTime)]) []

section

variable {Number : Type} [Sub Number] [LT Number] [DecidableLT Number] [OfScientific Number]

/-- The samples after a call, and what it returns. -/
def clockCall (samples : Samples Number) : ClockCall Number → Samples Number × Option Number
  | .reset => (clockOffsetReset, none)
  | .correct frameTransferTime now =>
    let result := clockOffsetCorrect samples frameTransferTime now
    (result.1, some result.2)

/-- The samples after some calls; at first there are none. -/
def clockSamples (calls : List (ClockCall Number)) : Samples Number :=
  Machine.after clockCall [] calls

/-- What the calls return. -/
def clockReturns (calls : List (ClockCall Number)) : List (Option Number) :=
  Machine.outputs clockCall [] calls

end

theorem sessionSamples_correct {Number : Type} (calls : List (ClockCall Number))
    (frameTransferTime now : Number) :
    sessionSamples (calls ++ [.correct frameTransferTime now]) =
      sessionSamples calls ++ [(now, frameTransferTime)] := by
  rw [sessionSamples, List.foldl_append]
  rfl

theorem sessionSamples_reset {Number : Type} (calls : List (ClockCall Number)) :
    sessionSamples (calls ++ [.reset]) = [] := by
  rw [sessionSamples, List.foldl_append]
  rfl

variable {Number : Type} [Field Number] [LinearOrder Number]

/-- The samples are the window over the calls of the session. -/
theorem clockSamples_eq_window (calls : List (ClockCall Number)) :
    clockSamples calls = Window.window kWindowSeconds (sessionSamples calls) := by
  refine Machine.after_invariant
    (fun calls samples => samples = Window.window kWindowSeconds (sessionSamples calls))
    rfl ?_ calls
  rintro earlier samples call rfl
  cases call with
  | reset =>
    rw [sessionSamples_reset]
    rfl
  | correct frameTransferTime now =>
    rw [sessionSamples_correct, Window.window_concat]
    rfl

variable [IsStrictOrderedRing Number]

theorem kWindowSeconds_nonneg : (0 : Number) ≤ kWindowSeconds := by
  rw [kWindowSeconds]
  norm_num

/-- A call returns its transfer time less the least one among the samples after it. -/
theorem clockCall_spec (calls : List (ClockCall Number)) (frameTransferTime now : Number) :
    ∃ low, IsLeast {transfer | transfer ∈
        (clockSamples (calls ++ [.correct frameTransferTime now])).map Prod.snd} low ∧
      (clockCall (clockSamples calls) (.correct frameTransferTime now)).2 =
        some (frameTransferTime - low) ∧
      (now, frameTransferTime) ∈ clockSamples (calls ++ [.correct frameTransferTime now]) := by
  obtain ⟨kept, low, -, samples, least, value⟩ :=
    clockOffsetCorrect_spec (clockSamples calls) frameTransferTime now
  have after : clockSamples (calls ++ [.correct frameTransferTime now]) =
      kept ++ [(now, frameTransferTime)] := by
    rw [clockSamples, Machine.after_concat]
    exact samples
  rw [after]
  exact ⟨low, least, congrArg some value,
    List.mem_append_right _ (List.mem_singleton_self _)⟩

/-! ### A clock that never goes back -/

/-- What a call returns whose window is over some sorted samples. -/
theorem clockOffsetCorrect_of_sorted {session : Samples Number} {frameTransferTime now : Number}
    (sorted : Window.Sorted (session ++ [(now, frameTransferTime)])) :
    ∃ low, IsLeast {transfer | ∃ time, (time, transfer) ∈ session ++ [(now, frameTransferTime)] ∧
        now - time ≤ kWindowSeconds} low ∧
      (clockOffsetCorrect (Window.window kWindowSeconds session) frameTransferTime now).2 =
        frameTransferTime - low := by
  obtain ⟨kept, low, -, samples, least, value⟩ := clockOffsetCorrect_spec
    (Window.window kWindowSeconds session) frameTransferTime now
  have after : kept ++ [(now, frameTransferTime)] =
      Window.window kWindowSeconds (session ++ [(now, frameTransferTime)]) := by
    rw [Window.window_concat, ← samples]
    rfl
  refine ⟨low, ?_, value⟩
  rw [after, Window.window_of_sorted sorted] at least
  convert least using 3 with transfer
  simp only [List.mem_map, List.mem_filter, Bool.not_eq_true', Window.old_eq_false, Prod.exists,
    exists_eq_right]

/-- While the times of a session never decrease, a call keeps exactly the samples of the session
that are within the window, in order, and returns its transfer time less the least of theirs. -/
theorem rolling_minimum (calls : List (ClockCall Number)) (frameTransferTime now : Number)
    (sorted : Window.Sorted (sessionSamples (calls ++ [.correct frameTransferTime now]))) :
    clockSamples (calls ++ [.correct frameTransferTime now]) =
        ((sessionSamples (calls ++ [.correct frameTransferTime now])).filter
          fun sample => now - sample.1 ≤ kWindowSeconds) ∧
      ∃ low, IsLeast {transfer | ∃ time,
          (time, transfer) ∈ sessionSamples (calls ++ [.correct frameTransferTime now]) ∧
            now - time ≤ kWindowSeconds} low ∧
        (clockCall (clockSamples calls) (.correct frameTransferTime now)).2 =
          some (frameTransferTime - low) := by
  have kept : clockSamples (calls ++ [.correct frameTransferTime now]) =
      (sessionSamples (calls ++ [.correct frameTransferTime now])).filter
        fun sample => now - sample.1 ≤ kWindowSeconds := by
    rw [clockSamples_eq_window]
    rw [sessionSamples_correct] at sorted ⊢
    rw [Window.window_of_sorted sorted]
    refine List.filter_congr fun sample _ => ?_
    rw [Window.old, ← decide_not]
    exact decide_eq_decide.mpr not_lt
  rw [sessionSamples_correct] at sorted
  obtain ⟨low, least, value⟩ := clockOffsetCorrect_of_sorted sorted
  rw [← clockSamples_eq_window] at value
  rw [← sessionSamples_correct] at least
  exact ⟨kept, low, least, congrArg some value⟩

/-- Two calls half a minute apart, the boundary of the window, and a reset before them. -/
theorem exampleCalls_rolling_minimum :
    clockSamples ([.correct 1 5, .reset, .correct 2 10] ++ [ClockCall.correct (3 : ℚ) 40]) =
        ((sessionSamples ([.correct 1 5, .reset, .correct 2 10] ++ [.correct (3 : ℚ) 40])).filter
          fun sample => 40 - sample.1 ≤ kWindowSeconds) ∧
      ∃ low, IsLeast {transfer | ∃ time, (time, transfer) ∈ sessionSamples
            ([.correct 1 5, .reset, .correct 2 10] ++ [.correct (3 : ℚ) 40]) ∧
            40 - time ≤ kWindowSeconds} low ∧
        (clockCall (clockSamples [.correct 1 5, .reset, .correct 2 10])
          (.correct (3 : ℚ) 40)).2 = some (3 - low) := by
  refine rolling_minimum [.correct 1 5, .reset, .correct 2 10] 3 40 ?_
  rw [sessionSamples_correct]
  exact List.pairwise_pair.mpr (by norm_num)

/-! ### A clock that is stepped -/

/-- Every sample of the session that is too old at a time is outrun: a call after it came more
than the window after it and after all samples before it. -/
def Outrun (session : Samples Number) (now : Number) : Prop :=
  ∀ early stale late, session = early ++ stale :: late → kWindowSeconds < now - stale.1 →
    ∃ call ∈ late, ∀ sample ∈ early ++ [stale], kWindowSeconds < call.1 - sample.1

/-- When the times never decrease, a too old sample is outrun by the last call itself. -/
theorem outrun_of_sorted {session : Samples Number} {last : Number × Number}
    (sorted : Window.Sorted (session ++ [last])) : Outrun (session ++ [last]) last.1 := by
  intro early stale late whole tooOld
  have upTo : ∀ sample ∈ early ++ [stale], sample.1 ≤ stale.1 := by
    rw [whole, Window.Sorted, List.append_cons, List.pairwise_append, List.pairwise_append]
      at sorted
    intro sample member
    rcases List.mem_append.mp member with before | here
    · exact sorted.1.2.2 sample before stale (List.mem_singleton_self stale)
    · rw [List.mem_singleton.mp here]
  rcases List.eq_nil_or_concat late with rfl | ⟨middle, last', rfl⟩
  · obtain ⟨-, same⟩ := List.append_inj' whole rfl
    rw [List.singleton_inj.mp same, sub_self] at tooOld
    exact absurd tooOld (not_lt.mpr kWindowSeconds_nonneg)
  · rw [List.concat_eq_append] at whole ⊢
    rw [← List.cons_append, ← List.append_assoc] at whole
    obtain ⟨-, same⟩ := List.append_inj' whole rfl
    rw [List.singleton_inj.mp same] at tooOld
    refine ⟨last', List.mem_concat_self, fun sample member => tooOld.trans_le ?_⟩
    exact sub_le_sub_left (upTo sample member) _

/-- After a call all samples are within its window exactly when the too old ones are outrun. -/
theorem fresh_call_iff (calls : List (ClockCall Number)) (frameTransferTime now : Number) :
    (∀ sample ∈ clockSamples (calls ++ [.correct frameTransferTime now]),
        now - sample.1 ≤ kWindowSeconds) ↔
      Outrun (sessionSamples (calls ++ [.correct frameTransferTime now])) now := by
  rw [clockSamples_eq_window]
  generalize sessionSamples (calls ++ [.correct frameTransferTime now]) = session
  have lost : ∀ early stale late, session = early ++ stale :: late →
      ((∃ call ∈ late, ∀ sample ∈ early ++ [stale], kWindowSeconds < call.1 - sample.1) ↔
        ¬ stale :: late <:+ Window.window kWindowSeconds session) := by
    rintro early stale late rfl
    have keeps : Window.Keeps kWindowSeconds early stale late ↔
        Window.Reaches kWindowSeconds early stale late := Window.keeps_iff kWindowSeconds_nonneg
    rw [Window.Keeps] at keeps
    rw [keeps, Window.Reaches]
    simp only [not_forall, not_exists, not_and, not_le, exists_prop]
  constructor
  · intro fresh early stale late whole tooOld
    rw [lost early stale late whole]
    intro kept
    exact absurd (fresh stale (kept.subset List.mem_cons_self)) (not_le.mpr tooOld)
  · intro outrun sample member
    by_contra tooOld
    obtain ⟨front, late, window⟩ := List.append_of_mem member
    obtain ⟨dropped, whole⟩ := Window.window_suffix kWindowSeconds session
    have split : session = (dropped ++ front) ++ sample :: late := by
      rw [List.append_assoc, ← window, whole]
    refine (lost _ _ _ split).mp (outrun _ _ _ split (not_le.mp tooOld)) ⟨front, window.symm⟩

/-- In a run, every call leaves no sample that is too old for it exactly when at every call the
samples too old for it are outrun. -/
theorem fresh_iff (calls : List (ClockCall Number)) :
    (∀ earlier frameTransferTime now later,
        calls = earlier ++ .correct frameTransferTime now :: later →
        ∀ sample ∈ clockSamples (earlier ++ [.correct frameTransferTime now]),
          now - sample.1 ≤ kWindowSeconds) ↔
      ∀ earlier frameTransferTime now later,
        calls = earlier ++ .correct frameTransferTime now :: later →
        Outrun (sessionSamples (earlier ++ [.correct frameTransferTime now])) now := by
  simp only [fresh_call_iff]

/-- A clock that is stepped back by a minute and a half after the first frame, and then goes on
for forty seconds. -/
def steppedClock : List (ClockCall ℚ) := [.correct 5 100, .correct 1 10, .correct 3 50]

theorem steppedClock_fresh_iff :
    (∀ earlier frameTransferTime now later,
        steppedClock = earlier ++ .correct frameTransferTime now :: later →
        ∀ sample ∈ clockSamples (earlier ++ [.correct frameTransferTime now]),
          now - sample.1 ≤ kWindowSeconds) ↔
      ∀ earlier frameTransferTime now later,
        steppedClock = earlier ++ .correct frameTransferTime now :: later →
        Outrun (sessionSamples (earlier ++ [.correct frameTransferTime now])) now :=
  fresh_iff steppedClock

/-- At the last frame the second sample is too old, but stands behind the first, and is the least
one. -/
theorem steppedClock_stale :
    ¬ (∀ sample ∈ clockSamples steppedClock, 50 - sample.1 ≤ kWindowSeconds) ∧
      (clockReturns steppedClock).getLast? = some (some (3 - 1)) := by
  decide +kernel

/-! ### An offset of the controller's clock -/

/-- The calls with an offset added to every transfer time, one for each session; the sessions
are numbered from `session` on. -/
def shifted (offset : ℕ → Number) : ℕ → List (ClockCall Number) → List (ClockCall Number)
  | _, [] => []
  | session, .reset :: calls => .reset :: shifted offset (session + 1) calls
  | session, .correct frameTransferTime now :: calls =>
    .correct (frameTransferTime + offset session) now :: shifted offset session calls

/-- A sample with an offset added to its transfer time. -/
def shiftSample (offset : Number) (sample : Number × Number) : Number × Number :=
  (sample.1, sample.2 + offset)

theorem foldl_smaller_shift (offset : Number) (samples : Samples Number) (first : Number) :
    (samples.map (shiftSample offset)).foldl smaller (first + offset) =
      samples.foldl smaller first + offset := by
  induction samples generalizing first with
  | nil => rfl
  | cons sample samples inductionHypothesis =>
    have step : smaller (first + offset) (shiftSample offset sample) =
        smaller first sample + offset := by
      rw [smaller, smaller, shiftSample, apply_ite (· + offset)]
      simp only [add_lt_add_iff_right]
    rw [List.map_cons, List.foldl_cons, List.foldl_cons, step, inductionHypothesis]

/-- An offset on all transfer times stays on the samples and leaves the correction. -/
theorem clockOffsetCorrect_shift (offset : Number) (samples : Samples Number)
    (frameTransferTime now : Number) :
    clockOffsetCorrect (samples.map (shiftSample offset)) (frameTransferTime + offset) now =
      ((clockOffsetCorrect samples frameTransferTime now).1.map (shiftSample offset),
        (clockOffsetCorrect samples frameTransferTime now).2) := by
  have appended : samples.map (shiftSample offset) ++ [(now, frameTransferTime + offset)] =
      (samples ++ [(now, frameTransferTime)]).map (shiftSample offset) := by
    rw [List.map_append]
    rfl
  have sameTest : expired now ∘ shiftSample offset = expired now := rfl
  rw [clockOffsetCorrect, clockOffsetCorrect, appended, List.dropWhile_map, sameTest]
  generalize (samples ++ [(now, frameTransferTime)]).dropWhile (expired now) = kept
  have front : (kept.map (shiftSample offset)).headD (now, frameTransferTime + offset) =
      shiftSample offset (kept.headD (now, frameTransferTime)) := by
    cases kept <;> rfl
  dsimp only
  rw [front, shiftSample, foldl_smaller_shift, add_sub_add_right_eq_sub]

theorem clockReturns_shifted (offset : ℕ → Number) (session : ℕ) (samples : Samples Number)
    (calls : List (ClockCall Number)) :
    Machine.outputs clockCall (samples.map (shiftSample (offset session)))
        (shifted offset session calls) =
      Machine.outputs clockCall samples calls := by
  induction calls generalizing session samples with
  | nil => rfl
  | cons call calls inductionHypothesis =>
    cases call with
    | reset =>
      rw [shifted, Machine.outputs, Machine.outputs]
      exact congrArg (none :: ·) (inductionHypothesis (session + 1) [])
    | correct frameTransferTime now =>
      rw [shifted, Machine.outputs, Machine.outputs, clockCall, clockCall,
        clockOffsetCorrect_shift]
      exact congrArg (_ :: ·) (inductionHypothesis session _)

/-- An offset that is the same for all transfer times of a session changes no returned value.
Every call keeps its own sample, and its value is not negative, and zero exactly when no sample
kept has a smaller transfer time. -/
theorem offset_cancels (offset : ℕ → Number) (calls : List (ClockCall Number)) :
    clockReturns (shifted offset 0 calls) = clockReturns calls ∧
      ∀ earlier frameTransferTime now later,
        calls = earlier ++ .correct frameTransferTime now :: later →
        (now, frameTransferTime) ∈ clockSamples (earlier ++ [.correct frameTransferTime now]) ∧
        ∃ value, (clockReturns calls)[earlier.length]? = some (some value) ∧ 0 ≤ value ∧
          (value = 0 ↔ ∀ sample ∈ clockSamples (earlier ++ [.correct frameTransferTime now]),
            frameTransferTime ≤ sample.2) := by
  refine ⟨clockReturns_shifted offset 0 [] calls, ?_⟩
  rintro earlier frameTransferTime now later rfl
  obtain ⟨low, least, value, self⟩ := clockCall_spec earlier frameTransferTime now
  have lowest := least.2 (List.mem_map_of_mem self)
  refine ⟨self, frameTransferTime - low, ?_, sub_nonneg.mpr lowest, ?_⟩
  · rw [← value, clockReturns, Machine.outputs_append,
      List.getElem?_append_right (Machine.outputs_length _ _).le, Machine.outputs_length,
      Nat.sub_self]
    rfl
  · rw [sub_eq_zero]
    constructor
    · rintro rfl sample member
      exact least.2 (List.mem_map_of_mem member)
    · intro smallest
      obtain ⟨sample, member, same⟩ := List.mem_map.mp least.1
      rw [← same] at lowest ⊢
      exact (smallest sample member).antisymm lowest

/-- Two sessions, the controller's clock a second behind in the first and ahead in the second. -/
theorem exampleCalls_offset_cancels :
    clockReturns (shifted (fun session => if session = 0 then 1 else -1) 0
        [.correct 5 100, .reset, .correct 3 50, .correct (4 : ℚ) 20]) =
      clockReturns [.correct 5 100, .reset, .correct 3 50, .correct (4 : ℚ) 20] ∧
      ∀ earlier frameTransferTime now later,
        [.correct 5 100, .reset, .correct 3 50, .correct (4 : ℚ) 20] =
          earlier ++ .correct frameTransferTime now :: later →
        (now, frameTransferTime) ∈ clockSamples (earlier ++ [.correct frameTransferTime now]) ∧
        ∃ value, (clockReturns [.correct 5 100, .reset, .correct 3 50,
            .correct (4 : ℚ) 20])[earlier.length]? = some (some value) ∧ 0 ≤ value ∧
          (value = 0 ↔ ∀ sample ∈ clockSamples (earlier ++ [.correct frameTransferTime now]),
            frameTransferTime ≤ sample.2) :=
  offset_cancels _ [.correct 5 100, .reset, .correct 3 50, .correct (4 : ℚ) 20]

end ControllerBridge
