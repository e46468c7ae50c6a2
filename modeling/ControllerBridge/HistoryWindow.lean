/-
This file is about the motion history over whole runs.

The source updates the history call by call. What it computes is a function of
the samples since the last reset: an anchor is a sample at which the way since
the anchor before reaches the distance, and the window holds the last anchors,
padded in front with the first sample, and the current sample
(`build_eq_arcWindow`). A sample that is held still changes nothing in the
builder after its first call, so the windows of the others stay as they are
(`still_samples`).
-/

import Mathlib.Algebra.BigOperators.Intervals
import Mathlib.Algebra.Order.Field.Basic
import Mathlib.Data.List.DropRight
import Mathlib.Tactic.NormNum
import ControllerBridge.ControllerPipeline
import ControllerBridge.Library.Machine

namespace ControllerBridge

/-- A call of `HistoryWindowBuilder`. -/
inductive HistoryCall (Sample : Type) where
  | build (cur : Sample)
  | reset

/-- The samples of all calls since the last reset. -/
def samplesSince {Sample : Type} (calls : List (HistoryCall Sample)) : List Sample :=
  calls.foldl (fun samples call => match call with
    | .build cur => samples ++ [cur]
    | .reset => []) []

theorem samplesSince_build {Sample : Type} (calls : List (HistoryCall Sample)) (cur : Sample) :
    samplesSince (calls ++ [.build cur]) = samplesSince calls ++ [cur] := by
  rw [samplesSince, List.foldl_append]
  rfl

theorem samplesSince_reset {Sample : Type} (calls : List (HistoryCall Sample)) :
    samplesSince (calls ++ [.reset]) = [] := by
  rw [samplesSince, List.foldl_append]
  rfl

namespace HistoryWindowBuilder

section

variable {Sample Double : Type} [Add Double] [LE Double] [DecidableLE Double]
  [OfScientific Double]

/-- The builder after a call, and the window it returns. -/
def call (distance : Sample → Sample → Double) (builder : HistoryWindowBuilder Sample Double) :
    HistoryCall Sample → HistoryWindowBuilder Sample Double × Option (List Sample)
  | .build cur =>
    let result := builder.build distance cur
    (result.1, some result.2)
  | .reset => (builder.reset, none)

/-- The builder after some calls since its construction. -/
def afterCalls (distance : Sample → Sample → Double) (blank : Sample) (seqLen : ℕ)
    (anchorDistance : Double) (calls : List (HistoryCall Sample)) :
    HistoryWindowBuilder Sample Double :=
  Machine.after (call distance) (create blank seqLen anchorDistance) calls

end

/-! ### The window as a function of the samples -/

section

variable {Sample Number : Type} [Field Number]

/-- The length of the way along the samples from the one at `start` to the one at `stop`. -/
def way (distance : Sample → Sample → Number) (p : ℕ → Sample) (start stop : ℕ) : Number :=
  ∑ j ∈ Finset.Ioc start stop, distance (p (j - 1)) (p j)

variable {distance : Sample → Sample → Number} {p : ℕ → Sample} {n : ℕ}

theorem way_self (index : ℕ) : way distance p index index = 0 := by
  rw [way, Finset.Ioc_self, Finset.sum_empty]

/-- The way grows by the distance from the previous sample; before the first one there is none,
and the source takes the first sample for it. -/
theorem way_step (still : ∀ sample, distance sample sample = 0) {start : ℕ}
    (before : start ≤ n - 1) :
    way distance p start n = way distance p start (n - 1) + distance (p (n - 1)) (p n) := by
  cases n with
  | zero => rw [still, add_zero]
  | succ n => exact Finset.sum_Ioc_succ_top before _

end

section

variable {Sample Number : Type} [Field Number] [LinearOrder Number]

/-- The anchors before index `n`, in order: an index is an anchor when the way since the anchor
before, or since the start, reaches the distance. -/
def anchors (anchorDistance : Number) (distance : Sample → Sample → Number) (p : ℕ → Sample) :
    ℕ → List ℕ
  | 0 => []
  | n + 1 =>
    let before := anchors anchorDistance distance p n
    if anchorDistance ≤ way distance p (before.getLastD 0) n then before ++ [n] else before

/-- The anchors among the last `seqLen - 1`, or all, before index `n`. -/
def lastAnchors (seqLen : ℕ) (anchorDistance : Number) (distance : Sample → Sample → Number)
    (p : ℕ → Sample) (n : ℕ) : List ℕ :=
  (anchors anchorDistance distance p n).rtake (seqLen - 1)

/-- The window at index `n`. -/
def arcWindow (seqLen : ℕ) (anchorDistance : Number) (distance : Sample → Sample → Number)
    (p : ℕ → Sample) (n : ℕ) : List Sample :=
  let last := lastAnchors seqLen anchorDistance distance p n
  List.replicate (seqLen - 1 - last.length) (p 0) ++ last.map p ++ [p n]

variable {seqLen : ℕ} {anchorDistance : Number} {distance : Sample → Sample → Number}
  {p : ℕ → Sample} {n : ℕ}

theorem anchors_lt {index : ℕ} (member : index ∈ anchors anchorDistance distance p n) :
    index < n := by
  induction n with
  | zero => exact absurd member List.not_mem_nil
  | succ n inductionHypothesis =>
    rw [anchors] at member
    split at member
    · rcases List.mem_append.mp member with before | here
      · exact (inductionHypothesis before).trans n.lt_succ_self
      · rw [List.mem_singleton.mp here]
        exact n.lt_succ_self
    · exact (inductionHypothesis member).trans n.lt_succ_self

variable (anchorDistance distance p) in
/-- The anchors are in increasing order, before the current index. -/
theorem anchors_increasing (n : ℕ) :
    (anchors anchorDistance distance p n ++ [n]).Pairwise (· < ·) := by
  rw [List.pairwise_append]
  refine ⟨?_, List.pairwise_singleton .., ?_⟩
  · induction n with
    | zero => exact .nil
    | succ n inductionHypothesis =>
      rw [anchors]
      split
      · rw [List.pairwise_append]
        refine ⟨inductionHypothesis, List.pairwise_singleton .., fun index member last here => ?_⟩
        rw [List.mem_singleton.mp here]
        exact anchors_lt member
      · exact inductionHypothesis
  · intro index member last here
    rw [List.mem_singleton.mp here]
    exact anchors_lt member

theorem lastAnchors_length_le :
    (lastAnchors seqLen anchorDistance distance p n).length ≤ seqLen - 1 := by
  rw [lastAnchors, List.rtake, List.length_drop]
  omega

theorem arcWindow_length (fromOne : 1 ≤ seqLen) :
    (arcWindow seqLen anchorDistance distance p n).length = seqLen := by
  have room : (lastAnchors seqLen anchorDistance distance p n).length ≤ seqLen - 1 :=
    lastAnchors_length_le
  rw [arcWindow]
  simp only [List.length_append, List.length_replicate, List.length_map, List.length_singleton]
  omega

/-- Every sample of a window is the one of some index up to the current one. -/
theorem mem_arcWindow {sample : Sample}
    (member : sample ∈ arcWindow seqLen anchorDistance distance p n) :
    ∃ index ≤ n, p index = sample := by
  rw [arcWindow, List.mem_append, List.mem_append, List.mem_singleton] at member
  rcases member with (padding | anchor) | current
  · exact ⟨0, n.zero_le, (List.eq_of_mem_replicate padding).symm⟩
  · obtain ⟨index, last, rfl⟩ := List.mem_map.mp anchor
    exact ⟨index, (anchors_lt (List.mem_of_mem_drop last)).le, rfl⟩
  · exact ⟨n, le_rfl, current.symm⟩

/-! ### The builder computes it -/

/-- The last anchor before an index is not after the previous one. -/
theorem lastAnchor_le : (anchors anchorDistance distance p n).getLastD 0 ≤ n - 1 := by
  rcases List.eq_nil_or_concat (anchors anchorDistance distance p n) with none | ⟨_, last, some⟩
  · rw [none]
    exact Nat.zero_le _
  · rw [List.concat_eq_append] at some
    have before : last < n := anchors_lt (some ▸ List.mem_concat_self)
    rw [some, List.getLastD_concat]
    exact Nat.le_sub_one_of_lt before

/-- A history that is full loses its oldest entry to a new one. -/
theorem rtake_concat_evict {Entry : Type} (entries : List Entry) (entry : Entry) (room : ℕ) :
    (entries ++ [entry]).rtake room =
      if room < (entries.rtake room ++ [entry]).length
      then (entries.rtake room ++ [entry]).drop 1 else entries.rtake room ++ [entry] := by
  rw [List.rtake, List.rtake, List.length_append, List.length_append, List.length_drop,
    List.length_singleton]
  split
  · rename_i full
    rw [← List.drop_append_of_le_length (by omega), List.drop_drop]
    congr 1
    omega
  · rename_i notFull
    have dropsNone : entries.length + 1 - room = 0 := by omega
    have dropsNone' : entries.length - room = 0 := by omega
    rw [dropsNone, dropsNone', List.drop_zero, List.drop_zero]

variable (seqLen anchorDistance distance p n) in
/-- The history and the distance are those that the samples before index `n` determine. -/
structure Follows (builder : HistoryWindowBuilder Sample Number) : Prop where
  sameLen : builder.seqLen = seqLen
  sameDistance : builder.anchorDistance = anchorDistance
  hist : builder.hist = (lastAnchors seqLen anchorDistance distance p n).map p
  accumDist : builder.accumDist =
    way distance p ((anchors anchorDistance distance p n).getLastD 0) (n - 1)
  below : builder.accumDist < anchorDistance

variable (p n) in
/-- The first sample and the previous one are there. -/
structure Begun (builder : HistoryWindowBuilder Sample Number) : Prop where
  hasFirst : builder.hasFirst = true
  firstSample : builder.firstSample = p 0
  prevSample : builder.prevSample = p (n - 1)

variable (seqLen anchorDistance distance p n) in
/-- The builder before the call at index `n`. -/
structure InStep (builder : HistoryWindowBuilder Sample Number) : Prop
    extends Follows seqLen anchorDistance distance p n builder where
  fresh : n = 0 → builder.hasFirst = false
  begun : 0 < n → Begun p n builder

theorem InStep.start {builder : HistoryWindowBuilder Sample Number}
    (inStep : InStep seqLen anchorDistance distance p n builder) :
    Follows seqLen anchorDistance distance p n (builder.start (p n)) ∧
      Begun p n (builder.start (p n)) := by
  rw [HistoryWindowBuilder.start]
  cases n with
  | zero =>
    rw [inStep.fresh rfl]
    exact ⟨⟨inStep.sameLen, inStep.sameDistance, inStep.hist, inStep.accumDist, inStep.below⟩,
      ⟨rfl, rfl, rfl⟩⟩
  | succ n =>
    have begun := inStep.begun n.succ_pos
    rw [begun.hasFirst]
    exact ⟨inStep.toFollows, begun⟩

theorem Follows.window_eq {builder : HistoryWindowBuilder Sample Number}
    (follows : Follows seqLen anchorDistance distance p n builder) (begun : Begun p n builder) :
    builder.window (p n) = arcWindow seqLen anchorDistance distance p n := by
  rw [window, arcWindow, follows.sameLen, follows.hist, begun.firstSample, List.length_map]
  split
  · rfl
  · rename_i full
    rw [Nat.sub_eq_zero_of_le (not_lt.mp full), List.replicate_zero, List.nil_append]

variable [IsStrictOrderedRing Number]

theorem zero_eq : (0.0 : Number) = 0 := by norm_num

theorem InStep.nil {builder : HistoryWindowBuilder Sample Number}
    (sameLen : builder.seqLen = seqLen) (sameDistance : builder.anchorDistance = anchorDistance)
    (hist : builder.hist = []) (accumDist : builder.accumDist = 0.0)
    (hasFirst : builder.hasFirst = false) (positive : 0 < anchorDistance) :
    InStep seqLen anchorDistance distance p 0 builder where
  sameLen := sameLen
  sameDistance := sameDistance
  hist := by rw [hist, lastAnchors, anchors, List.rtake_nil, List.map_nil]
  accumDist := by
    rw [accumDist, zero_eq]
    exact (way_self 0).symm
  below := by rwa [accumDist, zero_eq]
  fresh := fun _ => hasFirst
  begun := fun before => absurd before (Nat.lt_irrefl 0)

/-- The sample of a call becomes an anchor of the history as it does of the sequence. -/
theorem Follows.anchor {builder : HistoryWindowBuilder Sample Number}
    (follows : Follows seqLen anchorDistance distance p n builder) (begun : Begun p n builder)
    (still : ∀ sample, distance sample sample = 0) (positive : 0 < anchorDistance) :
    Follows seqLen anchorDistance distance p (n + 1)
        ((builder.move distance (p n)).anchor (p n)) ∧
      Begun p (n + 1) ((builder.move distance (p n)).anchor (p n)) := by
  have moved : builder.accumDist + distance builder.prevSample (p n) =
      way distance p ((anchors anchorDistance distance p n).getLastD 0) n := by
    rw [follows.accumDist, begun.prevSample, way_step still lastAnchor_le]
  rw [HistoryWindowBuilder.anchor, move]
  dsimp only
  rw [moved, follows.sameLen, follows.sameDistance, follows.hist]
  split
  · rename_i reached
    have next : anchors anchorDistance distance p (n + 1) =
        anchors anchorDistance distance p n ++ [n] := if_pos reached
    refine ⟨⟨rfl, rfl, ?_, ?_, ?_⟩, begun.hasFirst, begun.firstSample, rfl⟩
    · rw [lastAnchors, lastAnchors, next, rtake_concat_evict, apply_ite (List.map p),
        List.map_drop, List.map_append, List.map_singleton, List.length_append,
        List.length_append, List.length_map, List.length_singleton, List.length_singleton]
    · rw [next, List.getLastD_concat, zero_eq, Nat.add_sub_cancel, way_self]
    · rw [zero_eq]
      exact positive
  · rename_i short
    have next : anchors anchorDistance distance p (n + 1) =
        anchors anchorDistance distance p n := if_neg short
    refine ⟨⟨rfl, rfl, ?_, ?_, not_le.mp short⟩, begun.hasFirst, begun.firstSample, rfl⟩
    · rw [lastAnchors, lastAnchors, next]
    · rw [next, Nat.add_sub_cancel]

theorem InStep.build {builder : HistoryWindowBuilder Sample Number}
    (inStep : InStep seqLen anchorDistance distance p n builder)
    (still : ∀ sample, distance sample sample = 0) (positive : 0 < anchorDistance) :
    InStep seqLen anchorDistance distance p (n + 1) (builder.build distance (p n)).1 ∧
      (builder.build distance (p n)).2 = arcWindow seqLen anchorDistance distance p n := by
  obtain ⟨follows, begun⟩ := inStep.start
  obtain ⟨followsNext, begunNext⟩ := follows.anchor begun still positive
  exact ⟨{ followsNext with
    fresh := fun none => absurd none n.succ_ne_zero
    begun := fun _ => begunNext }, follows.window_eq begun⟩

/-- The samples of a list, numbered. -/
theorem exists_sequence (blank : Sample) (samples : List Sample) :
    ∃ p : ℕ → Sample, samples = (List.range samples.length).map p := by
  refine ⟨fun index => samples.getD index blank, List.ext_getElem (by simp) ?_⟩
  intro index inside _
  rw [List.getElem_map, List.getElem_range, List.getD_eq_getElem?_getD,
    List.getElem?_eq_getElem inside, Option.getD_some]

/-- After any calls the builder is in step with the samples since the last reset. -/
theorem inStep_afterCalls (still : ∀ sample, distance sample sample = 0)
    (positive : 0 < anchorDistance) (blank : Sample) (calls : List (HistoryCall Sample)) :
    ∀ p n, samplesSince calls = (List.range n).map p →
      InStep seqLen anchorDistance distance p n
        (afterCalls distance blank seqLen anchorDistance calls) := by
  refine Machine.after_invariant
    (fun calls builder => ∀ p n, samplesSince calls = (List.range n).map p →
      InStep seqLen anchorDistance distance p n builder) ?_ ?_ calls
  · intro p n sequence
    rw [samplesSince, List.foldl_nil, eq_comm, List.map_eq_nil_iff, List.range_eq_nil] at sequence
    subst sequence
    exact .nil rfl rfl rfl rfl rfl positive
  · intro earlier builder call inStep p n sequence
    cases call with
    | reset =>
      rw [samplesSince_reset, eq_comm, List.map_eq_nil_iff, List.range_eq_nil] at sequence
      subst sequence
      obtain ⟨before, numbered⟩ := exists_sequence blank (samplesSince earlier)
      have inStep := inStep before _ numbered
      exact .nil inStep.sameLen inStep.sameDistance rfl rfl rfl positive
    | build cur =>
      rw [samplesSince_build] at sequence
      cases n with
      | zero => exact absurd sequence (List.append_ne_nil_of_right_ne_nil _ (List.cons_ne_nil _ _))
      | succ n =>
        rw [List.range_succ, List.map_append, List.map_singleton] at sequence
        obtain ⟨before, current⟩ := List.append_inj' sequence rfl
        rw [List.singleton_inj.mp current]
        exact ((inStep p n before).build still positive).1

/-- When the calls since the last reset were for the samples before `p n`, the call for `p n`
returns the window of the last anchors among them. The anchors and the current sample are in
increasing order, so none occurs twice; the history never holds more than `seqLen - 1` anchors,
and the distance stays below that of an anchor. -/
theorem build_eq_arcWindow (still : ∀ sample, distance sample sample = 0)
    (positive : 0 < anchorDistance) (fromOne : 1 ≤ seqLen) (blank : Sample)
    (calls : List (HistoryCall Sample)) (p : ℕ → Sample) (n : ℕ)
    (sequence : samplesSince calls = (List.range n).map p) :
    (call distance (afterCalls distance blank seqLen anchorDistance calls) (.build (p n))).2 =
        some (arcWindow seqLen anchorDistance distance p n) ∧
      (arcWindow seqLen anchorDistance distance p n).length = seqLen ∧
      (lastAnchors seqLen anchorDistance distance p n ++ [n]).Pairwise (· < ·) ∧
      (afterCalls distance blank seqLen anchorDistance calls).hist.length ≤ seqLen - 1 ∧
      (afterCalls distance blank seqLen anchorDistance calls).accumDist < anchorDistance := by
  have inStep : InStep seqLen anchorDistance distance p n
      (afterCalls distance blank seqLen anchorDistance calls) :=
    inStep_afterCalls still positive blank calls p n sequence
  refine ⟨congrArg some (inStep.build still positive).2, arcWindow_length fromOne, ?_, ?_,
    inStep.below⟩
  · have increasing := anchors_increasing anchorDistance distance p n
    exact increasing.sublist ((List.drop_sublist _ _).append_right [n])
  · rw [inStep.hist, List.length_map]
    exact lastAnchors_length_le

/-- Samples on a line. -/
def lineDistance (first second : ℚ) : ℚ := |first - second|

theorem lineDistance_self (sample : ℚ) : lineDistance sample sample = 0 := by
  rw [lineDistance, sub_self, abs_zero]

def examplePath (index : ℕ) : ℚ := [0, 1, 3, 4].getD index 0

def exampleHistoryCalls : List (HistoryCall ℚ) :=
  [.build 7, .reset, .build 0, .build 1, .build 3]

theorem exampleHistoryCalls_arcWindow :
    (call lineDistance (afterCalls lineDistance 0 3 2 exampleHistoryCalls)
        (.build (examplePath 3))).2 = some (arcWindow 3 2 lineDistance examplePath 3) ∧
      (arcWindow 3 2 lineDistance examplePath 3).length = 3 ∧
      (lastAnchors 3 2 lineDistance examplePath 3 ++ [3]).Pairwise (· < ·) ∧
      (afterCalls lineDistance 0 3 2 exampleHistoryCalls).hist.length ≤ 3 - 1 ∧
      (afterCalls lineDistance 0 3 2 exampleHistoryCalls).accumDist < 2 :=
  build_eq_arcWindow lineDistance_self (by norm_num) (by norm_num) 0 exampleHistoryCalls
    examplePath 3 rfl

example : arcWindow 3 2 lineDistance examplePath 3 = [0, 3, 4] := by decide +kernel

/-! ### A sample that is held still -/

/-- The distance is below that of an anchor, as it is between any two calls. -/
structure BelowAnchor (builder : HistoryWindowBuilder Sample Number) : Prop where
  positive : 0 < builder.anchorDistance
  below : builder.accumDist < builder.anchorDistance

omit [IsStrictOrderedRing Number] in
/-- A call for the previous sample changes nothing. -/
theorem BelowAnchor.build_prevSample {builder : HistoryWindowBuilder Sample Number}
    (belowAnchor : BelowAnchor builder) (still : ∀ sample, distance sample sample = 0)
    (hasFirst : builder.hasFirst = true) :
    (builder.build distance builder.prevSample).1 = builder := by
  have stays : builder.move distance builder.prevSample = builder := by
    rw [move, still, add_zero]
  rw [HistoryWindowBuilder.build, HistoryWindowBuilder.start, hasFirst, if_pos rfl]
  dsimp only
  rw [stays, HistoryWindowBuilder.anchor, if_neg (not_le.mpr belowAnchor.below)]

theorem BelowAnchor.build {builder : HistoryWindowBuilder Sample Number}
    (belowAnchor : BelowAnchor builder) (cur : Sample) :
    BelowAnchor (builder.build distance cur).1 ∧
      (builder.build distance cur).1.hasFirst = true ∧
      (builder.build distance cur).1.prevSample = cur := by
  have started : (builder.start cur).hasFirst = true ∧
      (builder.start cur).anchorDistance = builder.anchorDistance := by
    rw [HistoryWindowBuilder.start]
    split
    · rename_i hasFirst
      exact ⟨hasFirst, rfl⟩
    · exact ⟨rfl, rfl⟩
  have positive : 0 < (builder.start cur).anchorDistance := started.2 ▸ belowAnchor.positive
  rw [HistoryWindowBuilder.build, HistoryWindowBuilder.anchor, move]
  dsimp only
  split
  · exact ⟨⟨positive, zero_eq.trans_lt positive⟩, started.1, rfl⟩
  · rename_i short
    exact ⟨⟨positive, not_le.mp short⟩, started.1, rfl⟩

/-- Calls that repeat the one before them change none of the windows of the other calls. -/
theorem still_samples (still : ∀ sample, distance sample sample = 0)
    (positive : 0 < anchorDistance) (blank : Sample) (calls : List (HistoryCall Sample × ℕ)) :
    Machine.markedOutputs (call distance) (create blank seqLen anchorDistance)
        (Machine.repeated calls) =
      Machine.outputs (call distance) (create blank seqLen anchorDistance)
        (calls.map Prod.fst) := by
  refine Machine.markedOutputs_repeated BelowAnchor ?_ ?_
    ⟨positive, zero_eq.trans_lt positive⟩ calls
  · intro builder call belowAnchor
    cases call with
    | build cur => exact (belowAnchor.build cur).1
    | reset => exact ⟨belowAnchor.positive, zero_eq.trans_lt belowAnchor.positive⟩
  · intro builder call belowAnchor
    cases call with
    | build cur =>
      obtain ⟨after, hasFirst, prevSample⟩ := belowAnchor.build cur
      have again := after.build_prevSample still hasFirst
      rwa [prevSample] at again
    | reset => rfl

theorem exampleHistoryCalls_still :
    Machine.markedOutputs (call lineDistance) (create 0 3 2)
        (Machine.repeated [(.build 0, 2), (.build 3, 1), (.reset, 0), (.build 3, 4)]) =
      Machine.outputs (call lineDistance) (create 0 3 2)
        [.build 0, .build 3, .reset, .build 3] :=
  still_samples lineDistance_self (by norm_num) 0
    [(.build 0, 2), (.build 3, 1), (.reset, 0), (.build 3, 4)]

end

/-! ### Images of the samples, and the way of the anchors -/

section

variable {Sample Point Number : Type} [Field Number] [LinearOrder Number]
  {distance : Sample → Sample → Number} {distance' : Point → Point → Number}
  {image : Point → Sample} {anchorDistance : Number}

theorem anchors_map (same : ∀ a b, distance (image a) (image b) = distance' a b) (p : ℕ → Point)
    (n : ℕ) : anchors anchorDistance distance (fun index => image (p index)) n =
      anchors anchorDistance distance' p n := by
  induction n with
  | zero => rfl
  | succ n inductionHypothesis =>
    unfold anchors way
    rw [inductionHypothesis]
    simp only [same]

/-- The window depends on the samples by their distances. -/
theorem arcWindow_map (same : ∀ a b, distance (image a) (image b) = distance' a b) (seqLen : ℕ)
    (p : ℕ → Point) (n : ℕ) :
    arcWindow seqLen anchorDistance distance (fun index => image (p index)) n =
      (arcWindow seqLen anchorDistance distance' p n).map image := by
  unfold arcWindow lastAnchors
  rw [anchors_map same]
  dsimp only
  rw [List.map_append, List.map_append, List.map_replicate, List.map_map, List.map_singleton]
  rfl

variable (anchorDistance) in
/-- Every anchor stands for a part of the way of its own. -/
theorem anchors_length_mul_le [IsStrictOrderedRing Number]
    (still : ∀ sample, distance sample sample = 0) (p : ℕ → Sample) (n : ℕ) :
    (anchors anchorDistance distance p n).length * anchorDistance +
        way distance p ((anchors anchorDistance distance p n).getLastD 0) (n - 1) ≤
      way distance p 0 (n - 1) := by
  induction n with
  | zero =>
    rw [anchors, List.length_nil, Nat.cast_zero, zero_mul, zero_add, List.getLastD_nil]
  | succ n inductionHypothesis =>
    have moved := add_le_add_left inductionHypothesis (distance (p (n - 1)) (p n))
    rw [add_assoc, ← way_step still lastAnchor_le, ← way_step still (Nat.zero_le _)] at moved
    rw [anchors, Nat.add_sub_cancel]
    split
    · rename_i reached
      rw [List.getLastD_concat, way_self, add_zero, List.length_append, List.length_singleton,
        Nat.cast_add, Nat.cast_one, add_mul, one_mul]
      exact (add_le_add_right reached _).trans moved
    · exact moved

end

end HistoryWindowBuilder

end ControllerBridge
