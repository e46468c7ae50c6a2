/-
This file is a library about cascades of exponential smoothing with one share:
how the stages settle on an input that is held, and how far the output moves
from one input to the next.

While an input is held, what counts is how far the value of each stage is from
it. After `count` steps the last stage is off by `(1 - share) ^ count` times a sum
over the stages in front of it, with the coefficients
`multichoose count position * share ^ position` (`residual`). The proof is
Pascal's rule for these coefficients, stage by stage and step by step.

The output of a few stages moves by at most `share ^ stages` of the interval that
holds the inputs (`smoothed_moves`). The induction on the stages is about the
second output less a weight of the first one.
-/

import Mathlib.Algebra.BigOperators.Intervals
import Mathlib.Algebra.Order.BigOperators.Group.Finset
import Mathlib.Data.Nat.Choose.Multinomial
import ControllerBridge.Library.Smoothing

namespace Smoothing

open Finset

/-! ### Held inputs -/

section

variable {Number : Type} [Field Number]

/-- The stages of a cascade with one share, by how far their values are from the input; the last
stage comes first. -/
def stagesAt (share input : Number) (errors : List Number) : List (Number × Number) :=
  errors.reverse.map fun error => (share, input + error)

/-- How far the last stage is off when the input has been held for `count` steps. -/
def residual (share : Number) (count : ℕ) (errors : List Number) : Number :=
  (1 - share) ^ count * ∑ position ∈ range errors.length,
    (count.multichoose position : Number) * share ^ position * errors.getD position 0

/-- How far every stage is off then. -/
def settled (share : Number) (count : ℕ) : List Number → List Number
  | [] => []
  | error :: rest => residual share count (error :: rest) :: settled share count rest

/-- How far every stage is off after one step. -/
def moved (share : Number) : List Number → List Number
  | [] => []
  | error :: rest =>
    ((1 - share) * error + share * (moved share rest).headD 0) :: moved share rest

theorem headD_settled (share : Number) (count : ℕ) (errors : List Number) :
    (settled share count errors).headD 0 = residual share count errors := by
  cases errors with
  | nil => rw [settled, residual, List.length_nil, range_zero, sum_empty, mul_zero, List.headD_nil]
  | cons error rest => rfl

theorem residual_zero (share : Number) (errors : List Number) :
    residual share 0 errors = errors.headD 0 := by
  cases errors with
  | nil => rw [residual, List.length_nil, range_zero, sum_empty, mul_zero, List.headD_nil]
  | cons error rest =>
    rw [residual, List.length_cons, sum_range_succ', pow_zero, one_mul, sum_eq_zero, zero_add]
    · simp
    · intro position _
      rw [Nat.multichoose_zero_succ, Nat.cast_zero, zero_mul, zero_mul]

theorem settled_zero (share : Number) (errors : List Number) : settled share 0 errors = errors := by
  induction errors with
  | nil => rfl
  | cons error rest inductionHypothesis =>
    rw [settled, inductionHypothesis, residual_zero, List.headD_cons]

/-- Pascal's rule: a stage is off by its share of what it was and of what the one before is. -/
theorem residual_succ (share : Number) (count : ℕ) (error : Number) (rest : List Number) :
    residual share (count + 1) (error :: rest) =
      (1 - share) * residual share count (error :: rest) +
        share * residual share (count + 1) rest := by
  have pascal : ∀ position, ((count + 1).multichoose (position + 1) : Number) =
      (count.multichoose (position + 1) : Number) +
        ((count + 1).multichoose position : Number) := by
    intro position
    rw [Nat.multichoose_succ_succ, Nat.cast_add]
  have later : ∑ position ∈ range rest.length, ((count + 1).multichoose (position + 1) : Number) *
        share ^ (position + 1) * (error :: rest).getD (position + 1) 0 =
      (∑ position ∈ range rest.length, (count.multichoose (position + 1) : Number) *
        share ^ (position + 1) * (error :: rest).getD (position + 1) 0) +
      share * ∑ position ∈ range rest.length, ((count + 1).multichoose position : Number) *
        share ^ position * rest.getD position 0 := by
    rw [mul_sum, ← sum_add_distrib]
    refine sum_congr rfl fun position _ => ?_
    rw [pascal, List.getD_cons_succ]
    ring
  simp only [residual, List.length_cons, sum_range_succ', later, Nat.multichoose_zero_right]
  ring

theorem moved_settled (share : Number) (count : ℕ) (errors : List Number) :
    moved share (settled share count errors) = settled share (count + 1) errors := by
  induction errors with
  | nil => rfl
  | cons error rest inductionHypothesis =>
    rw [settled, moved, inductionHypothesis, headD_settled, settled, residual_succ]

/-- The last stage of a longer cascade moves to the output of the others. -/
theorem cascade_concat (stages : List (Number × Number)) (share value input : Number) :
    cascade (stages ++ [(share, value)]) input =
      ((cascade stages input).1 ++ [(share, approach share value (cascade stages input).2)],
        approach share value (cascade stages input).2) := by
  induction stages generalizing input with
  | nil => rfl
  | cons stage stages inductionHypothesis =>
    obtain ⟨share', value'⟩ := stage
    rw [List.cons_append, cascade, inductionHypothesis, cascade]
    rfl

theorem cascade_stagesAt (share input : Number) (errors : List Number) :
    cascade (stagesAt share input errors) input =
      (stagesAt share input (moved share errors), input + (moved share errors).headD 0) := by
  induction errors with
  | nil => exact Prod.ext rfl (add_zero input).symm
  | cons error rest inductionHypothesis =>
    have last : ∀ error' (rest' : List Number), stagesAt share input (error' :: rest') =
        stagesAt share input rest' ++ [(share, input + error')] := by
      intro error' rest'
      rw [stagesAt, stagesAt, List.reverse_cons, List.map_append, List.map_singleton]
    have towards : approach share (input + error) (input + (moved share rest).headD 0) =
        input + ((1 - share) * error + share * (moved share rest).headD 0) := by
      rw [approach]
      ring
    rw [last, cascade_concat, inductionHypothesis, moved, last, List.headD_cons, towards]

/-- The stages and the output after the input has been held. -/
theorem cascade_held (share input : Number) (errors : List Number) (output : Number) (count : ℕ) :
    (List.replicate (count + 1) input).foldl (fun state input => cascade state.1 input)
        (stagesAt share input errors, output) =
      (stagesAt share input (settled share (count + 1) errors),
        input + residual share (count + 1) errors) := by
  induction count with
  | zero =>
    rw [List.replicate_one, List.foldl_cons, List.foldl_nil, cascade_stagesAt]
    rw [← headD_settled, ← moved_settled, settled_zero]
  | succ count inductionHypothesis =>
    rw [List.replicate_succ', List.foldl_append, inductionHypothesis, List.foldl_cons,
      List.foldl_nil, cascade_stagesAt, moved_settled, headD_settled]

/-- Any stages with one share are off by something. -/
theorem exists_stagesAt {share : Number} {stages : List (Number × Number)}
    (same : ∀ stage ∈ stages, stage.1 = share) (input : Number) :
    ∃ errors, stages = stagesAt share input errors ∧ errors.length = stages.length ∧
      ∀ error ∈ errors, ∃ stage ∈ stages, error = stage.2 - input := by
  refine ⟨(stages.map fun stage => stage.2 - input).reverse, ?_, ?_, fun error member => ?_⟩
  · rw [stagesAt, List.reverse_reverse, List.map_map]
    refine (List.map_id stages).symm.trans (List.map_congr_left fun stage member => ?_)
    exact Prod.ext (same stage member) (add_sub_cancel input stage.2).symm
  · rw [List.length_reverse, List.length_map]
  · obtain ⟨stage, inside, rfl⟩ := List.mem_map.mp (List.mem_reverse.mp member)
    exact ⟨stage, inside, rfl⟩

/-- A step leaves the shares as they are. -/
theorem shares_cascade (stages : List (Number × Number)) (input : Number) :
    (cascade stages input).1.map Prod.fst = stages.map Prod.fst := by
  induction stages generalizing input with
  | nil => rfl
  | cons stage stages inductionHypothesis =>
    obtain ⟨share, value⟩ := stage
    rw [cascade, List.map_cons, inductionHypothesis, List.map_cons]

theorem shares_smoothedFrom (shares : List Number) (first : Number) (rest : List Number) :
    (smoothedFrom shares first rest).1.map Prod.fst = shares := by
  induction rest using List.reverseRecOn with
  | nil =>
    rw [smoothedFrom, List.foldl_nil, seeded, List.map_map]
    exact List.map_id shares
  | append_singleton rest input inductionHypothesis =>
    rw [smoothedFrom_concat, shares_cascade, inductionHypothesis]

end

/-! ### Bounds -/

section

variable {Number : Type} [Field Number] [LinearOrder Number] [IsStrictOrderedRing Number]

/-- The part of an error that is left at most. -/
def remaining (share : Number) (stages count : ℕ) : Number :=
  (1 - share) ^ count * ∑ position ∈ range stages,
    (count.multichoose position : Number) * share ^ position

theorem abs_residual_le {share bound : Number} (fromZero : 0 ≤ share) (toOne : share ≤ 1)
    (count : ℕ) {errors : List Number} (bounded : ∀ error ∈ errors, |error| ≤ bound) :
    |residual share count errors| ≤ remaining share errors.length count * bound := by
  have fromOne : 0 ≤ (1 - share) ^ count := pow_nonneg (sub_nonneg.mpr toOne) count
  have weight : ∀ position, 0 ≤ (count.multichoose position : Number) * share ^ position :=
    fun position => mul_nonneg (Nat.cast_nonneg _) (pow_nonneg fromZero position)
  rw [residual, remaining, abs_mul, abs_of_nonneg fromOne, mul_assoc]
  refine mul_le_mul_of_nonneg_left ?_ fromOne
  rw [sum_mul]
  refine (abs_sum_le_sum_abs _ _).trans (sum_le_sum fun position member => ?_)
  have inside := bounded _ (List.getElem_mem (mem_range.mp member))
  rw [abs_mul, abs_of_nonneg (weight position), List.getD_eq_getElem _ _ (mem_range.mp member)]
  exact mul_le_mul_of_nonneg_left inside (weight position)

omit [Field Number] [LinearOrder Number] [IsStrictOrderedRing Number] in
theorem share_of_mem {share : Number} {stages : List (Number × Number)} {count : ℕ}
    (same : stages.map Prod.fst = List.replicate count share) :
    ∀ stage ∈ stages, stage.1 = share := by
  intro stage member
  have inShares : stage.1 ∈ stages.map Prod.fst := List.mem_map_of_mem member
  rw [same] at inShares
  exact List.eq_of_mem_replicate inShares

omit [IsStrictOrderedRing Number] in
theorem proper_replicate {share : Number} (fromZero : 0 ≤ share) (toOne : share ≤ 1) (count : ℕ) :
    ∀ other ∈ List.replicate count share, 0 ≤ other ∧ other ≤ 1 := by
  intro other member
  rw [List.eq_of_mem_replicate member]
  exact ⟨fromZero, toOne⟩

/-- Stages in an interval, with one share, and an input held there. -/
theorem exists_errors_of_staysIn {share low high : Number} {stages : List (Number × Number)}
    (staysIn : StaysIn low high stages) {count : ℕ}
    (same : stages.map Prod.fst = List.replicate count share) {value : Number}
    (valueIn : value ∈ Set.Icc low high) :
    ∃ errors, stages = stagesAt share value errors ∧ errors.length = count ∧
      ∀ error ∈ errors, |error| ≤ high - low := by
  obtain ⟨errors, split, length, off⟩ := exists_stagesAt (share_of_mem same) value
  refine ⟨errors, split, ?_, fun error member => ?_⟩
  · rw [length, ← List.length_map Prod.fst, same, List.length_replicate]
  · obtain ⟨stage, inside, rfl⟩ := off error member
    obtain ⟨-, stageLow, stageHigh⟩ := staysIn stage inside
    obtain ⟨valueLow, valueHigh⟩ := valueIn
    exact abs_le.mpr ⟨by linarith, by linarith⟩

/-- After inputs from an interval the last ones of which are all the same, the output of a cascade
with one share is off by the residual of errors no larger than the interval. -/
theorem smoothed_held {share low high : Number} (fromZero : 0 ≤ share) (toOne : share ≤ 1)
    {stages : ℕ} {earlier : List Number} {count : ℕ} {value output : Number}
    (inside : ∀ input ∈ earlier ++ List.replicate (count + 1) value, input ∈ Set.Icc low high)
    (smooths : smoothed (List.replicate stages share)
      (earlier ++ List.replicate (count + 1) value) = some output) :
    ∃ errors, errors.length = stages ∧ (∀ error ∈ errors, |error| ≤ high - low) ∧
      output = value + residual share (count + 1) errors := by
  have proper := proper_replicate fromZero toOne stages
  have valueIn : value ∈ Set.Icc low high :=
    inside value (List.mem_append_right _ (List.mem_replicate.mpr ⟨Nat.succ_ne_zero _, rfl⟩))
  -- the first of the held inputs is taken by a cascade that is at rest at it, or by an earlier one
  obtain ⟨before, last, staysIn, shares, run⟩ : ∃ before last, StaysIn low high before ∧
      before.map Prod.fst = List.replicate stages share ∧
      ((List.replicate (count + 1) value).foldl (fun state input => cascade state.1 input)
        (before, last)).2 = output := by
    cases earlier with
    | nil =>
      refine ⟨seeded (List.replicate stages share) value, value, staysIn_seeded proper valueIn,
        shares_smoothedFrom _ value [], ?_⟩
      rw [List.nil_append, List.replicate_succ, smoothed, smoothedFrom, Option.some_inj] at smooths
      rw [List.replicate_succ, List.foldl_cons, cascade_seeded, smooths]
    | cons first rest =>
      rw [List.cons_append, smoothed, smoothedFrom, List.foldl_append, Option.some_inj] at smooths
      refine ⟨(smoothedFrom (List.replicate stages share) first rest).1,
        (smoothedFrom (List.replicate stages share) first rest).2,
        (smoothedFrom_mem_Icc proper fun input member => inside input ?_).1,
        shares_smoothedFrom _ first rest, smooths⟩
      exact List.mem_append_left _ member
  obtain ⟨errors, rfl, length, bounded⟩ := exists_errors_of_staysIn staysIn shares valueIn
  rw [cascade_held] at run
  exact ⟨errors, length, bounded, run.symm⟩

/-! ### Moves -/

/-- Two steps of a cascade with one share: how far the second output may be from a weight of the
first one, if the weight outdoes what the stages keep. -/
theorem cascade_twice_mem_Icc {share low high : Number} (fromZero : 0 ≤ share) (toOne : share ≤ 1)
    {stages : List (Number × Number)} (staysIn : StaysIn low high stages)
    (same : ∀ stage ∈ stages, stage.1 = share) {first second : Number}
    (firstIn : first ∈ Set.Icc low high) (secondIn : second ∈ Set.Icc low high)
    {weight : Number} (enough : stages.length * (1 - share) ≤ weight) :
    (cascade (cascade stages first).1 second).2 - weight * (cascade stages first).2 ∈
      Set.Icc ((1 - weight) * high - share ^ stages.length * (high - low))
        ((1 - weight) * low + share ^ stages.length * (high - low)) := by
  induction stages using List.reverseRecOn generalizing weight with
  | nil =>
    rw [List.length_nil, Nat.cast_zero, zero_mul] at enough
    have above := mul_le_mul_of_nonneg_left firstIn.1 enough
    have below := mul_le_mul_of_nonneg_left firstIn.2 enough
    rw [cascade, cascade, List.length_nil, pow_zero, one_mul]
    exact ⟨by linarith [secondIn.1], by linarith [secondIn.2]⟩
  | append_singleton stages stage inductionHypothesis =>
    obtain ⟨share', value⟩ := stage
    obtain rfl : share' = share := same _ List.mem_concat_self
    obtain ⟨-, valueIn⟩ := staysIn _ List.mem_concat_self
    rw [List.length_append, List.length_singleton] at enough ⊢
    push_cast at enough
    -- the last stage keeps a part of its value, and hands the rest of the weight on
    have kept : 0 ≤ 1 - share' := sub_nonneg.mpr toOne
    have rest : stages.length * (1 - share') ≤ weight - (1 - share') := by linarith
    have left : 0 ≤ (weight - (1 - share')) * (1 - share') :=
      mul_nonneg ((mul_nonneg (Nat.cast_nonneg _) kept).trans rest) kept
    obtain ⟨below, above⟩ := inductionHypothesis
      (fun stage member => staysIn stage (List.mem_append_left _ member))
      (fun stage member => same stage (List.mem_append_left _ member)) rest
    replace below := mul_le_mul_of_nonneg_left below fromZero
    replace above := mul_le_mul_of_nonneg_left above fromZero
    have valueAbove := mul_le_mul_of_nonneg_left valueIn.1 left
    have valueBelow := mul_le_mul_of_nonneg_left valueIn.2 left
    rw [cascade_concat, cascade_concat, approach, approach, pow_succ]
    constructor
    · linarith
    · linarith

/-- The stages and the output after some inputs are those after one step from stages in the
interval. -/
theorem exists_step_smoothedFrom {shares : List Number}
    (proper : ∀ share ∈ shares, 0 ≤ share ∧ share ≤ 1) {low high first : Number}
    {rest : List Number} (inside : ∀ input ∈ first :: rest, input ∈ Set.Icc low high) :
    ∃ stages, ∃ input ∈ Set.Icc low high, StaysIn low high stages ∧
      stages.map Prod.fst = shares ∧ smoothedFrom shares first rest = cascade stages input := by
  induction rest using List.reverseRecOn with
  | nil =>
    have firstIn := inside first List.mem_cons_self
    exact ⟨_, first, firstIn, staysIn_seeded proper firstIn, shares_smoothedFrom shares first [],
      (cascade_seeded shares first).symm⟩
  | append_singleton rest input _ =>
    refine ⟨_, input, inside input (List.mem_cons_of_mem _ List.mem_concat_self),
      (smoothedFrom_mem_Icc proper fun earlier member => inside earlier ?_).1,
      shares_smoothedFrom shares first rest, smoothedFrom_concat shares first rest input⟩
    exact List.mem_cons.mpr ((List.mem_cons.mp member).imp_right (List.mem_append_left _))

/-- From input to input the output of a few stages with one share moves by no more than the part
of the interval that the share is of one in as many steps. -/
theorem smoothed_moves {share low high : Number} (fromZero : 0 ≤ share) (toOne : share ≤ 1)
    {count : ℕ} (few : count * (1 - share) ≤ 1) {inputs : List Number} {next before after : Number}
    (inside : ∀ input ∈ inputs ++ [next], input ∈ Set.Icc low high)
    (smoothsBefore : smoothed (List.replicate count share) inputs = some before)
    (smoothsAfter : smoothed (List.replicate count share) (inputs ++ [next]) = some after) :
    |after - before| ≤ share ^ count * (high - low) := by
  cases inputs with
  | nil => cases smoothsBefore
  | cons first rest =>
    obtain ⟨stages, input, inputIn, staysIn, shares, step⟩ := exists_step_smoothedFrom
      (proper_replicate fromZero toOne count)
      fun earlier member => inside earlier (List.mem_append_left _ member)
    rw [smoothed, step, Option.some_inj] at smoothsBefore
    rw [List.cons_append, smoothed, smoothedFrom_concat, step, Option.some_inj] at smoothsAfter
    have length : stages.length = count := by
      rw [← List.length_map Prod.fst, shares, List.length_replicate]
    rw [← length] at few ⊢
    have moves := cascade_twice_mem_Icc fromZero toOne staysIn (share_of_mem shares) inputIn
      (inside next (List.mem_append_right _ (List.mem_singleton_self _))) few
    rw [smoothsBefore, smoothsAfter, one_mul, sub_self, zero_mul, zero_mul, zero_sub,
      zero_add] at moves
    exact abs_le.mpr moves

omit [LinearOrder Number] [IsStrictOrderedRing Number] in
/-- It moves that far from one end of the interval towards the other. -/
theorem smoothed_pair (share low high : Number) (count : ℕ) :
    smoothed (List.replicate count share) [low, high] =
      some (low + share ^ count * (high - low)) := by
  have output : ∀ input, (cascade (seeded (List.replicate count share) low) input).2 =
      low + share ^ count * (input - low) := by
    induction count with
    | zero =>
      intro input
      rw [List.replicate_zero, seeded, List.map_nil, cascade]
      ring
    | succ count inductionHypothesis =>
      intro input
      rw [List.replicate_succ, seeded, List.map_cons, ← seeded, cascade]
      dsimp only
      rw [inductionHypothesis, approach]
      ring
  rw [smoothed, smoothedFrom, List.foldl_cons, List.foldl_nil, output]

end

end Smoothing
