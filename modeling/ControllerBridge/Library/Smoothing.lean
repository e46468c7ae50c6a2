/-
This file is a library about cascades of exponential smoothing.

A stage moves its value by a fixed share of the way to its input, and passes
the new value on to the next stage. `smoothed` runs a cascade over a list of
inputs, the first of which seeds every stage. With shares between zero and one
every interval that holds the inputs holds the output, so the output lies
between the smallest and the largest input. The outputs of a cascade over a
whole signal are those of its stages, each run over the outputs of the one
before (`cascadeSignal_eq`).
-/

import Mathlib.Algebra.Order.Field.Basic
import Mathlib.Algebra.Order.Ring.Defs
import Mathlib.Data.List.MinMax
import Mathlib.Order.Interval.Set.Basic
import Mathlib.Tactic.Ring

namespace Smoothing

/-! ### Cascades -/

section

variable {Number : Type} [Add Number] [Sub Number] [Mul Number]

/-- A value moved by a share of the way to the input. -/
def approach (share value input : Number) : Number := value + share * (input - value)

/-- The stages of a cascade, each with its share and value, after an input, and the output. -/
def cascade : List (Number × Number) → Number → List (Number × Number) × Number
  | [], input => ([], input)
  | (share, value) :: stages, input =>
    let output := approach share value input
    let rest := cascade stages output
    ((share, output) :: rest.1, rest.2)

/-- The stages of a cascade that starts at `seed`. -/
def seeded (shares : List Number) (seed : Number) : List (Number × Number) :=
  shares.map fun share => (share, seed)

/-- The stages and the output after some inputs; the first one seeds the cascade. -/
def smoothedFrom (shares : List Number) (first : Number) (rest : List Number) :
    List (Number × Number) × Number :=
  rest.foldl (fun state input => cascade state.1 input) (seeded shares first, first)

/-- The output of a cascade after some inputs, if there are any. -/
def smoothed (shares : List Number) : List Number → Option Number
  | [] => none
  | first :: rest => some (smoothedFrom shares first rest).2

theorem smoothedFrom_concat (shares : List Number) (first : Number) (rest : List Number)
    (input : Number) :
    smoothedFrom shares first (rest ++ [input]) =
      cascade (smoothedFrom shares first rest).1 input := by
  rw [smoothedFrom, List.foldl_append]
  rfl

/-! ### Signals -/

/-- The outputs of one stage over a signal. -/
def stageSignal (share : Number) : Number → List Number → List Number
  | _, [] => []
  | value, input :: inputs =>
    approach share value input :: stageSignal share (approach share value input) inputs

/-- The outputs of a cascade over a signal. -/
def cascadeSignal : List (Number × Number) → List Number → List Number
  | _, [] => []
  | stages, input :: inputs =>
    (cascade stages input).2 :: cascadeSignal (cascade stages input).1 inputs

theorem cascadeSignal_nil (inputs : List Number) : cascadeSignal [] inputs = inputs := by
  induction inputs with
  | nil => rfl
  | cons input inputs inductionHypothesis =>
    rw [cascadeSignal, cascade, inductionHypothesis]

/-- The first stage may run over the whole signal before the others do. -/
theorem cascadeSignal_cons (share value : Number) (stages : List (Number × Number))
    (inputs : List Number) :
    cascadeSignal ((share, value) :: stages) inputs =
      cascadeSignal stages (stageSignal share value inputs) := by
  induction inputs generalizing value stages with
  | nil => rw [stageSignal, cascadeSignal, cascadeSignal]
  | cons input inputs inductionHypothesis =>
    rw [cascadeSignal, cascade, stageSignal, cascadeSignal]
    exact congrArg (_ :: ·) (inductionHypothesis _ _)

/-- The stages may run over the whole signal one after the other. -/
theorem cascadeSignal_eq (stages : List (Number × Number)) (inputs : List Number) :
    cascadeSignal stages inputs =
      stages.foldl (fun signal stage => stageSignal stage.1 stage.2 signal) inputs := by
  induction stages generalizing inputs with
  | nil => exact cascadeSignal_nil inputs
  | cons stage stages inductionHypothesis =>
    rw [cascadeSignal_cons, inductionHypothesis, List.foldl_cons]

theorem cascadeSignal_seeded (shares : List Number) (seed : Number) (inputs : List Number) :
    cascadeSignal (seeded shares seed) inputs =
      shares.foldl (fun signal share => stageSignal share seed signal) inputs := by
  rw [cascadeSignal_eq, seeded, List.foldl_map]

end

/-! ### Intervals -/

section

variable {Number : Type} [Field Number]

/-- A cascade is at rest at its seed. -/
theorem cascade_seeded (shares : List Number) (seed : Number) :
    cascade (seeded shares seed) seed = (seeded shares seed, seed) := by
  induction shares with
  | nil => rfl
  | cons share shares inductionHypothesis =>
    have rests : approach share seed seed = seed := by
      rw [approach, sub_self, mul_zero, add_zero]
    rw [seeded, List.map_cons, cascade, rests, ← seeded, inductionHypothesis]

variable [LinearOrder Number] {low high : Number}

/-- A cascade whose shares are between zero and one and whose values lie in an interval. -/
def StaysIn (low high : Number) (stages : List (Number × Number)) : Prop :=
  ∀ stage ∈ stages, (0 ≤ stage.1 ∧ stage.1 ≤ 1) ∧ stage.2 ∈ Set.Icc low high

theorem staysIn_seeded {shares : List Number}
    (proper : ∀ share ∈ shares, 0 ≤ share ∧ share ≤ 1) {seed : Number}
    (seedIn : seed ∈ Set.Icc low high) : StaysIn low high (seeded shares seed) := by
  intro stage member
  obtain ⟨share, shareIn, rfl⟩ := List.mem_map.mp member
  exact ⟨proper share shareIn, seedIn⟩

variable [IsStrictOrderedRing Number]

/-- A value moved to an input stays in an interval that holds both. -/
theorem approach_mem_Icc {share value input : Number} (fromZero : 0 ≤ share) (toOne : share ≤ 1)
    (valueIn : value ∈ Set.Icc low high) (inputIn : input ∈ Set.Icc low high) :
    approach share value input ∈ Set.Icc low high := by
  have mixed : approach share value input = (1 - share) * value + share * input := by
    rw [approach]
    ring
  have fromOne : 0 ≤ 1 - share := sub_nonneg.mpr toOne
  rw [mixed]
  constructor
  · calc low = (1 - share) * low + share * low := by ring
      _ ≤ (1 - share) * value + share * input :=
        add_le_add (mul_le_mul_of_nonneg_left valueIn.1 fromOne)
          (mul_le_mul_of_nonneg_left inputIn.1 fromZero)
  · calc (1 - share) * value + share * input
        ≤ (1 - share) * high + share * high :=
        add_le_add (mul_le_mul_of_nonneg_left valueIn.2 fromOne)
          (mul_le_mul_of_nonneg_left inputIn.2 fromZero)
      _ = high := by ring

/-- An input in the interval keeps the cascade there, and its output. -/
theorem StaysIn.cascade {stages : List (Number × Number)} (staysIn : StaysIn low high stages)
    {input : Number} (inputIn : input ∈ Set.Icc low high) :
    StaysIn low high (cascade stages input).1 ∧ (cascade stages input).2 ∈ Set.Icc low high := by
  induction stages generalizing input with
  | nil => exact ⟨staysIn, inputIn⟩
  | cons stage stages inductionHypothesis =>
    obtain ⟨share, value⟩ := stage
    obtain ⟨proper, valueIn⟩ := staysIn _ List.mem_cons_self
    have outputIn := approach_mem_Icc proper.1 proper.2 valueIn inputIn
    obtain ⟨rest, restIn⟩ := inductionHypothesis
      (fun stage member => staysIn stage (List.mem_cons_of_mem _ member)) outputIn
    refine ⟨?_, restIn⟩
    rw [Smoothing.cascade]
    intro stage member
    rcases List.mem_cons.mp member with rfl | later
    · exact ⟨proper, outputIn⟩
    · exact rest stage later

/-- Inputs in an interval keep a cascade that the first of them seeds there, and its output. -/
theorem smoothedFrom_mem_Icc {shares : List Number}
    (proper : ∀ share ∈ shares, 0 ≤ share ∧ share ≤ 1) {first : Number} {rest : List Number}
    (inside : ∀ input ∈ first :: rest, input ∈ Set.Icc low high) :
    StaysIn low high (smoothedFrom shares first rest).1 ∧
      (smoothedFrom shares first rest).2 ∈ Set.Icc low high := by
  induction rest using List.reverseRecOn with
  | nil =>
    have firstIn := inside first List.mem_cons_self
    exact ⟨staysIn_seeded proper firstIn, firstIn⟩
  | append_singleton rest input inductionHypothesis =>
    rw [smoothedFrom_concat]
    refine (inductionHypothesis fun earlier member => inside earlier ?_).1.cascade
      (inside input ?_)
    · exact List.mem_cons.mpr ((List.mem_cons.mp member).imp_right (List.mem_append_left _))
    · exact List.mem_cons_of_mem _ (List.mem_append_right _ (List.mem_singleton_self _))

theorem smoothed_mem_Icc {shares : List Number}
    (proper : ∀ share ∈ shares, 0 ≤ share ∧ share ≤ 1) {inputs : List Number}
    (inside : ∀ input ∈ inputs, input ∈ Set.Icc low high) {output : Number}
    (smooths : smoothed shares inputs = some output) : output ∈ Set.Icc low high := by
  cases inputs with
  | nil => cases smooths
  | cons first rest =>
    cases smooths
    exact (smoothedFrom_mem_Icc proper inside).2

/-- The output lies between the smallest and the largest input. -/
theorem smoothed_between {shares : List Number}
    (proper : ∀ share ∈ shares, 0 ≤ share ∧ share ≤ 1) {inputs : List Number}
    {output : Number} (smooths : smoothed shares inputs = some output) :
    inputs.minimum ≤ output ∧ output ≤ inputs.maximum := by
  have nonempty : inputs ≠ [] := by
    rintro rfl
    cases smooths
  have inside : ∀ input ∈ inputs, input ∈ Set.Icc
      (inputs.minimum_of_length_pos (List.length_pos_of_ne_nil nonempty))
      (inputs.maximum_of_length_pos (List.length_pos_of_ne_nil nonempty)) := by
    intro input member
    exact ⟨List.minimum_of_length_pos_le_of_mem member _,
      List.le_maximum_of_length_pos_of_mem member _⟩
  obtain ⟨below, above⟩ := smoothed_mem_Icc proper inside smooths
  rw [← List.coe_minimum_of_length_pos (List.length_pos_of_ne_nil nonempty),
    ← List.coe_maximum_of_length_pos (List.length_pos_of_ne_nil nonempty)]
  exact ⟨WithTop.coe_le_coe.mpr below, WithBot.coe_le_coe.mpr above⟩

end

end Smoothing
