/-
This file is about numbers that may be infinite in what the bridge remembers and
what it reads.

`extendedLibc` reads a literal beyond the range of a `double` as an infinity. The
filter passes finite numbers on, whatever the interpreter puts out, as eight bits
stand for finite positions; the clock offset does, as long as the transfer times
are finite; and these are, when the sent time of the frame is.
-/

import ControllerBridge.JsonPayload
import ControllerBridge.Library.Extended
import ControllerBridge.MotorFilter

namespace ControllerBridge

/-! ### The C library -/

/-- The least magnitude that is rounded to an infinity. -/
def doubleLimit : ℚ := 2 ^ 1024 - 2 ^ 970

theorem doubleLimit_pos : 0 < doubleLimit :=
  sub_pos.mpr (pow_lt_pow_right₀ (by norm_num) (by norm_num))

/-- The number conversions, with infinities for what is beyond the limit. -/
def extendedLibc : Libc (Extended ℚ) where
  strtod := fun text => .ofRational doubleLimit (Decimal.parse text)
  printf := fun places value => some (Extended.fixed places value)

/-- No rendering has a quotation mark. -/
theorem renders_unquoted (places : Nat) (value : Extended ℚ) :
    Renders extendedLibc Unquoted places value := by
  rintro rendering ⟨⟩
  cases value with
  | finite number =>
    exact quote_notMem_of_numeric (Plain.numeric ⟨Decimal.fixed_ne_nil _ _,
      fun byte member => Decimal.byte_of_mem_fixed member⟩)
  | infinite negative =>
    cases negative
    · exact show quote ∉ ([0x69, 0x6E, 0x66] : List UInt8) by decide
    · exact show quote ∉ ([0x2D, 0x69, 0x6E, 0x66] : List UInt8) by decide
  | nan => exact show quote ∉ ([0x6E, 0x61, 0x6E] : List UInt8) by decide

theorem renders_number_iff {places : Nat} (positive : 0 < places) {value : Extended ℚ} :
    Renders extendedLibc Json.Number places value ↔ value.IsFinite := by
  rw [← Extended.number_fixed_iff positive]
  refine ⟨fun renders => renders _ rfl, fun number => ?_⟩
  rintro rendering ⟨⟩
  exact number

/-- Numbers that are not finite fit every local buffer. -/
theorem fitting_of_not_isFinite {places : Nat} {value : Extended ℚ} (infinite : ¬ value.IsFinite) :
    fitting 32 (extendedLibc.printf places value) ≠ none := by
  cases value with
  | finite number => exact absurd (Extended.isFinite_finite number) infinite
  | infinite negative => cases negative <;> exact Option.some_ne_none _
  | nan => exact Option.some_ne_none _

/-- The values read from a frame are finite: its sent time, its first joystick value and, where
that is rendered in its local buffer, its second one. -/
structure FiniteInput (frame : List UInt8) : Prop where
  sentTime : ∀ value, bridgeExtractSentTime extendedLibc frame = .ok (some value) → value.IsFinite
  joystickX : ∀ x y, bridgeExtractJoystick extendedLibc frame = .ok (some (x, y)) → x.IsFinite
  joystickY : ∀ x y, bridgeExtractJoystick extendedLibc frame = .ok (some (x, y)) →
    fitting 32 (extendedLibc.printf 8 x) ≠ none → y.IsFinite

/-! ### Finite states -/

/-- The coefficients and the outputs of a filter are finite. -/
def FiniteFilter {dim : Nat} (filter : CascadedEMA (Extended ℚ) dim) : Prop :=
  ∀ stage ∈ filter.stages, stage.1.IsFinite ∧ ∀ d, (stage.2 d).IsFinite

/-- What the state remembers of earlier frames and renders later is finite. -/
structure FiniteState {Variables : Type} (process : Process (Extended ℚ) Variables) : Prop where
  samples : ∀ sample ∈ process.samples, sample.2.IsFinite
  filter : FiniteFilter process.motor.lpf

theorem isFinite_currentEpochSeconds (tvSec tvNsec : Int) :
    (currentEpochSeconds tvSec tvNsec : Extended ℚ).IsFinite :=
  (Extended.isFinite_intCast tvSec).add
    ((Extended.isFinite_intCast tvNsec).div (show (1e9 : ℚ) ≠ 0 by norm_num))

/-- The stages pass finite numbers on. -/
theorem finite_stepStages {dim : Nat}
    {stages : List (Extended ℚ × (Fin dim → Extended ℚ))} {input : Fin dim → Extended ℚ}
    (finiteStages : ∀ stage ∈ stages, stage.1.IsFinite ∧ ∀ d, (stage.2 d).IsFinite)
    (finiteInput : ∀ d, (input d).IsFinite) :
    (∀ stage ∈ (CascadedEMA.stepStages stages input).1,
      stage.1.IsFinite ∧ ∀ d, (stage.2 d).IsFinite) ∧
      ∀ d, ((CascadedEMA.stepStages stages input).2 d).IsFinite := by
  induction stages generalizing input with
  | nil => exact ⟨finiteStages, finiteInput⟩
  | cons stage stages inductionHypothesis =>
    obtain ⟨alpha, y⟩ := stage
    obtain ⟨⟨finiteAlpha, finiteY⟩, finiteRest⟩ := List.forall_mem_cons.mp finiteStages
    have output : ∀ d, (CascadedEMA.stageStep alpha y input d).IsFinite := fun d =>
      (finiteY d).add (finiteAlpha.mul ((finiteInput d).sub (finiteY d)))
    obtain ⟨rest, last⟩ := inductionHypothesis finiteRest output
    exact ⟨List.forall_mem_cons.mpr ⟨⟨finiteAlpha, output⟩, rest⟩, last⟩

theorem FiniteFilter.reset {dim : Nat} {filter : CascadedEMA (Extended ℚ) dim}
    (finiteFilter : FiniteFilter filter) {seed : Fin dim → Extended ℚ}
    (finiteSeed : ∀ d, (seed d).IsFinite) : FiniteFilter (filter.reset seed) := by
  intro stage member
  obtain ⟨before, inside, rfl⟩ := List.mem_map.mp member
  exact ⟨(finiteFilter before inside).1, finiteSeed⟩

/-- The positions that eight bits stand for are finite. -/
theorem isFinite_tendonOutputs (outData : Fin kNumTendonMotors → Int8) (k : Fin kNumTendonMotors) :
    (tendonOutputs outData k : Extended ℚ).IsFinite :=
  (Extended.isFinite_finite _).mul
    ((Extended.isFinite_intCast _).sub (Extended.isFinite_intCast _))

section

variable {Variables : Type} {motor : MotorInference (Extended ℚ) Variables}

/-- An output tensor leaves the filter finite, and so are the positions. -/
theorem FiniteFilter.filterOutput (finiteFilter : FiniteFilter motor.lpf)
    (output : Option (Fin kNumTendonMotors → Int8)) :
    FiniteFilter (filterOutput motor output).1.lpf ∧
      ∀ out, (ControllerBridge.filterOutput motor output).2 = some out →
        ∀ value ∈ motorNumbers (some out), value.IsFinite := by
  cases output with
  | none =>
    refine ⟨finiteFilter, fun out impossible => ?_⟩
    cases impossible
  | some outData =>
    have seeded : FiniteFilter
        (if motor.lpfInitialized then motor.lpf else motor.lpf.reset (tendonOutputs outData)) := by
      split
      · exact finiteFilter
      · exact finiteFilter.reset (isFinite_tendonOutputs outData)
    obtain ⟨stages, filtered⟩ := finite_stepStages seeded (isFinite_tendonOutputs outData)
    refine ⟨stages, ?_⟩
    rintro out ⟨⟩ value member
    simp only [motorNumbers, List.mem_cons, List.not_mem_nil, or_false] at member
    rcases member with rfl | rfl | rfl | rfl
    · exact filtered 0
    · exact filtered 1
    · exact filtered 2
    · exact Extended.isFinite_finite _

theorem FiniteFilter.inferMotor (platform : Platform (Extended ℚ) Variables)
    (finiteFilter : FiniteFilter motor.lpf) (joystick : Option (Extended ℚ × Extended ℚ)) :
    FiniteFilter (inferMotor platform motor joystick).1.lpf ∧
      ∀ out, (ControllerBridge.inferMotor platform motor joystick).2 = some out →
        ∀ value ∈ motorNumbers (some out), value.IsFinite := by
  cases joystick with
  | none =>
    refine ⟨finiteFilter, fun out impossible => ?_⟩
    cases impossible
  | some values =>
    have invoked : FiniteFilter
        (invokeModel platform.tflite platform.libm motor values.1 values.2).1.lpf := finiteFilter
    exact invoked.filterOutput _

/-- The filter starts finite where the exponential function is finite below zero. -/
theorem finiteFilter_of_init {tflite : Tflite Variables} {libm : Libm (Extended ℚ)} {useNpu : Bool}
    {tensors : Variables} (initialised : motorInferenceInit tflite libm useNpu tensors = some motor)
    (exp : ∀ value : ℚ, value ≤ 0 → (libm.exp (.finite value)).IsFinite) :
    FiniteFilter motor.lpf := by
  have created : motor.lpf =
      CascadedEMA.create libm kNumTendonMotors kControlTs kLpfFc kLpfStages := by
    rw [motorInferenceInit] at initialised
    split at initialised
    · rw [Option.map_eq_some_iff] at initialised
      obtain ⟨_, -, rfl⟩ := initialised
      rfl
    · cases initialised
      rfl
  rw [created]
  intro stage member
  have below : (-2.0 * kPi * kLpfFc * kControlTs : ℚ) ≤ 0 := by
    norm_num [kPi, kLpfFc, kControlTs]
  obtain rfl := List.eq_of_mem_replicate member
  exact ⟨(Extended.isFinite_finite _).sub (exp _ below), fun _ => Extended.isFinite_finite _⟩

end

/-! ### The clock offset -/

theorem isFinite_foldl_smaller {samples : Samples (Extended ℚ)}
    (finiteSamples : ∀ sample ∈ samples, sample.2.IsFinite) {first : Extended ℚ}
    (finiteFirst : first.IsFinite) : (samples.foldl smaller first).IsFinite := by
  induction samples generalizing first with
  | nil => exact finiteFirst
  | cons sample samples inductionHypothesis =>
    obtain ⟨finiteSample, finiteRest⟩ := List.forall_mem_cons.mp finiteSamples
    refine inductionHypothesis finiteRest ?_
    rw [smaller]
    split
    · exact finiteSample
    · exact finiteFirst

/-- Finite transfer times have finite corrections. -/
theorem finite_clockOffsetCorrect {samples : Samples (Extended ℚ)} {transfer : Extended ℚ}
    (finiteSamples : ∀ sample ∈ samples, sample.2.IsFinite) (finiteTransfer : transfer.IsFinite)
    (now : Extended ℚ) :
    (∀ sample ∈ (clockOffsetCorrect samples transfer now).1, sample.2.IsFinite) ∧
      (clockOffsetCorrect samples transfer now).2.IsFinite := by
  have kept : ∀ sample ∈ (clockOffsetCorrect samples transfer now).1, sample.2.IsFinite := by
    intro sample member
    have inside := (List.dropWhile_sublist (expired now)).mem member
    rcases List.mem_append.mp inside with before | new
    · exact finiteSamples sample before
    · rw [List.mem_singleton.mp new]
      exact finiteTransfer
  refine ⟨kept, finiteTransfer.sub (isFinite_foldl_smaller kept ?_)⟩
  cases window : (samples ++ [(now, transfer)]).dropWhile (expired now) with
  | nil => exact finiteTransfer
  | cons front rest =>
    refine kept front ?_
    rw [clockOffsetCorrect]
    dsimp only
    rw [window]
    exact List.mem_cons_self

/-! ### The stamping -/

section

variable {Double : Type} [Sub Double] {libc : Libc Double} {capacity : Nat} {raw : List UInt8}
  {received forward : Double}

/-- The times of a frame that is stamped fit their local buffers. -/
theorem fitting_of_stampText {stamped : List UInt8}
    (stamp : stampText libc capacity raw received forward = some stamped) :
    ∀ value ∈ stampNumbers libc raw received forward,
      fitting 32 (libc.printf 6 value) ≠ none := by
  cases found : locateSentTime raw with
  | none =>
    rw [stampNumbers, stampTimes, found]
    exact fun _ impossible => absurd impossible List.not_mem_nil
  | some pair =>
    rw [stampText, found] at stamp
    simp only [Option.bind_eq_bind, Option.bind_eq_some_iff] at stamp
    obtain ⟨_, fits1, _, fits2, _, fits3, _, fits4, -⟩ := stamp
    rw [stampNumbers, stampTimes, found]
    intro value member
    simp only [Option.map_some, List.mem_cons, List.not_mem_nil, or_false] at member
    rcases member with rfl | rfl | rfl | rfl
    · exact fits1 ▸ Option.some_ne_none _
    · exact fits2 ▸ Option.some_ne_none _
    · exact fits3 ▸ Option.some_ne_none _
    · exact fits4 ▸ Option.some_ne_none _

/-- A frame with room whose times fit their local buffers is stamped. -/
theorem exists_stampText (room : raw.length + 255 ≤ capacity)
    (fits : ∀ value ∈ stampNumbers libc raw received forward,
      fitting 32 (libc.printf 6 value) ≠ none) :
    ∃ stamped, stampText libc capacity raw received forward = some stamped := by
  refine Option.ne_none_iff_exists'.mp fun dropped => ?_
  obtain ⟨times, written, value, member, refused⟩ :=
    (stampText_room libc received forward room).1 dropped
  rw [stampNumbers, Option.mem_def.mp written] at fits
  exact fits value member (fitting_eq_none_iff.mpr refused)

end

section

variable {frame : List UInt8} {received forward : Extended ℚ}

theorem isFinite_readSpan (input : FiniteInput frame) {key : List UInt8} {located : Located}
    (found : locateSentTime frame = some (key, located)) :
    (readSpan extendedLibc located.span).IsFinite := by
  by_cases empty : located.span = []
  · rw [empty]
    refine Extended.isFinite_ofRational_iff.mpr ?_
    rw [show Decimal.parse ([].take 63) = 0 from rfl, abs_zero]
    exact doubleLimit_pos
  · refine input.sentTime _ ?_
    rw [bridgeExtractSentTime_eq, found, Option.bind_some, if_neg empty]

/-- With finite clock values the times of a frame with finite values are finite. -/
theorem finite_stampTimes (input : FiniteInput frame) (finiteReceived : received.IsFinite)
    (finiteForward : forward.IsFinite) :
    ∀ times ∈ stampTimes extendedLibc frame received forward,
      times.1.IsFinite ∧ times.2.IsFinite := by
  intro times member
  rw [stampTimes, Option.mem_def, Option.map_eq_some_iff] at member
  obtain ⟨⟨key, located⟩, found, rfl⟩ := member
  exact ⟨finiteReceived.sub (isFinite_readSpan input found), finiteForward.sub finiteReceived⟩

theorem finite_stampNumbers (input : FiniteInput frame) (finiteReceived : received.IsFinite)
    (finiteForward : forward.IsFinite) :
    ∀ value ∈ stampNumbers extendedLibc frame received forward, value.IsFinite := by
  have times := finite_stampTimes input finiteReceived finiteForward
  intro value member
  cases written : stampTimes extendedLibc frame received forward with
  | none =>
    rw [stampNumbers, written] at member
    cases member
  | some pair =>
    rw [stampNumbers, written] at member
    obtain ⟨transfer, processing⟩ := times pair written
    simp only [List.mem_cons, List.not_mem_nil, or_false] at member
    rcases member with rfl | rfl | rfl | rfl
    · exact finiteForward
    · exact finiteReceived
    · exact processing
    · exact transfer

/-- So is the transfer time a call works with, which is zero for a frame without a sent time. -/
theorem isFinite_transfer (input : FiniteInput frame) (finiteReceived : received.IsFinite)
    (finiteForward : forward.IsFinite) :
    ((stampTimes extendedLibc frame received forward).getD (0.0, 0.0)).1.IsFinite := by
  have times := finite_stampTimes input finiteReceived finiteForward
  cases written : stampTimes extendedLibc frame received forward with
  | none => exact Extended.isFinite_finite _
  | some pair => exact (times pair written).1

end

end ControllerBridge
