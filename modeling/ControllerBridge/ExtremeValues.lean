/-
This file settles which frames leave only numbers of JSON in a payload, when
`strtod` makes infinities of literals beyond the range of a `double`.

An infinite value is rendered in four characters at most, so the check of the
rendered length, which drops the large finite ones, lets it through: a sent time
into the stamped fields and, by way of the rolling minimum, into the corrected
transfer times of later frames, and a joystick value into its own field. So a
run writes numbers exactly as long as every value it reads from a frame that it
keeps is finite. This is for runs without torn frames, whose joystick values are
rewritten half-way: the payload is then cut where a number may stand.
-/

import ControllerBridge.FiniteValues
import ControllerBridge.MarkedPayload

namespace ControllerBridge

open Marked (letters written)

/-! ### The numbers of a payload -/

/-- The numbers a payload may hold: those of JSON, and the sent time of its frame, which the
stamping moves as it stands. -/
def PayloadNumber (frame word : List UInt8) : Prop :=
  Json.Number word ∨ ∃ key located, locateSentTime frame = some (key, located) ∧
    located.span = word

theorem PayloadNumber.isNumberByte {frame word : List UInt8} (number : PayloadNumber frame word) :
    ∀ byte ∈ word, Json.isNumberByte byte = true := by
  obtain number | ⟨key, located, found, rfl⟩ := number
  · exact number.isNumberByte
  · intro byte member
    rw [← isNumeric_eq_isNumberByte]
    exact (reads_of_locateSentTime found).span byte member

section

variable {Double : Type} [Sub Double] (libc : Libc Double)

/-- In the payload an event publishes every word of number bytes that has a written byte is a
number, and every written byte is in one. -/
def WritesNumbers (entry : Event Double × Observation Double) : Prop :=
  ∀ payload ∈ entry.2.published, ∃ call marks, forwardCall entry = some call ∧
    payloadMarks libc call = some marks ∧ letters marks = payload ∧
    NumbersAllowed (PayloadNumber call.handed.frame) marks

/-- Where the sent time of the frame is a number of JSON, these are all numbers of JSON. -/
theorem WritesNumbers.jsonNumbers {libc : Libc Double}
    {entry : Event Double × Observation Double} (writes : WritesNumbers libc entry)
    {call : ForwardCall Double} (makes : forwardCall entry = some call)
    (literal : ∀ key located, locateSentTime call.handed.frame = some (key, located) →
      Json.Number located.span) :
    ∀ payload ∈ entry.2.published, ∃ marks, payloadMarks libc call = some marks ∧
      letters marks = payload ∧ NumbersAllowed Json.Number marks := by
  intro payload published
  obtain ⟨call', marks, makes', marked, same, allowed⟩ := writes payload published
  obtain rfl := Option.some_inj.mp (makes.symm.trans makes')
  refine ⟨marks, marked, same, allowed.mono ?_⟩
  rintro word (number | ⟨key, located, found, rfl⟩)
  · exact number
  · exact literal key located found

/-- The renderings of a frame's times fit their local buffers, so that it is not dropped. -/
def Kept (call : ForwardCall Double) : Prop :=
  ∀ value ∈ stampNumbers libc call.handed.frame call.receivedNtpTime call.forwardNtpTime,
    fitting 32 (libc.printf 6 value) ≠ none

/-- The frame is kept, its first joystick value is rewritten by more or by fewer bytes, and its
second one, whose rendering does not fit its local buffer, is not. -/
def Torn (call : ForwardCall Double) : Prop :=
  Kept libc call ∧ ∃ x y rendering, joystickValues libc call.handed.frame = some (x, y) ∧
    fitting 32 (libc.printf 8 x) = some rendering ∧
    (∀ span ∈ spanAfter joystickXKey call.handed.frame, span.length ≠ rendering.length) ∧
    fitting 32 (libc.printf 8 y) = none

end

section

variable {Double Variables : Type} [Add Double] [Sub Double] [Mul Double] [Div Double]
  [Neg Double] [LT Double] [DecidableLT Double] [LE Double] [DecidableLE Double]
  [OfScientific Double] [NatCast Double] [IntCast Double]
  {platform : Platform Double Variables}

/-- Along a run this is a property of the calls. -/
theorem Runs.writesNumbers_iff {history : List (Event Double × Observation Double)}
    {system : System Double Variables} (runs : Runs platform history system)
    {entry : Event Double × Observation Double} (member : entry ∈ history) :
    WritesNumbers platform.libc entry ↔ ∀ call ∈ forwardCall entry,
      ∀ marks ∈ payloadMarks platform.libc call,
        NumbersAllowed (PayloadNumber call.handed.frame) marks := by
  have erased : ∀ call ∈ forwardCall entry,
      (payloadMarks platform.libc call).map letters = entry.2.published := by
    intro call makes
    obtain ⟨_, _, _, -, -, -, run, published⟩ := runs.exists_entry member makes
    rw [published]
    exact map_letters_payloadMarks run
  constructor
  · intro writes call makes marks marked
    have published := erased call makes
    rw [Option.mem_def.mp marked] at published
    obtain ⟨call', marks', makes', marked', -, allowed⟩ := writes _ published.symm
    obtain rfl := Option.some_inj.mp ((Option.mem_def.mp makes).symm.trans makes')
    obtain rfl := Option.some_inj.mp ((Option.mem_def.mp marked).symm.trans marked')
    exact allowed
  · intro allowed payload published
    obtain ⟨_, _, _, -, -, taken⟩ := runs.exists_step member
    have left := published_eq_payload taken
    rw [Option.mem_def.mp published, eq_comm, Option.bind_eq_some_iff] at left
    obtain ⟨call, makes, -⟩ := left
    have whole := erased call makes
    rw [Option.mem_def.mp published, Option.map_eq_some_iff] at whole
    obtain ⟨marks, marked, same⟩ := whole
    exact ⟨call, marks, makes, marked, same, allowed call makes marks marked⟩

end

/-! ### A call -/

/-- The platform with this C library. -/
abbrev extendedPlatform {Variables : Type} (libm : Libm (Extended ℚ)) (tflite : Tflite Variables) :
    Platform (Extended ℚ) Variables :=
  ⟨extendedLibc, libm, tflite⟩

section

variable {Variables : Type} {libm : Libm (Extended ℚ)} {tflite : Tflite Variables}
  {process process' : Process (Extended ℚ) Variables} {frame : List UInt8}
  {received forward : Extended ℚ} {forwarded : Forwarded (Extended ℚ)}

/-- The state stays finite, where the values of a frame that is kept are finite. -/
theorem FiniteState.after_call (finiteState : FiniteState process)
    (finiteReceived : received.IsFinite) (finiteForward : forward.IsFinite)
    (input : Kept extendedLibc ⟨received, forward, ⟨frame, forwarded⟩⟩ → FiniteInput frame)
    (run : bridgeServerForward (extendedPlatform libm tflite) process frame received forward =
      .ok (process', forwarded)) : FiniteState process' := by
  have filter := (finiteState.filter.inferMotor (extendedPlatform libm tflite)
    (joystickValues extendedLibc frame)).1
  obtain ⟨-, rfl, -⟩ | ⟨stamped, payload, n, stamp, rfl, -, -⟩ :=
    bridgeServerForward_cases (extendedPlatform libm tflite) process frame _ _ run
  · exact ⟨finiteState.samples, filter⟩
  · have finiteInput := input (fitting_of_stampText stamp)
    exact ⟨(finite_clockOffsetCorrect finiteState.samples
      (isFinite_transfer finiteInput finiteReceived finiteForward) received).1, filter⟩

/-- The joystick keys are read in the corrected text as in the frame. -/
theorem spanAfter_corrected {key : List UInt8} (joystick : key ∈ [joystickXKey, joystickYKey])
    {stamped : List UInt8}
    (stamp : stampText extendedLibc maxBridgedFrameLen frame received forward = some stamped)
    (corrected : Extended ℚ) :
    spanAfter key (correctText extendedLibc maxBridgedFrameLen corrected stamped) =
      spanAfter key frame := by
  have watched : key ∈ watchedKeys :=
    (List.sublist_append_left [joystickXKey, joystickYKey] _).subset joystick
  rw [spanAfter_correctText maxBridgedFrameLen watched (renders_unquoted 6 corrected)]
  exact spanAfter_stampText joystick (fun value _ => renders_unquoted 6 value) stamp

/-- The corrected text leaves room for both joystick values. -/
theorem corrected_room (short : frame.length ≤ maxControllerFrameLen) {stamped : List UInt8}
    (stamp : stampText extendedLibc maxBridgedFrameLen frame received forward = some stamped)
    (corrected : Extended ℚ) :
    (correctText extendedLibc maxBridgedFrameLen corrected stamped).length + 62 ≤
      maxBridgedFrameLen := by
  have lengths : maxControllerFrameLen = 512 ∧ maxBridgedFrameLen = 1024 := ⟨rfl, rfl⟩
  have shortStamped := (stampText_room extendedLibc _ _ (by omega)).2 stamped stamp
  have shortCorrected := correctText_length_le extendedLibc corrected
    (show stamped.length + 127 ≤ maxBridgedFrameLen by omega)
  omega

/-- With room a value is rewritten, if its rendering fits its local buffer. -/
theorem replaceMarks_of_fitting {key : List UInt8} (nonempty : key ≠ []) {value : Extended ℚ}
    {text : Marks} (room : text.length + 31 ≤ maxBridgedFrameLen)
    (fits : fitting 32 (extendedLibc.printf 8 value) ≠ none) :
    ∃ result, replaceMarks extendedLibc maxBridgedFrameLen key value text = some result := by
  refine Option.ne_none_iff_exists'.mp fun failed => ?_
  have erased : (replaceMarks extendedLibc maxBridgedFrameLen key value text).map letters = _ :=
    map_letters_replaceMarks extendedLibc nonempty value text
  rw [failed, Option.map_none] at erased
  rw [← Marked.length_letters] at room
  exact fits (fitting_eq_none_iff.mpr
    ((replaceText_room extendedLibc value nonempty room).1 erased.symm))

/-- A frame that is not torn is not rewritten half-way. -/
theorem untorn_of_not_torn {text : Marks} {stamped : List UInt8} {corrected : Extended ℚ}
    (short : frame.length ≤ maxControllerFrameLen)
    (stamp : stampText extendedLibc maxBridgedFrameLen frame received forward = some stamped)
    (entered : letters text = correctText extendedLibc maxBridgedFrameLen corrected stamped)
    (whole : ¬ Torn extendedLibc ⟨received, forward, ⟨frame, forwarded⟩⟩)
    {x y : Extended ℚ} (values : joystickValues extendedLibc frame = some (x, y)) :
    Untorn extendedLibc maxBridgedFrameLen x y text := by
  intro first replacedX failedY
  obtain ⟨-, rfl⟩ | ⟨front, old, back, rendering, rfl, read, -, -, fits, rfl⟩ :=
    replaceMarks_eq_some (by decide) replacedX
  · rfl
  rw [entered, spanAfter_corrected (by decide) stamp] at read
  have room := corrected_room short stamp corrected
  rw [← entered, Marked.length_letters] at room
  have shortX := fitting_length_le fits
  have written : (written rendering).length = rendering.length := List.length_map _
  simp only [List.length_append, written] at room ⊢
  by_cases fitsY : fitting 32 (extendedLibc.printf 8 y) = none
  · -- the rendering is as long as what the frame has
    have same : (letters old).length = rendering.length := by
      by_contra differs
      refine whole ⟨fitting_of_stampText stamp, x, y, rendering, values, fits, ?_, fitsY⟩
      rintro span member
      obtain rfl := Option.some_inj.mp (read.symm.trans member)
      exact differs
    rw [← same, Marked.length_letters]
  · have roomY : (front ++ Marked.written rendering ++ back).length + 31 ≤ maxBridgedFrameLen := by
      simp only [List.length_append, written]
      omega
    obtain ⟨second, replacedY⟩ := replaceMarks_of_fitting joystickYKey_ne_nil roomY fitsY
    exact absurd (failedY.symm.trans replacedY) (Option.some_ne_none _).symm

/-- The joystick keys of a frame with joystick values are in its corrected text. -/
theorem present_of_joystickValues {stamped : List UInt8}
    (stamp : stampText extendedLibc maxBridgedFrameLen frame received forward = some stamped)
    (corrected : Extended ℚ) {x y : Extended ℚ}
    (values : joystickValues extendedLibc frame = some (x, y)) :
    ∀ key ∈ [joystickXKey, joystickYKey],
      spanAfter key (correctText extendedLibc maxBridgedFrameLen corrected stamped) ≠ none := by
  obtain ⟨⟨spanX, -, readX⟩, spanY, -, readY⟩ := exists_spanAfter_of_joystickValues values
  intro key joystick
  rw [spanAfter_corrected joystick stamp]
  simp only [List.mem_cons, List.not_mem_nil, or_false] at joystick
  rcases joystick with rfl | rfl
  · exact readX ▸ Option.some_ne_none _
  · exact readY ▸ Option.some_ne_none _

/-- Finite values are rendered as numbers of a payload. -/
theorem renders_payloadNumber {places : Nat} (positive : 0 < places) {value : Extended ℚ}
    (isFinite : value.IsFinite) : Renders extendedLibc (PayloadNumber frame) places value :=
  fun rendering printed => Or.inl ((renders_number_iff positive).mpr isFinite rendering printed)

section

variable {text : Marks} {stamped : List UInt8} {corrected : Extended ℚ}
  (short : frame.length ≤ maxControllerFrameLen)
  (stamp : stampText extendedLibc maxBridgedFrameLen frame received forward = some stamped)
  (entered : letters text = correctText extendedLibc maxBridgedFrameLen corrected stamped)
  (whole : ¬ Torn extendedLibc ⟨received, forward, ⟨frame, forwarded⟩⟩)

include short stamp entered whole

/-- The block `if (have_joystick)` writes numbers only, if the values of the frame are finite. -/
theorem numbersAllowed_spliceMarks (input : FiniteInput frame)
    {motor : Option (MotorOut (Extended ℚ))}
    (motors : ∀ out, motor = some out → ∀ value ∈ motorNumbers (some out), value.IsFinite)
    (isText : NumbersAllowed (PayloadNumber frame) text) :
    NumbersAllowed (PayloadNumber frame) (spliceMarks extendedLibc maxBridgedFrameLen
      (joystickValues extendedLibc frame) motor text) := by
  have numeric := fun word => @PayloadNumber.isNumberByte frame word
  cases values : joystickValues extendedLibc frame with
  | none => exact isText
  | some pair =>
    obtain ⟨x, y⟩ := pair
    have untorn := untorn_of_not_torn short stamp entered whole values
    have extracts : bridgeExtractJoystick extendedLibc frame = .ok (some (x, y)) := by
      rw [bridgeExtractJoystick_eq, values]
    have present := present_of_joystickValues stamp corrected values joystickXKey (by decide)
    rw [← entered] at present
    have renderX : Renders extendedLibc (PayloadNumber frame) 8 x :=
      renders_payloadNumber (by decide) (input.joystickX x y extracts)
    have isReformatted := numbersAllowed_reformatMarks numeric isText untorn renderX
      fun replaced => renders_payloadNumber (by decide)
        (input.joystickY x y extracts (fitting_of_replaceMarks (by decide) present replaced))
    cases motor with
    | none => exact isReformatted
    | some out =>
      exact numbersAllowed_motor numeric isReformatted fun value member =>
        renders_payloadNumber (by decide) (motors out rfl value member)

/-- The joystick values of the frame are finite, if no letter n is written. -/
theorem finite_of_spliceMarks {motor : Option (MotorOut (Extended ℚ))}
    (absent : (0x6E, true) ∉ spliceMarks extendedLibc maxBridgedFrameLen
      (joystickValues extendedLibc frame) motor text) {x y : Extended ℚ}
    (values : joystickValues extendedLibc frame = some (x, y)) :
    x.IsFinite ∧ (fitting 32 (extendedLibc.printf 8 x) ≠ none → y.IsFinite) := by
  have untorn := untorn_of_not_torn short stamp entered whole values
  have present := present_of_joystickValues stamp corrected values
  have room := corrected_room short stamp corrected
  rw [← entered] at present room
  rw [Marked.length_letters] at room
  rw [values] at absent
  have unwritten : (0x6E, true) ∉ reformatMarks extendedLibc maxBridgedFrameLen x y text :=
    fun member => absent (mem_spliceMarks_of_reformatMarks motor member)
  have rewritten : fitting 32 (extendedLibc.printf 8 x) ≠ none → ∃ first,
      replaceMarks extendedLibc maxBridgedFrameLen joystickXKey x text = some first :=
    replaceMarks_of_fitting joystickXKey_ne_nil (by omega)
  constructor
  · by_contra infinite
    obtain ⟨first, replacedX⟩ := rewritten (fitting_of_not_isFinite infinite)
    refine unwritten (mem_reformatMarks_of_first (by decide) untorn replacedX ?_)
    exact mem_replaceMarks_self (by decide) (present _ (by decide)) rfl
      (Extended.mem_fixed_of_not_isFinite 8 infinite) replacedX
  · intro fitsX
    by_contra infinite
    obtain ⟨first, replacedX⟩ := rewritten fitsX
    have erased : replaceText extendedLibc maxBridgedFrameLen joystickXKey x (letters text) =
        some (letters first) := by
      rw [← map_letters_replaceMarks extendedLibc joystickXKey_ne_nil, replacedX, Option.map_some]
    have read := present joystickYKey (by decide)
    rw [← spanAfter_replaceText_other (by decide) (by decide) (by decide) (renders_unquoted 8 x)
      erased] at read
    have longer := (replaceText_room extendedLibc x joystickXKey_ne_nil
      (show (letters text).length + 31 ≤ maxBridgedFrameLen by
        rw [Marked.length_letters]
        omega)).2 _ erased
    rw [Marked.length_letters, Marked.length_letters] at longer
    obtain ⟨second, replacedY⟩ := replaceMarks_of_fitting joystickYKey_ne_nil
      (show first.length + 31 ≤ maxBridgedFrameLen by omega) (fitting_of_not_isFinite infinite)
    rw [reformatMarks_of_both replacedX replacedY] at unwritten
    exact unwritten (mem_replaceMarks_self (by decide) read rfl
      (Extended.mem_fixed_of_not_isFinite 8 infinite) replacedY)

end

/-- From a finite state, a call on a frame with finite values that is not torn writes numbers. -/
theorem numbersAllowed_of_finiteInput (finiteState : FiniteState process)
    (finiteReceived : received.IsFinite) (finiteForward : forward.IsFinite)
    (short : frame.length ≤ maxControllerFrameLen)
    (run : bridgeServerForward (extendedPlatform libm tflite) process frame received forward =
      .ok (process', forwarded))
    (input : Kept extendedLibc ⟨received, forward, ⟨frame, forwarded⟩⟩ → FiniteInput frame)
    (whole : ¬ Torn extendedLibc ⟨received, forward, ⟨frame, forwarded⟩⟩) :
    ∀ marks ∈ payloadMarks extendedLibc ⟨received, forward, ⟨frame, forwarded⟩⟩,
      NumbersAllowed (PayloadNumber frame) marks := by
  have numeric := fun word => @PayloadNumber.isNumberByte frame word
  intro marks marked
  obtain ⟨-, -, rfl⟩ | ⟨stamped, payload, n, stamp, -, -, -⟩ :=
    bridgeServerForward_cases (extendedPlatform libm tflite) process frame _ _ run
  · cases marked
  have finiteInput := input (fitting_of_stampText stamp)
  have stamps := finite_stampNumbers finiteInput finiteReceived finiteForward
  have corrected := (finite_clockOffsetCorrect finiteState.samples
    (isFinite_transfer finiteInput finiteReceived finiteForward) received).2
  have motors := (finiteState.filter.inferMotor (extendedPlatform libm tflite)
    (joystickValues extendedLibc frame)).2
  obtain ⟨stampedMarks, markedStamp, rfl⟩ := exists_stampMarks extendedLibc stamp
  rw [payloadMarks_eq run stamp markedStamp, Option.mem_some_iff] at marked
  subst marked
  have isStamped := numbersAllowed_stampMarks numeric
    (fun key located found => Or.inr ⟨key, located, found, rfl⟩)
    (fun value member => renders_payloadNumber (by decide) (stamps value member)) markedStamp
  exact numbersAllowed_spliceMarks short stamp (letters_correctMarks extendedLibc _ _ _) whole
    finiteInput motors
    (numbersAllowed_correctMarks numeric isStamped (renders_payloadNumber (by decide) corrected))

/-- A kept frame that is not torn and whose call writes numbers has finite values: an infinite one
would be written as none. -/
theorem finiteInput_of_numbersAllowed (finiteReceived : received.IsFinite)
    (short : frame.length ≤ maxControllerFrameLen)
    (run : bridgeServerForward (extendedPlatform libm tflite) process frame received forward =
      .ok (process', forwarded))
    (kept : Kept extendedLibc ⟨received, forward, ⟨frame, forwarded⟩⟩)
    (whole : ¬ Torn extendedLibc ⟨received, forward, ⟨frame, forwarded⟩⟩)
    (writes : ∀ marks ∈ payloadMarks extendedLibc ⟨received, forward, ⟨frame, forwarded⟩⟩,
      NumbersAllowed (PayloadNumber frame) marks) : FiniteInput frame := by
  have lengths : maxControllerFrameLen = 512 ∧ maxBridgedFrameLen = 1024 := ⟨rfl, rfl⟩
  obtain ⟨stamped, stamp⟩ := exists_stampText
    (show frame.length + 255 ≤ maxBridgedFrameLen by omega) kept
  obtain ⟨stampedMarks, markedStamp, rfl⟩ := exists_stampMarks extendedLibc stamp
  have isNumber := writes _ (payloadMarks_eq run stamp markedStamp)
  have unwritten := mt (isNumber.inWords 0x6E) (by decide)
  have entered := letters_correctMarks extendedLibc maxBridgedFrameLen (frameCorrection
    (extendedPlatform libm tflite) process frame received forward).2 stampedMarks
  refine ⟨fun value extracts => ?_, fun x y extracts => ?_, fun x y extracts => ?_⟩
  · by_contra infinite
    rw [bridgeExtractSentTime_eq, Except.ok.injEq, Option.bind_eq_some_iff] at extracts
    obtain ⟨⟨key, located⟩, found, read⟩ := extracts
    split at read
    · cases read
    cases read
    have transfer : received - readSpan extendedLibc located.span ∈
        stampNumbers extendedLibc frame received forward := by
      rw [stampNumbers, stampTimes, found]
      simp
    have letter := Extended.mem_fixed_of_not_isFinite 6
      (mt (Extended.isFinite_sub_iff finiteReceived).mp infinite)
    have inStamped := mem_stampMarks transfer rfl letter markedStamp
    refine unwritten (mem_spliceMarks (by decide) _ (fun x y values => ?_)
      (mem_correctMarks inStamped _))
    exact untorn_of_not_torn short stamp entered whole values
  · rw [bridgeExtractJoystick_eq, Except.ok.injEq] at extracts
    exact (finite_of_spliceMarks short stamp entered whole unwritten extracts).1
  · rw [bridgeExtractJoystick_eq, Except.ok.injEq] at extracts
    exact (finite_of_spliceMarks short stamp entered whole unwritten extracts).2

end

/-! ### Runs -/

/-- The clock values of a call are what the clock is read as. -/
def ReadsClock (call : ForwardCall (Extended ℚ)) : Prop :=
  (∃ tvSec tvNsec, call.receivedNtpTime = currentEpochSeconds tvSec tvNsec) ∧
    ∃ tvSec tvNsec, call.forwardNtpTime = currentEpochSeconds tvSec tvNsec

theorem ReadsClock.isFinite {call : ForwardCall (Extended ℚ)} (reads : ReadsClock call) :
    call.receivedNtpTime.IsFinite ∧ call.forwardNtpTime.IsFinite := by
  obtain ⟨⟨tvSec, tvNsec, received⟩, tvSec', tvNsec', forward⟩ := reads
  rw [received, forward]
  exact ⟨isFinite_currentEpochSeconds _ _, isFinite_currentEpochSeconds _ _⟩

/-- The values read from the frame of a call are finite, if it is kept. -/
def Moderate (call : ForwardCall (Extended ℚ)) : Prop :=
  Kept extendedLibc call → FiniteInput call.handed.frame

section

variable {Variables : Type} {libm : Libm (Extended ℚ)} {tflite : Tflite Variables}
  {history : List (Event (Extended ℚ) × Observation (Extended ℚ))}
  {system : System (Extended ℚ) Variables}

/-- A run of moderate calls reaches finite states only. -/
theorem Runs.finiteState (exp : ∀ value : ℚ, value ≤ 0 → (libm.exp (.finite value)).IsFinite)
    (runs : Runs (extendedPlatform libm tflite) history system)
    (clocks : ∀ call ∈ forwardCalls history, ReadsClock call)
    (moderate : ∀ call ∈ forwardCalls history, Moderate call) : FiniteState system.process := by
  have invariant : SessionsHold system ∧
      ((∀ call ∈ forwardCalls history, ReadsClock call ∧ Moderate call) →
        FiniteState system.process) := by
    refine runs.invariant (fun history system => SessionsHold system ∧
      ((∀ call ∈ forwardCalls history, ReadsClock call ∧ Moderate call) →
        FiniteState system.process)) (fun start started => ⟨?_, fun _ => ?_⟩) ?_
    · exact Runs.sessionsHold ⟨start, started, .start⟩
    · obtain ⟨useNpu, tensors, initialised⟩ := started.motor
      refine ⟨fun sample member => ?_, finiteFilter_of_init initialised exp⟩
      rw [started.samples] at member
      cases member
    · rintro history system event next observation ⟨sessionsHold, finiteState⟩ taken
      refine ⟨sessionsHold_step sessionsHold taken, fun calls => ?_⟩
      rw [forwardCalls, List.filterMap_append] at calls
      have before := finiteState fun call member => calls call (List.mem_append_left _ member)
      obtain ⟨call, makes, -, run⟩ | ⟨-, same | reset | connected⟩ :=
        forwardCall_cases sessionsHold taken
      · obtain ⟨reads, input⟩ := calls call (List.mem_append_right _
          (List.mem_filterMap.mpr ⟨_, List.mem_singleton_self _, makes⟩))
        exact before.after_call reads.isFinite.1 reads.isFinite.2 input run
      · rw [same]
        exact before
      · rw [reset]
        exact ⟨fun sample impossible => absurd impossible List.not_mem_nil, before.filter⟩
      · rw [connected]
        exact ⟨before.samples, before.filter⟩
  exact invariant.2 fun call member => ⟨clocks call member, moderate call member⟩

/-- Along every run without torn frames each number written into a published payload is a number
of JSON exactly when every frame that is kept has a finite sent time, a finite first joystick value
and, where the first one's rendering fits its local buffer, a finite second one. -/
theorem writes_numbers_iff
    (exp : ∀ value : ℚ, value ≤ 0 → (libm.exp (.finite value)).IsFinite)
    (runs : Runs (extendedPlatform libm tflite) history system)
    (clocks : ∀ call ∈ forwardCalls history, ReadsClock call)
    (whole : ∀ call ∈ forwardCalls history, ¬ Torn extendedLibc call) :
    (∀ entry ∈ history, WritesNumbers extendedLibc entry) ↔
      ∀ call ∈ forwardCalls history, Moderate call := by
  constructor
  · intro writes call member kept
    obtain ⟨entry, inside, makes⟩ := List.mem_filterMap.mp member
    obtain ⟨_, _, _, -, -, short, run, -⟩ := runs.exists_entry inside makes
    exact finiteInput_of_numbersAllowed (clocks call member).isFinite.1 short run kept
      (whole call member) ((runs.writesNumbers_iff inside).mp (writes entry inside) call makes)
  · intro moderate entry inside
    refine (runs.writesNumbers_iff inside).mpr fun call makes => ?_
    have member : call ∈ forwardCalls history := List.mem_filterMap.mpr ⟨entry, inside, makes⟩
    obtain ⟨front, before, _, runsBefore, earlier, short, run, -⟩ :=
      runs.exists_entry inside makes
    have finiteState := runsBefore.finiteState exp
      (fun call among => clocks call (earlier call among))
      fun call among => moderate call (earlier call among)
    have finiteClocks := (clocks call member).isFinite
    exact numbersAllowed_of_finiteInput finiteState finiteClocks.1 finiteClocks.2 short run
      (moderate call member) (whole call member)

end

/-! ### Frames of a controller -/

/-- A mathematics library on finite numbers. -/
def extendLibm (libm : Libm ℚ) : Libm (Extended ℚ) where
  floor := .map libm.floor
  sqrt := .map libm.sqrt
  sin := .map libm.sin
  cos := .map libm.cos
  exp := .map libm.exp
  atan2 := .map₂ libm.atan2
  toFloat := .map libm.toFloat
  toInt32 := fun
    | .finite value => libm.toInt32 value
    | _ => 0
  dblMax := .finite libm.dblMax

def extendedMotor : MotorInference (Extended ℚ) Nat where
  tensors := 0
  history := HistoryWindowBuilder.create (0.0, 0.0) kSeqLen kAnchorDistance
  lpf := CascadedEMA.create (extendLibm exampleLibm) kNumTendonMotors kControlTs kLpfFc kLpfStages
  lpfInitialized := false

def extendedSystem : System (Extended ℚ) Nat where
  process := ⟨extendedMotor, [], .initial, false, bridgeServerStart (.zeroed maxBridgedFrameLen)⟩
  sessions := fun _ => ⟨.zeroed maxControllerFrameLen, 0⟩
  lws := .idle

theorem extendedSystem_started :
    Started (extendedPlatform (extendLibm exampleLibm) exampleTflite) extendedSystem where
  motor := ⟨false, 0, rfl⟩
  samples := rfl
  stats := rfl
  server := ⟨_, rfl⟩
  idle := rfl

theorem exampleLibm_exp (value : ℚ) (_ : value ≤ 0) :
    ((extendLibm exampleLibm).exp (.finite value)).IsFinite :=
  Extended.isFinite_finite _

/-- A second past the epoch. -/
abbrev early : Extended ℚ := currentEpochSeconds 1 0

theorem readsClock_early {call : ForwardCall (Extended ℚ)} (received : call.receivedNtpTime = early)
    (forward : call.forwardNtpTime = early) : ReadsClock call := ⟨⟨1, 0, received⟩, 1, 0, forward⟩

/-- What a frame gives that has finite values. -/
theorem finiteInput_of_extracts {frame : List UInt8} (sent : Option ℚ) (values : Option (ℚ × ℚ))
    (extractsSent : bridgeExtractSentTime extendedLibc frame = .ok (sent.map .finite))
    (extracts : bridgeExtractJoystick extendedLibc frame =
      .ok (values.map fun pair => (.finite pair.1, .finite pair.2))) : FiniteInput frame := by
  have finiteValues : ∀ x y, bridgeExtractJoystick extendedLibc frame = .ok (some (x, y)) →
      x.IsFinite ∧ y.IsFinite := by
    intro x y here
    rw [extracts, Except.ok.injEq, Option.map_eq_some_iff] at here
    obtain ⟨pair, -, same⟩ := here
    cases same
    exact ⟨Extended.isFinite_finite _, Extended.isFinite_finite _⟩
  refine ⟨fun value here => ?_, fun x y here => (finiteValues x y here).1,
    fun x y here _ => (finiteValues x y here).2⟩
  rw [extractsSent, Except.ok.injEq, Option.map_eq_some_iff] at here
  obtain ⟨number, -, rfl⟩ := here
  exact Extended.isFinite_finite number

/-- A frame without joystick values, or with a second one that fits, is not torn. -/
theorem not_torn {call : ForwardCall (Extended ℚ)}
    (fits : ((joystickValues extendedLibc call.handed.frame).all fun pair =>
      (fitting 32 (extendedLibc.printf 8 pair.2)).isSome) = true) : ¬ Torn extendedLibc call := by
  rintro ⟨-, x, y, rendering, values, -, -, refused⟩
  rw [values, Option.all_some, refused] at fits
  cases fits

/-- Frames with a sent time below the limit, with joystick values, and with a sent time so large
that the frame is dropped. -/
def moderateFrames : List (List UInt8) :=
  [ascii "\x7b\"ntp_time\":1e22\x7d",
    ascii "\x7b\"ntp_time\":0.5,\"joystick_x\":1e2,\"joystick_y\":-0.25\x7d",
    ascii "\x7b\"ntp_time\":1e300\x7d"]

theorem moderateFrames_finite : ∀ frame ∈ moderateFrames, FiniteInput frame := by
  simp only [moderateFrames, List.forall_mem_cons]
  refine ⟨?_, ?_, ?_, by simp⟩
  · exact finiteInput_of_extracts (some (10 ^ 22)) none (by decide +kernel) (by decide +kernel)
  · exact finiteInput_of_extracts (some 0.5) (some (100, -0.25)) (by decide +kernel)
      (by decide +kernel)
  · exact finiteInput_of_extracts (some (10 ^ 300)) none (by decide +kernel) (by decide +kernel)

theorem moderateFrames_writes_numbers_iff : ∃ history system,
    Runs (extendedPlatform (extendLibm exampleLibm) exampleTflite) history system ∧
      (forwardCalls history).map (fun call => call.handed.frame) = moderateFrames ∧
      (∀ call ∈ forwardCalls history, Moderate call) ∧
      ((∀ entry ∈ history, WritesNumbers extendedLibc entry) ↔
        ∀ call ∈ forwardCalls history, Moderate call) := by
  obtain ⟨history, system, runs, -, calls⟩ := exists_frames_run extendedSystem_started
    (moderateFrames.map fun frame => (frame, early, early)) (by decide +kernel)
  have sent : ∀ call ∈ forwardCalls history, call.handed.frame ∈ moderateFrames ∧
      call.receivedNtpTime = early ∧ call.forwardNtpTime = early := by
    intro call member
    have among := List.mem_map_of_mem (f := fun call : ForwardCall (Extended ℚ) =>
      (call.handed.frame, call.receivedNtpTime, call.forwardNtpTime)) member
    rw [calls] at among
    obtain ⟨frame, inside, same⟩ := List.mem_map.mp among
    simp only [Prod.mk.injEq] at same
    exact ⟨same.1 ▸ inside, same.2.1.symm, same.2.2.symm⟩
  have frames := congrArg (List.map Prod.fst) calls
  simp only [List.map_map, Function.comp_def, List.map_id'] at frames
  have fits : ∀ frame ∈ moderateFrames, ((joystickValues extendedLibc frame).all fun pair =>
      (fitting 32 (extendedLibc.printf 8 pair.2)).isSome) = true := by decide +kernel
  refine ⟨history, system, runs, frames, fun call member _ =>
    moderateFrames_finite _ (sent call member).1, writes_numbers_iff exampleLibm_exp runs
      (fun call member => ?_) fun call member => not_torn (fits _ (sent call member).1)⟩
  exact readsClock_early (sent call member).2.1 (sent call member).2.2

/-- A frame with a sent time that is a number of JSON beyond the limit. -/
def extremeFrame : List UInt8 := ascii "\x7b\"ntp_time\":1e999\x7d"

/-- It is not written as one. -/
theorem extremeFrame_not_writesNumbers :
    Json.Number (ascii "1e999") ∧ spanAfter ntpKey extremeFrame = some (ascii "1e999") ∧
      ∃ history system call entry,
        Runs (extendedPlatform (extendLibm exampleLibm) exampleTflite) history system ∧
          forwardCalls history = [call] ∧ call.handed.frame = extremeFrame ∧ ReadsClock call ∧
          entry ∈ history ∧ ¬ WritesNumbers extendedLibc entry := by
  refine ⟨?_, by decide +kernel, ?_⟩
  · exact ⟨ascii "1", ascii "e999",
      ⟨[], _, [], Or.inl rfl, Or.inr ⟨0x31, [], by decide, by decide, nofun, rfl⟩, Or.inl rfl, rfl⟩,
      Or.inr ⟨0x65, [], ascii "999", by decide, Or.inl rfl, ⟨by decide, by decide +kernel⟩, rfl⟩,
      rfl⟩
  obtain ⟨history, system, call, runs, calls, frame, received, forward⟩ :=
    exists_frame_run extendedSystem_started early early
      (show extremeFrame.length ≤ maxControllerFrameLen by decide +kernel)
  have reads := readsClock_early received forward
  obtain ⟨entry, inside, makes⟩ := List.mem_filterMap.mp
    (calls ▸ List.mem_singleton_self call : call ∈ forwardCalls history)
  refine ⟨history, system, call, entry, runs, calls, frame, reads, inside, fun writes => ?_⟩
  obtain ⟨_, _, _, -, -, short, run, -⟩ := runs.exists_entry inside makes
  have kept : Kept extendedLibc call := by
    rw [Kept, frame, received, forward]
    decide +kernel
  have whole : ¬ Torn extendedLibc call := not_torn (by
    rw [frame]
    decide +kernel)
  have input := finiteInput_of_numbersAllowed reads.isFinite.1 short run kept whole
    ((runs.writesNumbers_iff inside).mp writes call makes)
  have extracts : bridgeExtractSentTime extendedLibc call.handed.frame =
      .ok (some (.infinite false)) := by
    rw [frame]
    decide +kernel
  exact Extended.not_isFinite_infinite false (input.sentTime _ extracts)

/-- A frame with finite values of which only the first one can be rewritten. -/
def halfwayFrame : List UInt8 := ascii "\x7b\"joystick_x\":0.0,\"joystick_y\":1e300\x7d"

def halfwayMarks : Marks :=
  Marked.kept (ascii "\x7b\"joystick_x\":") ++ written (ascii "0.00000000") ++
    Marked.kept (ascii ",\"joystick_y\":1e300,\"frame_transfer_time_corrected\":") ++
    written (ascii "0.")

/-- A point without a digit behind it ends no number. -/
theorem not_number_point : ¬ Json.Number (ascii "0.") := by
  intro number
  obtain ⟨byte, rest, phase, same, -, complete, reads⟩ := number.run []
  cases same
  cases reads
  cases complete

theorem halfwayMarks_not_numbersAllowed :
    ¬ NumbersAllowed (PayloadNumber halfwayFrame) halfwayMarks := by
  intro allowed
  have numeric : (written (ascii "0.")).all (fun letter => Json.isNumberByte letter.1) = true := by
    decide
  have last := allowed.words _ (written (ascii "0.")) [] (List.append_nil _).symm
    (List.all_eq_true.mp numeric) (by rintro _ ⟨⟩; decide) Marked.begins_nil ⟨0x30, by decide⟩
  rw [Marked.letters_written] at last
  obtain number | ⟨key, located, found, -⟩ := last
  · exact not_number_point number
  · rw [show locateSentTime halfwayFrame = none by decide +kernel] at found
    cases found

/-- Its payload ends in the middle of a number. -/
theorem halfwayFrame_not_writesNumbers : ∃ history system call entry,
    Runs (extendedPlatform (extendLibm exampleLibm) exampleTflite) history system ∧
      forwardCalls history = [call] ∧ call.handed.frame = halfwayFrame ∧ ReadsClock call ∧
      Moderate call ∧ entry ∈ history ∧ ¬ WritesNumbers extendedLibc entry := by
  obtain ⟨observation, system, runs, connected, process⟩ :=
    exists_connection extendedSystem_started
  obtain ⟨observation', next, handed, taken, -, frame, makes, run⟩ :=
    exists_frame_step (extendedPlatform (extendLibm exampleLibm) exampleTflite) runs.sessionsHold
      connected early early (show halfwayFrame.length ≤ maxControllerFrameLen by decide +kernel)
  have marked : (bridgeServerForward (extendedPlatform (extendLibm exampleLibm) exampleTflite)
      (resetProcess (extendedPlatform (extendLibm exampleLibm) exampleTflite)
        extendedSystem.process) halfwayFrame early early).toOption.map (fun result =>
          payloadMarks extendedLibc ⟨early, early, ⟨halfwayFrame, result.2⟩⟩) =
        some (some halfwayMarks) := by
    decide +kernel
  rw [← process, run] at marked
  have runsNext := runs.step taken
  have inside := List.mem_append_right [(Event.controller 0 ControllerReason.established,
    observation)] (List.mem_singleton_self (frameEvent halfwayFrame early early, observation'))
  obtain ⟨frame', forwarded⟩ := handed
  obtain rfl : frame' = halfwayFrame := frame
  have input : FiniteInput halfwayFrame :=
    finiteInput_of_extracts none (some (0, 10 ^ 300)) (by decide +kernel) (by decide +kernel)
  refine ⟨_, next, ⟨early, early, ⟨halfwayFrame, forwarded⟩⟩, _, runsNext, ?_, rfl,
    readsClock_early rfl rfl, fun _ => input, inside, fun writes => ?_⟩
  · rw [forwardCalls, List.filterMap_append, List.filterMap_cons, List.filterMap_cons, makes]
    rfl
  · exact halfwayMarks_not_numbersAllowed
      ((runsNext.writesNumbers_iff inside).mp writes _ makes _ (Option.some_inj.mp marked))

end ControllerBridge
