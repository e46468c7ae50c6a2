/-
This file states a call of `bridge_server_forward` on texts.

The payload buffer and its length hold a text (`Holds`), and each step of the
call makes the next text from it: the step's own text where it succeeds, the
text before where it fails. The exception is `bridge_reformat_joystick`, which
may fail with one of its two rewrites in the buffer (`reformatLeft`). The two
last theorems describe every call: it drops the frame and leaves the payload as
it was, or it publishes `publishedText`.
-/

import ControllerBridge.BridgeServer

namespace ControllerBridge

open Region Search

/-! ### The text a payload holds -/

/-- The first `n` bytes of the payload are `text`. -/
structure Holds {capacity : Nat} (payload : Buffer capacity) (n : Nat) (text : List UInt8) :
    Prop where
  fits : n ≤ capacity
  reads : payload.text n = text

theorem Holds.length_eq {capacity n : Nat} {payload : Buffer capacity} {text : List UInt8}
    (holds : Holds payload n text) : text.length = n := by
  rw [← holds.reads]
  exact payload.text_length holds.fits

theorem holds_put {capacity : Nat} (payload : Buffer capacity) {text : List UInt8}
    (fits : text.length ≤ capacity) : Holds (payload.put text) text.length text :=
  ⟨fits, payload.text_put fits⟩

theorem intResult_some {text : List UInt8} {capacity : Nat} (small : capacity ≤ intMax)
    (fits : text.length ≤ capacity) : intResult (some text) = text.length :=
  toInt_of_le (fits.trans small)

theorem intResult_neg_iff {capacity : Nat} (small : capacity ≤ intMax)
    {result : Option (List UInt8)} (fits : ∀ text ∈ result, text.length ≤ capacity) :
    intResult result < 0 ↔ result = none := by
  cases result with
  | none => exact ⟨fun _ => rfl, fun _ => by decide⟩
  | some text =>
    rw [intResult_some small (fits text rfl)]
    constructor
    · intro negative
      omega
    · intro impossible
      cases impossible

theorem lengthAfter_some {capacity : Nat} (small : capacity ≤ intMax) (n : Nat)
    {text : List UInt8} (fits : text.length ≤ capacity) :
    lengthAfter n (intResult (some text)) = text.length := by
  rw [intResult_some small fits, lengthAfter, if_pos (by omega), Int.toNat_natCast]

/-- After a step the payload holds the new text, or the old one if the step failed. -/
theorem Holds.putResult {capacity n : Nat} {payload : Buffer capacity} {text : List UInt8}
    (holds : Holds payload n text) (small : capacity ≤ intMax) {result : Option (List UInt8)}
    (fits : ∀ new ∈ result, new.length ≤ capacity) :
    Holds (putResult payload result) (lengthAfter n (intResult result)) (result.getD text) := by
  cases result with
  | none => exact holds
  | some new =>
    rw [lengthAfter_some small n (fits new rfl)]
    exact holds_put payload (fits new rfl)

/-! ### The steps on the text -/

/-- `new` written over the start of `old`, and cut to the length of `old`. -/
def overwrite (new old : List UInt8) : List UInt8 := (new ++ old.drop new.length).take old.length

section

variable {Double : Type} (libc : Libc Double) (capacity : Nat)

/-- The first bytes of the payload after `bridge_reformat_joystick`, as many as its caller then
takes: where only the second rewrite fails, the first one has been written over the text. -/
def reformatLeft (joystickX joystickY : Double) (text : List UInt8) : List UInt8 :=
  match replaceText libc capacity joystickXKey joystickX text with
  | none => text
  | some first =>
    (replaceText libc capacity joystickYKey joystickY first).getD (overwrite first text)

/-- The text after the block `if (have_joystick)`. -/
def spliceText (joystick : Option (Double × Double)) (motor : Option (MotorOut Double))
    (text : List UInt8) : List UInt8 :=
  match joystick with
  | none => text
  | some (x, y) =>
    let reformatted := reformatLeft libc capacity x y text
    match motor with
    | none => reformatted
    | some out =>
      (appendMotorText libc capacity (out.tendon 0) (out.tendon 1) (out.tendon 2) out.insertion
        reformatted).getD reformatted

/-- The text with the corrected transfer time, if it can be appended. -/
def correctText (corrected : Double) (text : List UInt8) : List UInt8 :=
  (appendFieldText libc capacity correctedKey corrected text).getD text

/-- The payload a call publishes, from the stamped text on. -/
def publishedText (corrected : Double) (joystick : Option (Double × Double))
    (motor : Option (MotorOut Double)) (stamped : List UInt8) : List UInt8 :=
  spliceText libc capacity joystick motor (correctText libc capacity corrected stamped)

end

section

variable {Double : Type} (libc : Libc Double) {capacity : Nat}

theorem insertText_length_le {fields text result : List UInt8}
    (inserted : insertText capacity fields text = some result) : result.length ≤ capacity := by
  rw [insertText, Option.bind_eq_some_iff] at inserted
  obtain ⟨pieces, -, fits⟩ := inserted
  obtain ⟨rfl, short⟩ := within_eq_some_iff.mp fits
  exact short

theorem appendFieldText_length_le {key : List UInt8} {value : Double} {text result : List UInt8}
    (appended : appendFieldText libc capacity key value text = some result) :
    result.length ≤ capacity := by
  rw [appendFieldText, Option.bind_eq_some_iff] at appended
  obtain ⟨field, -, inserted⟩ := appended
  exact insertText_length_le inserted

theorem appendMotorText_length_le {m1 m2 m3 m4 : Double} {text result : List UInt8}
    (appended : appendMotorText libc capacity m1 m2 m3 m4 text = some result) :
    result.length ≤ capacity := by
  rw [appendMotorText, Option.bind_eq_some_iff] at appended
  obtain ⟨fields, -, inserted⟩ := appended
  exact insertText_length_le inserted

theorem stampText_length_le [Sub Double] {raw result : List UInt8} {received forward : Double}
    (stamped : stampText libc capacity raw received forward = some result) :
    result.length ≤ capacity := by
  rw [stampText] at stamped
  split at stamped
  · obtain ⟨rfl, short⟩ := within_eq_some_iff.mp stamped
    exact short
  · simp only [Option.bind_eq_bind, Option.bind_eq_some_iff] at stamped
    obtain ⟨_, -, _, -, _, -, _, -, fits⟩ := stamped
    obtain ⟨rfl, short⟩ := within_eq_some_iff.mp fits
    exact short

theorem bridgeAppendField_holds (small : capacity ≤ intMax) {payload : Buffer capacity} {n : Nat}
    {text : List UInt8} (holds : Holds payload n text) (key : List UInt8) (value : Double) :
    ∃ after, bridgeAppendField libc payload n key value =
        .ok (intResult (appendFieldText libc capacity key value text), after) ∧
      Holds after (lengthAfter n (intResult (appendFieldText libc capacity key value text)))
        ((appendFieldText libc capacity key value text).getD text) := by
  refine ⟨_, ?_, holds.putResult small fun new member => ?_⟩
  · rw [bridgeAppendField_eq libc payload holds.fits, holds.reads]
  · exact appendFieldText_length_le libc member

theorem bridgeAppendMotorFields_holds (small : capacity ≤ intMax) {payload : Buffer capacity}
    {n : Nat} {text : List UInt8} (holds : Holds payload n text) (m1 m2 m3 m4 : Double) :
    ∃ after, bridgeAppendMotorFields libc payload n m1 m2 m3 m4 =
        .ok (intResult (appendMotorText libc capacity m1 m2 m3 m4 text), after) ∧
      Holds after (lengthAfter n (intResult (appendMotorText libc capacity m1 m2 m3 m4 text)))
        ((appendMotorText libc capacity m1 m2 m3 m4 text).getD text) := by
  refine ⟨_, ?_, holds.putResult small fun new member => ?_⟩
  · rw [bridgeAppendMotorFields_eq libc payload holds.fits, holds.reads]
  · exact appendMotorText_length_le libc member

/-- A rewrite that the caller does not know of leaves the text overwritten. -/
theorem Holds.overwrite {payload : Buffer capacity} {n : Nat} {text : List UInt8}
    (holds : Holds payload n text) {new : List UInt8} (fits : new.length ≤ capacity) :
    Holds (payload.put new) n (overwrite new text) := by
  refine ⟨holds.fits, ?_⟩
  rw [payload.text_put_eq n fits, holds.reads, ControllerBridge.overwrite, holds.length_eq]

/-- The two rewrites, when both succeed. -/
theorem reformatText_eq_some {libc : Libc Double} {x y : Double} {text result : List UInt8}
    (reformatted : reformatText libc capacity x y text = some result) :
    ∃ first, replaceText libc capacity joystickXKey x text = some first ∧
      replaceText libc capacity joystickYKey y first = some result ∧
      reformatLeft libc capacity x y text = result := by
  rw [reformatText, Option.bind_eq_some_iff] at reformatted
  obtain ⟨first, replacedX, replacedY⟩ := reformatted
  refine ⟨first, replacedX, replacedY, ?_⟩
  rw [reformatLeft, replacedX]
  dsimp only
  rw [replacedY, Option.getD_some]

theorem bridgeReformatJoystick_holds (small : capacity ≤ intMax) {payload : Buffer capacity}
    {n : Nat} {text : List UInt8} (holds : Holds payload n text) (x y : Double) :
    ∃ after, bridgeReformatJoystick libc payload n x y =
        .ok (intResult (reformatText libc capacity x y text), after) ∧
      Holds after (lengthAfter n (intResult (reformatText libc capacity x y text)))
        (reformatLeft libc capacity x y text) := by
  rw [bridgeReformatJoystick_eq libc small payload holds.fits, holds.reads, reformatText,
    reformatLeft]
  have short : text.length ≤ capacity := holds.length_eq.le.trans holds.fits
  cases replacedX : replaceText libc capacity joystickXKey x text with
  | none => exact ⟨_, rfl, holds⟩
  | some first =>
    have fits := replaceText_length_le libc short replacedX
    refine ⟨_, rfl, ?_⟩
    rw [Option.bind_some]
    dsimp only
    cases replacedY : replaceText libc capacity joystickYKey y first with
    | none => exact holds.overwrite fits
    | some second =>
      have fitsSecond := replaceText_length_le libc fits replacedY
      rw [lengthAfter_some small n fitsSecond]
      exact holds_put _ fitsSecond

/-- The results of the two steps of the block `if (have_joystick)`. -/
def spliceResults (libc : Libc Double) (capacity : Nat) (joystick : Option (Double × Double))
    (motor : Option (MotorOut Double)) (text : List UInt8) : Option Int × Option Int :=
  (joystick.map fun (x, y) => intResult (reformatText libc capacity x y text),
    joystick.bind fun (x, y) => motor.map fun out =>
      intResult (appendMotorText libc capacity (out.tendon 0) (out.tendon 1) (out.tendon 2)
        out.insertion (reformatLeft libc capacity x y text)))

theorem spliceJoystick_holds (small : capacity ≤ intMax) {payload : Buffer capacity} {n : Nat}
    {text : List UInt8} (holds : Holds payload n text) (joystick : Option (Double × Double))
    (motor : Option (MotorOut Double)) :
    ∃ after length, spliceJoystick libc payload n joystick motor =
        .ok (after, length, spliceResults libc capacity joystick motor text) ∧
      Holds after length (spliceText libc capacity joystick motor text) := by
  cases joystick with
  | none => exact ⟨payload, n, rfl, holds⟩
  | some values =>
    obtain ⟨x, y⟩ := values
    obtain ⟨reformatted, run, holdsReformatted⟩ :=
      bridgeReformatJoystick_holds libc small holds x y
    rw [spliceJoystick, run, ok_bind]
    cases motor with
    | none => exact ⟨reformatted, _, rfl, holdsReformatted⟩
    | some out =>
      obtain ⟨appended, runMotor, holdsAppended⟩ :=
        bridgeAppendMotorFields_holds libc small holdsReformatted (out.tendon 0) (out.tendon 1)
          (out.tendon 2) out.insertion
      dsimp only
      rw [runMotor, ok_bind]
      exact ⟨appended, _, rfl, holdsAppended⟩

end

/-! ### The numbers a call renders -/

section

variable {Double : Type}

/-- What is written for a number, if anything is, is as allowed. -/
def Renders (libc : Libc Double) (allowed : List UInt8 → Prop) (places : Nat)
    (value : Double) : Prop :=
  ∀ rendering, libc.printf places value = some rendering → allowed rendering

/-- The numbers the stamping renders. -/
def stampNumbers [Sub Double] (libc : Libc Double) (text : List UInt8)
    (receivedNtpTime forwardNtpTime : Double) : List Double :=
  match stampTimes libc text receivedNtpTime forwardNtpTime with
  | none => []
  | some (transfer, processing) => [forwardNtpTime, receivedNtpTime, processing, transfer]

def joystickNumbers : Option (Double × Double) → List Double
  | none => []
  | some (x, y) => [x, y]

def motorNumbers : Option (MotorOut Double) → List Double
  | none => []
  | some out => [out.tendon 0, out.tendon 1, out.tendon 2, out.insertion]

/-- The numbers rendered after the stamping are rendered as allowed. -/
structure PublishRenders (libc : Libc Double) (allowed : List UInt8 → Prop) (corrected : Double)
    (joystick : Option (Double × Double)) (motor : Option (MotorOut Double)) : Prop where
  corrected : Renders libc allowed 6 corrected
  joystick : ∀ value ∈ joystickNumbers joystick, Renders libc allowed 8 value
  motor : ∀ value ∈ motorNumbers motor, Renders libc allowed 6 value

end

/-! ### A call as a whole -/

theorem maxBridgedFrameLen_le : maxBridgedFrameLen ≤ intMax := by decide

section

variable {Double Variables : Type} [Add Double] [Sub Double] [Mul Double] [Div Double]
  [Neg Double] [LT Double] [DecidableLT Double] [LE Double] [DecidableLE Double]
  [OfScientific Double] [NatCast Double] [IntCast Double]
  (platform : Platform Double Variables) (process : Process Double Variables)
  (rawFrame : List UInt8) (receivedNtpTime forwardNtpTime : Double)

/-- The stamped frame, unless it is dropped. -/
def stampedFrame : Option (List UInt8) :=
  stampText platform.libc maxBridgedFrameLen rawFrame receivedNtpTime forwardNtpTime

/-- The transfer and processing times a call works with: zero for a frame without a sent time. -/
def frameTimes : Double × Double :=
  (stampTimes platform.libc rawFrame receivedNtpTime forwardNtpTime).getD (0.0, 0.0)

/-- The inference of a call. -/
def frameInference : MotorInference Double Variables × Option (MotorOut Double) :=
  inferMotor platform process.motor (joystickValues platform.libc rawFrame)

/-- The samples a call leaves, and its corrected transfer time. -/
def frameCorrection : Samples Double × Double :=
  clockOffsetCorrect process.samples
    (frameTimes platform rawFrame receivedNtpTime forwardNtpTime).1 receivedNtpTime

/-- The statistics a call leaves, and its report. -/
def frameStatistics : FrameStats Double × Option (StatReport Double) :=
  frameStatsRecord platform.libm.dblMax process.stats
    (frameTimes platform rawFrame receivedNtpTime forwardNtpTime).1
    (frameTimes platform rawFrame receivedNtpTime forwardNtpTime).2

/-- The payload a call publishes. -/
def publishedFrame (stamped : List UInt8) : List UInt8 :=
  publishedText platform.libc maxBridgedFrameLen
    (frameCorrection platform process rawFrame receivedNtpTime forwardNtpTime).2
    (joystickValues platform.libc rawFrame) (frameInference platform process rawFrame).2 stamped

/-- The record of a call that publishes its frame. -/
def publishedRecord (stamped : List UInt8) : Published Double :=
  let times := frameTimes platform rawFrame receivedNtpTime forwardNtpTime
  let corrected := (frameCorrection platform process rawFrame receivedNtpTime forwardNtpTime).2
  let results := spliceResults platform.libc maxBridgedFrameLen
    (joystickValues platform.libc rawFrame) (frameInference platform process rawFrame).2
    (correctText platform.libc maxBridgedFrameLen corrected stamped)
  { frameTransferTime := times.1
    processingTime := times.2
    report := (frameStatistics platform process rawFrame receivedNtpTime forwardNtpTime).2
    correctedTransferTime := corrected
    withCorrection := intResult
      (appendFieldText platform.libc maxBridgedFrameLen correctedKey corrected stamped)
    row := timingLogRecord process.logOpen receivedNtpTime times.1 corrected times.2
    reformatted := results.1
    withMotor := results.2
    requested := process.server.protocol }

/-- Every number a call renders is rendered as allowed. -/
structure CallRenders (allowed : List UInt8 → Prop) : Prop where
  stamp : ∀ value ∈ stampNumbers platform.libc rawFrame receivedNtpTime forwardNtpTime,
    Renders platform.libc allowed 6 value
  publish : PublishRenders platform.libc allowed
    (frameCorrection platform process rawFrame receivedNtpTime forwardNtpTime).2
    (joystickValues platform.libc rawFrame) (frameInference platform process rawFrame).2

/-- A call that cannot stamp its frame changes nothing but the inference state. -/
theorem bridgeServerForward_dropped
    (dropped : stampedFrame platform rawFrame receivedNtpTime forwardNtpTime = none) :
    bridgeServerForward platform process rawFrame receivedNtpTime forwardNtpTime =
      .ok ({ process with motor := (frameInference platform process rawFrame).1 }, {
        joystick := joystickValues platform.libc rawFrame
        motor := (frameInference platform process rawFrame).2
        stamped := -1
        published := none }) := by
  rw [stampedFrame] at dropped
  rw [bridgeServerForward, bridgeExtractJoystick_eq, ok_bind, bridgeStampFrame_eq]
  simp only [ok_bind, dropped]
  rfl

/-- A call that stamps its frame publishes it, with the steps after the stamping applied. -/
theorem bridgeServerForward_published {stamped : List UInt8}
    (stamp : stampedFrame platform rawFrame receivedNtpTime forwardNtpTime = some stamped) :
    ∃ payload n, bridgeServerForward platform process rawFrame receivedNtpTime forwardNtpTime =
      .ok ({
        motor := (frameInference platform process rawFrame).1
        samples := (frameCorrection platform process rawFrame receivedNtpTime forwardNtpTime).1
        stats := (frameStatistics platform process rawFrame receivedNtpTime forwardNtpTime).1
        logOpen := process.logOpen
        server := ⟨payload, n, process.server.protocol⟩ }, {
        joystick := joystickValues platform.libc rawFrame
        motor := (frameInference platform process rawFrame).2
        stamped := stamped.length
        published := some
          (publishedRecord platform process rawFrame receivedNtpTime forwardNtpTime stamped) }) ∧
      Holds payload n
        (publishedFrame platform process rawFrame receivedNtpTime forwardNtpTime stamped) := by
  rw [stampedFrame] at stamp
  have fits : stamped.length ≤ maxBridgedFrameLen := stampText_length_le platform.libc stamp
  have positive : ¬ (stamped.length : Int) < 0 := by omega
  obtain ⟨corrected, runCorrected, holdsCorrected⟩ :=
    bridgeAppendField_holds platform.libc maxBridgedFrameLen_le
      (holds_put process.server.payload fits) correctedKey
      (frameCorrection platform process rawFrame receivedNtpTime forwardNtpTime).2
  obtain ⟨payload, n, runSplice, holdsSplice⟩ :=
    spliceJoystick_holds platform.libc maxBridgedFrameLen_le holdsCorrected
      (joystickValues platform.libc rawFrame) (frameInference platform process rawFrame).2
  refine ⟨payload, n, ?_, holdsSplice⟩
  rw [bridgeServerForward, bridgeExtractJoystick_eq, ok_bind, bridgeStampFrame_eq]
  simp only [ok_bind, stamp, intResult_some maxBridgedFrameLen_le fits, if_neg positive,
    Int.toNat_natCast, putResult]
  rw [frameCorrection, frameTimes] at runCorrected
  rw [frameInference, frameCorrection, frameTimes] at runSplice
  rw [runCorrected, ok_bind]
  dsimp only
  rw [runSplice]
  rfl

/-- What a call did: it dropped its frame and only its inference counts, or it published it. -/
theorem bridgeServerForward_cases {process' : Process Double Variables}
    {forwarded : Forwarded Double}
    (run : bridgeServerForward platform process rawFrame receivedNtpTime forwardNtpTime =
      .ok (process', forwarded)) :
    (stampedFrame platform rawFrame receivedNtpTime forwardNtpTime = none ∧
      process' = { process with motor := (frameInference platform process rawFrame).1 } ∧
      forwarded = {
        joystick := joystickValues platform.libc rawFrame
        motor := (frameInference platform process rawFrame).2
        stamped := -1
        published := none }) ∨
    ∃ stamped payload n,
      stampedFrame platform rawFrame receivedNtpTime forwardNtpTime = some stamped ∧
      process' = {
        motor := (frameInference platform process rawFrame).1
        samples := (frameCorrection platform process rawFrame receivedNtpTime forwardNtpTime).1
        stats := (frameStatistics platform process rawFrame receivedNtpTime forwardNtpTime).1
        logOpen := process.logOpen
        server := ⟨payload, n, process.server.protocol⟩ } ∧
      forwarded = {
        joystick := joystickValues platform.libc rawFrame
        motor := (frameInference platform process rawFrame).2
        stamped := stamped.length
        published := some
          (publishedRecord platform process rawFrame receivedNtpTime forwardNtpTime stamped) } ∧
      Holds payload n
        (publishedFrame platform process rawFrame receivedNtpTime forwardNtpTime stamped) := by
  cases stamp : stampedFrame platform rawFrame receivedNtpTime forwardNtpTime with
  | none =>
    rw [bridgeServerForward_dropped platform process rawFrame _ _ stamp, Except.ok.injEq,
      Prod.mk.injEq] at run
    exact Or.inl ⟨rfl, run.1.symm, run.2.symm⟩
  | some stamped =>
    obtain ⟨payload, n, run', holds⟩ :=
      bridgeServerForward_published platform process rawFrame _ _ stamp
    rw [run', Except.ok.injEq, Prod.mk.injEq] at run
    exact Or.inr ⟨stamped, payload, n, rfl, run.1.symm, run.2.symm, holds⟩

/-- The inference state after a call is the one the inference leaves. -/
theorem bridgeServerForward_motor {process' : Process Double Variables}
    {forwarded : Forwarded Double}
    (run : bridgeServerForward platform process rawFrame receivedNtpTime forwardNtpTime =
      .ok (process', forwarded)) :
    process'.motor = (frameInference platform process rawFrame).1 := by
  obtain ⟨-, rfl, -⟩ | ⟨_, _, _, -, rfl, -, -⟩ :=
    bridgeServerForward_cases platform process rawFrame _ _ run
  · rfl
  · rfl

/-- A call reports the joystick values of its frame, and the positions computed for them. -/
theorem bridgeServerForward_reports {process' : Process Double Variables}
    {forwarded : Forwarded Double}
    (run : bridgeServerForward platform process rawFrame receivedNtpTime forwardNtpTime =
      .ok (process', forwarded)) :
    forwarded.joystick = joystickValues platform.libc rawFrame ∧
      forwarded.motor = (frameInference platform process rawFrame).2 := by
  obtain ⟨-, -, rfl⟩ | ⟨_, _, _, -, -, rfl, -⟩ :=
    bridgeServerForward_cases platform process rawFrame _ _ run
  · exact ⟨rfl, rfl⟩
  · exact ⟨rfl, rfl⟩

/-- Every call returns: none makes an access outside its ranges. -/
theorem bridgeServerForward_ok :
    ∃ process' forwarded, bridgeServerForward platform process rawFrame receivedNtpTime
      forwardNtpTime = .ok (process', forwarded) := by
  cases stamp : stampedFrame platform rawFrame receivedNtpTime forwardNtpTime with
  | none => exact ⟨_, _, bridgeServerForward_dropped platform process rawFrame _ _ stamp⟩
  | some stamped =>
    obtain ⟨payload, n, run, -⟩ :=
      bridgeServerForward_published platform process rawFrame _ _ stamp
    exact ⟨_, _, run⟩

end

end ControllerBridge
