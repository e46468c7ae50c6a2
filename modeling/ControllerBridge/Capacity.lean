/-
This file settles that the payload buffer suffices, in exact arithmetic.

Each step makes its text longer by what it renders and by fixed texts, and
shorter by what it replaces. The stamped frame has at most 767 bytes, and the
corrected transfer time, the joystick values and the motor fields add at most
65, 62 and 105. The second number rests on the samples: the corrected time is
the difference of two transfer times that have both been rendered in 31
characters, so an invariant of the process bounds it. So a step fails for another
reason than room (`RoomSuffices`), and only a step that fails leaves something
out (`OmitsOnRefusal`).
-/

import ControllerBridge.ClockOffset
import ControllerBridge.Exact
import ControllerBridge.MotorRange
import ControllerBridge.Reassembly

namespace ControllerBridge

open Region Search

/-! ### How much a step adds -/

section

variable {Double : Type} (libc : Libc Double) {capacity : Nat}

theorem fitting_eq_none_iff {size : Nat} {rendering : Option (List UInt8)} :
    fitting size rendering = none ↔ (snprintf size rendering).refused size = true := by
  rw [refused_snprintf, Option.isNone_iff_eq_none]

theorem fitting_length_le {size : Nat} {rendering : Option (List UInt8)} {bytes : List UInt8}
    (fits : fitting (size + 1) rendering = some bytes) : bytes.length ≤ size :=
  Nat.le_of_lt_succ (fitting_eq_some_iff.mp fits).2

theorem length_le_of_reads {key text : List UInt8} {located : Located}
    (reads : Reads key text located) :
    located.before.length + key.length + located.span.length + located.after.length ≤
      text.length := by
  have whole := congrArg List.length reads.text_eq
  simp only [List.length_append] at whole
  omega

/-- The sent-time key that is renamed has at least the length of the shorter one. -/
theorem key_length_of_locateSentTime {text key : List UInt8} {located : Located}
    (found : locateSentTime text = some (key, located)) : ntpKey.length ≤ key.length := by
  rw [locateSentTime] at found
  split at found
  · cases found
    exact le_rfl
  · rw [Option.map_eq_some_iff] at found
    obtain ⟨_, -, same⟩ := found
    cases same
    decide

/-- The stamping adds at most 255 bytes to a frame, when its four renderings fit. -/
theorem stampText_room [Sub Double] {raw : List UInt8} (received forward : Double)
    (room : raw.length + 255 ≤ capacity) :
    (stampText libc capacity raw received forward = none →
      ∃ times ∈ stampTimes libc raw received forward,
        ∃ value ∈ [forward, received, times.2, times.1],
          (snprintf 32 (libc.printf 6 value)).refused 32 = true) ∧
    ∀ stamped ∈ stampText libc capacity raw received forward,
      stamped.length ≤ raw.length + 255 := by
  rw [stampText, stampTimes]
  cases found : locateSentTime raw with
  | none =>
    dsimp only
    rw [within, if_pos (by omega)]
    refine ⟨fun impossible => absurd impossible (Option.some_ne_none _), ?_⟩
    rintro stamped ⟨⟩
    omega
  | some pair =>
    obtain ⟨key, located⟩ := pair
    have lengths := length_le_of_reads (reads_of_locateSentTime found)
    have keyLength := key_length_of_locateSentTime found
    simp only [← fitting_eq_none_iff, Option.map_some, Option.mem_some_iff, exists_eq_left',
      List.mem_cons, List.not_mem_nil, or_false, exists_eq_or_imp, exists_eq_left]
    have refused : ∀ stamped ∈ (none : Option (List UInt8)), stamped.length ≤ raw.length + 255 :=
      fun _ impossible => absurd impossible (Option.not_mem_none _)
    cases fitsForward : fitting 32 (libc.printf 6 forward) with
    | none => exact ⟨fun _ => Or.inl rfl, refused⟩
    | some forwardText =>
    cases fitsReceived : fitting 32 (libc.printf 6 received) with
    | none => exact ⟨fun _ => Or.inr (Or.inl rfl), refused⟩
    | some receivedText =>
    cases fitsProcessing : fitting 32 (libc.printf 6 (forward - received)) with
    | none => exact ⟨fun _ => Or.inr (Or.inr (Or.inl rfl)), refused⟩
    | some processingText =>
    cases fitsTransfer : fitting 32 (libc.printf 6 (received - readSpan libc located.span)) with
    | none => exact ⟨fun _ => Or.inr (Or.inr (Or.inr rfl)), refused⟩
    | some transferText =>
    have shortForward := fitting_length_le fitsForward
    have shortReceived := fitting_length_le fitsReceived
    have shortProcessing := fitting_length_le fitsProcessing
    have shortTransfer := fitting_length_le fitsTransfer
    have total := stampedText_length located forwardText processingText transferText receivedText
    have fixed : sentKey.length + newNtpKey.length + processingKey.length + transferKey.length +
        receivedKey.length = 142 ∧ ntpKey.length = 11 := by decide
    simp only [Option.bind_eq_bind, Option.bind_some]
    rw [within, if_pos (by omega)]
    refine ⟨fun impossible => absurd impossible (Option.some_ne_none _), ?_⟩
    rintro stamped ⟨⟩
    omega

/-- Inserted fields that have room are refused only by a text without a closing brace. -/
theorem insertText_room {fields text : List UInt8}
    (room : text.length + fields.length ≤ capacity) :
    (insertText capacity fields text = none → closingBrace ∉ text) ∧
      ((insertText capacity fields text).getD text).length ≤ text.length + fields.length := by
  rw [insertText]
  cases found : cutLast closingBrace text with
  | none => exact ⟨fun _ => cutLast_eq_none_iff.mp found, Nat.le_add_right _ _⟩
  | some pieces =>
    have whole := congrArg List.length (cutLast_eq_some_iff.mp found).split
    have total : (pieces.1 ++ fields ++ closingBrace :: pieces.2).length =
        text.length + fields.length := by
      rw [List.length_append, List.length_append] at *
      omega
    rw [Option.bind_some, within, if_pos (by omega), Option.getD_some]
    exact ⟨fun impossible => absurd impossible (Option.some_ne_none _), total.le⟩

/-- A rewritten value that has room is refused only by its local buffer. -/
theorem replaceText_room {key text : List UInt8} (value : Double) (nonempty : key ≠ [])
    (room : text.length + 31 ≤ capacity) :
    (replaceText libc capacity key value text = none →
      (snprintf 32 (libc.printf 8 value)).refused 32 = true) ∧
    ∀ result ∈ replaceText libc capacity key value text, result.length ≤ text.length + 31 := by
  rw [replaceText, ← fitting_eq_none_iff]
  cases found : locate key text with
  | none =>
    refine ⟨fun impossible => absurd impossible (Option.some_ne_none _), ?_⟩
    rintro result ⟨⟩
    omega
  | some located =>
    have whole := congrArg List.length ((locate_eq_some_iff nonempty).mp found).text_eq
    cases fits : fitting 32 (libc.printf 8 value) with
    | none => exact ⟨fun _ => rfl, fun _ impossible => absurd impossible (Option.not_mem_none _)⟩
    | some rendering =>
      have short := fitting_length_le fits
      have total : (located.before ++ key ++ located.blanks ++ rendering ++
          located.after).length ≤ text.length + 31 := by
        simp only [List.length_append] at whole ⊢
        omega
      simp only [Option.bind_eq_bind, Option.bind_some]
      rw [within, if_pos (total.trans room)]
      refine ⟨fun impossible => absurd impossible (Option.some_ne_none _), ?_⟩
      rintro result ⟨⟩
      exact total

/-- Joystick values that have room are refused only by their local buffers, and what is left of
the text is at most 62 bytes longer, whether both values, one or none is rewritten. -/
theorem reformatText_room (x y : Double) {text : List UInt8}
    (room : text.length + 62 ≤ capacity) :
    (reformatText libc capacity x y text = none →
      (snprintf 32 (libc.printf 8 x)).refused 32 = true ∨
        (snprintf 32 (libc.printf 8 y)).refused 32 = true) ∧
    (reformatLeft libc capacity x y text).length ≤ text.length + 62 := by
  obtain ⟨refusedX, lengthX⟩ := replaceText_room libc x joystickXKey_ne_nil
    (show text.length + 31 ≤ capacity by omega)
  rw [reformatText, reformatLeft]
  cases replacedX : replaceText libc capacity joystickXKey x text with
  | none => exact ⟨fun _ => Or.inl (refusedX replacedX), Nat.le_add_right _ _⟩
  | some first =>
    have shortFirst := lengthX first replacedX
    obtain ⟨refusedY, lengthY⟩ := replaceText_room libc y joystickYKey_ne_nil
      (show first.length + 31 ≤ capacity by omega)
    rw [Option.bind_some]
    refine ⟨fun none => Or.inr (refusedY none), ?_⟩
    dsimp only
    cases replacedY : replaceText libc capacity joystickYKey y first with
    | none =>
      rw [Option.getD_none, overwrite, List.length_take]
      omega
    | some second =>
      have shortSecond := lengthY second replacedY
      rw [Option.getD_some]
      omega

end

/-! ### Exact renderings -/

/-- A transfer time that has been rendered in the local buffer of 32 bytes. -/
def FitsBuffer (transfer : ℚ) : Prop := (Decimal.fixed 6 transfer).length ≤ 31

theorem FitsBuffer.abs_lt {transfer : ℚ} (fits : FitsBuffer transfer) :
    |transfer| < 10 ^ 24 := by
  rw [FitsBuffer, Decimal.fixed_length (by decide)] at fits
  exact Decimal.abs_lt_of_digits_length_le 6 (by decide) (by omega)

/-- A number that is not negative renders with the digits before its point and seven more
characters. -/
theorem fixed_length_le {value : ℚ} (bound count : Nat) (nonnegative : 0 ≤ value)
    (below : value < bound) (positive : 0 < count) (within : bound < 10 ^ count) :
    (Decimal.fixed 6 value).length ≤ count + 7 := by
  have digits := Decimal.digits_length_le_of_abs_lt 6 positive
    (show |value| < bound by rwa [abs_of_nonneg nonnegative]) within
  rw [Decimal.fixed_length (by decide), Decimal.sign, if_neg (not_lt.mpr nonnegative),
    List.length_nil]
  omega

/-- The transfer time the source takes for a frame without a sent time. -/
theorem fitsBuffer_zero : FitsBuffer 0.0 :=
  (fixed_length_le 1 1 (by norm_num) (by norm_num) (by decide)
    (by decide)).trans (by decide)

/-- The corrected time of samples that were all rendered has at most 32 characters. -/
theorem corrected_length_le {samples : Samples ℚ} {transfer : ℚ} (now : ℚ)
    (samplesFit : ∀ sample ∈ samples, FitsBuffer sample.2) (fits : FitsBuffer transfer) :
    (∀ sample ∈ (clockOffsetCorrect samples transfer now).1, FitsBuffer sample.2) ∧
      (Decimal.fixed 6 (clockOffsetCorrect samples transfer now).2).length ≤ 32 := by
  obtain ⟨kept, low, suffix, left, least, corrected⟩ :=
    clockOffsetCorrect_spec samples transfer now
  have keptFit : ∀ sample ∈ kept ++ [(now, transfer)], FitsBuffer sample.2 :=
    List.forall_mem_append.mpr ⟨fun sample early => samplesFit sample (suffix.subset early),
      List.forall_mem_singleton.mpr fits⟩
  obtain ⟨sample, member, same⟩ := List.mem_map.mp least.1
  have lowFits : FitsBuffer low := same ▸ keptFit sample member
  have below : low ≤ transfer :=
    least.2 (List.mem_map_of_mem (f := Prod.snd)
      (List.mem_append_right kept (List.mem_singleton_self (now, transfer))))
  have lowBound := abs_lt.mp lowFits.abs_lt
  have bound := abs_lt.mp fits.abs_lt
  refine ⟨left ▸ keptFit, ?_⟩
  rw [corrected]
  refine fixed_length_le (2 * 10 ^ 24) 25 (sub_nonneg.mpr below) ?_
    (by decide) (by decide)
  push_cast
  linarith

section

variable {libc : Libc ℚ}
  (rendersExactly : ∀ places value, libc.printf places value = some (Decimal.fixed places value))
  {capacity : Nat}

include rendersExactly

/-- The corrected time has room, and its local buffer suffices. -/
theorem appendFieldText_room {corrected : ℚ} {text : List UInt8}
    (short : (Decimal.fixed 6 corrected).length ≤ 32) (room : text.length + 65 ≤ capacity) :
    (appendFieldText libc capacity correctedKey corrected text = none → closingBrace ∉ text) ∧
      (correctText libc capacity corrected text).length ≤ text.length + 65 := by
  have field : fieldText libc correctedKey corrected =
      some (ascii ",\"" ++ correctedKey ++ ascii "\":" ++ Decimal.fixed 6 corrected) := by
    rw [fieldText, rendersExactly]
    rfl
  have length : (ascii ",\"" ++ correctedKey ++ ascii "\":" ++
      Decimal.fixed 6 corrected).length ≤ 65 := by
    have key : (ascii ",\"" ++ correctedKey ++ ascii "\":").length = 33 := by decide
    rw [List.length_append, key]
    omega
  generalize ascii ",\"" ++ correctedKey ++ ascii "\":" ++ Decimal.fixed 6 corrected = bytes
    at field length
  obtain ⟨refused, total⟩ :=
    insertText_room (show text.length + bytes.length ≤ capacity by omega)
  rw [correctText, appendFieldText, field,
    fitting_eq_some_iff.mpr ⟨rfl, by omega⟩, Option.bind_some]
  exact ⟨refused, total.trans (by omega)⟩

/-- Motor positions in their range have room, and their local buffer suffices. -/
theorem appendMotorText_room {m1 m2 m3 : ℚ}
    (range : ∀ value ∈ [m1, m2, m3], 0 ≤ value ∧ value ≤ 255 * kOutputScale) {text : List UInt8}
    (room : text.length + 105 ≤ capacity) :
    (appendMotorText libc capacity m1 m2 m3 kInsertionMotorPosition text = none →
        closingBrace ∉ text) ∧
      ((appendMotorText libc capacity m1 m2 m3 kInsertionMotorPosition text).getD text).length ≤
        text.length + 105 := by
  have short : ∀ value ∈ [m1, m2, m3], (Decimal.fixed 6 value).length ≤ 9 := by
    intro value member
    obtain ⟨fromZero, toTop⟩ := range value member
    refine fixed_length_le 13 2 fromZero ?_ (by decide) (by decide)
    refine toTop.trans_lt ?_
    rw [kOutputScale]
    norm_num
  have short1 := short m1 (by simp)
  have short2 := short m2 (by simp)
  have short3 := short m3 (by simp)
  have short4 : (Decimal.fixed 6 kInsertionMotorPosition).length ≤ 8 := by
    rw [kInsertionMotorPosition]
    exact fixed_length_le 1 1 (by norm_num) (by norm_num) (by decide)
      (by decide)
  have fields : motorFields libc m1 m2 m3 kInsertionMotorPosition =
      some (ascii ",\"motor_1_pos\":" ++ Decimal.fixed 6 m1 ++
        ascii ",\"motor_2_pos\":" ++ Decimal.fixed 6 m2 ++
        ascii ",\"motor_3_pos\":" ++ Decimal.fixed 6 m3 ++
        ascii ",\"motor_4_insertion_pos\":" ++ Decimal.fixed 6 kInsertionMotorPosition) := by
    rw [motorFields]
    simp only [rendersExactly]
    rfl
  generalize written : ascii ",\"motor_1_pos\":" ++ Decimal.fixed 6 m1 ++
    ascii ",\"motor_2_pos\":" ++ Decimal.fixed 6 m2 ++
    ascii ",\"motor_3_pos\":" ++ Decimal.fixed 6 m3 ++
    ascii ",\"motor_4_insertion_pos\":" ++ Decimal.fixed 6 kInsertionMotorPosition = bytes
    at fields
  have length : bytes.length ≤ 105 := by
    have names : (ascii ",\"motor_1_pos\":").length + (ascii ",\"motor_2_pos\":").length +
        (ascii ",\"motor_3_pos\":").length +
        (ascii ",\"motor_4_insertion_pos\":").length = 70 := by decide
    rw [← written]
    simp only [List.length_append]
    omega
  obtain ⟨refused, total⟩ :=
    insertText_room (show text.length + bytes.length ≤ capacity by omega)
  rw [appendMotorText, fields, fitting_eq_some_iff.mpr ⟨rfl, by omega⟩, Option.bind_some]
  exact ⟨refused, total.trans (by omega)⟩

end

/-! ### Every call on a reachable state -/

section

variable {Variables : Type} {platform : Platform ℚ Variables}

/-- The insertion motor's position is the constant of the source. -/
theorem inferMotor_insertion {motor : MotorInference ℚ Variables} {joystick : Option (ℚ × ℚ)}
    {out : MotorOut ℚ} (infers : (inferMotor platform motor joystick).2 = some out) :
    out.insertion = kInsertionMotorPosition := by
  cases joystick with
  | none => cases infers
  | some values =>
    obtain ⟨x, y⟩ := values
    rw [inferMotor, motorInferenceCompute] at infers
    dsimp only at infers
    unfold filterOutput at infers
    split at infers
    · cases infers
    · cases infers
      rfl

/-- Every sample kept has been rendered. -/
def SamplesFit (process : Process ℚ Variables) : Prop :=
  ∀ sample ∈ process.samples, FitsBuffer sample.2

/-- The steps of a call fail only for a rendering that its local buffer refuses, or for want of a
closing brace: the stamping for one of its four renderings, the joystick values for one of theirs,
and the appended fields only for the brace. -/
structure RoomSuffices (platform : Platform ℚ Variables) (process : Process ℚ Variables)
    (frame : List UInt8) (receivedNtpTime forwardNtpTime : ℚ) (forwarded : Forwarded ℚ) :
    Prop where
  stamped : forwarded.stamped < 0 →
    ∃ times ∈ stampTimes platform.libc frame receivedNtpTime forwardNtpTime,
      ∃ value ∈ [forwardNtpTime, receivedNtpTime, times.2, times.1],
        (snprintf 32 (platform.libc.printf 6 value)).refused 32 = true
  corrected : ∀ record ∈ forwarded.published, record.withCorrection < 0 →
    ∀ stamped ∈ stampedFrame platform frame receivedNtpTime forwardNtpTime,
      closingBrace ∉ stamped
  reformatted : ∀ record ∈ forwarded.published, ∀ result ∈ record.reformatted, result < 0 →
    ∀ joystick ∈ forwarded.joystick,
      (snprintf 32 (platform.libc.printf 8 joystick.1)).refused 32 = true ∨
        (snprintf 32 (platform.libc.printf 8 joystick.2)).refused 32 = true
  withMotor : ∀ record ∈ forwarded.published, ∀ result ∈ record.withMotor, result < 0 →
    ∀ stamped ∈ stampedFrame platform frame receivedNtpTime forwardNtpTime,
      ∀ joystick ∈ forwarded.joystick,
        closingBrace ∉ reformatLeft platform.libc maxBridgedFrameLen joystick.1 joystick.2
          (correctText platform.libc maxBridgedFrameLen record.correctedTransferTime stamped)

/-- What a call leaves out: the frame only for a rendering that its local buffer refuses, and a
field of the payload only when its step has been tried and has returned a negative result. -/
structure OmitsOnRefusal (platform : Platform ℚ Variables) (process' : Process ℚ Variables)
    (frame : List UInt8) (receivedNtpTime forwardNtpTime : ℚ) (forwarded : Forwarded ℚ) :
    Prop where
  dropped : forwarded.published = none →
    ∃ times ∈ stampTimes platform.libc frame receivedNtpTime forwardNtpTime,
      ∃ value ∈ [forwardNtpTime, receivedNtpTime, times.2, times.1],
        (snprintf 32 (platform.libc.printf 6 value)).refused 32 = true
  tried : ∀ record ∈ forwarded.published,
    (record.reformatted = none ↔ forwarded.joystick = none) ∧
      (record.withMotor = none ↔ forwarded.motor = none)
  corrected : ∀ record ∈ forwarded.published, 0 ≤ record.withCorrection →
    ∀ stamped ∈ stampedFrame platform frame receivedNtpTime forwardNtpTime,
      appendFieldText platform.libc maxBridgedFrameLen correctedKey record.correctedTransferTime
          stamped =
        some (correctText platform.libc maxBridgedFrameLen record.correctedTransferTime stamped)
  reformatted : ∀ record ∈ forwarded.published, ∀ result ∈ record.reformatted, 0 ≤ result →
    ∀ stamped ∈ stampedFrame platform frame receivedNtpTime forwardNtpTime,
      ∀ joystick ∈ forwarded.joystick,
        let text :=
          correctText platform.libc maxBridgedFrameLen record.correctedTransferTime stamped
        reformatText platform.libc maxBridgedFrameLen joystick.1 joystick.2 text =
          some (reformatLeft platform.libc maxBridgedFrameLen joystick.1 joystick.2 text)
  withMotor : ∀ record ∈ forwarded.published, ∀ result ∈ record.withMotor, 0 ≤ result →
    ∀ stamped ∈ stampedFrame platform frame receivedNtpTime forwardNtpTime,
      ∀ joystick ∈ forwarded.joystick, ∀ out ∈ forwarded.motor,
        appendMotorText platform.libc maxBridgedFrameLen (out.tendon 0) (out.tendon 1)
            (out.tendon 2) out.insertion (reformatLeft platform.libc maxBridgedFrameLen
              joystick.1 joystick.2 (correctText platform.libc maxBridgedFrameLen
                record.correctedTransferTime stamped)) =
          some process'.server.published
  payload : ∀ record ∈ forwarded.published,
    ∀ stamped ∈ stampedFrame platform frame receivedNtpTime forwardNtpTime,
      process'.server.published = publishedText platform.libc maxBridgedFrameLen
        record.correctedTransferTime forwarded.joystick forwarded.motor stamped

/-- A step that returns no negative result has spliced its text. -/
theorem eq_some_of_intResult {result : Option (List UInt8)} (returns : 0 ≤ intResult result)
    (text : List UInt8) : result = some (result.getD text) := by
  cases result with
  | none => exact absurd returns (by decide)
  | some spliced => rfl

theorem reformatText_eq_some_of_intResult {libc : Libc ℚ} {capacity : Nat} {x y : ℚ}
    {text : List UInt8} (returns : 0 ≤ intResult (reformatText libc capacity x y text)) :
    reformatText libc capacity x y text = some (reformatLeft libc capacity x y text) := by
  have spliced := eq_some_of_intResult returns text
  rw [reformatLeft]
  rw [reformatText] at spliced ⊢
  cases first : replaceText libc capacity joystickXKey x text with
  | none =>
    rw [first] at spliced
    cases spliced
  | some first' =>
    rw [first, Option.bind_some] at spliced
    rw [Option.bind_some]
    dsimp only
    rw [spliced, Option.getD_some]

/-- Every call omits on refusal only, if its stamping does. -/
theorem omitsOnRefusal_of_run {process process' : Process ℚ Variables} {frame : List UInt8}
    {receivedNtpTime forwardNtpTime : ℚ} {forwarded : Forwarded ℚ}
    (run : bridgeServerForward platform process frame receivedNtpTime forwardNtpTime =
      .ok (process', forwarded))
    (refused : stampedFrame platform frame receivedNtpTime forwardNtpTime = none →
      ∃ times ∈ stampTimes platform.libc frame receivedNtpTime forwardNtpTime,
        ∃ value ∈ [forwardNtpTime, receivedNtpTime, times.2, times.1],
          (snprintf 32 (platform.libc.printf 6 value)).refused 32 = true) :
    OmitsOnRefusal platform process' frame receivedNtpTime forwardNtpTime forwarded := by
  obtain ⟨dropped, -, rfl⟩ | ⟨stamped, payload, n, stamp, rfl, rfl, holds⟩ :=
    bridgeServerForward_cases platform process frame _ _ run
  · refine ⟨fun _ => refused dropped, ?_, ?_, ?_, ?_, ?_⟩ <;>
      exact fun record member => absurd member (Option.not_mem_none record)
  · refine ⟨fun none => absurd none (Option.some_ne_none _), ?_, ?_, ?_, ?_, ?_⟩
    · rintro record ⟨⟩
      dsimp only
      rw [publishedRecord, spliceResults, frameInference]
      cases joystickValues platform.libc frame with
      | none => exact ⟨iff_of_true rfl rfl, iff_of_true rfl rfl⟩
      | some values =>
        exact ⟨iff_of_false (Option.some_ne_none _) (Option.some_ne_none _), Option.map_eq_none_iff⟩
    · rintro record ⟨⟩ returns stamped' stamp'
      cases stamp.symm.trans stamp'
      exact eq_some_of_intResult returns _
    · rintro record ⟨⟩ result returned returns stamped' stamp' joystick read
      cases stamp.symm.trans stamp'
      have values : joystickValues platform.libc frame = some joystick := read
      rw [publishedRecord, spliceResults, values] at returned
      cases returned
      exact reformatText_eq_some_of_intResult returns
    · rintro record ⟨⟩ result returned returns stamped' stamp' ⟨x, y⟩ read out infers
      cases stamp.symm.trans stamp'
      have values : joystickValues platform.libc frame = some (x, y) := read
      have motor : (frameInference platform process frame).2 = some out := infers
      rw [publishedRecord, spliceResults, values, motor] at returned
      cases returned
      have text := holds.reads
      rw [publishedFrame, publishedText, values, motor] at text
      exact (eq_some_of_intResult returns _).trans (congrArg some text.symm)
    · rintro record ⟨⟩ stamped' stamp'
      cases stamp.symm.trans stamp'
      exact holds.reads

variable (rendersExactly : ∀ places value,
  platform.libc.printf places value = some (Decimal.fixed places value))

include rendersExactly

/-- The transfer time of a frame that is published has been rendered, or is zero. -/
theorem frameTimes_fit {frame : List UInt8} {receivedNtpTime forwardNtpTime : ℚ}
    {stamped : List UInt8}
    (stamp : stampedFrame platform frame receivedNtpTime forwardNtpTime = some stamped) :
    FitsBuffer (frameTimes platform frame receivedNtpTime forwardNtpTime).1 := by
  rw [stampedFrame, stampText] at stamp
  rw [frameTimes, stampTimes]
  cases found : locateSentTime frame with
  | none => exact fitsBuffer_zero
  | some pair =>
    rw [found] at stamp
    simp only [Option.bind_eq_bind, Option.bind_eq_some_iff] at stamp
    obtain ⟨_, -, _, -, _, -, transfer, fits, -⟩ := stamp
    rw [rendersExactly, fitting_eq_some_iff, Option.some_inj] at fits
    obtain ⟨rfl, short⟩ := fits
    exact Nat.le_of_lt_succ short

theorem samplesFit_forward {process process' : Process ℚ Variables} {frame : List UInt8}
    {receivedNtpTime forwardNtpTime : ℚ} {forwarded : Forwarded ℚ}
    (samplesFit : SamplesFit process)
    (run : bridgeServerForward platform process frame receivedNtpTime forwardNtpTime =
      .ok (process', forwarded)) : SamplesFit process' := by
  obtain ⟨-, rfl, -⟩ | ⟨stamped, payload, n, stamp, rfl, -, -⟩ :=
    bridgeServerForward_cases platform process frame _ _ run
  · exact samplesFit
  · exact (corrected_length_le _ samplesFit (frameTimes_fit rendersExactly stamp)).1

/-- A call whose samples have all been rendered never lacks room. -/
theorem roomSuffices_of_samplesFit {process process' : Process ℚ Variables} {frame : List UInt8}
    {receivedNtpTime forwardNtpTime : ℚ} {forwarded : Forwarded ℚ}
    (samplesFit : SamplesFit process) (short : frame.length ≤ maxControllerFrameLen)
    (run : bridgeServerForward platform process frame receivedNtpTime forwardNtpTime =
      .ok (process', forwarded))
    (range : ∀ out ∈ forwarded.motor, ∀ k, 0 ≤ out.tendon k ∧ out.tendon k ≤ 255 * kOutputScale) :
    RoomSuffices platform process frame receivedNtpTime forwardNtpTime forwarded := by
  have raw : frame.length ≤ 512 := short
  have room : frame.length + 255 ≤ maxBridgedFrameLen := by
    rw [maxBridgedFrameLen]
    omega
  obtain ⟨refusedStamp, lengthStamp⟩ :=
    stampText_room platform.libc receivedNtpTime forwardNtpTime room
  obtain ⟨dropped, -, rfl⟩ | ⟨stamped, payload, n, stamp, -, rfl, -⟩ :=
    bridgeServerForward_cases platform process frame _ _ run
  · refine ⟨fun _ => refusedStamp dropped, ?_, ?_, ?_⟩ <;>
      exact fun record member => absurd member (Option.not_mem_none record)
  · have size := lengthStamp stamped stamp
    have capacity : maxBridgedFrameLen = 1024 := rfl
    obtain ⟨-, lengthCorrected⟩ := corrected_length_le receivedNtpTime samplesFit
      (frameTimes_fit rendersExactly stamp)
    obtain ⟨refusedField, lengthField⟩ := appendFieldText_room rendersExactly lengthCorrected
      (show stamped.length + 65 ≤ maxBridgedFrameLen by omega)
    have roomReformat : (correctText platform.libc maxBridgedFrameLen
        (frameCorrection platform process frame receivedNtpTime forwardNtpTime).2 stamped).length +
          62 ≤ maxBridgedFrameLen := by
      rw [frameCorrection]
      omega
    have reformat := fun x y => reformatText_room platform.libc x y roomReformat
    refine ⟨?_, ?_, ?_, ?_⟩
    · intro negative
      dsimp only at negative
      omega
    · intro record member negative stamped' stamp'
      cases member
      cases stamp.symm.trans stamp'
      refine refusedField ((intResult_neg_iff maxBridgedFrameLen_le ?_).mp negative)
      exact fun result appended => appendFieldText_length_le platform.libc appended
    · intro record member result returned negative joystick read
      cases member
      obtain ⟨x, y⟩ := joystick
      have values : joystickValues platform.libc frame = some (x, y) := read
      rw [publishedRecord, spliceResults, values] at returned
      cases returned
      refine (reformat x y).1 ((intResult_neg_iff maxBridgedFrameLen_le ?_).mp negative)
      exact fun result reformatted => reformatText_length_le platform.libc (by omega) reformatted
    · intro record member result returned negative stamped' stamp' joystick read
      cases member
      cases stamp.symm.trans stamp'
      obtain ⟨x, y⟩ := joystick
      have values : joystickValues platform.libc frame = some (x, y) := read
      rw [publishedRecord, spliceResults, values] at returned
      obtain ⟨out, infers, rfl⟩ := Option.map_eq_some_iff.mp returned
      have insertion := inferMotor_insertion infers
      have tendons : ∀ value ∈ [out.tendon 0, out.tendon 1, out.tendon 2],
          0 ≤ value ∧ value ≤ 255 * kOutputScale := by
        simpa using ⟨range out infers 0, range out infers 1, range out infers 2⟩
      have lengthLeft := (reformat x y).2
      have roomMotor : (reformatLeft platform.libc maxBridgedFrameLen x y
          (correctText platform.libc maxBridgedFrameLen
            (frameCorrection platform process frame receivedNtpTime forwardNtpTime).2
            stamped)).length + 105 ≤ maxBridgedFrameLen := by
        rw [frameCorrection] at *
        omega
      obtain ⟨refusedMotor, -⟩ := appendMotorText_room rendersExactly tendons roomMotor
      rw [insertion] at negative
      refine refusedMotor ((intResult_neg_iff maxBridgedFrameLen_le ?_).mp negative)
      exact fun result appended => appendMotorText_length_le platform.libc appended

/-- In every reachable state the payload is within its buffer, and whatever frame within the limit
comes next, with whatever clock values, no step of the call fails for lack of room: no frame is
dropped for it, and no field left out. -/
theorem payload_suffices {history : List (Event ℚ × Observation ℚ)} {system : System ℚ Variables}
    (runs : Runs platform history system) :
    system.process.server.payloadLen ≤ maxBridgedFrameLen ∧
      ∀ frame receivedNtpTime forwardNtpTime process' forwarded,
        frame.length ≤ maxControllerFrameLen →
        bridgeServerForward platform system.process frame receivedNtpTime forwardNtpTime =
          .ok (process', forwarded) →
        (∀ out ∈ forwarded.motor, ∀ k, 0 ≤ out.tendon k ∧ out.tendon k ≤ 255 * kOutputScale) →
        RoomSuffices platform system.process frame receivedNtpTime forwardNtpTime forwarded ∧
          OmitsOnRefusal platform process' frame receivedNtpTime forwardNtpTime forwarded := by
  have invariant : system.process.server.payloadLen ≤ maxBridgedFrameLen ∧
      SamplesFit system.process := by
    refine runs.process_invariant (fun process =>
      process.server.payloadLen ≤ maxBridgedFrameLen ∧ SamplesFit process) ?_ ?_ ?_ ?_
    · intro start started
      obtain ⟨payload, server⟩ := started.server
      refine ⟨?_, ?_⟩
      · rw [server]
        exact Nat.zero_le _
      · rw [SamplesFit, started.samples]
        exact nofun
    · exact fun process holds => ⟨holds.1, nofun⟩
    · exact fun process holds => holds
    · intro process frame receivedNtpTime forwardNtpTime process' forwarded _ holds run
      refine ⟨?_, samplesFit_forward rendersExactly holds.2 run⟩
      obtain ⟨-, rfl, -⟩ | ⟨_, _, _, -, rfl, -, published⟩ :=
        bridgeServerForward_cases platform process frame _ _ run
      · exact holds.1
      · exact published.fits
  refine ⟨invariant.1, ?_⟩
  intro frame receivedNtpTime forwardNtpTime process' forwarded short run range
  have room : frame.length + 255 ≤ maxBridgedFrameLen :=
    (Nat.add_le_add_right short 255).trans (by decide)
  exact ⟨roomSuffices_of_samplesFit rendersExactly invariant.2 short run range,
    omitsOnRefusal_of_run run (stampText_room platform.libc receivedNtpTime forwardNtpTime room).1⟩

end

/-! ### The motor positions of a run -/

section

variable {Variables : Type} {platform : Platform ℚ Variables}

/-- The inference of a running process has only seen resets and calls since its start. -/
theorem Runs.motorRun {history : List (Event ℚ × Observation ℚ)} {system : System ℚ Variables}
    (runs : Runs platform history system) :
    ∃ useNpu tensors start calls,
      motorInferenceInit platform.tflite platform.libm useNpu tensors = some start ∧
      Machine.Run (MotorStep platform.tflite platform.libm) start calls system.process.motor := by
  refine runs.process_invariant (fun process => ∃ useNpu tensors start calls,
    motorInferenceInit platform.tflite platform.libm useNpu tensors = some start ∧
    Machine.Run (MotorStep platform.tflite platform.libm) start calls process.motor) ?_ ?_ ?_ ?_
  · intro start started
    obtain ⟨useNpu, tensors, initialised⟩ := started.motor
    exact ⟨useNpu, tensors, _, [], initialised, .start⟩
  · rintro process ⟨useNpu, tensors, start, calls, initialised, run⟩
    have taken : MotorStep platform.tflite platform.libm process.motor .reset
      (motorInferenceReset platform.tflite process.motor) _ := rfl
    exact ⟨useNpu, tensors, start, _, initialised, run.step taken⟩
  · exact fun process holds => holds
  · rintro process frame receivedNtpTime forwardNtpTime process' forwarded -
      ⟨useNpu, tensors, start, calls, initialised, run⟩ forward
    rw [bridgeServerForward_motor platform process frame _ _ forward, frameInference]
    cases joystickValues platform.libc frame with
    | none => exact ⟨useNpu, tensors, start, calls, initialised, run⟩
    | some values =>
      obtain ⟨x, y⟩ := values
      have taken : MotorStep platform.tflite platform.libm process.motor (.compute x y)
        (inferMotor platform process.motor (some (x, y))).1 _ := rfl
      exact ⟨useNpu, tensors, start, _, initialised, run.step taken⟩

/-- With proper coefficients the positions of every call are in the range. -/
theorem Runs.tendon_mem {history : List (Event ℚ × Observation ℚ)} {system : System ℚ Variables}
    (runs : Runs platform history system)
    (proper : ∀ alpha ∈ lpfCoefficients platform.libm, 0 < alpha ∧ alpha ≤ 1)
    {frame : List UInt8} {receivedNtpTime forwardNtpTime : ℚ} {process' : Process ℚ Variables}
    {forwarded : Forwarded ℚ}
    (call : bridgeServerForward platform system.process frame receivedNtpTime forwardNtpTime =
      .ok (process', forwarded)) :
    ∀ out ∈ forwarded.motor, ∀ k, 0 ≤ out.tendon k ∧ out.tendon k ≤ 255 * kOutputScale := by
  obtain ⟨useNpu, tensors, start, calls, initialised, run⟩ := runs.motorRun
  have motor := (bridgeServerForward_reports platform system.process frame _ _ call).2
  intro out infers k
  rw [motor, frameInference] at infers
  cases read : joystickValues platform.libc frame with
  | none =>
    rw [read] at infers
    cases infers
  | some values =>
    obtain ⟨x, y⟩ := values
    rw [read] at infers
    have taken : MotorStep platform.tflite platform.libm system.process.motor (.compute x y) _
      ⟨_, (inferMotor platform system.process.motor (some (x, y))).2⟩ := rfl
    exact (filtered_of_run (.initial initialised) run).tendon_mem_Icc proper taken infers k

end

/-- A frame with a sent time and a joystick position leaves room in every step. -/
theorem exampleFrame_payload_suffices : ∃ frame process' forwarded,
    bridgeServerForward examplePlatform exampleProcess frame 1 2 = .ok (process', forwarded) ∧
      frame = ascii "\x7b\"ntp_time\":0.5,\"joystick_x\":0,\"joystick_y\":0\x7d" ∧
      RoomSuffices examplePlatform exampleProcess frame 1 2 forwarded ∧
      OmitsOnRefusal examplePlatform process' frame 1 2 forwarded := by
  obtain ⟨process', forwarded, call⟩ := bridgeServerForward_ok examplePlatform exampleProcess
    (ascii "\x7b\"ntp_time\":0.5,\"joystick_x\":0,\"joystick_y\":0\x7d") 1 2
  have range := exampleSystem_runs.tendon_mem exampleLibm_proper call
  have room := (payload_suffices (fun _ _ => rfl) exampleSystem_runs).2
  exact ⟨_, process', forwarded, call, rfl, room _ _ _ _ _ (by decide) call range⟩

end ControllerBridge
