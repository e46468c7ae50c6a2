/-
This file settles what stamping makes of an object text whose sent-time key may
have any value and any whitespace behind it.

`bridge_extract_sent_time` takes an empty span for an absent sent time, and
`bridge_stamp_frame` does not. So the two agree, and a stamped frame is an
object text, exactly when the span behind the key that is found is not empty.
Where it is empty the new fields begin right behind the renamed key, and what
is written is no object text at all.
-/

import ControllerBridge.JsonPayload
import ControllerBridge.Library.JsonMembers

namespace ControllerBridge

open Region Search

section

variable {Double : Type} (libc : Libc Double) {capacity : Nat}

/-! ### Frames without a sent time -/

/-- What stamping leaves of a frame that is passed through: the frame itself, if there is room, and
no times. -/
def passed (frame : List UInt8) (out : Buffer capacity) : Stamped Double capacity :=
  if frame.length ≤ capacity then ⟨toInt frame.length, out.put frame, none⟩ else ⟨-1, out, none⟩

theorem passed_timing (frame : List UInt8) (out : Buffer capacity) :
    (passed frame out : Stamped Double capacity).timing = none := by
  unfold passed
  split <;> rfl

/-- The sent time is not read exactly when no key is found, or nothing numeric behind it. -/
theorem bridgeExtractSentTime_eq_none_iff {frame : List UInt8} :
    bridgeExtractSentTime libc frame = .ok none ↔
      ∀ key located, locateSentTime frame = some (key, located) → located.span = [] := by
  rw [bridgeExtractSentTime_eq, Except.ok.injEq]
  cases found : locateSentTime frame with
  | none =>
    refine iff_of_true rfl fun _ _ impossible => ?_
    cases impossible
  | some pair =>
    obtain ⟨key, located⟩ := pair
    rw [Option.bind_some]
    constructor
    · rintro unread _ _ ⟨⟩
      by_contra nonempty
      rw [if_neg nonempty] at unread
      cases unread
    · intro empty
      rw [if_pos (empty key located rfl)]

variable [Sub Double]

/-- A frame without a sent-time key is passed through. -/
theorem bridgeStampFrame_of_none {frame : List UInt8} (absent : locateSentTime frame = none)
    (received forward : Double) (out : Buffer capacity) :
    bridgeStampFrame libc frame received forward out = .ok (passed frame out) := by
  rw [bridgeStampFrame_eq, stampText, stampTimes, absent, passed]
  dsimp only
  unfold within
  by_cases fits : frame.length ≤ capacity
  · rw [if_pos fits, if_pos fits]
    rfl
  · rw [if_neg fits, if_neg fits]
    rfl

/-- A sent-time key writes the times, whatever is behind it. -/
theorem stampTimes_ne_none {frame key : List UInt8} {located : Located}
    (found : locateSentTime frame = some (key, located)) (received forward : Double) :
    stampTimes libc frame received forward ≠ none := by
  rw [stampTimes, found]
  exact Option.some_ne_none _

/-! ### Frames with one -/

/-- A stamped frame is an object text, where the span behind its sent-time key is not empty. -/
theorem objectText_stampText {frame stamped : List UInt8} {received forward : Double}
    (numeric : ∀ key located, locateSentTime frame = some (key, located) → located.span ≠ [])
    (numerals : ∀ value ∈ stampNumbers libc frame received forward,
      Renders libc Json.Numeral 6 value)
    (object : Json.ObjectText frame)
    (stamp : stampText libc capacity frame received forward = some stamped) :
    Json.ObjectText stamped := by
  cases found : locateSentTime frame with
  | none =>
    rw [stampText, found] at stamp
    rwa [(within_eq_some_iff.mp stamp).1]
  | some pair =>
    obtain ⟨key, located⟩ := pair
    have quote : (0x22 : UInt8) ∈ frame := by
      obtain ⟨letters, -, -, rfl⟩ := key_of_locateSentTime found
      rw [(reads_of_locateSentTime found).text_eq]
      simp
    exact (membersText_of_span found (numeric key located found) numerals
      (object.membersText quote) stamp).objectText

/-- Behind a sent-time key without a number the fields begin with a comma. -/
theorem not_objectText_stampText {frame stamped key : List UInt8} {located : Located}
    {received forward : Double} (found : locateSentTime frame = some (key, located))
    (empty : located.span = []) (object : Json.ObjectText frame)
    (stamp : stampText libc capacity frame received forward = some stamped) :
    ¬ Json.ObjectText stamped := by
  obtain ⟨forwardText, receivedText, processingText, transferText, -, -, -, -, rfl⟩ :=
    stampText_eq_some found stamp
  rw [(reads_of_locateSentTime found).text_eq] at object
  simp only [List.append_assoc] at object
  have comma : newNtpKey = 0x2C :: ascii "\"ntp_time\":" := by decide
  rw [stampedText, empty, List.append_nil, comma]
  simp only [List.append_assoc, List.cons_append]
  exact object.not_comma_after (key_of_locateSentTime found) (key_of_watched sentKey (by decide)) _

/-! ### A call -/

/-- What a caller relies on: a result that is not negative is the length of an object text, and a
frame whose sent time is not read is passed through. -/
def StampsObject (frame : List UInt8) (received forward : Double) (out : Buffer capacity) : Prop :=
  ∃ stamped, bridgeStampFrame libc frame received forward out = .ok stamped ∧
    (0 ≤ stamped.returned → Json.ObjectText (stamped.out.text stamped.returned.toNat)) ∧
    (bridgeExtractSentTime libc frame = .ok none → stamped = passed frame out)

/-- A sent-time key without a number is not passed through. -/
theorem not_stampsObject {frame key : List UInt8} {located : Located}
    (found : locateSentTime frame = some (key, located)) (empty : located.span = [])
    (received forward : Double) (out : Buffer capacity) :
    ¬ StampsObject libc frame received forward out := by
  rintro ⟨stamped, call, -, passes⟩
  have unread : bridgeExtractSentTime libc frame = .ok none := by
    rw [bridgeExtractSentTime_eq_none_iff, found]
    rintro _ _ ⟨⟩
    exact empty
  rw [bridgeStampFrame_eq, Except.ok.injEq] at call
  have timing := congrArg Stamped.timing (call.trans (passes unread))
  rw [passed_timing] at timing
  exact stampTimes_ne_none libc found received forward timing

/-- On an object text, with times that are rendered as numerals, the stamped frame is an object
text and an unread sent time passed through exactly when a sent-time key that is found, the first
`"ntp_time":` or else the first `"timestamp":`, has a numeric span behind it. -/
theorem stampsObject_iff (small : capacity ≤ intMax) {frame : List UInt8}
    {received forward : Double} (object : Json.ObjectText frame)
    (numerals : ∀ value ∈ stampNumbers libc frame received forward,
      Renders libc Json.Numeral 6 value) (out : Buffer capacity) :
    StampsObject libc frame received forward out ↔
      ∀ key located, locateSentTime frame = some (key, located) → located.span ≠ [] := by
  constructor
  · intro stamps key located found empty
    exact not_stampsObject libc found empty received forward out stamps
  · intro numeric
    refine ⟨_, bridgeStampFrame_eq libc frame received forward out, fun written => ?_,
      fun unread => ?_⟩
    · cases stamp : stampText libc capacity frame received forward with
      | none =>
        rw [stamp] at written
        exact absurd (show (0 : Int) ≤ -1 from written) (by decide)
      | some stamped =>
        have fits := stampText_length_le libc stamp
        rw [intResult, toInt_of_le (fits.trans small), Int.toNat_natCast, putResult,
          out.text_put fits]
        exact objectText_stampText libc numeric numerals object stamp
    · have absent : locateSentTime frame = none := by
        by_contra found
        obtain ⟨⟨key, located⟩, found⟩ := Option.ne_none_iff_exists'.mp found
        exact numeric key located found
          ((bridgeExtractSentTime_eq_none_iff libc).mp unread key located found)
      have passes := bridgeStampFrame_of_none libc absent received forward out
      rw [bridgeStampFrame_eq, Except.ok.injEq] at passes
      exact passes

end

/-- Objects whose sent time is a number in a nested object, and the null value. -/
def timedObject : List UInt8 := ascii "\x7b\"log\":[\x7b\"timestamp\": -0.5e1\x7d]\x7d"

def nullObject : List UInt8 := ascii "\x7b\"ntp_time\":null\x7d"

theorem exactLibc_numerals {places : Nat} (positive : 0 < places) (value : ℚ) :
    Renders exactLibc Json.Numeral places value := by
  rintro rendering ⟨⟩
  exact Json.numeral_fixed positive value

theorem timedObject_stampsObject_iff :
    StampsObject exactLibc timedObject 1 2 (Buffer.zeroed 400) ↔
      ∀ key located, locateSentTime timedObject = some (key, located) → located.span ≠ [] :=
  stampsObject_iff exactLibc (by decide)
    (Json.membersText_of_run (by decide +kernel) (by decide +kernel) (by decide +kernel)).objectText
    (fun value _ => exactLibc_numerals (by decide) value) _

/-- The null value is behind a comma, and the times are written. -/
theorem nullObject_not_stampsObject :
    Json.ObjectText nullObject ∧ ¬ StampsObject exactLibc nullObject 1 2 (Buffer.zeroed 400) := by
  refine ⟨(Json.membersText_of_run (by decide +kernel) (by decide +kernel)
    (by decide +kernel)).objectText, ?_⟩
  have spans : (locateSentTime nullObject).map (·.2.span) = some [] := by decide +kernel
  obtain ⟨⟨key, located⟩, found, empty⟩ := Option.map_eq_some_iff.mp spans
  exact not_stampsObject exactLibc found empty 1 2 _

end ControllerBridge
