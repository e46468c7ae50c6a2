/-
This file settles which number is read behind a key, in exact arithmetic.

The span taken after a key is the longest run of bytes a number may have, so it
is the literal there and possibly more. `strtod` reads the longest literal at the
start of what it is handed, and more bytes than the literal's do not change
that as long as the literal does not go on with them. But it is handed at most
63 bytes: of a longer literal it reads a beginning.
-/

import ControllerBridge.JsonPayload
import ControllerBridge.Exact
import ControllerBridge.Library.JsonMembers

namespace ControllerBridge

open Region Search Decimal

/-! ### A number behind a key -/

/-- `strtod` in exact arithmetic: the value of the longest literal at the start of a text. -/
def ReadsExactly (libc : Libc ℚ) : Prop :=
  ∀ text literal, LongestLiteral text literal → libc.strtod text = literal.value

theorem exactLibc_readsExactly : ReadsExactly exactLibc := fun _ _ longest => longest.parse_eq

/-- The first `key` of a frame is followed by blanks, by `number`, and then by the end or by a
byte no literal goes on with. -/
def HasNumber (key frame number : List UInt8) : Prop :=
  ∃ before blanks after, FirstAt key frame before (blanks ++ (number ++ after)) ∧
    (∀ byte ∈ blanks, isBlank byte = true) ∧ ∀ byte ∈ after.head?, ¬ Continues number byte

/-- The key searched for the sent time is `"ntp_time":`, and `"timestamp":` in a frame without
it. -/
def HasSentTime (frame number : List UInt8) : Prop :=
  HasNumber ntpKey frame number ∨ (¬ ntpKey <:+: frame ∧ HasNumber timestampKey frame number)

/-- The value of a number of JSON. -/
def Denotes (number : List UInt8) (value : ℚ) : Prop :=
  ∃ literal : Literal, literal.IsJson ∧ literal.text = number ∧ literal.value = value

/-- The value of the longest literal in the first 63 bytes of a number. -/
def ReadAs (number : List UInt8) (value : ℚ) : Prop :=
  ∃ kept : Literal, LongestLiteral (number.take 63) kept ∧ kept.value = value

theorem exists_readAs {number : List UInt8} (json : Json.Number number) :
    ∃ value, ReadAs number value := by
  obtain ⟨literal, isJson, rfl⟩ := number_iff.mp json
  obtain ⟨short, begins, length⟩ := isJson.exists_short
  have kept : short.text <+: literal.text.take 63 :=
    List.prefix_take_iff.mpr ⟨begins, length.trans (by decide)⟩
  obtain ⟨longest, isLongest⟩ := exists_longestLiteral kept
  exact ⟨longest.value, longest, isLongest, rfl⟩

/-- A number of at most 63 bytes is read as what it denotes. -/
theorem ReadAs.denotes {number : List UInt8} {value : ℚ} (reads : ReadAs number value)
    (json : Json.Number number) (short : number.length ≤ 63) : Denotes number value := by
  obtain ⟨kept, longest, rfl⟩ := reads
  obtain ⟨literal, isJson, rfl⟩ := number_iff.mp json
  rw [List.take_of_length_le short] at longest
  have whole : LongestLiteral literal.text literal :=
    ⟨List.prefix_refl _, fun _ begins => begins.length_le⟩
  exact ⟨literal, isJson, rfl, whole.parse_eq.symm.trans longest.parse_eq⟩

/-- The span after the key is the number, and possibly more that it does not go on with. -/
theorem HasNumber.reads {key frame number : List UInt8} (has : HasNumber key frame number)
    (json : Json.Number number) :
    ∃ located more, Reads key frame located ∧ located.span = number ++ more ∧
      ∀ byte ∈ more.head?, ¬ Continues number byte := by
  obtain ⟨before, blanks, after, first, blank, ends⟩ := has
  have numeric : ∀ byte ∈ number, isNumeric byte = true := fun byte member => by
    rw [isNumeric_eq_isNumberByte]
    exact json.isNumberByte byte member
  refine ⟨⟨before, blanks, number ++ after.takeWhile isNumeric, after.dropWhile isNumeric⟩,
    after.takeWhile isNumeric, ⟨?_, blank, ?_, ?_, stops_dropWhile _ _⟩, rfl, ?_⟩
  · rwa [List.append_assoc, List.takeWhile_append_dropWhile]
  · exact List.forall_mem_append.mpr ⟨numeric, fun byte member => List.mem_takeWhile_imp member⟩
  · obtain ⟨head, tail, rfl⟩ := List.exists_cons_of_ne_nil (ne_nil_of_number json)
    rintro _ ⟨⟩
    exact isBlank_of_isNumeric (numeric head List.mem_cons_self)
  · cases after with
    | nil => exact nofun
    | cons byte rest =>
      by_cases inside : isNumeric byte = true
      · rw [List.takeWhile_cons_of_pos inside]
        exact ends
      · rw [List.takeWhile_cons_of_neg inside]
        exact nofun

/-! ### The source functions -/

section

variable {libc : Libc ℚ} (exact : ReadsExactly libc) {number : List UInt8}
  (json : Json.Number number) {value : ℚ} (readAs : ReadAs number value)

include exact json readAs

/-- The number read of a span that begins with a number does not depend on the rest. -/
theorem readSpan_of_number {more : List UInt8}
    (ends : ∀ byte ∈ more.head?, ¬ Continues number byte) :
    readSpan libc (number ++ more) = value := by
  obtain ⟨literal, -, rfl⟩ := number_iff.mp json
  obtain ⟨kept, longest, rfl⟩ := readAs
  exact exact _ _ (longest.take_append ends)

theorem HasNumber.fieldValue_eq {key frame : List UInt8} (nonempty : key ≠ [])
    (has : HasNumber key frame number) : fieldValue libc key frame = some value := by
  obtain ⟨located, more, reads, span, ends⟩ := has.reads json
  have filled : located.span ≠ [] := by
    rw [span]
    exact List.append_ne_nil_of_left_ne_nil (ne_nil_of_number json) _
  rw [fieldValue, (locate_eq_some_iff nonempty).mpr reads, Option.bind_some, if_neg filled, span,
    readSpan_of_number exact json readAs ends]

/-- The number read as the sent time, by the extraction and by the stamping. -/
theorem HasSentTime.located {frame : List UInt8} (has : HasSentTime frame number) :
    ∃ key located, locateSentTime frame = some (key, located) ∧ located.span ≠ [] ∧
      readSpan libc located.span = value := by
  have read {key : List UInt8} (here : HasNumber key frame number) :
      ∃ located, Reads key frame located ∧ located.span ≠ [] ∧
        readSpan libc located.span = value := by
    obtain ⟨located, more, reads, span, ends⟩ := here.reads json
    refine ⟨located, reads, ?_, ?_⟩
    · rw [span]
      exact List.append_ne_nil_of_left_ne_nil (ne_nil_of_number json) _
    · rw [span, readSpan_of_number exact json readAs ends]
  rcases has with here | ⟨absent, here⟩
  · obtain ⟨located, reads, filled, same⟩ := read here
    refine ⟨ntpKey, located, ?_, filled, same⟩
    rw [locateSentTime, (locate_eq_some_iff ntpKey_ne_nil).mpr reads]
  · obtain ⟨located, reads, filled, same⟩ := read here
    refine ⟨timestampKey, located, ?_, filled, same⟩
    rw [locateSentTime, (locate_eq_none_iff ntpKey_ne_nil).mpr absent,
      (locate_eq_some_iff timestampKey_ne_nil).mpr reads]
    rfl

theorem HasSentTime.bridgeExtractSentTime_eq {frame : List UInt8}
    (has : HasSentTime frame number) : bridgeExtractSentTime libc frame = .ok (some value) := by
  obtain ⟨key, located, found, filled, same⟩ := has.located exact json readAs
  rw [ControllerBridge.bridgeExtractSentTime_eq, found, Option.bind_some, if_neg filled, same]

theorem HasSentTime.stampTimes_eq {frame : List UInt8} (has : HasSentTime frame number)
    (receivedNtpTime forwardNtpTime : ℚ) :
    stampTimes libc frame receivedNtpTime forwardNtpTime =
      some (receivedNtpTime - value, forwardNtpTime - receivedNtpTime) := by
  obtain ⟨key, located, found, -, same⟩ := has.located exact json readAs
  rw [stampTimes, found, Option.map_some, same]

end

/-! ### The number taken -/

/-- What the functions take for a number behind a key: the sent time is extracted and stamped
with it, and it is the joystick value of its key whenever both have one. -/
structure TakesNumber (libc : Libc ℚ) (number : List UInt8) (value : ℚ) : Prop where
  sentTime : ∀ frame, HasSentTime frame number →
    bridgeExtractSentTime libc frame = .ok (some value)
  stamp : ∀ frame, HasSentTime frame number → ∀ capacity (out : Buffer capacity)
    (receivedNtpTime forwardNtpTime : ℚ), ∃ stamped,
      bridgeStampFrame libc frame receivedNtpTime forwardNtpTime out = .ok stamped ∧
      stamped.timing = some (receivedNtpTime - value, forwardNtpTime - receivedNtpTime)
  joystickX : ∀ frame, HasNumber joystickXKey frame number →
    ∃ joystickY : Option ℚ,
      bridgeExtractJoystick libc frame = .ok (joystickY.map fun y => (value, y))
  joystickY : ∀ frame, HasNumber joystickYKey frame number →
    ∃ joystickX : Option ℚ,
      bridgeExtractJoystick libc frame = .ok (joystickX.map fun x => (x, value))
  joystick : ∀ frame numberY valueY, Json.Number numberY → ReadAs numberY valueY →
    HasNumber joystickXKey frame number → HasNumber joystickYKey frame numberY →
      bridgeExtractJoystick libc frame = .ok (some (value, valueY))

theorem takesNumber {libc : Libc ℚ} (exact : ReadsExactly libc) {number : List UInt8}
    (json : Json.Number number) {value : ℚ} (readAs : ReadAs number value) :
    TakesNumber libc number value where
  sentTime := fun _ has => has.bridgeExtractSentTime_eq exact json readAs
  stamp := by
    intro frame has capacity out receivedNtpTime forwardNtpTime
    refine ⟨_, bridgeStampFrame_eq libc frame receivedNtpTime forwardNtpTime out, ?_⟩
    exact has.stampTimes_eq exact json readAs receivedNtpTime forwardNtpTime
  joystickX := by
    intro frame has
    refine ⟨fieldValue libc joystickYKey frame, ?_⟩
    rw [bridgeExtractJoystick_eq, joystickValues,
      has.fieldValue_eq exact json readAs joystickXKey_ne_nil, Option.bind_some]
  joystickY := by
    intro frame has
    refine ⟨fieldValue libc joystickXKey frame, ?_⟩
    rw [bridgeExtractJoystick_eq, joystickValues,
      has.fieldValue_eq exact json readAs joystickYKey_ne_nil]
    cases fieldValue libc joystickXKey frame <;> rfl
  joystick := by
    intro frame numberY valueY jsonY readAsY has hasY
    rw [bridgeExtractJoystick_eq, joystickValues,
      has.fieldValue_eq exact json readAs joystickXKey_ne_nil,
      hasY.fieldValue_eq exact jsonY readAsY joystickYKey_ne_nil]
    rfl

/-- A number of JSON behind a key is taken for the value of the longest literal in its first 63
bytes, whatever else the frame holds; a number of at most 63 bytes for the value it denotes. -/
theorem extraction_takes_number {libc : Libc ℚ} (exact : ReadsExactly libc)
    {number : List UInt8} (json : Json.Number number) :
    ∃ value, ReadAs number value ∧ (number.length ≤ 63 → Denotes number value) ∧
      TakesNumber libc number value := by
  obtain ⟨value, readAs⟩ := exists_readAs json
  exact ⟨value, readAs, readAs.denotes json, takesNumber exact json readAs⟩

/-! ### A short and a long number -/

/-- A frame with one number at every key. -/
def threefoldFrame (number : List UInt8) : List UInt8 :=
  ascii "\x7b\"ntp_time\": " ++ number ++ ascii ",\"joystick_x\":" ++ number ++
    ascii ",\"joystick_y\":" ++ number ++ ascii "\x7d"

def signedLiteral : Literal where
  sign := .minus
  whole := ascii "1"
  places := some (ascii "50")
  power := some ⟨0x45, .plus, ascii "2", by decide, by decide +kernel, by decide +kernel⟩
  wholeDigits := by decide +kernel
  placesDigits := by decide +kernel
  nonempty := by decide +kernel

/-- A literal whose power lies beyond the first 63 bytes. -/
def longLiteral : Literal where
  sign := .none
  whole := 0x31 :: List.replicate 60 0x30
  places := none
  power := some ⟨0x65, .minus, ascii "60", by decide, by decide +kernel, by decide +kernel⟩
  wholeDigits := by decide +kernel
  placesDigits := by decide +kernel
  nonempty := by decide +kernel

theorem signedLiteral_isJson : signedLiteral.IsJson :=
  ⟨by decide +kernel, Or.inr ⟨0x31, [], by decide +kernel⟩, by decide +kernel⟩

theorem longLiteral_isJson : longLiteral.IsJson :=
  ⟨by decide +kernel, Or.inr ⟨0x31, List.replicate 60 0x30, by decide +kernel⟩, by decide +kernel⟩

/-- A check for a number behind a key, ended by a byte that no number has. -/
def numberBehind (key frame number : List UInt8) : Bool :=
  (cutFirst key frame).any fun pieces =>
    number.isPrefixOf (pieces.2.dropWhile isBlank) &&
      ((pieces.2.dropWhile isBlank).drop number.length).head?.all fun byte =>
        !Json.isNumberByte byte

theorem hasNumber_of_numberBehind {key frame number : List UInt8} (nonempty : key ≠ [])
    (behind : numberBehind key frame number = true) : HasNumber key frame number := by
  rw [numberBehind, Option.any_eq_true] at behind
  obtain ⟨⟨before, rest⟩, cut, check⟩ := behind
  rw [Bool.and_eq_true, List.isPrefixOf_iff_prefix] at check
  obtain ⟨⟨after, split⟩, ends⟩ := check
  rw [← split, List.drop_left] at ends
  refine ⟨before, rest.takeWhile isBlank, after, ?_, fun _ member => List.mem_takeWhile_imp member,
    ?_⟩
  · rw [split, List.takeWhile_append_dropWhile]
    exact (cutFirst_eq_some_iff nonempty).mp cut
  · intro byte head continues
    rw [Option.mem_def.mp head, Option.all_some, continues.isNumberByte] at ends
    cases ends

theorem signedLiteral_taken :
    ∃ value, Denotes signedLiteral.text value ∧
      bridgeExtractSentTime exactLibc (threefoldFrame signedLiteral.text) = .ok (some value) ∧
      bridgeExtractJoystick exactLibc (threefoldFrame signedLiteral.text) =
        .ok (some (value, value)) := by
  have json : Json.Number signedLiteral.text :=
    number_iff.mpr ⟨signedLiteral, signedLiteral_isJson, rfl⟩
  have sentTime : HasSentTime (threefoldFrame signedLiteral.text) signedLiteral.text :=
    Or.inl (hasNumber_of_numberBehind ntpKey_ne_nil (by decide +kernel))
  obtain ⟨value, readAs, denotes, takes⟩ := extraction_takes_number exactLibc_readsExactly json
  refine ⟨value, denotes (by decide +kernel), takes.sentTime _ sentTime, ?_⟩
  exact takes.joystick _ _ _ json readAs
    (hasNumber_of_numberBehind joystickXKey_ne_nil (by decide +kernel))
    (hasNumber_of_numberBehind joystickYKey_ne_nil (by decide +kernel))

/-- The number `1`, written with a power beyond the first 63 bytes, is read without it. -/
theorem longLiteral_not_taken :
    Json.Number longLiteral.text ∧ HasSentTime (threefoldFrame longLiteral.text) longLiteral.text ∧
      ReadsExactly exactLibc ∧ Denotes longLiteral.text 1 ∧
      bridgeExtractSentTime exactLibc (threefoldFrame longLiteral.text) ≠ .ok (some 1) := by
  refine ⟨number_iff.mpr ⟨longLiteral, longLiteral_isJson, rfl⟩,
    Or.inl (hasNumber_of_numberBehind ntpKey_ne_nil (by decide +kernel)),
    exactLibc_readsExactly, ⟨longLiteral, longLiteral_isJson, rfl, by decide +kernel⟩, ?_⟩
  decide +kernel

end ControllerBridge
