/-
This file settles what the substring search for a key finds in a frame that is a
JSON text.

It is a lookup among the members of the text at all depths, in the order in which
they stand: the first member whose name ends with the key and whose colon comes
right behind the name. The name is the key's own unless an escaped quotation mark
stands in it; that a member may be nested, and that only the first one counts,
is what the search makes of JSON. Of the element behind the colon a number is
taken, if nothing but spaces and tabs stand in front of it.
-/

import ControllerBridge.Library.JsonLookup
import ControllerBridge.NumericExtraction
import ControllerBridge.Reassembly

namespace ControllerBridge

open Search Decimal

/-! ### The member a key looks up -/

/-- What a key looks up among the members of a text: the number its first member is. -/
inductive LooksUp (places : List Json.Place) (key : List UInt8) : Option ℚ → Prop where
  | absent (missing : Json.lookup key places = none) : LooksUp places key none
  | number {place : Json.Place} {number : List UInt8} {value : ℚ}
      (found : Json.lookup key places = some place)
      (isNumber : Json.NumberElement number place.element) (reads : ReadAs number value) :
      LooksUp places key (some value)
  | other {place : Json.Place} (found : Json.lookup key places = some place)
      (noNumber : ∀ number, ¬ Json.NumberElement number place.element) : LooksUp places key none

/-- The key of the sent time: the second one counts in a text without the first. -/
def sentTimeKey (places : List Json.Place) : List UInt8 :=
  if (Json.lookup ntpKey places).isSome then ntpKey else timestampKey

section

variable {key frame : List UInt8} {places : List Json.Place}
  (placed : Json.Places .element frame places)

include placed

/-- A key without a member is not found. -/
theorem locate_of_lookup_none (isKey : Json.Key key) (nonempty : key ≠ [])
    (missing : Json.lookup key places = none) : locate key frame = none := by
  have first := placed.firstAt isKey
  rw [missing] at first
  exact (locate_eq_none_iff nonempty).mpr first

/-- The number of a member is behind its key. -/
theorem hasNumber_of_lookup (isKey : Json.Key key) {place : Json.Place}
    (found : Json.lookup key places = some place) {number : List UInt8}
    (isNumber : Json.NumberElement number place.element) : HasNumber key frame number := by
  have first := placed.firstAt isKey
  rw [found] at first
  obtain ⟨front, firstAt⟩ := first
  obtain ⟨blanks, trailing, blank, -, space, split⟩ := isNumber
  have here := placed.spec.1 place (List.mem_of_find?_eq_some found)
  refine ⟨front, blanks, trailing ++ place.after, ?_, blank, fun byte member continues => ?_⟩
  · rw [split, List.append_assoc, List.append_assoc] at firstAt
    exact firstAt
  · have delimiter := space.delimited.append here.delimited byte member
    rw [Json.isDelimiter_of_isNumberByte continues.isNumberByte] at delimiter
    cases delimiter

/-- Behind the key of a member that is no number the span is empty. -/
theorem exists_reads_of_lookup (isKey : Json.Key key) {place : Json.Place}
    (found : Json.lookup key places = some place)
    (noNumber : ∀ number, ¬ Json.NumberElement number place.element) :
    ∃ located, Reads key frame located ∧ located.span = [] := by
  have first := placed.firstAt isKey
  rw [found] at first
  obtain ⟨front, firstAt⟩ := first
  have here := placed.spec.1 place (List.mem_of_find?_eq_some found)
  rcases here.element.number_or_stops with
    ⟨number, isNumber⟩ | ⟨blanks, byte, rest, blank, noNumberByte, noGap, split⟩
  · exact absurd isNumber (noNumber number)
  refine ⟨⟨front, blanks, [], byte :: rest ++ place.after⟩, ⟨?_, blank, ?_, ?_, ?_⟩, rfl⟩
  · rw [split, List.append_assoc] at firstAt
    exact firstAt
  · exact List.forall_mem_nil _
  · rintro _ ⟨⟩
    exact noGap
  · rintro _ ⟨⟩
    rw [isNumeric_eq_isNumberByte]
    exact noNumberByte

variable {libc : Libc ℚ} (exact : ReadsExactly libc)

include exact

/-- The value of a field is the one its key looks up. -/
theorem fieldValue_looksUp (isKey : Json.Key key) (nonempty : key ≠ []) :
    LooksUp places key (fieldValue libc key frame) := by
  cases found : Json.lookup key places with
  | none =>
    rw [fieldValue, locate_of_lookup_none placed isKey nonempty found]
    exact .absent found
  | some place =>
    by_cases isNumber : ∃ number, Json.NumberElement number place.element
    · obtain ⟨number, isNumber⟩ := isNumber
      have isJson : Json.Number number := by
        obtain ⟨_, _, _, isJson, _⟩ := isNumber
        exact isJson
      obtain ⟨value, readAs⟩ := exists_readAs isJson
      rw [(hasNumber_of_lookup placed isKey found isNumber).fieldValue_eq exact isJson readAs
        nonempty]
      exact .number found isNumber readAs
    · have noNumber := not_exists.mp isNumber
      obtain ⟨located, reads, empty⟩ := exists_reads_of_lookup placed isKey found noNumber
      rw [fieldValue, (locate_eq_some_iff nonempty).mpr reads, Option.bind_some, if_pos empty]
      exact .other found noNumber

omit exact in
/-- The key found for the sent time is the first one, if a member has it. -/
theorem locateSentTime_eq : locateSentTime frame =
    (locate (sentTimeKey places) frame).map fun located => (sentTimeKey places, located) := by
  have isKey := key_of_watched ntpKey (by decide)
  unfold locateSentTime sentTimeKey
  cases found : Json.lookup ntpKey places with
  | none =>
    rw [locate_of_lookup_none placed isKey ntpKey_ne_nil found]
    rfl
  | some place =>
    have first := placed.firstAt isKey
    rw [found] at first
    obtain ⟨front, firstAt⟩ := first
    cases here : locate ntpKey frame with
    | none => exact absurd firstAt.infix ((locate_eq_none_iff ntpKey_ne_nil).mp here)
    | some located =>
      rw [Option.isSome_some, if_pos rfl, here]
      rfl

/-- The sent time read is the one its key looks up, and the stamping works with it. -/
theorem sentTime_looksUp : ∃ sentTime, LooksUp places (sentTimeKey places) sentTime ∧
    bridgeExtractSentTime libc frame = .ok sentTime ∧
    ∀ value ∈ sentTime, ∀ received forward, stampTimes libc frame received forward =
      some (received - value, forward - received) := by
  have isKey : Json.Key (sentTimeKey places) ∧ sentTimeKey places ≠ [] := by
    unfold sentTimeKey
    split
    · exact ⟨key_of_watched ntpKey (by decide), ntpKey_ne_nil⟩
    · exact ⟨key_of_watched timestampKey (by decide), timestampKey_ne_nil⟩
  refine ⟨_, fieldValue_looksUp placed exact isKey.1 isKey.2, ?_, ?_⟩
  · rw [bridgeExtractSentTime_eq, locateSentTime_eq placed, fieldValue, Option.bind_map]
    rfl
  · intro value read received forward
    rw [fieldValue, Option.mem_def, Option.bind_eq_some_iff] at read
    obtain ⟨located, here, read⟩ := read
    split at read
    · cases read
    · rw [Option.some_inj] at read
      rw [stampTimes, locateSentTime_eq placed, here, ← read]
      rfl

end

/-! ### Runs -/

section

variable {Variables : Type} {platform : Platform ℚ Variables}

/-- What a call takes from its frame, in terms of the members of the frame. -/
structure TakesMembers (libc : Libc ℚ) (call : ForwardCall ℚ) (places : List Json.Place) :
    Prop where
  joystick : ∃ x y, LooksUp places joystickXKey x ∧ LooksUp places joystickYKey y ∧
    call.handed.forwarded.joystick = x.bind fun x => y.map fun y => (x, y)
  sentTime : ∃ sentTime, LooksUp places (sentTimeKey places) sentTime ∧
    bridgeExtractSentTime libc call.handed.frame = .ok sentTime ∧
    ∀ value ∈ sentTime, ∀ record ∈ call.handed.forwarded.published,
      record.frameTransferTime = call.receivedNtpTime - value ∧
        record.processingTime = call.forwardNtpTime - call.receivedNtpTime

/-- In every run, whatever a call works with of a frame that is a JSON text, the joystick values
and the sent time, is what the keys look up among the members of the frame. -/
theorem frames_read_by_members (exact : ReadsExactly platform.libc)
    {history : List (Event ℚ × Observation ℚ)} {system : System ℚ Variables}
    (runs : Runs platform history system) :
    ∀ call ∈ forwardCalls history, ∀ places,
      Json.Places .element call.handed.frame places → TakesMembers platform.libc call places := by
  intro call member places placed
  obtain ⟨-, before, process', -, -, -, run⟩ := runs.exists_call member
  have joystick := (bridgeServerForward_reports platform before.process _ _ _ run).1
  refine ⟨⟨_, _, fieldValue_looksUp placed exact (key_of_watched _ (by decide)) joystickXKey_ne_nil,
    fieldValue_looksUp placed exact (key_of_watched _ (by decide)) joystickYKey_ne_nil, joystick⟩,
    ?_⟩
  obtain ⟨sentTime, looksUp, read, times⟩ := sentTime_looksUp placed exact
  refine ⟨sentTime, looksUp, read, fun value isSent record published => ?_⟩
  obtain ⟨-, -, same⟩ | ⟨_, _, _, -, -, same, -⟩ :=
    bridgeServerForward_cases platform before.process _ _ _ run
  · rw [same] at published
    cases published
  · rw [same, Option.mem_def, Option.some_inj] at published
    rw [← published, publishedRecord, frameTimes, times value isSent]
    exact ⟨rfl, rfl⟩

end

/-- A text whose first joystick values are in a nested object, and behind a name with an escaped
quotation mark. -/
def escapedFrame : List UInt8 :=
  ascii "\x7b\"log\":[\x7b\"joystick_x\":\t0.5\x7d],\"joystick_x\":1,\"a\\\"joystick_y\":-25e-2\x7d"

example : joystickValues exactLibc escapedFrame = some (1 / 2, -1 / 4) := by decide +kernel

/-- The process may get this frame. -/
theorem escapedFrame_read_by_members : ∃ history system call places,
    Runs examplePlatform history system ∧ forwardCalls history = [call] ∧
      call.handed.frame = escapedFrame ∧ Json.Places .element escapedFrame places ∧
      TakesMembers exactLibc call places := by
  obtain ⟨history, system, call, runs, calls, frame, -, -⟩ :=
    exists_frame_run exampleSystem_started 0 0
      (show escapedFrame.length ≤ maxControllerFrameLen by decide +kernel)
  have object : Json.ObjectText escapedFrame :=
    (Json.membersText_of_run (by decide +kernel) (by decide +kernel)
      (by decide +kernel)).objectText
  obtain ⟨places, placed⟩ := object.exists_places
  have member : call ∈ forwardCalls history := by
    rw [calls]
    exact List.mem_singleton_self call
  exact ⟨history, system, call, places, runs, calls, frame, placed,
    frames_read_by_members exactLibc_readsExactly runs call member places (frame ▸ placed)⟩

end ControllerBridge
