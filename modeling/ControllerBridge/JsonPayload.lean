/-
This file settles that a JSON object text in gives a JSON object text out.

A key of the source is read by the JSON machine in one way only, and the numeric
span after it is then a whole number. So the rewrites exchange a name and a
number for a name and numbers, and the insertions, at the last closing brace,
add members to the object itself. What keeps the first of two rewrites from
being left alone is that there is room for both.
-/

import ControllerBridge.Capacity
import ControllerBridge.Library.JsonReading
import ControllerBridge.PayloadEncoding

namespace ControllerBridge

open Search

/-! ### Keys and bytes in JSON -/

theorem isWs_of_isBlank {byte : UInt8} (blank : isBlank byte = true) : Json.isWs byte = true := by
  rw [isBlank, Bool.or_eq_true, beq_iff_eq, beq_iff_eq] at blank
  rcases blank with rfl | rfl <;> decide

/-- The bytes of a numeric span are those a number of JSON may have. -/
theorem isNumeric_eq_isNumberByte (byte : UInt8) : isNumeric byte = Json.isNumberByte byte := by
  rw [isNumeric, Json.isNumberByte, Decimal.isDigit, Json.isMark]
  generalize (decide (0x30 ≤ byte) && decide (byte ≤ 0x39)) = digit
  generalize (byte == 0x2E) = point
  generalize (byte == 0x2D) = minus
  generalize (byte == 0x2B) = plus
  generalize (byte == 0x65) = small
  generalize (byte == 0x45) = large
  revert digit point minus plus small large
  decide

theorem key_of_letters (letters : List UInt8)
    (words : letters ≠ [] ∧ letters.all Json.isWord = true) :
    Json.Key (0x22 :: (letters ++ [0x22, 0x3A])) :=
  ⟨letters, words.1, List.all_eq_true.mp words.2, rfl⟩

/-- The keys the bridge finds, and the names it writes. -/
theorem key_of_watched : ∀ key ∈ watchedKeys, Json.Key key := by
  intro key member
  simp only [watchedKeys, List.mem_cons, List.not_mem_nil, or_false] at member
  rcases member with rfl | rfl | rfl | rfl | rfl
  · exact key_of_letters (ascii "joystick_x") (by decide)
  · exact key_of_letters (ascii "joystick_y") (by decide)
  · exact key_of_letters (ascii "ntp_time") (by decide)
  · exact key_of_letters (ascii "timestamp") (by decide)
  · exact key_of_letters (ascii "controller_sent_ntp_time") (by decide)

/-- The start of an inserted field: a comma, the name in quotation marks and a colon. -/
def FieldName (name : List UInt8) : Prop :=
  ∃ letters, name = [0x2C, 0x22] ++ letters ++ [0x22, 0x3A] ∧
    letters ≠ [] ∧ letters.all Json.isWord = true

theorem fieldName_stamped :
    ∀ name ∈ [newNtpKey, processingKey, transferKey, receivedKey], FieldName name := by
  intro name member
  simp only [List.mem_cons, List.not_mem_nil, or_false] at member
  rcases member with rfl | rfl | rfl | rfl
  · exact ⟨ascii "ntp_time", by decide +kernel⟩
  · exact ⟨ascii "base_station_processing_time", by decide +kernel⟩
  · exact ⟨ascii "frame_transfer_time", by decide +kernel⟩
  · exact ⟨ascii "controller_to_base_station_received_ntp_time", by decide +kernel⟩

theorem fieldName_corrected : FieldName (ascii ",\"" ++ correctedKey ++ ascii "\":") :=
  ⟨correctedKey, rfl, by decide⟩

theorem fieldName_motor : ∀ name ∈ [ascii ",\"motor_1_pos\":", ascii ",\"motor_2_pos\":",
    ascii ",\"motor_3_pos\":", ascii ",\"motor_4_insertion_pos\":"], FieldName name := by
  intro name member
  simp only [List.mem_cons, List.not_mem_nil, or_false] at member
  rcases member with rfl | rfl | rfl | rfl
  · exact ⟨ascii "motor_1_pos", by decide +kernel⟩
  · exact ⟨ascii "motor_2_pos", by decide +kernel⟩
  · exact ⟨ascii "motor_3_pos", by decide +kernel⟩
  · exact ⟨ascii "motor_4_insertion_pos", by decide +kernel⟩

/-- A field with a number, before others. -/
theorem fields_cons {name number rest : List UInt8} (isName : FieldName name)
    (isNumeral : Json.Numeral number) (fields : Json.Fields rest) :
    Json.Fields (name ++ (number ++ rest)) := by
  obtain ⟨letters, rfl, words⟩ := isName
  have whole := Json.Fields.cons (key_of_letters letters words) isNumeral.number fields
  simpa only [List.append_assoc, List.cons_append, List.nil_append] using whole

/-- A numeral of JSON is a plain rendering. -/
theorem plain_of_numeral {text : List UInt8} (numeral : Json.Numeral text) : Plain text := by
  obtain ⟨minus, whole, fraction, isMinus, isWhole, isFraction, rfl⟩ := numeral
  have wholeDigits : whole ≠ [] ∧ ∀ byte ∈ whole, Decimal.isDigit byte = true := by
    obtain rfl | ⟨first, rest, digit, -, digits, rfl⟩ := isWhole
    · decide +kernel
    · exact ⟨List.cons_ne_nil _ _, List.forall_mem_cons.mpr ⟨digit, digits⟩⟩
  refine ⟨?_, fun byte member => ?_⟩
  · exact List.append_ne_nil_of_left_ne_nil (List.append_ne_nil_of_right_ne_nil _ wholeDigits.1) _
  · rcases List.mem_append.mp member with inFront | inFraction
    · rcases List.mem_append.mp inFront with inMinus | inWhole
      · obtain rfl | rfl := isMinus
        · cases inMinus
        · exact Or.inr (Or.inr (List.mem_singleton.mp inMinus))
      · exact Or.inl (wholeDigits.2 byte inWhole)
    · obtain rfl | ⟨digits, isDigits, rfl⟩ := isFraction
      · cases inFraction
      · rcases List.mem_cons.mp inFraction with point | inDigits
        · exact Or.inr (Or.inl point)
        · exact Or.inl (isDigits.2 byte inDigits)

theorem Renders.plain {Double : Type} {libc : Libc Double} {places : Nat} {value : Double}
    (numeral : Renders libc Json.Numeral places value) : Renders libc Plain places value :=
  fun rendering printed => plain_of_numeral (numeral rendering printed)

theorem PublishRenders.plain {Double : Type} {libc : Libc Double} {corrected : Double}
    {joystick : Option (Double × Double)} {motor : Option (MotorOut Double)}
    (numerals : PublishRenders libc Json.Numeral corrected joystick motor) :
    PublishRenders libc Plain corrected joystick motor :=
  ⟨numerals.corrected.plain, fun value member => (numerals.joystick value member).plain,
    fun value member => (numerals.motor value member).plain⟩

/-! ### The sent time -/

/-- A text that begins with a number, after spaces and tabs only. -/
def NumberFollows (text : List UInt8) : Prop :=
  ∃ blanks number rest, (∀ byte ∈ blanks, isBlank byte = true) ∧ Json.Number number ∧
    text = blanks ++ number ++ rest

/-- The first sent-time key of a frame, if it has one, is followed by a number. -/
structure SentTimeNumeric (frame : List UInt8) : Prop where
  ntp : ∀ before after, FirstAt ntpKey frame before after → NumberFollows after
  timestamp : ¬ ntpKey <:+: frame →
    ∀ before after, FirstAt timestampKey frame before after → NumberFollows after

/-- The numeric span begins where the number does. -/
theorem span_ne_nil_of_numberFollows {key text : List UInt8} {located : Located}
    (reads : Reads key text located)
    (follows : NumberFollows (located.blanks ++ (located.span ++ located.after))) :
    located.span ≠ [] := by
  obtain ⟨blanks, number, rest, isBlanks, isNumber, split⟩ := follows
  obtain ⟨byte, tail, -, rfl, first, -, -⟩ := isNumber.run []
  have numeric : isNumeric byte = true := by
    rw [isNumeric_eq_isNumberByte, Json.isNumberByte]
    obtain rfl | digit := first
    · decide
    · rw [digit]
      rfl
  have same := congrArg (List.dropWhile isBlank) split
  rw [dropWhile_append_of_stops reads.blanks reads.starts, List.append_assoc,
    dropWhile_append_of_stops isBlanks (by
      rintro _ ⟨⟩
      exact isBlank_of_isNumeric numeric)] at same
  intro empty
  have stops := reads.stops byte (by rw [empty, List.nil_append] at same; rw [same]; rfl)
  rw [numeric] at stops
  cases stops

/-! ### The steps -/

section

variable {Double : Type} {libc : Libc Double} {capacity : Nat}

theorem membersText_insertText {fields text result : List UInt8} (isFields : Json.Fields fields)
    (object : Json.MembersText text) (inserted : insertText capacity fields text = some result) :
    Json.MembersText result := by
  rw [insertText, Option.bind_eq_some_iff] at inserted
  obtain ⟨⟨before, after⟩, cut, fits⟩ := inserted
  obtain ⟨rfl, -⟩ := within_eq_some_iff.mp fits
  have last := cutLast_eq_some_iff.mp cut
  rw [last.split] at object
  exact object.insertFields isFields last.fresh

theorem membersText_correctText {corrected : Double}
    (numeral : Renders libc Json.Numeral 6 corrected) {text : List UInt8}
    (object : Json.MembersText text) :
    Json.MembersText (correctText libc capacity corrected text) := by
  rw [correctText]
  cases appended : appendFieldText libc capacity correctedKey corrected text with
  | none => exact object
  | some result =>
    rw [appendFieldText, Option.bind_eq_some_iff] at appended
    obtain ⟨field, fits, inserted⟩ := appended
    obtain ⟨rendered, -⟩ := fitting_eq_some_iff.mp fits
    simp only [fieldText, Option.bind_eq_bind, Option.bind_eq_some_iff, Option.some_inj] at rendered
    obtain ⟨rendering, printed, rfl⟩ := rendered
    refine membersText_insertText ?_ object inserted
    have fields := fields_cons fieldName_corrected (numeral _ printed) .nil
    rw [List.append_nil] at fields
    exact fields

theorem membersText_motor {m1 m2 m3 m4 : Double}
    (numerals : ∀ value ∈ [m1, m2, m3, m4], Renders libc Json.Numeral 6 value)
    {text : List UInt8} (object : Json.MembersText text) :
    Json.MembersText ((appendMotorText libc capacity m1 m2 m3 m4 text).getD text) := by
  cases appended : appendMotorText libc capacity m1 m2 m3 m4 text with
  | none => exact object
  | some result =>
    rw [appendMotorText, Option.bind_eq_some_iff] at appended
    obtain ⟨fields, fits, inserted⟩ := appended
    obtain ⟨rendered, -⟩ := fitting_eq_some_iff.mp fits
    simp only [motorFields, Option.bind_eq_bind, Option.bind_eq_some_iff, Option.some_inj]
      at rendered
    obtain ⟨r1, printed1, r2, printed2, r3, printed3, r4, printed4, rfl⟩ := rendered
    refine membersText_insertText ?_ object inserted
    have names := fieldName_motor
    simp only [List.forall_mem_cons] at names
    obtain ⟨name1, name2, name3, name4, -⟩ := names
    have fields4 := fields_cons name4 (numerals m4 (by simp) _ printed4) .nil
    have fields3 := fields_cons name3 (numerals m3 (by simp) _ printed3) fields4
    have fields2 := fields_cons name2 (numerals m2 (by simp) _ printed2) fields3
    have fields1 := fields_cons name1 (numerals m1 (by simp) _ printed1) fields2
    rw [List.append_nil] at fields1
    simp only [List.append_assoc] at fields1 ⊢
    exact fields1

/-- A value of JSON rewritten by a numeral, where it was a number. -/
theorem membersText_replaceText {key : List UInt8} (watched : key ∈ watchedKeys) {value : Double}
    (numeral : Renders libc Json.Numeral 8 value) {text result span : List UInt8}
    (read : spanAfter key text = some span) (nonempty : span ≠ []) (object : Json.MembersText text)
    (replaced : replaceText libc capacity key value text = some result) :
    Json.MembersText result := by
  rw [spanAfter, Option.map_eq_some_iff] at read
  obtain ⟨located, found, rfl⟩ := read
  rw [replaceText, found] at replaced
  simp only [Option.bind_eq_bind, Option.bind_eq_some_iff] at replaced
  obtain ⟨rendering, fits, kept⟩ := replaced
  obtain ⟨rfl, -⟩ := within_eq_some_iff.mp kept
  obtain ⟨printed, -⟩ := fitting_eq_some_iff.mp fits
  have reads := (locate_eq_some_iff (quoted_of_watched key watched).ne_nil).mp found
  have isKey := key_of_watched key watched
  have space : Json.Ws located.blanks :=
    fun byte member => isWs_of_isBlank (reads.blanks byte member)
  rw [reads.text_eq] at object
  have exchanged := object.exchange isKey space nonempty
    (fun byte member => isNumeric_eq_isNumberByte byte ▸ reads.span byte member)
    (fun byte member => isNumeric_eq_isNumberByte byte ▸ reads.stops byte member)
    isKey space (fun _ => (numeral _ printed).number) .nil
  rwa [List.append_nil] at exchanged

/-- The joystick values rewritten, each where it was a number. -/
theorem membersText_reformatText {x y : Double}
    (numerals : ∀ value ∈ [x, y], Renders libc Json.Numeral 8 value)
    {text result spanX spanY : List UInt8} (readX : spanAfter joystickXKey text = some spanX)
    (readY : spanAfter joystickYKey text = some spanY) (nonempty : spanX ≠ [] ∧ spanY ≠ [])
    (object : Json.MembersText text)
    (reformatted : reformatText libc capacity x y text = some result) :
    Json.MembersText result := by
  obtain ⟨first, replacedX, replacedY, -⟩ := reformatText_eq_some reformatted
  have numeralX := numerals x (by simp)
  have objectX := membersText_replaceText (by decide) numeralX readX nonempty.1 object replacedX
  refine membersText_replaceText (by decide) (numerals y (by simp)) ?_ nonempty.2 objectX replacedY
  rw [spanAfter_replaceText_other (by decide) (by decide) (by decide) numeralX.plain.unquoted
    replacedX]
  exact readY

theorem key_of_locateSentTime {text key : List UInt8} {located : Located}
    (found : locateSentTime text = some (key, located)) : Json.Key key := by
  obtain rfl | ⟨rfl, -⟩ := locateSentTime_key found
  · exact key_of_watched _ (by decide)
  · exact key_of_watched _ (by decide)

/-- The stamped frame: the sent time renamed, and four fields after it. -/
theorem membersText_of_span [Sub Double] {raw stamped key : List UInt8} {received forward : Double}
    {located : Located} (found : locateSentTime raw = some (key, located))
    (nonempty : located.span ≠ [])
    (numerals : ∀ value ∈ stampNumbers libc raw received forward, Renders libc Json.Numeral 6 value)
    (object : Json.MembersText raw)
    (stamp : stampText libc capacity raw received forward = some stamped) :
    Json.MembersText stamped := by
  obtain ⟨forwardText, receivedText, processingText, transferText, printed1, printed2, printed3,
    printed4, rfl⟩ := stampText_eq_some found stamp
  rw [stampNumbers, stampTimes, found] at numerals
  have reads := reads_of_locateSentTime found
  have names := fieldName_stamped
  simp only [List.forall_mem_cons] at names
  obtain ⟨newNtp, processing, transfer, received, -⟩ := names
  have fields4 := fields_cons received (numerals _ (by simp) _ printed2) .nil
  have fields3 := fields_cons transfer (numerals _ (by simp) _ printed4) fields4
  have fields2 := fields_cons processing (numerals _ (by simp) _ printed3) fields3
  have fields1 := fields_cons newNtp (numerals forward (by simp) _ printed1) fields2
  rw [reads.text_eq] at object
  have exchanged := object.exchange (key_of_locateSentTime found)
    (fun byte member => isWs_of_isBlank (reads.blanks byte member)) nonempty
    (fun byte member => isNumeric_eq_isNumberByte byte ▸ reads.span byte member)
    (fun byte member => isNumeric_eq_isNumberByte byte ▸ reads.stops byte member)
    (key_of_watched sentKey (by decide)) Json.ws_nil id fields1
  rw [stampedText]
  simp only [List.append_assoc, List.append_nil] at exchanged ⊢
  exact exchanged

theorem membersText_stampText [Sub Double] {raw stamped : List UInt8} {received forward : Double}
    (sentTime : SentTimeNumeric raw)
    (numerals : ∀ value ∈ stampNumbers libc raw received forward, Renders libc Json.Numeral 6 value)
    (object : Json.MembersText raw)
    (stamp : stampText libc capacity raw received forward = some stamped) :
    Json.MembersText stamped := by
  cases found : locateSentTime raw with
  | none =>
    rw [stampText, found] at stamp
    rwa [(within_eq_some_iff.mp stamp).1]
  | some pair =>
    obtain ⟨key, located⟩ := pair
    have reads := reads_of_locateSentTime found
    have follows : NumberFollows (located.blanks ++ (located.span ++ located.after)) := by
      obtain rfl | ⟨rfl, absent⟩ := locateSentTime_key found
      · exact sentTime.ntp _ _ reads.first
      · exact sentTime.timestamp absent _ _ reads.first
    exact membersText_of_span found (span_ne_nil_of_numberFollows reads follows) numerals object
      stamp

/-- The steps after the stamping, where both joystick values are rewritten. -/
theorem membersText_publishedText {corrected : Double} {joystick : Option (Double × Double)}
    {motor : Option (MotorOut Double)}
    (numerals : PublishRenders libc Json.Numeral corrected joystick motor) {stamped : List UInt8}
    (spans : ∀ x y, joystick = some (x, y) →
      (∃ span, span ≠ [] ∧ spanAfter joystickXKey stamped = some span) ∧
        ∃ span, span ≠ [] ∧ spanAfter joystickYKey stamped = some span)
    (reformats : ∀ x y, joystick = some (x, y) → ∃ result,
      reformatText libc capacity x y (correctText libc capacity corrected stamped) = some result)
    (object : Json.MembersText stamped) :
    Json.MembersText (publishedText libc capacity corrected joystick motor stamped) := by
  have objectCorrected : Json.MembersText (correctText libc capacity corrected stamped) :=
    membersText_correctText numerals.corrected object
  rw [publishedText]
  cases joystick with
  | none => exact objectCorrected
  | some values =>
    obtain ⟨x, y⟩ := values
    obtain ⟨result, reformatted⟩ := reformats x y rfl
    obtain ⟨⟨spanX, nonemptyX, readX⟩, spanY, nonemptyY, readY⟩ := spans x y rfl
    have keeps := fun key (watched : key ∈ watchedKeys) =>
      spanAfter_correctText capacity watched numerals.corrected.plain.unquoted stamped
    have correctedX := (keeps joystickXKey (by decide)).trans readX
    have correctedY := (keeps joystickYKey (by decide)).trans readY
    have objectReformatted := membersText_reformatText numerals.joystick correctedX correctedY
      ⟨nonemptyX, nonemptyY⟩ objectCorrected reformatted
    obtain ⟨-, -, -, left⟩ := reformatText_eq_some reformatted
    unfold spliceText
    dsimp only
    rw [left]
    cases motor with
    | none => exact objectReformatted
    | some out => exact membersText_motor numerals.motor objectReformatted

/-! ### Room for the rewrites -/

variable (libc) in
/-- The corrected time adds at most 127 bytes. -/
theorem correctText_length_le (corrected : Double)
    {text : List UInt8} (room : text.length + 127 ≤ capacity) :
    (correctText libc capacity corrected text).length ≤ text.length + 127 := by
  rw [correctText, appendFieldText]
  cases fits : fitting 128 (fieldText libc correctedKey corrected) with
  | none => exact Nat.le_add_right _ _
  | some field =>
    have short := fitting_length_le fits
    have total := (insertText_room (show text.length + field.length ≤ capacity by omega)).2
    exact total.trans (by omega)

/-- Both joystick values are rewritten where there is room and their renderings fit. -/
theorem exists_reformatText {x y : Double}
    {text : List UInt8} (room : text.length + 62 ≤ capacity)
    (renders : ∀ value ∈ [x, y],
      ∃ rendering, libc.printf 8 value = some rendering ∧ rendering.length ≤ 31) :
    ∃ result, reformatText libc capacity x y text = some result := by
  have accepted : ∀ value ∈ [x, y], (snprintf 32 (libc.printf 8 value)).refused 32 ≠ true := by
    intro value member refused
    obtain ⟨rendering, printed, short⟩ := renders value member
    rw [← fitting_eq_none_iff, printed,
      fitting_eq_some_iff.mpr ⟨rfl, Nat.lt_succ_of_le short⟩] at refused
    cases refused
  refine Option.ne_none_iff_exists'.mp fun failed => ?_
  obtain refusedX | refusedY := (reformatText_room libc x y room).1 failed
  · exact accepted x (by simp) refusedX
  · exact accepted y (by simp) refusedY

end

/-! ### The payload -/

section

variable {Double Variables : Type} [Add Double] [Sub Double] [Mul Double] [Div Double]
  [Neg Double] [LT Double] [DecidableLT Double] [LE Double] [DecidableLE Double]
  [OfScientific Double] [NatCast Double] [IntCast Double]

/-- A JSON object text with a member, whose first sent-time key is followed by a number, is
published as a JSON object text, and in UTF-8 if it was in UTF-8. -/
theorem payload_objectText {platform : Platform Double Variables}
    {process process' : Process Double Variables} {frame : List UInt8}
    {receivedNtpTime forwardNtpTime : Double} {forwarded : Forwarded Double}
    (short : frame.length ≤ maxControllerFrameLen) (object : Json.MembersText frame)
    (sentTime : SentTimeNumeric frame)
    (numerals : CallRenders platform process frame receivedNtpTime forwardNtpTime Json.Numeral)
    (joystick : ∀ x y, bridgeExtractJoystick platform.libc frame = .ok (some (x, y)) →
      ∀ value ∈ [x, y],
        ∃ rendering, platform.libc.printf 8 value = some rendering ∧ rendering.length ≤ 31)
    (call : bridgeServerForward platform process frame receivedNtpTime forwardNtpTime =
      .ok (process', forwarded))
    (published : forwarded.published ≠ none) :
    Json.ObjectText process'.server.published ∧
      (Utf8.Encoded frame → Utf8.Encoded process'.server.published) := by
  obtain ⟨-, -, rfl⟩ | ⟨stamped, payload, n, stamp, rfl, rfl, holds⟩ :=
    bridgeServerForward_cases platform process frame _ _ call
  · exact absurd rfl published
  have text : BridgeServer.published ⟨payload, n, process.server.protocol⟩ =
      publishedFrame platform process frame receivedNtpTime forwardNtpTime stamped := holds.reads
  rw [stampedFrame] at stamp
  have lengths : maxControllerFrameLen = 512 ∧ maxBridgedFrameLen = 1024 := ⟨rfl, rfl⟩
  have shortStamped := (stampText_room platform.libc _ _ (by omega)).2 stamped stamp
  have shortCorrected := correctText_length_le platform.libc
    (frameCorrection platform process frame receivedNtpTime forwardNtpTime).2
    (show stamped.length + 127 ≤ maxBridgedFrameLen by omega)
  have reformats : ∀ x y, joystickValues platform.libc frame = some (x, y) → ∃ result,
      reformatText platform.libc maxBridgedFrameLen x y (correctText platform.libc
        maxBridgedFrameLen (frameCorrection platform process frame receivedNtpTime
          forwardNtpTime).2 stamped) = some result := by
    intro x y values
    refine exists_reformatText (by omega) (joystick x y ?_)
    rw [bridgeExtractJoystick_eq, values]
  have plainStamp := fun value member => (numerals.stamp value member).plain
  rw [text, publishedFrame]
  constructor
  · refine (membersText_publishedText numerals.publish ?_ reformats ?_).objectText
    · -- the spans of the raw frame are still there when they are rewritten
      intro x y values
      have unquoted := fun value member => (plainStamp value member).unquoted
      rw [spanAfter_stampText (by decide) unquoted stamp,
        spanAfter_stampText (by decide) unquoted stamp]
      exact exists_spanAfter_of_joystickValues values
    · exact membersText_stampText sentTime numerals.stamp object stamp
  · intro encoded
    exact encoded_publishedText numerals.publish.plain reformats
      (encoded_stampText plainStamp encoded stamp)

end

/-- A frame whose sent time is inside an array, at the end of a name with a quotation mark in it. -/
def nestedFrame : List UInt8 :=
  ascii "\x7b\"log\":[\x7b\"by \\\"ntp_time\": 0.5\x7d],\"joystick_x\":1,\"joystick_y\":0\x7d"

theorem nestedFrame_sentTimeNumeric : SentTimeNumeric nestedFrame := by
  have number : Json.Number (ascii "0.5") :=
    Json.Numeral.number ⟨[], [0x30], [0x2E, 0x35], Or.inl rfl, Or.inl rfl,
      Or.inr ⟨[0x35], ⟨List.cons_ne_nil _ _, by decide +kernel⟩, rfl⟩, rfl⟩
  refine ⟨fun before after first => ?_, fun absent => absurd ?_ absent⟩
  · have cut := (cutFirst_eq_some_iff ntpKey_ne_nil).mpr first
    have computed : cutFirst ntpKey nestedFrame = some (ascii "\x7b\"log\":[\x7b\"by \\",
        ascii " 0.5\x7d],\"joystick_x\":1,\"joystick_y\":0\x7d") := by decide +kernel
    obtain ⟨-, rfl⟩ := Prod.mk.inj (Option.some_inj.mp (cut.symm.trans computed))
    exact ⟨[0x20], ascii "0.5", _, by decide +kernel, number, rfl⟩
  · refine (cutFirst_eq_none_iff ntpKey_ne_nil).not.mp ?_ |> not_not.mp
    decide +kernel

theorem nestedFrame_payload_objectText : ∃ process' forwarded,
    bridgeServerForward examplePlatform exampleProcess nestedFrame 1 2 = .ok (process', forwarded) ∧
      forwarded.published ≠ none ∧ Json.ObjectText process'.server.published ∧
        (Utf8.Encoded nestedFrame → Utf8.Encoded process'.server.published) := by
  have stamps : (stampedFrame examplePlatform nestedFrame 1 2).isSome = true := by decide +kernel
  obtain ⟨stamped, stamp⟩ := Option.isSome_iff_exists.mp stamps
  obtain ⟨payload, n, call, -⟩ :=
    bridgeServerForward_published examplePlatform exampleProcess nestedFrame 1 2 stamp
  have object : Json.MembersText nestedFrame :=
    Json.membersText_of_run (by decide +kernel) (by decide +kernel) (by decide +kernel)
  have numeral : ∀ places, 0 < places → ∀ value, Renders exactLibc Json.Numeral places value := by
    rintro places positive value rendering ⟨⟩
    exact Json.numeral_fixed positive value
  have numerals : CallRenders examplePlatform exampleProcess nestedFrame 1 2 Json.Numeral :=
    ⟨fun value _ => numeral 6 (by decide) value, numeral 6 (by decide) _,
      fun value _ => numeral 8 (by decide) value, fun value _ => numeral 6 (by decide) value⟩
  have values : bridgeExtractJoystick exactLibc nestedFrame = .ok (some (1, 0)) := by
    decide +kernel
  refine ⟨_, _, call, Option.some_ne_none _, payload_objectText (by decide +kernel) object
    nestedFrame_sentTimeNumeric numerals ?_ call (Option.some_ne_none _)⟩
  intro x y extracts
  have same := extracts.symm.trans values
  rw [Except.ok.injEq, Option.some_inj, Prod.mk.injEq] at same
  obtain ⟨rfl, rfl⟩ := same
  have short : ∀ value ∈ [(1 : ℚ), 0], (Decimal.fixed 8 value).length ≤ 31 := by decide +kernel
  exact fun value member => ⟨_, rfl, short value member⟩

end ControllerBridge
