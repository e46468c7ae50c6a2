/-
This file settles what the bridge makes of a frame that is a JSON object, as an
edit of its members.

The source finds keys and braces in bytes and splices the text there. On the tree
of the frame this is a list of edits (`callEdits`): the member of the sent time
goes under another name, with four fields behind it, each joystick member gets
another number, wherever they are nested, and the corrected time and the motor
positions are put at the end of the object. The payload is the text of the edited
tree (`payload_edits`), so every other member stands in it as it came, byte by
byte and in its order (`payload_keeps_members`).
-/

import ControllerBridge.AppendedFields
import ControllerBridge.Library.JsonEdits
import ControllerBridge.RunStatistics
import ControllerBridge.StampedObjects

namespace ControllerBridge

open Search Region

/-! ### Names and numbers -/

/-- The keys a frame is searched for. -/
def searchedKeys : List (List UInt8) := [ntpKey, timestampKey, joystickXKey, joystickYKey]

/-- A key that is searched for or written. -/
def watched (key : List UInt8) (member : key ∈ watchedKeys) : Json.KeyText :=
  ⟨key, key_of_watched key member⟩

/-- The key of the sent time: the second one counts in a frame without the first. -/
def sentTimeText (frame : List UInt8) : Json.KeyText :=
  if (locate ntpKey frame).isSome then watched ntpKey (by decide)
  else watched timestampKey (by decide)

theorem locateSentTime_text (frame : List UInt8) :
    locateSentTime frame = (locate (sentTimeText frame).1 frame).map fun located =>
      ((sentTimeText frame).1, located) := by
  unfold locateSentTime sentTimeText
  cases found : locate ntpKey frame with
  | none => rfl
  | some located =>
    rw [Option.isSome_some, if_pos rfl, watched, found]
    rfl

theorem sentTimeText_ne_nil (frame : List UInt8) : (sentTimeText frame).1 ≠ [] := by
  unfold sentTimeText
  split
  · exact ntpKey_ne_nil
  · exact timestampKey_ne_nil

/-- A field with a name of the source. -/
def numberField (name : List UInt8) (plain : ∀ byte ∈ name, Json.isPlain byte = true)
    (number : Json.NumberText) : Json.Field :=
  ⟨(nameText name, number.1), stringText_nameText plain, number.2⟩

section

variable {Double : Type} (libc : Libc Double)

open Classical in
/-- What is written for a value: a number of JSON, or zero where none is written. -/
noncomputable def rendered (places : Nat) (value : Double) : Json.NumberText :=
  if numeral : ∃ number : Json.NumberText, libc.printf places value = some number.1 then
    numeral.choose
  else ⟨[0x30], Json.Numeral.number ⟨[], [0x30], [], Or.inl rfl, Or.inl rfl, Or.inl rfl, rfl⟩⟩

variable {libc} in
theorem rendered_eq {places : Nat} {value : Double}
    (renders : Renders libc Json.Numeral places value) {rendering : List UInt8}
    (printed : libc.printf places value = some rendering) :
    (rendered libc places value).1 = rendering := by
  have numeral : ∃ number : Json.NumberText, libc.printf places value = some number.1 :=
    ⟨⟨rendering, (renders rendering printed).number⟩, printed⟩
  rw [rendered, dif_pos numeral]
  exact Option.some_inj.mp (numeral.choose_spec.symm.trans printed)

/-! ### The edits of a call -/

/-- The fields behind the sent time, but for the last. -/
noncomputable def stampFields (forward processing transfer : Double) : List Json.Field :=
  [numberField (ascii "ntp_time") (by decide +kernel) (rendered libc 6 forward),
    numberField (ascii "base_station_processing_time") (by decide +kernel)
      (rendered libc 6 processing),
    numberField (ascii "frame_transfer_time") (by decide +kernel) (rendered libc 6 transfer)]

/-- The sent time under its new name, with the times of the frame behind it. -/
noncomputable def stampEdit (frame : List UInt8) (received forward processing transfer : Double) :
    Json.Edit :=
  .spread (sentTimeText frame) (watched sentKey (by decide))
    (stampFields libc forward processing transfer)
    (numberField (ascii "controller_to_base_station_received_ntp_time") (by decide +kernel)
      (rendered libc 6 received))

/-- Fields at the end of the object, if their step did not fail. -/
def appended (result : Int) (fields : List Json.Field) : List Json.Edit :=
  if 0 ≤ result then [.extend fields] else []

noncomputable def correctedField (corrected : Double) : Json.Field :=
  numberField correctedKey (by decide +kernel) (rendered libc 6 corrected)

noncomputable def joystickEdits : Option (Double × Double) → List Json.Edit
  | none => []
  | some (x, y) =>
    [.number (watched joystickXKey (by decide)) (rendered libc 8 x),
      .number (watched joystickYKey (by decide)) (rendered libc 8 y)]

noncomputable def motorFieldList (out : MotorOut Double) : List Json.Field :=
  [numberField (ascii "motor_1_pos") (by decide +kernel) (rendered libc 6 (out.tendon 0)),
    numberField (ascii "motor_2_pos") (by decide +kernel) (rendered libc 6 (out.tendon 1)),
    numberField (ascii "motor_3_pos") (by decide +kernel) (rendered libc 6 (out.tendon 2)),
    numberField (ascii "motor_4_insertion_pos") (by decide +kernel)
      (rendered libc 6 out.insertion)]

noncomputable def motorEdits : Option (MotorOut Double) → Option Int → List Json.Edit
  | some out, some result => appended result (motorFieldList libc out)
  | _, _ => []

/-- What a call edits in the object it is given. -/
noncomputable def callEdits (call : ForwardCall Double) (record : Published Double) :
    List Json.Edit :=
  stampEdit libc call.handed.frame call.receivedNtpTime call.forwardNtpTime
      record.processingTime record.frameTransferTime ::
    (appended record.withCorrection [correctedField libc record.correctedTransferTime] ++
      (joystickEdits libc call.handed.forwarded.joystick ++
        motorEdits libc call.handed.forwarded.motor record.withMotor))

/-- The edits are at the keys that are searched for. -/
theorem keys_of_callEdits (call : ForwardCall Double) (record : Published Double) :
    ∀ edit ∈ callEdits libc call record, edit.keys ⊆ searchedKeys := by
  have atEnd : ∀ result fields, ∀ edit ∈ appended result fields, edit.keys ⊆ searchedKeys := by
    intro result fields edit member
    unfold appended at member
    split at member
    · rw [List.mem_singleton.mp member]
      exact List.nil_subset _
    · cases member
  have sentTime : ∀ frame, [(sentTimeText frame).1] ⊆ searchedKeys := by
    intro frame
    unfold sentTimeText
    split <;> decide
  unfold callEdits
  refine List.forall_mem_cons.mpr ⟨sentTime _, List.forall_mem_append.mpr ⟨atEnd _ _,
    List.forall_mem_append.mpr ⟨?_, ?_⟩⟩⟩
  · unfold joystickEdits
    split
    · exact List.forall_mem_nil _
    · exact List.forall_mem_cons.mpr ⟨show [joystickXKey] ⊆ searchedKeys by decide,
        List.forall_mem_singleton.mpr (show [joystickYKey] ⊆ searchedKeys by decide)⟩
  · unfold motorEdits
    split
    · exact atEnd _ _
    · exact List.forall_mem_nil _

end

/-! ### The steps -/

/-- A frame of which a sent time can be read where its key is found. -/
def TimeReadable (frame : List UInt8) : Prop :=
  ∀ key located, locateSentTime frame = some (key, located) → located.span ≠ []

/-- What is located with a number behind it is found in the tree. -/
theorem Reads.numberAt {key text : List UInt8} {located : Located} (reads : Reads key text located)
    (filled : located.span ≠ []) : Json.NumberAt key text located.before located.blanks
      located.span located.after where
  first := reads.first
  gaps := reads.blanks
  numeric byte member := isNumeric_eq_isNumberByte byte ▸ reads.span byte member
  nonempty := filled
  stops byte member := isNumeric_eq_isNumberByte byte ▸ reads.stops byte member

section

variable {Double : Type} {libc : Libc Double} {capacity : Nat} {object : Json.ObjectTree}

/-- The stamped frame is the object with its sent time spread. -/
theorem stampText_edit [Sub Double] {received forward processing transfer : Double}
    {stamped : List UInt8}
    (readable : TimeReadable object.text)
    (numerals : ∀ value ∈ stampNumbers libc object.text received forward,
      Renders libc Json.Numeral 6 value)
    (times : ∀ pair ∈ stampTimes libc object.text received forward, pair = (transfer, processing))
    (stamp : stampText libc capacity object.text received forward = some stamped) :
    stamped = (object.edit
      (stampEdit libc object.text received forward processing transfer)).text := by
  have same := locateSentTime_text object.text
  cases found : locate (sentTimeText object.text).1 object.text with
  | none =>
    rw [found, Option.map_none] at same
    rw [stampText, same] at stamp
    have absent := (locate_eq_none_iff (sentTimeText_ne_nil _)).mp found
    rw [(within_eq_some_iff.mp stamp).1, stampEdit, Json.ObjectTree.edit,
      Json.ObjectTree.exchange_of_absent absent]
  | some located =>
    rw [found, Option.map_some] at same
    obtain ⟨forwardText, receivedText, processingText, transferText, printed1, printed2, printed3,
      printed4, rfl⟩ := stampText_eq_some same stamp
    rw [stampNumbers, stampTimes, same] at numerals
    rw [stampTimes, same] at times
    obtain ⟨rfl, rfl⟩ := Prod.mk.inj (times _ rfl)
    have reads := (locate_eq_some_iff (sentTimeText_ne_nil _)).mp found
    rw [stampEdit, Json.ObjectTree.text_spread (reads.numberAt (readable _ _ same))]
    have names : newNtpKey = 0x2C :: (nameText (ascii "ntp_time") ++ [0x3A]) ∧
        processingKey = 0x2C :: (nameText (ascii "base_station_processing_time") ++ [0x3A]) ∧
        transferKey = 0x2C :: (nameText (ascii "frame_transfer_time") ++ [0x3A]) ∧
        receivedKey = 0x2C ::
          (nameText (ascii "controller_to_base_station_received_ntp_time") ++ [0x3A]) := by
      decide +kernel
    have text1 := rendered_eq (numerals _ (by simp)) printed1
    have text2 := rendered_eq (numerals _ (by simp)) printed2
    have text3 := rendered_eq (numerals _ (by simp)) printed3
    have text4 := rendered_eq (numerals _ (by simp)) printed4
    simp [stampedText, stampFields, numberField, Json.fieldsText, names, text1, text2, text3,
      text4, watched]

/-- Inserted fields are put at the end of the object. -/
theorem insertText_edit {fields : List Json.Field} {result : List UInt8}
    (inserted : insertText capacity (Json.fieldsText (fields.map Subtype.val)) object.text =
      some result) : result = (object.edit (.extend fields)).text := by
  rw [insertText, Option.bind_eq_some_iff] at inserted
  obtain ⟨⟨before, after⟩, cut, fits⟩ := inserted
  rw [(within_eq_some_iff.mp fits).1]
  exact (object.text_extend fields (cutLast_eq_some_iff.mp cut)).symm

/-- A value that is replaced is another number of its member. -/
theorem replaceText_edit (key : Json.KeyText) (nonempty : key.1 ≠ []) {value : Double}
    (renders : Renders libc Json.Numeral 8 value) {span result : List UInt8}
    (read : spanAfter key.1 object.text = some span) (filled : span ≠ [])
    (replaced : replaceText libc capacity key.1 value object.text = some result) :
    result = (object.edit (.number key (rendered libc 8 value))).text := by
  rw [spanAfter, Option.map_eq_some_iff] at read
  obtain ⟨located, found, rfl⟩ := read
  rw [replaceText, found] at replaced
  simp only [Option.bind_eq_bind, Option.bind_eq_some_iff] at replaced
  obtain ⟨rendering, fits, kept⟩ := replaced
  have reads := (locate_eq_some_iff nonempty).mp found
  rw [(within_eq_some_iff.mp kept).1, Json.ObjectTree.text_number (reads.numberAt filled),
    rendered_eq renders (fitting_eq_some_iff.mp fits).1]

/-- What a step that may fail puts at the end of the object. -/
theorem text_appended (small : capacity ≤ intMax) {fields : List Json.Field}
    {step : Option (List UInt8)} (fits : ∀ text ∈ step, text.length ≤ capacity)
    (atEnd : ∀ text ∈ step, text = (object.edit (.extend fields)).text) :
    step.getD object.text = (object.edits (appended (intResult step) fields)).text := by
  unfold appended
  cases step with
  | none => rfl
  | some text =>
    rw [intResult_some small (fits text rfl), if_pos (Int.natCast_nonneg _)]
    exact atEnd text rfl

theorem fieldText_rendered {corrected : Double} (numeral : Renders libc Json.Numeral 6 corrected)
    {field : List UInt8} (written : fieldText libc correctedKey corrected = some field) :
    field = Json.fieldsText ([correctedField libc corrected].map Subtype.val) := by
  cases printed : libc.printf 6 corrected with
  | none =>
    rw [fieldText, printed] at written
    cases written
  | some rendering =>
    rw [fieldText_eq libc correctedKey printed, Option.some_inj] at written
    rw [← written, ← rendered_eq numeral printed]
    rfl

theorem motorFields_rendered {out : MotorOut Double}
    (numerals : ∀ value ∈ motorNumbers (some out), Renders libc Json.Numeral 6 value)
    {fields : List UInt8}
    (written : motorFields libc (out.tendon 0) (out.tendon 1) (out.tendon 2) out.insertion =
      some fields) :
    fields = Json.fieldsText ((motorFieldList libc out).map Subtype.val) := by
  have all := id written
  simp only [motorFields, Option.bind_eq_bind, Option.bind_eq_some_iff] at all
  obtain ⟨r1, printed1, r2, printed2, r3, printed3, r4, printed4, -⟩ := all
  rw [motorFields_eq libc printed1 printed2 printed3 printed4, Option.some_inj] at written
  rw [← written, ← rendered_eq (numerals _ (by simp [motorNumbers])) printed1,
    ← rendered_eq (numerals _ (by simp [motorNumbers])) printed2,
    ← rendered_eq (numerals _ (by simp [motorNumbers])) printed3,
    ← rendered_eq (numerals _ (by simp [motorNumbers])) printed4]
  rfl

variable (object) in
theorem correctText_edits (small : capacity ≤ intMax) {corrected : Double}
    (numeral : Renders libc Json.Numeral 6 corrected) :
    correctText libc capacity corrected object.text = (object.edits (appended
      (intResult (appendFieldText libc capacity correctedKey corrected object.text))
      [correctedField libc corrected])).text := by
  refine text_appended small (fun text member => appendFieldText_length_le libc member) ?_
  intro text member
  rw [Option.mem_def, appendFieldText, Option.bind_eq_some_iff] at member
  obtain ⟨field, fits, inserted⟩ := member
  rw [fieldText_rendered numeral (fitting_eq_some_iff.mp fits).1] at inserted
  exact insertText_edit inserted

theorem motorText_edits (small : capacity ≤ intMax) {out : MotorOut Double}
    (numerals : ∀ value ∈ motorNumbers (some out), Renders libc Json.Numeral 6 value) :
    (appendMotorText libc capacity (out.tendon 0) (out.tendon 1) (out.tendon 2) out.insertion
        object.text).getD object.text =
      (object.edits (motorEdits libc (some out) (some (intResult (appendMotorText libc capacity
        (out.tendon 0) (out.tendon 1) (out.tendon 2) out.insertion object.text))))).text := by
  refine text_appended small (fun text member => appendMotorText_length_le libc member) ?_
  intro text member
  rw [Option.mem_def, appendMotorText, Option.bind_eq_some_iff] at member
  obtain ⟨fields, fits, inserted⟩ := member
  rw [motorFields_rendered numerals (fitting_eq_some_iff.mp fits).1] at inserted
  exact insertText_edit inserted

/-- The joystick values are other numbers of their members, where both are rewritten. -/
theorem reformatText_edits {x y : Double}
    (numerals : ∀ value ∈ [x, y], Renders libc Json.Numeral 8 value)
    {spanX spanY result : List UInt8} (readX : spanAfter joystickXKey object.text = some spanX)
    (readY : spanAfter joystickYKey object.text = some spanY) (filled : spanX ≠ [] ∧ spanY ≠ [])
    (reformatted : reformatText libc capacity x y object.text = some result) :
    result = (object.edits (joystickEdits libc (some (x, y)))).text := by
  obtain ⟨first, replacedX, replacedY, -⟩ := reformatText_eq_some reformatted
  have numeralX := numerals x (by simp)
  have readAfter : spanAfter joystickYKey first = some spanY := by
    rw [spanAfter_replaceText_other (by decide) (by decide) (by decide) numeralX.plain.unquoted
      replacedX]
    exact readY
  obtain rfl := replaceText_edit (watched joystickXKey (by decide)) joystickXKey_ne_nil numeralX
    readX filled.1 replacedX
  exact replaceText_edit (watched joystickYKey (by decide)) joystickYKey_ne_nil
    (numerals y (by simp)) readAfter filled.2 replacedY

variable (object) in
/-- The text after the block `if (have_joystick)`. -/
theorem spliceText_edits (small : capacity ≤ intMax) {joystick : Option (Double × Double)}
    {motor : Option (MotorOut Double)}
    (numeralsJoystick : ∀ value ∈ joystickNumbers joystick, Renders libc Json.Numeral 8 value)
    (numeralsMotor : ∀ value ∈ motorNumbers motor, Renders libc Json.Numeral 6 value)
    (spans : ∀ x y, joystick = some (x, y) →
      (∃ span, span ≠ [] ∧ spanAfter joystickXKey object.text = some span) ∧
        ∃ span, span ≠ [] ∧ spanAfter joystickYKey object.text = some span)
    (reformats : ∀ result ∈ (spliceResults libc capacity joystick motor object.text).1, 0 ≤ result)
    (fits : object.text.length ≤ capacity) :
    spliceText libc capacity joystick motor object.text =
      (object.edits (joystickEdits libc joystick ++ motorEdits libc motor
        (spliceResults libc capacity joystick motor object.text).2)).text := by
  cases joystick with
  | none => cases motor <;> rfl
  | some values =>
    obtain ⟨x, y⟩ := values
    obtain ⟨⟨spanX, filledX, readX⟩, spanY, filledY, readY⟩ := spans x y rfl
    have succeeds : reformatText libc capacity x y object.text ≠ none := by
      intro failed
      have negative := (intResult_neg_iff small fun result reformatted =>
        reformatText_length_le libc fits reformatted).mpr failed
      exact absurd (reformats _ rfl) (not_le.mpr negative)
    obtain ⟨result, reformatted⟩ := Option.ne_none_iff_exists'.mp succeeds
    have edited := reformatText_edits numeralsJoystick readX readY ⟨filledX, filledY⟩ reformatted
    obtain ⟨-, -, -, left⟩ := reformatText_eq_some reformatted
    rw [edited] at left
    unfold spliceText spliceResults
    dsimp only
    rw [left]
    cases motor with
    | none => exact congrArg (fun edits => (object.edits edits).text) (List.append_nil _).symm
    | some out =>
      rw [Json.ObjectTree.edits_append]
      dsimp only [Option.bind_some, Option.map_some]
      rw [left]
      exact motorText_edits small numeralsMotor

/-- The text of a call, from the frame on. -/
theorem publishedText_edits [Sub Double] (small : capacity ≤ intMax)
    {received forward transfer processing corrected : Double}
    {joystick : Option (Double × Double)} {motor : Option (MotorOut Double)} {stamped : List UInt8}
    (readable : TimeReadable object.text)
    (numerals : ∀ value ∈ stampNumbers libc object.text received forward,
      Renders libc Json.Numeral 6 value)
    (publish : PublishRenders libc Json.Numeral corrected joystick motor)
    (times : ∀ pair ∈ stampTimes libc object.text received forward, pair = (transfer, processing))
    (joystickRead : joystick = joystickValues libc object.text)
    (stamp : stampText libc capacity object.text received forward = some stamped)
    (reformats : ∀ result ∈ (spliceResults libc capacity joystick motor
      (correctText libc capacity corrected stamped)).1, 0 ≤ result) :
    publishedText libc capacity corrected joystick motor stamped = (object.edits
      (stampEdit libc object.text received forward processing transfer ::
        (appended (intResult (appendFieldText libc capacity correctedKey corrected stamped))
            [correctedField libc corrected] ++
          (joystickEdits libc joystick ++ motorEdits libc motor
            (spliceResults libc capacity joystick motor
              (correctText libc capacity corrected stamped)).2)))).text := by
  have unquoted := fun value member => (numerals value member).plain.unquoted
  have spans : ∀ x y, joystick = some (x, y) →
      (∃ span, span ≠ [] ∧
        spanAfter joystickXKey (correctText libc capacity corrected stamped) = some span) ∧
      ∃ span, span ≠ [] ∧
        spanAfter joystickYKey (correctText libc capacity corrected stamped) = some span := by
    intro x y values
    rw [spanAfter_correctText capacity (by decide) publish.corrected.plain.unquoted,
      spanAfter_correctText capacity (by decide) publish.corrected.plain.unquoted,
      spanAfter_stampText (by decide) unquoted stamp,
      spanAfter_stampText (by decide) unquoted stamp]
    exact exists_spanAfter_of_joystickValues (joystickRead.symm.trans values)
  have fits : (correctText libc capacity corrected stamped).length ≤ capacity := by
    rw [correctText]
    cases appended : appendFieldText libc capacity correctedKey corrected stamped with
    | none => exact stampText_length_le libc stamp
    | some text => exact appendFieldText_length_le libc appended
  rw [publishedText, Json.ObjectTree.edits, List.foldl_cons, ← Json.ObjectTree.edits,
    Json.ObjectTree.edits_append]
  obtain rfl := stampText_edit readable numerals times stamp
  rw [correctText_edits _ small publish.corrected] at spans reformats fits ⊢
  exact spliceText_edits _ small publish.joystick publish.motor spans reformats fits

end

/-! ### Calls -/

/-- Every number of a call is rendered as a numeral of JSON, and a joystick value within its local
buffer. -/
structure RendersNumerals {Double : Type} [Sub Double] (libc : Libc Double)
    (call : ForwardCall Double) (record : Published Double) : Prop where
  stamp : ∀ value ∈ stampNumbers libc call.handed.frame call.receivedNtpTime call.forwardNtpTime,
    Renders libc Json.Numeral 6 value
  publish : PublishRenders libc Json.Numeral record.correctedTransferTime
    call.handed.forwarded.joystick call.handed.forwarded.motor
  fits : ∀ value ∈ joystickNumbers call.handed.forwarded.joystick,
    ∃ rendering, libc.printf 8 value = some rendering ∧ rendering.length ≤ 31

section

variable {Double Variables : Type} [Add Double] [Sub Double] [Mul Double] [Div Double]
  [Neg Double] [LT Double] [DecidableLT Double] [LE Double] [DecidableLE Double]
  [OfScientific Double] [NatCast Double] [IntCast Double]

variable {platform : Platform Double Variables}

/-- In a frame within the limit both joystick values are rewritten, where they fit. -/
theorem reformatted_of_fits {process process' : Process Double Variables}
    {call : ForwardCall Double} {record : Published Double}
    (run : bridgeServerForward platform process call.handed.frame call.receivedNtpTime
      call.forwardNtpTime = .ok (process', call.handed.forwarded))
    (published : call.handed.forwarded.published = some record)
    (short : call.handed.frame.length ≤ maxControllerFrameLen)
    (fits : ∀ value ∈ joystickNumbers call.handed.forwarded.joystick,
      ∃ rendering, platform.libc.printf 8 value = some rendering ∧ rendering.length ≤ 31) :
    ∀ result ∈ record.reformatted, 0 ≤ result := by
  obtain ⟨-, -, same⟩ | ⟨stamped, payload, n, stamp, -, same, -⟩ :=
    bridgeServerForward_cases platform process call.handed.frame _ _ run
  · rw [same] at published
    cases published
  rw [same, Option.some_inj] at published
  rw [same] at fits
  rw [← published, publishedRecord]
  have lengths : maxControllerFrameLen = 512 ∧ maxBridgedFrameLen = 1024 := ⟨rfl, rfl⟩
  have shortStamped := (stampText_room platform.libc _ _ (by omega)).2 stamped stamp
  have shortCorrected := correctText_length_le platform.libc
    (frameCorrection platform process call.handed.frame call.receivedNtpTime
      call.forwardNtpTime).2
    (show stamped.length + 127 ≤ maxBridgedFrameLen by omega)
  generalize joystickValues platform.libc call.handed.frame = joystick at fits ⊢
  cases joystick with
  | none => rintro _ ⟨⟩
  | some values =>
    obtain ⟨x, y⟩ := values
    have room := shortCorrected.trans (show stamped.length + 127 ≤ maxBridgedFrameLen - 62 by omega)
    obtain ⟨text, reformatted⟩ :=
      exists_reformatText (Nat.add_le_of_le_sub (by omega) room) fits
    rintro _ ⟨⟩
    dsimp only
    rw [reformatted, intResult_some maxBridgedFrameLen_le
      (reformatText_length_le platform.libc (by omega) reformatted)]
    exact Int.natCast_nonneg _

/-- A call publishes the object it is given with the edits of the call. -/
theorem published_edits {process process' : Process Double Variables} {call : ForwardCall Double}
    {record : Published Double} {object : Json.ObjectTree}
    (run : bridgeServerForward platform process call.handed.frame call.receivedNtpTime
      call.forwardNtpTime = .ok (process', call.handed.forwarded))
    (published : call.handed.forwarded.published = some record)
    (short : call.handed.frame.length ≤ maxControllerFrameLen)
    (frame : call.handed.frame = object.text) (readable : TimeReadable object.text)
    (numerals : RendersNumerals platform.libc call record) :
    process'.server.published = (object.edits (callEdits platform.libc call record)).text := by
  have reformats := reformatted_of_fits run published short numerals.fits
  obtain ⟨-, -, same⟩ | ⟨stamped, payload, n, stamp, after, same, holds⟩ :=
    bridgeServerForward_cases platform process call.handed.frame _ _ run
  · rw [same] at published
    cases published
  rw [same, Option.some_inj] at published
  rw [frame] at stamp holds published
  obtain ⟨stampNumerals, publish, -⟩ := numerals
  rw [same, ← published] at publish
  rw [frame] at publish stampNumerals
  rw [← published] at reformats
  have times : ∀ pair ∈ stampTimes platform.libc object.text call.receivedNtpTime
      call.forwardNtpTime, pair =
        ((frameTimes platform object.text call.receivedNtpTime call.forwardNtpTime).1,
          (frameTimes platform object.text call.receivedNtpTime call.forwardNtpTime).2) := by
    intro pair member
    rw [frameTimes, Option.mem_def.mp member, Option.getD_some]
  have text := publishedText_edits maxBridgedFrameLen_le readable stampNumerals publish times rfl
    stamp reformats
  rw [after, callEdits, same, frame, ← published]
  exact holds.reads.trans text

/-- Every payload of a run is the one a call leaves. -/
theorem Runs.published_call {history : List (Event Double × Observation Double)}
    {system : System Double Variables} (runs : Runs platform history system)
    {entry : Event Double × Observation Double} (member : entry ∈ history)
    {call : ForwardCall Double} {record : Published Double}
    (published : publishedFrameOf entry = some (call, record)) :
    ∃ process process', bridgeServerForward platform process call.handed.frame
        call.receivedNtpTime call.forwardNtpTime = .ok (process', call.handed.forwarded) ∧
      call.handed.forwarded.published = some record ∧
      call.handed.frame.length ≤ maxControllerFrameLen ∧
      entry.2.published = some process'.server.published := by
  obtain ⟨call', makes, recorded⟩ := Option.bind_eq_some_iff.mp published
  obtain ⟨record', made, same⟩ := Option.map_eq_some_iff.mp recorded
  cases same
  obtain ⟨_, _, process', -, -, short, run, payload⟩ := runs.exists_entry member makes
  refine ⟨_, process', run, made, short, payload.trans ?_⟩
  rw [Handed.payload, made, Option.map_some]

variable {history : List (Event Double × Observation Double)} {system : System Double Variables}
  (runs : Runs platform history system) {entry : Event Double × Observation Double}
  (member : entry ∈ history) {call : ForwardCall Double} {record : Published Double}
  (published : publishedFrameOf entry = some (call, record)) {object : Json.ObjectTree}
  (frame : call.handed.frame = object.text) (readable : TimeReadable object.text)
  (numerals : RendersNumerals platform.libc call record)

include runs member published frame readable numerals

/-- In every run, a frame that is an object is published as the object with the edits of its call,
if its sent time can be read and its numbers are written as numerals. -/
theorem payload_edits :
    entry.2.published = some (object.edits (callEdits platform.libc call record)).text := by
  obtain ⟨process, process', run, made, short, payload⟩ := runs.published_call member published
  rw [payload, published_edits run made short frame readable numerals]

/-- Every member of such an object that holds no key that is searched for stands in the payload as
it came, in its order, and so does what stands around the object; and whoever reads the payload
reads these members. -/
theorem payload_keeps_members :
    ∃ payload : Json.ObjectTree, entry.2.published = some payload.text ∧
      payload.before = object.before ∧ payload.after = object.after ∧
      (object.members.list.filter (Json.Tree.free searchedKeys)).Sublist payload.members.list ∧
      ∀ members, Json.ObjectOf members payload.text →
        ((object.members.list.filter (Json.Tree.free searchedKeys)).map Json.Tree.pair).Sublist
          members := by
  obtain ⟨process, process', run, made, short, payload⟩ := runs.published_call member published
  have kept : (object.members.list.filter (Json.Tree.free searchedKeys)).Sublist
      (object.edits (callEdits platform.libc call record)).members.list :=
    (object.edits_sublist (keys_of_callEdits _ call record)).trans List.filter_sublist
  refine ⟨object.edits (callEdits platform.libc call record), ?_, (object.edits_around _).1,
    (object.edits_around _).2, kept, fun members read => ?_⟩
  · rw [payload, published_edits run made short frame readable numerals]
  · rw [(Json.ObjectTree.objectOf_iff _ members).mp read]
    exact kept.map _

end

/-- A frame with its sent time in an array, and members that are nothing to the bridge. -/
def loggedFrame : List UInt8 :=
  ascii "\x7b\"id\":[],\"log\":[\x7b\"ntp_time\": 0.5\x7d],\"joystick_x\":1,\"joystick_y\":0\x7d"

theorem loggedFrame_joystick : joystickValues exactLibc loggedFrame = some (1, 0) := by
  decide +kernel

theorem loggedFrame_timeReadable : TimeReadable loggedFrame := by
  have spans : (locateSentTime loggedFrame).map (·.2.span) = some (ascii "0.5") := by
    decide +kernel
  intro key located found
  rw [found, Option.map_some, Option.some_inj] at spans
  rw [spans]
  decide

/-- The process may publish this frame. -/
theorem exists_loggedFrame : ∃ history entry system call record, ∃ object : Json.ObjectTree,
    Runs examplePlatform history system ∧ entry ∈ history ∧
    publishedFrameOf entry = some (call, record) ∧ call.handed.frame = object.text ∧
    object.text = loggedFrame ∧ RendersNumerals exactLibc call record := by
  obtain ⟨history, system, runs, connected, -⟩ := exists_published_run
    exampleSystem_started [] (List.forall_mem_nil _) (List.forall_mem_nil _)
  obtain ⟨event, observation, next, call, record, taken, -, published, frame, joystick, -⟩ :=
    exists_published_step examplePlatform runs.sessionsHold connected
      (show loggedFrame.length ≤ maxControllerFrameLen by decide +kernel)
      (show stampedFrame examplePlatform loggedFrame 1 2 ≠ none by decide +kernel)
  have members : Json.MembersText loggedFrame :=
    Json.membersText_of_run (by decide +kernel) (by decide +kernel) (by decide +kernel)
  obtain ⟨object, text⟩ := Json.membersText_iff.mp members
  have numerals := fun places (positive : 0 < places) value =>
    exactLibc_numerals positive value
  refine ⟨_, _, next, call, record, object, runs.step taken, List.mem_concat_self, published,
    frame.trans text.symm, text, ?_, ⟨?_, ?_, ?_⟩, ?_⟩
  · exact fun value _ => numerals 6 (by decide) value
  · exact numerals 6 (by decide) _
  · exact fun value _ => numerals 8 (by decide) value
  · exact fun value _ => numerals 6 (by decide) value
  · have short : ∀ value ∈ joystickNumbers (joystickValues exactLibc loggedFrame),
        (Decimal.fixed 8 value).length ≤ 31 := by
      rw [loggedFrame_joystick]
      decide +kernel
    rw [joystick]
    exact fun value member => ⟨_, rfl, short value member⟩

theorem loggedFrame_edits : ∃ history entry system call record, ∃ object : Json.ObjectTree,
    Runs examplePlatform history system ∧ entry ∈ history ∧
    publishedFrameOf entry = some (call, record) ∧ object.text = loggedFrame ∧
    entry.2.published = some (object.edits (callEdits exactLibc call record)).text := by
  obtain ⟨history, entry, system, call, record, object, runs, member, published, frame, text,
    numerals⟩ := exists_loggedFrame
  exact ⟨history, entry, system, call, record, object, runs, member, published, text,
    payload_edits runs member published frame (text ▸ loggedFrame_timeReadable) numerals⟩

theorem loggedFrame_keeps_members : ∃ history entry system, ∃ object : Json.ObjectTree,
    Runs examplePlatform history system ∧ entry ∈ history ∧ object.text = loggedFrame ∧
    ∃ payload : Json.ObjectTree, entry.2.published = some payload.text ∧
      payload.before = object.before ∧ payload.after = object.after ∧
      (object.members.list.filter (Json.Tree.free searchedKeys)).Sublist payload.members.list ∧
      ∀ members, Json.ObjectOf members payload.text →
        ((object.members.list.filter (Json.Tree.free searchedKeys)).map Json.Tree.pair).Sublist
          members := by
  obtain ⟨history, entry, system, call, record, object, runs, member, published, frame, text,
    numerals⟩ := exists_loggedFrame
  exact ⟨history, entry, system, object, runs, member, text,
    payload_keeps_members runs member published frame (text ▸ loggedFrame_timeReadable) numerals⟩

end ControllerBridge
