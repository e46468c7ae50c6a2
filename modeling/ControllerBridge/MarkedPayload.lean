/-
This file follows the numbers that a call writes into its payload.

The steps on texts are taken on texts with marks: a rendering is marked where a
step puts it, and so is the sent time that the stamping moves to its new key. The
letters of a marked text are the text that the step makes, so `payloadMarks` is
the payload of a call with the bytes that were written into it.
-/

import ControllerBridge.JsonPayload
import ControllerBridge.Library.Marked

namespace ControllerBridge

open Region Search
open Marked (letters kept written)

/-- A text of the bridge with its written bytes marked. -/
abbrev Marks := Marked.Text UInt8

/-! ### The steps on marked texts -/

/-- The stamped frame: the sent time is moved, and the four times are rendered. -/
def stampedMarks (located : Located) (forward processing transfer received : List UInt8) : Marks :=
  kept located.before ++ kept sentKey ++ written located.span ++ kept newNtpKey ++
    written forward ++ kept processingKey ++ written processing ++ kept transferKey ++
    written transfer ++ kept receivedKey ++ written received ++ kept located.after

theorem letters_stampedMarks (located : Located)
    (forward processing transfer received : List UInt8) :
    letters (stampedMarks located forward processing transfer received) =
      stampedText located forward processing transfer received := by
  simp only [stampedMarks, stampedText, Marked.letters_append, Marked.letters_kept,
    Marked.letters_written]

section

variable {Double : Type} (libc : Libc Double) (capacity : Nat)

def stampMarks [Sub Double] (text : List UInt8) (receivedNtpTime forwardNtpTime : Double) :
    Option Marks :=
  match locateSentTime text with
  | none => Marked.within capacity (kept text)
  | some (_, located) => do
    let forward ← fitting 32 (libc.printf 6 forwardNtpTime)
    let received ← fitting 32 (libc.printf 6 receivedNtpTime)
    let processing ← fitting 32 (libc.printf 6 (forwardNtpTime - receivedNtpTime))
    let transfer ←
      fitting 32 (libc.printf 6 (receivedNtpTime - readSpan libc located.span))
    Marked.within capacity (stampedMarks located forward processing transfer received)

/-- Fields inserted before the last closing brace. -/
def insertMarks (fields text : Marks) : Option Marks :=
  (cutLast closingBrace (letters text)).bind fun pieces =>
    Marked.within capacity (Marked.splice pieces.1.length 0 fields text)

def fieldMarks (key : List UInt8) (value : Double) : Option Marks := do
  let value ← libc.printf 6 value
  some (kept (ascii ",\"" ++ key ++ ascii "\":") ++ written value)

def motorMarks (m1 m2 m3 m4 : Double) : Option Marks := do
  let m1 ← libc.printf 6 m1
  let m2 ← libc.printf 6 m2
  let m3 ← libc.printf 6 m3
  let m4 ← libc.printf 6 m4
  some (kept (ascii ",\"motor_1_pos\":") ++ written m1 ++
    kept (ascii ",\"motor_2_pos\":") ++ written m2 ++
    kept (ascii ",\"motor_3_pos\":") ++ written m3 ++
    kept (ascii ",\"motor_4_insertion_pos\":") ++ written m4)

def appendFieldMarks (key : List UInt8) (value : Double) (text : Marks) : Option Marks :=
  ((fieldMarks libc key value).filter fun field => field.length < 128).bind fun field =>
    insertMarks capacity field text

def appendMotorMarks (m1 m2 m3 m4 : Double) (text : Marks) : Option Marks :=
  ((motorMarks libc m1 m2 m3 m4).filter fun fields => fields.length < 192).bind fun fields =>
    insertMarks capacity fields text

/-- The value after a key rewritten, unless the text is without the key. -/
def replaceMarks (key : List UInt8) (value : Double) (text : Marks) : Option Marks :=
  match locate key (letters text) with
  | none => some text
  | some located => do
    let rendering ← fitting 32 (libc.printf 8 value)
    Marked.within capacity (Marked.splice (located.before ++ key ++ located.blanks).length
      located.span.length (written rendering) text)

/-- `new` written over the start of `old`, and cut to the length of `old`. -/
def overwriteMarks (new old : Marks) : Marks := (new ++ old.drop new.length).take old.length

def reformatMarks (joystickX joystickY : Double) (text : Marks) : Marks :=
  match replaceMarks libc capacity joystickXKey joystickX text with
  | none => text
  | some first =>
    (replaceMarks libc capacity joystickYKey joystickY first).getD (overwriteMarks first text)

def spliceMarks (joystick : Option (Double × Double)) (motor : Option (MotorOut Double))
    (text : Marks) : Marks :=
  match joystick with
  | none => text
  | some (x, y) =>
    let reformatted := reformatMarks libc capacity x y text
    match motor with
    | none => reformatted
    | some out =>
      (appendMotorMarks libc capacity (out.tendon 0) (out.tendon 1) (out.tendon 2) out.insertion
        reformatted).getD reformatted

def correctMarks (corrected : Double) (text : Marks) : Marks :=
  (appendFieldMarks libc capacity correctedKey corrected text).getD text

/-- The payload a call publishes. -/
def payloadMarks [Sub Double] (call : ForwardCall Double) : Option Marks :=
  call.handed.forwarded.published.bind fun record =>
    (stampMarks libc maxBridgedFrameLen call.handed.frame call.receivedNtpTime
      call.forwardNtpTime).map fun stamped =>
        spliceMarks libc maxBridgedFrameLen call.handed.forwarded.joystick
          call.handed.forwarded.motor
          (correctMarks libc maxBridgedFrameLen record.correctedTransferTime stamped)

end

/-! ### Their letters -/

section

variable {Double : Type} (libc : Libc Double) {capacity : Nat}

theorem map_letters_within (text : Marks) :
    (Marked.within capacity text).map letters = within capacity (letters text) := by
  rw [Marked.within, within, Marked.length_letters]
  split <;> rfl

theorem map_letters_stampMarks [Sub Double] (text : List UInt8)
    (receivedNtpTime forwardNtpTime : Double) :
    (stampMarks libc capacity text receivedNtpTime forwardNtpTime).map letters =
      stampText libc capacity text receivedNtpTime forwardNtpTime := by
  rw [stampMarks, stampText]
  cases locateSentTime text with
  | none => rw [map_letters_within, Marked.letters_kept]
  | some found =>
    simp only [Option.bind_eq_bind, Option.map_bind, Function.comp_def, map_letters_within,
      letters_stampedMarks]

theorem exists_stampMarks [Sub Double] {text stamped : List UInt8} {received forward : Double}
    (stamp : stampText libc capacity text received forward = some stamped) :
    ∃ marks, stampMarks libc capacity text received forward = some marks ∧
      letters marks = stamped :=
  Option.map_eq_some_iff.mp ((map_letters_stampMarks libc text received forward).trans stamp)

theorem map_letters_insertMarks (fields text : Marks) :
    (insertMarks capacity fields text).map letters =
      insertText capacity (letters fields) (letters text) := by
  rw [insertMarks, insertText, Option.map_bind]
  cases found : cutLast closingBrace (letters text) with
  | none => rfl
  | some pieces =>
    have split : letters text = pieces.1 ++ [] ++ closingBrace :: pieces.2 := by
      rw [List.append_nil]
      exact (cutLast_eq_some_iff.mp found).split
    rw [Option.bind_some, Option.bind_some, Function.comp_apply, map_letters_within,
      ← Marked.letters_splice split, List.length_nil]

theorem map_letters_fieldMarks (key : List UInt8) (value : Double) :
    (fieldMarks libc key value).map letters = fieldText libc key value := by
  simp only [fieldMarks, fieldText, Option.bind_eq_bind, Option.map_bind, Function.comp_def,
    Option.map_some, Marked.letters_append, Marked.letters_kept, Marked.letters_written]

theorem map_letters_motorMarks (m1 m2 m3 m4 : Double) :
    (motorMarks libc m1 m2 m3 m4).map letters = motorFields libc m1 m2 m3 m4 := by
  simp only [motorMarks, motorFields, Option.bind_eq_bind, Option.map_bind, Function.comp_def,
    Option.map_some, Marked.letters_append, Marked.letters_kept, Marked.letters_written]

/-- Fields whose letters fit their local buffer are inserted. -/
theorem map_letters_insertFitting {size : Nat} {fields : Option Marks} {bytes : Option (List UInt8)}
    (same : fields.map letters = bytes) (text : Marks) :
    ((fields.filter fun field => field.length < size).bind fun field =>
        insertMarks capacity field text).map letters =
      (fitting size bytes).bind fun field => insertText capacity field (letters text) := by
  subst same
  cases fields with
  | none => rfl
  | some field =>
    rw [fitting, Option.map_some, Option.filter_some, Option.filter_some, Marked.length_letters]
    split
    · exact map_letters_insertMarks field text
    · rfl

theorem map_letters_appendFieldMarks (key : List UInt8) (value : Double) (text : Marks) :
    (appendFieldMarks libc capacity key value text).map letters =
      appendFieldText libc capacity key value (letters text) :=
  map_letters_insertFitting (map_letters_fieldMarks libc key value) text

theorem map_letters_appendMotorMarks (m1 m2 m3 m4 : Double) (text : Marks) :
    (appendMotorMarks libc capacity m1 m2 m3 m4 text).map letters =
      appendMotorText libc capacity m1 m2 m3 m4 (letters text) :=
  map_letters_insertFitting (map_letters_motorMarks libc m1 m2 m3 m4) text

theorem map_letters_replaceMarks {key : List UInt8} (nonempty : key ≠ []) (value : Double)
    (text : Marks) :
    (replaceMarks libc capacity key value text).map letters =
      replaceText libc capacity key value (letters text) := by
  rw [replaceMarks, replaceText]
  cases found : locate key (letters text) with
  | none => rfl
  | some located =>
    have split := ((locate_eq_some_iff nonempty).mp found).text_eq
    simp only [Option.bind_eq_bind, Option.map_bind, Function.comp_def, map_letters_within,
      Marked.letters_splice split, Marked.letters_written]

theorem letters_overwriteMarks (new old : Marks) :
    letters (overwriteMarks new old) = overwrite (letters new) (letters old) := by
  rw [overwriteMarks, overwrite, letters, List.map_take, List.map_append, List.map_drop,
    Marked.length_letters, Marked.length_letters]
  rfl

theorem letters_getD {result : Option Marks} {bytes : Option (List UInt8)}
    (same : result.map letters = bytes) (text : Marks) :
    letters (result.getD text) = bytes.getD (letters text) := by
  subst same
  cases result <;> rfl

theorem letters_reformatMarks (x y : Double) (text : Marks) :
    letters (reformatMarks libc capacity x y text) =
      reformatLeft libc capacity x y (letters text) := by
  rw [reformatMarks, reformatLeft, ← map_letters_replaceMarks libc joystickXKey_ne_nil]
  cases replaceMarks libc capacity joystickXKey x text with
  | none => rfl
  | some first =>
    rw [Option.map_some, letters_getD (map_letters_replaceMarks libc joystickYKey_ne_nil y first),
      letters_overwriteMarks]

theorem letters_spliceMarks (joystick : Option (Double × Double))
    (motor : Option (MotorOut Double)) (text : Marks) :
    letters (spliceMarks libc capacity joystick motor text) =
      spliceText libc capacity joystick motor (letters text) := by
  cases joystick with
  | none => rfl
  | some values =>
    cases motor with
    | none => exact letters_reformatMarks libc _ _ text
    | some out =>
      rw [spliceMarks, spliceText, ← letters_reformatMarks]
      exact letters_getD (map_letters_appendMotorMarks libc _ _ _ _ _) _

variable (capacity) in
theorem letters_correctMarks (corrected : Double) (text : Marks) :
    letters (correctMarks libc capacity corrected text) =
      correctText libc capacity corrected (letters text) :=
  letters_getD (map_letters_appendFieldMarks libc _ _ text) text

end

/-! ### The edits -/

/-- Words of JSON numbers, and of bytes that may be in one. -/
abbrev NumbersAllowed (allowed : List UInt8 → Prop) (text : Marks) : Prop :=
  Marked.WordsAllowed Json.isNumberByte allowed text

/-- A name that no number runs into, on either side. -/
def delimits (name : List UInt8) : Bool :=
  (name.head?.any fun byte => !Json.isNumberByte byte) &&
    name.getLast?.any fun byte => !Json.isNumberByte byte

theorem delimits_iff {name : List UInt8} : delimits name = true ↔ name ≠ [] ∧
    Marked.Begins Json.isNumberByte (kept name) ∧ Marked.Ends Json.isNumberByte (kept name) := by
  rw [Marked.begins_iff, Marked.ends_iff, Marked.letters_kept, delimits]
  cases name with
  | nil => simp
  | cons byte name =>
    rw [List.getLast?_eq_some_getLast (List.cons_ne_nil _ _)]
    simp

section

variable {Double : Type} {libc : Libc Double} {capacity : Nat}

/-- Fields are inserted between two pieces of the text, before the closing brace. -/
theorem insertMarks_eq_some {fields text result : Marks}
    (inserted : insertMarks capacity fields text = some result) :
    ∃ front back, text = front ++ back ∧ Marked.Begins Json.isNumberByte back ∧
      result = front ++ fields ++ back := by
  rw [insertMarks, Option.bind_eq_some_iff] at inserted
  obtain ⟨pieces, found, fits⟩ := inserted
  obtain ⟨rfl, -⟩ := Marked.within_eq_some_iff.mp fits
  have split : letters text = pieces.1 ++ [] ++ closingBrace :: pieces.2 := by
    rw [List.append_nil]
    exact (cutLast_eq_some_iff.mp found).split
  obtain ⟨front, old, back, rfl, isFront, isOld, isBack⟩ := Marked.exists_pieces split
  obtain rfl : old = [] := List.map_eq_nil_iff.mp isOld
  refine ⟨front, back, by rw [List.append_nil], ?_, ?_⟩
  · rw [Marked.begins_iff, isBack]
    rintro _ ⟨⟩
    decide
  · refine Marked.splice_append fields back ?_ rfl
    rw [← isFront, Marked.length_letters]

/-- A rewrite replaces the span after the key, which no number runs into, by the rendering. -/
theorem replaceMarks_eq_some {key : List UInt8} (name : delimits key = true) {value : Double}
    {text result : Marks} (replaced : replaceMarks libc capacity key value text = some result) :
    spanAfter key (letters text) = none ∧ result = text ∨
    ∃ front old back rendering, text = front ++ old ++ back ∧
      spanAfter key (letters text) = some (letters old) ∧
      Marked.Ends Json.isNumberByte front ∧ Marked.Begins Json.isNumberByte back ∧
      fitting 32 (libc.printf 8 value) = some rendering ∧
      result = front ++ written rendering ++ back := by
  obtain ⟨nonempty, -, ends⟩ := delimits_iff.mp name
  rw [replaceMarks] at replaced
  cases found : locate key (letters text) with
  | none =>
    rw [found] at replaced
    cases replaced
    exact Or.inl ⟨by rw [spanAfter, found]; rfl, rfl⟩
  | some located =>
    have reads := (locate_eq_some_iff nonempty).mp found
    rw [found] at replaced
    simp only [Option.bind_eq_bind, Option.bind_eq_some_iff] at replaced
    obtain ⟨rendering, fits, kept⟩ := replaced
    obtain ⟨rfl, -⟩ := Marked.within_eq_some_iff.mp kept
    obtain ⟨front, old, back, rfl, isFront, isOld, isBack⟩ := Marked.exists_pieces reads.text_eq
    refine Or.inr ⟨front, old, back, rendering, rfl, ?_, ?_, ?_, fits, ?_⟩
    · rw [spanAfter, found, Option.map_some, isOld]
    · rw [Marked.ends_iff, isFront]
      by_cases empty : located.blanks = []
      · rw [empty, List.append_nil, List.getLast?_append_of_ne_nil _ nonempty]
        rwa [Marked.ends_iff, Marked.letters_kept] at ends
      · rw [List.getLast?_append_of_ne_nil _ empty]
        intro last member
        have space := isWs_of_isBlank (reads.blanks last (List.mem_of_getLast? member))
        by_contra number
        have other := Json.isDelimiter_of_isNumberByte ((Bool.not_eq_false _).mp number)
        rw [Json.isDelimiter, space] at other
        cases other
    · rw [Marked.begins_iff, isBack]
      exact fun head member => isNumeric_eq_isNumberByte head ▸ reads.stops head member
    · rw [← isFront, ← isOld, Marked.length_letters, Marked.length_letters]
      exact Marked.splice_append _ back rfl rfl

/-- A value that is rewritten fits its local buffer, if its key is there. -/
theorem fitting_of_replaceMarks {key : List UInt8} (name : delimits key = true) {value : Double}
    {text : Marks} (present : spanAfter key (letters text) ≠ none)
    (replaced : replaceMarks libc capacity key value text ≠ none) :
    fitting 32 (libc.printf 8 value) ≠ none := by
  obtain ⟨result, replaced⟩ := Option.ne_none_iff_exists'.mp replaced
  obtain ⟨absent, -⟩ | ⟨_, _, _, rendering, -, -, -, -, fits, -⟩ :=
    replaceMarks_eq_some name replaced
  · exact absurd absent present
  · exact fits ▸ Option.some_ne_none _

/-- The span after a key is of number bytes. -/
theorem isNumberByte_of_spanAfter {key text span : List UInt8} (nonempty : key ≠ [])
    (read : spanAfter key text = some span) : ∀ byte ∈ span, Json.isNumberByte byte = true := by
  obtain ⟨located, found, rfl⟩ := Option.map_eq_some_iff.mp read
  intro byte member
  rw [← isNumeric_eq_isNumberByte]
  exact ((locate_eq_some_iff nonempty).mp found).span byte member

end

/-! ### Numbers stay numbers -/

section

variable {Double : Type} {libc : Libc Double} {capacity : Nat} {allowed : List UInt8 → Prop}
  (numeric : ∀ word, allowed word → ∀ byte ∈ word, Json.isNumberByte byte = true)

include numeric

/-- A name and an allowed value after it. -/
theorem numbersAllowed_field {text : Marks} (isText : NumbersAllowed allowed text)
    (name : List UInt8) (isName : delimits name = true) {value : List UInt8}
    (isValue : allowed value) : NumbersAllowed allowed (text ++ kept name ++ written value) := by
  obtain ⟨nonempty, begins, ends⟩ := delimits_iff.mp isName
  have named := isText.append (Marked.wordsAllowed_kept name) (Or.inr begins)
  refine named.append (Marked.wordsAllowed_written (numeric value isValue) isValue) (Or.inl ?_)
  exact (Marked.ends_append (mt List.map_eq_nil_iff.mp nonempty)).mpr ends

theorem numbersAllowed_stampedMarks {key text : List UInt8} {located : Located}
    (reads : Reads key text located) {forward processing transfer received : List UInt8}
    (isSpan : allowed located.span)
    (are : ∀ rendering ∈ [forward, processing, transfer, received], allowed rendering) :
    NumbersAllowed allowed (stampedMarks located forward processing transfer received) := by
  simp only [List.forall_mem_cons] at are
  obtain ⟨isForward, isProcessing, isTransfer, isReceived, -⟩ := are
  have begun : NumbersAllowed allowed (kept located.before) := Marked.wordsAllowed_kept _
  have sent := numbersAllowed_field numeric begun sentKey (by decide) isSpan
  have forwarded := numbersAllowed_field numeric sent newNtpKey (by decide) isForward
  have processed := numbersAllowed_field numeric forwarded processingKey (by decide) isProcessing
  have transferred := numbersAllowed_field numeric processed transferKey (by decide) isTransfer
  have whole := numbersAllowed_field numeric transferred receivedKey (by decide) isReceived
  refine whole.append (Marked.wordsAllowed_kept located.after) (Or.inr ?_)
  rw [Marked.begins_iff, Marked.letters_kept]
  exact fun head member => isNumeric_eq_isNumberByte head ▸ reads.stops head member

theorem numbersAllowed_stampMarks [Sub Double] {text : List UInt8} {received forward : Double}
    (isSpan : ∀ key located, locateSentTime text = some (key, located) → allowed located.span)
    (render : ∀ value ∈ stampNumbers libc text received forward, Renders libc allowed 6 value)
    {stamped : Marks} (stamp : stampMarks libc capacity text received forward = some stamped) :
    NumbersAllowed allowed stamped := by
  rw [stampMarks] at stamp
  cases found : locateSentTime text with
  | none =>
    rw [found] at stamp
    obtain ⟨rfl, -⟩ := Marked.within_eq_some_iff.mp stamp
    exact Marked.wordsAllowed_kept text
  | some pair =>
    obtain ⟨key, located⟩ := pair
    rw [found] at stamp
    rw [stampNumbers, stampTimes, found] at render
    simp only [Option.bind_eq_bind, Option.bind_eq_some_iff, fitting_eq_some_iff,
      Marked.within_eq_some_iff] at stamp
    obtain ⟨_, ⟨printed1, -⟩, _, ⟨printed2, -⟩, _, ⟨printed3, -⟩, _, ⟨printed4, -⟩, rfl, -⟩ :=
      stamp
    refine numbersAllowed_stampedMarks numeric (reads_of_locateSentTime found)
      (isSpan key located found) ?_
    simp only [List.forall_mem_cons]
    exact ⟨render _ (by simp) _ printed1, render _ (by simp) _ printed3,
      render _ (by simp) _ printed4, render _ (by simp) _ printed2, by simp⟩

/-- Allowed fields that begin with a comma. -/
structure FieldsAllowed (allowed : List UInt8 → Prop) (fields : Marks) : Prop where
  nonempty : fields ≠ []
  begins : Marked.Begins Json.isNumberByte fields
  allowed : NumbersAllowed allowed fields

theorem FieldsAllowed.field {fields : Marks} (isFields : FieldsAllowed allowed fields)
    (name : List UInt8) (isName : delimits name = true) {value : Double}
    (render : Renders libc allowed 6 value) {rendering : List UInt8}
    (printed : libc.printf 6 value = some rendering) :
    FieldsAllowed allowed (fields ++ kept name ++ written rendering) := by
  refine ⟨?_, ?_, numbersAllowed_field numeric isFields.allowed name isName (render _ printed)⟩
  · rw [List.append_assoc]
    exact List.append_ne_nil_of_left_ne_nil isFields.nonempty _
  · rw [List.append_assoc]
    exact (Marked.begins_append isFields.nonempty).mpr isFields.begins

theorem fieldsAllowed_first (name : List UInt8) (isName : delimits name = true) {value : Double}
    (render : Renders libc allowed 6 value) {rendering : List UInt8}
    (printed : libc.printf 6 value = some rendering) :
    FieldsAllowed allowed (kept name ++ written rendering) := by
  have nonempty : kept name ≠ [] := mt List.map_eq_nil_iff.mp (delimits_iff.mp isName).1
  refine ⟨List.append_ne_nil_of_left_ne_nil nonempty _, ?_, ?_⟩
  · exact (Marked.begins_append nonempty).mpr (delimits_iff.mp isName).2.1
  · exact numbersAllowed_field numeric (Marked.wordsAllowed_kept []) name isName
      (render _ printed)

theorem fieldsAllowed_fieldMarks {value : Double} (render : Renders libc allowed 6 value)
    {field : Marks} (rendered : fieldMarks libc correctedKey value = some field) :
    FieldsAllowed allowed field := by
  simp only [fieldMarks, Option.bind_eq_bind, Option.bind_eq_some_iff, Option.some_inj] at rendered
  obtain ⟨rendering, printed, rfl⟩ := rendered
  exact fieldsAllowed_first numeric _ (by decide) render printed

theorem fieldsAllowed_motorMarks {m1 m2 m3 m4 : Double}
    (render : ∀ value ∈ [m1, m2, m3, m4], Renders libc allowed 6 value) {fields : Marks}
    (rendered : motorMarks libc m1 m2 m3 m4 = some fields) : FieldsAllowed allowed fields := by
  simp only [motorMarks, Option.bind_eq_bind, Option.bind_eq_some_iff, Option.some_inj] at rendered
  obtain ⟨_, printed1, _, printed2, _, printed3, _, printed4, rfl⟩ := rendered
  have first := fieldsAllowed_first numeric (ascii ",\"motor_1_pos\":") (by decide)
    (render m1 (by simp)) printed1
  have second := first.field numeric (ascii ",\"motor_2_pos\":") (by decide)
    (render m2 (by simp)) printed2
  have third := second.field numeric (ascii ",\"motor_3_pos\":") (by decide)
    (render m3 (by simp)) printed3
  exact third.field numeric (ascii ",\"motor_4_insertion_pos\":") (by decide)
    (render m4 (by simp)) printed4

omit numeric in
theorem numbersAllowed_insertMarks {fields text result : Marks}
    (isText : NumbersAllowed allowed text) (isFields : FieldsAllowed allowed fields)
    (inserted : insertMarks capacity fields text = some result) :
    NumbersAllowed allowed result := by
  obtain ⟨front, back, rfl, begins, rfl⟩ := insertMarks_eq_some inserted
  rw [← List.append_nil front] at isText
  exact isText.replace isFields.allowed
    (Or.inr ⟨begins, (Marked.begins_append isFields.nonempty).mpr isFields.begins⟩) begins

theorem numbersAllowed_correctMarks {text : Marks} (isText : NumbersAllowed allowed text)
    {corrected : Double} (render : Renders libc allowed 6 corrected) :
    NumbersAllowed allowed (correctMarks libc capacity corrected text) := by
  rw [correctMarks]
  cases appended : appendFieldMarks libc capacity correctedKey corrected text with
  | none => exact isText
  | some result =>
    rw [appendFieldMarks, Option.bind_eq_some_iff] at appended
    obtain ⟨field, fits, inserted⟩ := appended
    have rendered := (Option.filter_eq_some_iff.mp fits).1
    exact numbersAllowed_insertMarks isText (fieldsAllowed_fieldMarks numeric render rendered)
      inserted

theorem numbersAllowed_motor {text : Marks} (isText : NumbersAllowed allowed text)
    {m1 m2 m3 m4 : Double} (render : ∀ value ∈ [m1, m2, m3, m4], Renders libc allowed 6 value) :
    NumbersAllowed allowed ((appendMotorMarks libc capacity m1 m2 m3 m4 text).getD text) := by
  cases appended : appendMotorMarks libc capacity m1 m2 m3 m4 text with
  | none => exact isText
  | some result =>
    rw [appendMotorMarks, Option.bind_eq_some_iff] at appended
    obtain ⟨fields, fits, inserted⟩ := appended
    have rendered := (Option.filter_eq_some_iff.mp fits).1
    exact numbersAllowed_insertMarks isText (fieldsAllowed_motorMarks numeric render rendered)
      inserted

theorem numbersAllowed_replaceMarks {key : List UInt8} (name : delimits key = true) {text : Marks}
    (isText : NumbersAllowed allowed text) {value : Double} (render : Renders libc allowed 8 value)
    {result : Marks} (replaced : replaceMarks libc capacity key value text = some result) :
    NumbersAllowed allowed result := by
  obtain ⟨-, rfl⟩ | ⟨front, old, back, rendering, rfl, -, ends, begins, fits, rfl⟩ :=
    replaceMarks_eq_some name replaced
  · exact isText
  · have isRendering := render rendering (fitting_eq_some_iff.mp fits).1
    exact isText.replace (Marked.wordsAllowed_written (numeric _ isRendering) isRendering)
      (Or.inl ends) begins

end

/-- The rewriting of the joystick values does not leave the first one alone with another length. -/
def Untorn {Double : Type} (libc : Libc Double) (capacity : Nat) (joystickX joystickY : Double)
    (text : Marks) : Prop :=
  ∀ first ∈ replaceMarks libc capacity joystickXKey joystickX text,
    replaceMarks libc capacity joystickYKey joystickY first = none → first.length = text.length

section

variable {Double : Type} {libc : Libc Double} {capacity : Nat}

theorem reformatMarks_of_both {x y : Double} {text first second : Marks}
    (replacedX : replaceMarks libc capacity joystickXKey x text = some first)
    (replacedY : replaceMarks libc capacity joystickYKey y first = some second) :
    reformatMarks libc capacity x y text = second := by
  rw [reformatMarks, replacedX]
  dsimp only
  rw [replacedY, Option.getD_some]

/-- Then the text is without the first rewrite, has it or has both. -/
theorem reformatMarks_cases {x y : Double} {text : Marks} (untorn : Untorn libc capacity x y text) :
    (replaceMarks libc capacity joystickXKey x text = none ∧
      reformatMarks libc capacity x y text = text) ∨
    ∃ first, replaceMarks libc capacity joystickXKey x text = some first ∧
      (reformatMarks libc capacity x y text = first ∨
        replaceMarks libc capacity joystickYKey y first =
          some (reformatMarks libc capacity x y text)) := by
  rw [reformatMarks]
  cases replacedX : replaceMarks libc capacity joystickXKey x text with
  | none => exact Or.inl ⟨rfl, rfl⟩
  | some first =>
    refine Or.inr ⟨first, rfl, ?_⟩
    dsimp only
    cases replacedY : replaceMarks libc capacity joystickYKey y first with
    | none =>
      left
      rw [Option.getD_none, overwriteMarks, ← untorn first replacedX replacedY,
        List.take_left]
    | some second => exact Or.inr rfl

theorem numbersAllowed_reformatMarks {allowed : List UInt8 → Prop}
    (numeric : ∀ word, allowed word → ∀ byte ∈ word, Json.isNumberByte byte = true)
    {x y : Double} {text : Marks} (isText : NumbersAllowed allowed text)
    (untorn : Untorn libc capacity x y text) (renderX : Renders libc allowed 8 x)
    (renderY : replaceMarks libc capacity joystickXKey x text ≠ none → Renders libc allowed 8 y) :
    NumbersAllowed allowed (reformatMarks libc capacity x y text) := by
  obtain ⟨-, same⟩ | ⟨first, replacedX, left⟩ := reformatMarks_cases untorn
  · rwa [same]
  have isFirst := numbersAllowed_replaceMarks numeric (by decide) isText renderX replacedX
  obtain same | replacedY := left
  · rwa [same]
  · have renders := renderY (replacedX ▸ Option.some_ne_none first)
    exact numbersAllowed_replaceMarks numeric (by decide) isFirst renders replacedY

/-! ### Written bytes that are in no number -/

variable {byte : UInt8} {text : Marks}

theorem mem_insertMarks (member : (byte, true) ∈ text) {fields result : Marks}
    (inserted : insertMarks capacity fields text = some result) : (byte, true) ∈ result := by
  obtain ⟨front, back, rfl, -, rfl⟩ := insertMarks_eq_some inserted
  simp only [List.mem_append] at member ⊢
  exact member.imp Or.inl id

theorem mem_insertFitting {size : Nat} (member : (byte, true) ∈ text) (fields : Option Marks) :
    (byte, true) ∈ ((fields.filter fun field => field.length < size).bind fun field =>
      insertMarks capacity field text).getD text := by
  cases inserted : (fields.filter fun field => field.length < size).bind fun field =>
      insertMarks capacity field text with
  | none => exact member
  | some result =>
    obtain ⟨field, -, whole⟩ := Option.bind_eq_some_iff.mp inserted
    exact mem_insertMarks member whole

theorem mem_correctMarks (member : (byte, true) ∈ text) (corrected : Double) :
    (byte, true) ∈ correctMarks libc capacity corrected text := mem_insertFitting member _

theorem mem_replaceMarks (outside : Json.isNumberByte byte = false) {key : List UInt8}
    (name : delimits key = true) (member : (byte, true) ∈ text) {value : Double} {result : Marks}
    (replaced : replaceMarks libc capacity key value text = some result) :
    (byte, true) ∈ result := by
  obtain ⟨-, rfl⟩ | ⟨front, old, back, rendering, rfl, read, -, -, -, rfl⟩ :=
    replaceMarks_eq_some name replaced
  · exact member
  · exact Marked.mem_replace member outside
      (isNumberByte_of_spanAfter (delimits_iff.mp name).1 read) _

/-- The bytes of a rendering that the stamping puts there. -/
theorem mem_stampMarks [Sub Double] {raw : List UInt8} {received forward value : Double}
    (member : value ∈ stampNumbers libc raw received forward) {rendering : List UInt8}
    (printed : libc.printf 6 value = some rendering) (inside : byte ∈ rendering) {stamped : Marks}
    (stamp : stampMarks libc capacity raw received forward = some stamped) :
    (byte, true) ∈ stamped := by
  rw [stampMarks] at stamp
  rw [stampNumbers, stampTimes] at member
  cases found : locateSentTime raw with
  | none =>
    rw [found] at member
    cases member
  | some pair =>
    rw [found] at stamp member
    simp only [Option.bind_eq_bind, Option.bind_eq_some_iff, fitting_eq_some_iff,
      Marked.within_eq_some_iff] at stamp
    obtain ⟨_, ⟨printed1, -⟩, _, ⟨printed2, -⟩, _, ⟨printed3, -⟩, _, ⟨printed4, -⟩, rfl, -⟩ :=
      stamp
    have marked := Marked.mem_written inside
    simp only [Option.map_some, List.mem_cons, List.not_mem_nil, or_false] at member
    rcases member with rfl | rfl | rfl | rfl
    · obtain rfl := Option.some_inj.mp (printed.symm.trans printed1)
      simp [stampedMarks, marked]
    · obtain rfl := Option.some_inj.mp (printed.symm.trans printed2)
      simp [stampedMarks, marked]
    · obtain rfl := Option.some_inj.mp (printed.symm.trans printed3)
      simp [stampedMarks, marked]
    · obtain rfl := Option.some_inj.mp (printed.symm.trans printed4)
      simp [stampedMarks, marked]

/-- The bytes of a rendering that is rewritten after a key. -/
theorem mem_replaceMarks_self {key : List UInt8} (name : delimits key = true)
    (present : spanAfter key (letters text) ≠ none) {value : Double} {rendering : List UInt8}
    (printed : libc.printf 8 value = some rendering) (inside : byte ∈ rendering) {result : Marks}
    (replaced : replaceMarks libc capacity key value text = some result) :
    (byte, true) ∈ result := by
  obtain ⟨absent, -⟩ | ⟨front, old, back, rendering', rfl, -, -, -, fits, rfl⟩ :=
    replaceMarks_eq_some name replaced
  · exact absurd absent present
  · obtain rfl := Option.some_inj.mp (printed.symm.trans (fitting_eq_some_iff.mp fits).1)
    exact List.mem_append_left _ (List.mem_append_right _ (Marked.mem_written inside))

/-- What the first rewrite leaves is left after both. -/
theorem mem_reformatMarks_of_first (outside : Json.isNumberByte byte = false) {x y : Double}
    (untorn : Untorn libc capacity x y text) {first : Marks}
    (replacedX : replaceMarks libc capacity joystickXKey x text = some first)
    (member : (byte, true) ∈ first) : (byte, true) ∈ reformatMarks libc capacity x y text := by
  obtain ⟨failed, -⟩ | ⟨first', replacedX', left⟩ := reformatMarks_cases untorn
  · exact absurd (replacedX.symm.trans failed) (Option.some_ne_none _)
  · obtain rfl := Option.some_inj.mp (replacedX.symm.trans replacedX')
    obtain same | replacedY := left
    · rwa [same]
    · exact mem_replaceMarks outside (by decide) member replacedY

theorem mem_reformatMarks (outside : Json.isNumberByte byte = false) {x y : Double}
    (untorn : Untorn libc capacity x y text) (member : (byte, true) ∈ text) :
    (byte, true) ∈ reformatMarks libc capacity x y text := by
  obtain ⟨-, same⟩ | ⟨first, replacedX, -⟩ := reformatMarks_cases untorn
  · rwa [same]
  · exact mem_reformatMarks_of_first outside untorn replacedX
      (mem_replaceMarks outside (by decide) member replacedX)

/-- The motor fields keep them. -/
theorem mem_spliceMarks_of_reformatMarks {x y : Double} (motor : Option (MotorOut Double))
    (member : (byte, true) ∈ reformatMarks libc capacity x y text) :
    (byte, true) ∈ spliceMarks libc capacity (some (x, y)) motor text := by
  cases motor with
  | none => exact member
  | some out => exact mem_insertFitting member _

theorem mem_spliceMarks (outside : Json.isNumberByte byte = false)
    {joystick : Option (Double × Double)} (motor : Option (MotorOut Double))
    (untorn : ∀ x y, joystick = some (x, y) → Untorn libc capacity x y text)
    (member : (byte, true) ∈ text) :
    (byte, true) ∈ spliceMarks libc capacity joystick motor text := by
  cases joystick with
  | none => exact member
  | some values =>
    obtain ⟨x, y⟩ := values
    exact mem_spliceMarks_of_reformatMarks motor
      (mem_reformatMarks outside (untorn x y rfl) member)

end

/-! ### The payload of a call -/

section

variable {Double Variables : Type} [Add Double] [Sub Double] [Mul Double] [Div Double]
  [Neg Double] [LT Double] [DecidableLT Double] [LE Double] [DecidableLE Double]
  [OfScientific Double] [NatCast Double] [IntCast Double]
  {platform : Platform Double Variables} {process process' : Process Double Variables}
  {frame : List UInt8} {received forward : Double} {forwarded : Forwarded Double}

/-- The marked payload of a call that stamps its frame. -/
theorem payloadMarks_eq {stamped : List UInt8} {marks : Marks}
    (run : bridgeServerForward platform process frame received forward = .ok (process', forwarded))
    (stamp : stampedFrame platform frame received forward = some stamped)
    (marked : stampMarks platform.libc maxBridgedFrameLen frame received forward = some marks) :
    payloadMarks platform.libc ⟨received, forward, ⟨frame, forwarded⟩⟩ =
      some (spliceMarks platform.libc maxBridgedFrameLen (joystickValues platform.libc frame)
        (frameInference platform process frame).2
        (correctMarks platform.libc maxBridgedFrameLen
          (frameCorrection platform process frame received forward).2 marks)) := by
  obtain ⟨dropped, -, -⟩ | ⟨stamped', payload, n, -, -, rfl, -⟩ :=
    bridgeServerForward_cases platform process frame _ _ run
  · exact absurd (stamp.symm.trans dropped) (Option.some_ne_none _)
  · rw [payloadMarks, Option.bind_some, marked]
    rfl

/-- Its letters are the payload that is published. -/
theorem map_letters_payloadMarks
    (run : bridgeServerForward platform process frame received forward =
      .ok (process', forwarded)) :
    (payloadMarks platform.libc ⟨received, forward, ⟨frame, forwarded⟩⟩).map letters =
      (Handed.mk frame forwarded).payload process'.server := by
  obtain ⟨-, -, rfl⟩ | ⟨stamped, payload, n, stamp, rfl, published, holds⟩ :=
    bridgeServerForward_cases platform process frame _ _ run
  · rfl
  · have erased : (stampMarks platform.libc maxBridgedFrameLen frame received forward).map letters =
        some stamped :=
      (map_letters_stampMarks platform.libc frame received forward).trans stamp
    obtain ⟨marks, marked, rfl⟩ := Option.map_eq_some_iff.mp erased
    rw [payloadMarks_eq run stamp marked, published, Option.map_some, letters_spliceMarks,
      letters_correctMarks]
    exact congrArg some holds.reads.symm

end

end ControllerBridge
