/-
This file settles that a frame in UTF-8 is published in UTF-8.

Every step of a call exchanges a stretch of bytes below `0x80` for another one:
the keys, the blanks, the numeric spans, the closing brace and the inserted
fields are such bytes. A rewrite of the joystick values that stops half-way is
the exception, as the caller then cuts the text at its old length.
-/

import ControllerBridge.Library.Utf8
import ControllerBridge.ReadBack

namespace ControllerBridge

open Search Utf8

/-! ### Bytes of the source -/

theorem ascii_of_numeric {span : List UInt8} (numeric : ∀ byte ∈ span, isNumeric byte = true) :
    Ascii span := by
  intro byte member
  have here := numeric byte member
  simp only [isNumeric, Bool.or_eq_true, Bool.and_eq_true, decide_eq_true_eq, beq_iff_eq] at here
  rcases here with ((((digit | rfl) | rfl) | rfl) | rfl) | rfl
  · exact UInt8.lt_of_le_of_lt digit.2 (by decide)
  all_goals decide

theorem ascii_of_blank {blanks : List UInt8} (blank : ∀ byte ∈ blanks, isBlank byte = true) :
    Ascii blanks := by
  intro byte member
  have here := blank byte member
  rw [isBlank, Bool.or_eq_true, beq_iff_eq, beq_iff_eq] at here
  rcases here with rfl | rfl <;> decide

theorem ascii_of_watched : ∀ key ∈ watchedKeys, Ascii key := by
  decide +kernel

section

variable {Double : Type} {libc : Libc Double} {capacity : Nat}

theorem Renders.ascii {places : Nat} {value : Double} (plain : Renders libc Plain places value)
    {rendering : List UInt8} (printed : libc.printf places value = some rendering) :
    Ascii rendering :=
  ascii_of_numeric (plain rendering printed).numeric

/-! ### The steps -/

theorem encoded_insertText {fields text result : List UInt8} (ascii : Ascii fields)
    (encoded : Encoded text) (inserted : insertText capacity fields text = some result) :
    Encoded result := by
  rw [insertText, Option.bind_eq_some_iff] at inserted
  obtain ⟨⟨before, after⟩, cut, fits⟩ := inserted
  obtain ⟨rfl, -⟩ := within_eq_some_iff.mp fits
  rw [(cutLast_eq_some_iff.mp cut).split, ← List.singleton_append, ← List.append_assoc] at encoded
  have brace : Ascii [closingBrace] := by decide +kernel
  have exchanged := encoded.exchange before after (List.cons_ne_nil _ _) brace (ascii.append brace)
  simpa only [List.append_assoc, List.singleton_append] using exchanged

theorem encoded_correctText {corrected : Double} (plain : Renders libc Plain 6 corrected)
    {text : List UInt8} (encoded : Encoded text) :
    Encoded (correctText libc capacity corrected text) := by
  rw [correctText]
  cases appended : appendFieldText libc capacity correctedKey corrected text with
  | none => exact encoded
  | some result =>
    rw [appendFieldText, Option.bind_eq_some_iff] at appended
    obtain ⟨field, fits, inserted⟩ := appended
    obtain ⟨rendered, -⟩ := fitting_eq_some_iff.mp fits
    simp only [fieldText, Option.bind_eq_bind, Option.bind_eq_some_iff, Option.some_inj] at rendered
    obtain ⟨rendering, printed, rfl⟩ := rendered
    have name : Ascii (ascii ",\"" ++ correctedKey ++ ascii "\":") := by decide +kernel
    exact encoded_insertText (name.append (plain.ascii printed)) encoded inserted

theorem encoded_motor {m1 m2 m3 m4 : Double}
    (plain : ∀ value ∈ [m1, m2, m3, m4], Renders libc Plain 6 value) {text : List UInt8}
    (encoded : Encoded text) :
    Encoded ((appendMotorText libc capacity m1 m2 m3 m4 text).getD text) := by
  cases appended : appendMotorText libc capacity m1 m2 m3 m4 text with
  | none => exact encoded
  | some result =>
    rw [appendMotorText, Option.bind_eq_some_iff] at appended
    obtain ⟨fields, fits, inserted⟩ := appended
    obtain ⟨rendered, -⟩ := fitting_eq_some_iff.mp fits
    simp only [motorFields, Option.bind_eq_bind, Option.bind_eq_some_iff, Option.some_inj]
      at rendered
    obtain ⟨r1, printed1, r2, printed2, r3, printed3, r4, printed4, rfl⟩ := rendered
    have names : Ascii (ascii ",\"motor_1_pos\":") ∧ Ascii (ascii ",\"motor_2_pos\":") ∧
        Ascii (ascii ",\"motor_3_pos\":") ∧ Ascii (ascii ",\"motor_4_insertion_pos\":") := by
      decide +kernel
    obtain ⟨name1, name2, name3, name4⟩ := names
    have ascii1 := name1.append ((plain m1 (by simp)).ascii printed1)
    have ascii2 := (ascii1.append name2).append ((plain m2 (by simp)).ascii printed2)
    have ascii3 := (ascii2.append name3).append ((plain m3 (by simp)).ascii printed3)
    have ascii4 := (ascii3.append name4).append ((plain m4 (by simp)).ascii printed4)
    exact encoded_insertText ascii4 encoded inserted

theorem encoded_replaceText {key : List UInt8} (watched : key ∈ watchedKeys) {value : Double}
    (plain : Renders libc Plain 8 value) {text result : List UInt8} (encoded : Encoded text)
    (replaced : replaceText libc capacity key value text = some result) : Encoded result := by
  rw [replaceText] at replaced
  cases found : locate key text with
  | none =>
    rw [found] at replaced
    cases replaced
    exact encoded
  | some located =>
    rw [found] at replaced
    simp only [Option.bind_eq_bind, Option.bind_eq_some_iff] at replaced
    obtain ⟨rendering, fits, kept⟩ := replaced
    obtain ⟨rfl, -⟩ := within_eq_some_iff.mp kept
    obtain ⟨printed, -⟩ := fitting_eq_some_iff.mp fits
    have nonempty := (quoted_of_watched key watched).ne_nil
    have reads := (locate_eq_some_iff nonempty).mp found
    rw [reads.text_eq] at encoded
    have asciiKey := (ascii_of_watched key watched).append (ascii_of_blank reads.blanks)
    have asciiOld := asciiKey.append (ascii_of_numeric reads.span)
    have exchanged := Encoded.exchange located.before located.after
      (by simp [nonempty]) asciiOld (asciiKey.append (plain.ascii printed))
      (by simpa only [List.append_assoc] using encoded)
    simpa only [List.append_assoc] using exchanged

theorem encoded_stampText [Sub Double] {raw stamped : List UInt8} {received forward : Double}
    (plain : ∀ value ∈ stampNumbers libc raw received forward, Renders libc Plain 6 value)
    (encoded : Encoded raw)
    (stamp : stampText libc capacity raw received forward = some stamped) : Encoded stamped := by
  cases found : locateSentTime raw with
  | none =>
    rw [stampText, found] at stamp
    rwa [(within_eq_some_iff.mp stamp).1]
  | some pair =>
    obtain ⟨key, located⟩ := pair
    obtain ⟨forwardText, receivedText, processingText, transferText, printed1, printed2, printed3,
      printed4, rfl⟩ := stampText_eq_some found stamp
    rw [stampNumbers, stampTimes, found] at plain
    have reads := reads_of_locateSentTime found
    have watched : key ∈ watchedKeys := by
      obtain rfl | ⟨rfl, -⟩ := locateSentTime_key found <;> decide
    rw [reads.text_eq] at encoded
    have asciiSpan := ascii_of_numeric reads.span
    have asciiOld := ((ascii_of_watched key watched).append
      (ascii_of_blank reads.blanks)).append asciiSpan
    have names : Ascii sentKey ∧ Ascii newNtpKey ∧ Ascii processingKey ∧ Ascii transferKey ∧
        Ascii receivedKey := by
      decide +kernel
    obtain ⟨sent, newNtp, processing, transfer, received⟩ := names
    have ascii1 := ((sent.append asciiSpan).append newNtp).append
      ((plain _ (by simp)).ascii printed1)
    have ascii2 := (ascii1.append processing).append ((plain _ (by simp)).ascii printed3)
    have ascii3 := (ascii2.append transfer).append ((plain _ (by simp)).ascii printed4)
    have asciiNew := (ascii3.append received).append ((plain _ (by simp)).ascii printed2)
    have exchanged := Encoded.exchange located.before located.after
      (by simp [(quoted_of_watched key watched).ne_nil]) asciiOld asciiNew
      (by simpa only [List.append_assoc] using encoded)
    rw [stampedText]
    simpa only [List.append_assoc] using exchanged

/-- A stamped frame in UTF-8 is published in UTF-8, when its joystick values are rewritten. -/
theorem encoded_publishedText {corrected : Double} {joystick : Option (Double × Double)}
    {motor : Option (MotorOut Double)} (plain : PublishRenders libc Plain corrected joystick motor)
    {stamped : List UInt8}
    (reformats : ∀ x y, joystick = some (x, y) → ∃ result,
      reformatText libc capacity x y (correctText libc capacity corrected stamped) = some result)
    (encoded : Encoded stamped) :
    Encoded (publishedText libc capacity corrected joystick motor stamped) := by
  have encodedCorrected : Encoded (correctText libc capacity corrected stamped) :=
    encoded_correctText plain.corrected encoded
  rw [publishedText]
  cases joystick with
  | none => exact encodedCorrected
  | some values =>
    obtain ⟨x, y⟩ := values
    obtain ⟨result, reformatted⟩ := reformats x y rfl
    obtain ⟨first, replacedX, replacedY, left⟩ := reformatText_eq_some reformatted
    have encodedX := encoded_replaceText (by decide) (plain.joystick x (by simp [joystickNumbers]))
      encodedCorrected replacedX
    have encodedY := encoded_replaceText (by decide) (plain.joystick y (by simp [joystickNumbers]))
      encodedX replacedY
    unfold spliceText
    dsimp only
    rw [left]
    cases motor with
    | none => exact encodedY
    | some out => exact encoded_motor plain.motor encodedY

end

end ControllerBridge
