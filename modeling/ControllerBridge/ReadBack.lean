/-
This file settles that what a call puts into its payload is what the module's
own extractors read there.

Each step replaces one stretch of the text by another. A key is read as before
when both stretches keep its occurrences apart from their neighbours and begin
with a byte that ends a blank and a number (`spanAfter_splice`): the searches
then find the same occurrence, and the scans stop where they stopped. The keys
and the texts the source inserts keep each other's occurrences apart, and the
renderings hold no quotation mark, so this applies to every step and every key
but the one whose value the step writes.
-/

import ControllerBridge.Exact
import ControllerBridge.ForwardText

namespace ControllerBridge

open Region Search

/-! ### The span after a key -/

/-- The span read at the start of a text: the longest run of numeric bytes after the blanks. -/
def valueSpan (text : List UInt8) : List UInt8 := (text.dropWhile isBlank).takeWhile isNumeric

/-- The span read after the first occurrence of a key. -/
def spanAfter (key text : List UInt8) : Option (List UInt8) :=
  (locate key text).map fun located => located.span

theorem spanAfter_of_firstAt {key text before after : List UInt8} (nonempty : key ≠ [])
    (first : FirstAt key text before after) : spanAfter key text = some (valueSpan after) := by
  rw [spanAfter, locate, (cutFirst_eq_some_iff nonempty).mpr first]
  rfl

theorem spanAfter_eq_none_iff {key text : List UInt8} (nonempty : key ≠ []) :
    spanAfter key text = none ↔ ¬ key <:+: text := by
  rw [spanAfter, Option.map_eq_none_iff, locate_eq_none_iff nonempty]

/-- A byte at which both scans stop. -/
def Stops (byte : UInt8) : Prop := isBlank byte = false ∧ isNumeric byte = false

instance (byte : UInt8) : Decidable (Stops byte) := inferInstanceAs (Decidable (_ ∧ _))

/-- What follows a byte at which the scans stop is not read. -/
theorem valueSpan_append_stop {byte : UInt8} (stops : Stops byte) (text rest : List UInt8) :
    valueSpan (text ++ byte :: rest) = valueSpan text := by
  have notBlank : ¬ isBlank byte = true := by rw [stops.1]; exact Bool.false_ne_true
  have notNumeric : ¬ isNumeric byte = true := by rw [stops.2]; exact Bool.false_ne_true
  have skips : (text ++ byte :: rest).dropWhile isBlank =
      text.dropWhile isBlank ++ byte :: rest := by
    rw [List.dropWhile_append]
    split
    · rename_i empty
      rw [List.isEmpty_iff.mp empty, List.dropWhile_cons_of_neg notBlank, List.nil_append]
    · rfl
  rw [valueSpan, valueSpan, skips, List.takeWhile_append]
  split
  · rename_i whole
    rw [List.takeWhile_cons_of_neg notNumeric, List.append_nil,
      (List.takeWhile_prefix isNumeric).eq_of_length whole]
  · rfl

theorem isBlank_of_isNumeric {byte : UInt8} (numeric : isNumeric byte = true) :
    isBlank byte = false := by
  rw [isBlank, Bool.or_eq_false_iff, beq_eq_false_iff_ne, beq_eq_false_iff_ne]
  constructor <;>
  · rintro rfl
    exact absurd numeric (by decide)

/-- A stretch whose first byte stops both scans. -/
def Halts : List UInt8 → Prop
  | [] => False
  | byte :: _ => Stops byte

instance : ∀ stretch : List UInt8, Decidable (Halts stretch)
  | [] => inferInstanceAs (Decidable False)
  | byte :: _ => inferInstanceAs (Decidable (Stops byte))

theorem Halts.append {stretch : List UInt8} (halts : Halts stretch) (rest : List UInt8) :
    Halts (stretch ++ rest) := by
  cases stretch with
  | nil => exact halts.elim
  | cons byte stretch => exact halts

theorem Halts.valueSpan_append {stretch : List UInt8} (halts : Halts stretch)
    (text rest : List UInt8) : valueSpan (text ++ stretch ++ rest) = valueSpan text := by
  cases stretch with
  | nil => exact halts.elim
  | cons byte stretch =>
    rw [List.append_assoc, List.cons_append, valueSpan_append_stop halts]

/-- Numeric bytes up to a stretch at which the scans stop are read whole. -/
theorem Halts.valueSpan_numeric {stretch : List UInt8} (halts : Halts stretch)
    {span : List UInt8} (numeric : ∀ byte ∈ span, isNumeric byte = true) (rest : List UInt8) :
    valueSpan (span ++ stretch ++ rest) = span := by
  rw [halts.valueSpan_append, valueSpan, List.dropWhile_eq_self_iff.mpr,
    List.takeWhile_eq_self_iff.mpr numeric]
  intro positive blank
  have head := numeric _ (List.getElem_mem positive)
  rw [isBlank_of_isNumeric head] at blank
  exact Bool.false_ne_true blank

/-- A splice of stretches that keep a key's occurrences apart, and at which the scans stop, leaves
what is read after the key. -/
theorem spanAfter_splice {key : List UInt8} (left right : List UInt8) {old new : List UInt8}
    (nonempty : key ≠ [])
    (separatesOld : Separates key old) (separatesNew : Separates key new) (haltsOld : Halts old)
    (haltsNew : Halts new) :
    spanAfter key (left ++ new ++ right) = spanAfter key (left ++ old ++ right) := by
  by_cases occurs : key <:+: left ++ old ++ right
  · obtain ⟨before, after, first⟩ := exists_firstAt nonempty occurs
    rw [spanAfter_of_firstAt nonempty first]
    obtain ⟨rest, -, rfl, moved⟩ | ⟨rest, -, -, moved⟩ :=
      first.splice nonempty separatesOld new separatesNew
    · rw [spanAfter_of_firstAt nonempty moved, haltsNew.valueSpan_append,
        haltsOld.valueSpan_append]
    · exact spanAfter_of_firstAt nonempty moved
  · rw [(spanAfter_eq_none_iff nonempty).mpr occurs,
      (spanAfter_eq_none_iff nonempty).mpr (separatesNew.not_infix_splice occurs)]

/-! ### Keys and renderings -/

/-- The bytes of a plain rendering: digits, the point and the minus, and at least one. -/
def Plain (rendering : List UInt8) : Prop :=
  rendering ≠ [] ∧
    ∀ byte ∈ rendering, Decimal.isDigit byte = true ∨ byte = 0x2E ∨ byte = 0x2D

theorem Plain.numeric {rendering : List UInt8} (plain : Plain rendering) :
    ∀ byte ∈ rendering, isNumeric byte = true := by
  intro byte member
  obtain digit | rfl | rfl := plain.2 byte member
  · rw [Decimal.isDigit] at digit
    rw [isNumeric, digit]
    rfl
  · decide
  · decide

def quote : UInt8 := 0x22

theorem quote_notMem_of_numeric {span : List UInt8}
    (numeric : ∀ byte ∈ span, isNumeric byte = true) : quote ∉ span :=
  fun member => absurd (numeric quote member) (by decide)

/-- The bytes of a rendering that no key begins in. -/
def Unquoted (rendering : List UInt8) : Prop := quote ∉ rendering

theorem Renders.unquoted {Double : Type} {libc : Libc Double} {places : Nat} {value : Double}
    (plain : Renders libc Plain places value) : Renders libc Unquoted places value :=
  fun rendering printed => quote_notMem_of_numeric (plain rendering printed).numeric

theorem quote_notMem_of_blank {blanks : List UInt8}
    (blank : ∀ byte ∈ blanks, isBlank byte = true) : quote ∉ blanks :=
  fun member => absurd (blank quote member) (by decide)

/-- The keys the extractors look for, and the key the sent time is renamed to. -/
def watchedKeys : List (List UInt8) :=
  [joystickXKey, joystickYKey, ntpKey, timestampKey, sentKey]

/-- A key that begins with a quotation mark and holds no closing brace. -/
structure Quoted (key : List UInt8) : Prop where
  begins : ∃ name, key = quote :: name
  noBrace : closingBrace ∉ key

theorem quoted_of_watched : ∀ key ∈ watchedKeys, Quoted key := by
  intro key member
  simp only [watchedKeys, List.mem_cons, List.not_mem_nil, or_false] at member
  rcases member with rfl | rfl | rfl | rfl | rfl <;> exact ⟨⟨_, rfl⟩, by decide⟩

theorem Quoted.ne_nil {key : List UInt8} (quoted : Quoted key) : key ≠ [] := by
  obtain ⟨name, rfl⟩ := quoted.begins
  exact List.cons_ne_nil _ _

/-- A stretch without quotation marks may follow one that keeps a key's occurrences apart. -/
theorem Quoted.separates_append {key bar inert : List UInt8} (quoted : Quoted key)
    (separates : Separates key bar) (absent : quote ∉ inert) : Separates key (bar ++ inert) := by
  obtain ⟨name, rfl⟩ := quoted.begins
  exact separates.append_inert absent

/-! ### The steps -/

/-- Inserted fields leave what is read after a key. -/
theorem spanAfter_insertText {key fields text result : List UInt8} {capacity : Nat}
    (quoted : Quoted key) (separates : Separates key fields) (halts : Halts fields)
    (inserted : insertText capacity fields text = some result) :
    spanAfter key result = spanAfter key text := by
  rw [insertText, Option.bind_eq_some_iff] at inserted
  obtain ⟨⟨before, after⟩, cut, fits⟩ := inserted
  obtain ⟨rfl, -⟩ := within_eq_some_iff.mp fits
  have last := cutLast_eq_some_iff.mp cut
  have brace : Separates key [closingBrace] := separates_singleton quoted.noBrace
  have spliced := spanAfter_splice before after quoted.ne_nil brace
    (separates.append brace) (by decide) (halts.append _)
  rw [last.split]
  simpa only [List.append_assoc, List.cons_append, List.nil_append] using spliced

section

variable {Double : Type} {libc : Libc Double} {capacity : Nat}

/-- The names of the appended fields keep the keys' occurrences apart. -/
theorem apart_names : ∀ key ∈ watchedKeys,
    Apart key (ascii ",\"" ++ correctedKey ++ ascii "\":") ∧
      Apart key (ascii ",\"motor_1_pos\":") ∧ Apart key (ascii ",\"motor_2_pos\":") ∧
      Apart key (ascii ",\"motor_3_pos\":") ∧
      Apart key (ascii ",\"motor_4_insertion_pos\":") := by
  decide +kernel

theorem spanAfter_appendFieldText {key : List UInt8} (watched : key ∈ watchedKeys)
    {value : Double} (unquoted : Renders libc Unquoted 6 value) {text result : List UInt8}
    (appended : appendFieldText libc capacity correctedKey value text = some result) :
    spanAfter key result = spanAfter key text := by
  have quoted := quoted_of_watched key watched
  rw [appendFieldText, Option.bind_eq_some_iff] at appended
  obtain ⟨field, fits, inserted⟩ := appended
  obtain ⟨rendered, -⟩ := fitting_eq_some_iff.mp fits
  simp only [fieldText, Option.bind_eq_bind, Option.bind_eq_some_iff, Option.some_inj] at rendered
  obtain ⟨rendering, printed, rfl⟩ := rendered
  exact spanAfter_insertText quoted
    (quoted.separates_append (apart_names key watched).1.separates (unquoted _ printed))
    (Halts.append (by decide) _) inserted

theorem spanAfter_appendMotorText {key : List UInt8} (watched : key ∈ watchedKeys)
    {m1 m2 m3 m4 : Double} (plain : ∀ value ∈ [m1, m2, m3, m4], Renders libc Plain 6 value)
    {text result : List UInt8}
    (appended : appendMotorText libc capacity m1 m2 m3 m4 text = some result) :
    spanAfter key result = spanAfter key text := by
  have quoted := quoted_of_watched key watched
  obtain ⟨-, apart1, apart2, apart3, apart4⟩ := apart_names key watched
  rw [appendMotorText, Option.bind_eq_some_iff] at appended
  obtain ⟨fields, fits, inserted⟩ := appended
  obtain ⟨rendered, -⟩ := fitting_eq_some_iff.mp fits
  simp only [motorFields, Option.bind_eq_bind, Option.bind_eq_some_iff, Option.some_inj]
    at rendered
  obtain ⟨r1, printed1, r2, printed2, r3, printed3, r4, printed4, rfl⟩ := rendered
  have inert := fun value member rendering printed =>
    quote_notMem_of_numeric (plain value member rendering printed).numeric
  have halts : Halts (ascii ",\"motor_1_pos\":") := by decide
  have separates1 := quoted.separates_append apart1.separates (inert m1 (by simp) _ printed1)
  have separates2 := quoted.separates_append (separates1.append apart2.separates)
    (inert m2 (by simp) _ printed2)
  have separates3 := quoted.separates_append (separates2.append apart3.separates)
    (inert m3 (by simp) _ printed3)
  have separates4 := quoted.separates_append (separates3.append apart4.separates)
    (inert m4 (by simp) _ printed4)
  refine spanAfter_insertText quoted separates4 ?_ inserted
  exact (((((((halts.append _).append _).append _).append _).append _).append _).append _)

/-- The joystick keys keep the other keys' occurrences apart. -/
theorem apart_joystick : ∀ key ∈ watchedKeys, ∀ joystickKey ∈ [joystickXKey, joystickYKey],
    key ≠ joystickKey → Apart key joystickKey := by
  decide +kernel

/-- After the key whose value is rewritten its rendering is read. -/
theorem spanAfter_replaceText_self {key : List UInt8} (nonempty : key ≠ []) {value : Double}
    (rendersPlain : Renders libc Plain 8 value) {text result span : List UInt8}
    (read : spanAfter key text = some span)
    (replaced : replaceText libc capacity key value text = some result) :
    ∃ rendering, libc.printf 8 value = some rendering ∧ spanAfter key result = some rendering := by
  rw [spanAfter, Option.map_eq_some_iff] at read
  obtain ⟨located, found, -⟩ := read
  have reads := (locate_eq_some_iff nonempty).mp found
  rw [replaceText, found] at replaced
  simp only [Option.bind_eq_bind, Option.bind_eq_some_iff] at replaced
  obtain ⟨rendering, fits, kept⟩ := replaced
  obtain ⟨rfl, -⟩ := within_eq_some_iff.mp kept
  obtain ⟨printed, -⟩ := fitting_eq_some_iff.mp fits
  have plain := rendersPlain _ printed
  refine ⟨rendering, printed, ?_⟩
  have reads' : Reads key
      (located.before ++ key ++ located.blanks ++ rendering ++ located.after)
      { located with span := rendering } := by
    refine ⟨⟨?_, reads.first.fresh⟩, reads.blanks, plain.numeric, ?_, reads.stops⟩
    · simp only [List.append_assoc]
    · obtain ⟨head, tail, rfl⟩ := List.exists_cons_of_ne_nil plain.1
      rintro byte ⟨⟩
      exact isBlank_of_isNumeric (plain.numeric _ List.mem_cons_self)
  rw [spanAfter, (locate_eq_some_iff nonempty).mpr reads']
  rfl

/-- The other keys are read as before. -/
theorem spanAfter_replaceText_other {key joystickKey : List UInt8} (watched : key ∈ watchedKeys)
    (joystick : joystickKey ∈ [joystickXKey, joystickYKey]) (other : key ≠ joystickKey)
    {value : Double} (unquoted : Renders libc Unquoted 8 value) {text result : List UInt8}
    (replaced : replaceText libc capacity joystickKey value text = some result) :
    spanAfter key result = spanAfter key text := by
  have quoted := quoted_of_watched key watched
  have apart := apart_joystick key watched joystickKey joystick other
  have halts : ∀ key ∈ [joystickXKey, joystickYKey], Halts key ∧ key ≠ [] := by decide
  obtain ⟨haltsKey, nonempty⟩ := halts joystickKey joystick
  rw [replaceText] at replaced
  cases found : locate joystickKey text with
  | none =>
    rw [found] at replaced
    cases replaced
    rfl
  | some located =>
    rw [found] at replaced
    simp only [Option.bind_eq_bind, Option.bind_eq_some_iff] at replaced
    obtain ⟨rendering, fits, kept⟩ := replaced
    obtain ⟨rfl, -⟩ := within_eq_some_iff.mp kept
    obtain ⟨printed, -⟩ := fitting_eq_some_iff.mp fits
    have reads := (locate_eq_some_iff nonempty).mp found
    have separates := quoted.separates_append apart.separates
      (quote_notMem_of_blank reads.blanks)
    have separatesOld := quoted.separates_append separates (quote_notMem_of_numeric reads.span)
    have separatesNew := quoted.separates_append separates (unquoted _ printed)
    have spliced := spanAfter_splice located.before located.after
      quoted.ne_nil separatesOld separatesNew ((haltsKey.append _).append _)
      ((haltsKey.append _).append _)
    rw [reads.text_eq]
    simpa only [List.append_assoc] using spliced

end

/-! ### The stamping -/

section

variable {Double : Type} [Sub Double] {libc : Libc Double} {capacity : Nat}

/-- The texts the stamping inserts keep the joystick keys' occurrences apart, and so do the two
sent-time keys. -/
theorem apart_stamped : ∀ key ∈ [joystickXKey, joystickYKey],
    Apart key ntpKey ∧ Apart key timestampKey ∧ Apart key sentKey ∧ Apart key newNtpKey ∧
      Apart key processingKey ∧ Apart key transferKey ∧ Apart key receivedKey := by
  decide +kernel

theorem locateSentTime_key {text key : List UInt8} {located : Located}
    (found : locateSentTime text = some (key, located)) :
    key = ntpKey ∨ key = timestampKey ∧ ¬ ntpKey <:+: text := by
  rw [locateSentTime] at found
  split at found
  · cases found
    exact Or.inl rfl
  · rename_i absent
    rw [Option.map_eq_some_iff] at found
    obtain ⟨_, -, same⟩ := found
    cases same
    exact Or.inr ⟨rfl, (locate_eq_none_iff ntpKey_ne_nil).mp absent⟩

/-- What the stamping makes of a frame with a sent time. -/
theorem stampText_eq_some {raw stamped key : List UInt8} {received forward : Double}
    {located : Located} (found : locateSentTime raw = some (key, located))
    (stamp : stampText libc capacity raw received forward = some stamped) :
    ∃ forwardText receivedText processingText transferText,
      libc.printf 6 forward = some forwardText ∧ libc.printf 6 received = some receivedText ∧
      libc.printf 6 (forward - received) = some processingText ∧
      libc.printf 6 (received - readSpan libc located.span) = some transferText ∧
      stamped = stampedText located forwardText processingText transferText receivedText := by
  rw [stampText, found] at stamp
  simp only [Option.bind_eq_bind, Option.bind_eq_some_iff, fitting_eq_some_iff,
    within_eq_some_iff] at stamp
  obtain ⟨forwardText, ⟨printed1, -⟩, receivedText, ⟨printed2, -⟩, processingText,
    ⟨printed3, -⟩, transferText, ⟨printed4, -⟩, rfl, -⟩ := stamp
  exact ⟨_, _, _, _, printed1, printed2, printed3, printed4, rfl⟩

/-- The joystick keys are read in the stamped frame as in the raw one. -/
theorem spanAfter_stampText {key raw stamped : List UInt8}
    (joystick : key ∈ [joystickXKey, joystickYKey]) {received forward : Double}
    (unquoted : ∀ value ∈ stampNumbers libc raw received forward, Renders libc Unquoted 6 value)
    (stamp : stampText libc capacity raw received forward = some stamped) :
    spanAfter key stamped = spanAfter key raw := by
  cases found : locateSentTime raw with
  | none =>
    rw [stampText, found] at stamp
    rw [(within_eq_some_iff.mp stamp).1]
  | some pair =>
    obtain ⟨sentTimeKey, located⟩ := pair
    obtain ⟨forwardText, receivedText, processingText, transferText, printed1, printed2, printed3,
      printed4, rfl⟩ := stampText_eq_some found stamp
    have quoted := quoted_of_watched key
      ((List.sublist_append_left [joystickXKey, joystickYKey] _).subset joystick)
    obtain ⟨apartNtp, apartTimestamp, apartSent, apartNew, apartProcessing, apartTransfer,
      apartReceived⟩ := apart_stamped key joystick
    have reads := reads_of_locateSentTime found
    rw [stampNumbers, stampTimes, found] at unquoted
    have inertSpan := quote_notMem_of_numeric reads.span
    have apartKey : Apart key sentTimeKey := by
      obtain rfl | ⟨rfl, -⟩ := locateSentTime_key found
      · exact apartNtp
      · exact apartTimestamp
    have separatesOld := quoted.separates_append (quoted.separates_append apartKey.separates
      (quote_notMem_of_blank reads.blanks)) inertSpan
    have separates1 := quoted.separates_append
      ((quoted.separates_append apartSent.separates inertSpan).append apartNew.separates)
      (unquoted _ (by simp) _ printed1)
    have separates2 := quoted.separates_append (separates1.append apartProcessing.separates)
      (unquoted _ (by simp) _ printed3)
    have separates3 := quoted.separates_append (separates2.append apartTransfer.separates)
      (unquoted _ (by simp) _ printed4)
    have separatesNew := quoted.separates_append (separates3.append apartReceived.separates)
      (unquoted _ (by simp) _ printed2)
    have haltsKey : Halts sentTimeKey := by
      obtain rfl | ⟨rfl, -⟩ := locateSentTime_key found <;> decide
    have haltsNew : Halts sentKey := by decide
    have spliced := spanAfter_splice located.before located.after
      quoted.ne_nil separatesOld separatesNew ((haltsKey.append _).append _)
      (by simpa only [List.append_assoc] using haltsNew.append _)
    rw [reads.text_eq, stampedText]
    simpa only [List.append_assoc] using spliced

/-- In the stamped frame the forward time is read after the sent-time key, and after the renamed
key, if the raw frame did not hold it, what the raw frame held as its sent time. -/
theorem stampText_sentTime {raw stamped key : List UInt8} {received forward : Double}
    (plain : ∀ value ∈ stampNumbers libc raw received forward, Renders libc Plain 6 value)
    {located : Located} (found : locateSentTime raw = some (key, located))
    (stamp : stampText libc capacity raw received forward = some stamped) :
    (∃ rendering, libc.printf 6 forward = some rendering ∧
        spanAfter ntpKey stamped = some rendering) ∧
      (¬ sentKey <:+: raw → spanAfter sentKey stamped = some located.span) := by
  obtain ⟨forwardText, receivedText, processingText, transferText, printed, -, -, -, rfl⟩ :=
    stampText_eq_some found stamp
  have reads := reads_of_locateSentTime found
  rw [stampNumbers, stampTimes, found] at plain
  have absentBefore : ¬ ntpKey <:+: located.before := by
    obtain rfl | ⟨-, absent⟩ := locateSentTime_key found
    · exact reads.first.not_infix_before
    · exact fun occurs => absent (occurs.trans reads.first.before_infix)
  constructor
  · refine ⟨forwardText, printed, ?_⟩
    have separates : Separates ntpKey (sentKey ++ located.span ++ [0x2C]) := by
      have quoted := quoted_of_watched ntpKey (by decide)
      have apart : Apart ntpKey sentKey := by decide
      exact (quoted.separates_append apart.separates
        (quote_notMem_of_numeric reads.span)).append (separates_singleton (by decide))
    have absent : ¬ ntpKey <:+: located.before ++ (sentKey ++ located.span ++ [0x2C]) := by
      intro occurs
      exact (separates located.before [] (by rwa [List.append_nil])).elim absentBefore
        fun impossible => ntpKey_ne_nil (List.infix_nil.mp impossible)
    have unbordered : Unbordered ntpKey := by decide
    have halts : Halts processingKey := by decide
    have first := unbordered.firstAt ntpKey_ne_nil absent
      (forwardText ++ processingKey ++ (processingText ++ transferKey ++ transferText ++
        receivedKey ++ receivedText ++ located.after))
    have read := spanAfter_of_firstAt ntpKey_ne_nil first
    rw [halts.valueSpan_numeric (plain _ List.mem_cons_self _ printed).numeric] at read
    rw [stampedText, ← read, show newNtpKey = [0x2C] ++ ntpKey from rfl]
    simp only [List.append_assoc]
  · intro absent
    have fresh : ¬ sentKey <:+: located.before :=
      fun occurs => absent (occurs.trans reads.first.before_infix)
    have unbordered : Unbordered sentKey := by decide
    have halts : Halts newNtpKey := by decide
    have nonempty : sentKey ≠ [] := by decide
    have first := unbordered.firstAt nonempty fresh
      (located.span ++ newNtpKey ++ (forwardText ++ processingKey ++ processingText ++
        transferKey ++ transferText ++ receivedKey ++ receivedText ++ located.after))
    have read := spanAfter_of_firstAt nonempty first
    rw [halts.valueSpan_numeric reads.span] at read
    rw [stampedText, ← read]
    simp only [List.append_assoc]

end

/-! ### The published payload -/

section

variable {Double : Type} {libc : Libc Double} {capacity : Nat}

variable (capacity) in
theorem spanAfter_correctText {key : List UInt8} (watched : key ∈ watchedKeys)
    {corrected : Double} (unquoted : Renders libc Unquoted 6 corrected) (text : List UInt8) :
    spanAfter key (correctText libc capacity corrected text) = spanAfter key text := by
  rw [correctText]
  cases appended : appendFieldText libc capacity correctedKey corrected text with
  | none => rfl
  | some result => exact spanAfter_appendFieldText watched unquoted appended

theorem spanAfter_motor {key : List UInt8} (watched : key ∈ watchedKeys) {m1 m2 m3 m4 : Double}
    (plain : ∀ value ∈ [m1, m2, m3, m4], Renders libc Plain 6 value) (text : List UInt8) :
    spanAfter key ((appendMotorText libc capacity m1 m2 m3 m4 text).getD text) =
      spanAfter key text := by
  cases appended : appendMotorText libc capacity m1 m2 m3 m4 text with
  | none => rfl
  | some result => exact spanAfter_appendMotorText watched plain appended

/-- The block `if (have_joystick)` changes what is read after a watched key only by its rewriting
of the joystick values. -/
theorem spanAfter_spliceText {key : List UInt8} (watched : key ∈ watchedKeys) (x y : Double)
    {motor : Option (MotorOut Double)}
    (plain : ∀ value ∈ motorNumbers motor, Renders libc Plain 6 value) (text : List UInt8) :
    spanAfter key (spliceText libc capacity (some (x, y)) motor text) =
      spanAfter key (reformatLeft libc capacity x y text) := by
  cases motor with
  | none => rfl
  | some out => exact spanAfter_motor watched plain _

/-- After the rewriting the joystick keys are followed by the renderings. -/
theorem spanAfter_reformatText_joystick {x y : Double}
    (plain : ∀ value ∈ [x, y], Renders libc Plain 8 value)
    {text result spanX spanY : List UInt8} (readX : spanAfter joystickXKey text = some spanX)
    (readY : spanAfter joystickYKey text = some spanY)
    (reformatted : reformatText libc capacity x y text = some result) :
    (∃ rendering, libc.printf 8 x = some rendering ∧
        spanAfter joystickXKey result = some rendering) ∧
      ∃ rendering, libc.printf 8 y = some rendering ∧
        spanAfter joystickYKey result = some rendering := by
  obtain ⟨first, replacedX, replacedY, -⟩ := reformatText_eq_some reformatted
  have plainX := plain x (by simp)
  have plainY := plain y (by simp)
  constructor
  · rw [spanAfter_replaceText_other (by decide) (by decide) (by decide) plainY.unquoted replacedY]
    exact spanAfter_replaceText_self joystickXKey_ne_nil plainX readX replacedX
  · have readFirst : spanAfter joystickYKey first = some spanY := by
      rw [spanAfter_replaceText_other (by decide) (by decide) (by decide) plainX.unquoted replacedX,
        readY]
    exact spanAfter_replaceText_self joystickYKey_ne_nil plainY readFirst replacedY

/-- The rewriting leaves what is read after the other keys. -/
theorem spanAfter_reformatText_other {key : List UInt8} (watched : key ∈ watchedKeys)
    (other : key ≠ joystickXKey ∧ key ≠ joystickYKey) {x y : Double}
    (plain : ∀ value ∈ [x, y], Renders libc Plain 8 value) {text result : List UInt8}
    (reformatted : reformatText libc capacity x y text = some result) :
    spanAfter key result = spanAfter key text := by
  obtain ⟨first, replacedX, replacedY, -⟩ := reformatText_eq_some reformatted
  rw [spanAfter_replaceText_other watched (by decide) other.2 (plain y (by simp)).unquoted
      replacedY,
    spanAfter_replaceText_other watched (by decide) other.1 (plain x (by simp)).unquoted replacedX]

/-- The steps after the stamping leave what is read after the other keys. -/
theorem spanAfter_publishedText_other {key : List UInt8} (watched : key ∈ watchedKeys)
    (other : key ≠ joystickXKey ∧ key ≠ joystickYKey) {corrected : Double}
    {joystick : Option (Double × Double)} {motor : Option (MotorOut Double)}
    (plain : PublishRenders libc Plain corrected joystick motor) {stamped : List UInt8}
    (reformats : ∀ x y, joystick = some (x, y) → ∃ result,
      reformatText libc capacity x y (correctText libc capacity corrected stamped) = some result) :
    spanAfter key (publishedText libc capacity corrected joystick motor stamped) =
      spanAfter key stamped := by
  rw [publishedText, ← spanAfter_correctText capacity watched plain.corrected.unquoted stamped]
  cases joystick with
  | none => rfl
  | some values =>
    obtain ⟨x, y⟩ := values
    obtain ⟨result, reformatted⟩ := reformats x y rfl
    obtain ⟨-, -, -, left⟩ := reformatText_eq_some reformatted
    rw [spanAfter_spliceText watched _ _ plain.motor, left,
      spanAfter_reformatText_other watched other plain.joystick reformatted]

/-- The steps after the stamping leave the renderings after the joystick keys. -/
theorem spanAfter_publishedText_joystick {corrected x y : Double}
    {motor : Option (MotorOut Double)}
    (plain : PublishRenders libc Plain corrected (some (x, y)) motor)
    {stamped spanX spanY result : List UInt8}
    (readX : spanAfter joystickXKey stamped = some spanX)
    (readY : spanAfter joystickYKey stamped = some spanY)
    (reformatted : reformatText libc capacity x y (correctText libc capacity corrected stamped) =
      some result) :
    (∃ rendering, libc.printf 8 x = some rendering ∧ spanAfter joystickXKey
        (publishedText libc capacity corrected (some (x, y)) motor stamped) = some rendering) ∧
      ∃ rendering, libc.printf 8 y = some rendering ∧ spanAfter joystickYKey
        (publishedText libc capacity corrected (some (x, y)) motor stamped) = some rendering := by
  obtain ⟨-, -, -, left⟩ := reformatText_eq_some reformatted
  rw [publishedText, spanAfter_spliceText (by decide) _ _ plain.motor,
    spanAfter_spliceText (by decide) _ _ plain.motor, left]
  have keeps := fun key (watched : key ∈ watchedKeys) =>
    spanAfter_correctText capacity watched plain.corrected.unquoted stamped
  have correctedX := (keeps joystickXKey (by decide)).trans readX
  have correctedY := (keeps joystickYKey (by decide)).trans readY
  exact spanAfter_reformatText_joystick plain.joystick correctedX correctedY reformatted

/-- The value after a key is read from its span. -/
theorem fieldValue_of_spanAfter {key text span : List UInt8} (nonempty : span ≠ [])
    (read : spanAfter key text = some span) :
    fieldValue libc key text = some (readSpan libc span) := by
  rw [spanAfter, Option.map_eq_some_iff] at read
  obtain ⟨located, found, rfl⟩ := read
  rw [fieldValue, found, Option.bind_some, if_neg nonempty]

theorem joystickValues_of_spanAfter {text x y : List UInt8} (nonemptyX : x ≠ [])
    (nonemptyY : y ≠ []) (readX : spanAfter joystickXKey text = some x)
    (readY : spanAfter joystickYKey text = some y) :
    joystickValues libc text = some (readSpan libc x, readSpan libc y) := by
  rw [joystickValues, fieldValue_of_spanAfter nonemptyX readX, Option.bind_some,
    fieldValue_of_spanAfter nonemptyY readY, Option.map_some]

/-- A value was read from a span that is not empty. -/
theorem exists_spanAfter_of_fieldValue {key text : List UInt8} {value : Double}
    (holds : fieldValue libc key text = some value) :
    ∃ span, span ≠ [] ∧ spanAfter key text = some span := by
  rw [fieldValue, Option.bind_eq_some_iff] at holds
  obtain ⟨located, found, read⟩ := holds
  refine ⟨located.span, fun empty => ?_, by rw [spanAfter, found]; rfl⟩
  rw [if_pos empty] at read
  cases read

/-- The joystick values were read from spans that are not empty. -/
theorem exists_spanAfter_of_joystickValues {text : List UInt8} {x y : Double}
    (values : joystickValues libc text = some (x, y)) :
    (∃ span, span ≠ [] ∧ spanAfter joystickXKey text = some span) ∧
      ∃ span, span ≠ [] ∧ spanAfter joystickYKey text = some span := by
  rw [joystickValues, Option.bind_eq_some_iff] at values
  obtain ⟨_, valueX, rest⟩ := values
  rw [Option.map_eq_some_iff] at rest
  obtain ⟨_, valueY, -⟩ := rest
  exact ⟨exists_spanAfter_of_fieldValue valueX, exists_spanAfter_of_fieldValue valueY⟩

/-- A sent time is found through its first key as the text's span. -/
theorem locateSentTime_of_spanAfter {text span : List UInt8}
    (read : spanAfter ntpKey text = some span) :
    ∃ located, locateSentTime text = some (ntpKey, located) ∧ located.span = span := by
  rw [spanAfter, Option.map_eq_some_iff] at read
  obtain ⟨located, found, same⟩ := read
  exact ⟨located, by rw [locateSentTime, found], same⟩

theorem locateSentTime_eq_none_iff_spanAfter {text : List UInt8} :
    locateSentTime text = none ↔
      spanAfter ntpKey text = none ∧ spanAfter timestampKey text = none := by
  rw [locateSentTime_eq_none_iff, spanAfter_eq_none_iff ntpKey_ne_nil,
    spanAfter_eq_none_iff timestampKey_ne_nil]

end

section

variable {Double Variables : Type} [Add Double] [Sub Double] [Mul Double] [Div Double]
  [Neg Double] [LT Double] [DecidableLT Double] [LE Double] [DecidableLE Double]
  [OfScientific Double] [NatCast Double] [IntCast Double]

/-- What the extractors read in a payload is what was put in: the renderings of the joystick
values of the raw frame, the rendering of the forward time for the sent time, and under the
renamed key the sent time of the raw frame. -/
structure ReadsBack (libc : Libc Double) (frame payload : List UInt8) (forwardNtpTime : Double) :
    Prop where
  joystick : ∀ x y, bridgeExtractJoystick libc frame = .ok (some (x, y)) →
    ∃ renderingX renderingY, libc.printf 8 x = some renderingX ∧
      libc.printf 8 y = some renderingY ∧ spanAfter joystickXKey payload = some renderingX ∧
      spanAfter joystickYKey payload = some renderingY ∧
      bridgeExtractJoystick libc payload =
        .ok (some (readSpan libc renderingX, readSpan libc renderingY))
  sentTime : ∀ key located, locateSentTime frame = some (key, located) →
    ∃ found rendering, libc.printf 6 forwardNtpTime = some rendering ∧
      locateSentTime payload = some found ∧ found.2.span = rendering ∧
      bridgeExtractSentTime libc payload = .ok (some (readSpan libc rendering))
  noSentTime : locateSentTime frame = none →
    locateSentTime payload = none ∧ bridgeExtractSentTime libc payload = .ok none
  renamed : ∀ key located, locateSentTime frame = some (key, located) →
    ¬ sentKey <:+: frame → spanAfter sentKey payload = some located.span

/-- Every payload published with its joystick values rewritten, if the frame has any, is read
back. -/
theorem read_back {platform : Platform Double Variables}
    {process process' : Process Double Variables} {frame : List UInt8}
    {receivedNtpTime forwardNtpTime : Double} {forwarded : Forwarded Double}
    (plain : CallRenders platform process frame receivedNtpTime forwardNtpTime Plain)
    (call : bridgeServerForward platform process frame receivedNtpTime forwardNtpTime =
      .ok (process', forwarded))
    {record : Published Double} (published : forwarded.published = some record)
    (reformats : ∀ result ∈ record.reformatted, 0 ≤ result) :
    ReadsBack platform.libc frame process'.server.published forwardNtpTime := by
  obtain ⟨-, -, rfl⟩ | ⟨stamped, payload, n, stamp, rfl, rfl, holds⟩ :=
    bridgeServerForward_cases platform process frame _ _ call
  · cases published
  cases published
  have text : BridgeServer.published ⟨payload, n, process.server.protocol⟩ =
      publishedFrame platform process frame receivedNtpTime forwardNtpTime stamped := holds.reads
  have reformat : ∀ x y, joystickValues platform.libc frame = some (x, y) → ∃ result,
      reformatText platform.libc maxBridgedFrameLen x y (correctText platform.libc
        maxBridgedFrameLen (frameCorrection platform process frame receivedNtpTime
          forwardNtpTime).2 stamped) = some result := by
    intro x y values
    refine Option.ne_none_iff_exists'.mp fun failed => ?_
    rw [publishedRecord, spliceResults, values] at reformats
    have negative := reformats _ rfl
    dsimp only at negative
    rw [failed] at negative
    exact absurd negative (by decide)
  rw [stampedFrame] at stamp
  have other : ∀ key ∈ watchedKeys, key ≠ joystickXKey ∧ key ≠ joystickYKey →
      spanAfter key (BridgeServer.published ⟨payload, n, process.server.protocol⟩) =
        spanAfter key stamped := by
    intro key watched different
    rw [text, publishedFrame]
    exact spanAfter_publishedText_other watched different plain.publish reformat
  refine ⟨?_, ?_, ?_, ?_⟩
  · intro x y extracts
    rw [bridgeExtractJoystick_eq, Except.ok.injEq] at extracts
    obtain ⟨result, reformatted⟩ := reformat x y extracts
    obtain ⟨⟨spanX, -, readX⟩, spanY, -, readY⟩ := exists_spanAfter_of_joystickValues extracts
    have unquoted := fun value member => (plain.stamp value member).unquoted
    rw [← spanAfter_stampText (by decide) unquoted stamp] at readX readY
    obtain ⟨⟨renderingX, printedX, backX⟩, renderingY, printedY, backY⟩ :=
      spanAfter_publishedText_joystick (extracts ▸ plain.publish) readX readY reformatted
    have plainJoystick := plain.publish.joystick
    rw [extracts] at plainJoystick
    have plainX := plainJoystick x (by simp [joystickNumbers])
    have plainY := plainJoystick y (by simp [joystickNumbers])
    rw [text, publishedFrame, extracts]
    refine ⟨renderingX, renderingY, printedX, printedY, backX, backY, ?_⟩
    rw [bridgeExtractJoystick_eq, joystickValues,
      fieldValue_of_spanAfter (plainX _ printedX).1 backX,
      fieldValue_of_spanAfter (plainY _ printedY).1 backY]
    rfl
  · intro key located found
    obtain ⟨⟨rendering, printed, read⟩, -⟩ := stampText_sentTime plain.stamp found stamp
    rw [← other ntpKey (by decide) (by decide)] at read
    obtain ⟨located', found', span⟩ := locateSentTime_of_spanAfter read
    have plainForward : Renders platform.libc Plain 6 forwardNtpTime := by
      refine plain.stamp _ ?_
      rw [stampNumbers, stampTimes, found]
      exact List.mem_cons_self
    refine ⟨_, rendering, printed, found', span, ?_⟩
    rw [bridgeExtractSentTime_eq, found', Option.bind_some, span,
      if_neg (plainForward _ printed).1]
  · intro absent
    have raw : stamped = frame := by
      rw [stampText, absent] at stamp
      exact (within_eq_some_iff.mp stamp).1
    have none : locateSentTime
        (BridgeServer.published ⟨payload, n, process.server.protocol⟩) = none := by
      rw [locateSentTime_eq_none_iff_spanAfter] at absent ⊢
      rw [other ntpKey (by decide) (by decide), other timestampKey (by decide) (by decide), raw]
      exact absent
    refine ⟨none, ?_⟩
    rw [bridgeExtractSentTime_eq, none]
    rfl
  · intro key located found fresh
    rw [other sentKey (by decide) (by decide)]
    exact (stampText_sentTime plain.stamp found stamp).2 fresh

end

theorem exactLibc_renders_plain (places : Nat) (value : ℚ) :
    Renders exactLibc Plain places value := by
  rintro rendering ⟨⟩
  exact ⟨Decimal.fixed_ne_nil _ _, fun byte member => Decimal.byte_of_mem_fixed member⟩

/-- A frame with a sent time and joystick values, both after other members. -/
def fullFrame : List UInt8 :=
  ascii "\x7b\"id\":7,\"timestamp\": 0.5,\"joystick_y\":0,\"joystick_x\": 1e0\x7d"

theorem fullFrame_read_back : ∃ process' forwarded record,
    bridgeServerForward examplePlatform exampleProcess fullFrame 1 2 = .ok (process', forwarded) ∧
      forwarded.published = some record ∧ (∀ result ∈ record.reformatted, 0 ≤ result) ∧
      ReadsBack exactLibc fullFrame process'.server.published 2 := by
  obtain ⟨process', forwarded, call⟩ :=
    bridgeServerForward_ok examplePlatform exampleProcess fullFrame 1 2
  have computed : ((bridgeServerForward examplePlatform exampleProcess fullFrame 1
      2).toOption.bind fun result => result.2.published).map (fun record =>
        record.reformatted.all fun result => decide (0 ≤ result)) = some true := by
    decide +kernel
  rw [call] at computed
  obtain ⟨record, published, succeeds⟩ := Option.map_eq_some_iff.mp computed
  have reformats : ∀ result ∈ record.reformatted, 0 ≤ result := by
    intro result member
    rw [Option.mem_def.mp member] at succeeds
    exact of_decide_eq_true succeeds
  have plain := exactLibc_renders_plain
  have callPlain : CallRenders examplePlatform exampleProcess fullFrame 1 2 Plain :=
    ⟨fun value _ => plain 6 value, plain 6 _, fun value _ => plain 8 value,
      fun value _ => plain 6 value⟩
  exact ⟨process', forwarded, record, call, published, reformats,
    read_back callPlain call published reformats⟩

end ControllerBridge
