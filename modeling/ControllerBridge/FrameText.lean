/-
This file states what the functions of `frame_bridge.cpp` do to a frame as a
text, and proves that the model computes it.

The source finds a key, skips blanks and takes the longest run of numeric
bytes. On texts this is a cut into four stretches, `Located`, determined by the
key and the text (`Reads`). A step of the bridge is then a partial function on
texts: `stampText`, `replaceText` and `insertText` return the new text, or
nothing where the source returns `-1`. Each `_eq` theorem says that the source
function, on any frame and buffer, makes no access outside its ranges, returns
the length of the new text or `-1`, and leaves the new text at the start of the
buffer or the buffer as it was.
-/

import ControllerBridge.Library.Search
import ControllerBridge.FrameBridge

namespace ControllerBridge

open Region Search

/-! ### A key and its value in a text -/

/-- A text cut around a key: what stands before the key, the blanks after it, the numeric span,
and the rest. -/
structure Located where
  before : List UInt8
  blanks : List UInt8
  span : List UInt8
  after : List UInt8

/-- The cut of `text` at the first `key`: the blanks and the numeric span are as long as they
can be. -/
structure Reads (key text : List UInt8) (located : Located) : Prop where
  first : FirstAt key text located.before (located.blanks ++ (located.span ++ located.after))
  blanks : ∀ byte ∈ located.blanks, isBlank byte = true
  span : ∀ byte ∈ located.span, isNumeric byte = true
  starts : ∀ byte ∈ (located.span ++ located.after).head?, isBlank byte = false
  stops : ∀ byte ∈ located.after.head?, isNumeric byte = false

/-- The cut, computed. -/
def locate (key text : List UInt8) : Option Located :=
  (cutFirst key text).map fun pieces => {
    before := pieces.1
    blanks := pieces.2.takeWhile isBlank
    span := (pieces.2.dropWhile isBlank).takeWhile isNumeric
    after := (pieces.2.dropWhile isBlank).dropWhile isNumeric }

theorem locate_eq_some_iff {key text : List UInt8} {located : Located} (nonempty : key ≠ []) :
    locate key text = some located ↔ Reads key text located := by
  rw [locate, Option.map_eq_some_iff]
  constructor
  · rintro ⟨⟨before, rest⟩, found, rfl⟩
    have first := (cutFirst_eq_some_iff nonempty).mp found
    refine ⟨?_, ?_, ?_, ?_, stops_dropWhile _ _⟩
    · simpa only [List.takeWhile_append_dropWhile] using first
    · exact fun byte member => List.mem_takeWhile_imp member
    · exact fun byte member => List.mem_takeWhile_imp member
    · simpa only [List.takeWhile_append_dropWhile] using stops_dropWhile isBlank rest
  · intro reads
    refine ⟨_, (cutFirst_eq_some_iff nonempty).mpr reads.first, ?_⟩
    dsimp only
    rw [takeWhile_append_of_stops reads.blanks reads.starts,
      dropWhile_append_of_stops reads.blanks reads.starts,
      takeWhile_append_of_stops reads.span reads.stops,
      dropWhile_append_of_stops reads.span reads.stops]

theorem locate_eq_none_iff {key text : List UInt8} (nonempty : key ≠ []) :
    locate key text = none ↔ ¬ key <:+: text := by
  rw [locate, Option.map_eq_none_iff, cutFirst_eq_none_iff nonempty]

theorem Reads.unique {key text : List UInt8} {first second : Located} (nonempty : key ≠ [])
    (readsFirst : Reads key text first) (readsSecond : Reads key text second) :
    first = second := by
  have same := ((locate_eq_some_iff nonempty).mpr readsFirst).symm.trans
    ((locate_eq_some_iff nonempty).mpr readsSecond)
  exact Option.some_inj.mp same

/-- The text around a located key. -/
theorem Reads.text_eq {key text : List UInt8} {located : Located} (reads : Reads key text located) :
    text = located.before ++ key ++ located.blanks ++ located.span ++ located.after := by
  rw [reads.first.split]
  simp only [List.append_assoc]

/-! ### The searches of the source -/

theorem findSubstrLoop_eq {needle : List UInt8} (nonempty : needle ≠ []) (left right : List UInt8)
    (fuel : Nat) (enough : right.length < fuel) :
    findSubstrLoop (left ++ right) needle fuel left.length =
      .ok ((cutFirst needle right).map fun pieces => left.length + pieces.1.length) := by
  induction fuel generalizing left right with
  | zero => exact absurd enough (Nat.not_lt_zero _)
  | succ fuel inductionHypothesis =>
    have positive := List.length_pos_of_ne_nil nonempty
    rw [findSubstrLoop]
    by_cases fits : left.length + needle.length ≤ (left ++ right).length
    · have room : needle.length ≤ right.length := by
        rw [List.length_append] at fits
        omega
      rw [if_pos fits, slice_ok fits, List.drop_left, ok_bind]
      by_cases here : right.take needle.length = needle
      · have begins : needle <+: right := List.prefix_iff_eq_take.mpr here.symm
        rw [if_pos here]
        cases right with
        | nil => exact absurd (List.prefix_nil.mp begins) nonempty
        | cons head tail =>
          rw [cutFirst, if_pos begins]
          rfl
      · have beginsNot : ¬ needle <+: right := fun begins =>
          here (List.prefix_iff_eq_take.mp begins).symm
        rw [if_neg here]
        cases right with
        | nil =>
          rw [List.length_nil] at room
          omega
        | cons head tail =>
          have rest := inductionHypothesis (left ++ [head]) tail (Nat.lt_of_succ_lt_succ enough)
          rw [List.append_assoc, List.singleton_append, List.length_append,
            List.length_singleton] at rest
          rw [rest, cutFirst, if_neg beginsNot, Option.map_map]
          refine congrArg Except.ok (congrArg (Option.map · _) (funext fun pieces => ?_))
          simp only [Function.comp_apply, List.length_cons]
          omega
    · have absent : ¬ needle <:+: right := fun occurs => by
        have bound := occurs.length_le
        rw [List.length_append] at fits
        omega
      rw [if_neg fits, (cutFirst_eq_none_iff nonempty).mpr absent]
      rfl

/-- `find_substr` finds the first occurrence. -/
theorem findSubstr_eq {needle : List UInt8} (nonempty : needle ≠ []) (haystack : List UInt8) :
    findSubstr haystack needle =
      .ok ((locate needle haystack).map fun located => located.before.length) := by
  have positive := List.length_pos_of_ne_nil nonempty
  rw [findSubstr]
  split
  · rename_i short
    have absent : ¬ needle <:+: haystack := fun occurs => by
      have bound := occurs.length_le
      omega
    rw [(locate_eq_none_iff nonempty).mpr absent]
    rfl
  · have loop := findSubstrLoop_eq nonempty [] haystack (haystack.length + 1)
      (Nat.lt_succ_self _)
    rw [List.nil_append, List.length_nil] at loop
    rw [loop, locate, Option.map_map]
    refine congrArg Except.ok (congrArg (Option.map · _) (funext fun pieces => ?_))
    simp only [Function.comp_apply, Nat.zero_add]

theorem findValueSpan_eq {key text : List UInt8} {located : Located}
    (reads : Reads key text located) :
    findValueSpan text (located.before.length + key.length) =
      .ok (located.before.length + key.length + located.blanks.length,
        located.before.length + key.length + located.blanks.length + located.span.length) := by
  have split := reads.text_eq
  have blanks := scanWhile_append isBlank (located.before ++ key)
    (located.blanks ++ (located.span ++ located.after)) text.length (by
      rw [split]
      simp only [List.length_append]
      omega)
  have span := scanWhile_append isNumeric (located.before ++ key ++ located.blanks)
    (located.span ++ located.after) text.length (by
      rw [split]
      simp only [List.length_append]
      omega)
  rw [takeWhile_append_of_stops reads.blanks reads.starts] at blanks
  rw [takeWhile_append_of_stops reads.span reads.stops] at span
  have whole : located.before ++ key ++ (located.blanks ++ (located.span ++ located.after)) =
      text := by
    rw [split]
    simp only [List.append_assoc]
  have whole' : located.before ++ key ++ located.blanks ++ (located.span ++ located.after) =
      text := by
    rw [split]
    simp only [List.append_assoc]
  rw [whole, List.length_append] at blanks
  rw [whole', List.length_append, List.length_append] at span
  rw [findValueSpan, blanks, ok_bind, span, ok_bind]

/-- The number the bridge reads from a span: at most 63 of its bytes go to `strtod`. -/
def readSpan {Double : Type} (libc : Libc Double) (span : List UInt8) : Double :=
  libc.strtod (span.take 63)

theorem parseDoubleSpan_eq {Double : Type} (libc : Libc Double) {key text : List UInt8}
    {located : Located} (reads : Reads key text located) :
    parseDoubleSpan libc text (located.before.length + key.length + located.blanks.length)
        (located.before.length + key.length + located.blanks.length + located.span.length) =
      .ok (readSpan libc located.span) := by
  have start : (located.before ++ key ++ located.blanks).length =
      located.before.length + key.length + located.blanks.length := by
    simp only [List.length_append]
  rw [← start, parseDoubleSpan, subtract_ok (Nat.le_add_right _ _), Nat.add_sub_cancel_left,
    ok_bind]
  dsimp only
  have taken : (if 64 ≤ located.span.length then 64 - 1 else located.span.length) =
      (located.span.take 63).length := by
    rw [List.length_take]
    split <;> omega
  have cut : text = located.before ++ key ++ located.blanks ++ located.span.take 63 ++
      (located.span.drop 63 ++ located.after) := by
    rw [reads.text_eq]
    nth_rewrite 1 [← List.take_append_drop 63 located.span]
    simp only [List.append_assoc]
  have short : (located.span.take 63).length ≤ 63 := List.length_take_le _ _
  have copied := (Buffer.zeroed 64).store_put [] (located.span.take 63) (by
    rw [List.length_nil]
    omega)
  have ended := (Buffer.zeroed 64).store_put (located.span.take 63) [0] (by
    rw [List.length_singleton]
    omega)
  rw [Buffer.put_nil, List.length_nil, List.nil_append] at copied
  rw [taken, cut, slice_middle, ok_bind, copied, ok_bind, ended, ok_bind, readSpan]
  have fits : (located.span.take 63 ++ [0]).length ≤ 64 := by
    rw [List.length_append, List.length_singleton]
    omega
  have kept := (Buffer.zeroed 64).text_put fits
  exact congrArg (fun buf => Except.ok (libc.strtod buf)) (Buffer.text_front _ kept)

/-! ### The sent-time key -/

theorem ntpKey_ne_nil : ntpKey ≠ [] := by decide

theorem timestampKey_ne_nil : timestampKey ≠ [] := by decide

theorem joystickXKey_ne_nil : joystickXKey ≠ [] := by decide

theorem joystickYKey_ne_nil : joystickYKey ≠ [] := by decide

/-- The sent-time key of a text with its cut: `"ntp_time":`, else `"timestamp":`. -/
def locateSentTime (text : List UInt8) : Option (List UInt8 × Located) :=
  match locate ntpKey text with
  | some located => some (ntpKey, located)
  | none => (locate timestampKey text).map fun located => (timestampKey, located)

theorem reads_of_locateSentTime {text key : List UInt8} {located : Located}
    (found : locateSentTime text = some (key, located)) : Reads key text located := by
  rw [locateSentTime] at found
  split at found
  · rename_i located' here
    cases found
    exact (locate_eq_some_iff ntpKey_ne_nil).mp here
  · rw [Option.map_eq_some_iff] at found
    obtain ⟨located', here, same⟩ := found
    cases same
    exact (locate_eq_some_iff timestampKey_ne_nil).mp here

theorem locateSentTime_eq_none_iff {text : List UInt8} :
    locateSentTime text = none ↔ ¬ ntpKey <:+: text ∧ ¬ timestampKey <:+: text := by
  rw [← locate_eq_none_iff ntpKey_ne_nil, ← locate_eq_none_iff timestampKey_ne_nil,
    locateSentTime]
  cases locate ntpKey text <;> simp

theorem findSentTimeKey_eq (text : List UInt8) :
    findSentTimeKey text =
      .ok ((locateSentTime text).map fun found =>
        (found.2.before.length, found.1.length)) := by
  rw [findSentTimeKey, findSubstr_eq ntpKey_ne_nil, ok_bind, locateSentTime]
  cases locate ntpKey text with
  | some located => rfl
  | none =>
    dsimp only [Option.map_none]
    rw [findSubstr_eq timestampKey_ne_nil, ok_bind]
    cases locate timestampKey text <;> rfl

section

variable {Double : Type} (libc : Libc Double)

/-- `bridge_extract_sent_time` reads a span that is not empty. -/
theorem bridgeExtractSentTime_eq (text : List UInt8) :
    bridgeExtractSentTime libc text =
      .ok ((locateSentTime text).bind fun found =>
        if found.2.span = [] then none else some (readSpan libc found.2.span)) := by
  rw [bridgeExtractSentTime, findSentTimeKey_eq, ok_bind]
  cases found : locateSentTime text with
  | none => rfl
  | some pair =>
    obtain ⟨key, located⟩ := pair
    have reads := reads_of_locateSentTime found
    dsimp only [Option.map_some, Option.bind_some]
    rw [findValueSpan_eq reads, ok_bind]
    dsimp only
    by_cases empty : located.span = []
    · rw [if_pos (by rw [empty]; rfl), if_pos empty]
    · have positive := List.length_pos_of_ne_nil empty
      rw [if_neg (by omega), if_neg empty, parseDoubleSpan_eq libc reads, ok_bind]

/-- The value after a key, where its span is not empty. -/
def fieldValue (key text : List UInt8) : Option Double :=
  (locate key text).bind fun located =>
    if located.span = [] then none else some (readSpan libc located.span)

theorem extractDoubleField_eq {key : List UInt8} (nonempty : key ≠ []) (text : List UInt8) :
    extractDoubleField libc text key = .ok (fieldValue libc key text) := by
  rw [extractDoubleField, findSubstr_eq nonempty, ok_bind, fieldValue]
  cases found : locate key text with
  | none => rfl
  | some located =>
    have reads := (locate_eq_some_iff nonempty).mp found
    dsimp only [Option.map_some, Option.bind_some]
    rw [findValueSpan_eq reads, ok_bind]
    dsimp only
    by_cases empty : located.span = []
    · rw [if_pos (by rw [empty]; rfl), if_pos empty]
    · have positive := List.length_pos_of_ne_nil empty
      rw [if_neg (by omega), if_neg empty, parseDoubleSpan_eq libc reads, ok_bind]

/-- The joystick values of a frame. -/
def joystickValues (text : List UInt8) : Option (Double × Double) :=
  (fieldValue libc joystickXKey text).bind fun x =>
    (fieldValue libc joystickYKey text).map fun y => (x, y)

theorem bridgeExtractJoystick_eq (text : List UInt8) :
    bridgeExtractJoystick libc text = .ok (joystickValues libc text) := by
  rw [bridgeExtractJoystick, extractDoubleField_eq libc joystickXKey_ne_nil, ok_bind,
    joystickValues]
  cases fieldValue libc joystickXKey text with
  | none => rfl
  | some x =>
    dsimp only [Option.bind_some]
    rw [extractDoubleField_eq libc joystickYKey_ne_nil, ok_bind]
    cases fieldValue libc joystickYKey text <;> rfl

end

/-! ### Steps on texts -/

/-- A text that fits the capacity. -/
def within (capacity : Nat) (text : List UInt8) : Option (List UInt8) :=
  if text.length ≤ capacity then some text else none

theorem within_eq_some_iff {capacity : Nat} {text result : List UInt8} :
    within capacity text = some result ↔ result = text ∧ text.length ≤ capacity := by
  rw [within]
  split
  · rename_i fits
    rw [Option.some_inj]
    exact ⟨fun same => ⟨same.symm, fits⟩, fun same => same.1.symm⟩
  · rename_i fitsNot
    exact ⟨fun impossible => (nomatch impossible), fun same => absurd same.2 fitsNot⟩

/-- The `int` a source function returns for the text it leaves, `-1` for none. -/
def intResult : Option (List UInt8) → Int
  | none => -1
  | some text => toInt text.length

/-- The buffer a source function leaves: the new text at its start, or the old buffer. -/
def putResult {capacity : Nat} (buffer : Buffer capacity) : Option (List UInt8) → Buffer capacity
  | none => buffer
  | some text => buffer.put text

/-- The stamped frame around the sent time. -/
def stampedText (located : Located) (forward processing transfer received : List UInt8) :
    List UInt8 :=
  located.before ++ sentKey ++ located.span ++ newNtpKey ++ forward ++ processingKey ++
    processing ++ transferKey ++ transfer ++ receivedKey ++ received ++ located.after

theorem stampedText_length (located : Located) (forward processing transfer received : List UInt8) :
    (stampedText located forward processing transfer received).length =
      located.before.length + sentKey.length + located.span.length + newNtpKey.length +
        forward.length + processingKey.length + processing.length + transferKey.length +
        transfer.length + receivedKey.length + received.length + located.after.length := by
  simp only [stampedText, List.length_append]

section

variable {Double : Type} [Sub Double] (libc : Libc Double) (capacity : Nat)

/-- The transfer and processing times of a frame that has a sent time. -/
def stampTimes (text : List UInt8) (receivedNtpTime forwardNtpTime : Double) :
    Option (Double × Double) :=
  (locateSentTime text).map fun found =>
    (receivedNtpTime - readSpan libc found.2.span, forwardNtpTime - receivedNtpTime)

/-- What `bridge_stamp_frame` makes of a frame. -/
def stampText (text : List UInt8) (receivedNtpTime forwardNtpTime : Double) :
    Option (List UInt8) :=
  match locateSentTime text with
  | none => within capacity text
  | some (_, located) => do
    let forward ← fitting 32 (libc.printf 6 forwardNtpTime)
    let received ← fitting 32 (libc.printf 6 receivedNtpTime)
    let processing ← fitting 32 (libc.printf 6 (forwardNtpTime - receivedNtpTime))
    let transfer ←
      fitting 32 (libc.printf 6 (receivedNtpTime - readSpan libc located.span))
    within capacity (stampedText located forward processing transfer received)

end

section

variable {Double : Type} (libc : Libc Double) (capacity : Nat)

/-- What `replace_value_for_key` makes of a text: one without the key stays. -/
def replaceText (key : List UInt8) (value : Double) (text : List UInt8) : Option (List UInt8) :=
  match locate key text with
  | none => some text
  | some located => do
    let rendering ← fitting 32 (libc.printf 8 value)
    within capacity (located.before ++ key ++ located.blanks ++ rendering ++ located.after)

/-- Both joystick values of a text rewritten, or neither. -/
def reformatText (joystickX joystickY : Double) (text : List UInt8) : Option (List UInt8) :=
  (replaceText libc capacity joystickXKey joystickX text).bind
    (replaceText libc capacity joystickYKey joystickY)

/-- Fields inserted before the last closing brace of a text. -/
def insertText (fields text : List UInt8) : Option (List UInt8) :=
  (cutLast closingBrace text).bind fun pieces =>
    within capacity (pieces.1 ++ fields ++ closingBrace :: pieces.2)

/-- What `bridge_append_motor_fields` makes of a text. -/
def appendMotorText (m1 m2 m3 m4 : Double) (text : List UInt8) : Option (List UInt8) :=
  (fitting 192 (motorFields libc m1 m2 m3 m4)).bind fun fields => insertText capacity fields text

/-- What `bridge_append_field` makes of a text. -/
def appendFieldText (key : List UInt8) (value : Double) (text : List UInt8) :
    Option (List UInt8) :=
  (fitting 128 (fieldText libc key value)).bind fun field => insertText capacity field text

end

/-! ### The source functions compute the steps -/

/-- The stretches of a text cut around a key, read by their offsets. -/
theorem Reads.slices {key text : List UInt8} {located : Located} (reads : Reads key text located) :
    slice text 0 located.before.length = .ok located.before ∧
    slice text (located.before.length + key.length + located.blanks.length) located.span.length =
      .ok located.span ∧
    slice text
        (located.before.length + key.length + located.blanks.length + located.span.length)
        located.after.length = .ok located.after := by
  have split := reads.text_eq
  refine ⟨?_, ?_, ?_⟩
  · rw [split, List.append_assoc, List.append_assoc, List.append_assoc]
    exact slice_head _ _
  · rw [split, ← List.length_append, ← List.length_append]
    exact slice_middle _ _ _
  · rw [split, ← List.length_append, ← List.length_append, ← List.length_append]
    exact slice_tail _ _

/-- The macro `APPEND`, run over its pieces, writes them one after the other. -/
theorem foldlM_appendPiece {capacity : Nat} (pieces : List (List UInt8 × Nat × Nat))
    (texts : List (List UInt8))
    (read : List.Forall₂ (fun piece text =>
      slice piece.1 piece.2.1 piece.2.2 = .ok text ∧ piece.2.2 = text.length) pieces texts)
    (buffer : Buffer capacity) (written : List UInt8)
    (fits : written.length + texts.flatten.length ≤ capacity) :
    pieces.foldlM appendPiece (buffer.put written, written.length) =
      .ok (buffer.put (written ++ texts.flatten), written.length + texts.flatten.length) := by
  induction read generalizing written with
  | nil =>
    rw [List.flatten_nil, List.append_nil]
    rfl
  | @cons piece text pieces texts here _ inductionHypothesis =>
    rw [List.flatten_cons, List.length_append] at fits
    have stored := buffer.store_put written text (by omega)
    have rest := inductionHypothesis (written ++ text) (by rw [List.length_append]; omega)
    rw [List.foldlM_cons, appendPiece]
    dsimp only
    rw [here.1, ok_bind, stored, ok_bind, here.2, ok_bind, ← List.length_append, rest,
      List.flatten_cons, List.append_assoc, List.length_append, List.length_append, Nat.add_assoc]

section

variable {Double : Type} [Sub Double] (libc : Libc Double) {capacity : Nat}

theorem bridgeStampFrame_eq (text : List UInt8) (receivedNtpTime forwardNtpTime : Double)
    (out : Buffer capacity) :
    bridgeStampFrame libc text receivedNtpTime forwardNtpTime out =
      .ok {
        returned := intResult (stampText libc capacity text receivedNtpTime forwardNtpTime)
        out := putResult out (stampText libc capacity text receivedNtpTime forwardNtpTime)
        timing := stampTimes libc text receivedNtpTime forwardNtpTime } := by
  rw [bridgeStampFrame, findSentTimeKey_eq, ok_bind, stampText, stampTimes]
  cases found : locateSentTime text with
  | none =>
    dsimp only [Option.map_none]
    by_cases fits : text.length ≤ capacity
    · have stored := out.store_put [] text (by rw [List.length_nil]; omega)
      rw [out.put_nil, List.length_nil, List.nil_append] at stored
      rw [if_neg (Nat.not_lt.mpr fits), stored, ok_bind, within, if_pos fits]
      rfl
    · rw [if_pos (Nat.lt_of_not_le fits), within, if_neg fits]
      rfl
  | some pair =>
    obtain ⟨key, located⟩ := pair
    have reads := reads_of_locateSentTime found
    dsimp only [Option.map_some]
    rw [findValueSpan_eq reads, ok_bind]
    dsimp only
    rw [parseDoubleSpan_eq libc reads, ok_bind]
    simp only [refused_snprintf]
    cases forward : fitting 32 (libc.printf 6 forwardNtpTime) with
    | none => rfl
    | some forwardText =>
    cases received : fitting 32 (libc.printf 6 receivedNtpTime) with
    | none => rfl
    | some receivedText =>
    cases processing : fitting 32 (libc.printf 6 (forwardNtpTime - receivedNtpTime)) with
    | none => rfl
    | some processingText =>
    cases transfer : fitting 32
        (libc.printf 6 (receivedNtpTime - readSpan libc located.span)) with
    | none => rfl
    | some transferText =>
    have split := reads.text_eq
    have length := congrArg List.length split
    simp only [List.length_append] at length
    rw [if_neg (by simp), subtract_ok (Nat.le_add_right _ _), ok_bind, subtract_ok (by omega),
      ok_bind]
    have tail : text.length -
        (located.before.length + key.length + located.blanks.length + located.span.length) =
        located.after.length := by
      omega
    simp only [length_snprintf forward, length_snprintf received, length_snprintf processing,
      length_snprintf transfer, Nat.add_sub_cancel_left, tail, Option.bind_eq_bind,
      Option.bind_some]
    rw [← stampedText_length located forwardText processingText transferText receivedText]
    by_cases fits : (stampedText located forwardText processingText transferText
        receivedText).length ≤ capacity
    · obtain ⟨sliceBefore, sliceSpan, sliceAfter⟩ := reads.slices
      have copied := foldlM_appendPiece
        [(text, 0, located.before.length), (sentKey, 0, sentKey.length),
          (text, located.before.length + key.length + located.blanks.length,
            located.span.length),
          (newNtpKey, 0, newNtpKey.length),
          ((snprintf 32 (libc.printf 6 forwardNtpTime)).bytes, 0, forwardText.length),
          (processingKey, 0, processingKey.length),
          ((snprintf 32 (libc.printf 6 (forwardNtpTime - receivedNtpTime))).bytes, 0,
            processingText.length),
          (transferKey, 0, transferKey.length),
          ((snprintf 32
            (libc.printf 6 (receivedNtpTime - readSpan libc located.span))).bytes, 0,
            transferText.length),
          (receivedKey, 0, receivedKey.length),
          ((snprintf 32 (libc.printf 6 receivedNtpTime)).bytes, 0, receivedText.length),
          (text, located.before.length + key.length + located.blanks.length +
            located.span.length, located.after.length)]
        [located.before, sentKey, located.span, newNtpKey, forwardText, processingKey,
          processingText, transferKey, transferText, receivedKey, receivedText, located.after]
        (.cons ⟨sliceBefore, rfl⟩ (.cons ⟨slice_all _, rfl⟩ (.cons ⟨sliceSpan, rfl⟩
          (.cons ⟨slice_all _, rfl⟩ (.cons ⟨slice_snprintf forward, rfl⟩
          (.cons ⟨slice_all _, rfl⟩ (.cons ⟨slice_snprintf processing, rfl⟩
          (.cons ⟨slice_all _, rfl⟩ (.cons ⟨slice_snprintf transfer, rfl⟩
          (.cons ⟨slice_all _, rfl⟩ (.cons ⟨slice_snprintf received, rfl⟩
          (.cons ⟨sliceAfter, rfl⟩ .nil))))))))))))
        out []
      have flat : [located.before, sentKey, located.span, newNtpKey, forwardText, processingKey,
          processingText, transferKey, transferText, receivedKey, receivedText,
          located.after].flatten =
          stampedText located forwardText processingText transferText receivedText := by
        simp only [stampedText, List.flatten_cons, List.flatten_nil, List.append_nil,
          List.append_assoc]
      rw [flat, out.put_nil, List.length_nil, Nat.zero_add, List.nil_append] at copied
      rw [if_neg (Nat.not_lt.mpr fits), copied fits, ok_bind, within, if_pos fits]
      rfl
    · rw [if_pos (Nat.lt_of_not_le fits), within, if_neg fits]
      rfl

end

section

variable {Double : Type} (libc : Libc Double) {capacity : Nat}

theorem replaceValueForKey_eq {key : List UInt8} (nonempty : key ≠ []) (buffer : Buffer capacity)
    {length : Nat} (bound : length ≤ capacity) (value : Double) :
    replaceValueForKey libc buffer length key value =
      .ok (intResult (replaceText libc capacity key value (buffer.text length)),
        putResult buffer (replaceText libc capacity key value (buffer.text length))) := by
  rw [replaceValueForKey, findSubstr_eq nonempty, ok_bind, replaceText]
  cases found : locate key (buffer.text length) with
  | none =>
    dsimp only [Option.map_none]
    rw [putResult, buffer.put_text_self bound, intResult, buffer.text_length bound]
  | some located =>
    have reads := (locate_eq_some_iff nonempty).mp found
    dsimp only [Option.map_some]
    rw [findValueSpan_eq reads, ok_bind]
    simp only [refused_snprintf]
    cases rendered : fitting 32 (libc.printf 8 value) with
    | none => rfl
    | some rendering =>
      have split := reads.text_eq
      have total := congrArg List.length split
      simp only [List.length_append, buffer.text_length bound] at total
      have tail : length -
          (located.before.length + key.length + located.blanks.length + located.span.length) =
          located.after.length := by
        omega
      rw [if_neg (by simp), subtract_ok (Nat.le_add_right _ _), ok_bind,
        subtract_ok (by omega), ok_bind]
      simp only [length_snprintf rendered, tail, Option.bind_eq_bind, Option.bind_some]
      have newLength : (located.before ++ key ++ located.blanks ++ rendering ++
          located.after).length =
          located.before.length + key.length + located.blanks.length + rendering.length +
            located.after.length := by
        simp only [List.length_append]
      rw [← newLength]
      by_cases fits : (located.before ++ key ++ located.blanks ++ rendering ++
          located.after).length ≤ capacity
      · rw [List.append_assoc _ located.span] at split
        obtain ⟨moved, moves, fills⟩ := buffer.store_gap split rendering located.after fits
        rw [List.length_append, List.length_append] at moves fills
        rw [if_neg (Nat.not_lt.mpr fits), reads.slices.2.2, ok_bind, moves, ok_bind,
          slice_snprintf rendered, ok_bind, fills, ok_bind, within, if_pos fits, putResult,
          intResult]
      · rw [if_pos (Nat.lt_of_not_le fits), within, if_neg fits]
        rfl

/-- A rewritten text fits the capacity. -/
theorem replaceText_length_le {key : List UInt8} {value : Double} {text result : List UInt8}
    (bound : text.length ≤ capacity)
    (replaced : replaceText libc capacity key value text = some result) :
    result.length ≤ capacity := by
  rw [replaceText] at replaced
  split at replaced
  · cases replaced
    exact bound
  · rw [Option.bind_eq_bind, Option.bind_eq_some_iff] at replaced
    obtain ⟨rendering, -, fits⟩ := replaced
    obtain ⟨rfl, short⟩ := within_eq_some_iff.mp fits
    exact short

theorem reformatText_length_le {joystickX joystickY : Double} {text result : List UInt8}
    (bound : text.length ≤ capacity)
    (reformatted : reformatText libc capacity joystickX joystickY text = some result) :
    result.length ≤ capacity := by
  rw [reformatText, Option.bind_eq_some_iff] at reformatted
  obtain ⟨first, replacedX, replacedY⟩ := reformatted
  exact replaceText_length_le libc (replaceText_length_le libc bound replacedX) replacedY

/-- `bridge_reformat_joystick`: when the second rewrite fails, what the first one wrote stays in
the buffer. -/
theorem bridgeReformatJoystick_eq (small : capacity ≤ intMax) (buffer : Buffer capacity)
    {length : Nat} (bound : length ≤ capacity) (joystickX joystickY : Double) :
    bridgeReformatJoystick libc buffer length joystickX joystickY =
      .ok (match replaceText libc capacity joystickXKey joystickX (buffer.text length) with
        | none => (-1, buffer)
        | some first =>
          (intResult (replaceText libc capacity joystickYKey joystickY first),
            putResult (buffer.put first)
              (replaceText libc capacity joystickYKey joystickY first))) := by
  rw [bridgeReformatJoystick, replaceValueForKey_eq libc joystickXKey_ne_nil buffer bound, ok_bind]
  dsimp only
  cases replaced : replaceText libc capacity joystickXKey joystickX (buffer.text length) with
  | none => rfl
  | some first =>
    have fits := replaceText_length_le libc (buffer.text_length bound |>.le.trans bound) replaced
    have converted := toInt_of_le (fits.trans small)
    rw [intResult, if_neg (by rw [converted]; omega), converted, Int.toNat_natCast,
      replaceValueForKey_eq libc joystickYKey_ne_nil _ fits, putResult, buffer.text_put fits]

theorem insertBeforeClosingBrace_eq (buffer : Buffer capacity) {length : Nat}
    (bound : length ≤ capacity) {source fields : List UInt8}
    (read : slice source 0 fields.length = .ok fields) :
    insertBeforeClosingBrace buffer length source fields.length =
      .ok (intResult (insertText capacity fields (buffer.text length)),
        putResult buffer (insertText capacity fields (buffer.text length))) := by
  have size := buffer.text_length bound
  rw [insertBeforeClosingBrace, insertText]
  dsimp only
  cases found : cutLast closingBrace (buffer.text length) with
  | none =>
    have scan := scanBack_absent _ (cutLast_eq_none_iff.mp found)
    rw [size] at scan
    rw [scan, ok_bind]
    rfl
  | some pieces =>
    obtain ⟨before, after⟩ := pieces
    have last := cutLast_eq_some_iff.mp found
    have scan := scanBack_found before after last.fresh
    have total := congrArg List.length last.split
    rw [← last.split, size] at scan
    rw [List.length_append, List.length_cons, size] at total
    have tail : length - before.length = (closingBrace :: after).length := by
      rw [List.length_cons]
      omega
    rw [scan, ok_bind, if_neg (Nat.succ_ne_zero _), Nat.add_sub_cancel, subtract_ok (by omega),
      ok_bind, tail, Option.bind_some]
    dsimp only
    have newLength : (before ++ fields ++ closingBrace :: after).length =
        before.length + fields.length + (closingBrace :: after).length := by
      simp only [List.length_append]
    rw [← newLength]
    by_cases fits : (before ++ fields ++ closingBrace :: after).length ≤ capacity
    · obtain ⟨moved, moves, fills⟩ :=
        buffer.store_gap last.split fields (closingBrace :: after) fits
      have sliceTail : slice (buffer.text length) before.length (closingBrace :: after).length =
          .ok (closingBrace :: after) := by
        rw [last.split]
        exact slice_tail _ _
      rw [if_neg (Nat.not_lt.mpr fits), sliceTail, ok_bind, moves, ok_bind, read, ok_bind, fills,
        ok_bind, within, if_pos fits, putResult, intResult]
    · rw [if_pos (Nat.lt_of_not_le fits), within, if_neg fits]
      rfl

theorem bridgeAppendMotorFields_eq (buffer : Buffer capacity) {length : Nat}
    (bound : length ≤ capacity) (m1 m2 m3 m4 : Double) :
    bridgeAppendMotorFields libc buffer length m1 m2 m3 m4 =
      .ok (intResult (appendMotorText libc capacity m1 m2 m3 m4 (buffer.text length)),
        putResult buffer (appendMotorText libc capacity m1 m2 m3 m4 (buffer.text length))) := by
  rw [bridgeAppendMotorFields, appendMotorText]
  simp only [refused_snprintf]
  cases fields : fitting 192 (motorFields libc m1 m2 m3 m4) with
  | none => rfl
  | some text =>
    rw [if_neg (by simp), length_snprintf fields, Option.bind_some]
    exact insertBeforeClosingBrace_eq buffer bound (slice_snprintf fields)

theorem bridgeAppendField_eq (buffer : Buffer capacity) {length : Nat}
    (bound : length ≤ capacity) (key : List UInt8) (value : Double) :
    bridgeAppendField libc buffer length key value =
      .ok (intResult (appendFieldText libc capacity key value (buffer.text length)),
        putResult buffer (appendFieldText libc capacity key value (buffer.text length))) := by
  rw [bridgeAppendField, appendFieldText]
  simp only [refused_snprintf]
  cases field : fitting 128 (fieldText libc key value) with
  | none => rfl
  | some text =>
    rw [if_neg (by simp), length_snprintf field, Option.bind_some]
    exact insertBeforeClosingBrace_eq buffer bound (slice_snprintf field)

end

end ControllerBridge
