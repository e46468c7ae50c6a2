/-
This file is the model of `frame_bridge.cpp`.

Each function keeps the source's name, its order of searches, checks and
copies, and its results: an `int` that is `-1` on failure, the buffer as it
leaves it, and the timing outputs it has written by then. A frame that is only
read is the list of its bytes; an output or in-place buffer is a `Buffer` whose
capacity is the function's capacity argument. Every access is checked, so that
a run that returns `ok` stayed inside the frame, the buffer and the local
arrays.
-/

import ControllerBridge.Platform

namespace ControllerBridge

open Region

/-! ### Searching and scanning -/

/-- The loop of `find_substr`. `fuel` bounds the positions tried. -/
def findSubstrLoop (haystack needle : List UInt8) : Nat → Nat → Checked (Option Nat)
  | 0, _ => .ok none
  | fuel + 1, index =>
    if index + needle.length ≤ haystack.length then do
      let window ← slice haystack index needle.length
      if window = needle then .ok (some index) else findSubstrLoop haystack needle fuel (index + 1)
    else .ok none

def findSubstr (haystack needle : List UInt8) : Checked (Option Nat) :=
  if needle.length = 0 ∨ haystack.length < needle.length then .ok none
  else findSubstrLoop haystack needle (haystack.length + 1) 0

/-- The whitespace `find_value_span` skips: spaces and tabs only. -/
def isBlank (byte : UInt8) : Bool := byte == 0x20 || byte == 0x09

/-- The bytes `find_value_span` takes for a number: digits and `.`, `-`, `+`, `e`, `E`. -/
def isNumeric (byte : UInt8) : Bool :=
  (0x30 ≤ byte && byte ≤ 0x39) || byte == 0x2E || byte == 0x2D || byte == 0x2B ||
    byte == 0x65 || byte == 0x45

/-- The start and the end of the value span after a key. -/
def findValueSpan (frame : List UInt8) (keyEnd : Nat) : Checked (Nat × Nat) := do
  let start ← scanWhile isBlank frame frame.length keyEnd
  let stop ← scanWhile isNumeric frame frame.length start
  .ok (start, stop)

/-- At most 63 bytes of the span are copied to a local array of 64, and read up to the terminator
behind them. -/
def parseDoubleSpan {Double : Type} (libc : Libc Double) (frame : List UInt8)
    (start stop : Nat) : Checked Double := do
  let length ← subtract stop start
  let length := if 64 ≤ length then 64 - 1 else length
  let data ← slice frame start length
  let buf ← (Buffer.zeroed 64).store 0 data
  let buf ← buf.store length [0]
  .ok (libc.strtod (buf.text length))

/-! ### The sent-time key -/

def ntpKey : List UInt8 := ascii "\"ntp_time\":"

def timestampKey : List UInt8 := ascii "\"timestamp\":"

/-- The position and the length of the sent-time key: `"ntp_time":`, else `"timestamp":`. -/
def findSentTimeKey (frame : List UInt8) : Checked (Option (Nat × Nat)) := do
  match ← findSubstr frame ntpKey with
  | some position => .ok (some (position, ntpKey.length))
  | none =>
    match ← findSubstr frame timestampKey with
    | some position => .ok (some (position, timestampKey.length))
    | none => .ok none

section

variable {Double : Type} (libc : Libc Double)

/-- The value, when the result is `0`. -/
def bridgeExtractSentTime (frame : List UInt8) : Checked (Option Double) := do
  match ← findSentTimeKey frame with
  | none => .ok none
  | some (keyStart, keyLength) =>
    let (valueStart, valueEnd) ← findValueSpan frame (keyStart + keyLength)
    if valueStart = valueEnd then .ok none
    else do
      let value ← parseDoubleSpan libc frame valueStart valueEnd
      .ok (some value)

end

/-! ### Stamping -/

def sentKey : List UInt8 := ascii "\"controller_sent_ntp_time\":"

def newNtpKey : List UInt8 := ascii ",\"ntp_time\":"

def processingKey : List UInt8 := ascii ",\"base_station_processing_time\":"

def transferKey : List UInt8 := ascii ",\"frame_transfer_time\":"

def receivedKey : List UInt8 := ascii ",\"controller_to_base_station_received_ntp_time\":"

/-- What a call of `bridge_stamp_frame` leaves behind: its result, the output buffer, and the
transfer and processing times, if it has written them. -/
structure Stamped (Double : Type) (capacity : Nat) where
  returned : Int
  out : Buffer capacity
  timing : Option (Double × Double)

/-- The macro `APPEND`: `count` bytes of `source` from `start` on, copied to `out + pos`. -/
def appendPiece {capacity : Nat} (position : Buffer capacity × Nat)
    (piece : List UInt8 × Nat × Nat) : Checked (Buffer capacity × Nat) := do
  let (source, start, count) := piece
  let data ← slice source start count
  let out ← position.1.store position.2 data
  .ok (out, position.2 + count)

section

variable {Double : Type} [Sub Double] (libc : Libc Double) {capacity : Nat}

def bridgeStampFrame (frame : List UInt8) (receivedNtpTime forwardNtpTime : Double)
    (out : Buffer capacity) : Checked (Stamped Double capacity) := do
  match ← findSentTimeKey frame with
  | none =>
    if capacity < frame.length then .ok ⟨-1, out, none⟩
    else do
      let out ← out.store 0 frame
      .ok ⟨toInt frame.length, out, none⟩
  | some (keyStart, keyLength) =>
    let (valueStart, valueEnd) ← findValueSpan frame (keyStart + keyLength)
    let sentNtpTime ← parseDoubleSpan libc frame valueStart valueEnd
    let frameTransferTime := receivedNtpTime - sentNtpTime
    let processingTime := forwardNtpTime - receivedNtpTime
    let timing := some (frameTransferTime, processingTime)
    let forwardBuf := snprintf 32 (libc.printf 6 forwardNtpTime)
    let receivedBuf := snprintf 32 (libc.printf 6 receivedNtpTime)
    let processingBuf := snprintf 32 (libc.printf 6 processingTime)
    let transferBuf := snprintf 32 (libc.printf 6 frameTransferTime)
    if forwardBuf.refused 32 || receivedBuf.refused 32 || processingBuf.refused 32 ||
        transferBuf.refused 32 then .ok ⟨-1, out, timing⟩
    else do
      let sentValueLength ← subtract valueEnd valueStart
      let tailLength ← subtract frame.length valueEnd
      let total := keyStart + sentKey.length + sentValueLength +
        newNtpKey.length + forwardBuf.length.toNat +
        processingKey.length + processingBuf.length.toNat +
        transferKey.length + transferBuf.length.toNat +
        receivedKey.length + receivedBuf.length.toNat + tailLength
      if capacity < total then .ok ⟨-1, out, timing⟩
      else do
        let (out, position) ← [(frame, 0, keyStart), (sentKey, 0, sentKey.length),
          (frame, valueStart, sentValueLength),
          (newNtpKey, 0, newNtpKey.length), (forwardBuf.bytes, 0, forwardBuf.length.toNat),
          (processingKey, 0, processingKey.length),
          (processingBuf.bytes, 0, processingBuf.length.toNat),
          (transferKey, 0, transferKey.length),
          (transferBuf.bytes, 0, transferBuf.length.toNat),
          (receivedKey, 0, receivedKey.length),
          (receivedBuf.bytes, 0, receivedBuf.length.toNat),
          (frame, valueEnd, tailLength)].foldlM appendPiece (out, 0)
        .ok ⟨toInt position, out, timing⟩

end

/-! ### The joystick fields -/

def joystickXKey : List UInt8 := ascii "\"joystick_x\":"

def joystickYKey : List UInt8 := ascii "\"joystick_y\":"

section

variable {Double : Type} (libc : Libc Double)

/-- The value after `key`, when the result is `0`. -/
def extractDoubleField (frame key : List UInt8) : Checked (Option Double) := do
  match ← findSubstr frame key with
  | none => .ok none
  | some keyStart =>
    let (valueStart, valueEnd) ← findValueSpan frame (keyStart + key.length)
    if valueStart = valueEnd then .ok none
    else do
      let value ← parseDoubleSpan libc frame valueStart valueEnd
      .ok (some value)

/-- Both values, when the result is `0`. -/
def bridgeExtractJoystick (frame : List UInt8) : Checked (Option (Double × Double)) := do
  match ← extractDoubleField libc frame joystickXKey with
  | none => .ok none
  | some x =>
    match ← extractDoubleField libc frame joystickYKey with
    | none => .ok none
    | some y => .ok (some (x, y))

variable {capacity : Nat}

def replaceValueForKey (buffer : Buffer capacity) (length : Nat) (key : List UInt8)
    (value : Double) : Checked (Int × Buffer capacity) := do
  let frame := buffer.text length
  match ← findSubstr frame key with
  | none => .ok (toInt length, buffer)
  | some keyStart =>
    let (valueStart, valueEnd) ← findValueSpan frame (keyStart + key.length)
    let valueBuf := snprintf 32 (libc.printf 8 value)
    if valueBuf.refused 32 then .ok (-1, buffer)
    else do
      -- the source computes the old length as well, and uses it for nothing
      let _ ← subtract valueEnd valueStart
      let tailLength ← subtract length valueEnd
      let newLength := valueStart + valueBuf.length.toNat + tailLength
      if capacity < newLength then .ok (-1, buffer)
      else do
        let tail ← slice frame valueEnd tailLength
        let buffer ← buffer.store (valueStart + valueBuf.length.toNat) tail
        let rendered ← slice valueBuf.bytes 0 valueBuf.length.toNat
        let buffer ← buffer.store valueStart rendered
        .ok (toInt newLength, buffer)

/-- The second rewrite works on what the first one left in the buffer. -/
def bridgeReformatJoystick (buffer : Buffer capacity) (length : Nat)
    (joystickX joystickY : Double) : Checked (Int × Buffer capacity) := do
  let (n, buffer) ← replaceValueForKey libc buffer length joystickXKey joystickX
  if n < 0 then .ok (-1, buffer)
  else replaceValueForKey libc buffer n.toNat joystickYKey joystickY

end

/-! ### Appended fields -/

def closingBrace : UInt8 := 0x7D

def insertBeforeClosingBrace {capacity : Nat} (buffer : Buffer capacity) (length : Nat)
    (text : List UInt8) (textLength : Nat) : Checked (Int × Buffer capacity) := do
  let frame := buffer.text length
  let closePos ← scanBack closingBrace frame length
  if closePos = 0 then .ok (-1, buffer)
  else do
    let closePos := closePos - 1
    let tailLength ← subtract length closePos
    let total := closePos + textLength + tailLength
    if capacity < total then .ok (-1, buffer)
    else do
      let tail ← slice frame closePos tailLength
      let buffer ← buffer.store (closePos + textLength) tail
      let data ← slice text 0 textLength
      let buffer ← buffer.store closePos data
      .ok (toInt total, buffer)

section

variable {Double : Type} (libc : Libc Double) {capacity : Nat}

/-- The text the format string of `bridge_append_motor_fields` renders. -/
def motorFields (m1 m2 m3 m4 : Double) : Option (List UInt8) := do
  let m1 ← libc.printf 6 m1
  let m2 ← libc.printf 6 m2
  let m3 ← libc.printf 6 m3
  let m4 ← libc.printf 6 m4
  some (ascii ",\"motor_1_pos\":" ++ m1 ++ ascii ",\"motor_2_pos\":" ++ m2 ++
    ascii ",\"motor_3_pos\":" ++ m3 ++ ascii ",\"motor_4_insertion_pos\":" ++ m4)

def bridgeAppendMotorFields (buffer : Buffer capacity) (length : Nat) (m1 m2 m3 m4 : Double) :
    Checked (Int × Buffer capacity) :=
  let fields := snprintf 192 (motorFields libc m1 m2 m3 m4)
  if fields.refused 192 then .ok (-1, buffer)
  else insertBeforeClosingBrace buffer length fields.bytes fields.length.toNat

/-- The text the format string of `bridge_append_field` renders. -/
def fieldText (key : List UInt8) (value : Double) : Option (List UInt8) := do
  let value ← libc.printf 6 value
  some (ascii ",\"" ++ key ++ ascii "\":" ++ value)

def bridgeAppendField (buffer : Buffer capacity) (length : Nat) (key : List UInt8)
    (value : Double) : Checked (Int × Buffer capacity) :=
  let field := snprintf 128 (fieldText libc key value)
  if field.refused 128 then .ok (-1, buffer)
  else insertBeforeClosingBrace buffer length field.bytes field.length.toNat

end

end ControllerBridge
