/-
This file settles that the functions of `frame_bridge.cpp` stay within their
ranges.

The model checks each access of a frame, of a rendered or other local array and
of the buffer written, and each subtraction of lengths, so a run that returns
`ok` has passed all checks. That it does follows from what the functions do to
texts: every offset they compute is the length of a stretch of the frame. The
texts also say which bytes are valid afterwards. They are those of the new text,
which is made of the frame and of renderings, and of nothing else the buffer
held.
-/

import ControllerBridge.Exact
import ControllerBridge.ForwardText

namespace ControllerBridge

open Region

/-! ### Results that count bytes -/

/-- What a call returns for the text it should leave in a buffer: a result that is not negative
counts the bytes of the text, which fits the buffer and stands at its start; the other result is
`-1`, for no text. -/
structure Returns {capacity : Nat} (result : Option (List UInt8)) (returned : Int)
    (after : Buffer capacity) : Prop where
  counted : 0 ≤ returned → ∃ text, result = some text ∧ returned = text.length ∧
    text.length ≤ capacity ∧ after.text text.length = text
  refused : returned < 0 → returned = -1 ∧ result = none

theorem returns_intResult {capacity : Nat} (small : capacity ≤ intMax)
    {result : Option (List UInt8)} {after : Buffer capacity}
    (held : ∀ text ∈ result, Holds after text.length text) :
    Returns result (intResult result) after := by
  cases result with
  | none => exact ⟨fun impossible => absurd impossible (by decide), fun _ => ⟨rfl, rfl⟩⟩
  | some text =>
    have here := held text rfl
    have length := intResult_some small here.fits
    refine ⟨fun _ => ⟨text, rfl, length, here.fits, here.reads⟩, fun negative => ?_⟩
    rw [length] at negative
    omega

/-- A function that writes its text at the start of the buffer returns it. -/
theorem returns_putResult {capacity : Nat} (small : capacity ≤ intMax) (before : Buffer capacity)
    {result : Option (List UInt8)} (fits : ∀ text ∈ result, text.length ≤ capacity) :
    Returns result (intResult result) (putResult before result) := by
  refine returns_intResult small fun text member => ?_
  rw [Option.mem_def.mp member]
  exact holds_put before (fits text member)

/-- `snprintf` writes no more bytes than its local buffer has. -/
theorem snprintf_bytes_length {size : Nat} (positive : 0 < size)
    (rendering : Option (List UInt8)) : (snprintf size rendering).bytes.length ≤ size := by
  cases rendering with
  | none => exact Nat.zero_le _
  | some bytes =>
    have taken := List.length_take_le (size - 1) bytes
    rw [snprintf, List.length_append, List.length_singleton]
    omega

/-! ### The functions of the bridge -/

/-- No call reads, writes or subtracts out of range, on any frame, with any buffer of the
capacity, and whatever the renderings are; and the results count the bytes left. -/
structure StaysInBounds {Double : Type} [Sub Double] (libc : Libc Double) (capacity : Nat) :
    Prop where
  stampFrame : ∀ frame (receivedNtpTime forwardNtpTime : Double) (out : Buffer capacity),
    ∃ stamped, bridgeStampFrame libc frame receivedNtpTime forwardNtpTime out = .ok stamped ∧
      Returns (stampText libc capacity frame receivedNtpTime forwardNtpTime) stamped.returned
        stamped.out
  extractSentTime : ∀ frame, ∃ value, bridgeExtractSentTime libc frame = .ok value
  extractJoystick : ∀ frame, ∃ values, bridgeExtractJoystick libc frame = .ok values
  reformatJoystick : ∀ (buffer : Buffer capacity) length, length ≤ capacity →
    ∀ joystickX joystickY, ∃ returned after,
      bridgeReformatJoystick libc buffer length joystickX joystickY = .ok (returned, after) ∧
      Returns (reformatText libc capacity joystickX joystickY (buffer.text length)) returned after
  appendMotorFields : ∀ (buffer : Buffer capacity) length, length ≤ capacity →
    ∀ m1 m2 m3 m4, ∃ returned after,
      bridgeAppendMotorFields libc buffer length m1 m2 m3 m4 = .ok (returned, after) ∧
      Returns (appendMotorText libc capacity m1 m2 m3 m4 (buffer.text length)) returned after
  appendField : ∀ (buffer : Buffer capacity) length, length ≤ capacity →
    ∀ key value, ∃ returned after,
      bridgeAppendField libc buffer length key value = .ok (returned, after) ∧
      Returns (appendFieldText libc capacity key value (buffer.text length)) returned after
  rendered : ∀ size, 0 < size → ∀ rendering, (snprintf size rendering).bytes.length ≤ size

section

variable {Double : Type} (libc : Libc Double) {capacity : Nat}

theorem bridgeReformatJoystick_returns (small : capacity ≤ intMax) (buffer : Buffer capacity)
    {length : Nat} (bound : length ≤ capacity) (joystickX joystickY : Double) :
    ∃ returned after,
      bridgeReformatJoystick libc buffer length joystickX joystickY = .ok (returned, after) ∧
      Returns (reformatText libc capacity joystickX joystickY (buffer.text length)) returned
        after := by
  obtain ⟨after, run, holds⟩ := bridgeReformatJoystick_holds libc small
    (⟨bound, rfl⟩ : Holds buffer length (buffer.text length)) joystickX joystickY
  refine ⟨_, after, run, returns_intResult small fun text reformatted => ?_⟩
  have short : (buffer.text length).length ≤ capacity := (buffer.text_length bound).le.trans bound
  have fits := reformatText_length_le libc short reformatted
  obtain ⟨-, -, -, same⟩ := reformatText_eq_some reformatted
  rwa [Option.mem_def.mp reformatted, lengthAfter_some small length fits, same] at holds

end

theorem stays_in_bounds {Double : Type} [Sub Double] (libc : Libc Double) {capacity : Nat}
    (small : capacity ≤ intMax) : StaysInBounds libc capacity where
  stampFrame := by
    intro frame receivedNtpTime forwardNtpTime out
    refine ⟨_, bridgeStampFrame_eq libc frame receivedNtpTime forwardNtpTime out, ?_⟩
    exact returns_putResult small out fun text => stampText_length_le libc
  extractSentTime := fun frame => ⟨_, bridgeExtractSentTime_eq libc frame⟩
  extractJoystick := fun frame => ⟨_, bridgeExtractJoystick_eq libc frame⟩
  reformatJoystick := fun buffer _ bound => bridgeReformatJoystick_returns libc small buffer bound
  appendMotorFields := by
    intro buffer length bound m1 m2 m3 m4
    refine ⟨_, _, bridgeAppendMotorFields_eq libc buffer bound m1 m2 m3 m4, ?_⟩
    exact returns_putResult small buffer fun text => appendMotorText_length_le libc
  appendField := by
    intro buffer length bound key value
    refine ⟨_, _, bridgeAppendField_eq libc buffer bound key value, ?_⟩
    exact returns_putResult small buffer fun text => appendFieldText_length_le libc
  rendered := fun _ positive => snprintf_bytes_length positive

theorem payload_stays_in_bounds : StaysInBounds exactLibc maxBridgedFrameLen :=
  stays_in_bounds exactLibc (by decide)

end ControllerBridge
