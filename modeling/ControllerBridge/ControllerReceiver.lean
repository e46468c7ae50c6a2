/-
This file is the model of `controller_receiver.cpp`.

A call of `callbackController` is given the memory of its connection and, for a
received fragment, the bytes with the two flags libwebsockets has for them and
the clock values the call will read. It returns the frame it hands to
`bridge_server_forward`, if it hands one. The last section states what a
fragment does to the text a session holds.
-/

import ControllerBridge.ForwardText

namespace ControllerBridge

open Region

/-- `controller_session_t`. -/
structure ControllerSession where
  buf : Buffer maxControllerFrameLen
  len : Nat

/-- The reasons of `callback_controller`, with what libwebsockets supplies. -/
inductive ControllerReason (Double : Type) where
  | established
  | receive (data : List UInt8) (first final : Bool) (receivedNtpTime forwardNtpTime : Double)
  | closed

/-- A frame handed to `bridge_server_forward`, and what that call computed. -/
structure Handed (Double : Type) where
  frame : List UInt8
  forwarded : Forwarded Double

/-- The session after `if (lws_is_first_fragment(wsi))`. -/
def sessionBefore (first : Bool) (session : ControllerSession) : ControllerSession :=
  if first then { session with len := 0 } else session

section

variable {Double Variables : Type} [Add Double] [Sub Double] [Mul Double] [Div Double]
  [Neg Double] [LT Double] [DecidableLT Double] [LE Double] [DecidableLE Double]
  [OfScientific Double] [NatCast Double] [IntCast Double]

def callbackController (platform : Platform Double Variables)
    (process : Process Double Variables) (session : ControllerSession) :
    ControllerReason Double →
      Checked (Process Double Variables × ControllerSession × Option (Handed Double))
  | .established =>
    .ok ({ process with
      motor := motorInferenceReset platform.tflite process.motor
      samples := clockOffsetReset }, { session with len := 0 }, none)
  | .receive data first final receivedNtpTime forwardNtpTime => do
    let session := sessionBefore first session
    if maxControllerFrameLen < session.len + data.length then
      .ok (process, { session with len := 0 }, none)
    else do
      let buf ← session.buf.store session.len data
      let len := session.len + data.length
      if final then do
        let frame ← slice buf.bytes 0 len
        -- the sent time is read for the log only
        let _ ← bridgeExtractSentTime platform.libc frame
        let (process, forwarded) ←
          bridgeServerForward platform process frame receivedNtpTime forwardNtpTime
        .ok (process, ⟨buf, 0⟩, some ⟨frame, forwarded⟩)
      else .ok (process, ⟨buf, len⟩, none)
  | .closed => .ok (process, session, none)

/-! ### The text of a session -/

/-- A session holds a text in the first `len` bytes of its buffer. -/
abbrev ControllerSession.Holds (session : ControllerSession) (text : List UInt8) : Prop :=
  ControllerBridge.Holds session.buf session.len text

theorem ControllerSession.holds_nil (buf : Buffer maxControllerFrameLen) :
    ControllerSession.Holds ⟨buf, 0⟩ [] :=
  ⟨Nat.zero_le _, rfl⟩

/-- The text a fragment is appended to. -/
def heldBefore (first : Bool) (text : List UInt8) : List UInt8 := if first then [] else text

theorem sessionBefore_holds {session : ControllerSession} {text : List UInt8}
    (holds : session.Holds text) (first : Bool) :
    (sessionBefore first session).Holds (heldBefore first text) := by
  cases first with
  | false => exact holds
  | true => exact ControllerSession.holds_nil session.buf

/-- Storing a fragment appends it to the text held. -/
theorem ControllerSession.Holds.store {session : ControllerSession} {text : List UInt8}
    (holds : session.Holds text) {data : List UInt8}
    (fits : text.length + data.length ≤ maxControllerFrameLen) :
    ∃ buf, session.buf.store session.len data = .ok buf ∧
      ControllerSession.Holds ⟨buf, session.len + data.length⟩ (text ++ data) := by
  have same : session.buf = session.buf.put text := by
    rw [← holds.reads, session.buf.put_text_self holds.fits]
  refine ⟨session.buf.put (text ++ data), ?_, ?_⟩
  · have stored := session.buf.store_put text data fits
    rwa [← same, holds.length_eq] at stored
  · rw [← holds.length_eq, ← List.length_append]
    exact holds_put session.buf (by rwa [List.length_append])

variable (platform : Platform Double Variables) (process : Process Double Variables)

/-- A fragment that does not fit empties the session. -/
theorem callbackController_overflow {session : ControllerSession} {text : List UInt8}
    (holds : session.Holds text) (data : List UInt8) (first final : Bool)
    (receivedNtpTime forwardNtpTime : Double)
    (overflows : maxControllerFrameLen < (heldBefore first text).length + data.length) :
    ∃ after, callbackController platform process session
        (.receive data first final receivedNtpTime forwardNtpTime) = .ok (process, after, none) ∧
      after.Holds [] := by
  have before := sessionBefore_holds holds first
  rw [before.length_eq] at overflows
  refine ⟨⟨(sessionBefore first session).buf, 0⟩, ?_, ControllerSession.holds_nil _⟩
  exact if_pos overflows

/-- A fragment that fits and is not final is kept. -/
theorem callbackController_kept {session : ControllerSession} {text : List UInt8}
    (holds : session.Holds text) (data : List UInt8) (first : Bool)
    (receivedNtpTime forwardNtpTime : Double)
    (fits : (heldBefore first text).length + data.length ≤ maxControllerFrameLen) :
    ∃ after, callbackController platform process session
        (.receive data first false receivedNtpTime forwardNtpTime) =
          .ok (process, after, none) ∧
      after.Holds (heldBefore first text ++ data) := by
  have before := sessionBefore_holds holds first
  obtain ⟨buf, stored, after⟩ := before.store fits
  rw [before.length_eq] at fits
  refine ⟨_, ?_, after⟩
  rw [callbackController]
  dsimp only
  rw [if_neg (Nat.not_lt.mpr fits), stored]
  rfl

/-- A final fragment that fits hands over the text held with the fragment. -/
theorem callbackController_final {session : ControllerSession} {text : List UInt8}
    (holds : session.Holds text) (data : List UInt8) (first : Bool)
    (receivedNtpTime forwardNtpTime : Double)
    (fits : (heldBefore first text).length + data.length ≤ maxControllerFrameLen) :
    ∃ process' forwarded after,
      bridgeServerForward platform process (heldBefore first text ++ data) receivedNtpTime
        forwardNtpTime = .ok (process', forwarded) ∧
      callbackController platform process session
        (.receive data first true receivedNtpTime forwardNtpTime) =
          .ok (process', after, some ⟨heldBefore first text ++ data, forwarded⟩) ∧
      after.Holds [] := by
  have before := sessionBefore_holds holds first
  obtain ⟨buf, stored, after⟩ := before.store fits
  obtain ⟨process', forwarded, run⟩ := bridgeServerForward_ok platform process
    (heldBefore first text ++ data) receivedNtpTime forwardNtpTime
  rw [before.length_eq] at fits
  have read : slice buf.bytes 0 ((sessionBefore first session).len + data.length) =
      .ok (heldBefore first text ++ data) := by
    rw [slice_ok (by rw [buf.size, Nat.zero_add]; exact fits), List.drop_zero]
    exact congrArg Except.ok after.reads
  refine ⟨process', forwarded, ⟨buf, 0⟩, run, ?_, ControllerSession.holds_nil buf⟩
  rw [callbackController]
  dsimp only
  rw [if_neg (Nat.not_lt.mpr fits), stored, ok_bind, if_pos rfl, read, ok_bind,
    bridgeExtractSentTime_eq, ok_bind, run]
  rfl

end

end ControllerBridge
