/-
This file settles when `bridge_server_forward` fails open: whether the payload it
publishes is the stamped frame with the steps that succeed applied to it.

Appending a field leaves the text as it was when it fails. The reformat of the
joystick values does not: it makes two rewrites in place, and when the second
one fails the first one stays in the buffer, cut to the length the caller knows.
`StopsHalfWay` says when this happens and shows. A call fails open exactly when
its reformat does not stop half-way, since appending the motor fields afterwards
cannot hide the difference.
-/

import ControllerBridge.Exact

namespace ControllerBridge

open Region Search

/-! ### Overwriting -/

/-- Writing a text over another one leaves it as it was exactly when the two agree as far as both
go. -/
theorem overwrite_eq_iff {new old : List UInt8} :
    overwrite new old = old ↔ new <+: old ∨ old <+: new := by
  rw [overwrite]
  rcases Nat.le_total new.length old.length with shorter | longer
  · have whole : (new ++ old.drop new.length).take old.length = new ++ old.drop new.length := by
      refine List.take_of_length_le ?_
      rw [List.length_append, List.length_drop]
      omega
    rw [whole]
    constructor
    · exact fun same => Or.inl ⟨_, same⟩
    · rintro (begins | begins)
      · obtain ⟨rest, rfl⟩ := begins
        rw [List.drop_left]
      · rw [begins.eq_of_length_le shorter, List.drop_length, List.append_nil]
  · rw [List.drop_of_length_le longer, List.append_nil]
    constructor
    · exact fun same => Or.inr (List.prefix_iff_eq_take.mpr same.symm)
    · rintro (begins | begins)
      · rw [begins.eq_of_length_le longer, List.take_length]
      · exact (List.prefix_iff_eq_take.mp begins).symm

/-! ### Rewrites -/

section

variable {Double : Type} (libc : Libc Double) (capacity : Nat)

/-- A located text with another value. -/
def rewritten (key : List UInt8) (located : Located) (rendering : List UInt8) : List UInt8 :=
  located.before ++ key ++ located.blanks ++ rendering ++ located.after

/-- The value after `key` can be rewritten, which makes `result` of `text`: its rendering fits
the local buffer of 32 bytes, and the new text fits the capacity. -/
structure CanRewrite (key : List UInt8) (value : Double) (text : List UInt8) (located : Located)
    (rendering : List UInt8) : Prop where
  reads : Reads key text located
  renders : libc.printf 8 value = some rendering
  short : rendering.length < 32
  fits : (rewritten key located rendering).length ≤ capacity

/-- The value after `key` cannot be rewritten. -/
structure CannotRewrite (key : List UInt8) (value : Double) (text : List UInt8)
    (located : Located) : Prop where
  reads : Reads key text located
  refused : ∀ rendering, libc.printf 8 value = some rendering → rendering.length < 32 →
    capacity < (rewritten key located rendering).length

variable {libc capacity} {key : List UInt8} {value : Double} {text : List UInt8}

theorem CanRewrite.replaceText {located : Located} {rendering : List UInt8} (nonempty : key ≠ [])
    (can : CanRewrite libc capacity key value text located rendering) :
    replaceText libc capacity key value text = some (rewritten key located rendering) := by
  have fitted := fitting_eq_some_iff.mpr ⟨can.renders, can.short⟩
  rw [ControllerBridge.replaceText, (locate_eq_some_iff nonempty).mpr can.reads]
  dsimp only
  rw [fitted]
  exact within_eq_some_iff.mpr ⟨rfl, can.fits⟩

theorem replaceText_eq_some {result : List UInt8} (nonempty : key ≠ [])
    (replaced : replaceText libc capacity key value text = some result) :
    result = text ∨ ∃ located rendering,
      CanRewrite libc capacity key value text located rendering ∧
        result = rewritten key located rendering := by
  rw [replaceText] at replaced
  split at replaced
  · exact Or.inl (Option.some.inj replaced).symm
  · rename_i located found
    rw [Option.bind_eq_bind, Option.bind_eq_some_iff] at replaced
    obtain ⟨rendering, fitted, fits⟩ := replaced
    obtain ⟨renders, short⟩ := fitting_eq_some_iff.mp fitted
    obtain ⟨rfl, bound⟩ := within_eq_some_iff.mp fits
    exact Or.inr ⟨located, rendering,
      ⟨(locate_eq_some_iff nonempty).mp found, renders, short, bound⟩, rfl⟩

theorem replaceText_eq_none_iff (nonempty : key ≠ []) :
    replaceText libc capacity key value text = none ↔
      ∃ located, CannotRewrite libc capacity key value text located := by
  rw [replaceText]
  cases found : locate key text with
  | none =>
    refine ⟨fun impossible => absurd impossible (Option.some_ne_none _), ?_⟩
    rintro ⟨located, cannot⟩
    exact absurd cannot.reads.first.infix ((locate_eq_none_iff nonempty).mp found)
  | some located =>
    have reads := (locate_eq_some_iff nonempty).mp found
    dsimp only
    rw [Option.bind_eq_bind, Option.bind_eq_none_iff]
    constructor
    · intro refused
      refine ⟨located, reads, fun rendering renders short => ?_⟩
      have exceeds : within capacity (rewritten key located rendering) = none :=
        refused rendering (fitting_eq_some_iff.mpr ⟨renders, short⟩)
      by_contra fits
      rw [within_eq_some_iff.mpr ⟨rfl, Nat.le_of_not_lt fits⟩] at exceeds
      cases exceeds
    · rintro ⟨located', cannot⟩ rendering fitted
      obtain rfl := cannot.reads.unique nonempty reads
      obtain ⟨renders, short⟩ := fitting_eq_some_iff.mp fitted
      exact if_neg (Nat.not_le.mpr (cannot.refused rendering renders short))

/-! ### The reformat -/

variable (libc capacity)

/-- The reformat of a text stops half-way and leaves a trace: the value of `joystick_x` can be
rewritten, in the new text the value of `joystick_y` cannot, and the new text and the old one
differ at a place that both have. -/
def StopsHalfWay (joystickX joystickY : Double) (text : List UInt8) : Prop :=
  ∃ locatedX renderingX locatedY,
    CanRewrite libc capacity joystickXKey joystickX text locatedX renderingX ∧
    CannotRewrite libc capacity joystickYKey joystickY
      (rewritten joystickXKey locatedX renderingX) locatedY ∧
    ¬ (rewritten joystickXKey locatedX renderingX <+: text ∨
      text <+: rewritten joystickXKey locatedX renderingX)

variable {libc capacity}

/-- The reformat leaves the text it should, unless it stops half-way. -/
theorem reformatLeft_eq_iff {x y : Double} :
    reformatLeft libc capacity x y text = (reformatText libc capacity x y text).getD text ↔
      ¬ StopsHalfWay libc capacity x y text := by
  rw [reformatLeft, reformatText]
  cases replacedX : replaceText libc capacity joystickXKey x text with
  | none =>
    refine ⟨?_, fun _ => rfl⟩
    rintro - ⟨locatedX, renderingX, locatedY, can, -, -⟩
    rw [can.replaceText joystickXKey_ne_nil] at replacedX
    cases replacedX
  | some first =>
    dsimp only
    rw [Option.bind_some]
    cases replacedY : replaceText libc capacity joystickYKey y first with
    | some second =>
      refine ⟨?_, fun _ => rfl⟩
      rintro - ⟨locatedX, renderingX, locatedY, can, cannot, -⟩
      rw [can.replaceText joystickXKey_ne_nil, Option.some_inj] at replacedX
      subst replacedX
      rw [(replaceText_eq_none_iff joystickYKey_ne_nil).mpr ⟨locatedY, cannot⟩] at replacedY
      cases replacedY
    | none =>
      rw [Option.getD_none, Option.getD_none, overwrite_eq_iff]
      constructor
      · rintro agree ⟨locatedX, renderingX, locatedY, can, -, differ⟩
        rw [can.replaceText joystickXKey_ne_nil, Option.some_inj] at replacedX
        subst replacedX
        exact differ agree
      · intro stopsNot
        by_contra differ
        rcases replaceText_eq_some joystickXKey_ne_nil replacedX with
          rfl | ⟨locatedX, renderingX, can, rfl⟩
        · exact differ (Or.inl List.prefix_rfl)
        · obtain ⟨locatedY, cannot⟩ := (replaceText_eq_none_iff joystickYKey_ne_nil).mp replacedY
          exact stopsNot ⟨locatedX, renderingX, locatedY, can, cannot, differ⟩

/-- A reformat that stops half-way fails. -/
theorem StopsHalfWay.reformatText_eq_none {x y : Double}
    (stops : StopsHalfWay libc capacity x y text) : reformatText libc capacity x y text = none := by
  obtain ⟨locatedX, renderingX, locatedY, can, cannot, -⟩ := stops
  rw [reformatText, can.replaceText joystickXKey_ne_nil, Option.bind_some]
  exact (replaceText_eq_none_iff joystickYKey_ne_nil).mpr ⟨locatedY, cannot⟩

theorem overwrite_length (new old : List UInt8) : (overwrite new old).length = old.length := by
  rw [overwrite, List.length_take, List.length_append, List.length_drop]
  omega

/-- What a failed reformat leaves is as long as the text before. -/
theorem reformatLeft_length {x y : Double}
    (failed : reformatText libc capacity x y text = none) :
    (reformatLeft libc capacity x y text).length = text.length := by
  rw [reformatText] at failed
  rw [reformatLeft]
  cases replacedX : replaceText libc capacity joystickXKey x text with
  | none => rfl
  | some first =>
    rw [replacedX, Option.bind_some] at failed
    dsimp only
    rw [failed, Option.getD_none, overwrite_length]

/-- A failed reformat leaves the text it was given. -/
def ReformatFailsOpen (libc : Libc Double) {capacity : Nat} (buffer : Buffer capacity)
    (length : Nat) (joystickX joystickY : Double) : Prop :=
  ∀ after, bridgeReformatJoystick libc buffer length joystickX joystickY = .ok (-1, after) →
    after.text length = buffer.text length

theorem reformatFailsOpen_iff (libc : Libc Double) {capacity : Nat} (small : capacity ≤ intMax)
    (buffer : Buffer capacity) {length : Nat} (bound : length ≤ capacity)
    (joystickX joystickY : Double) :
    ReformatFailsOpen libc buffer length joystickX joystickY ↔
      ¬ StopsHalfWay libc capacity joystickX joystickY (buffer.text length) := by
  obtain ⟨after, run, holds⟩ := bridgeReformatJoystick_holds libc small
    (⟨bound, rfl⟩ : Holds buffer length (buffer.text length)) joystickX joystickY
  rw [ReformatFailsOpen, run, ← reformatLeft_eq_iff]
  cases reformatted : reformatText libc capacity joystickX joystickY (buffer.text length) with
  | none =>
    rw [reformatted] at holds
    have left : after.text length = _ := holds.reads
    rw [Option.getD_none, ← left]
    constructor
    · exact fun unchanged => unchanged after rfl
    · rintro unchanged _ ⟨⟩
      exact unchanged
  | some result =>
    have short : (buffer.text length).length ≤ capacity :=
      (buffer.text_length bound).le.trans bound
    have fits := reformatText_length_le libc short reformatted
    refine ⟨fun _ => ?_, fun _ left returned => ?_⟩
    · rw [← reformatted, reformatLeft_eq_iff]
      intro stops
      rw [stops.reformatText_eq_none] at reformatted
      cases reformatted
    · rw [intResult_some small fits, Except.ok.injEq, Prod.mk.injEq] at returned
      omega

/-! ### The motor fields -/

/-- Inserting the same fields into two texts of one length gives two texts, or fails for one of
them only by a missing brace. -/
theorem insertText_getD_injective {fields first second : List UInt8} (nonempty : fields ≠ [])
    (sameLength : first.length = second.length)
    (same : (insertText capacity fields first).getD first =
      (insertText capacity fields second).getD second) : first = second := by
  have positive := List.length_pos_of_ne_nil nonempty
  have lengths : ∀ {text result : List UInt8}, insertText capacity fields text = some result →
      result.length = text.length + fields.length := by
    intro text result inserted
    rw [insertText, Option.bind_eq_some_iff] at inserted
    obtain ⟨pieces, found, fits⟩ := inserted
    obtain ⟨rfl, -⟩ := within_eq_some_iff.mp fits
    rw [(cutLast_eq_some_iff.mp found).split]
    simp only [List.length_append]
    omega
  cases insertedFirst : insertText capacity fields first with
  | none =>
    cases insertedSecond : insertText capacity fields second with
    | none => rwa [insertedFirst, insertedSecond] at same
    | some result =>
      rw [insertedFirst, insertedSecond, Option.getD_none, Option.getD_some] at same
      have longer := lengths insertedSecond
      rw [← same] at longer
      omega
  | some result =>
    cases insertedSecond : insertText capacity fields second with
    | none =>
      rw [insertedFirst, insertedSecond, Option.getD_none, Option.getD_some] at same
      have longer := lengths insertedFirst
      rw [same] at longer
      omega
    | some result' =>
      rw [insertedFirst, insertedSecond, Option.getD_some, Option.getD_some] at same
      subst same
      rw [insertText, Option.bind_eq_some_iff] at insertedFirst insertedSecond
      obtain ⟨⟨before, after⟩, found, fits⟩ := insertedFirst
      obtain ⟨⟨before', after'⟩, found', fits'⟩ := insertedSecond
      have last := cutLast_eq_some_iff.mp found
      have last' := cutLast_eq_some_iff.mp found'
      obtain ⟨rfl, -⟩ := within_eq_some_iff.mp fits
      obtain ⟨whole, -⟩ := within_eq_some_iff.mp fits'
      -- the brace the fields went before is the last one of both results
      have closing : LastAt closingBrace (before ++ fields ++ closingBrace :: after)
        (before ++ fields) after := ⟨rfl, last.fresh⟩
      obtain ⟨sameBefore, rfl⟩ := closing.unique ⟨whole, last'.fresh⟩
      obtain rfl : before = before' := List.append_inj_left' sameBefore rfl
      rw [last.split, last'.split]

theorem motorFields_ne_nil {m1 m2 m3 m4 : Double} {fields : List UInt8}
    (rendered : motorFields libc m1 m2 m3 m4 = some fields) : fields ≠ [] := by
  simp only [motorFields, Option.bind_eq_bind, Option.bind_eq_some_iff] at rendered
  obtain ⟨_, -, _, -, _, -, _, -, whole⟩ := rendered
  cases whole
  exact List.cons_ne_nil _ _

theorem appendMotorText_getD_injective {m1 m2 m3 m4 : Double} {first second : List UInt8}
    (sameLength : first.length = second.length)
    (same : (appendMotorText libc capacity m1 m2 m3 m4 first).getD first =
      (appendMotorText libc capacity m1 m2 m3 m4 second).getD second) : first = second := by
  rw [appendMotorText, appendMotorText] at same
  cases fitted : fitting 192 (motorFields libc m1 m2 m3 m4) with
  | none => rwa [fitted] at same
  | some fields =>
    rw [fitted, Option.bind_some, Option.bind_some] at same
    exact insertText_getD_injective (motorFields_ne_nil (fitting_eq_some_iff.mp fitted).1)
      sameLength same

/-! ### A call as a whole -/

variable (libc capacity)

/-- The text that has the steps which succeed applied to it, in order, and the others skipped. -/
def failOpenText (corrected : Double) (joystick : Option (Double × Double))
    (motor : Option (MotorOut Double)) (stamped : List UInt8) : List UInt8 :=
  let text := correctText libc capacity corrected stamped
  match joystick with
  | none => text
  | some (x, y) =>
    let text := (reformatText libc capacity x y text).getD text
    match motor with
    | none => text
    | some out =>
      (appendMotorText libc capacity (out.tendon 0) (out.tendon 1) (out.tendon 2) out.insertion
        text).getD text

variable {libc capacity}

/-- What is published is what should be, unless the reformat stops half-way. -/
theorem publishedText_eq_iff (libc : Libc Double) (capacity : Nat) (corrected : Double)
    (joystick : Option (Double × Double)) (motor : Option (MotorOut Double))
    (stamped : List UInt8) :
    publishedText libc capacity corrected joystick motor stamped =
        failOpenText libc capacity corrected joystick motor stamped ↔
      ∀ x y, joystick = some (x, y) →
        ¬ StopsHalfWay libc capacity x y (correctText libc capacity corrected stamped) := by
  unfold publishedText spliceText failOpenText
  generalize correctText libc capacity corrected stamped = entered
  cases joystick with
  | none => exact ⟨fun _ => nofun, fun _ => rfl⟩
  | some values =>
    obtain ⟨x, y⟩ := values
    have reformatted : reformatLeft libc capacity x y entered =
        (reformatText libc capacity x y entered).getD entered ↔
          ¬ StopsHalfWay libc capacity x y entered := reformatLeft_eq_iff
    dsimp only
    constructor
    · rintro same _ _ ⟨⟩
      cases motor with
      | none => exact reformatted.mp same
      | some out =>
        intro stops
        have failed := stops.reformatText_eq_none
        refine reformatted.mp (appendMotorText_getD_injective ?_ same) stops
        rw [reformatLeft_length failed, failed, Option.getD_none]
    · intro stopsNot
      have same := reformatted.mpr (stopsNot x y rfl)
      cases motor with
      | none => exact same
      | some out =>
        dsimp only
        rw [same]

end

section

variable {Double Variables : Type} [Add Double] [Sub Double] [Mul Double] [Div Double]
  [Neg Double] [LT Double] [DecidableLT Double] [LE Double] [DecidableLE Double]
  [OfScientific Double] [NatCast Double] [IntCast Double]

/-- The text a call publishes when it fails open. -/
def failOpenFrame (platform : Platform Double Variables) (process : Process Double Variables)
    (rawFrame : List UInt8) (receivedNtpTime forwardNtpTime : Double) (stamped : List UInt8) :
    List UInt8 :=
  failOpenText platform.libc maxBridgedFrameLen
    (frameCorrection platform process rawFrame receivedNtpTime forwardNtpTime).2
    (joystickValues platform.libc rawFrame) (frameInference platform process rawFrame).2 stamped

/-- A call fails open: a frame that cannot be stamped leaves the server as it was, and the bytes
and the length published for another one are those of the steps that succeed. -/
def FailsOpen (platform : Platform Double Variables) (process : Process Double Variables)
    (rawFrame : List UInt8) (receivedNtpTime forwardNtpTime : Double) : Prop :=
  ∀ process' forwarded,
    bridgeServerForward platform process rawFrame receivedNtpTime forwardNtpTime =
      .ok (process', forwarded) →
    (stampedFrame platform rawFrame receivedNtpTime forwardNtpTime = none →
      process'.server = process.server) ∧
    ∀ stamped, stampedFrame platform rawFrame receivedNtpTime forwardNtpTime = some stamped →
      process'.server.published =
        failOpenFrame platform process rawFrame receivedNtpTime forwardNtpTime stamped ∧
      process'.server.payloadLen =
        (failOpenFrame platform process rawFrame receivedNtpTime forwardNtpTime stamped).length

theorem failsOpen_iff (platform : Platform Double Variables)
    (process : Process Double Variables) (rawFrame : List UInt8)
    (receivedNtpTime forwardNtpTime : Double) :
    FailsOpen platform process rawFrame receivedNtpTime forwardNtpTime ↔
      ∀ stamped x y,
        stampedFrame platform rawFrame receivedNtpTime forwardNtpTime = some stamped →
        joystickValues platform.libc rawFrame = some (x, y) →
        ¬ StopsHalfWay platform.libc maxBridgedFrameLen x y
          (correctText platform.libc maxBridgedFrameLen
            (frameCorrection platform process rawFrame receivedNtpTime forwardNtpTime).2
            stamped) := by
  rw [FailsOpen]
  cases stamp : stampedFrame platform rawFrame receivedNtpTime forwardNtpTime with
  | none =>
    have run := bridgeServerForward_dropped platform process rawFrame receivedNtpTime
      forwardNtpTime stamp
    refine ⟨fun _ _ _ _ => nofun, fun _ process' forwarded returned => ⟨fun _ => ?_, nofun⟩⟩
    rw [run, Except.ok.injEq, Prod.mk.injEq] at returned
    rw [← returned.1]
  | some stamped =>
    obtain ⟨payload, n, run, holds⟩ := bridgeServerForward_published platform process rawFrame
      receivedNtpTime forwardNtpTime stamp
    have published := publishedText_eq_iff platform.libc maxBridgedFrameLen
      (frameCorrection platform process rawFrame receivedNtpTime forwardNtpTime).2
      (joystickValues platform.libc rawFrame) (frameInference platform process rawFrame).2 stamped
    constructor
    · rintro failsOpen _ x y ⟨⟩ values
      refine published.mp ?_ x y values
      have same := ((failsOpen _ _ run).2 stamped rfl).1
      exact holds.reads.symm.trans same
    · rintro stopsNot process' forwarded returned
      refine ⟨nofun, ?_⟩
      rintro _ ⟨⟩
      have same := published.mpr fun x y values => stopsNot stamped x y rfl values
      rw [run, Except.ok.injEq, Prod.mk.injEq] at returned
      rw [← returned.1]
      have reads : payload.text n =
          failOpenFrame platform process rawFrame receivedNtpTime forwardNtpTime stamped :=
        holds.reads.trans same
      exact ⟨reads, by rw [← reads, payload.text_length holds.fits]⟩

/-- A call and a reformat fail open exactly when the reformat does not stop half-way. -/
theorem fail_open_iff :
    (∀ (platform : Platform Double Variables) (process : Process Double Variables)
      (rawFrame : List UInt8) (receivedNtpTime forwardNtpTime : Double),
      FailsOpen platform process rawFrame receivedNtpTime forwardNtpTime ↔
        ∀ stamped x y,
          stampedFrame platform rawFrame receivedNtpTime forwardNtpTime = some stamped →
          joystickValues platform.libc rawFrame = some (x, y) →
          ¬ StopsHalfWay platform.libc maxBridgedFrameLen x y
            (correctText platform.libc maxBridgedFrameLen
              (frameCorrection platform process rawFrame receivedNtpTime forwardNtpTime).2
              stamped)) ∧
    (∀ (libc : Libc Double) (capacity : Nat), capacity ≤ intMax →
      ∀ (buffer : Buffer capacity) (length : Nat), length ≤ capacity →
      ∀ joystickX joystickY : Double,
        ReformatFailsOpen libc buffer length joystickX joystickY ↔
          ¬ StopsHalfWay libc capacity joystickX joystickY (buffer.text length)) :=
  ⟨failsOpen_iff, fun libc _ small buffer _ bound => reformatFailsOpen_iff libc small buffer bound⟩

end

/-- The value of `joystick_y` needs 310 characters, that of `joystick_x` ten. -/
def tornFrame : List UInt8 := ascii "\x7b\"joystick_x\":0,\"joystick_y\":1e300\x7d"

/-- The payload published for the torn frame: the rewritten `joystick_x` has pushed the end of
the object out of it. -/
def tornPayload : List UInt8 :=
  ascii "\x7b\"joystick_x\":0.00000000,\"joystick_y\":1e300,\"frame_transfer_time_corrected\":"

theorem tornFrame_not_failsOpen :
    ¬ FailsOpen examplePlatform exampleProcess tornFrame 0 0 := by
  intro failsOpen
  obtain ⟨process', forwarded, run⟩ :=
    bridgeServerForward_ok examplePlatform exampleProcess tornFrame 0 0
  have published : (bridgeServerForward examplePlatform exampleProcess tornFrame 0 0).toOption.map
      (fun result => result.1.server.published) = some tornPayload := by decide +kernel
  have stamp : stampedFrame examplePlatform tornFrame 0 0 = some tornFrame := by decide +kernel
  have other : failOpenFrame examplePlatform exampleProcess tornFrame 0 0 tornFrame ≠
      tornPayload := by decide +kernel
  have same := ((failsOpen process' forwarded run).2 tornFrame stamp).1
  rw [run] at published
  exact other (same.symm.trans (Option.some.inj published))

theorem tornFrame_fail_open_iff :
    (FailsOpen examplePlatform exampleProcess tornFrame 0 0 ↔
      ∀ stamped x y, stampedFrame examplePlatform tornFrame 0 0 = some stamped →
        joystickValues exactLibc tornFrame = some (x, y) →
        ¬ StopsHalfWay exactLibc maxBridgedFrameLen x y
          (correctText exactLibc maxBridgedFrameLen
            (frameCorrection examplePlatform exampleProcess tornFrame 0 0).2 stamped)) ∧
    (ReformatFailsOpen exactLibc (Buffer.zeroed 64) 8 (1 / 2) 0 ↔
      ¬ StopsHalfWay exactLibc 64 (1 / 2) 0 ((Buffer.zeroed 64).text 8)) := by
  obtain ⟨frames, buffers⟩ := @fail_open_iff ℚ Nat _ _ _ _ _ _ _ _ _ _ _ _
  exact ⟨frames examplePlatform exampleProcess tornFrame 0 0,
    buffers exactLibc 64 (by decide) (Buffer.zeroed 64) 8 (by decide) (1 / 2) 0⟩

end ControllerBridge
