/-
This file settles what becomes of the messages of controllers, over all runs.

A complete message within the limit is handed over whole, whatever oversize or
broken-off messages come before it and however it is cut. A longer one is
dropped whole only when its last fragment crosses the limit: after a fragment
in its middle has crossed it, the source takes the fragments that follow for
the start of a message.
-/

import ControllerBridge.Exact
import ControllerBridge.Reassembly

namespace ControllerBridge

/-- From the start, a controller connects and sends one message. -/
theorem exampleSystem_message (fragments : List (List UInt8)) (nonempty : fragments ≠ []) :
    ∃ history system, Runs examplePlatform history system ∧
      history.map Prod.fst =
        .controller 0 .established :: fragmentEvents 0 0 0 true fragments ∧
      ∃ entry ∈ history, entry.2.message = some fragments := by
  obtain ⟨observation, history, system, run, events, -, entry, member, message⟩ :=
    exists_session_run examplePlatform 0 0 0 fragments nonempty
      exampleSystem_runs.sessionsHold rfl
  refine ⟨_, system, exampleSystem_runs.append run, ?_, entry, ?_, message⟩
  · rw [List.nil_append, List.map_cons, events]
  · exact List.mem_cons_of_mem _ member

/-! ### Messages within the limit -/

section

variable {Double Variables : Type} [Add Double] [Sub Double] [Mul Double] [Div Double]
  [Neg Double] [LT Double] [DecidableLT Double] [LE Double] [DecidableLE Double]
  [OfScientific Double] [NatCast Double] [IntCast Double]

variable {platform : Platform Double Variables}

/-- The messages within the limit that a run completes, as their bytes, in order. -/
def acceptedMessages (history : List (Event Double × Observation Double)) : List (List UInt8) :=
  history.filterMap fun entry => entry.2.message.bind fun fragments =>
    if fragments.flatten.length ≤ maxControllerFrameLen then some fragments.flatten else none

/-- The frames a run hands over when it completes a message within the limit, in order. -/
def acceptedFrames (history : List (Event Double × Observation Double)) : List (List UInt8) :=
  history.filterMap fun entry => entry.2.message.bind fun fragments =>
    if fragments.flatten.length ≤ maxControllerFrameLen then entry.2.handed.map Handed.frame
    else none

/-- Every message within the limit is handed over whole at its final fragment, in the order the
messages complete, and no frame is handed over at another time. Every callback returns, and no
session holds more than the limit. -/
theorem accepted_messages_handed {history : List (Event Double × Observation Double)}
    {system : System Double Variables} (runs : Runs platform history system) :
    (∀ entry ∈ history, ∀ fragments ∈ entry.2.message,
      fragments.flatten.length ≤ maxControllerFrameLen →
        entry.2.handed.map Handed.frame = some fragments.flatten) ∧
    (∀ entry ∈ history, entry.2.message = none → entry.2.handed = none) ∧
    acceptedFrames history = acceptedMessages history ∧
    (∀ connection (reason : ControllerReason Double), system.lws.Permits connection reason →
      ∃ next observation, Step platform system (.controller connection reason) next
        observation) ∧
    (∀ connection, system.lws.controllers connection ≠ none →
      (system.sessions connection).len ≤ maxControllerFrameLen) := by
  have handed := runs.handed
  have whole : ∀ entry ∈ history, ∀ fragments ∈ entry.2.message,
      fragments.flatten.length ≤ maxControllerFrameLen →
        entry.2.handed.map Handed.frame = some fragments.flatten := by
    intro entry member fragments complete short
    obtain ⟨frame, nonempty⟩ := handed entry member
    rw [frame, Option.mem_def.mp complete, Option.bind_some,
      handedText_of_le (nonempty fragments complete) short]
  refine ⟨whole, ?_, ?_, ?_, ?_⟩
  · intro entry member incomplete
    have frame := (handed entry member).1
    rwa [incomplete, Option.bind_none, Option.map_eq_none_iff] at frame
  · refine List.filterMap_congr fun entry member => ?_
    cases complete : entry.2.message with
    | none => rfl
    | some fragments =>
      rw [Option.bind_some, Option.bind_some]
      split
      · rename_i short
        exact whole entry member fragments complete short
      · rfl
  · intro connection reason permitted
    obtain ⟨next, observation, taken, -⟩ :=
      exists_controller_step platform runs.sessionsHold connection reason permitted
    exact ⟨next, observation, taken⟩
  · intro connection connected
    obtain ⟨delivered, delivers⟩ := Option.ne_none_iff_exists'.mp connected
    exact (runs.sessionsHold connection delivered delivers).fits

end

/-- A message of 512 bytes in three fragments is handed over whole. -/
theorem fullMessage_handed : ∃ history system, Runs examplePlatform history system ∧
    ∃ entry ∈ history, entry.2.handed.map Handed.frame = some (List.replicate 512 0x61) := by
  obtain ⟨history, system, runs, -, entry, member, complete⟩ := exampleSystem_message
    [List.replicate 500 0x61, [], List.replicate 12 0x61] (List.cons_ne_nil _ _)
  refine ⟨history, system, runs, entry, member, ?_⟩
  rw [(accepted_messages_handed runs).1 entry member _ complete (by decide +kernel)]
  decide +kernel

/-! ### Messages past the limit -/

section

variable {Double Variables : Type} [Add Double] [Sub Double] [Mul Double] [Div Double]
  [Neg Double] [LT Double] [DecidableLT Double] [LE Double] [DecidableLE Double]
  [OfScientific Double] [NatCast Double] [IntCast Double]

variable {platform : Platform Double Variables}

/-- Every frame a run hands over is a complete message within the limit. -/
def DropsWhole (history : List (Event Double × Observation Double)) : Prop :=
  ∀ entry ∈ history, ∀ call ∈ entry.2.handed, ∃ fragments, entry.2.message = some fragments ∧
    call.frame = fragments.flatten ∧ fragments.flatten.length ≤ maxControllerFrameLen

/-- A run hands over only complete messages within the limit exactly when the last fragment of
every longer message takes the count past the limit. -/
theorem dropsWhole_iff {history : List (Event Double × Observation Double)}
    {system : System Double Variables} (runs : Runs platform history system) :
    DropsWhole history ↔ ∀ entry ∈ history, ∀ fragments ∈ entry.2.message,
      maxControllerFrameLen < fragments.flatten.length → LastCrosses fragments := by
  constructor
  · intro drops entry member fragments complete long
    by_contra crossesNot
    have frame := (runs.handed entry member).1
    rw [Option.mem_def.mp complete, Option.bind_some, handedText, if_neg crossesNot,
      Option.map_eq_some_iff] at frame
    obtain ⟨call, called, -⟩ := frame
    obtain ⟨fragments', complete', -, short⟩ := drops entry member call called
    rw [Option.mem_def.mp complete] at complete'
    cases complete'
    exact absurd short (Nat.not_le.mpr long)
  · intro crosses entry member call called
    obtain ⟨frame, nonempty⟩ := runs.handed entry member
    rw [Option.mem_def.mp called, Option.map_some, eq_comm, Option.bind_eq_some_iff] at frame
    obtain ⟨fragments, complete, determined⟩ := frame
    have short : fragments.flatten.length ≤ maxControllerFrameLen := by
      by_contra long
      rw [handedText, if_pos (crosses entry member fragments complete (Nat.lt_of_not_le long))]
        at determined
      cases determined
    rw [handedText_of_le (nonempty fragments complete) short] at determined
    exact ⟨fragments, complete, (Option.some.inj determined).symm, short⟩

end

/-- 601 bytes in three fragments. -/
def longMessage : List (List UInt8) :=
  [List.replicate 300 0x61, List.replicate 300 0x61, [0x62]]

/-- The last byte of the long message is handed over alone: after the second fragment has emptied
the session it fits. -/
theorem longMessage_not_dropped : ∃ history system, Runs examplePlatform history system ∧
    history.map Prod.fst =
      .controller 0 .established :: fragmentEvents 0 0 0 true longMessage ∧
    ¬ DropsWhole history := by
  obtain ⟨history, system, runs, events, entry, member, complete⟩ :=
    exampleSystem_message longMessage (List.cons_ne_nil _ _)
  refine ⟨history, system, runs, events, fun drops => ?_⟩
  have crossesNot : ¬ LastCrosses longMessage := by decide +kernel
  have frame := (runs.handed entry member).1
  rw [complete, Option.bind_some, handedText, if_neg crossesNot, Option.map_eq_some_iff] at frame
  obtain ⟨call, called, -⟩ := frame
  obtain ⟨fragments, complete', -, short⟩ := drops entry member call called
  rw [complete, Option.some_inj] at complete'
  subst complete'
  exact absurd short (by decide +kernel)

theorem longMessage_dropsWhole_iff : ∃ history system, Runs examplePlatform history system ∧
    history.map Prod.fst =
      .controller 0 .established :: fragmentEvents 0 0 0 true longMessage ∧
    (DropsWhole history ↔ ∀ entry ∈ history, ∀ fragments ∈ entry.2.message,
      maxControllerFrameLen < fragments.flatten.length → LastCrosses fragments) := by
  obtain ⟨history, system, runs, events, -⟩ :=
    exampleSystem_message longMessage (List.cons_ne_nil _ _)
  exact ⟨history, system, runs, events, dropsWhole_iff runs⟩

end ControllerBridge
