/-
This file is about the frames `callback_controller` hands over, and the messages
they come from.

A session holds the fragments since it was last emptied (`heldText`), and it is
emptied not only by a first fragment: a fragment that takes it past the limit
empties it in the middle of a message. What is handed over for a complete
message is therefore a function of its fragments, `handedText`. For a message
within the limit it is their concatenation, whatever came before. For a longer
one it is nothing exactly when the last fragment itself crosses the limit.
-/

import ControllerBridge.System

namespace ControllerBridge

open Region

/-! ### The text held of a message -/

/-- A fragment is appended to the text held, or empties it if both together pass the limit. -/
def hold (text fragment : List UInt8) : List UInt8 :=
  if maxControllerFrameLen < text.length + fragment.length then [] else text ++ fragment

/-- The text held after the fragments of a message. -/
def heldText (fragments : List (List UInt8)) : List UInt8 := fragments.foldl hold []

/-- The bytes counted over the fragments of a message: the count restarts at zero with a fragment
that takes it past the limit. -/
def counted (fragments : List (List UInt8)) : Nat :=
  fragments.foldl (fun count fragment =>
    if maxControllerFrameLen < count + fragment.length then 0 else count + fragment.length) 0

/-- The last fragment of a message takes the count past the limit. -/
def LastCrosses (fragments : List (List UInt8)) : Prop :=
  maxControllerFrameLen < counted fragments.dropLast + (fragments.getLastD []).length

instance (fragments : List (List UInt8)) : Decidable (LastCrosses fragments) :=
  inferInstanceAs (Decidable (_ < _))

/-- The frame handed over for a complete message. -/
def handedText (fragments : List (List UInt8)) : Option (List UInt8) :=
  if LastCrosses fragments then none
  else some (heldText fragments.dropLast ++ fragments.getLastD [])

theorem heldText_concat (fragments : List (List UInt8)) (data : List UInt8) :
    heldText (fragments ++ [data]) = hold (heldText fragments) data := by
  rw [heldText, List.foldl_append]
  rfl

theorem heldText_length (fragments : List (List UInt8)) :
    (heldText fragments).length = counted fragments := by
  induction fragments using List.reverseRecOn with
  | nil => rfl
  | append_singleton fragments data inductionHypothesis =>
    rw [counted, List.foldl_append, heldText_concat, hold, inductionHypothesis, counted]
    split <;> rename_i crosses
    · rw [List.foldl_cons, List.foldl_nil, if_pos crosses]
      rfl
    · rw [List.foldl_cons, List.foldl_nil, if_neg crosses, List.length_append,
        inductionHypothesis, counted]

theorem lastCrosses_concat (fragments : List (List UInt8)) (data : List UInt8) :
    LastCrosses (fragments ++ [data]) ↔
      maxControllerFrameLen < (heldText fragments).length + data.length := by
  rw [LastCrosses, List.dropLast_concat, List.getLastD_concat, heldText_length]

theorem handedText_concat (fragments : List (List UInt8)) (data : List UInt8) :
    handedText (fragments ++ [data]) =
      if maxControllerFrameLen < (heldText fragments).length + data.length then none
      else some (heldText fragments ++ data) := by
  rw [handedText, List.dropLast_concat, List.getLastD_concat]
  exact if_congr (lastCrosses_concat fragments data) rfl rfl

/-- Fragments within the limit are all held. -/
theorem heldText_of_le {fragments : List (List UInt8)}
    (short : fragments.flatten.length ≤ maxControllerFrameLen) :
    heldText fragments = fragments.flatten := by
  induction fragments using List.reverseRecOn with
  | nil => rfl
  | append_singleton fragments data inductionHypothesis =>
    rw [List.flatten_concat, List.length_append] at short
    rw [heldText_concat, inductionHypothesis (by omega), hold, if_neg (by omega),
      List.flatten_concat]

/-- A complete message within the limit is handed over as its concatenation. -/
theorem handedText_of_le {fragments : List (List UInt8)} (nonempty : fragments ≠ [])
    (short : fragments.flatten.length ≤ maxControllerFrameLen) :
    handedText fragments = some fragments.flatten := by
  obtain ⟨front, data, rfl⟩ := List.eq_nil_or_concat fragments |>.resolve_left nonempty
  rw [List.concat_eq_append, List.flatten_concat, List.length_append] at short
  rw [List.concat_eq_append, handedText_concat, heldText_of_le (by omega), if_neg (by omega),
    List.flatten_concat]

/-- What is handed over is within the limit. -/
theorem handedText_length_le {fragments : List (List UInt8)} {frame : List UInt8}
    (handed : handedText fragments = some frame) : frame.length ≤ maxControllerFrameLen := by
  rw [handedText] at handed
  split at handed
  · cases handed
  · rename_i crossesNot
    cases handed
    rw [List.length_append, heldText_length]
    exact Nat.le_of_not_lt crossesNot

/-! ### One fragment -/

section

variable {Double Variables : Type} [Add Double] [Sub Double] [Mul Double] [Div Double]
  [Neg Double] [LT Double] [DecidableLT Double] [LE Double] [DecidableLE Double]
  [OfScientific Double] [NatCast Double] [IntCast Double]

variable {platform : Platform Double Variables}

/-- What a received fragment does, in a session that holds the fragments delivered before. -/
structure Received (platform : Platform Double Variables) (process : Process Double Variables)
    (delivered : List (List UInt8)) (data : List UInt8) (final : Bool)
    (receivedNtpTime forwardNtpTime : Double) (process' : Process Double Variables)
    (session' : ControllerSession) (handed : Option (Handed Double)) : Prop where
  holds : session'.Holds (if final then [] else heldText (delivered ++ [data]))
  frame : handed.map Handed.frame = if final then handedText (delivered ++ [data]) else none
  idle : handed = none → process' = process
  call : ∀ call ∈ handed, bridgeServerForward platform process call.frame receivedNtpTime
    forwardNtpTime = .ok (process', call.forwarded)

variable (platform) in
theorem callbackController_receive (process : Process Double Variables)
    {session : ControllerSession} {delivered : List (List UInt8)}
    (holds : session.Holds (heldText delivered)) (data : List UInt8) {first : Bool}
    (flag : first = true ↔ delivered = []) (final : Bool)
    (receivedNtpTime forwardNtpTime : Double) :
    ∃ process' session' handed, callbackController platform process session
        (.receive data first final receivedNtpTime forwardNtpTime) =
          .ok (process', session', handed) ∧
      Received platform process delivered data final receivedNtpTime forwardNtpTime process'
        session' handed := by
  have before : heldBefore first (heldText delivered) = heldText delivered := by
    cases first with
    | false => rfl
    | true => rw [flag.mp rfl]; rfl
  by_cases overflows : maxControllerFrameLen < (heldText delivered).length + data.length
  · obtain ⟨after, run, empty⟩ := callbackController_overflow platform process holds data first
      final receivedNtpTime forwardNtpTime (by rwa [before])
    refine ⟨process, after, none, run, ?_, ?_, fun _ => rfl, ?_⟩
    · rwa [heldText_concat, hold, if_pos overflows, ite_self]
    · rw [handedText_concat, if_pos overflows, ite_self]
      rfl
    · intro call impossible
      cases impossible
  · have fits := Nat.le_of_not_lt overflows
    cases final with
    | false =>
      obtain ⟨after, run, kept⟩ := callbackController_kept platform process holds data first
        receivedNtpTime forwardNtpTime (by rwa [before])
      rw [before] at kept
      refine ⟨process, after, none, run, ?_, rfl, fun _ => rfl, ?_⟩
      · rwa [if_neg Bool.false_ne_true, heldText_concat, hold, if_neg overflows]
      · intro call impossible
        cases impossible
    | true =>
      obtain ⟨process', forwarded, after, forward, run, empty⟩ :=
        callbackController_final platform process holds data first receivedNtpTime
          forwardNtpTime (by rwa [before])
      rw [before] at forward run
      refine ⟨process', after, _, run, ?_, ?_, nofun, ?_⟩
      · rwa [if_pos rfl]
      · rw [if_pos rfl, handedText_concat, if_neg overflows]
        rfl
      · rintro call ⟨⟩
        exact forward

/-! ### All sessions along a run -/

/-- The session of every connected controller holds what its fragments leave. -/
def SessionsHold (system : System Double Variables) : Prop :=
  ∀ connection delivered, system.lws.controllers connection = some delivered →
    (system.sessions connection).Holds (heldText delivered)

theorem request_controllers (lws : Lws) (requested : Bool) :
    (lws.request requested).controllers = lws.controllers := by
  rw [Lws.request]
  split <;> rfl

/-- What a controller callback leaves in its session and in the process. -/
theorem received_of_run {system : System Double Variables} (sessionsHold : SessionsHold system)
    {connection : Nat} {data : List UInt8} {first final : Bool}
    {receivedNtpTime forwardNtpTime : Double} {process' : Process Double Variables}
    {session' : ControllerSession} {handed : Option (Handed Double)}
    (permitted : system.lws.Permits connection
      (.receive data first final receivedNtpTime forwardNtpTime))
    (run : callbackController platform system.process (system.sessions connection)
      (.receive data first final receivedNtpTime forwardNtpTime) =
        .ok (process', session', handed)) :
    Received platform system.process (system.lws.fragments connection) data final receivedNtpTime
      forwardNtpTime process' session' handed := by
  obtain ⟨delivered, connected, flag⟩ := permitted
  obtain ⟨_, _, _, run', received⟩ := callbackController_receive platform system.process
    (sessionsHold connection delivered connected) data flag final receivedNtpTime forwardNtpTime
  rw [run] at run'
  cases run'
  rwa [Lws.fragments, connected]

theorem sessionsHold_step {system next : System Double Variables} {event : Event Double}
    {observation : Observation Double} (sessionsHold : SessionsHold system)
    (taken : Step platform system event next observation) : SessionsHold next := by
  cases taken with
  | @controller connection reason process session handed permitted run =>
    intro other delivered connected
    dsimp only at connected ⊢
    rw [request_controllers, Lws.deliver] at connected
    dsimp only at connected
    by_cases same : other = connection
    · subst same
      rw [Function.update_self] at connected ⊢
      cases reason with
      | established =>
        cases connected
        cases run
        exact ControllerSession.holds_nil _
      | closed => cases connected
      | receive data first final receivedNtpTime forwardNtpTime =>
        have received := received_of_run sessionsHold permitted run
        have holds := received.holds
        rw [Lws.delivered] at connected
        cases final with
        | true =>
          cases connected
          exact holds
        | false =>
          cases connected
          exact holds
    · rw [Function.update_of_ne same] at connected ⊢
      exact sessionsHold other delivered connected
  | icuEstablished _ => exact sessionsHold
  | icuWriteable _ _ => exact sessionsHold
  | icuClosed _ => exact sessionsHold

theorem Runs.sessionsHold {history : List (Event Double × Observation Double)}
    {system : System Double Variables} (runs : Runs platform history system) :
    SessionsHold system :=
  runs.invariant (fun _ system => SessionsHold system)
    (fun start started connection delivered connected => by
      rw [started.idle] at connected
      cases connected)
    fun _ _ _ _ _ sessionsHold taken => sessionsHold_step sessionsHold taken

/-- A callback hands over a frame exactly when it completes a message, and then the frame is the
one the fragments of this message determine. -/
theorem handed_of_step {system next : System Double Variables} {event : Event Double}
    {observation : Observation Double} (sessionsHold : SessionsHold system)
    (taken : Step platform system event next observation) :
    observation.handed.map Handed.frame = observation.message.bind handedText := by
  cases taken with
  | @controller connection reason process session handed permitted run =>
    cases reason with
    | established =>
      cases run
      rfl
    | closed =>
      cases run
      rfl
    | receive data first final receivedNtpTime forwardNtpTime =>
      have frame := (received_of_run sessionsHold permitted run).frame
      dsimp only
      rw [frame, Lws.message]
      cases final <;> rfl
  | icuEstablished _ => rfl
  | icuWriteable _ _ => rfl
  | icuClosed _ => rfl

theorem message_ne_nil_of_step {system next : System Double Variables} {event : Event Double}
    {observation : Observation Double} (taken : Step platform system event next observation) :
    ∀ fragments ∈ observation.message, fragments ≠ [] := by
  rintro fragments member rfl
  cases taken with
  | @controller connection reason process session handed permitted run =>
    cases reason with
    | established => cases member
    | closed => cases member
    | receive data first final receivedNtpTime forwardNtpTime =>
      rw [Lws.message] at member
      split at member
      · rw [Option.mem_some_iff] at member
        exact List.append_ne_nil_of_right_ne_nil _ (List.cons_ne_nil _ _) member
      · cases member
  | icuEstablished _ => cases member
  | icuWriteable _ _ => cases member
  | icuClosed _ => cases member

variable (platform) in
/-- Every controller callback that libwebsockets may make returns, and is a step. -/
theorem exists_controller_step {system : System Double Variables}
    (sessionsHold : SessionsHold system) (connection : Nat) (reason : ControllerReason Double)
    (permitted : system.lws.Permits connection reason) :
    ∃ next observation, Step platform system (.controller connection reason) next observation ∧
      next.lws.controllers = Function.update system.lws.controllers connection
        (system.lws.delivered connection reason) ∧
      observation.message = system.lws.message connection reason := by
  have returns : ∃ process session handed,
      callbackController platform system.process (system.sessions connection) reason =
        .ok (process, session, handed) := by
    cases reason with
    | established => exact ⟨_, _, _, rfl⟩
    | closed => exact ⟨_, _, _, rfl⟩
    | receive data first final receivedNtpTime forwardNtpTime =>
      obtain ⟨delivered, connected, flag⟩ := permitted
      obtain ⟨process, session, handed, run, -⟩ := callbackController_receive platform
        system.process (sessionsHold connection delivered connected) data flag final
        receivedNtpTime forwardNtpTime
      exact ⟨process, session, handed, run⟩
  obtain ⟨process, session, handed, run⟩ := returns
  exact ⟨_, _, .controller permitted run, request_controllers _ _, rfl⟩

/-- Along a run every callback hands over what the message it completes determines. -/
theorem Runs.handed {history : List (Event Double × Observation Double)}
    {system : System Double Variables} (runs : Runs platform history system) :
    ∀ entry ∈ history, entry.2.handed.map Handed.frame = entry.2.message.bind handedText ∧
      ∀ fragments ∈ entry.2.message, fragments ≠ [] := by
  intro entry member
  obtain ⟨start, started, run⟩ := runs
  obtain ⟨front, back, rfl⟩ := List.append_of_mem member
  obtain ⟨before, after, runBefore, taken, -⟩ := run.split_step
  exact ⟨handed_of_step (Runs.sessionsHold ⟨start, started, runBefore⟩) taken,
    message_ne_nil_of_step taken⟩

/-! ### What a step does to the process -/

/-- What a new controller does to the process. -/
def resetProcess (platform : Platform Double Variables) (process : Process Double Variables) :
    Process Double Variables :=
  { process with
    motor := motorInferenceReset platform.tflite process.motor
    samples := clockOffsetReset }

/-- A step makes a call on a frame within the limit, or none, and then it leaves the process as it
is, resets it for a new controller, or tells its server of a new client. -/
theorem forwardCall_cases {system next : System Double Variables} {event : Event Double}
    {observation : Observation Double} (sessionsHold : SessionsHold system)
    (taken : Step platform system event next observation) :
    (∃ call, forwardCall (event, observation) = some call ∧
      call.handed.frame.length ≤ maxControllerFrameLen ∧
      bridgeServerForward platform system.process call.handed.frame call.receivedNtpTime
        call.forwardNtpTime = .ok (next.process, call.handed.forwarded)) ∨
    forwardCall (event, observation) = none ∧
      (next.process = system.process ∨ next.process = resetProcess platform system.process ∨
        next.process =
          { system.process with server := icuEstablished system.process.server }) := by
  cases taken with
  | @controller connection reason process session handed permitted run =>
    cases reason with
    | established =>
      cases run
      exact Or.inr ⟨rfl, Or.inr (Or.inl rfl)⟩
    | closed =>
      cases run
      exact Or.inr ⟨rfl, Or.inl rfl⟩
    | receive data first final receivedNtpTime forwardNtpTime =>
      have received := received_of_run sessionsHold permitted run
      cases handed with
      | none => exact Or.inr ⟨rfl, Or.inl (received.idle rfl)⟩
      | some call =>
        refine Or.inl ⟨⟨receivedNtpTime, forwardNtpTime, call⟩, rfl, ?_, received.call call rfl⟩
        have frame := received.frame
        cases final with
        | false => cases frame
        | true => exact handedText_length_le frame.symm
  | icuEstablished _ => exact Or.inr ⟨rfl, Or.inr (Or.inr rfl)⟩
  | icuWriteable _ _ => exact Or.inr ⟨rfl, Or.inl rfl⟩
  | icuClosed _ => exact Or.inr ⟨rfl, Or.inl rfl⟩

/-- Whether an event is a new controller. -/
def Event.connects {Double : Type} : Event Double → Bool
  | .controller _ .established => true
  | _ => false

/-- What is taken from the entries of a history since a controller connected last, in order. -/
def sinceConnected {Double Item : Type} (take : Event Double × Observation Double → Option Item)
    (history : List (Event Double × Observation Double)) : List Item :=
  history.foldl (fun items entry =>
    if entry.1.connects then [] else items ++ (take entry).toList) []

omit [Add Double] [Sub Double] [Mul Double] [Div Double] [Neg Double] [LT Double]
  [DecidableLT Double] [LE Double] [DecidableLE Double] [OfScientific Double] [NatCast Double]
  [IntCast Double] in
theorem sinceConnected_concat {Item : Type}
    (take : Event Double × Observation Double → Option Item)
    (history : List (Event Double × Observation Double))
    (entry : Event Double × Observation Double) :
    sinceConnected take (history ++ [entry]) =
      if entry.1.connects then [] else sinceConnected take history ++ (take entry).toList := by
  rw [sinceConnected, List.foldl_append]
  rfl

/-- A new controller resets the process, and any other step makes a call on a frame, or leaves the
process but for its server. -/
theorem process_of_step {system next : System Double Variables} {event : Event Double}
    {observation : Observation Double} (sessionsHold : SessionsHold system)
    (taken : Step platform system event next observation) :
    event.connects = true ∧ forwardCall (event, observation) = none ∧
        next.process = resetProcess platform system.process ∨
      event.connects = false ∧
        ((∃ call, forwardCall (event, observation) = some call ∧
            bridgeServerForward platform system.process call.handed.frame call.receivedNtpTime
              call.forwardNtpTime = .ok (next.process, call.handed.forwarded)) ∨
          forwardCall (event, observation) = none ∧
            ∃ server, next.process = { system.process with server := server }) := by
  cases taken with
  | @controller connection reason process session handed permitted run =>
    cases reason with
    | established =>
      cases run
      exact Or.inl ⟨rfl, rfl, rfl⟩
    | closed =>
      cases run
      exact Or.inr ⟨rfl, Or.inr ⟨rfl, _, rfl⟩⟩
    | receive data first final receivedNtpTime forwardNtpTime =>
      have received := received_of_run sessionsHold permitted run
      cases handed with
      | none => exact Or.inr ⟨rfl, Or.inr ⟨rfl, _, received.idle rfl⟩⟩
      | some call =>
        exact Or.inr ⟨rfl, Or.inl ⟨⟨receivedNtpTime, forwardNtpTime, call⟩, rfl,
          received.call call rfl⟩⟩
  | icuEstablished _ => exact Or.inr ⟨rfl, Or.inr ⟨rfl, _, rfl⟩⟩
  | icuWriteable _ _ => exact Or.inr ⟨rfl, Or.inr ⟨rfl, _, rfl⟩⟩
  | icuClosed _ => exact Or.inr ⟨rfl, Or.inr ⟨rfl, _, rfl⟩⟩

/-- What holds of the process at its start, and is kept by a new controller, by a new client and
by a call on a frame within the limit, holds of it along every run. -/
theorem Runs.process_invariant (Holds : Process Double Variables → Prop)
    (initial : ∀ start, Started platform start → Holds start.process)
    (reset : ∀ process, Holds process → Holds (resetProcess platform process))
    (client : ∀ process, Holds process →
      Holds { process with server := icuEstablished process.server })
    (forward : ∀ process frame receivedNtpTime forwardNtpTime process' forwarded,
      frame.length ≤ maxControllerFrameLen → Holds process →
      bridgeServerForward platform process frame receivedNtpTime forwardNtpTime =
        .ok (process', forwarded) → Holds process')
    {history : List (Event Double × Observation Double)} {system : System Double Variables}
    (runs : Runs platform history system) : Holds system.process := by
  refine (runs.invariant (fun _ system => SessionsHold system ∧ Holds system.process)
    (fun start started => ⟨Runs.sessionsHold ⟨start, started, .start⟩, initial start started⟩)
    ?_).2
  rintro _ system event next observation ⟨sessionsHold, holds⟩ taken
  refine ⟨sessionsHold_step sessionsHold taken, ?_⟩
  obtain ⟨call, -, short, run⟩ | ⟨-, same | renewed | connected⟩ :=
    forwardCall_cases sessionsHold taken
  · exact forward _ _ _ _ _ _ short holds run
  · rw [same]
    exact holds
  · rw [renewed]
    exact reset _ holds
  · rw [connected]
    exact client _ holds

/-- The payload an event publishes is the one its call leaves. -/
theorem published_eq_payload {system next : System Double Variables} {event : Event Double}
    {observation : Observation Double} (taken : Step platform system event next observation) :
    observation.published = (forwardCall (event, observation)).bind fun call =>
      call.handed.payload next.process.server := by
  cases taken with
  | @controller connection reason process session handed permitted run =>
    cases reason with
    | established =>
      cases run
      rfl
    | closed =>
      cases run
      rfl
    | receive data first final receivedNtpTime forwardNtpTime => cases handed <;> rfl
  | icuEstablished _ => rfl
  | icuWriteable _ _ => rfl
  | icuClosed _ => rfl

/-- Every event of a run is a step from a state that a part of the run reaches. -/
theorem Runs.exists_step {history : List (Event Double × Observation Double)}
    (runs : Runs platform history system) {entry : Event Double × Observation Double}
    (member : entry ∈ history) :
    ∃ front before after, Runs platform front before ∧
      (∀ earlier ∈ forwardCalls front, earlier ∈ forwardCalls history) ∧
      Step platform before entry.1 after entry.2 := by
  obtain ⟨start, started, run⟩ := runs
  obtain ⟨front, back, rfl⟩ := List.append_of_mem member
  obtain ⟨before, after, runBefore, taken, -⟩ := run.split_step
  refine ⟨front, before, after, ⟨start, started, runBefore⟩, fun earlier among => ?_, taken⟩
  rw [forwardCalls, List.filterMap_append]
  exact List.mem_append_left _ among

/-- Every call of a run is made in such a state, and its event publishes what it leaves. -/
theorem Runs.exists_entry {history : List (Event Double × Observation Double)}
    (runs : Runs platform history system) {entry : Event Double × Observation Double}
    (member : entry ∈ history) {call : ForwardCall Double}
    (makes : forwardCall entry = some call) :
    ∃ front before process', Runs platform front before ∧
      (∀ earlier ∈ forwardCalls front, earlier ∈ forwardCalls history) ∧
      call.handed.frame.length ≤ maxControllerFrameLen ∧
      bridgeServerForward platform before.process call.handed.frame call.receivedNtpTime
        call.forwardNtpTime = .ok (process', call.handed.forwarded) ∧
      entry.2.published = call.handed.payload process'.server := by
  obtain ⟨front, before, after, runsBefore, earlier, taken⟩ := runs.exists_step member
  refine ⟨front, before, after.process, runsBefore, earlier, ?_⟩
  obtain ⟨made, makes', short, call⟩ | ⟨idle, -⟩ := forwardCall_cases runsBefore.sessionsHold taken
  · obtain rfl := Option.some_inj.mp (makes.symm.trans makes')
    refine ⟨short, call, ?_⟩
    rw [published_eq_payload taken, makes', Option.bind_some]
  · exact absurd (makes.symm.trans idle) (Option.some_ne_none _)

theorem Runs.exists_call {history : List (Event Double × Observation Double)}
    (runs : Runs platform history system) {call : ForwardCall Double}
    (member : call ∈ forwardCalls history) :
    ∃ front before process', Runs platform front before ∧
      (∀ earlier ∈ forwardCalls front, earlier ∈ forwardCalls history) ∧
      call.handed.frame.length ≤ maxControllerFrameLen ∧
      bridgeServerForward platform before.process call.handed.frame call.receivedNtpTime
        call.forwardNtpTime = .ok (process', call.handed.forwarded) := by
  obtain ⟨entry, inside, makes⟩ := List.mem_filterMap.mp member
  obtain ⟨front, before, process', runsFront, earlier, short, run, -⟩ :=
    runs.exists_entry inside makes
  exact ⟨front, before, process', runsFront, earlier, short, run⟩

/-! ### Messages from a controller -/

/-- The callbacks that deliver a message in the given fragments. -/
def fragmentEvents (connection : Nat) (receivedNtpTime forwardNtpTime : Double) :
    Bool → List (List UInt8) → List (Event Double)
  | _, [] => []
  | first, [data] =>
    [.controller connection (.receive data first true receivedNtpTime forwardNtpTime)]
  | first, data :: rest =>
    .controller connection (.receive data first false receivedNtpTime forwardNtpTime) ::
      fragmentEvents connection receivedNtpTime forwardNtpTime false rest

variable (platform) in
/-- A connected controller can send any message, cut into fragments in any way. -/
theorem exists_message_run (connection : Nat) (receivedNtpTime forwardNtpTime : Double)
    (fragments : List (List UInt8)) (nonempty : fragments ≠ [])
    {system : System Double Variables} (sessionsHold : SessionsHold system)
    {delivered : List (List UInt8)}
    (connected : system.lws.controllers connection = some delivered) {first : Bool}
    (flag : first = true ↔ delivered = []) :
    ∃ history next, Machine.Run (Step platform) system history next ∧
      history.map Prod.fst =
        fragmentEvents connection receivedNtpTime forwardNtpTime first fragments ∧
      next.lws.controllers connection = some [] ∧
      ∃ entry ∈ history, entry.2.message = some (delivered ++ fragments) := by
  induction fragments generalizing system delivered first with
  | nil => exact absurd rfl nonempty
  | cons data fragments inductionHypothesis =>
    cases fragments with
    | nil =>
      obtain ⟨next, observation, taken, controllers, message⟩ := exists_controller_step platform
        sessionsHold connection (.receive data first true receivedNtpTime forwardNtpTime)
        ⟨delivered, connected, flag⟩
      refine ⟨[(_, observation)], next, .step .start taken, rfl, ?_, _,
        List.mem_singleton_self _, ?_⟩
      · rw [controllers, Function.update_self]
        rfl
      · rw [message, Lws.message, if_pos rfl, Lws.fragments, connected]
        rfl
    | cons data' fragments =>
      obtain ⟨next, observation, taken, controllers, -⟩ := exists_controller_step platform
        sessionsHold connection (.receive data first false receivedNtpTime forwardNtpTime)
        ⟨delivered, connected, flag⟩
      have connectedNext : next.lws.controllers connection = some (delivered ++ [data]) := by
        rw [controllers, Function.update_self, Lws.delivered, if_neg Bool.false_ne_true,
          Lws.fragments, connected]
        rfl
      obtain ⟨rest, last, run, events, connectedLast, entry, member, message⟩ :=
        inductionHypothesis (List.cons_ne_nil _ _) (sessionsHold_step sessionsHold taken)
          connectedNext (iff_of_false Bool.false_ne_true
            (List.append_ne_nil_of_right_ne_nil _ (List.cons_ne_nil _ _)))
      refine ⟨[(_, observation)] ++ rest, last, Machine.Run.append (.step .start taken) run, ?_,
        connectedLast, entry, List.mem_append_right _ member, ?_⟩
      · rw [List.singleton_append, List.map_cons, events]
        rfl
      · rw [message, List.append_assoc]
        rfl

variable (platform) in
/-- From any state without this connection, a controller can connect and send a message. -/
theorem exists_session_run (connection : Nat) (receivedNtpTime forwardNtpTime : Double)
    (fragments : List (List UInt8)) (nonempty : fragments ≠ [])
    {system : System Double Variables} (sessionsHold : SessionsHold system)
    (absent : system.lws.controllers connection = none) :
    ∃ observation history next, Machine.Run (Step platform) system
        ((.controller connection .established, observation) :: history) next ∧
      history.map Prod.fst =
        fragmentEvents connection receivedNtpTime forwardNtpTime true fragments ∧
      next.lws.controllers connection = some [] ∧
      ∃ entry ∈ history, entry.2.message = some fragments := by
  obtain ⟨first, observation, taken, controllers, -⟩ :=
    exists_controller_step platform sessionsHold connection .established absent
  have connected : first.lws.controllers connection = some [] := by
    rw [controllers, Function.update_self]
    rfl
  obtain ⟨history, next, run, events, connectedNext, entry, member, message⟩ :=
    exists_message_run platform connection receivedNtpTime forwardNtpTime fragments
      nonempty (sessionsHold_step sessionsHold taken) connected (iff_of_true rfl rfl)
  exact ⟨observation, history, next, Machine.Run.append (.step .start taken) run, events,
    connectedNext, entry, member, message⟩

/-- After its start a controller may connect. -/
theorem exists_connection {start : System Double Variables} (started : Started platform start) :
    ∃ observation system, Runs platform [(.controller 0 .established, observation)] system ∧
      system.lws.controllers 0 = some [] ∧
      system.process = resetProcess platform start.process := by
  have runs : Runs platform [] start := ⟨start, started, .start⟩
  have absent : start.lws.controllers 0 = none := by
    rw [started.idle]
    rfl
  obtain ⟨system, observation, taken, controllers, -⟩ :=
    exists_controller_step platform runs.sessionsHold 0 .established absent
  obtain ⟨-, -, renewed⟩ | ⟨impossible, -⟩ := process_of_step runs.sessionsHold taken
  · refine ⟨observation, system, runs.step taken, ?_, renewed⟩
    rw [controllers, Function.update_self]
    rfl
  · cases impossible

/-- The callback of a frame that comes in one fragment. -/
def frameEvent (frame : List UInt8) (receivedNtpTime forwardNtpTime : Double) : Event Double :=
  .controller 0 (.receive frame true true receivedNtpTime forwardNtpTime)

variable (platform) in
/-- A controller that is connected may go on with any frame within the limit. -/
theorem exists_frame_step {system : System Double Variables} (sessionsHold : SessionsHold system)
    (connected : system.lws.controllers 0 = some []) (receivedNtpTime forwardNtpTime : Double)
    {frame : List UInt8} (short : frame.length ≤ maxControllerFrameLen) :
    ∃ observation next handed, Step platform system
        (frameEvent frame receivedNtpTime forwardNtpTime) next observation ∧
      next.lws.controllers 0 = some [] ∧ handed.frame = frame ∧
      forwardCall (frameEvent frame receivedNtpTime forwardNtpTime, observation) =
        some ⟨receivedNtpTime, forwardNtpTime, handed⟩ ∧
      bridgeServerForward platform system.process frame receivedNtpTime forwardNtpTime =
        .ok (next.process, handed.forwarded) := by
  obtain ⟨next, observation, taken, controllers, message⟩ :=
    exists_controller_step platform sessionsHold 0
      (.receive frame true true receivedNtpTime forwardNtpTime)
      ⟨[], connected, iff_of_true rfl rfl⟩
  have hands := handed_of_step sessionsHold taken
  have text : handedText [frame] = some frame := by
    rw [handedText_of_le (List.cons_ne_nil _ _) (by simpa using short), List.flatten_singleton]
  rw [message, Lws.message, if_pos rfl, Lws.fragments, connected, Option.getD_some,
    List.nil_append, Option.bind_some, text, Option.map_eq_some_iff] at hands
  obtain ⟨handed, made, rfl⟩ := hands
  have makes : forwardCall (frameEvent handed.frame receivedNtpTime forwardNtpTime, observation) =
      some ⟨receivedNtpTime, forwardNtpTime, handed⟩ := by
    rw [frameEvent, forwardCall]
    dsimp only
    rw [made]
    rfl
  obtain ⟨call, makes', -, run⟩ | ⟨idle, -⟩ := forwardCall_cases sessionsHold taken
  · obtain rfl := Option.some_inj.mp (makes.symm.trans makes')
    refine ⟨observation, next, handed, taken, ?_, rfl, makes, run⟩
    rw [controllers, Function.update_self]
    rfl
  · exact absurd (makes.symm.trans idle) (Option.some_ne_none _)

/-- After its start the process may get any frames within the limit, and nothing else. -/
theorem exists_frames_run {start : System Double Variables} (started : Started platform start)
    (frames : List (List UInt8 × Double × Double))
    (short : ∀ sent ∈ frames, sent.1.length ≤ maxControllerFrameLen) :
    ∃ history system, Runs platform history system ∧ system.lws.controllers 0 = some [] ∧
      (forwardCalls history).map (fun call =>
        (call.handed.frame, call.receivedNtpTime, call.forwardNtpTime)) = frames := by
  induction frames using List.reverseRecOn with
  | nil =>
    obtain ⟨observation, system, runs, connected, -⟩ := exists_connection started
    exact ⟨_, system, runs, connected, rfl⟩
  | append_singleton frames last inductionHypothesis =>
    obtain ⟨frame, receivedNtpTime, forwardNtpTime⟩ := last
    rw [List.forall_mem_append, List.forall_mem_singleton] at short
    obtain ⟨history, system, runs, connected, calls⟩ := inductionHypothesis short.1
    obtain ⟨observation, next, handed, taken, connectedNext, same, makes, -⟩ :=
      exists_frame_step platform runs.sessionsHold connected receivedNtpTime forwardNtpTime short.2
    obtain rfl : handed.frame = frame := same
    refine ⟨_, next, runs.step taken, connectedNext, ?_⟩
    rw [forwardCalls, List.filterMap_append, List.map_append, List.filterMap_cons, makes]
    exact congrArg (· ++ _) calls

theorem exists_frame_run {start : System Double Variables} (started : Started platform start)
    (receivedNtpTime forwardNtpTime : Double) {frame : List UInt8}
    (short : frame.length ≤ maxControllerFrameLen) :
    ∃ history system call, Runs platform history system ∧ forwardCalls history = [call] ∧
      call.handed.frame = frame ∧ call.receivedNtpTime = receivedNtpTime ∧
      call.forwardNtpTime = forwardNtpTime := by
  obtain ⟨history, system, runs, -, calls⟩ := exists_frames_run started
    [(frame, receivedNtpTime, forwardNtpTime)] (List.forall_mem_singleton.mpr short)
  obtain ⟨call, single, same⟩ := List.map_eq_singleton_iff.mp calls
  simp only [Prod.mk.injEq] at same
  exact ⟨history, system, call, runs, single, same⟩

end

end ControllerBridge
