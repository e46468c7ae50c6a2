/-
This file settles what the clients of the bridge are sent, over all runs.

All clients are served from one payload buffer, which every published frame
overwrites. `Delivers` is the invariant: the buffer holds the last payload
published, a client whose request is pending has not been sent this payload, and
what it has been sent are earlier payloads, each once and in order. A frame that
is dropped leaves the buffer alone, as the stamping writes nothing before it can
fail.
-/

import ControllerBridge.Exact
import ControllerBridge.Reassembly

namespace ControllerBridge

open Region

section

variable {Double Variables : Type}

/-! ### What a client has been sent -/

/-- A writable callback of a client. -/
def Event.writesTo (client : Nat) : Event Double → Bool
  | .icuWriteable other _ => other == client
  | _ => false

/-- What an event sends to a client, with the number of frames published before. -/
def writesAt (client count : Nat) (entry : Event Double × Observation Double) :
    List (Nat × List UInt8) :=
  match entry.2.written with
  | none => []
  | some payload => if entry.1.writesTo client then [(count, payload)] else []

/-- What a client is sent along a history: the bytes of every write, each with the number of
frames published before it. -/
def writes (client : Nat) : Nat → List (Event Double × Observation Double) →
    List (Nat × List UInt8)
  | _, [] => []
  | count, entry :: rest =>
    writesAt client count entry ++
      writes client (count + (publishedPayloads [entry]).length) rest

theorem writes_concat (client count : Nat) (history : List (Event Double × Observation Double))
    (entry : Event Double × Observation Double) :
    writes client count (history ++ [entry]) =
      writes client count history ++
        writesAt client (count + (publishedPayloads history).length) entry := by
  induction history generalizing count with
  | nil => exact List.append_nil _
  | cons first history inductionHypothesis =>
    have lengths : count + (publishedPayloads [first]).length +
        (publishedPayloads history).length =
        count + (publishedPayloads (first :: history)).length := by
      rw [← List.singleton_append (l := history), publishedPayloads_append, List.length_append,
        Nat.add_assoc]
    rw [List.cons_append, writes, inductionHypothesis, lengths, writes, List.append_assoc]

theorem writes_concat_quiet (client : Nat) {event : Event Double}
    {observation : Observation Double} (unwritten : observation.written = none)
    (history : List (Event Double × Observation Double)) :
    writes client 0 (history ++ [(event, observation)]) = writes client 0 history := by
  rw [writes_concat, writesAt, unwritten]
  exact List.append_nil _

/-- The last payload published; the empty one before any. -/
def lastPayload (history : List (Event Double × Observation Double)) : List UInt8 :=
  (publishedPayloads history).getLastD []

theorem publishedPayloads_concat_none (event : Event Double) (observation : Observation Double)
    (unpublished : observation.published = none)
    (history : List (Event Double × Observation Double)) :
    publishedPayloads (history ++ [(event, observation)]) = publishedPayloads history := by
  rw [publishedPayloads_append, publishedPayloads, publishedPayloads, List.filterMap_cons,
    unpublished]
  exact List.append_nil _

theorem publishedPayloads_concat_some (event : Event Double) (observation : Observation Double)
    {payload : List UInt8} (published : observation.published = some payload)
    (history : List (Event Double × Observation Double)) :
    publishedPayloads (history ++ [(event, observation)]) =
      publishedPayloads history ++ [payload] := by
  rw [publishedPayloads_append, publishedPayloads, publishedPayloads, List.filterMap_cons,
    published]
  rfl

/-- The events after a publication, up to the next one. -/
def untilNextPublication (after : List (Event Double × Observation Double)) :
    List (Event Double × Observation Double) :=
  after.takeWhile fun entry => entry.2.published.isNone

/-- Before an event up to the next publication nothing is published. -/
theorem publishedPayloads_of_untilNextPublication
    {after front back : List (Event Double × Observation Double)}
    {entry : Event Double × Observation Double}
    (split : untilNextPublication after = front ++ entry :: back) :
    publishedPayloads front = [] ∧ ∃ rest, after = front ++ entry :: rest := by
  constructor
  · refine List.filterMap_eq_nil_iff.mpr fun early inside => ?_
    have member : early ∈ untilNextPublication after := split ▸ List.mem_append_left _ inside
    have none := List.mem_takeWhile_imp
      (p := fun entry : Event Double × Observation Double => entry.2.published.isNone) member
    exact Option.isNone_iff_eq_none.mp none
  · refine ⟨back ++ after.dropWhile fun entry => entry.2.published.isNone, ?_⟩
    rw [← List.cons_append, ← List.append_assoc, ← split, untilNextPublication,
      List.takeWhile_append_dropWhile]

/-! ### The invariant -/

/-- What is sent to a client: earlier payloads, each once and in order. -/
structure SentInOrder (payloads : List (List UInt8)) (sent : List (Nat × List UInt8)) : Prop where
  increasing : (sent.map Prod.fst).Pairwise (· < ·)
  payload : ∀ write ∈ sent, 0 < write.1 ∧ payloads[write.1 - 1]? = some write.2

/-- The state of the server and of the clients after a history. -/
structure Delivers (history : List (Event Double × Observation Double))
    (system : System Double Variables) : Prop where
  payload : Holds system.process.server.payload system.process.server.payloadLen
    (lastPayload history)
  protocol : ∀ client, system.lws.clients client ≠ none → system.process.server.protocol = true
  pending : ∀ client, system.lws.clients client = some true → publishedPayloads history ≠ [] ∧
    ∀ write ∈ writes client 0 history, write.1 < (publishedPayloads history).length
  sent : ∀ client, SentInOrder (publishedPayloads history) (writes client 0 history)

theorem SentInOrder.le_length {payloads : List (List UInt8)} {sent : List (Nat × List UInt8)}
    (inOrder : SentInOrder payloads sent) : ∀ write ∈ sent, write.1 ≤ payloads.length := by
  intro write member
  obtain ⟨positive, here⟩ := inOrder.payload write member
  have bound := (List.getElem?_eq_some_iff.mp here).1
  omega

/-- A new payload leaves what was sent in order. -/
theorem SentInOrder.publish {payloads : List (List UInt8)} {sent : List (Nat × List UInt8)}
    (inOrder : SentInOrder payloads sent) (payload : List UInt8) :
    SentInOrder (payloads ++ [payload]) sent := by
  refine ⟨inOrder.increasing, fun write member => ?_⟩
  obtain ⟨positive, here⟩ := inOrder.payload write member
  exact ⟨positive, List.getElem?_append_left (List.getElem?_eq_some_iff.mp here).1 ▸ here⟩

/-- Sending the last payload to a client that has not been sent it. -/
theorem SentInOrder.write {payloads : List (List UInt8)} {sent : List (Nat × List UInt8)}
    (inOrder : SentInOrder payloads sent) (nonempty : payloads ≠ [])
    (unsent : ∀ write ∈ sent, write.1 < payloads.length) :
    SentInOrder payloads (sent ++ [(payloads.length, payloads.getLastD [])]) := by
  constructor
  · rw [List.map_append, List.pairwise_append]
    refine ⟨inOrder.increasing, List.pairwise_singleton .., ?_⟩
    intro number member last single
    obtain ⟨write, inside, rfl⟩ := List.mem_map.mp member
    rw [List.mem_singleton.mp single]
    exact unsent write inside
  · intro write member
    rcases List.mem_append.mp member with inside | single
    · exact inOrder.payload write inside
    · rw [List.mem_singleton.mp single]
      refine ⟨List.length_pos_of_ne_nil nonempty, ?_⟩
      rw [← List.getLast?_eq_getElem?, List.getLastD_eq_getLast?,
        List.getLast?_eq_some_getLast nonempty]
      rfl

/-- An event without a payload and without a write changes neither list. -/
theorem Delivers.of_quiet {history : List (Event Double × Observation Double)}
    {system next : System Double Variables} (delivers : Delivers history system)
    {event : Event Double} {observation : Observation Double}
    (unpublished : observation.published = none) (unwritten : observation.written = none)
    (payload : next.process.server.payload = system.process.server.payload)
    (payloadLen : next.process.server.payloadLen = system.process.server.payloadLen)
    (protocol : ∀ client, next.lws.clients client ≠ none →
      next.process.server.protocol = true)
    (pending : ∀ client, next.lws.clients client = some true →
      system.lws.clients client = some true) :
    Delivers (history ++ [(event, observation)]) next := by
  have same := publishedPayloads_concat_none event _ unpublished history
  refine ⟨?_, protocol, ?_, ?_⟩
  · rw [lastPayload, same, payload, payloadLen]
    exact delivers.payload
  · intro client requested
    rw [same, writes_concat_quiet client unwritten]
    exact delivers.pending client (pending client requested)
  · intro client
    rw [same, writes_concat_quiet client unwritten]
    exact delivers.sent client

/-- A payload published is the last one, and no client has been sent it. -/
theorem Delivers.publish {history : List (Event Double × Observation Double)}
    {system next : System Double Variables} (delivers : Delivers history system)
    {event : Event Double} {observation : Observation Double} {payload : List UInt8}
    (published : observation.published = some payload) (unwritten : observation.written = none)
    (holds : Holds next.process.server.payload next.process.server.payloadLen payload)
    (protocol : ∀ client, next.lws.clients client ≠ none →
      next.process.server.protocol = true) :
    Delivers (history ++ [(event, observation)]) next := by
  have same := publishedPayloads_concat_some event _ published history
  refine ⟨?_, protocol, ?_, ?_⟩
  · rw [lastPayload, same, List.getLastD_concat]
    exact holds
  · intro client _
    rw [same, writes_concat_quiet client unwritten]
    refine ⟨List.append_ne_nil_of_right_ne_nil _ (List.cons_ne_nil _ _), ?_⟩
    intro write member
    have bound := (delivers.sent client).le_length write member
    rw [List.length_append, List.length_singleton]
    omega
  · intro client
    rw [same, writes_concat_quiet client unwritten]
    exact (delivers.sent client).publish payload

/-- The last payload is written to a client with a request, which uses the request up. -/
theorem Delivers.write {history : List (Event Double × Observation Double)}
    {system next : System Double Variables} (delivers : Delivers history system) {client : Nat}
    (requested : system.lws.clients client = some true) {written : Int}
    {observation : Observation Double} (unpublished : observation.published = none)
    (handed : observation.written = some (lastPayload history))
    (server : next.process.server = system.process.server)
    (protocol : ∀ client, next.lws.clients client ≠ none →
      next.process.server.protocol = true)
    (pending : ∀ other, next.lws.clients other = some true →
      other ≠ client ∧ system.lws.clients other = some true) :
    Delivers (history ++ [(.icuWriteable client written, observation)]) next := by
  obtain ⟨nonempty, unsent⟩ := delivers.pending client requested
  have same := publishedPayloads_concat_none (.icuWriteable client written) _ unpublished history
  have others : ∀ other, other ≠ client →
      writes other 0 (history ++ [(.icuWriteable client written, observation)]) =
        writes other 0 history := by
    intro other different
    have elsewhere : Event.writesTo other (.icuWriteable client written : Event Double) = false :=
      beq_false_of_ne different.symm
    rw [writes_concat, writesAt, handed]
    dsimp only
    rw [elsewhere, if_neg Bool.false_ne_true, List.append_nil]
  refine ⟨?_, protocol, ?_, ?_⟩
  · rw [lastPayload, same, server]
    exact delivers.payload
  · intro other waiting
    obtain ⟨different, waited⟩ := pending other waiting
    rw [same, others other different]
    exact delivers.pending other waited
  · intro other
    rw [same]
    by_cases different : other = client
    · subst different
      have here : Event.writesTo other (.icuWriteable other written : Event Double) = true :=
        beq_self_eq_true other
      rw [writes_concat, writesAt, handed, Nat.zero_add]
      dsimp only
      rw [if_pos here]
      exact (delivers.sent other).write nonempty unsent
    · rw [others other different]
      exact delivers.sent other

theorem setClient_clients (lws : Lws) (client other : Nat) (pending : Option Bool) :
    (lws.setClient client pending).clients other =
      if other = client then pending else lws.clients other :=
  Function.update_apply ..

/-- Setting a client to anything but a request leaves the requests of the others. -/
theorem pending_of_setClient {lws : Lws} {client other : Nat} {value : Option Bool}
    (idle : value ≠ some true) (pending : (lws.setClient client value).clients other = some true) :
    other ≠ client ∧ lws.clients other = some true := by
  rw [setClient_clients] at pending
  split at pending
  · exact absurd pending idle
  · rename_i different
    exact ⟨different, pending⟩

/-- The protocol is set while there are clients, also with one of them set to another value. -/
theorem Delivers.protocol_setClient {history : List (Event Double × Observation Double)}
    {system : System Double Variables} (delivers : Delivers history system) {client : Nat}
    {value : Option Bool} (known : value ≠ none → system.lws.clients client ≠ none) :
    ∀ other, (system.lws.setClient client value).clients other ≠ none →
      system.process.server.protocol = true := by
  intro other connected
  rw [setClient_clients] at connected
  split at connected
  · exact delivers.protocol client (known connected)
  · exact delivers.protocol other connected

end

section

variable {Double Variables : Type} [Add Double] [Sub Double] [Mul Double] [Div Double]
  [Neg Double] [LT Double] [DecidableLT Double] [LE Double] [DecidableLE Double]
  [OfScientific Double] [NatCast Double] [IntCast Double]

variable {platform : Platform Double Variables}

/-- A controller callback leaves the server and the requests as they are, or it publishes a
payload and requests a writable callback of every client once there is a protocol. -/
theorem controller_effect {system : System Double Variables} (sessionsHold : SessionsHold system)
    {connection : Nat} {reason : ControllerReason Double} {process : Process Double Variables}
    {session : ControllerSession} {handed : Option (Handed Double)}
    (permitted : system.lws.Permits connection reason)
    (run : callbackController platform system.process (system.sessions connection) reason =
      .ok (process, session, handed)) :
    ((handed.bind fun call => call.payload process.server) = none ∧
      process.server = system.process.server ∧
      (handed.any fun call => call.requested) = false) ∨
    ∃ payload, (handed.bind fun call => call.payload process.server) = some payload ∧
      Holds process.server.payload process.server.payloadLen payload ∧
      process.server.protocol = system.process.server.protocol ∧
      (handed.any fun call => call.requested) = system.process.server.protocol := by
  cases reason with
  | established =>
    cases run
    exact Or.inl ⟨rfl, rfl, rfl⟩
  | closed =>
    cases run
    exact Or.inl ⟨rfl, rfl, rfl⟩
  | receive data first final receivedNtpTime forwardNtpTime =>
    have received := received_of_run sessionsHold permitted run
    cases handed with
    | none =>
      obtain rfl := received.idle rfl
      exact Or.inl ⟨rfl, rfl, rfl⟩
    | some call =>
      obtain ⟨frame, forwarded⟩ := call
      have forward := received.call ⟨frame, forwarded⟩ rfl
      obtain ⟨-, rfl, rfl⟩ | ⟨stamped, payload, n, -, rfl, rfl, holds⟩ :=
        bridgeServerForward_cases platform system.process frame _ _ forward
      · exact Or.inl ⟨rfl, rfl, rfl⟩
      · exact Or.inr ⟨_, rfl, ⟨holds.fits, rfl⟩, rfl, rfl⟩

theorem request_clients (lws : Lws) (requested : Bool) (client : Nat) :
    (lws.request requested).clients client =
      if requested then (lws.clients client).map fun _ => true else lws.clients client := by
  rw [Lws.request]
  split <;> rfl

/-- A writable callback hands over the payload, unless it is empty. -/
theorem icuWriteable_eq {server : BridgeServer} {text : List UInt8}
    (holds : Holds server.payload server.payloadLen text) (written : Int) :
    ∃ result, icuWriteable server written =
      .ok (if text = [] then none else some text, result) := by
  have length := holds.length_eq
  rw [icuWriteable]
  by_cases empty : text = []
  · rw [empty, List.length_nil] at length
    rw [if_neg (by omega), if_pos empty]
    exact ⟨_, rfl⟩
  · have positive := List.length_pos_of_ne_nil empty
    have fits := holds.fits
    rw [if_pos (by omega), if_neg empty, slice_ok (by rw [server.payload.size]; omega), ok_bind,
      List.drop_zero]
    have reads : server.payload.bytes.take server.payloadLen = text := holds.reads
    rw [reads]
    split
    · exact ⟨_, rfl⟩
    · exact ⟨_, rfl⟩

theorem delivers_step {history : List (Event Double × Observation Double)}
    {system next : System Double Variables} {event : Event Double}
    {observation : Observation Double} (sessionsHold : SessionsHold system)
    (delivers : Delivers history system)
    (taken : Step platform system event next observation) :
    Delivers (history ++ [(event, observation)]) next := by
  cases taken with
  | @controller connection reason process session handed permitted run =>
    obtain ⟨unpublished, server, requested⟩ | ⟨payload, published, holds, protocol, requested⟩ :=
      controller_effect sessionsHold permitted run
    · have clients : ∀ client, ((system.lws.deliver connection reason).request
          (handed.any fun call => call.requested)).clients client = system.lws.clients client := by
        intro client
        rw [request_clients, requested, if_neg Bool.false_ne_true]
        rfl
      refine delivers.of_quiet unpublished rfl (congrArg _ server) (congrArg _ server) ?_ ?_
      · intro client connected
        rw [clients] at connected
        exact server ▸ delivers.protocol client connected
      · intro client pending
        rwa [clients] at pending
    · refine delivers.publish published rfl holds fun client connected => ?_
      rw [protocol]
      refine delivers.protocol client fun absent => connected ?_
      rw [request_clients, Lws.deliver, absent, Option.map_none, ite_self]
  | @icuEstablished client permitted =>
    refine delivers.of_quiet rfl rfl rfl rfl (fun _ _ => rfl) fun other pending => ?_
    exact (pending_of_setClient (by decide) pending).2
  | @icuClosed client permitted =>
    refine delivers.of_quiet rfl rfl rfl rfl ?_ fun other pending => ?_
    · exact delivers.protocol_setClient (absurd rfl)
    · exact (pending_of_setClient (by decide) pending).2
  | @icuWriteable client written result payload permitted run =>
    obtain ⟨result', run'⟩ := icuWriteable_eq delivers.payload written
    rw [run', Except.ok.injEq, Prod.mk.injEq] at run
    obtain ⟨rfl, rfl⟩ := run
    have known : system.lws.clients client ≠ none := by
      rw [permitted]
      exact Option.some_ne_none _
    have protocol : ∀ other, (system.lws.setClient client (some false)).clients other ≠ none →
        system.process.server.protocol = true := delivers.protocol_setClient fun _ => known
    by_cases empty : lastPayload history = []
    · refine delivers.of_quiet rfl (if_pos empty) rfl rfl protocol fun other pending => ?_
      exact (pending_of_setClient (by decide) pending).2
    · refine delivers.write permitted rfl (if_neg empty) rfl protocol fun other pending => ?_
      exact pending_of_setClient (by decide) pending

/-- Along every run the clients are sent the payloads as they should be. -/
theorem Runs.delivers {history : List (Event Double × Observation Double)}
    {system : System Double Variables} (runs : Runs platform history system) :
    Delivers history system := by
  refine (runs.invariant (fun history system => SessionsHold system ∧ Delivers history system)
    (fun start started => ⟨Runs.sessionsHold ⟨start, started, .start⟩, ?_⟩) ?_).2
  · obtain ⟨payload, server⟩ := started.server
    refine ⟨?_, ?_, ?_, ?_⟩
    · rw [server]
      exact ⟨Nat.zero_le _, rfl⟩
    · intro client connected
      rw [started.idle] at connected
      exact absurd rfl connected
    · intro client pending
      rw [started.idle] at pending
      cases pending
    · exact fun client => ⟨List.Pairwise.nil, nofun⟩
  · rintro history system event next observation ⟨sessionsHold, delivers⟩ taken
    exact ⟨sessionsHold_step sessionsHold taken, delivers_step sessionsHold delivers taken⟩

/-! ### The clients of a run -/

/-- A write carries the last payload published. -/
theorem written_of_step {history : List (Event Double × Observation Double)}
    {system next : System Double Variables} {event : Event Double}
    {observation : Observation Double} (delivers : Delivers history system)
    (taken : Step platform system event next observation) :
    ∀ bytes ∈ observation.written, (publishedPayloads history).getLast? = some bytes := by
  intro bytes member
  cases taken with
  | controller _ _ => cases member
  | icuEstablished _ => cases member
  | icuClosed _ => cases member
  | @icuWriteable client written result payload permitted run =>
    obtain ⟨nonempty, -⟩ := delivers.pending client permitted
    obtain ⟨result', run'⟩ := icuWriteable_eq delivers.payload written
    rw [run', Except.ok.injEq, Prod.mk.injEq] at run
    obtain ⟨rfl, -⟩ := run
    dsimp only at member
    split at member
    · cases member
    · rw [← Option.some.inj member, lastPayload, List.getLastD_eq_getLast?,
        List.getLast?_eq_some_getLast nonempty]
      rfl

/-- While the last payload is not empty, every writable callback hands it over. -/
theorem written_of_writeable {history : List (Event Double × Observation Double)}
    {system next : System Double Variables} {event : Event Double}
    {observation : Observation Double} {client : Nat} (delivers : Delivers history system)
    (taken : Step platform system event next observation) (writes : event.writesTo client = true)
    (nonempty : lastPayload history ≠ []) : observation.written = some (lastPayload history) := by
  cases taken with
  | controller _ _ => cases writes
  | icuEstablished _ => cases writes
  | icuClosed _ => cases writes
  | @icuWriteable client written result payload permitted run =>
    obtain ⟨result', run'⟩ := icuWriteable_eq delivers.payload written
    rw [run', Except.ok.injEq, Prod.mk.injEq] at run
    obtain ⟨rfl, -⟩ := run
    exact if_neg nonempty

/-- A publication makes a request for every client connected. -/
theorem request_of_publication {history : List (Event Double × Observation Double)}
    {system next : System Double Variables} (runs : Runs platform history system)
    {event : Event Double} {observation : Observation Double} {client : Nat}
    (taken : Step platform system event next observation) (published : observation.published ≠ none)
    (connected : system.lws.clients client ≠ none) : next.lws.clients client = some true := by
  cases taken with
  | @controller connection reason process session handed permitted run =>
    obtain ⟨unpublished, -⟩ | ⟨payload, -, -, -, requested⟩ :=
      controller_effect runs.sessionsHold permitted run
    · exact absurd unpublished published
    · obtain ⟨pending, here⟩ := Option.ne_none_iff_exists'.mp connected
      dsimp only
      rw [request_clients, requested, runs.delivers.protocol client connected, if_pos rfl,
        Lws.deliver, here]
      rfl
  | icuEstablished _ => exact absurd rfl published
  | icuWriteable _ _ => exact absurd rfl published
  | icuClosed _ => exact absurd rfl published

/-- A callback for a pending request returns. -/
theorem exists_writeable_step {history : List (Event Double × Observation Double)}
    {system : System Double Variables} (runs : Runs platform history system) {client : Nat}
    (written : Int) (pending : system.lws.clients client = some true) :
    ∃ next observation, Step platform system (.icuWriteable client written) next observation := by
  obtain ⟨result, run⟩ := icuWriteable_eq runs.delivers.payload written
  exact ⟨_, _, .icuWriteable pending run⟩

/-- What the clients of the bridge can rely on, after a run. -/
structure ServesClients (platform : Platform Double Variables)
    (history : List (Event Double × Observation Double)) (system : System Double Variables) :
    Prop where
  /-- Every write carries the payload published last, and there is one. -/
  latest : ∀ before entry after, history = before ++ entry :: after →
    ∀ bytes ∈ entry.2.written, (publishedPayloads before).getLast? = some bytes
  /-- An event that does not publish, as one that drops its frame, leaves the payload. -/
  dropped : ∀ event next observation, Step platform system event next observation →
    observation.published = none →
    next.process.server.payload = system.process.server.payload ∧
      next.process.server.payloadLen = system.process.server.payloadLen
  /-- The writes to one client are of published payloads, in their order and each once. -/
  inOrder : ∀ client, SentInOrder (publishedPayloads history) (writes client 0 history)
  /-- A payload that is not empty is handed over exactly when a writable callback of the client
  comes before the next publication. -/
  handed : ∀ before event observation after payload client,
    history = before ++ (event, observation) :: after →
    observation.published = some payload → payload ≠ [] →
    ((∃ entry ∈ untilNextPublication after,
        entry.1.writesTo client = true ∧ entry.2.written = some payload) ↔
      ∃ entry ∈ untilNextPublication after, entry.1.writesTo client = true)
  /-- A publication makes a request for every client connected. -/
  requested : ∀ event next observation client, Step platform system event next observation →
    observation.published ≠ none → system.lws.clients client ≠ none →
    next.lws.clients client = some true
  /-- A callback for a pending request returns. -/
  returns : ∀ client written, system.lws.clients client = some true →
    ∃ next observation, Step platform system (.icuWriteable client written) next observation

theorem icu_delivery {history : List (Event Double × Observation Double)}
    {system : System Double Variables} (runs : Runs platform history system) :
    ServesClients platform history system where
  latest := by
    rintro before ⟨event, observation⟩ after rfl
    obtain ⟨start, started, run⟩ := runs
    obtain ⟨middle, next, runBefore, taken, -⟩ := run.split_step
    exact written_of_step (Runs.delivers ⟨start, started, runBefore⟩) taken
  dropped := by
    intro event next observation taken unpublished
    cases taken with
    | @controller connection reason process session handed permitted run =>
      obtain ⟨-, server, -⟩ | ⟨payload, published, -⟩ :=
        controller_effect runs.sessionsHold permitted run
      · exact ⟨congrArg _ server, congrArg _ server⟩
      · exact absurd (published.symm.trans unpublished) nofun
    | icuEstablished _ => exact ⟨rfl, rfl⟩
    | icuWriteable _ _ => exact ⟨rfl, rfl⟩
    | icuClosed _ => exact ⟨rfl, rfl⟩
  inOrder := runs.delivers.sent
  handed := by
    rintro before event observation after payload client rfl published nonempty
    refine ⟨fun ⟨entry, member, writes, _⟩ => ⟨entry, member, writes⟩, ?_⟩
    rintro ⟨⟨event', observation'⟩, member, writes⟩
    refine ⟨(event', observation'), member, writes, ?_⟩
    obtain ⟨front, back, split⟩ := List.append_of_mem member
    obtain ⟨unpublished, rest, whole⟩ := publishedPayloads_of_untilNextPublication split
    have last : lastPayload (before ++ (event, observation) :: front) = payload := by
      rw [lastPayload, List.append_cons, publishedPayloads_append, unpublished, List.append_nil,
        publishedPayloads_concat_some _ _ published, List.getLastD_concat]
    obtain ⟨start, started, run⟩ := runs
    rw [whole, ← List.cons_append, ← List.append_assoc] at run
    obtain ⟨middle, next, runBefore, taken, -⟩ := run.split_step
    have written := written_of_writeable (Runs.delivers ⟨start, started, runBefore⟩) taken writes
      (by rwa [last])
    rwa [last] at written
  requested := fun _ _ _ _ taken => request_of_publication runs taken
  returns := fun _ written => exists_writeable_step runs written

end

/-- A frame that is published, and one whose sent time is too large to be rendered. -/
def keptFrame : List UInt8 := ascii "\x7b\"ntp_time\":0.5\x7d"

def droppedFrame : List UInt8 := ascii "\x7b\"ntp_time\":1e300\x7d"

/-- A client connects, a controller connects and sends both frames, and the client gets a writable
callback. -/
def deliveryEvents : List (Event ℚ) :=
  [.icuEstablished 7, .controller 0 .established, frameEvent keptFrame 1 2,
    frameEvent droppedFrame 3 4, .icuWriteable 7 100]

/-- The controller callbacks leave a client connected, and leave its request. -/
theorem clients_of_controller {Double Variables : Type} [Add Double] [Sub Double] [Mul Double]
    [Div Double] [Neg Double] [LT Double] [DecidableLT Double] [LE Double] [DecidableLE Double]
    [OfScientific Double] [NatCast Double] [IntCast Double] {platform : Platform Double Variables}
    {system next : System Double Variables} {connection : Nat} {reason : ControllerReason Double}
    {observation : Observation Double}
    (taken : Step platform system (.controller connection reason) next observation)
    (client : Nat) :
    observation.written = none ∧
      (system.lws.clients client ≠ none → next.lws.clients client ≠ none) ∧
      (system.lws.clients client = some true → next.lws.clients client = some true) := by
  cases taken with
  | @controller _ _ _ session handed _ _ =>
    dsimp only
    rw [request_clients, Lws.deliver]
    refine ⟨rfl, fun connected => ?_, fun pending => ?_⟩
    · split
      · exact mt Option.map_eq_none_iff.mp connected
      · exact connected
    · rw [pending]
      split <;> rfl

/-- The dropped frame leaves the payload of the one before it, which the client is sent. -/
theorem exampleDelivery : ∃ history system payload, Runs examplePlatform history system ∧
    history.map Prod.fst = deliveryEvents ∧
    history.map (fun entry => entry.2.published) = [none, none, some payload, none, none] ∧
    history.map (fun entry => entry.2.written) = [none, none, none, none, some payload] ∧
    payload ≠ [] := by
  have joins : Step examplePlatform exampleSystem (.icuEstablished 7) _ _ := .icuEstablished rfl
  have runs1 := exampleSystem_runs.step joins
  obtain ⟨system2, observation2, connects, controllers, -⟩ :=
    exists_controller_step examplePlatform runs1.sessionsHold 0 .established rfl
  have runs2 := runs1.step connects
  have connected2 : system2.lws.controllers 0 = some [] := by
    rw [controllers, Function.update_self]
    rfl
  have joined2 := (clients_of_controller connects 7).2.1 nofun
  obtain ⟨observation3, system3, handed3, sends, connected3, -, makes3, call3⟩ :=
    exists_frame_step examplePlatform runs2.sessionsHold connected2 1 2
      (show keptFrame.length ≤ maxControllerFrameLen by decide +kernel)
  have runs3 := runs2.step sends
  obtain ⟨observation4, system4, handed4, drops, -, -, makes4, call4⟩ :=
    exists_frame_step examplePlatform runs3.sessionsHold connected3 3 4
      (show droppedFrame.length ≤ maxControllerFrameLen by decide +kernel)
  have runs4 := runs3.step drops
  -- the first frame is published, and the client gets a request
  have process2 : system2.process = resetProcess examplePlatform
      { exampleProcess with server := icuEstablished exampleProcess.server } := by
    obtain ⟨-, -, renewed⟩ | ⟨impossible, -⟩ := process_of_step runs1.sessionsHold connects
    · exact renewed
    · cases impossible
  have computed : (bridgeServerForward examplePlatform (resetProcess examplePlatform
      { exampleProcess with server := icuEstablished exampleProcess.server }) keptFrame 1
        2).toOption.map (fun result => (result.2.published.map fun _ =>
          result.1.server.published).any fun payload => !payload.isEmpty) = some true := by
    decide +kernel
  rw [← process2, call3] at computed
  obtain ⟨payload, published3, nonempty⟩ :=
    (Option.any_eq_true _ _).mp (Option.some_inj.mp computed)
  have shown3 : observation3.published = some payload := by
    rw [published_eq_payload sends, makes3]
    exact published3
  have pending3 := request_of_publication runs2 sends
    (shown3 ▸ Option.some_ne_none payload) joined2
  -- the second one is dropped, and leaves the request
  have dropped : stampedFrame examplePlatform droppedFrame 3 4 = none := by decide +kernel
  have shown4 : observation4.published = none := by
    rw [published_eq_payload drops, makes4]
    obtain ⟨-, -, same⟩ | ⟨stamped, _, _, stamp, -⟩ :=
      bridgeServerForward_cases examplePlatform system3.process droppedFrame 3 4 call4
    · exact congrArg (fun forwarded : Forwarded ℚ => forwarded.published.map fun _ => _) same
    · exact absurd (stamp.symm.trans dropped) (Option.some_ne_none _)
  have pending4 := (clients_of_controller drops 7).2.2 pending3
  obtain ⟨system5, observation5, writes⟩ := exists_writeable_step runs4 100 pending4
  have filled : payload ≠ [] := by
    rintro rfl
    cases nonempty
  have toClient : (Event.icuWriteable 7 100 : Event ℚ).writesTo 7 = true := rfl
  have written5 := written_of_writeable runs4.delivers writes toClient
  rw [lastPayload, publishedPayloads_concat_none _ _ shown4,
    publishedPayloads_concat_some _ _ shown3, List.getLastD_concat] at written5
  have shown2 : observation2.published = none := published_eq_payload connects
  have shown5 : observation5.published = none := published_eq_payload writes
  refine ⟨_, system5, payload, runs4.step writes, rfl, ?_, ?_, filled⟩
  · simp only [List.map_append, List.map_cons, List.map_nil, shown2, shown3, shown4, shown5]
    rfl
  · simp only [List.map_append, List.map_cons, List.map_nil, (clients_of_controller connects 7).1,
      (clients_of_controller sends 7).1, (clients_of_controller drops 7).1, written5 filled]
    rfl

theorem exampleSession_served : ∃ history system payload, Runs examplePlatform history system ∧
    history.map Prod.fst = deliveryEvents ∧
    history.map (fun entry => entry.2.published) = [none, none, some payload, none, none] ∧
    history.map (fun entry => entry.2.written) = [none, none, none, none, some payload] ∧
    payload ≠ [] ∧ ServesClients examplePlatform history system := by
  obtain ⟨history, system, payload, runs, events, published, written, nonempty⟩ := exampleDelivery
  exact ⟨history, system, payload, runs, events, published, written, nonempty, icu_delivery runs⟩

end ControllerBridge
