/-
This file settles that the clients of the bridge agree, in every state the
process can reach.

A client that is connected when a frame is published is behind until its
writable callback, and then up to date: the last thing it was written is the
last payload published (`Follows`). What is pending is therefore enough to bring
all clients to the same payload: one writable callback for each, in any state,
after which they have nothing more to wait for (`clients_agree`). A client that
connects after the last publication waits for the next one.
-/

import ControllerBridge.IcuDelivery

namespace ControllerBridge

open Machine

section

variable {Double Variables : Type}

/-! ### Connections -/

/-- The frames published so far, and how many they were when a client connected last, if it is
connected. -/
def joining (client : Nat) (seen : Nat × Option Nat)
    (entry : Event Double × Observation Double) : Nat × Option Nat :=
  (seen.1 + (publishedPayloads [entry]).length,
    match entry.1 with
    | .icuEstablished other => if other = client then some seen.1 else seen.2
    | .icuClosed other => if other = client then none else seen.2
    | _ => seen.2)

/-- How many frames had been published when a client connected last, if it is connected. -/
def joinedAt (client : Nat) (history : List (Event Double × Observation Double)) : Option Nat :=
  (history.foldl (joining client) (0, none)).2

theorem foldl_joining (client : Nat) (history : List (Event Double × Observation Double)) :
    history.foldl (joining client) (0, none) =
      ((publishedPayloads history).length, joinedAt client history) := by
  refine Prod.ext ?_ rfl
  induction history using List.reverseRecOn with
  | nil => rfl
  | append_singleton history entry inductionHypothesis =>
    rw [List.foldl_append, publishedPayloads_append, List.length_append]
    exact congrArg (· + (publishedPayloads [entry]).length) inductionHypothesis

theorem joinedAt_concat (client : Nat) (history : List (Event Double × Observation Double))
    (entry : Event Double × Observation Double) :
    joinedAt client (history ++ [entry]) =
      (joining client ((publishedPayloads history).length, joinedAt client history) entry).2 := by
  rw [joinedAt, List.foldl_append, foldl_joining]
  rfl

/-! ### One client -/

/-- What is last written to a client. -/
def lastWrite (client : Nat) (history : List (Event Double × Observation Double)) :
    Option (Nat × List UInt8) :=
  (writes client 0 history).getLast?

/-- The last payload with its number. -/
def latest (history : List (Event Double × Observation Double)) : Nat × List UInt8 :=
  ((publishedPayloads history).length, lastPayload history)

/-- A client is not connected, behind, or up to date. -/
inductive Follows (history : List (Event Double × Observation Double)) (client : Nat) :
    Option Bool → Prop where
  | absent (joined : joinedAt client history = none) : Follows history client none
  | behind {since : Nat} (joined : joinedAt client history = some since)
      (missed : since < (publishedPayloads history).length) : Follows history client (some true)
  | upToDate {since : Nat} (joined : joinedAt client history = some since)
      (written : since < (publishedPayloads history).length → lastPayload history ≠ [] →
        lastWrite client history = some (latest history)) : Follows history client (some false)

section

variable {history : List (Event Double × Observation Double)} {client : Nat}
  {pending : Option Bool} {event : Event Double} {observation : Observation Double}

/-- An event that does not concern a client leaves it as it is. -/
theorem Follows.of_quiet (follows : Follows history client pending)
    (unpublished : observation.published = none)
    (unwritten : writesAt client (publishedPayloads history).length (event, observation) = [])
    (joined : joinedAt client (history ++ [(event, observation)]) = joinedAt client history) :
    Follows (history ++ [(event, observation)]) client pending := by
  have same := publishedPayloads_concat_none event _ unpublished history
  have sameWrites : writes client 0 (history ++ [(event, observation)]) =
      writes client 0 history := by
    rw [writes_concat, Nat.zero_add, unwritten, List.append_nil]
  cases follows with
  | absent gone => exact .absent (joined.trans gone)
  | behind here missed => exact .behind (joined.trans here) (by rwa [same])
  | upToDate here written =>
    refine .upToDate (joined.trans here) ?_
    unfold lastWrite latest lastPayload
    rw [same, sameWrites]
    exact written

/-- A publication leaves the clients that are connected behind. -/
theorem Follows.publish (follows : Follows history client pending) {payload : List UInt8}
    (published : observation.published = some payload)
    (joined : joinedAt client (history ++ [(event, observation)]) = joinedAt client history)
    (inTime : ∀ since, joinedAt client history = some since →
      since ≤ (publishedPayloads history).length) :
    Follows (history ++ [(event, observation)]) client (pending.map fun _ => true) := by
  have same := publishedPayloads_concat_some event _ published history
  have missed : ∀ since, joinedAt client history = some since →
      since < (publishedPayloads (history ++ [(event, observation)])).length := by
    intro since here
    rw [same, List.length_append, List.length_singleton]
    exact Nat.lt_succ_of_le (inTime since here)
  cases follows with
  | absent gone => exact .absent (joined.trans gone)
  | behind here _ => exact .behind (joined.trans here) (missed _ here)
  | upToDate here _ => exact .behind (joined.trans here) (missed _ here)

end

theorem joinedAt_le {client since : Nat} {history : List (Event Double × Observation Double)}
    (joined : joinedAt client history = some since) :
    since ≤ (publishedPayloads history).length := by
  induction history using List.reverseRecOn with
  | nil => cases joined
  | append_singleton history entry inductionHypothesis =>
    obtain ⟨event, observation⟩ := entry
    rw [publishedPayloads_append, List.length_append]
    rw [joinedAt_concat, joining] at joined
    cases event with
    | controller _ _ => exact (inductionHypothesis joined).trans (Nat.le_add_right _ _)
    | icuWriteable _ _ => exact (inductionHypothesis joined).trans (Nat.le_add_right _ _)
    | icuEstablished other =>
      dsimp only at joined
      split at joined
      · obtain rfl := Option.some_inj.mp joined
        exact Nat.le_add_right _ _
      · exact (inductionHypothesis joined).trans (Nat.le_add_right _ _)
    | icuClosed other =>
      dsimp only at joined
      split at joined
      · cases joined
      · exact (inductionHypothesis joined).trans (Nat.le_add_right _ _)

end

/-! ### All clients along a run -/

section

variable {Double Variables : Type} [Add Double] [Sub Double] [Mul Double] [Div Double]
  [Neg Double] [LT Double] [DecidableLT Double] [LE Double] [DecidableLE Double]
  [OfScientific Double] [NatCast Double] [IntCast Double]
  {platform : Platform Double Variables}
  {history : List (Event Double × Observation Double)} {system : System Double Variables}

theorem follows_step {next : System Double Variables} {event : Event Double}
    {observation : Observation Double} (runs : Runs platform history system) (client : Nat)
    (follows : Follows history client (system.lws.clients client))
    (taken : Step platform system event next observation) :
    Follows (history ++ [(event, observation)]) client (next.lws.clients client) := by
  cases taken with
  | @controller connection reason process session handed permitted run =>
    dsimp only
    rw [request_clients]
    obtain ⟨unpublished, -, requested⟩ | ⟨payload, published, -, -, requested⟩ :=
      controller_effect runs.sessionsHold permitted run
    · rw [requested, if_neg Bool.false_ne_true]
      exact follows.of_quiet unpublished rfl (by rw [joinedAt_concat]; rfl)
    · have shown : (Observation.mk (system.lws.message connection reason) handed
          (handed.bind fun call => call.payload process.server) none).published = some payload :=
        published
      have all : Follows (history ++ [(.controller connection reason, _)]) client
          ((system.lws.clients client).map fun _ => true) :=
        follows.publish shown (by rw [joinedAt_concat]; rfl) fun since => joinedAt_le
      rw [requested]
      by_cases connected : system.lws.clients client = none
      · rw [connected] at all
        rwa [Lws.deliver, connected, Option.map_none, ite_self]
      · rwa [runs.delivers.protocol client connected, if_pos rfl]
  | @icuEstablished other permitted =>
    dsimp only
    rw [setClient_clients]
    by_cases same : client = other
    · rw [if_pos same]
      have here : joinedAt client (history ++ [(.icuEstablished other, ⟨none, none, none, none⟩)]) =
          some (publishedPayloads history).length := by
        rw [joinedAt_concat, joining]
        exact if_pos same.symm
      refine .upToDate here ?_
      rw [publishedPayloads_concat_none _ _ rfl]
      exact fun impossible => absurd impossible (Nat.lt_irrefl _)
    · rw [if_neg same]
      refine follows.of_quiet rfl rfl ?_
      rw [joinedAt_concat, joining]
      exact if_neg (Ne.symm same)
  | @icuWriteable other written result payload permitted run =>
    have concat : joinedAt client (history ++ [(.icuWriteable other written,
        ⟨none, none, none, payload⟩)]) = joinedAt client history := by
      rw [joinedAt_concat]
      rfl
    dsimp only
    rw [setClient_clients]
    by_cases same : client = other
    · subst same
      rw [if_pos rfl]
      rw [permitted] at follows
      cases follows with
      | @behind since joined missed =>
        refine .upToDate (concat.trans joined) fun _ nonempty => ?_
        have kept := publishedPayloads_concat_none (.icuWriteable client written)
          (⟨none, none, none, payload⟩ : Observation Double) rfl history
        unfold latest lastPayload at nonempty ⊢
        rw [kept] at nonempty ⊢
        have taken : Step platform system (.icuWriteable client written) _ _ :=
          .icuWriteable permitted run
        have here : Event.writesTo client (.icuWriteable client written : Event Double) = true :=
          beq_self_eq_true client
        have hands := written_of_writeable runs.delivers taken here nonempty
        dsimp only at hands
        rw [lastWrite, writes_concat, Nat.zero_add, writesAt, hands]
        dsimp only
        rw [if_pos here]
        exact List.getLast?_concat
    · rw [if_neg same]
      refine follows.of_quiet rfl ?_ concat
      have elsewhere : Event.writesTo client (.icuWriteable other written : Event Double) =
          false := beq_false_of_ne (Ne.symm same)
      rw [writesAt]
      dsimp only
      rw [elsewhere]
      cases payload <;> rfl
  | @icuClosed other permitted =>
    dsimp only
    rw [setClient_clients]
    by_cases same : client = other
    · rw [if_pos same]
      refine .absent ?_
      rw [joinedAt_concat, joining]
      exact if_pos same.symm
    · rw [if_neg same]
      refine follows.of_quiet rfl rfl ?_
      rw [joinedAt_concat, joining]
      exact if_neg (Ne.symm same)

theorem Runs.follows (runs : Runs platform history system) (client : Nat) :
    Follows history client (system.lws.clients client) := by
  refine (runs.invariant (fun (history : List (Event Double × Observation Double))
      (system : System Double Variables) => Runs platform history system ∧
        Follows history client (system.lws.clients client))
    (fun start started => ⟨⟨start, started, .start⟩, ?_⟩) ?_).2
  · rw [started.idle]
    exact .absent rfl
  · rintro history system event next observation ⟨runs, follows⟩ taken
    exact ⟨runs.step taken, follows_step runs client follows taken⟩

/-! ### Agreement -/

/-- A writable callback for every client of a list that has one pending. -/
theorem exists_drain (runs : Runs platform history system) (clients : List Nat) :
    ∃ rest next, Run (Step platform) system rest next ∧
      (∀ entry ∈ rest, ∃ client ∈ clients, entry.1.writesTo client = true) ∧
      rest.length ≤ clients.length ∧
      (∀ client, client ∈ clients ∨ system.lws.clients client ≠ some true →
        next.lws.clients client ≠ some true) ∧
      publishedPayloads (history ++ rest) = publishedPayloads history ∧
      ∀ client, joinedAt client (history ++ rest) = joinedAt client history := by
  induction clients generalizing history system with
  | nil =>
    refine ⟨[], system, .start, fun _ member => absurd member List.not_mem_nil, le_rfl, ?_, ?_, ?_⟩
    · rintro client (member | idle)
      · exact absurd member List.not_mem_nil
      · exact idle
    · rw [List.append_nil]
    · intro client
      rw [List.append_nil]
  | cons client clients inductionHypothesis =>
    by_cases pending : system.lws.clients client = some true
    · obtain ⟨result, run⟩ := icuWriteable_eq runs.delivers.payload 0
      have taken : Step platform system (.icuWriteable client 0) _ _ := .icuWriteable pending run
      obtain ⟨rest, next, runRest, writes, short, idle, same, joined⟩ :=
        inductionHypothesis (runs.step taken)
      refine ⟨_ :: rest, next, Run.append (.step .start taken) runRest, ?_, ?_, ?_, ?_, ?_⟩
      · rintro entry member
        rcases List.mem_cons.mp member with rfl | later
        · exact ⟨client, List.mem_cons_self, beq_self_eq_true client⟩
        · obtain ⟨other, inside, writesTo⟩ := writes entry later
          exact ⟨other, List.mem_cons_of_mem _ inside, writesTo⟩
      · exact Nat.succ_le_succ short
      · intro other either
        refine idle other ?_
        dsimp only
        rw [setClient_clients]
        by_cases here : other = client
        · rw [if_pos here]
          exact Or.inr (by decide)
        · rw [if_neg here]
          exact either.imp_left fun member => (List.mem_cons.mp member).resolve_left here
      · rw [List.append_cons, same]
        exact publishedPayloads_concat_none _ _ rfl _
      · intro other
        rw [List.append_cons, joined, joinedAt_concat]
        rfl
    · obtain ⟨rest, next, runRest, writes, short, idle, same, joined⟩ := inductionHypothesis runs
      refine ⟨rest, next, runRest, fun entry member => ?_, short.trans (Nat.le_succ _), ?_, same,
        joined⟩
      · obtain ⟨other, inside, writesTo⟩ := writes entry member
        exact ⟨other, List.mem_cons_of_mem _ inside, writesTo⟩
      · intro other either
        refine idle other (either.elim (fun member => ?_) Or.inr)
        rcases List.mem_cons.mp member with rfl | later
        · exact Or.inr pending
        · exact Or.inl later

/-- A client without a pending callback is up to date: what it was written last is the latest
payload, if one was published while it has been connected. -/
theorem Runs.upToDate (runs : Runs platform history system) {client since : Nat}
    (idle : system.lws.clients client ≠ some true) (joined : joinedAt client history = some since)
    (missed : since < (publishedPayloads history).length) (nonempty : lastPayload history ≠ []) :
    lastWrite client history = some (latest history) := by
  have follows := runs.follows client
  generalize system.lws.clients client = pending at follows idle
  cases follows with
  | absent gone => exact absurd (gone.symm.trans joined) nofun
  | behind _ _ => exact absurd rfl idle
  | upToDate here written =>
    obtain rfl := Option.some_inj.mp (here.symm.trans joined)
    exact written missed nonempty

/-- In every reachable state a client has been written the latest payload as its last one, unless
its writable callback is pending or nothing was published since it connected. And the pending
callbacks of any clients, at most one for each, bring all of them to this one payload. -/
theorem clients_agree (runs : Runs platform history system) :
    (∀ client since, joinedAt client history = some since →
      since < (publishedPayloads history).length → lastPayload history ≠ [] →
      system.lws.clients client = some true ∨
        lastWrite client history = some (latest history)) ∧
    ∀ clients : List Nat, ∃ rest next, Run (Step platform) system rest next ∧
      (∀ entry ∈ rest, ∃ client ∈ clients, entry.1.writesTo client = true) ∧
      rest.length ≤ clients.length ∧
      ∀ client ∈ clients, ∀ since, joinedAt client history = some since →
        since < (publishedPayloads history).length → lastPayload history ≠ [] →
        lastWrite client (history ++ rest) = some (latest history) := by
  constructor
  · intro client since joined missed nonempty
    by_cases pending : system.lws.clients client = some true
    · exact Or.inl pending
    · exact Or.inr (runs.upToDate pending joined missed nonempty)
  · intro clients
    obtain ⟨rest, next, run, writes, short, idle, same, still⟩ := exists_drain runs clients
    refine ⟨rest, next, run, writes, short, fun client member since joined missed nonempty => ?_⟩
    have last := (runs.append run).upToDate (idle client (Or.inl member))
      ((still client).trans joined) (by rwa [same]) (by rwa [lastPayload, same])
    rw [last, latest, latest, lastPayload, lastPayload, same]

end

/-- Two clients connect, and then a controller that sends a frame. -/
theorem examplePair_agrees : ∃ history system, Runs examplePlatform history system ∧
    history.map Prod.fst = .icuEstablished 7 :: .icuEstablished 8 ::
      .controller 0 .established :: fragmentEvents 0 0 0 true [ascii "\x7b\x7d"] ∧
    ((∀ client since, joinedAt client history = some since →
      since < (publishedPayloads history).length → lastPayload history ≠ [] →
      system.lws.clients client = some true ∨
        lastWrite client history = some (latest history)) ∧
    ∀ clients : List Nat, ∃ rest next, Run (Step examplePlatform) system rest next ∧
      (∀ entry ∈ rest, ∃ client ∈ clients, entry.1.writesTo client = true) ∧
      rest.length ≤ clients.length ∧
      ∀ client ∈ clients, ∀ since, joinedAt client history = some since →
        since < (publishedPayloads history).length → lastPayload history ≠ [] →
        lastWrite client (history ++ rest) = some (latest history)) := by
  have first : Step examplePlatform exampleSystem (.icuEstablished 7) _ _ := .icuEstablished rfl
  have absent : (exampleSystem.lws.setClient 7 (some false)).clients 8 = none := rfl
  have both := (exampleSystem_runs.step first).step (.icuEstablished absent)
  obtain ⟨observation, session, system, run, events, -⟩ :=
    exists_session_run examplePlatform 0 0 0 [ascii "\x7b\x7d"] (List.cons_ne_nil _ _)
      both.sessionsHold rfl
  have runs := both.append run
  refine ⟨_, system, runs, ?_, clients_agree runs⟩
  rw [← events, List.map_append]
  rfl

end ControllerBridge
