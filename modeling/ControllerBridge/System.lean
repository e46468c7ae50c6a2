/-
This file is the process with the connections around it, as a machine.

The events are the callbacks libwebsockets makes, with what it supplies: the
fragments and their flags, the results of `lws_write`, the clock values. `Lws`
is what libwebsockets itself keeps, and `Step` lets it make the callbacks its
documentation promises and no others: a connection is opened once, a fragment
has the first-fragment flag exactly when no fragment of its message came before,
and a client gets a writable callback only for a request that is pending, which
the callback consumes. The payload and the sessions are shared memory of a
single thread, so a callback runs to its end before the next event.
-/

import Mathlib.Logic.Function.Basic
import ControllerBridge.ControllerReceiver
import ControllerBridge.Library.Machine

namespace ControllerBridge

open Region

/-! ### Connections -/

/-- What libwebsockets keeps: for a controller that is connected the fragments it has delivered
of the message in progress, and for a client whether a writable callback is pending. -/
structure Lws where
  controllers : Nat → Option (List (List UInt8))
  clients : Nat → Option Bool

namespace Lws

/-- Nobody is connected. -/
def idle : Lws := ⟨fun _ => none, fun _ => none⟩

variable {Double : Type} (lws : Lws) (connection : Nat)

/-- The fragments delivered of the message in progress. -/
def fragments : List (List UInt8) := (lws.controllers connection).getD []

/-- The controller callbacks libwebsockets may make. -/
def Permits : ControllerReason Double → Prop
  | .established => lws.controllers connection = none
  | .receive _ first _ _ _ =>
    ∃ delivered, lws.controllers connection = some delivered ∧ (first = true ↔ delivered = [])
  | .closed => lws.controllers connection ≠ none

/-- The message a callback completes. -/
def message : ControllerReason Double → Option (List (List UInt8))
  | .receive data _ final _ _ =>
    if final then some (lws.fragments connection ++ [data]) else none
  | _ => none

/-- The state of a controller connection after a callback. -/
def delivered : ControllerReason Double → Option (List (List UInt8))
  | .established => some []
  | .receive data _ final _ _ =>
    if final then some [] else some (lws.fragments connection ++ [data])
  | .closed => none

def deliver (reason : ControllerReason Double) : Lws :=
  { lws with
    controllers := Function.update lws.controllers connection (lws.delivered connection reason) }

/-- `lws_callback_on_writable_all_protocol`: every client connected has a request pending. -/
def request (requested : Bool) : Lws :=
  if requested then { lws with clients := fun client => (lws.clients client).map fun _ => true }
  else lws

def setClient (client : Nat) (pending : Option Bool) : Lws :=
  { lws with clients := Function.update lws.clients client pending }

end Lws

/-! ### The machine -/

inductive Event (Double : Type) where
  | controller (connection : Nat) (reason : ControllerReason Double)
  | icuEstablished (client : Nat)
  | icuWriteable (client : Nat) (written : Int)
  | icuClosed (client : Nat)

/-- What one event shows: the message whose final fragment it was, the frame handed to
`bridge_server_forward`, the payload published, and the bytes handed to `lws_write`. -/
structure Observation (Double : Type) where
  message : Option (List (List UInt8))
  handed : Option (Handed Double)
  published : Option (List UInt8)
  written : Option (List UInt8)

/-- The payloads a history publishes, in order. -/
def publishedPayloads {Double : Type} (history : List (Event Double × Observation Double)) :
    List (List UInt8) :=
  history.filterMap fun entry => entry.2.published

theorem publishedPayloads_append {Double : Type}
    (first second : List (Event Double × Observation Double)) :
    publishedPayloads (first ++ second) = publishedPayloads first ++ publishedPayloads second :=
  List.filterMap_append

/-- A call of `bridge_server_forward` with the clock values of its callback. -/
structure ForwardCall (Double : Type) where
  receivedNtpTime : Double
  forwardNtpTime : Double
  handed : Handed Double

/-- The call an event makes. -/
def forwardCall {Double : Type} (entry : Event Double × Observation Double) :
    Option (ForwardCall Double) :=
  match entry.1 with
  | .controller _ (.receive _ _ _ receivedNtpTime forwardNtpTime) =>
    entry.2.handed.map fun handed => ⟨receivedNtpTime, forwardNtpTime, handed⟩
  | _ => none

/-- The calls a history makes, in order. -/
def forwardCalls {Double : Type} (history : List (Event Double × Observation Double)) :
    List (ForwardCall Double) :=
  history.filterMap forwardCall

/-- The process, the memory of each connection, and libwebsockets. -/
structure System (Double Variables : Type) where
  process : Process Double Variables
  sessions : Nat → ControllerSession
  lws : Lws

/-- The payload a call has published. -/
def Handed.payload {Double : Type} (handed : Handed Double) (server : BridgeServer) :
    Option (List UInt8) :=
  handed.forwarded.published.map fun _ => server.published

/-- Whether a call has requested writable callbacks. -/
def Handed.requested {Double : Type} (handed : Handed Double) : Bool :=
  handed.forwarded.published.any fun record => record.requested

section

variable {Double Variables : Type} [Add Double] [Sub Double] [Mul Double] [Div Double]
  [Neg Double] [LT Double] [DecidableLT Double] [LE Double] [DecidableLE Double]
  [OfScientific Double] [NatCast Double] [IntCast Double]

variable (platform : Platform Double Variables)

inductive Step : System Double Variables → Event Double → System Double Variables →
    Observation Double → Prop where
  | controller {system : System Double Variables} {connection : Nat}
      {reason : ControllerReason Double} {process : Process Double Variables}
      {session : ControllerSession} {handed : Option (Handed Double)}
      (permitted : system.lws.Permits connection reason)
      (run : callbackController platform system.process (system.sessions connection) reason =
        .ok (process, session, handed)) :
      Step system (.controller connection reason) {
        process := process
        sessions := Function.update system.sessions connection session
        lws := (system.lws.deliver connection reason).request
          (handed.any fun call => call.requested) } {
        message := system.lws.message connection reason
        handed := handed
        published := handed.bind fun call => call.payload process.server
        written := none }
  | icuEstablished {system : System Double Variables} {client : Nat}
      (permitted : system.lws.clients client = none) :
      Step system (.icuEstablished client) {
        process := { system.process with server := icuEstablished system.process.server }
        sessions := system.sessions
        lws := system.lws.setClient client (some false) } ⟨none, none, none, none⟩
  | icuWriteable {system : System Double Variables} {client : Nat} {written result : Int}
      {payload : Option (List UInt8)} (permitted : system.lws.clients client = some true)
      (run : icuWriteable system.process.server written = .ok (payload, result)) :
      Step system (.icuWriteable client written) {
        process := system.process
        sessions := system.sessions
        lws := system.lws.setClient client (some false) } ⟨none, none, none, payload⟩
  | icuClosed {system : System Double Variables} {client : Nat}
      (permitted : system.lws.clients client ≠ none) :
      Step system (.icuClosed client) {
        process := system.process
        sessions := system.sessions
        lws := system.lws.setClient client none } ⟨none, none, none, none⟩

/-- The process when `main` enters its loop. The memory of connections to come may hold
anything. -/
structure Started (system : System Double Variables) : Prop where
  motor : ∃ useNpu tensors, motorInferenceInit platform.tflite platform.libm useNpu tensors =
    some system.process.motor
  samples : system.process.samples = []
  stats : system.process.stats = .initial
  server : ∃ payload, system.process.server = bridgeServerStart payload
  idle : system.lws = .idle

/-- The runs of the process, from its start. -/
def Runs (history : List (Event Double × Observation Double))
    (system : System Double Variables) : Prop :=
  ∃ start, Started platform start ∧ Machine.Run (Step platform) start history system

/-- What holds when the process starts and is preserved by every step holds along every run. -/
theorem Runs.invariant {platform : Platform Double Variables}
    (Holds : List (Event Double × Observation Double) → System Double Variables → Prop)
    (initial : ∀ start, Started platform start → Holds [] start)
    (preserved : ∀ history system event next observation, Holds history system →
      Step platform system event next observation →
      Holds (history ++ [(event, observation)]) next)
    {history : List (Event Double × Observation Double)} {system : System Double Variables}
    (runs : Runs platform history system) : Holds history system := by
  obtain ⟨start, started, run⟩ := runs
  exact run.invariant Holds (initial start started) preserved

theorem Runs.append {platform : Platform Double Variables}
    {history rest : List (Event Double × Observation Double)}
    {system next : System Double Variables} (runs : Runs platform history system)
    (run : Machine.Run (Step platform) system rest next) :
    Runs platform (history ++ rest) next := by
  obtain ⟨start, started, before⟩ := runs
  exact ⟨start, started, before.append run⟩

theorem Runs.step {platform : Platform Double Variables}
    {history : List (Event Double × Observation Double)}
    {system next : System Double Variables} {event : Event Double}
    {observation : Observation Double} (runs : Runs platform history system)
    (taken : Step platform system event next observation) :
    Runs platform (history ++ [(event, observation)]) next := by
  obtain ⟨start, started, run⟩ := runs
  exact ⟨start, started, run.step taken⟩

end

end ControllerBridge
