import Ocvpn.Client.Net
import Ocvpn.Daemon.Bus

/-!
# Event streams of a client

`Connection::subscribe`, `Connection::follow_logs` and `Events::next` of
`crates/client/src/daemon.rs`, for a client that opens a connection, asks for one stream and reads
it.  Every caller in the repository drops its stream at the first error, so an error ends the
reader here.

`Reader.returned` collects what `next` returned; no step reads it.
-/

namespace Ocvpn.Client

open Daemon

def protocolError : Error := .new .protocolViolation
  "The tunnel service returned an incompatible response. Repair or update the installation."

def lostEvents : Error :=
  .new .serviceUnavailable "Log stream lost events; reconnect to reload recent records"

/-- The streaming connection itself is the first link of the reader. -/
structure Events where
  /-- The instance and the sequence of the last event that counted. -/
  last : Option (Uuid × ℕ)
  /-- The first answer, until `next` returns it. -/
  initial : Option Event
  backlog : List LogRecord
  logStream : Bool

/-- What one round of the loop of `next` does with an event. -/
inductive Verdict where
  | returned (es : Events) (event : Event)
  | skipped (es : Events)
  /-- The stream has a gap; a snapshot is fetched on another connection. -/
  | gap
  | failed (e : Error)

/-- A snapshot event that does not carry its own instance and sequence. -/
def mismatched (event : Event) : Bool :=
  match event.payload with
  | .snapshot sn =>
    sn.serviceInstanceId ≠ event.serviceInstanceId || sn.sequence ≠ event.sequence
  | .log _ => false

namespace Events

/-- The event counts, and is returned when it is of the kind asked for. -/
def accept (es : Events) (event : Event) : Verdict :=
  let es := { es with last := some (event.serviceInstanceId, event.sequence) }
  if (Event.record event).isSome ≠ es.logStream then .skipped es else .returned es event

/-- One round of the loop of `next`. -/
def examine (es : Events) (event : Event) : Verdict :=
  if event.serviceInstanceId = 0 then .failed protocolError
  else if mismatched event then .failed protocolError
  else match es.last with
    | none => es.accept event
    | some (instanceId, sequence) =>
      if instanceId = event.serviceInstanceId ∧ event.sequence ≤ sequence then .skipped es
      else if instanceId ≠ event.serviceInstanceId ∨ sequence + 1 ≠ event.sequence then
        if es.logStream then .failed lostEvents else .gap
      else es.accept event

/-- A round of `next` changes at most what was seen last. -/
theorem examine_cases (es : Events) (event : Event) :
    (∃ e, es.examine event = .failed e) ∨ es.examine event = .gap ∨
      es.examine event = .skipped es ∨ (∃ last, es.examine event = .skipped { es with last }) ∨
      ∃ last, es.examine event = .returned { es with last } event := by
  have haccept : (∃ last, es.accept event = .skipped { es with last }) ∨
      ∃ last, es.accept event = .returned { es with last } event := by
    unfold accept
    dsimp only
    split_ifs
    · exact .inl ⟨_, rfl⟩
    · exact .inr ⟨_, rfl⟩
  unfold examine
  cases es.last with
  | none =>
    dsimp only
    split_ifs
    · exact .inl ⟨_, rfl⟩
    · exact .inl ⟨_, rfl⟩
    · exact .inr (.inr (.inr haccept))
  | some last =>
    dsimp only
    split_ifs
    · exact .inl ⟨_, rfl⟩
    · exact .inl ⟨_, rfl⟩
    · exact .inr (.inr (.inl rfl))
    · exact .inl ⟨_, rfl⟩
    · exact .inr (.inl rfl)
    · exact .inr (.inr (.inr haccept))

/-- The stream after the answer to its request. -/
def ofPayload (logStream : Bool) : Payload → Except Error Events
  | .snapshot sn =>
    if logStream then .error protocolError
    else .ok
      { last := none, backlog := [], logStream
        initial := some
          { serviceInstanceId := sn.serviceInstanceId, sequence := sn.sequence
            payload := .snapshot sn } }
  | .logs backlog =>
    if logStream then .ok { last := none, initial := none, backlog, logStream }
    else .error protocolError
  | _ => .error protocolError

end Events

/-- The event that `next` makes of a fetched snapshot. -/
def fetchedEvent (sn : Snapshot) : Event :=
  { serviceInstanceId := sn.serviceInstanceId, sequence := sn.sequence, payload := .snapshot sn }

/-- What a frame answers to a request (the end of `Connection::call`). -/
def answerTo (id : Uuid) : Message → Except Error Payload
  | .response r => if r.requestId = id then r.result else .error protocolError
  | .event _ => .error protocolError

theorem answerTo_eq_ok {id : Uuid} {frame : Message} {payload : Payload}
    (h : answerTo id frame = .ok payload) : frame = .response ⟨id, .ok payload⟩ := by
  cases frame with
  | event event => cases h
  | response response =>
    obtain ⟨id', result⟩ := response
    unfold answerTo at h
    dsimp only at h
    split_ifs at h with hid
    rw [hid, h]

/-- Where the reader is. -/
inductive Stage where
  /-- The connection is not opened yet. -/
  | idle
  /-- The request for the stream was written. -/
  | asking (id : Uuid)
  /-- Between two rounds of `next`. -/
  | streaming (es : Events)
  /-- The stream has a gap at an event, and another connection is being opened. -/
  | connecting (es : Events) (gap : Event)
  /-- The snapshot was asked for on another link. -/
  | fetching (es : Events) (gap : Event) (link : ℕ) (id : Uuid)
  | failed (e : Error)

/-- A client that reads one event stream of the daemon. -/
structure Reader (Peer Handoff : Type) where
  net : Net Peer Handoff
  stage : Stage
  returned : List Event

namespace Reader

variable {Peer Handoff : Type}

/-- The bus as the daemon has it now. -/
def events (r : Reader Peer Handoff) : List (Option Peer × Event) := r.net.daemon.service.events

/-- The reader has read everything that was published so far. -/
def CaughtUp (r : Reader Peer Handoff) : Prop :=
  ∃ l peer logStream, r.net.links[0]? = some l ∧ l.frames = [] ∧
    r.net.daemon.connections[l.connection]? = some ⟨peer, .following r.events.length logStream⟩

/-- The reader before the daemon accepted anybody. -/
def start (Peer Handoff : Type) : Reader Peer Handoff :=
  { net := { daemon := System.start 1 none, links := [] }, stage := .idle, returned := [] }

end Reader

/-- One step of the client or of the daemon. -/
inductive Input (Peer Handoff : Type) where
  /-- A step of the daemon that reads no request of the client. -/
  | daemon (input : Daemon.Input Peer Handoff)
  /-- The daemon reads the request on a link. -/
  | relay (k : ℕ)
  /-- The connection is opened, and the stream asked for. -/
  | subscribe (id : Uuid)
  /-- The answer is read. -/
  | answered
  /-- One round of the loop of `next`. -/
  | next
  /-- The second connection is opened, and a snapshot asked for. -/
  | fetch (id : Uuid)
  /-- The snapshot is read. -/
  | fetched
  /-- An await of the client failed or timed out. -/
  | broken (e : Error)

namespace Reader

variable {Peer Handoff : Type} [DecidableEq Peer]

/-- The method that asks for a stream. -/
def method (logStream : Bool) : Method Handoff := if logStream then .logs true else .subscribe

omit [DecidableEq Peer] in
/-- The reader after a round of `next` on an event. -/
def examined (r : Reader Peer Handoff) (es : Events) (event : Event) : Reader Peer Handoff :=
  match es.examine event with
  | .returned es event => { r with stage := .streaming es, returned := r.returned ++ [event] }
  | .skipped es => { r with stage := .streaming es }
  | .gap => { r with stage := .connecting es event }
  | .failed e => { r with stage := .failed e }

omit [DecidableEq Peer] in
@[simp] theorem examined_net {r : Reader Peer Handoff} {es : Events} {event : Event} :
    (r.examined es event).net = r.net := by
  unfold examined
  split <;> rfl

/-- One step. -/
def step (setup : Service.Setup Peer Handoff) (peer : Peer) (logStream : Bool)
    (r : Reader Peer Handoff) (input : Input Peer Handoff) : Option (Reader Peer Handoff) :=
  match r.stage, input with
  | _, .daemon input => (r.net.step setup input).map fun net => { r with net }
  | _, .relay k => (r.net.relay setup k).map fun net => { r with net }
  | .idle, .subscribe id =>
    (r.net.connect peer).map fun net =>
      { r with net := net.send 0 ⟨id, method logStream⟩, stage := .asking id }
  | .asking id, .answered =>
    (r.net.take 0).map fun (frame, net) =>
      match (answerTo id frame).bind (Events.ofPayload logStream) with
      | .ok es => { r with net, stage := .streaming es }
      | .error e => { r with net, stage := .failed e }
  | .streaming es, .next => match es.initial with
    | some event => some (r.examined { es with initial := none } event)
    | none => (r.net.take 0).map fun (frame, net) =>
      match frame with
      | .event event => examined { r with net } es event
      | .response _ => { r with net, stage := .failed protocolError }
  -- the snapshot after a gap is asked for on a connection of its own
  | .connecting es gap, .fetch id =>
    (r.net.connect peer).map fun net =>
      { r with
        net := net.send r.net.links.length ⟨id, .snapshot⟩
        stage := .fetching es gap r.net.links.length id }
  | .fetching es _ k id, .fetched =>
    (r.net.take k).map fun (frame, net) =>
      match answerTo id frame with
      | .ok (.snapshot sn) =>
        { r with
          net
          stage := .streaming { es with last := some (sn.serviceInstanceId, sn.sequence) }
          returned := r.returned ++ [fetchedEvent sn] }
      | .ok _ => { r with net, stage := .failed protocolError }
      | .error e => { r with net, stage := .failed e }
  | .failed _, .broken _ => none
  | _, .broken e => some { r with stage := .failed e }
  | _, _ => none

end Reader

/-- **The daemon with one reader of a stream**, from the start of the daemon on. -/
def reader {Peer Handoff : Type} [DecidableEq Peer] (setup : Service.Setup Peer Handoff)
    (peer : Peer) (logStream : Bool) : Machine (Reader Peer Handoff) (Input Peer Handoff) Unit where
  init r := ∃ instanceId recoveryError,
    r = { net := { daemon := System.start instanceId recoveryError, links := [] }
          stage := .idle, returned := [] }
  step r input := (r.step setup peer logStream input).map (·, [])

section Steps

variable {Peer Handoff : Type} [DecidableEq Peer] {setup : Service.Setup Peer Handoff}
  {peer : Peer} {logStream : Bool} {r r' : Reader Peer Handoff} {input : Input Peer Handoff}

theorem reader_step (h : r.step setup peer logStream input = some r') :
    (reader setup peer logStream).Step r r' :=
  ⟨input, [], by simp only [reader, h, Option.map_some]⟩

theorem step_of_reader {o : List Unit}
    (h : (reader setup peer logStream).step r input = some (r', o)) :
    r.step setup peer logStream input = some r' := by
  obtain ⟨r'', hst, heq⟩ := Option.map_eq_some_iff.1 h
  rw [hst, (Prod.mk.inj heq).1]

/-- The daemon makes one of its steps, or none. -/
theorem Reader.daemon_of_step (h : r.step setup peer logStream input = some r') :
    r'.net.daemon = r.net.daemon ∨
      ∃ i out, System.step setup r.net.daemon i = some (r'.net.daemon, out) := by
  unfold Reader.step at h
  split at h
  · obtain ⟨net, hnet, rfl⟩ := Option.map_eq_some_iff.1 h
    obtain ⟨out, hst, -⟩ := Net.forward_eq_some (Net.step_eq_some hnet).1
    exact .inr ⟨_, out, hst⟩
  · obtain ⟨net, hnet, rfl⟩ := Option.map_eq_some_iff.1 h
    obtain ⟨c, request, hst⟩ := Net.relay_step hnet
    exact .inr ⟨_, [], hst⟩
  · obtain ⟨net, hnet, rfl⟩ := Option.map_eq_some_iff.1 h
    have hst : System.step setup r.net.daemon (.accept peer) = some (net.daemon, []) :=
      Net.connect_step hnet
    exact .inr ⟨_, [], hst⟩
  · obtain ⟨⟨frame, net⟩, htake, rfl⟩ := Option.map_eq_some_iff.1 h
    obtain ⟨l, frames, -, -, hdaemon, -⟩ := Net.take_eq_some htake
    dsimp only
    split <;> exact .inl hdaemon
  · split at h
    · rw [← Option.some.inj h]
      exact .inl (by simp)
    · obtain ⟨⟨frame, net⟩, htake, rfl⟩ := Option.map_eq_some_iff.1 h
      obtain ⟨l, frames, -, -, hdaemon, -⟩ := Net.take_eq_some htake
      cases frame <;> exact .inl (by simpa using hdaemon)
  · obtain ⟨net, hnet, rfl⟩ := Option.map_eq_some_iff.1 h
    have hst : System.step setup r.net.daemon (.accept peer) = some (net.daemon, []) :=
      Net.connect_step hnet
    exact .inr ⟨_, [], hst⟩
  · obtain ⟨⟨frame, net⟩, htake, rfl⟩ := Option.map_eq_some_iff.1 h
    obtain ⟨l, frames, -, -, hdaemon, -⟩ := Net.take_eq_some htake
    dsimp only
    split <;> exact .inl hdaemon
  · cases h
  · rw [← Option.some.inj h]
    exact .inl rfl
  · cases h

/-- Every step keeps the invariant of the daemon, and its bus only grows. -/
theorem Reader.inv_of_step (hinv : r.net.daemon.Inv)
    (h : r.step setup peer logStream input = some r') :
    r'.net.daemon.Inv ∧ r.net.daemon.service.Publishes r'.net.daemon.service := by
  rcases daemon_of_step h with heq | ⟨i, out, hst⟩
  · rw [heq]
    exact ⟨hinv, .same rfl rfl rfl rfl⟩
  · exact ⟨hinv.step hst, (System.move_of_step hinv.admin hst).publishes⟩

/-- The links stay the client's. -/
theorem Reader.owned_of_step (ho : r.net.Owned peer)
    (h : r.step setup peer logStream input = some r') : r'.net.Owned peer := by
  unfold Reader.step at h
  split at h
  · obtain ⟨net, hnet, rfl⟩ := Option.map_eq_some_iff.1 h
    exact ho.step hnet
  · obtain ⟨net, hnet, rfl⟩ := Option.map_eq_some_iff.1 h
    exact ho.relay hnet
  · obtain ⟨net, hnet, rfl⟩ := Option.map_eq_some_iff.1 h
    exact (ho.connect hnet).send
  · obtain ⟨⟨frame, net⟩, htake, rfl⟩ := Option.map_eq_some_iff.1 h
    dsimp only
    split <;> exact ho.take htake
  · split at h
    · rw [← Option.some.inj h, examined_net]
      exact ho
    · obtain ⟨⟨frame, net⟩, htake, rfl⟩ := Option.map_eq_some_iff.1 h
      cases frame with
      | event event => simpa using ho.take htake
      | response response => exact ho.take htake
  · obtain ⟨net, hnet, rfl⟩ := Option.map_eq_some_iff.1 h
    exact (ho.connect hnet).send
  · obtain ⟨⟨frame, net⟩, htake, rfl⟩ := Option.map_eq_some_iff.1 h
    dsimp only
    split <;> exact ho.take htake
  · cases h
  · rw [← Option.some.inj h]
    exact ho
  · cases h

end Steps

end Ocvpn.Client
