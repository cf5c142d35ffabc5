import Ocvpn.Model.State

/-!
# The machine-wide session

`Session`, `Slot` and the operations of `crates/service/src/daemon.rs` that read or change them
under the state lock: the request handlers of `dispatch`, the body of the update task, and the
operations they share (`authorize`, `visible`, `publish`, `cancel`).

A `Service` is what these operations work on: the session, the broadcast bus (everything ever
sent, oldest first; receivers keep positions in it) and the cancellation channels.  A cancellation
channel is named by the number of the attempt whose supervisor holds the other end; it carries at
most one message, so it is enough to know which channels were signalled.

The handlers return `Except Error`: an error leaves the service as it was.
-/

namespace Ocvpn.Daemon

/-- The reservation of the machine. -/
structure Slot (Peer : Type) where
  owner : Peer
  /-- The connection that reserved. -/
  connection : ℕ
  attempt : Uuid
  protocol : String
  /-- When the lease was last renewed. -/
  lease : ℕ
  /-- The sending end of a cancellation channel, present once the attempt was started. -/
  cancel : Option ℕ
  deriving DecidableEq

structure Session (Peer : Type) where
  snapshot : Snapshot
  slot : Option (Slot Peer)
  lastOwner : Option Peer
  logs : List LogRecord
  recoveryBlocked : Bool
  quiescenceBlocked : Bool
  stopping : Bool
  deriving DecidableEq

structure Service (Peer : Type) where
  state : Session Peer
  /-- Every event sent on the bus, with the owner it was sent for. -/
  events : List (Option Peer × Event)
  /-- The cancellation channels that were signalled. -/
  cancelled : List ℕ

/-- What a worker or its supervisor reports (`worker::Update`). -/
inductive Update where
  | connected (network : NetworkObservation)
  | reconnecting
  | traffic (counters : TrafficCounters)
  | finished (result : Except Error Unit) (quiescent : Bool)

/-- The update ends its attempt. -/
def Update.isFinished : Update → Bool
  | finished _ _ => true
  | _ => false

def busy : Error := .new .busy "The machine-wide VPN slot belongs to another session"

/-- The lease of an authentication reservation, in seconds. -/
def leaseSeconds : ℕ := 300

/-- The records kept in memory. -/
def maxLogs : ℕ := 2000

/-! ### Unicode -/

/-- `char::is_whitespace`. -/
def isWhitespace (c : Char) : Bool :=
  let n := c.toNat
  (9 ≤ n && n ≤ 13) || n == 0x20 || n == 0x85 || n == 0xa0 || n == 0x1680 ||
    (0x2000 ≤ n && n ≤ 0x200a) || n == 0x2028 || n == 0x2029 || n == 0x202f || n == 0x205f ||
    n == 0x3000

/-- `name.trim().is_empty()`. -/
def isBlank (name : String) : Bool := name.toList.all isWhitespace

variable {Peer Handoff : Type} [DecidableEq Peer]

/-! ### Reading the session -/

namespace Session

/-- The slot, when there is one, belongs to the peer. -/
def authorize (s : Session Peer) (peer : Peer) : Except Error Unit :=
  if s.slot.any (·.owner ≠ peer) then .error busy else .ok ()

/-- The snapshot as the peer may see it: another user's ended session is masked. -/
def visible (s : Session Peer) (peer : Peer) : Snapshot :=
  if s.slot.isNone && s.lastOwner.any (· ≠ peer) then
    { serviceInstanceId := s.snapshot.serviceInstanceId, sequence := s.snapshot.sequence
      state := .disconnected }
  else s.snapshot

/-- The records the peer may see. -/
def visibleLogs (s : Session Peer) (peer : Peer) : List LogRecord :=
  if s.lastOwner.all (· = peer) then s.logs else []

/-- Append a record; the oldest one goes when the ring is full. -/
def pushLog (s : Session Peer) (record : LogRecord) : Session Peer :=
  { s with logs := (if s.logs.length = maxLogs then s.logs.tail else s.logs) ++ [record] }

end Session

/-! ### Publishing -/

namespace Service

omit [DecidableEq Peer]

/-- Count the sequence number up and send an event that carries it. -/
def send (v : Service Peer) (payload : Snapshot → EventPayload) : Service Peer :=
  let snapshot := { v.state.snapshot with sequence := v.state.snapshot.sequence + 1 }
  { v with
    state := { v.state with snapshot }
    events := v.events ++ [(v.state.lastOwner,
      { serviceInstanceId := snapshot.serviceInstanceId, sequence := snapshot.sequence
        payload := payload snapshot })] }

/-- Keep a record and send it. -/
def log (v : Service Peer) (record : LogRecord) : Service Peer :=
  { v with state := v.state.pushLog record }.send fun _ => .log record

/-- Send the snapshot, after a log record when there is a message. -/
def publish (v : Service Peer) (message : Option (String × LogLevel)) (wall : ℤ) :
    Service Peer :=
  let v := match message with
    | none => v
    | some (message, level) => v.log { timestamp := wall, level, message }
  v.send .snapshot

/-- Ask the supervisor of the slot to stop, or drop a reservation that has none. -/
def cancelSlot (v : Service Peer) (slot : Slot Peer) : Service Peer :=
  match slot.cancel with
  | some channel =>
    { v with
      cancelled := channel :: v.cancelled
      state := { v.state with snapshot := { v.state.snapshot with state := .disconnecting } } }
  | none =>
    { v with
      state := { v.state with
        lastOwner := some slot.owner
        slot := none
        snapshot := { v.state.snapshot with state := .disconnected } } }

/-- Cancel the attempt that holds the slot, if any. -/
def cancel (v : Service Peer) (wall : ℤ) : Service Peer :=
  match v.state.slot with
  | none => v
  | some slot =>
    (v.cancelSlot slot).publish (some ("VPN cancellation requested", .info)) wall

/-! ### Requests -/

/-- The operating systems the daemon is built for. -/
inductive Os where
  | linux | macos | windows
  deriving DecidableEq, Repr

/-- What the daemon takes as given.  No property of the session depends on the validation of a
handoff, `AuthHandoff::validate`. -/
structure Setup (Peer Handoff : Type) where
  os : Os
  /-- The peer is the superuser. -/
  root : Peer → Bool
  capabilities : Capabilities
  /-- `handoff.protocol`. -/
  protocol : Handoff → String
  /-- `handoff.validate(protocols, now)`. -/
  validate : Handoff → List ProtocolInfo → ℤ → Except Error Unit

/-- What a request finds out when it is handled. -/
structure Moment where
  /-- The monotonic clock. -/
  clock : ℕ
  /-- The system time. -/
  wall : ℤ
  /-- The next random identifier. -/
  fresh : Uuid
  /-- The number the next started attempt will get. -/
  next : ℕ

/-- The reservation names no usable profile. -/
def badProfile (profileId : Uuid) (profileName : String) : Bool :=
  profileId == 0 || isBlank profileName || profileName.utf8ByteSize > 256 ||
    profileName.toList.any isControl

/-- The service after a granted reservation. -/
def reserved (v : Service Peer) (m : Moment) (peer : Peer) (connection : ℕ) (profileId : Uuid)
    (profileName protocol : String) : Service Peer :=
  { v with
    state := { v.state with
      logs := []
      lastOwner := some peer
      snapshot := { v.state.snapshot with
        state := .authenticating
        profileId := some profileId
        profileName := some profileName
        attemptId := some m.fresh
        sessionId := none
        startedAt := none
        network := none
        traffic := {}
        lastError := none }
      slot := some
        { owner := peer, connection, attempt := m.fresh, protocol, lease := m.clock
          cancel := none } } }.publish (some ("Authentication reservation created", .info)) m.wall

/-- `Method::Reserve`. -/
def reserve (setup : Setup Peer Handoff) (v : Service Peer) (m : Moment) (peer : Peer)
    (connection : ℕ) (profileId : Uuid) (profileName protocol : String) :
    Except Error (Payload × Service Peer) :=
  if v.state.stopping then .error (.new .serviceUnavailable "Service is stopping")
  else if v.state.recoveryBlocked then
    .error (.new .recoveryRequired "Repair pending network recovery before connecting")
  else if v.state.slot.isSome then .error busy
  else if badProfile profileId profileName then .error (.invalid "Invalid reservation profile")
  else if !setup.capabilities.protocols.any (·.id == protocol) then
    .error (.new .unsupportedProtocol "Protocol unavailable in installed engine")
  else .ok (.reserved m.fresh, v.reserved m peer connection profileId profileName protocol)

/-- The service after a granted start. -/
def started (v : Service Peer) (m : Moment) (slot : Slot Peer) : Service Peer :=
  { v with
    state := { v.state with
      slot := some { slot with cancel := some m.next }
      snapshot := { v.state.snapshot with state := .connecting } } }.publish
    (some ("Starting authenticated tunnel", .info)) m.wall

def noLongerCurrent : Error :=
  .new .conflict "Authentication reservation is no longer current"

/-- `Method::Start`, up to the spawning of the supervisor and the update task. -/
def start (setup : Setup Peer Handoff) (v : Service Peer) (m : Moment) (connection : ℕ)
    (attemptId : Uuid) (handoff : Handoff) : Except Error (Payload × Service Peer) :=
  match v.state.slot with
  | none => .error (.new .conflict "No current reservation")
  | some slot =>
    if slot.attempt ≠ attemptId ∨ slot.connection ≠ connection ∨ slot.cancel.isSome ∨
        leaseSeconds ≤ m.clock - slot.lease then .error noLongerCurrent
    else if slot.protocol ≠ setup.protocol handoff then
      .error (.invalid "Handoff protocol does not match reservation")
    else match setup.validate handoff setup.capabilities.protocols m.wall with
      | .error e => .error e
      | .ok () => .ok (.accepted, v.started m slot)

/-- `Method::AuthProgress`. -/
def authProgress (v : Service Peer) (m : Moment) (connection : ℕ) (attemptId : Uuid) :
    Except Error (Payload × Service Peer) :=
  if v.state.snapshot.state ≠ .authenticating then
    .error (.new .conflict "Authentication is no longer pending")
  else match v.state.slot with
    | none => .error (.new .conflict "No authentication reservation")
    | some slot =>
      if slot.attempt ≠ attemptId ∨ slot.connection ≠ connection ∨
          leaseSeconds ≤ m.clock - slot.lease then .error noLongerCurrent
      else .ok (.accepted,
        { v with state := { v.state with slot := some { slot with lease := m.clock } } })

/-- `Method::Cancel`. -/
def cancelAttempt (v : Service Peer) (m : Moment) (attemptId : Uuid) :
    Except Error (Payload × Service Peer) :=
  if v.state.slot.any (·.attempt ≠ attemptId) then
    .error (.new .conflict "Cancellation does not own the current attempt")
  else .ok (.accepted, v.cancel m.wall)

/-- The state of an attempt that was not established yet. -/
def early (s : ConnectionState) : Bool := s = .authenticating || s = .connecting

/-- `Method::Disconnect`. -/
def disconnect (v : Service Peer) (m : Moment) (connection : ℕ) :
    Except Error (Payload × Service Peer) :=
  if v.state.slot.any (·.connection ≠ connection) && early v.state.snapshot.state then .error busy
  else .ok (.accepted, v.cancel m.wall)

end Service

/-- The part of `dispatch` that runs under one hold of the state lock. -/
def dispatch (setup : Service.Setup Peer Handoff) (v : Service Peer) (m : Service.Moment) (peer : Peer)
    (connection : ℕ) (method : Method Handoff) : Except Error (Payload × Service Peer) :=
  match v.state.authorize peer with
  | .error e => .error e
  | .ok () => match method with
    | .capabilities => .ok (.capabilities setup.capabilities, v)
    | .snapshot | .subscribe => .ok (.snapshot (v.state.visible peer), v)
    | .logs _ => .ok (.logs (v.state.visibleLogs peer), v)
    | .reserve id name protocol => v.reserve setup m peer connection id name protocol
    | .start attemptId handoff => v.start setup m connection attemptId handoff
    | .authProgress attemptId => v.authProgress m connection attemptId
    | .cancel attemptId => v.cancelAttempt m attemptId
    | .disconnect => v.disconnect m connection
    | .adminQuiesce _ => .error (.new .authorizationDenied "Invalid administrative dispatch")

/-! ### The update task -/

namespace Service

omit [DecidableEq Peer]

/-- The slot is held by the attempt. -/
def holds (v : Service Peer) (attempt : Uuid) : Bool := v.state.slot.any (·.attempt = attempt)

/-- The end of an attempt, as its supervisor reported it. -/
def finished (v : Service Peer) (result : Except Error Unit) (quiescent : Bool) (wall : ℤ) :
    Service Peer :=
  let s := { v.state with
    slot := none
    snapshot := { v.state.snapshot with network := none }
    quiescenceBlocked := !quiescent }
  let s := match result with
    | .ok () =>
      { s with snapshot := { s.snapshot with state := .disconnected, lastError := none } }
    | .error e =>
      { s with
        recoveryBlocked := e.code = .recoveryRequired
        snapshot := { s.snapshot with
          state := if e.code = .authenticationRequired then .authenticationRequired else .failed
          lastError := some e } }
  let message := if !quiescent then "Tunnel termination is uncertain; network journal retained"
    else if s.recoveryBlocked then "Tunnel stopped; network recovery requires repair"
    else "Tunnel stopped"
  { v with state := s }.publish (some (message, .info)) wall

/-- One update of the attempt that holds the slot. -/
def update (v : Service Peer) (u : Update) (session : Uuid) (wall : ℤ) : Service Peer :=
  match u with
  -- a tunnel that comes up while it is being torn down is not shown
  | .connected network =>
    if v.state.snapshot.state = .disconnecting then v
    else
      let fresh := v.state.snapshot.sessionId.isNone
      { v with
        state := { v.state with
          snapshot := { v.state.snapshot with
            network := some network
            state := .connected
            sessionId := if fresh then some session else v.state.snapshot.sessionId
            startedAt := if fresh then some wall else v.state.snapshot.startedAt } } }.publish
        (some ("Tunnel and network configuration verified", .info)) wall
  | .reconnecting =>
    if v.state.snapshot.state = .disconnecting then v
    else
      { v with
        state := { v.state with
          snapshot := { v.state.snapshot with state := .reconnecting } } }.publish
        (some ("Native tunnel reconnecting", .info)) wall
  | .traffic counters =>
    { v with
      state := { v.state with
        snapshot := { v.state.snapshot with traffic := counters } } }.publish none wall
  | .finished result quiescent => v.finished result quiescent wall

/-- The supervisor ended without reporting the end of its attempt. -/
def supervisorFailed (v : Service Peer) (wall : ℤ) : Service Peer :=
  { v with
    state := { v.state with
      slot := none
      recoveryBlocked := true
      quiescenceBlocked := true
      snapshot := { v.state.snapshot with
        state := .failed
        network := none
        lastError := some (.new .recoveryRequired
          "Tunnel supervisor stopped unexpectedly; journal retained for safe repair") } } }.publish
    (some ("Tunnel supervisor failed; repair required", .error)) wall

/-! ### Quiescing -/

/-- Refuse new sessions and cancel the current one. -/
def stop (v : Service Peer) (wall : ℤ) : Service Peer :=
  { v with state := { v.state with stopping := true } }.cancel wall

/-- Lift the block after a recovery without warnings; nothing is published. -/
def unblock (v : Service Peer) : Service Peer :=
  { v with state := { v.state with
    recoveryBlocked := false
    snapshot := { v.state.snapshot with lastError := none } } }

end Service

end Ocvpn.Daemon
