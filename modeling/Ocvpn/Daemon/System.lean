import Ocvpn.Daemon.Supervisor
import Ocvpn.LTS.Basic

/-!
# The daemon as a machine

`run_with_ready`, `connection`, `connection_inner`, `quiesce` and the update task of
`crates/service/src/daemon.rs` put together: every task is a small state of its own, and one input
is one step of one task between two awaits.  An input carries what the step learns from outside
(a request, the system time, a random identifier, the answer of the operating system), so the list
of inputs of a run is an interleaving together with its environment.

Connections and attempts are numbered in the order they start; `Uuid::new_v4` of an attempt gives
an identifier that was never issued before.
-/

namespace Ocvpn.Daemon

/-- Where a call of `quiesce` is. -/
inductive Quiesce where
  /-- Waiting for the recovery mutex. -/
  | locking
  /-- The mutex is held; the session is not stopped yet. -/
  | locked
  /-- Polling for the end of the session. -/
  | waiting
  /-- The blocking recovery runs, with the mutex. -/
  | recovering
  /-- The blocking recovery ended. -/
  | recovered (outcome : RecoveryOutcome)

/-- Where a connection is. -/
inductive Phase (Peer Handoff : Type) where
  | reading
  /-- A request was read and the bus subscribed at `cursor`; it is not dispatched yet. -/
  | requested (cursor : ℕ) (request : Request Handoff)
  | quiescing (stage : Quiesce) (requestId : Uuid)
  | following (cursor : ℕ) (logStream : Bool)
  /-- `recv` returned an item, or `none` when the receiver lagged. -/
  | received (cursor : ℕ) (logStream : Bool) (item : Option (Option Peer × Event))
  /-- `connection_inner` returned; the cleanup is pending. -/
  | returned
  | closed

structure Connection (Peer Handoff : Type) where
  peer : Peer
  phase : Phase Peer Handoff

/-- Where the update task of an attempt is. -/
inductive Watch where
  /-- Receiving updates. -/
  | looping
  /-- Waiting for the supervisor to end. -/
  | joining
  | done
  deriving DecidableEq

/-- A started attempt: its supervisor, the channel of updates and the update task. -/
structure Attempt (Peer : Type) where
  id : Uuid
  /-- The peer that started it; no task reads it. -/
  owner : Peer
  supervisor : Supervisor
  updates : List Update
  watch : Watch

/-- Who holds the recovery mutex. -/
inductive Guard where
  /-- The call of `quiesce` on a connection. -/
  | call (connection : ℕ)
  /-- The blocking task that a call on a connection spawned. -/
  | task (connection : ℕ)
  deriving DecidableEq

/-- Where `run_with_ready` is. -/
inductive Main where
  | serving | draining | exited
  deriving DecidableEq

structure System (Peer Handoff : Type) where
  service : Service Peer
  clock : ℕ
  connections : List (Connection Peer Handoff)
  attempts : List (Attempt Peer)
  recovery : Option Guard
  /-- Every attempt identifier that was generated. -/
  issued : List Uuid
  main : Main

/-- One step of one task. -/
inductive Input (Peer Handoff : Type) where
  /-- Time passes. -/
  | pass (seconds : ℕ)
  /-- A connection was accepted, authenticated and greeted. -/
  | accept (peer : Peer)
  /-- A request was read, and the bus subscribed. -/
  | read (c : ℕ) (request : Request Handoff)
  /-- A request is dispatched. -/
  | dispatch (c : ℕ) (fresh : Uuid) (wall : ℤ)
  /-- An administrative request is checked; `verified` is the answer of `authorize_quiesce`, or
  `none` when its task failed. -/
  | admin (c : ℕ) (verified : Option (Except Error Unit))
  /-- A call of `quiesce` obtained the recovery mutex. -/
  | lock (c : ℕ)
  | lockTimeout (c : ℕ)
  /-- A call of `quiesce` stops the session. -/
  | teardown (c : ℕ) (wall : ℤ)
  /-- A call of `quiesce` looks at the session. -/
  | inspect (c : ℕ)
  | adminTimeout (c : ℕ)
  /-- The blocking recovery of `quiesce` ended. -/
  | adminRecovered (outcome : RecoveryOutcome)
  /-- A call of `quiesce` answers. -/
  | conclude (c : ℕ)
  /-- A receiver of the bus returned. -/
  | receive (c : ℕ)
  /-- A received item is checked and written. -/
  | deliver (c : ℕ)
  /-- The stream failed or ended: `connection_inner` returns. -/
  | hangUp (c : ℕ)
  /-- The cleanup of a connection. -/
  | cleanup (c : ℕ) (wall : ℤ)
  /-- The supervisor of an attempt moves. -/
  | supervise (i : ℕ) (event : SupervisorEvent)
  /-- The update task of an attempt handles an update. -/
  | update (i : ℕ) (session : Uuid) (wall : ℤ)
  /-- The update task finds the channel closed. -/
  | drained (i : ℕ)
  /-- The update task sees the supervisor's end. -/
  | join (i : ℕ) (wall : ℤ)
  | leaseTick (wall : ℤ)
  /-- The stop notification. -/
  | stop (wall : ℤ)
  /-- The drained daemon returns. -/
  | exit

/-- What a connection writes. -/
inductive Message where
  | response (value : Response)
  | event (value : Event)
  deriving DecidableEq

/-- A message and the connection and peer it goes to. -/
structure Output (Peer : Type) where
  connection : ℕ
  peer : Peer
  message : Message
  deriving DecidableEq

/-- The connections served at once. -/
def maxConnections : ℕ := 128

/-- The items the bus keeps. -/
def busCapacity : ℕ := 256

namespace System

variable {Peer Handoff : Type} [DecidableEq Peer]

/-- The connection still occupies a task. -/
def live (c : Connection Peer Handoff) : Bool :=
  match c.phase with
  | .closed => false
  | _ => true

/-- Put a connection into a phase. -/
def setPhase (s : System Peer Handoff) (c : ℕ) (phase : Phase Peer Handoff) :
    System Peer Handoff :=
  { s with connections := s.connections.modify c fun conn => { conn with phase } }

/-- Answer a request of a connection that reads the next one afterwards. -/
def answer (s : System Peer Handoff) (c : ℕ) (peer : Peer) (requestId : Uuid)
    (result : Except Error Payload) (phase : Phase Peer Handoff) :
    System Peer Handoff × List (Output Peer) :=
  (s.setPhase c phase, [⟨c, peer, .response ⟨requestId, result⟩⟩])

/-- Accept a connection. -/
def accept (s : System Peer Handoff) (peer : Peer) : Option (System Peer Handoff) :=
  if s.main = .serving ∧ s.connections.countP live < maxConnections then
    some { s with connections := s.connections ++ [⟨peer, .reading⟩] }
  else none

/-- Where a connection goes after a response. -/
def afterResponse (cursor : ℕ) (method : Method Handoff) (accepted : Bool) :
    Phase Peer Handoff :=
  if method.follow && accepted then .following cursor method.logStream else .reading

/-- The supervisor and the update task of a granted start. -/
def spawned (peer : Peer) : Method Handoff → List (Attempt Peer)
  | .start id _ =>
    [{ id, owner := peer, supervisor := .new, updates := [], watch := .looping }]
  | _ => []

/-- The attempt identifier a granted request generated. -/
def issuedBy (fresh : Uuid) : Method Handoff → List Uuid
  | .reserve _ _ _ => [fresh]
  | _ => []

/-- Dispatch a request that is not administrative. -/
def dispatchRequest (setup : Service.Setup Peer Handoff) (s : System Peer Handoff) (c cursor : ℕ)
    (peer : Peer) (request : Request Handoff) (fresh : Uuid) (wall : ℤ) :
    System Peer Handoff × List (Output Peer) :=
  let m : Service.Moment := { clock := s.clock, wall, fresh, next := s.attempts.length }
  match Daemon.dispatch setup s.service m peer c request.method with
  | .error e =>
    s.answer c peer request.requestId (.error e) (afterResponse cursor request.method false)
  | .ok (payload, service) =>
    { s with
      service
      attempts := s.attempts ++ spawned peer request.method
      issued := s.issued ++ issuedBy fresh request.method }.answer
    c peer request.requestId (.ok payload) (afterResponse cursor request.method true)

/-! ### Administrative quiescing -/

/-- Who may quiesce the service: root, and on macOS the holder of a native authorization. -/
def adminGate (setup : Service.Setup Peer Handoff) (peer : Peer) (authorization : Option String)
    (verified : Option (Except Error Unit)) : Except Error Unit :=
  if setup.os ≠ .windows && setup.root peer then .ok ()
  else if setup.os = .macos then
    match authorization, verified with
    | none, _ => .error
        (.new .authorizationDenied "Native administrator authorization is required")
    | some _, none => .error
        (.new .authorizationDenied "Native authorization verification failed")
    | some _, some answer => answer
  else .error (.new .authorizationDenied
    "Administrator service control is unavailable on this connection")

def alreadyRecovering : Error :=
  .new .recoveryRequired "Administrative recovery is already in progress"

def uncertainQuiescence : Error :=
  .new .recoveryRequired
    "Owned process quiescence is uncertain; establish termination before uninstalling"

def teardownTimedOut : Error :=
  .new .recoveryRequired
    "Administrative teardown timed out; service remains quiesced and installation is retained"

/-- What a call of `quiesce` answers to the outcome of the recovery. -/
def quiesceResult : RecoveryOutcome → Except Error Payload
  | .panicked => .error (.new .recoveryRequired "Administrative recovery task failed")
  | .failed e => .error e
  | .warnings [] => .ok .accepted
  | .warnings list => .error (recoveryWarning list)

/-- The recovery mutex after a call on connection `c` ended without handing it on. -/
def release (s : System Peer Handoff) (c : ℕ) : System Peer Handoff :=
  if s.recovery = some (.call c) then { s with recovery := none } else s

/-- One step of the call of `quiesce` on a connection. -/
def quiesce (s : System Peer Handoff) (c : ℕ) (peer : Peer) (id : Uuid) (stage : Quiesce)
    (input : Input Peer Handoff) : Option (System Peer Handoff × List (Output Peer)) :=
  match stage, input with
  | .locking, .lock _ =>
    if s.recovery = none then
      some ({ s with recovery := some (.call c) }.setPhase c (.quiescing .locked id), [])
    else none
  | .locking, .lockTimeout _ => some (s.answer c peer id (.error alreadyRecovering) .reading)
  | .locked, .teardown _ wall =>
    some ({ s with service := s.service.stop wall }.setPhase c (.quiescing .waiting id), [])
  | .waiting, .inspect _ =>
    if s.service.state.slot.isSome then some (s, [])
    else if s.service.state.quiescenceBlocked then
      some ((s.release c).answer c peer id (.error uncertainQuiescence) .reading)
    else
      some ({ s with recovery := some (.task c) }.setPhase c (.quiescing .recovering id), [])
  | .waiting, .adminTimeout _ =>
    some ((s.release c).answer c peer id (.error teardownTimedOut) .reading)
  -- the blocking task keeps the mutex when its caller gives up
  | .recovering, .adminTimeout _ => some (s.answer c peer id (.error teardownTimedOut) .reading)
  | .recovered _, .adminTimeout _ => some (s.answer c peer id (.error teardownTimedOut) .reading)
  | .recovered outcome, .conclude _ =>
    match quiesceResult outcome with
    | .error e => some (s.answer c peer id (.error e) .reading)
    | .ok payload =>
      some ({ s with service := s.service.unblock }.answer c peer id (.ok payload) .reading)
  | _, _ => none

/-- The blocking recovery of `quiesce` ends and frees the mutex. -/
def adminRecovered (s : System Peer Handoff) (outcome : RecoveryOutcome) :
    Option (System Peer Handoff) :=
  match s.recovery with
  | some (.task c) => match s.connections[c]? with
    | some ⟨_, .quiescing .recovering id⟩ =>
      some ({ s with recovery := none }.setPhase c (.quiescing (.recovered outcome) id))
    | _ => some { s with recovery := none }
  | _ => none

/-! ### Event streams -/

/-- The next item of a receiver: `none` while there is nothing to receive. -/
def receive (events : List (Option Peer × Event)) (cursor : ℕ) :
    Option (ℕ × Option (Option Peer × Event)) :=
  if cursor < events.length - busCapacity then some (events.length - busCapacity, none)
  else events[cursor]?.map fun item => (cursor + 1, some item)

/-- The event written for a received item, or the error that ends the connection. -/
def deliverable (v : Service Peer) (peer : Peer) (logStream : Bool) :
    Option (Option Peer × Event) → Except Error Event
  | some (owner, event) =>
    match v.state.authorize peer with
    | .error e => .error e
    | .ok () => if owner.any (· ≠ peer) then .error busy else .ok event
  | none =>
    if logStream then .error (.new .serviceUnavailable
      "Log subscription fell behind; reconnect to reload recent records")
    else match v.state.authorize peer with
      | .error e => .error e
      | .ok () => .ok
        { serviceInstanceId := v.state.snapshot.serviceInstanceId
          sequence := v.state.snapshot.sequence
          payload := .snapshot (v.state.visible peer) }

/-- The cleanup of a connection cancels an attempt that was not established. -/
def cleanup (v : Service Peer) (c : ℕ) (wall : ℤ) : Service Peer :=
  if v.state.slot.any (·.connection = c) && Service.early v.state.snapshot.state then
    v.cancel wall
  else v

/-- One step of a connection. -/
def connection (setup : Service.Setup Peer Handoff) (s : System Peer Handoff) (c : ℕ)
    (input : Input Peer Handoff) : Option (System Peer Handoff × List (Output Peer)) :=
  match s.connections[c]? with
  | none => none
  | some ⟨peer, phase⟩ => match phase, input with
    | .reading, .read _ request =>
      some (s.setPhase c (.requested s.service.events.length request), [])
    -- `fresh` is the UUID that a reservation draws
    | .requested cursor request, .dispatch _ fresh wall =>
      if request.method.administrative ∨ fresh ∈ s.issued then none
      else some (s.dispatchRequest setup c cursor peer request fresh wall)
    | .requested _ ⟨id, .adminQuiesce authorization⟩, .admin _ verified =>
      match adminGate setup peer authorization verified with
      | .ok () => some (s.setPhase c (.quiescing .locking id), [])
      | .error e => some (s.answer c peer id (.error e) .reading)
    | .quiescing stage id, input => s.quiesce c peer id stage input
    | .following cursor logStream, .receive _ =>
      (receive s.service.events cursor).map fun (cursor, item) =>
        (s.setPhase c (.received cursor logStream item), [])
    -- what may be seen is decided when the event is sent, not when it was published
    | .received cursor logStream item, .deliver _ =>
      match deliverable s.service peer logStream item with
      | .error _ => some (s.setPhase c .returned, [])
      | .ok event => some (s.setPhase c (.following cursor logStream), [⟨c, peer, .event event⟩])
    | .reading, .hangUp _ | .following _ _, .hangUp _ | .received _ _ _, .hangUp _ =>
      some (s.setPhase c .returned, [])
    | .returned, .cleanup _ wall =>
      some ({ s with service := cleanup s.service c wall }.setPhase c .closed, [])
    | _, _ => none

/-! ### Attempts -/

/-- The cancellation channel of attempt `i` holds a message or lost its sender. -/
def signalled (v : Service Peer) (i : ℕ) : Bool :=
  v.cancelled.contains i || !v.state.slot.any (·.cancel = some i)

/-- A supervisor's event can happen: a cancellation needs its message. -/
def possible (v : Service Peer) (i : ℕ) : SupervisorEvent → Bool
  | .cancelled => signalled v i
  | _ => true

/-- One step of the tasks of an attempt. -/
def attempt (s : System Peer Handoff) (i : ℕ) (input : Input Peer Handoff) :
    Option (System Peer Handoff) :=
  match s.attempts[i]? with
  | none => none
  | some a =>
    let set (service : Service Peer) (a : Attempt Peer) : System Peer Handoff :=
      { s with service, attempts := s.attempts.set i a }
    match input with
    | .supervise _ event =>
      if possible s.service i event then
        (a.supervisor.step event).map fun (supervisor, sent) =>
          set s.service { a with supervisor, updates := a.updates ++ sent }
      else none
    -- an update of an attempt that has lost the slot ends its task
    | .update _ session wall => match a.watch, a.updates with
      | .looping, u :: rest =>
        if s.service.holds a.id then
          set (s.service.update u session wall)
            { a with updates := rest, watch := if u.isFinished then .joining else .looping }
        else set s.service { a with updates := rest, watch := .joining }
      | _, _ => none
    | .drained _ =>
      if a.watch = .looping ∧ a.updates = [] ∧ a.supervisor.running = false then
        set s.service { a with watch := .joining }
      else none
    -- a supervisor that ends while its attempt holds the slot has failed
    | .join _ wall =>
      if a.watch = .joining ∧ a.supervisor.running = false then
        set (if s.service.holds a.id then s.service.supervisorFailed wall else s.service)
          { a with watch := .done }
      else none
    | _ => none

/-! ### The machine -/

/-- An unstarted lease ran out. -/
def leaseExpired (s : System Peer Handoff) : Bool :=
  s.service.state.slot.any fun slot =>
    slot.cancel.isNone && leaseSeconds ≤ s.clock - slot.lease

/-- One input. -/
def step (setup : Service.Setup Peer Handoff) (s : System Peer Handoff) (input : Input Peer Handoff) :
    Option (System Peer Handoff × List (Output Peer)) :=
  if s.main = .exited then none
  else match input with
  | .pass seconds => some ({ s with clock := s.clock + seconds }, [])
  | .accept peer => (s.accept peer).map (·, [])
  | .read c _ | .dispatch c _ _ | .admin c _ | .lock c | .lockTimeout c | .teardown c _
  | .inspect c | .adminTimeout c | .conclude c | .receive c | .deliver c | .hangUp c
  | .cleanup c _ => s.connection setup c input
  | .adminRecovered outcome => (s.adminRecovered outcome).map (·, [])
  | .supervise i _ | .update i _ _ | .drained i | .join i _ => (s.attempt i input).map (·, [])
  | .leaseTick wall =>
    if s.main = .serving then
      some (if s.leaseExpired then { s with service := s.service.cancel wall } else s, [])
    else none
  | .stop wall =>
    if s.main = .serving then
      some ({ s with service := s.service.stop wall, main := .draining }, [])
    else none
  -- the service ends only when the slot is free
  | .exit =>
    if s.main = .draining ∧ s.service.state.slot = none then
      some ({ s with
        main := .exited
        connections := s.connections.map fun conn => { conn with phase := .closed } }, [])
    else none

/-- The state the daemon serves from, after the recovery at its start. -/
def start (instanceId : Uuid) (recoveryError : Option Error) : System Peer Handoff where
  service :=
    { state :=
        { snapshot :=
            { serviceInstanceId := instanceId, sequence := 0, state := .disconnected
              lastError := recoveryError }
          slot := none, lastOwner := none, logs := []
          recoveryBlocked := recoveryError.isSome, quiescenceBlocked := false, stopping := false }
      events := [], cancelled := [] }
  clock := 0
  connections := []
  attempts := []
  recovery := none
  issued := []
  main := .serving

end System

/-- **The daemon**, from the end of its startup on. -/
def machine (Peer : Type) {Handoff : Type} [DecidableEq Peer] (setup : Service.Setup Peer Handoff) :
    Machine (System Peer Handoff) (Input Peer Handoff) (Output Peer) where
  init s := ∃ instanceId recoveryError, s = System.start instanceId recoveryError
  step := System.step setup

end Ocvpn.Daemon
