import Ocvpn.Model.Network

/-!
# Session state and control messages

The types of `crates/model/src/state.rs` and `crates/model/src/ipc.rs` that the daemon and its
clients exchange.
-/

namespace Ocvpn

/-- `uuid::Uuid`. -/
abbrev Uuid := BitVec 128

/-- Identifiers are looked up in lists by equality. -/
instance : LawfulBEq Uuid := inferInstance

/-- `ConnectionState`. -/
inductive ConnectionState where
  | disconnected | authenticating | connecting | connected | reconnecting | disconnecting
  | authenticationRequired | failed
  deriving DecidableEq, Repr

/-- `can_transition_to`. -/
def ConnectionState.canTransitionTo : ConnectionState → ConnectionState → Bool
  | .disconnected, .authenticating | .authenticationRequired, .authenticating
  | .failed, .authenticating => true
  | .authenticating, .connecting | .authenticating, .disconnecting
  | .authenticating, .authenticationRequired | .authenticating, .failed => true
  | .connecting, .connected | .connecting, .disconnecting | .connecting, .authenticationRequired
  | .connecting, .failed => true
  | .connected, .reconnecting | .connected, .disconnecting | .connected, .authenticationRequired
  | .connected, .failed => true
  | .reconnecting, .connected | .reconnecting, .disconnecting
  | .reconnecting, .authenticationRequired | .reconnecting, .failed => true
  | .disconnecting, .disconnected | .disconnecting, .authenticationRequired
  | .disconnecting, .failed => true
  | .authenticationRequired, .disconnected | .failed, .disconnected => true
  | _, _ => false

/-- Bytes received and sent. -/
structure TrafficCounters where
  rxBytes : ℕ := 0
  txBytes : ℕ := 0
  deriving DecidableEq, Repr

/-- What a client sees of the machine-wide session.  The sequence number is a `u64` that only
counts up by one; the model lets it count without bound. -/
structure Snapshot where
  serviceInstanceId : Uuid
  sequence : ℕ
  state : ConnectionState
  profileId : Option Uuid := none
  profileName : Option String := none
  attemptId : Option Uuid := none
  sessionId : Option Uuid := none
  startedAt : Option ℤ := none
  network : Option NetworkObservation := none
  traffic : TrafficCounters := {}
  lastError : Option Error := none
  deriving DecidableEq, Repr

inductive LogLevel where
  | error | warning | info | debug
  deriving DecidableEq, Repr

structure LogRecord where
  timestamp : ℤ
  level : LogLevel
  message : String
  deriving DecidableEq, Repr

structure ProtocolInfo where
  id : String
  label : String
  description : String
  flags : ℕ
  deriving DecidableEq, Repr

structure Capabilities where
  engineVersion : String
  apiMajor : ℕ
  apiMinor : ℕ
  protocols : List ProtocolInfo
  pkcs11 : Bool
  totp : Bool
  hotp : Bool
  stoken : Bool
  yubioath : Bool
  hpke : Bool
  deriving DecidableEq, Repr

/-! ### Control messages -/

/-- A request method; `Handoff` stands for `AuthHandoff`. -/
inductive Method (Handoff : Type) where
  | capabilities
  | reserve (profileId : Uuid) (profileName : String) (protocol : String)
  | start (attemptId : Uuid) (handoff : Handoff)
  | authProgress (attemptId : Uuid)
  | cancel (attemptId : Uuid)
  | disconnect
  | snapshot
  | subscribe
  | logs (follow : Bool)
  | adminQuiesce (authorization : Option String)

namespace Method

variable {Handoff : Type}

/-- The connection streams events after an accepted response. -/
def follow : Method Handoff → Bool
  | subscribe | logs true => true
  | _ => false

/-- The stream is a log stream, which cannot recover from falling behind. -/
def logStream : Method Handoff → Bool
  | logs true => true
  | _ => false

/-- The method is the administrative one. -/
def administrative : Method Handoff → Bool
  | adminQuiesce _ => true
  | _ => false

end Method

structure Request (Handoff : Type) where
  requestId : Uuid
  method : Method Handoff

inductive Payload where
  | capabilities (value : Capabilities)
  | reserved (attemptId : Uuid)
  | accepted
  | snapshot (value : Snapshot)
  | logs (records : List LogRecord)
  deriving DecidableEq, Repr

structure Response where
  requestId : Uuid
  result : Except Error Payload
  deriving DecidableEq

inductive EventPayload where
  | snapshot (value : Snapshot)
  | log (record : LogRecord)
  deriving DecidableEq, Repr

structure Event where
  serviceInstanceId : Uuid
  sequence : ℕ
  payload : EventPayload
  deriving DecidableEq, Repr

end Ocvpn
