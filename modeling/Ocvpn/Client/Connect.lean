import Ocvpn.Client.Events
import Ocvpn.Model.Profile

/-!
# One connection attempt

`run`, `reserved` and `wait_for_cleanup` of `crates/client/src/connect.rs`, with `Connection::open`
and `Connection::call` of `crates/client/src/daemon.rs`, beside the daemon.  The first link is the
connection that reserves; the second cancellation and the wait for the cleanup use links of their
own.

What the monitor and the authentication deliver are inputs, so nothing here depends on it; the
connections of the monitor are connections of anybody.  The client may lose an answer, or give it
up, at every call.
-/

namespace Ocvpn.Client

open Daemon

variable {Peer Handoff Url : Type}

/-! ### The connection to the service -/

def unavailable : Error :=
  .new .serviceUnavailable "Tunnel service is unavailable. Install or repair the service, then retry; connection state is unknown."

/-- How a connection fails on the side of the client. -/
inductive Failure where
  /-- It timed out, or the service does not accept connections. -/
  | unavailable
  /-- The endpoint belongs to somebody else. -/
  | denied
  /-- A frame could not be written or read, or the versions differ. -/
  | frame (message : String)

def Failure.error : Failure → Error
  | .unavailable => Client.unavailable
  | .denied => .new .authorizationDenied "The tunnel service endpoint could not be authenticated. Repair the installation; no credentials were sent."
  | .frame message => .new .protocolViolation message

/-- The frame answers the request, so the connection may be used again. -/
def answers (id : Uuid) : Message → Bool
  | .response r => r.requestId = id
  | .event _ => false

namespace Connect

def cancelled : Error := .new .cancelled "Connection attempt was cancelled"

def stale : Error := .new .conflict "Authentication interaction is no longer current"

def unacknowledged (what : String) : Error := .new .protocolViolation what

def cleanupTimedOut : Error :=
  .new .recoveryRequired "Cancellation was requested but cleanup did not finish in time. Check service status and repair before retrying."

/-! ### Stages -/

/-- A request of a reserved attempt; the last three carry the error of the attempt. -/
inductive Call where
  | progress
  | start
  | cancel (e : Error)
  /-- The cancellation on a second connection. -/
  | recancel (e : Error)
  /-- The snapshot that `wait_for_cleanup` asks for. -/
  | poll (e : Error)

/-- Where a reserved attempt is. -/
inductive Work (Handoff : Type) where
  /-- Opening the monitor. -/
  | monitor
  | authenticating
  | ready (handoff : Handoff)
  /-- Waiting for the tunnel. -/
  | awaiting
  | calling (k : ℕ) (id : Uuid) (call : Call)
  /-- `reserved` returned an error. -/
  | failing (e : Error)
  /-- The cancellation was not heard; another connection is being opened. -/
  | reopening (e : Error)
  /-- `wait_for_cleanup` is opening its connection. -/
  | cleaning (e : Error)
  | sleeping (e : Error) (k : ℕ)

/-- How `run` ended. -/
inductive Ending where
  | connected (sn : Snapshot)
  /-- With the error of the attempt. -/
  | failed (e : Error)
  /-- "Cancellation could not be confirmed." -/
  | unconfirmed
  /-- With the error of the cleanup. -/
  | cleanup (e : Error)

inductive Stage (Handoff : Type) where
  | opening
  | opened
  | reserving (id : Uuid)
  /-- The service reserved the attempt `a`. -/
  | attempting (a : Uuid) (work : Work Handoff)
  | returned (a : Option Uuid) (ending : Ending)

/-- The attempt that the service reserved. -/
def Stage.attempt : Stage Handoff → Option Uuid
  | .attempting a _ => some a
  | .returned a _ => a
  | _ => none

/-! ### Decisions -/

/-- `inspect`. -/
def inspect (sn : Snapshot) (a : Uuid) : Except Error Unit :=
  if sn.state = .failed ∨ sn.state = .authenticationRequired then
    .error (sn.lastError.getD
      (.new .authenticationRequired "The service requires fresh authentication"))
  else if sn.attemptId ≠ some a then .error stale
  else if sn.state = .disconnected ∨ sn.state = .disconnecting then .error cancelled
  else .ok ()

/-- The states in which somebody holds the slot. -/
def active (s : ConnectionState) : Bool :=
  s = .authenticating || s = .connecting || s = .connected || s = .reconnecting ||
    s = .disconnecting

/-- What `wait_for_cleanup` makes of a snapshot: `none` to look again. -/
def cleaned (a : Uuid) (sn : Snapshot) : Option (Except Error Unit) :=
  if sn.attemptId.any (· ≠ a) then some (.ok ())
  else match sn.lastError.filter (·.code = .recoveryRequired) with
    | some e => some (.error e)
    | none => if active sn.state then none else some (.ok ())

/-- A cancellation with this error may not have reached the service. -/
def unheard (e : Error) : Bool := e.code ≠ .busy && e.code ≠ .conflict

/-- What follows the answer to a call on link `k`. -/
def Call.next (a : Uuid) (k : ℕ) : Call → Except Error Payload → Stage Handoff
  | .progress, .ok .accepted => .attempting a .authenticating
  | .progress, .ok _ =>
    .attempting a (.failing (unacknowledged "Authentication activity was not acknowledged"))
  | .start, .ok .accepted => .attempting a .awaiting
  | .start, .ok _ =>
    .attempting a (.failing (unacknowledged "The service did not acknowledge tunnel startup"))
  | .progress, .error e | .start, .error e => .attempting a (.failing e)
  | .cancel e, .ok _ | .recancel e, .ok _ => .attempting a (.cleaning e)
  | .cancel e, .error e' =>
    .attempting a (if unheard e' then .reopening e else .cleaning e)
  | .recancel e, .error e' =>
    if unheard e' then .returned (some a) .unconfirmed else .attempting a (.cleaning e)
  | .poll e, .ok (.snapshot sn) => match cleaned a sn with
    | some (.ok ()) => .returned (some a) (.failed e)
    | some (.error e') => .returned (some a) (.cleanup e')
    | none => .attempting a (.sleeping e k)
  | .poll _, .ok _ => .returned (some a) (.cleanup protocolError)
  | .poll e, .error e' =>
    .returned (some a) (if e'.code = .busy then .failed e else .cleanup e')

/-- What follows the answer to the reservation. -/
def reservation : Except Error Payload → Stage Handoff
  | .ok (.reserved a) => .attempting a .monitor
  | .ok _ => .returned none
    (.failed (unacknowledged "The service did not reserve a connection attempt"))
  | .error e => .returned none (.failed e)

/-- What the authentication reports. -/
inductive Pump (Handoff : Type) where
  /-- Something to show to the user. -/
  | shown
  | authenticated (handoff : Handoff)
  | failed (e : Error)
  | cancelled

/-- What follows a report of the authentication; `emitted` tells whether the user's side took it. -/
def authentication (emitted : Bool) : Option (Pump Handoff) → Work Handoff
  | none => .failing (.new .runtimeFailure "Authentication worker stopped before completion")
  | some .shown => if emitted then .authenticating else .failing cancelled
  | some (.authenticated handoff) => .ready handoff
  | some (.failed e) => .failing e
  | some .cancelled => .failing cancelled

/-- What follows an event of the monitor; `done` is true once the tunnel is awaited. -/
def observed (a : Uuid) (done emitted : Bool) : Except Error Event → Stage Handoff
  | .error e => .attempting a (.failing e)
  | .ok event =>
    let stay : Work Handoff := if done then .awaiting else .authenticating
    match event.payload with
    | .log _ => .attempting a stay
    | .snapshot sn => match inspect sn a with
      | .error e => .attempting a (.failing e)
      | .ok () =>
        if done ∧ sn.state = .connected then .returned (some a) (.connected sn)
        else .attempting a (if emitted then stay else .failing cancelled)

end Connect

/-- One call of `run` beside the daemon. -/
structure Connect (Peer Handoff : Type) where
  net : Net Peer Handoff
  /-- The stream of the first connection is there. -/
  usable : Bool
  /-- The attempt was cancelled by the user. -/
  stopping : Bool
  /-- The handoff that was supplied. -/
  handoff : Option Handoff
  stage : Connect.Stage Handoff
  /-- Every request that was written; no step reads it. -/
  sent : List (Request Handoff)

namespace Connect

/-- One step of `run`, of the user or of the daemon. -/
inductive Input (Peer Handoff : Type) where
  /-- A step of the daemon that reads no request of the client. -/
  | daemon (input : Daemon.Input Peer Handoff)
  /-- The daemon reads the request on a link. -/
  | relay (k : ℕ)
  /-- The user cancels. -/
  | stop
  /-- The first connection is opened. -/
  | opened
  /-- `reserve_profile` returned. -/
  | profile (result : Except Error Unit) (id : Uuid)
  /-- The answer to a call is read. -/
  | answered
  /-- A call, or the opening of a connection, fails. -/
  | broken (f : Failure)
  | monitorOpened (result : Except Error Unit)
  /-- The cancellation by the user is seen. -/
  | noticed
  | monitored (result : Except Error Event) (emitted : Bool)
  /-- The user answered a prompt of the authentication. -/
  | active (id : Uuid)
  | pumped (event : Option (Pump Handoff)) (emitted : Bool)
  /-- The next call, with the connection it needs. -/
  | proceed (id : Uuid)
  /-- The time for the cleanup ran out. -/
  | expired

/-- Write a request of the attempt to a link. -/
def request (r : Connect Peer Handoff) (a : Uuid) (k : ℕ) (id : Uuid) (call : Call)
    (method : Method Handoff) : Connect Peer Handoff :=
  { r with
    net := r.net.send k ⟨id, method⟩
    stage := .attempting a (.calling k id call)
    sent := r.sent ++ [⟨id, method⟩] }

/-- A call on the first connection. -/
def call (r : Connect Peer Handoff) (a id : Uuid) (call : Call) (method : Method Handoff) :
    Connect Peer Handoff :=
  if r.usable then { r.request a 0 id call method with usable := false }
  else { r with stage := call.next a 0 (.error unavailable) }

/-- A call on a new connection. -/
def callAnew (r : Connect Peer Handoff) (peer : Peer) (a id : Uuid) (call : Call)
    (method : Method Handoff) : Option (Connect Peer Handoff) :=
  (r.net.connect peer).map fun net =>
    request { r with net } a r.net.links.length id call method

/-- The attempt goes on with other work. -/
def goes (r : Connect Peer Handoff) (a : Uuid) (work : Work Handoff) : Connect Peer Handoff :=
  { r with stage := .attempting a work }

/-- One step of a reserved attempt. -/
def attempt (peer : Peer) (r : Connect Peer Handoff) (a : Uuid) (work : Work Handoff)
    (input : Input Peer Handoff) : Option (Connect Peer Handoff) :=
  match work, input with
  | .monitor, .monitorOpened result =>
    if r.stopping then some (r.goes a (.failing cancelled))
    else match result, r.handoff with
      | .error e, _ => some (r.goes a (.failing e))
      | .ok (), some handoff => some (r.goes a (.ready handoff))
      | .ok (), none => some (r.goes a .authenticating)
  -- the cancellation comes first in every round of the two loops
  | .authenticating, .noticed | .awaiting, .noticed =>
    if r.stopping then some (r.goes a (.failing cancelled)) else none
  | .authenticating, .monitored result emitted =>
    if r.stopping then none else some { r with stage := observed a false emitted result }
  | .authenticating, .active id =>
    if r.stopping then none else some (r.call a id .progress (.authProgress a))
  | .authenticating, .pumped event emitted =>
    if r.stopping then none else some (r.goes a (authentication emitted event))
  | .ready handoff, .proceed id =>
    if r.stopping then some (r.goes a (.failing cancelled))
    else some (r.call a id .start (.start a handoff))
  | .awaiting, .monitored result emitted =>
    if r.stopping then none else some { r with stage := observed a true emitted result }
  | .calling k id call, .answered =>
    (r.net.take k).map fun (frame, net) =>
      { r with
        net
        usable := if k = 0 then answers id frame else r.usable
        stage := call.next a k (answerTo id frame) }
  | .calling k _ call, .broken f => some { r with stage := call.next a k (.error f.error) }
  | .failing e, .proceed id =>
    some (call { r with stopping := true } a id (.cancel e) (.cancel a))
  | .reopening e, .proceed id => r.callAnew peer a id (.recancel e) (.cancel a)
  | .reopening e, .broken f => some { r with stage := (Call.recancel e).next a 0 (.error f.error) }
  | .cleaning e, .proceed id => r.callAnew peer a id (.poll e) .snapshot
  | .sleeping e k, .proceed id => some (r.request a k id (.poll e) .snapshot)
  | .cleaning _, .broken f => some { r with stage := .returned (some a) (.cleanup f.error) }
  | .cleaning _, .expired | .sleeping _ _, .expired | .calling _ _ (.poll _), .expired =>
    some { r with stage := .returned (some a) (.cleanup cleanupTimedOut) }
  | _, _ => none

/-- One step. -/
def step [DecidableEq Peer] (setup : Service.Setup Peer Handoff) (peer : Peer)
    (profile : Profile Url) (r : Connect Peer Handoff) (input : Input Peer Handoff) :
    Option (Connect Peer Handoff) :=
  match r.stage, input with
  | _, .daemon input => (r.net.step setup input).map fun net => { r with net }
  | _, .relay k => (r.net.relay setup k).map fun net => { r with net }
  | _, .stop => some { r with stopping := true }
  -- the stop is looked at before each request is sent
  | .opening, .opened =>
    if r.stopping then some { r with stage := .returned none (.failed cancelled) }
    else (r.net.connect peer).map fun net => { r with net, stage := .opened }
  | .opening, .broken f => some { r with stage := .returned none (.failed f.error) }
  | .opened, .profile result id => match result with
    | .error e => some { r with stage := .returned none (.failed e) }
    | .ok () =>
      if r.stopping then some { r with stage := .returned none (.failed cancelled) }
      else
        let request : Request Handoff := ⟨id, .reserve profile.id profile.name profile.protocol⟩
        some { r with
          net := r.net.send 0 request, usable := false, stage := .reserving id
          sent := r.sent ++ [request] }
  | .reserving id, .answered =>
    (r.net.take 0).map fun (frame, net) =>
      { r with net, usable := answers id frame, stage := reservation (answerTo id frame) }
  | .reserving _, .broken f => some { r with stage := .returned none (.failed f.error) }
  | .attempting a work, input => r.attempt peer a work input
  | _, _ => none

end Connect

/-- **The daemon with one call of `run`**, from the start of the daemon on. -/
def connect [DecidableEq Peer] (setup : Service.Setup Peer Handoff) (peer : Peer)
    (profile : Profile Url) : Machine (Connect Peer Handoff) (Connect.Input Peer Handoff) Unit where
  init r := ∃ instanceId recoveryError handoff,
    r = { net := { daemon := System.start instanceId recoveryError, links := [] }
          usable := true, stopping := false, handoff, stage := .opening, sent := [] }
  step r input := (r.step setup peer profile input).map (·, [])

end Ocvpn.Client
