import Ocvpn.Daemon.Session

/-!
# The supervisor of an attempt

`supervise`, `supervise_inner` and `terminate_worker` of `crates/service/src/worker.rs`, as a
machine that moves on the events its `select!` loop and its awaits wait for.  The events carry
what the operating system answers, so any failure may happen wherever the source handles one; a
`crash` ends the task at any await.

`Supervisor.tree` records what is known of the worker's process tree: nothing was spawned, a
worker was spawned, or `wait_quiet` established that no process of it is left.  The supervisor
does not read it.
-/

namespace Ocvpn.Daemon

/-- What `recover` or `recover_all` on a blocking thread ends with. -/
inductive RecoveryOutcome where
  | warnings (list : List Error)
  | failed (e : Error)
  | panicked

/-- One warning as a line of details. -/
def warningDetail (warning : Error) : String :=
  let clean (s : String) := String.ofList ((s.toList.filter fun c => !isControl c).take 512)
  clean warning.message ++ match warning.details with
    | none => ""
    | some value => ": " ++ clean value

/-- `recovery_warning`. -/
def recoveryWarning (warnings : List Error) : Error :=
  { code := .recoveryRequired, message := "Network recovery requires repair before reconnecting"
    details := some ("; ".intercalate ((warnings.take 32).map warningDetail)) }

/-- `error` of `worker.rs`. -/
def workerError (message : String) : Error := .new .serviceUnavailable message

/-- What is known of the worker's process tree. -/
inductive Tree where
  | unborn | spawned | quiet
  deriving DecidableEq

/-- Where the supervisor is. -/
inductive Stage where
  /-- Checking the installation and preparing the command. -/
  | launching
  /-- The worker runs; the handoff is not yet written. -/
  | handoff
  /-- In the `select!` loop. -/
  | relaying (stopping : Bool) (terminal : Option (Except Error Unit))
  /-- Waiting for the process tree to become quiet. -/
  | settling (result : Except Error Unit)
  /-- `supervise_inner` returned. -/
  | ended (result : Except Error Unit)
  /-- The recovery of the transaction runs on a blocking thread. -/
  | recovering (result : Except Error Unit)
  /-- The final update is still to be sent. -/
  | reporting (result : Except Error Unit)
  /-- The task returned. -/
  | returned
  /-- The task panicked. -/
  | crashed

/-- The supervisor is in `supervise_inner` or has just returned from it. -/
def Stage.early : Stage → Bool
  | launching | handoff | relaying _ _ | settling _ | ended _ => true
  | _ => false

/-- What the supervisor waits for. -/
inductive SupervisorEvent where
  /-- The installation check or the spawn failed. -/
  | launchFailed (e : Error)
  | spawned
  /-- The process tree could not be attached, or a pipe is missing. -/
  | attachFailed (e : Error)
  | handoffWritten
  /-- The handoff was not written; `terminated` is the answer of `terminate_worker`. -/
  | handoffFailed (terminated : Except Error Unit)
  /-- A message arrived on the cancellation channel. -/
  | cancelled
  /-- The deadline passed; `terminated` is the answer of `terminate_worker`. -/
  | deadline (terminated : Except Error Unit)
  /-- A frame of the worker, or `none` when its channel closed or carried something else. -/
  | worker (update : Option Update)
  /-- An update could not be handed on. -/
  | undelivered
  /-- The worker exited; a final frame may still have been buffered. -/
  | exited (waited : Bool) (drained : Option (Except Error Unit))
  /-- `wait_quiet` answered. -/
  | quiet (answer : Except Error Unit)
  /-- `supervise` goes on after `supervise_inner`. -/
  | proceed
  /-- The recovery on the blocking thread ended. -/
  | recoveryEnded (outcome : RecoveryOutcome)
  /-- The final update is sent. -/
  | report
  | crash

structure Supervisor where
  stage : Stage
  tree : Tree
  /-- `*quiescent`. -/
  quiescent : Bool
  /-- The blocking recovery thread is running; it survives a crash of the task. -/
  recovering : Bool

namespace Supervisor

/-- A supervisor as it is spawned. -/
def new : Supervisor :=
  { stage := .launching, tree := .unborn, quiescent := true, recovering := false }

/-- The supervisor task still runs. -/
def running (s : Supervisor) : Bool :=
  match s.stage with
  | .returned | .crashed => false
  | _ => true

/-- The result to report after the recovery. -/
def afterRecovery (result : Except Error Unit) : RecoveryOutcome → Except Error Unit
  | .warnings [] => result
  | .warnings list => .error (recoveryWarning list)
  | .failed e => .error (recoveryWarning [e])
  | .panicked => .error
      (.new .recoveryRequired "Network recovery worker failed; repair before reconnecting")

/-- What is reported when quiescence is uncertain. -/
def uncertain : Update :=
  .finished (.error (.new .recoveryRequired
    "Owned worker quiescence is uncertain; network journal retained")) false

/-- The result when the worker's channel ends before its final frame. -/
def channelClosed : Except Error Unit :=
  .error (workerError "Private tunnel worker channel closed unexpectedly")

/-- What the loop returns when the worker exited. -/
def exitResult (waited : Bool) (terminal drained : Option (Except Error Unit)) :
    Except Error Unit :=
  match waited, terminal.or drained with
  | true, some result => result
  | _, _ => .error (workerError "Private tunnel worker exited unexpectedly")

/-- One round of the `select!` loop. -/
def relay (s : Supervisor) (stopping : Bool) (terminal : Option (Except Error Unit)) :
    SupervisorEvent → Option (Supervisor × List Update)
  | .cancelled =>
    if stopping then none else some ({ s with stage := .relaying true terminal }, [])
  | .deadline terminated =>
    if !stopping then none
    else match terminated with
      | .ok () => some ({ s with stage := .settling (terminal.getD (.ok ())) }, [])
      | .error e => some ({ s with stage := .ended (.error e) }, [])
  | .worker update =>
    if terminal.isSome then none
    else match update with
      | some (.finished result _) =>
        some ({ s with stage := .relaying true (some result) }, [])
      | some update => some ({ s with stage := .relaying stopping none }, [update])
      | none => some ({ s with stage := .relaying true (some channelClosed) }, [])
  | .undelivered =>
    if terminal.isSome then none else some ({ s with stage := .relaying true none }, [])
  | .exited waited drained =>
    some ({ s with stage := .settling (exitResult waited terminal drained) }, [])
  | _ => none

/-- One step of the supervisor: its new state and the updates it sends. -/
def step (s : Supervisor) (e : SupervisorEvent) : Option (Supervisor × List Update) :=
  match s.stage, e with
  | _, .crash => if s.running then some ({ s with stage := .crashed }, []) else none
  | .launching, .launchFailed e => some ({ s with stage := .ended (.error e) }, [])
  | .launching, .spawned =>
    some ({ s with stage := .handoff, tree := .spawned, quiescent := false }, [])
  | .handoff, .attachFailed e => some ({ s with stage := .ended (.error e) }, [])
  | .handoff, .handoffWritten => some ({ s with stage := .relaying false none }, [])
  | .handoff, .handoffFailed (.ok ()) =>
    some ({ s with
      stage := .settling (.error (workerError "Private worker handoff failed")) }, [])
  | .handoff, .handoffFailed (.error e) => some ({ s with stage := .ended (.error e) }, [])
  | .relaying stopping terminal, e => s.relay stopping terminal e
  | .settling result, .quiet (.ok ()) =>
    some ({ s with stage := .ended result, tree := .quiet, quiescent := true }, [])
  | .settling _, .quiet (.error e) => some ({ s with stage := .ended (.error e) }, [])
  | .ended result, .proceed =>
    -- uncertain live descendants must never race journal restoration
    if s.quiescent then some ({ s with stage := .recovering result, recovering := true }, [])
    else some ({ s with stage := .returned }, [uncertain])
  | .recovering result, .recoveryEnded outcome =>
    some ({ s with stage := .reporting (afterRecovery result outcome), recovering := false }, [])
  | .crashed, .recoveryEnded _ =>
    if s.recovering then some ({ s with recovering := false }, []) else none
  | .reporting result, .report => some ({ s with stage := .returned }, [.finished result true])
  | _, _ => none

end Supervisor

end Ocvpn.Daemon
