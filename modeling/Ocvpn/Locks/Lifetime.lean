import Ocvpn.Locks.Basic
import Ocvpn.LTS.Basic

/-!
# Lifetime leases

`crates/service/src/lifetime.rs`, with the parts of `supervise_inner`, `supervise`, `recover_all`
and `run_with_ready` of the service that use it: daemons, installers, the workers and the tools that
they spawn, and everything that these fork and execute.

A daemon and an installer are a process with threads; a thread is `DaemonLease::acquire` (or the
beginning of `offline_recover_all`), the supervisor of one attempt, or a call of `recover`.  An
input lets one thread take its next step, and a lock that is not free lets it wait.  Nothing is
assumed of the order of the steps, and any process may exit at any time.

What is executed may fork, execute and exit; it keeps the descriptors that it has inherited.
-/

namespace Ocvpn.Lifetime

open Locks

/-- The lock files. -/
inductive LockFile where
  /-- `mutator-lifetime.lock` -/
  | mutator
  /-- `worker-lifetime.lock` -/
  | worker
  /-- `recovery-lifetime.lock` -/
  | recovery
  deriving DecidableEq

/-- What a process runs. -/
inductive Role where
  /-- A daemon or an installer: it does what its threads do. -/
  | service
  /-- Forked by a service and not yet executed; `pre_exec` has still to clear this descriptor. -/
  | forked (clear : Option ℕ)
  | image
  deriving DecidableEq

/-- Where a thread is; the descriptions are those that it has open. -/
inductive Stage where
  /-- `DaemonLease::acquire` -/
  | starting
  | leasing (file : ℕ)
  | leaseLocked (file : ℕ)
  | leased (file : ℕ)
  /-- `WorkerLease::prepare` -/
  | preparing
  | holding (holder : ℕ)
  | probed (holder probe : ℕ)
  | prepared (holder probe : ℕ)
  /-- `spawn` has forked the worker. -/
  | spawning (holder probe : ℕ)
  /-- `spawned` has dropped the holder; `wait_quiet` waits for the lock. -/
  | watching (probe : ℕ)
  | quiet (probe : ℕ)
  /-- `recover` -/
  | recovering
  | waiting (file : ℕ)
  | locked (file : ℕ)
  | operating (file : ℕ)
  | ending (file probe : ℕ)
  | testing (probe : ℕ)
  | recovered (probe : ℕ)
  | ended
  deriving DecidableEq

/-- The descriptions that the thread has open, with their files. -/
def Stage.owned : Stage → List (ℕ × LockFile)
  | starting | preparing | recovering | ended => []
  | leasing f | leaseLocked f | leased f => [(f, .mutator)]
  | holding h => [(h, .worker)]
  | probed h pr | prepared h pr | spawning h pr => [(h, .worker), (pr, .worker)]
  | watching pr | quiet pr => [(pr, .worker)]
  | waiting f | locked f | operating f => [(f, .recovery)]
  | ending f pr => [(f, .recovery), (pr, .recovery)]
  | testing pr | recovered pr => [(pr, .recovery)]

/-- The lock that the thread has. -/
def Stage.lock : Stage → Option ℕ
  | leaseLocked d | leased d | prepared d _ | spawning d _ | quiet d | locked d | operating d
  | ending d _ | recovered d => some d
  | _ => none

/-- The descriptor without close-on-exec that the thread has. -/
def Stage.inherited : Stage → Option ℕ
  | leased d | operating d | ending d _ => some d
  | _ => none

structure Thread where
  process : ℕ
  stage : Stage
  /-- The worker that was forked, and the description `holder`. -/
  worker : Option (ℕ × ℕ)
  /-- `*quiescent`: nothing of the worker is left. -/
  quiescent : Bool
  /-- The tools that the operation has forked, with the description of its lock. -/
  tools : List (ℕ × ℕ)
  deriving DecidableEq

structure System where
  kernel : Kernel LockFile
  role : ℕ → Role
  thread : ℕ → Option Thread

inductive Input where
  /-- A daemon or an installer starts; the thread acquires its lease. -/
  | boot (t : ℕ)
  /-- The service of the thread `m` starts a supervisor, or a call of `recover`. -/
  | begin (m t : ℕ) (supervise : Bool)
  | step (t : ℕ)
  /-- The operation forks a tool. -/
  | tool (t : ℕ)
  /-- The supervisor fails before its worker runs. -/
  | fail (t : ℕ)
  /-- The thread returns an error, is cancelled or panics. -/
  | drop (t : ℕ)
  /-- The next step of a forked child. -/
  | child (c : ℕ)
  | fork (p : ℕ)
  | exec (p : ℕ)
  | exit (p : ℕ)
  deriving DecidableEq

inductive Note where
  /-- The process got past `DaemonLease::acquire`. -/
  | leased (p : ℕ)
  /-- `WorkerLease::prepare` succeeded. -/
  | prepared (t : ℕ)
  /-- `wait_quiet` succeeded. -/
  | quiet (t : ℕ)
  /-- `recover` starts its operation. -/
  | operating (t : ℕ)
  /-- `recover` found that nothing of the operation is left. -/
  | recovered (t : ℕ)
  deriving DecidableEq

namespace System

variable (s : System)

def setThread (t : ℕ) (th : Thread) : System :=
  { s with thread := Function.update s.thread t (some th) }

/-- The thread is at another stage. -/
def goto (t : ℕ) (th : Thread) (stage : Stage) : System := s.setThread t { th with stage }

/-- `open` by the thread. -/
def openFile (p : ℕ) (f : LockFile) : System := { s with kernel := s.kernel.openFile p f }

def lock (d : ℕ) : System := { s with kernel := s.kernel.lock d }

def inherit (p d : ℕ) : System := { s with kernel := s.kernel.inherit p d }

def close (p : ℕ) (ds : List ℕ) : System := { s with kernel := s.kernel.close p ds }

/-- `try_exclusive`. -/
def tryExclusive (d : ℕ) : Option System := if s.kernel.Free d then some (s.lock d) else none

/-- `fork` by a process; the child has a role. -/
def forkAs (p : ℕ) (role : Role) : System :=
  { s with
    kernel := s.kernel.fork p
    role := Function.update s.role s.kernel.born role }

/-- The next step of the thread. -/
def stepThread (t : ℕ) (th : Thread) : Option (System × List Note) :=
  let p := th.process
  let new := s.kernel.opened
  match th.stage with
  | .starting => some ((s.openFile p .mutator).goto t th (.leasing new), [])
  | .leasing d => (s.tryExclusive d).map fun s => (s.goto t th (.leaseLocked d), [])
  | .leaseLocked d => some ((s.inherit p d).goto t th (.leased d), [.leased p])
  | .leased _ => none
  | .preparing => some ((s.openFile p .worker).goto t th (.holding new), [])
  | .holding d => some ((s.openFile p .worker).goto t th (.probed d new), [])
  | .probed d pr => (s.tryExclusive d).map fun s => (s.goto t th (.prepared d pr), [.prepared t])
  | .prepared d pr => some ((s.forkAs p (.forked (some d))).setThread t
      { th with
        stage := .spawning d pr
        worker := some (s.kernel.born, d)
        quiescent := false }, [])
  | .spawning d pr =>
    -- `spawn` returns when the child has executed the worker
    if (th.worker.map fun w => s.role w.1) = some .image then
      some ((s.close p [d]).goto t th (.watching pr), [])
    else none
  | .watching pr => (s.tryExclusive pr).map fun s =>
      (s.setThread t { th with stage := .quiet pr, quiescent := true }, [.quiet t])
  | .quiet pr => some ((s.close p [pr]).goto t th .recovering, [])
  | .recovering => some ((s.openFile p .recovery).goto t th (.waiting new), [])
  | .waiting d => (s.tryExclusive d).map fun s => (s.goto t th (.locked d), [])
  | .locked d => some ((s.inherit p d).goto t th (.operating d), [.operating t])
  | .operating d => some ((s.openFile p .recovery).goto t th (.ending d new), [])
  | .ending d pr => some ((s.close p [d]).goto t th (.testing pr), [])
  | .testing pr => (s.tryExclusive pr).map fun s => (s.goto t th (.recovered pr), [.recovered t])
  | .recovered pr => some ((s.close p [pr]).goto t th .ended, [])
  | .ended => none

/-- A supervisor whose worker does not run goes on to the recovery: before the fork, or when the
child has exited without executing. -/
def failThread (t : ℕ) (th : Thread) : Option System :=
  let s' := (s.close th.process (th.stage.owned.map (·.1))).setThread t
    { th with stage := .recovering, quiescent := true }
  match th.stage with
  | .preparing | .holding _ | .probed .. | .prepared .. => some s'
  | .spawning .. => match th.worker with
    | some (c, _) => if s.kernel.alive c = false ∧ s.role c ≠ .image then some s' else none
    | none => none
  | _ => none

def dropThread (t : ℕ) (th : Thread) : Option System :=
  match th.stage with
  | .leased _ | .ended => none
  | _ => some ((s.close th.process (th.stage.owned.map (·.1))).goto t th .ended)

/-- A thread of a live process. -/
def live (t : ℕ) : Option Thread := (s.thread t).filter fun th => s.kernel.alive th.process

end System

/-- Services, their threads and everything that they spawn. -/
def machine : Machine System Input Note where
  init s := s = ⟨.empty, fun _ => .image, fun _ => none⟩
  step s
    | .boot t => match s.thread t with
      | some _ => none
      | none => some ({ s with
          kernel := s.kernel.boot
          role := Function.update s.role s.kernel.born .service
          thread := Function.update s.thread t
            (some ⟨s.kernel.born, .starting, none, true, []⟩) }, [])
    | .begin m t supervise => match s.thread t, s.live m with
      | none, some main => match main.stage with
        | .leased _ => some (s.setThread t
            ⟨main.process, if supervise then .preparing else .recovering, none, true, []⟩, [])
        | _ => none
      | _, _ => none
    | .step t => (s.live t).bind fun th => s.stepThread t th
    | .tool t => (s.live t).bind fun th => match th.stage with
      | .operating d => some ((s.forkAs th.process (.forked none)).setThread t
          { th with tools := (s.kernel.born, d) :: th.tools }, [])
      | _ => none
    | .fail t => (s.live t).bind fun th => (s.failThread t th).map fun s => (s, [])
    | .drop t => (s.live t).bind fun th => (s.dropThread t th).map fun s => (s, [])
    -- between `fork` and `exec` a child has the descriptors of its parent
    | .child c => if s.kernel.alive c then match s.role c with
      | .forked (some d) => if s.kernel.held c d = none then none
        else some ({ s with
          kernel := s.kernel.inherit c d
          role := Function.update s.role c (.forked none) }, [])
      | .forked none => some ({ s with
          kernel := s.kernel.exec c
          role := Function.update s.role c .image }, [])
      | _ => none
      else none
    | .fork p => if s.kernel.alive p ∧ s.role p = .image then some (s.forkAs p .image, []) else none
    | .exec p => if s.kernel.alive p ∧ s.role p = .image then
        some ({ s with kernel := s.kernel.exec p }, []) else none
    | .exit p => if s.kernel.alive p then some ({ s with kernel := s.kernel.exit p }, []) else none

end Ocvpn.Lifetime
