import Ocvpn.Crash.Basic
import Ocvpn.LTS.Basic
import Ocvpn.Model.Basic

/-!
# Credentials and one-time codes

The credentials of one profile (`crates/client/src/credentials.rs`), and the callbacks through which
the native library reads, uses and advances a HOTP seed (`HotpStore` of
`crates/client/src/auth.rs`, `token_lock` and `token_unlock` of `crates/engine/src/auth.rs`).

Any number of threads of any number of processes run.  A thread is an authentication worker, which
the library calls back, or one call of an ordinary function.  One step is one access to what the
processes share: the lock file of the profile, which its open file holds, or an entry of the
keyring.  A cut says how the access goes; a process may be gone between any two of them.
-/

namespace Ocvpn.Credentials

open Crash

inductive Purpose where
  | password | keyPassphrase | secondaryKeyPassphrase | tokenSeed | proxyCredentials
  deriving DecidableEq, Repr

/-- `Purpose::ALL`. -/
def Purpose.all : List Purpose :=
  [.password, .keyPassphrase, .secondaryKeyPassphrase, .tokenSeed, .proxyCredentials]

/-- A thread: its process, and its number there. -/
abbrev Tid := ℕ × ℕ

/-! ### Errors -/

/-- `unavailable`. -/
def unavailable : Error := .new .keyringUnavailable
  "The OS credential store is locked or unavailable. Unlock or enable it, or use session-only input. HOTP requires a durable saved seed and cannot use session-only storage."

/-- There is no seed to begin with. -/
def seedRequired : Error := .new .authenticationRequired
  "HOTP requires an explicitly saved seed in an unlocked, durable OS credential store. Save the seed with consent before authenticating; session-only counters are unsafe across processes."

/-- The slot of the worker is taken. -/
def activeTransaction : Error :=
  .new .conflict "A token generation transaction is already active"

def noTransaction : Error := .new .conflict "Token generation has no durable transaction"

def emptySeed : Error := .invalid "The updated HOTP seed cannot be empty."

/-- The error of `cstring`. -/
def badInput : Error := .invalid "Native input is too long or contains a NUL"

/-- The error of `check` about `openconnect_set_token_mode`. -/
def tokenMode : Error := .new .runtimeFailure "OpenConnect could not refresh HOTP counter"

/-! ### Threads -/

/-- The functions that everybody may call. -/
inductive Ordinary where
  | get (purpose : Purpose)
  | save (purpose : Purpose) (value : String)
  | delete (purpose : Purpose)
  | deleteProfile
  deriving DecidableEq

/-- What the function does to the keyring, entry by entry. -/
def Ordinary.edits : Ordinary → List (Purpose × Option String)
  | get _ => []
  | save p value => [(p, some value)]
  | delete p => [(p, none)]
  | deleteProfile => Purpose.all.map (·, none)

/-- Where a worker is.  A transaction is its seed, and holds the lock file. -/
inductive Place where
  /-- In the native library, with what is in the slot of its `HotpStore`. -/
  | native (slot : Option String)
  /-- `token_lock` waits for the lock file; the slot is empty. -/
  | acquiring
  /-- It holds the lock file and is about to read the seed. -/
  | reading
  /-- The transaction is in the slot; the library is about to get the seed. -/
  | handing (seed : String)
  /-- `commit` is about to write; it has taken the transaction out of the slot. -/
  | writing (seed value : String)
  /-- The transaction is about to be dropped. -/
  | dropping (result : Except Error Unit)
  deriving DecidableEq

inductive Thread where
  | fresh
  | worker (place : Place)
  /-- An ordinary call that waits for the lock file. -/
  | waiting (edits : List (Purpose × Option String))
  /-- An ordinary call that holds it. -/
  | editing (edits : List (Purpose × Option String))
  | gone
  deriving DecidableEq

inductive Callback where
  | lock | unlock
  deriving DecidableEq

/-- What there is to see of a run. -/
inductive Note where
  /-- A transaction has read its seed. -/
  | began (t : Tid) (seed : String)
  /-- The library has the seed. -/
  | handed (t : Tid) (seed : String)
  /-- A transaction writes its new seed over what is there. -/
  | committed (t : Tid) (value : String) (replaced : Option String)
  /-- An ordinary call writes or deletes an entry. -/
  | edited (t : Tid) (purpose : Purpose) (value : Option String)
  | returned (t : Tid) (callback : Callback) (result : Except Error Unit)
  deriving DecidableEq

structure System where
  threads : Tid → Thread := fun _ => .fresh
  /-- Whose open file has the lock. -/
  holder : Option Tid := none
  keyring : Purpose → Option String := fun _ => none

inductive Input where
  /-- An authentication begins. -/
  | start (t : Tid)
  | call (t : Tid) (o : Ordinary)
  /-- The library calls `token_lock`. -/
  | lock (t : Tid)
  /-- The library calls `token_unlock`, with the text it points to. -/
  | unlock (t : Tid) (token : Except Error (Option String))
  /-- The next access of the thread. -/
  | step (t : Tid) (cut : Cut Error)
  /-- The authentication ends, and drops its `HotpStore`. -/
  | finish (t : Tid)
  /-- A process is gone. -/
  | crash (process : ℕ)

/-! ### Steps -/

/-- The access takes effect. -/
def takesEffect : Cut Error → Bool
  | .performed | .lost _ => true
  | _ => false

/-- `cstring`. -/
def isNative (seed : String) : Bool :=
  seed.utf8ByteSize ≤ 65536 && !seed.toList.contains (.ofNat 0)

namespace System

variable (s : System) (t : Tid)

def set (k : Thread) : System := { s with threads := Function.update s.threads t k }

/-- The open file of the thread, if it has one, is closed. -/
def release : System := { s with holder := if s.holder = some t then none else s.holder }

def write (purpose : Purpose) (value : Option String) : System :=
  { s with keyring := Function.update s.keyring purpose value }

/-- `token_lock` fails. -/
def failLock (e : Error) : System × List Note :=
  ((s.release t).set t (.worker (.native none)), [.returned t .lock (.error e)])

/-- `unlock` ends without a write: whatever transaction there is, is dropped. -/
def cancel (result : Except Error Unit) : System × List Note :=
  ((s.release t).set t (.worker (.native none)), [.returned t .unlock result])

/-- The next access of a worker. -/
def stepWorker (c : Cut Error) : Place → Option (System × List Note)
  | .native _ => none
  | .acquiring => match c with
    | .performed =>
      if s.holder = none then some ({ s.set t (.worker .reading) with holder := some t }, [])
      else none
    | _ => some (s.failLock t unavailable)
  | .reading => match c with
    | .performed => match s.keyring .tokenSeed with
      | none => some (s.failLock t seedRequired)
      | some seed =>
        if seed.isEmpty then some (s.failLock t seedRequired)
        else some (s.set t (.worker (.handing seed)), [.began t seed])
    | _ => some (s.failLock t unavailable)
  | .handing seed =>
    if !isNative seed then some (s.failLock t badInput)
    else match c with
      | .performed =>
        some (s.set t (.worker (.native (some seed))), [.handed t seed, .returned t .lock (.ok ())])
      | _ => some (s.failLock t tokenMode)
  -- a write that reports an error may have taken effect
  | .writing _ value =>
    let result : Except Error Unit := if c = .performed then .ok () else .error unavailable
    if takesEffect c then
      some ((s.write .tokenSeed (some value)).set t (.worker (.dropping result)),
        [.committed t value (s.keyring .tokenSeed)])
    else some (s.set t (.worker (.dropping result)), [])
  | .dropping result => some (s.cancel t result)

/-- The next access of an ordinary call. -/
def stepOrdinary (c : Cut Error) : List (Purpose × Option String) → System × List Note
  | [] => ((s.release t).set t .gone, [])
  | (p, v) :: rest =>
    let k : Thread := if c = .performed then .editing rest else .gone
    let s' := if takesEffect c then s.write p v else s
    let s' := if c = .performed then s' else s'.release t
    (s'.set t k, if takesEffect c then [.edited t p v] else [])

end System

/-- The credentials of one profile, and everybody who uses them. -/
def machine : Machine System Input Note where
  init s := s.threads = (fun _ => .fresh) ∧ s.holder = none
  step s
    | .start t => match s.threads t with
      | .fresh => some (s.set t (.worker (.native none)), [])
      | _ => none
    | .call t o => match s.threads t with
      | .fresh => some (s.set t (.waiting o.edits), [])
      | _ => none
    | .lock t => match s.threads t with
      -- the worker has a transaction already
      | .worker (.native (some _)) => some (s, [.returned t .lock (.error activeTransaction)])
      | .worker (.native none) => some (s.set t (.worker .acquiring), [])
      | _ => none
    | .unlock t token => match s.threads t with
      | .worker (.native slot) => match token, slot with
        | .error e, _ => some (s.cancel t (.error e))
        | .ok none, _ => some (s.cancel t (.ok ()))
        | .ok (some _), none => some (s.cancel t (.error noTransaction))
        | .ok (some value), some seed =>
          if value.isEmpty then some (s.cancel t (.error emptySeed))
          else some (s.set t (.worker (.writing seed value)), [])
      | _ => none
    | .step t c => match s.threads t with
      | .worker place => s.stepWorker t c place
      | .waiting edits => match c with
        | .performed =>
          if s.holder = none then some ({ s.set t (.editing edits) with holder := some t }, [])
          else none
        | _ => some (s.set t .gone, [])
      | .editing edits => some (s.stepOrdinary t c edits)
      | _ => none
    | .finish t => match s.threads t with
      | .worker (.native _) => some ((s.release t).set t .gone, [])
      | _ => none
    -- the lock goes with its process, the keyring stays as it is
    | .crash process =>
      some ({ s with
        threads := fun t => if t.1 = process then .gone else s.threads t
        holder := if s.holder.any (·.1 = process) then none else s.holder }, [])

end Ocvpn.Credentials
