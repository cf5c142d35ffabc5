import Ocvpn.Auth.Machine
import Ocvpn.Browser.Flow
import Ocvpn.Handoff.Pins

/-!
# The session of an authentication

The client's side of an authentication (`crates/client/src/auth.rs`): `AuthSession::recv_timeout`,
which hands on the events of the engine, and `AuthControl`, whose `certificate_reply` saves a pin
after the engine has taken the decision.  Both keep to the lock of the map of certificate prompts.

Everything of the engine goes on meanwhile.  Call number 0 of the engine is the session's; a call of
the client's `AuthControl` has its own number there, and the answers to certificates come from
nobody else.  The transactions of the browser and the keyring are input.
-/

namespace Ocvpn.Handoff

open Auth Crash Ipc Net

/-! ### Calls -/

/-- Where a call of `AuthControl` is. -/
inductive Place where
  /-- `certificate_reply` waits for the lock of the prompts. -/
  | enter (id : Uuid) (d : CertificateDecision)
  | check (id : Uuid) (d : CertificateDecision)
  /-- In the engine's `certificate_reply`. -/
  | replying (id : Uuid) (p : CertificatePrompt) (d : CertificateDecision)
  /-- The engine has refused. -/
  | refused (e : Fault Error)
  /-- About to look at the pins. -/
  | reading (id : Uuid) (p : CertificatePrompt)
  /-- About to save the pin. -/
  | saving (id : Uuid) (p : CertificatePrompt) (revision : UInt64)
  /-- The pin is not saved; `cancel` is about to set the mark. -/
  | failing (id : Uuid) (e : Error)
  /-- In the engine's `cancel`. -/
  | stopping (id : Uuid) (e : Error)
  /-- About to drop the prompt and the lock. -/
  | leaving (id : Uuid) (result : Run Unit)
  /-- `cancel` is about to set the mark. -/
  | mark
  | stop
  /-- It tries the lock of the prompts. -/
  | clear
  deriving DecidableEq

/-! ### The session -/

/-- What a browser transaction tells the session. -/
inductive Notice (Url : Type) where
  | prompt (p : Browser.BrowserPrompt Url)
  | failed (e : Error)
  deriving DecidableEq

/-- What `recv_timeout` returns. -/
inductive Reported (Url : Type) where
  | prompt (p : AuthPrompt)
  | certificate (p : CertificatePrompt)
  | browser (p : Browser.BrowserPrompt Url)
  | browserFinished (id : Uuid)
  | authenticated
  | failed (e : Error)
  | cancelled
  deriving DecidableEq

/-- A result of `recv_timeout`. -/
abbrev Result (Url : Type) := Except Error (Option (Reported Url))

/-- Where `recv_timeout` is. -/
inductive Recv (Url : Type) where
  | idle
  /-- About to look for a cancellation. -/
  | looking
  /-- About to look for a notice of the browser. -/
  | noticing
  | receiving
  /-- A last event; the notices of the browser are gone through. -/
  | draining (e : Auth.Event Url)
  /-- A handoff waits for the lock of the prompts. -/
  | guarding
  /-- About to look for a cancellation again. -/
  | rechecking (e : Option (Auth.Event Url))
  | deciding (e : Option (Auth.Event Url))
  /-- A prompt waits for the lock of the prompts. -/
  | inserting (p : CertificatePrompt)
  /-- In the engine's `cancel`. -/
  | stopping (r : Result Url)
  | stopped (r : Result Url)
  deriving DecidableEq

/-- What the session learns from the browser, the keyring and the clock. -/
structure Outside (Url : Type) where
  notice : Option (Notice Url) := none
  drained : List (Notice Url) := []
  timeout : Bool := false
  close : Except Error Unit := .ok ()
  start : Except Error Unit := .ok ()
  save : Except Error Unit := .ok ()

/-- What there is to see of a run. -/
inductive Note (Url : Type) where
  | native (n : Auth.Note Url)
  /-- The file of pins is written, for a prompt of the session or by somebody else. -/
  | written (prompt : Option CertificatePrompt) (file : PinsDocument)
  /-- The save of the pin of a prompt failed. -/
  | saveFailed (p : CertificatePrompt)
  | returned (c : ℕ) (result : Run Unit)
  | received (r : Result Url)
  deriving DecidableEq

inductive Input (Url : Type) where
  | reply (c : ℕ) (id : Uuid) (d : CertificateDecision)
  | cancel (c : ℕ)
  /-- The next access of a call; the cuts are about the store. -/
  | caller (c : ℕ) (cuts : List (Cut Error))
  /-- A call panics in the store. -/
  | panic (c : ℕ)
  /-- The next access of `recv_timeout`, which begins with it. -/
  | recv (outside : Outside Url)
  /-- A step of the engine. -/
  | native (i : Auth.Input Url)
  /-- Another process saves a pin, or is stopped on the way. -/
  | foreign (pin : CertificatePin) (expectedRevision : UInt64) (cuts : List (Cut Error))

/-- Everything there is. -/
structure System (Url : Type) where
  native : Auth.System Url := {}
  callers : ℕ → Option Place := fun _ => none
  recv : Recv Url := .idle
  /-- The prompts that wait for a decision. -/
  certificates : Uuid → Option CertificatePrompt := fun _ => none
  /-- The call that holds the lock of the prompts; the session takes it within one step. -/
  holder : Option ℕ := none
  /-- A call panicked while it held the lock. -/
  poisoned : Bool := false
  cancelled : Bool := false
  terminal : Bool := false
  /-- The events of the engine that are not received yet. -/
  events : List (Auth.Event Url) := []
  savePassword : Option String := none
  nonInteractive : Bool := false
  notices : List Error := []
  file : PinsDocument := {}

/-! ### Errors -/

def promptState : Error := .new .runtimeFailure "Certificate prompt state failed"

def wasCancelled : Error := .new .conflict "Authentication was cancelled"

def notCurrent : Error := .new .conflict "Certificate prompt is no longer current"

def workerFinished : Error := .new .runtimeFailure "Authentication worker has finished"

def interactionRequired : Error := .new .authenticationRequired
  "Authentication requires interaction. Retry interactively; no browser or prompt was opened."

variable {Url : Type}

namespace System

variable (s : System Url)

def goto (c : ℕ) (k : Place) : System Url :=
  { s with callers := Function.update s.callers c (some k) }

def quit (c : ℕ) : System Url := { s with callers := Function.update s.callers c none }

/-- The call releases the lock and returns. -/
def unlock (c : ℕ) (result : Run Unit) : System Url × List (Note Url) :=
  ({ s.quit c with holder := none }, [.returned c result])

/-- The note of a file that has changed. -/
def rewritten (prompt : Option CertificatePrompt) (file : PinsDocument) : List (Note Url) :=
  if file = s.file then [] else [.written prompt file]

/-- `recv_timeout` returns. -/
def answer (r : Result Url) : System Url × List (Note Url) :=
  ({ s with recv := .idle }, [.received r])

variable [DecidableEq Url] (parse : String → Option Url)

/-- A call of the engine begins. -/
def engine (i : Auth.Input Url) : Option (System Url) := do
  let (native, _) ← (Auth.machine parse).step s.native i
  pure { s with native }

/-- The next access of a call. -/
def stepCaller (S : PinStore) (c : ℕ) (cuts : List (Cut Error)) :
    Place → Option (System Url × List (Note Url))
  | .enter id d =>
    if s.poisoned then some (s.quit c, [.returned c (Exec.fail promptState)])
    else if s.holder = none then some ({ s.goto c (.check id d) with holder := some c }, [])
    else none
  -- the engine consumes the prompt before the pin is written
  | .check id d =>
    if s.cancelled then some (s.unlock c (Exec.fail wasCancelled))
    else match s.certificates id with
      | none => some (s.unlock c (Exec.fail notCurrent))
      | some p => do
        let s ← s.engine parse (.call c (.certificateReply id d))
        pure (s.goto c (.replying id p d), [])
  | .replying .. | .stopping .. | .stop => none
  | .refused e => some (s.unlock c (.error e))
  | .reading id p => match pins S ⟨s.file, cuts⟩ with
    | (.ok document, _) => some (s.goto c (.saving id p document.revision), [])
    | (.err e, _) => some (s.goto c (.failing id e), [.saveFailed p])
    | (.stop, _) => none
  | .saving id p revision =>
    match (do let pin ← ofRun (certificatePin S p.host p.port p.fingerprint)
              savePin S pin revision : PinsProg PinsDocument) ⟨s.file, cuts⟩ with
    | (.ok document, t) =>
      some ({ s.goto c (.leaving id (.ok ())) with file := t.world }, [.written (some p) document])
    | (.err e, t) => some ({ s.goto c (.failing id e) with file := t.world },
        s.rewritten (some p) t.world ++ [.saveFailed p])
    | (.stop, _) => none
  -- a pin that could not be saved cancels the session, with the prompts still locked
  | .failing id e => do
    let s ← s.engine parse (.cancel c)
    pure ({ s.goto c (.stopping id e) with cancelled := true }, [])
  | .leaving id result =>
    let s := { s with certificates := Function.update s.certificates id none }
    some (s.unlock c result)
  | .mark => do
    let s ← s.engine parse (.cancel c)
    pure ({ s.goto c .stop with cancelled := true }, [])
  -- `try_lock`
  | .clear =>
    let s := if s.holder = none ∧ !s.poisoned then { s with certificates := fun _ => none } else s
    some (s.quit c, [.returned c (.ok ())])

/-- `cancel`, called by the session, which returns `r` afterwards. -/
def stopWith (r : Result Url) : Option (System Url × List (Note Url)) := do
  let s ← s.engine parse (.cancel 0)
  pure ({ s with cancelled := true, recv := .stopping r }, [])

/-- The session is over and closes its browser. -/
def conclude (close : Except Error Unit) (r : Reported Url) :
    Option (System Url × List (Note Url)) :=
  match close with
  | .ok _ => some ({ s with terminal := true }.answer (.ok (some r)))
  | .error e => s.stopWith parse (.error e)

/-- The event is the last one. -/
def isLast : Auth.Event Url → Bool
  | .authenticated | .failed _ | .cancelled => true
  | _ => false

/-- The next access of `recv_timeout`. -/
def stepRecv (o : Outside Url) : Recv Url → Option (System Url × List (Note Url))
  | .idle =>
    if s.terminal then some (s.answer (.ok none)) else some ({ s with recv := .looking }, [])
  | .looking =>
    if s.cancelled then { s with savePassword := none }.conclude parse o.close .cancelled
    else some ({ s with recv := .noticing }, [])
  | .noticing => match o.notice with
    | none => some ({ s with recv := .receiving }, [])
    | some (.prompt p) => some (s.answer (.ok (some (.browser p))))
    | some (.failed e) => match o.close with
      | .ok _ => s.stopWith parse (.ok (some (.failed e)))
      | .error e' => s.stopWith parse (.error e')
  | .receiving =>
    if o.timeout then some ({ s with recv := .rechecking none }, [])
    else match s.events with
      | e :: events =>
        some ({ s with events, recv := if isLast e then .draining e else .rechecking (some e) }, [])
      | [] => if s.native.worker = .ended then some (s.answer (.error workerFinished)) else none
  -- a failure the browser has already reported replaces the last event of the engine
  | .draining e =>
    let e := o.drained.foldl (fun e n => match n with
      | .failed error => .failed error
      | .prompt _ => e) e
    some ({ s with recv := if e = .authenticated then .guarding else .rechecking (some e) }, [])
  -- the handoff waits for a pin that is being saved
  | .guarding =>
    if s.poisoned then some (s.answer (.error promptState))
    else if s.holder = none then some ({ s with recv := .rechecking (some .authenticated) }, [])
    else none
  -- the mark is read again: a cancellation replaces whatever was received
  | .rechecking e =>
    if s.cancelled then { s with savePassword := none }.conclude parse o.close .cancelled
    else some ({ s with recv := .deciding e }, [])
  | .deciding none => some (s.answer (.ok none))
  | .deciding (some (.prompted p)) =>
    if s.nonInteractive then s.stopWith parse (.ok (some (.failed interactionRequired)))
    else match p with
      | .form p => some (s.answer (.ok (some (.prompt p))))
      | .certificate p => some ({ s with recv := .inserting p }, [])
      | .browser .. => match o.close, o.start with
        | .error e, _ => s.stopWith parse (.error e)
        | .ok _, .error e => s.stopWith parse (.ok (some (.failed e)))
        | .ok _, .ok _ => some (s.answer (.ok none))
  | .deciding (some (.browserFinished id)) => match o.close with
    | .error e => s.stopWith parse (.error e)
    | .ok _ => some (s.answer (.ok (some (.browserFinished id))))
  | .deciding (some .authenticated) =>
    let notices := match s.savePassword, o.save with
      | some _, .error e => s.notices ++ [e]
      | _, _ => s.notices
    { s with savePassword := none, notices }.conclude parse o.close .authenticated
  | .deciding (some (.failed e)) =>
    { s with savePassword := none }.conclude parse o.close (.failed e)
  | .deciding (some .cancelled) => { s with savePassword := none }.conclude parse o.close .cancelled
  | .inserting p =>
    if s.poisoned then some (s.answer (.error promptState))
    else if s.holder = none then
      some ({ s with certificates := Function.update s.certificates p.promptId (some p) }.answer
        (.ok (some (.certificate p))))
    else none
  | .stopping _ => none
  -- `cancel` clears the prompts only if nobody holds them
  | .stopped r =>
    let certificates := if s.holder = none ∧ !s.poisoned then fun _ => none else s.certificates
    some ({ s with certificates, terminal := true, savePassword := none }.answer r)

/-- What the client makes of a note of the engine. -/
def hear (s : System Url) : Auth.Note Url → System Url
  | .event e => { s with events := s.events ++ [e] }
  | .returned c r => match s.callers c with
    | some (.replying id p d) => match r with
      | .ok _ => s.goto c (if d = .pin then .reading id p else .leaving id (.ok ()))
      | .error e => s.goto c (.refused e)
    | _ => s
  | .cancelReturned c =>
    if c = 0 then match s.recv with
      | .stopping r => { s with recv := .stopped r }
      | _ => s
    else match s.callers c with
      | some (.stopping id e) => s.goto c (.leaving id (Exec.fail e))
      | some .stop => s.goto c .clear
      | _ => s
  | _ => s

/-- What only the client itself does in the engine. -/
def reserves : Auth.Input Url → Bool
  | .call c q => c == 0 || (s.callers c).isSome || match q with
    | .certificateReply .. => true
    | _ => false
  | .cancel c => c == 0 || (s.callers c).isSome
  | .dropEvents => s.recv != .idle || !s.cancelled
  | _ => false

/-- The engine takes a step. -/
def advance (i : Auth.Input Url) : Option (System Url × List (Note Url)) := do
  let (native, o) ← (Auth.machine parse).step s.native i
  pure (o.foldl hear { s with native }, o.map .native)

end System

/-- A call may begin. -/
def System.Free (s : System Url) (c : ℕ) : Prop :=
  c ≠ 0 ∧ s.callers c = none ∧ s.native.callers c = none

instance (s : System Url) (c : ℕ) : Decidable (s.Free c) := by
  unfold System.Free
  infer_instance

/-- The session, the calls of `AuthControl`, the engine and the other processes. -/
def machine [DecidableEq Url] (parse : String → Option Url) (S : PinStore) :
    Machine (System Url) (Input Url) (Note Url) where
  init s := ∃ savePassword nonInteractive file, s = { savePassword, nonInteractive, file }
  step s
    | .reply c id d => if s.Free c then some (s.goto c (.enter id d), []) else none
    | .cancel c => if s.Free c then some (s.goto c .mark, []) else none
    | .caller c cuts => match s.callers c with
      | some k => s.stepCaller parse S c cuts k
      | none => none
    | .panic c => match s.callers c with
      | some (.reading ..) | some (.saving ..) =>
        some ({ s.quit c with holder := none, poisoned := true }, [])
      | _ => none
    | .recv o => if s.native.listening then s.stepRecv parse o s.recv else none
    | .native i => if s.reserves i then none else s.advance parse i
    | .foreign pin expectedRevision cuts =>
      let file := (savePin S pin expectedRevision ⟨s.file, cuts⟩).2.world
      some ({ s with file }, s.rewritten none file)

end Ocvpn.Handoff
