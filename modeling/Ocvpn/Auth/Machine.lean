import Ocvpn.Auth.Control
import Ocvpn.LTS.Fair

/-!
# The worker and its callers

`AuthControl` and the native worker of `crates/engine/src/auth.rs` as one machine.  Any number of
calls of `AuthControl` run at once; the worker goes through the callbacks of the native library.
One step is one access to what they share: the lock of `pending`, the mark of the cancellation, or
the queue of responses.

What the library does is input: which callback it makes and how it takes a page.  So is what a
callback does apart from its prompt.
-/

namespace Ocvpn.Auth

open Ipc

/-! ### Calls -/

/-- A call that brings an answer. -/
inductive Request where
  | reply (reply : AuthReply)
  | certificateReply (promptId : Uuid) (decision : CertificateDecision)
  | browserReply (transactionId : Uuid) (reply : BrowserReply)
  deriving DecidableEq

namespace Request

/-- What the call puts into the queue. -/
def response : Request → Response
  | reply r => .form r
  | certificateReply id d => .certificate id d
  | browserReply id r => .browser id r

/-- What the call checks first. -/
def check {Url : Type} [DecidableEq Url] (parse : String → Option Url) (s : Shared Url) :
    Request → Run Unit
  | reply r => s.replyCheck r
  | certificateReply id _ => s.certificateCheck id
  | browserReply id r => s.browserCheck parse id r

/-- The call ends the prompt it answers; a browser transaction takes more than one answer. -/
def settles : Request → Bool
  | browserReply .. => false
  | _ => true

end Request

/-- Where a call is. -/
inductive Caller where
  /-- It waits for the lock. -/
  | enter (q : Request)
  | check (q : Request)
  | send (q : Request)
  /-- The response is in the queue, the lock is still held. -/
  | leave (q : Request)
  /-- `cancel` is about to set the mark. -/
  | swap
  /-- It is about to put `Cancel` into the queue. -/
  | notify
  /-- It waits for the lock to drop the prompt. -/
  | erase
  deriving DecidableEq

namespace Caller

/-- The call holds the lock. -/
def Locks : Caller → Prop
  | check _ | send _ | leave _ => True
  | _ => False

instance (c : Caller) : Decidable c.Locks := by
  cases c <;> unfold Locks <;> infer_instance

end Caller

/-! ### The worker -/

/-- What a callback asks. -/
inductive Prompt (Url : Type) where
  | form (prompt : AuthPrompt)
  | certificate (prompt : CertificatePrompt)
  | browser (transactionId : Uuid) (origin : Url) (kind : NativeBrowserKind)
  deriving DecidableEq

/-- What the session hears of. -/
inductive Event (Url : Type) where
  | prompted (prompt : Prompt Url)
  | browserFinished (transactionId : Uuid)
  | authenticated
  | failed (error : Error)
  | cancelled
  deriving DecidableEq

/-- Where the worker is. -/
inductive Phase (Url : Type) where
  /-- In the native library. -/
  | native
  /-- The callback made its prompt. -/
  | entered (p : Prompt Url)
  /-- The prompt is current. -/
  | announcing (p : Prompt Url)
  /-- At the head of the loop of `wait_for`. -/
  | polling (p : Prompt Url)
  | receiving (p : Prompt Url)
  | received (p : Prompt Url) (r : Response)
  /-- At the look for the transaction of a browser response. -/
  | comparing (p : Prompt Url) (id : Uuid) (reply : BrowserReply)
  /-- `wait_for` has returned. -/
  | answered (p : Prompt Url) (r : Response)
  /-- In `submit_page`. -/
  | submitting (p : Prompt Url)
  /-- The transaction succeeded, and is reported if it submitted a page. -/
  | finishing (p : Prompt Url) (report : Bool)
  | reporting (p : Prompt Url)
  /-- `run` has returned. -/
  | closing (result : Except Error Unit)
  | concluding (result : Except Error Unit)
  | ended
  deriving DecidableEq

variable {Url : Type}

namespace Prompt

def id : Prompt Url → Uuid
  | form p => p.promptId
  | certificate p => p.promptId
  | browser id _ _ => id

/-- The prompt as `pending` has it. -/
def pending : Prompt Url → Pending Url
  | form p => .form p
  | certificate p => .certificate p.promptId
  | browser id origin kind => .browser id origin kind

/-- What `browser` and `form` check first, and `certificate` does not. -/
def minds : Prompt Url → Bool
  | certificate _ => false
  | _ => true

end Prompt

/-- The prompt that the worker waits at, from the time it is current until the wait returns; a
browser transaction until it ends. -/
def Phase.current : Phase Url → Option (Prompt Url)
  | announcing p | polling p | receiving p | received p _ | comparing p _ _ | answered p _
  | submitting p | finishing p _ => some p
  | _ => none

/-- `run` has returned. -/
def Phase.isOver : Phase Url → Bool
  | closing _ | concluding _ | ended => true
  | _ => false

/-- The worker is in `wait_for`. -/
def Phase.waits : Phase Url → Option (Prompt Url)
  | polling p | receiving p | received p _ | comparing p _ _ => some p
  | _ => none

/-- The next access of the worker to what is shared, or what the library did. -/
inductive Move (Url : Type) where
  | callback (p : Prompt Url)
  /-- A callback that fails before it has a prompt. -/
  | fail (e : Error)
  | announce
  | publish
  | poll
  | receive
  | timeout
  /-- Nobody can answer any more. -/
  | disconnect
  | examine
  | compare
  /-- The callback takes the answer; `rest` is what comes of the rest of it. -/
  | handle (rest : Run Unit)
  | submitted (result : Run ℤ)
  | finish
  | report
  /-- `openconnect_obtain_cookie` returns a code. -/
  | stop (code : ℤ) (handoff : Except Error Unit)
  | close
  | conclude

/-! ### The machine -/

/-- What there is to see of a run. -/
inductive Note (Url : Type) where
  /-- A response enters the queue while a prompt is current. -/
  | accepted (c : ℕ) (q : Request) (pending : Option (Pending Url))
  | returned (c : ℕ) (result : Run Unit)
  | cancelReturned (c : ℕ)
  /-- `wait_for` returns. -/
  | waited (p : Prompt Url) (result : Except Error Response)
  /-- The waiting side finds an answer to something else. -/
  | stale (p : Prompt Url)
  /-- The native library gets the page of a response, in a transaction. -/
  | submitted (p : Prompt Url) (id : Uuid) (page : BrowserPage)
  | event (e : Event Url)
  deriving DecidableEq

inductive Input (Url : Type) where
  /-- Somebody makes a call. -/
  | call (c : ℕ) (q : Request)
  | cancel (c : ℕ)
  /-- The call goes on. -/
  | caller (c : ℕ)
  | worker (m : Move Url)
  /-- `AuthTask` is dropped, after it has cancelled. -/
  | dropEvents

/-- Everything there is. -/
structure System (Url : Type) where
  shared : Shared Url := {}
  /-- Who holds the lock of `pending`; the worker takes it within one step. -/
  holder : Option ℕ := none
  callers : ℕ → Option Caller := fun _ => none
  worker : Phase Url := .native
  failure : Option Error := none
  accepted : List CertificatePin := []
  /-- The UUIDs handed out by `Uuid::new_v4`. -/
  issued : List Uuid := []
  /-- Some `cancel` has returned. -/
  cancelled : Bool := false
  /-- `AuthTask` receives events. -/
  listening : Bool := true

/-- `OC_GUI_EAGAIN`. -/
def ocGuiEagain : ℤ := -11

/-- What `callback` makes of a panic. -/
def callbackError : Fault Error → Error
  | .error e => e
  | .panic => .new .runtimeFailure "Native authentication callback panicked"

/-- The error of a wait that expired. -/
def expired : Error :=
  .new .authenticationRequired "Authentication interaction expired or its owner closed"

namespace System

variable (s : System Url)

/-- The call is at another place. -/
def goto (c : ℕ) (k : Caller) : System Url :=
  { s with callers := Function.update s.callers c (some k) }

/-- The call has returned. -/
def quit (c : ℕ) : System Url := { s with callers := Function.update s.callers c none }

/-- The call has returned and released the lock. -/
def release (c : ℕ) : System Url := { s.quit c with holder := none }

def setPending (p : Option (Pending Url)) : System Url :=
  { s with shared := { s.shared with pending := p } }

section Callers

variable [DecidableEq Url] (parse : String → Option Url)

/-- A call takes its next step. -/
def stepCaller (c : ℕ) : Caller → Option (System Url × List (Note Url))
  | .enter q =>
    if s.holder.isNone then some ({ s.goto c (.check q) with holder := some c }, []) else none
  | .check q => match q.check parse s.shared with
    | .ok _ => some (s.goto c (.send q), [])
    | .error e => some (s.release c, [.returned c (.error e)])
  | .send q => match s.shared.sendResponse q.response with
    | .ok shared => some ({ s.goto c (.leave q) with shared }, [.accepted c q s.shared.pending])
    | .error e => some (s.release c, [.returned c (.error e)])
  | .leave q =>
    let s := s.release c
    some (if q.settles then s.setPending none else s, [.returned c (.ok ())])
  -- only the first `cancel` wakes the worker; each of them drops the prompt
  | .swap =>
    if s.shared.cancelled then some (s.goto c .erase, [])
    else some ({ s.goto c .notify with shared := { s.shared with cancelled := true } }, [])
  | .notify => match s.shared.sendResponse .cancel with
    | .ok shared => some ({ s.goto c .erase with shared }, [])
    | .error _ => some (s.goto c .erase, [])
  | .erase =>
    if s.holder.isNone then
      some ({ (s.quit c).setPending none with cancelled := true }, [.cancelReturned c])
    else none

end Callers

/-- The callback returns to the library. -/
def resume : System Url := { s with worker := .native }

/-- The callback fails. -/
def fail (e : Error) : System Url := { s.resume with failure := s.failure.or (some e) }

/-- `wait_for` fails, and with it the callback. -/
def abandon (p : Prompt Url) (e : Error) : System Url × List (Note Url) :=
  (s.fail e, [.waited p (.error e)])

/-- What the callback does with the answer it waited for. -/
def handle (rest : Run Unit) : Prompt Url → Response → System Url × List (Note Url)
  | .form prompt, .form reply =>
    match (do prompt.validateReply reply
              Exec.rejectIf reply.answers.isNone Auth.cancelled
              rest : Run Unit) with
    | .ok _ => (s.resume, [])
    | .error e => (s.fail (callbackError e), [])
  | .certificate prompt, .certificate id decision =>
    if id ≠ prompt.promptId then (s.fail Auth.stale, [.stale (.certificate prompt)])
    else if decision = .reject then
      (s.fail (.new .certificateRejected "Peer certificate was rejected"), [])
    else if s.accepted.length ≥ 256 then
      (s.fail (.new .certificateRejected
        "Too many distinct authentication certificate peers"), [])
    else
      let pin := ⟨prompt.host, prompt.port, prompt.fingerprint⟩
      ({ s.resume with accepted := s.accepted ++ [pin] }, [])
  | .browser transactionId origin kind, .browser id reply =>
    let p : Prompt Url := .browser transactionId origin kind
    if id ≠ transactionId then ({ s with worker := .polling p }, [])
    else match reply, kind with
      | .cancel, _ => (s.fail Auth.cancelled, [])
      | .failed e, _ => (s.fail e, [])
      | .opened, .external => ({ s with worker := .finishing p false }, [])
      | .page page, .webview => ({ s with worker := .submitting p }, [.submitted p id page])
      | _, _ => (s.fail (.invalid "Unexpected browser completion"), [])
  -- an answer to another kind of prompt
  | p, _ => (s.fail Auth.stale, [.stale p])

/-- The worker takes its next step. -/
def stepWorker [DecidableEq Url] : Phase Url → Move Url → Option (System Url × List (Note Url))
  -- only the callback of a certificate starts after another callback failed
  | .native, .callback p =>
    if p.id ∉ s.issued ∧ (p.minds → s.failure = none) ∧ !s.shared.cancelled then
      some ({ s with worker := .entered p, issued := p.id :: s.issued }, [])
    else none
  | .native, .fail e => some (s.fail e, [])
  | .entered p, .announce =>
    if s.holder.isNone then some ({ s.setPending (some p.pending) with worker := .announcing p }, [])
    else none
  -- the prompt is pending before its event is sent
  | .announcing p, .publish =>
    if s.listening then some ({ s with worker := .polling p }, [.event (.prompted p)])
    else some (s.fail Auth.cancelled, [])
  | .polling p, .poll =>
    if s.shared.cancelled then some (s.abandon p Auth.cancelled)
    else some ({ s with worker := .receiving p }, [])
  | .receiving p, .receive => match s.shared.responses with
    | [] => none
    | r :: rest =>
      let s := { s with shared := { s.shared with responses := rest } }
      some (if r = .cancel then s.abandon p Auth.cancelled else ({ s with worker := .received p r }, []))
  | .receiving p, .timeout => some (s.abandon p expired)
  | .receiving p, .disconnect =>
    if s.shared.responses.isEmpty ∧ !s.listening then some (s.abandon p expired) else none
  -- the mark is read again when a response is there
  | .received p r, .examine =>
    if s.shared.cancelled then some (s.abandon p Auth.cancelled)
    else match r with
      | .browser id reply => some ({ s with worker := .comparing p id reply }, [])
      | r => some ({ s with worker := .answered p r }, [.waited p (.ok r)])
  -- a browser answer to anything but the pending transaction is skipped
  | .comparing p id reply, .compare =>
    if s.holder.isNone then match s.shared.pending with
      | some (.browser current _ _) =>
        if current = id then
          some ({ s with worker := .answered p (.browser id reply) },
            [.waited p (.ok (.browser id reply))])
        else some ({ s with worker := .polling p }, [])
      | _ => some ({ s with worker := .polling p }, [])
    else none
  | .answered p r, .handle rest => some (s.handle rest p r)
  -- `OC_GUI_EAGAIN` asks for another page of the same transaction
  | .submitting p, .submitted result => match result with
    | .error e => some (s.fail (callbackError e), [])
    | .ok code =>
      if code = ocGuiEagain then some ({ s with worker := .polling p }, [])
      else if code ≠ 0 then
        some (s.fail (.new .authenticationRejected "Native browser completion was rejected"), [])
      else some ({ s with worker := .finishing p true }, [])
  | .finishing p report, .finish =>
    if s.holder.isNone then
      some ({ s.setPending none with worker := if report then .reporting p else .native }, [])
    else none
  | .reporting p, .report =>
    if s.listening then some (s.resume, [.event (.browserFinished p.id)])
    else some (s.fail Auth.cancelled, [])
  -- what `run` returns: the mark counts before a failed callback, and that before the code
  | .native, .stop code handoff =>
    let result : Except Error Unit :=
      if s.shared.cancelled then .error Auth.cancelled
      else match s.failure with
        | some e => .error e
        | none =>
          if code ≠ 0 then .error (.new .authenticationRejected
            "OpenConnect authentication failed; verify credentials, server policy and connectivity")
          else handoff
    some ({ s with worker := .closing result, shared := { s.shared with receiver := false } }, [])
  | .closing result, .close =>
    if s.holder.isNone then some ({ s.setPending none with worker := .concluding result }, [])
    else none
  -- a cancellation that comes after `run` has returned still wins
  | .concluding result, .conclude =>
    let event : Event Url :=
      if s.shared.cancelled then .cancelled
      else match result with
        | .ok _ => .authenticated
        | .error e => if e.code = .cancelled then .cancelled else .failed e
    some ({ s with worker := .ended }, [.event event])
  | _, _ => none

end System

/-- The worker and its callers. -/
def machine [DecidableEq Url] (parse : String → Option Url) :
    Machine (System Url) (Input Url) (Note Url) where
  init s := s = {}
  step s
    | .call c q => if s.callers c = none then some (s.goto c (.enter q), []) else none
    | .cancel c => if s.callers c = none then some (s.goto c .swap, []) else none
    | .caller c => match s.callers c with
      | some k => s.stepCaller parse c k
      | none => none
    | .worker m => s.stepWorker s.worker m
    | .dropEvents => if s.cancelled then some ({ s with listening := false }, []) else none

end Ocvpn.Auth
