import Ocvpn.Ipc.Browser

/-!
# Prompts and their answers

The engine's side of an authentication (`crates/engine/src/auth.rs`).  The native worker asks
through prompts and waits on a bounded queue; `AuthControl` puts answers into it.  Both sides share
the mark of a cancellation and the prompt that is current.

An answer is checked against the current prompt before it enters the queue.  The checks of a form
are those of `AuthPrompt::validate_reply` (`crates/model/src/auth.rs`).
-/

namespace Ocvpn.Auth

open Ipc

/-! ### Prompts -/

inductive AuthFieldKind where
  | text | password | select | token | ssoToken | ssoUser
  deriving DecidableEq, Repr

structure AuthChoice where
  id : String
  label : String
  deriving DecidableEq

structure AuthField where
  name : String
  label : String
  kind : AuthFieldKind
  required : Bool
  numeric : Bool
  choices : List AuthChoice
  deriving DecidableEq

/-- A form of the server. -/
structure AuthPrompt where
  promptId : Uuid
  attemptId : Uuid
  authId : String
  banner : Option String
  message : Option String
  error : Option String
  fields : List AuthField
  deriving DecidableEq

/-- The answers to a form, or none to cancel it. -/
structure AuthReply where
  promptId : Uuid
  attemptId : Uuid
  answers : Option (List (String × String))
  deriving DecidableEq

/-- A certificate the user has to decide on. -/
structure CertificatePrompt where
  promptId : Uuid
  attemptId : Uuid
  host : String
  port : UInt16
  reason : String
  details : String
  fingerprint : String
  changedPin : Bool
  deriving DecidableEq

/-- A fingerprint that is trusted at a host and port. -/
structure CertificatePin where
  host : String
  port : UInt16
  fingerprint : String
  deriving DecidableEq

inductive CertificateDecision where
  | reject | acceptAttempt | pin
  deriving DecidableEq, Repr

inductive NativeBrowserKind where
  | webview | external
  deriving DecidableEq, Repr

inductive BrowserReply where
  | page (page : BrowserPage)
  | opened
  | cancel
  | failed (error : Error)
  deriving DecidableEq

/-- `stale`. -/
def stale : Error := .new .conflict "Authentication prompt is no longer current"

/-- `cancelled`. -/
def cancelled : Error := .new .cancelled "Authentication cancelled"

/-- One field in `validate_reply`. -/
def AuthField.validateAnswer (f : AuthField) (answers : List (String × String)) : Run Unit := do
  let value := (answers.lookup f.name).getD ""
  Exec.rejectIf (value.utf8ByteSize > 65536 || value.toList.contains (.ofNat 0) ||
    (f.required && value.isEmpty)) (.invalid "Missing or invalid authentication answer")
  Exec.rejectIf (!value.isEmpty && f.numeric && !value.toList.all Char.isDigit)
    (.invalid "Authentication answer must contain only digits")
  Exec.rejectIf (f.kind == .select && !f.choices.any (·.id == value))
    (.invalid "Authentication selection is no longer available")

/-- `AuthPrompt::validate_reply`. -/
def AuthPrompt.validateReply (p : AuthPrompt) (reply : AuthReply) : Run Unit := do
  Exec.rejectIf (p.promptId != reply.promptId || p.attemptId != reply.attemptId) stale
  match reply.answers with
  | none => pure ()
  | some answers => do
    Exec.rejectIf (answers.any fun (key, _) => !p.fields.any (·.name == key))
      (.invalid "Unknown authentication field")
    p.fields.forM (·.validateAnswer answers)

/-! ### The shared state -/

/-- What `AuthControl` puts into the queue. -/
inductive Response where
  | form (reply : AuthReply)
  | certificate (promptId : Uuid) (decision : CertificateDecision)
  | browser (transactionId : Uuid) (reply : BrowserReply)
  | cancel
  deriving DecidableEq

/-- The prompt that is current. -/
inductive Pending (Url : Type) where
  | form (prompt : AuthPrompt)
  | certificate (promptId : Uuid)
  | browser (transactionId : Uuid) (origin : Url) (kind : NativeBrowserKind)
  deriving DecidableEq

/-- What the worker and every `AuthControl` share. -/
structure Shared (Url : Type) where
  cancelled : Bool := false
  pending : Option (Pending Url) := none
  /-- The queue of responses. -/
  responses : List Response := []
  /-- The worker can still receive. -/
  receiver : Bool := true
  deriving DecidableEq

/-- The bound of the queue of responses. -/
def responseLimit : ℕ := 8

namespace Shared

variable {Url : Type} [DecidableEq Url] (parse : String → Option Url) (s : Shared Url)

/-- `send_response`. -/
def sendResponse (response : Response) : Run (Shared Url) :=
  if !s.receiver then Exec.fail stale
  else if s.responses.length ≥ responseLimit then
    Exec.fail (.new .busy "Authentication response queue is full")
  else pure { s with responses := s.responses ++ [response] }

/-- The checks of `browser_reply`. -/
def browserCheck (transactionId : Uuid) (reply : BrowserReply) : Run Unit := do
  Exec.rejectIf s.cancelled Auth.cancelled
  match s.pending with
  | some (.browser id origin kind) => do
    Exec.rejectIf (id != transactionId) stale
    match reply, kind with
    | .page page, .webview => page.validate parse origin
    | .opened, .external => pure ()
    | .cancel, _ | .failed _, _ => pure ()
    | _, _ => Exec.fail (.invalid "Unexpected native browser response kind")
  | _ => Exec.fail stale

/-- The checks of `reply`. -/
def replyCheck (reply : AuthReply) : Run Unit := do
  Exec.rejectIf s.cancelled Auth.cancelled
  match s.pending with
  | some (.form prompt) => prompt.validateReply reply
  | _ => Exec.fail stale

/-- The checks of `certificate_reply`. -/
def certificateCheck (promptId : Uuid) : Run Unit := do
  Exec.rejectIf s.cancelled Auth.cancelled
  match s.pending with
  | some (.certificate id) => Exec.rejectIf (id != promptId) stale
  | _ => Exec.fail stale

/-- `browser_reply`, when nothing happens in between. -/
def browserReply (transactionId : Uuid) (reply : BrowserReply) : Run (Shared Url) := do
  s.browserCheck parse transactionId reply
  s.sendResponse (.browser transactionId reply)

/-- `cancel`, when nothing happens in between. -/
def cancel : Shared Url :=
  { s with
    cancelled := true
    pending := none
    responses :=
      if s.cancelled || !s.receiver || s.responses.length ≥ responseLimit then s.responses
      else s.responses ++ [.cancel] }

end Shared

end Ocvpn.Auth
