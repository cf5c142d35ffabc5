import Ocvpn.Auth.Machine
import Ocvpn.Browser.Completion
import Ocvpn.Browser.Ledger

/-!
# The flow of one browser transaction

`Flow` of `crates/client/src/browser.rs`, over the engine's side of the authentication.  The task of
the transaction calls one method at a time.  A method works on the flow and on the ledger, and calls
`AuthControl` at most once; while it is in that call, everything else of the engine goes on.

The flow is call number 0 of the engine.  Other processes may change the ledger between two calls,
and whoever reads the prompts may stop.
-/

namespace Ocvpn.Browser

open Auth Crash Ipc Net

/-! ### Data -/

inductive BrowserPhase where
  | authentication | portal | gateway
  deriving DecidableEq, Repr

inductive BrowserStage where
  | opening | waiting | manualInput | confirmAccount
  deriving DecidableEq, Repr

/-- What the user is shown. -/
structure BrowserPrompt (Url : Type) where
  attemptId : Uuid
  transactionId : Uuid
  expectedOrigin : Url
  phase : BrowserPhase
  mode : BrowserMode
  stage : BrowserStage
  account : Option String
  deriving DecidableEq

/-- What the engine asked for; the mode is the one `run` has settled on. -/
structure BrowserRequest (Url : Type) where
  attemptId : Uuid
  transactionId : Uuid
  protocol : String
  expectedOrigin : Url
  phase : BrowserPhase
  kind : NativeBrowserKind
  mode : BrowserMode
  deriving DecidableEq

/-- `Flow`. -/
structure Flow (Url : Type) where
  request : BrowserRequest Url
  pending : Option GpCompletion := none
  submitted : Bool := false
  opened : Bool := false
  deriving DecidableEq

/-- The methods that the task calls. -/
inductive Call where
  | opened
  | callback (uri : String)
  | page (page : BrowserPage)
  | confirm (accepted : Bool)
  deriving DecidableEq

/-- What there is to see of a run. -/
inductive Note (Url : Type) where
  | called (k : Call)
  /-- A prompt is delivered. -/
  | prompted (p : BrowserPrompt Url)
  | native (n : Auth.Note Url)
  | returned (k : Call) (result : Run Unit)
  deriving DecidableEq

/-- The flow and what it works on. -/
structure System (Url : Type) where
  flow : Flow Url
  /-- The method that is in a call of the engine. -/
  doing : Option Call := none
  native : Auth.System Url := {}
  file : LedgerFile := none
  /-- The prompts that nobody has read yet. -/
  notices : List (BrowserPrompt Url) := []
  listening : Bool := true

/-- The bound of the channel of prompts. -/
def noticeLimit : ℕ := 16

/-- `stale`. -/
def stale : Error := .new .conflict "Browser transaction is no longer current"

/-- `cancelled`. -/
def cancelled : Error := .new .cancelled "Browser authentication was cancelled"

/-- What the client's libraries do. -/
structure Crates (Url : Type) where
  parse : String → Option Url
  text : Url → String
  markup : Markup
  ledger : Ledger

/-! ### The methods -/

/-- A method at work. -/
structure Turn (Url : Type) where
  system : System Url
  notes : List (Note Url) := []

/-- A part of a method. -/
abbrev Method (Url α : Type) := Io (Turn Url) Error α

variable {Url : Type}

/-- The prompt of `prompt`. -/
def Flow.prompt (f : Flow Url) (stage : BrowserStage) (account : Option String) :
    BrowserPrompt Url :=
  { attemptId := f.request.attemptId
    transactionId := f.request.transactionId
    expectedOrigin := f.request.expectedOrigin
    phase := f.request.phase
    mode := f.request.mode
    stage, account }

/-- The page of a confirmed completion. -/
def Crates.submission (cs : Crates Url) (r : BrowserRequest Url) (c : GpCompletion) : BrowserPage :=
  { uri := cs.text r.expectedOrigin
    cookies := []
    headers := [("saml-auth-status", "1"), ("saml-username", c.username), (c.cookieName, c.cookie)]
    document := none }

/-- What `callback` checks first. -/
def Flow.takesCallbacks (f : Flow Url) : Bool :=
  f.request.protocol == "gp" && f.request.kind == .webview && f.request.mode != .embedded &&
    f.pending.isNone && !f.submitted

/-- `prompt`. -/
def prompt (stage : BrowserStage) (account : Option String) : Method Url Unit := do
  let s ← Io.get (·.system)
  if s.listening ∧ s.notices.length < noticeLimit then
    let p := s.flow.prompt stage account
    Io.modify fun t =>
      { system := { t.system with notices := t.system.notices ++ [p] }
        notes := t.notes ++ [.prompted p] }
  else Io.fail (.new .busy "Browser prompt consumer is not responding")

/-- Change the flow. -/
def setFlow (g : Flow Url → Flow Url) : Method Url Unit :=
  Io.modify fun t => { t with system := { t.system with flow := g t.system.flow } }

/-- `claim_completion`: `clock` is the time, or why there is none. -/
def claimCompletion (l : Ledger) (clock : Except Error ℕ) (cookie : String) :
    Method Url Unit := do
  let now ← Io.ofExcept clock
  Io.zoom (·.system.file) (fun file t => { t with system := { t.system with file } })
    (l.claimCompletionAt cookie now)

/-- `confirmation`. -/
def confirmation (l : Ledger) (clock : Except Error ℕ) (c : GpCompletion) : Method Url Unit := do
  let request ← Io.get (·.system.flow.request)
  if c.username.utf8ByteSize > 4096 then
    Io.fail (.invalid "Browser account name exceeds the limit")
  else
    if request.mode ≠ .embedded then claimCompletion l clock c.cookie
    prompt .confirmAccount (some c.username)
    setFlow fun f => { f with pending := some c }

/-- `callback`. -/
def callback (cs : Crates Url) (clock : Except Error ℕ) (uri : String) : Method Url Unit := do
  let flow ← Io.get (·.system.flow)
  if !flow.takesCallbacks then Io.fail stale
  else
    let completion ← ofRun (cs.markup.callbackCompletion uri)
    confirmation cs.ledger clock completion

/-- The rest of `opened`, when the engine has its reply. -/
def openedThen : Method Url Unit := do
  setFlow fun f => { f with opened := true }
  let request ← Io.get (·.system.flow.request)
  prompt (if request.mode = .manual then .manualInput else .waiting) none

/-- The rest of `confirm`, when the engine has the page. -/
def confirmThen : Method Url Unit := do
  setFlow fun f => { f with submitted := true }
  prompt .waiting none

/-- A call of `AuthControl`. -/
inductive Engine where
  | reply (q : Auth.Request)
  | cancel

/-- The part of a method before its call of the engine, if it has one. -/
def Call.start (cs : Crates Url) [DecidableEq Url] (clock : Except Error ℕ) :
    Call → Method Url (Option Engine)
  | opened => do
    let flow ← Io.get (·.system.flow)
    if !flow.opened && flow.request.kind == .external then
      pure (some (.reply (.browserReply flow.request.transactionId .opened)))
    else do
      openedThen
      pure none
  | callback uri => do
    Browser.callback cs clock uri
    pure none
  | page p => do
    let flow ← Io.get (·.system.flow)
    ofRun (p.validate cs.parse flow.request.expectedOrigin)
    -- a page counts only while nothing is pending and nothing was submitted
    if flow.request.kind == .external || flow.pending.isSome || flow.submitted then pure none
    else if flow.request.protocol == "gp" then do
      match ← ofRun (cs.markup.pageCompletion p) with
      | none => pure none
      | some completion => do
        confirmation cs.ledger clock completion
        pure none
    else
      pure (some (.reply
        (.browserReply flow.request.transactionId (.page { p with document := none }))))
  | confirm accepted => do
    let flow ← Io.get (·.system.flow)
    match flow.pending with
    | none => Io.fail stale
    | some completion => do
      -- taken before the answer is known to be delivered
      setFlow fun f => { f with pending := none }
      if !accepted then pure (some .cancel)
      else
        pure (some (.reply (.browserReply flow.request.transactionId
          (.page (cs.submission flow.request completion)))))

/-- The part of a method after its call of the engine. -/
def Call.resume : Call → Method Url Unit
  | opened => openedThen
  | confirm true => confirmThen
  | confirm false => Io.fail cancelled
  | _ => pure ()

/-! ### The machine -/

inductive Input (Url : Type) where
  /-- The task calls a method; the cuts are about the ledger. -/
  | call (k : Call) (clock : Except Error ℕ) (cuts : List (Cut Error))
  /-- A step of the engine. -/
  | native (i : Auth.Input Url)
  /-- Somebody else writes the ledger. -/
  | write (file : LedgerFile)
  /-- A prompt is read. -/
  | read
  | hangUp

/-- The step of the engine is a call of the flow. -/
def IsFlow : Auth.Input Url → Prop
  | .call 0 _ | .cancel 0 => True
  | _ => False

instance (i : Auth.Input Url) : Decidable (IsFlow i) := by
  unfold IsFlow
  split <;> infer_instance

/-- What the flow's call of the engine has returned, if it has. -/
def engineResult : List (Auth.Note Url) → Option (Run Unit)
  | .returned 0 result :: _ => some result
  | .cancelReturned 0 :: _ => some (.ok ())
  | _ => none

namespace System

variable (s : System Url)

/-- The method ends. -/
def finish (k : Call) : Outcome Error Unit × State (Turn Url) Error →
    Option (System Url × List (Note Url))
  | (.ok _, t) => some (t.world.system, t.world.notes ++ [.returned k (.ok ())])
  | (.err e, t) => some (t.world.system, t.world.notes ++ [.returned k (.error (.error e))])
  -- The process is gone.
  | (.stop, _) => none

variable [DecidableEq Url] (cs : Crates Url)

/-- A call of the engine begins. -/
def engine (k : Call) (notes : List (Note Url)) (c : Engine) :
    Option (System Url × List (Note Url)) := do
  let i : Auth.Input Url := match c with
    | .reply q => .call 0 q
    | .cancel => .cancel 0
  let (native, o) ← (Auth.machine cs.parse).step s.native i
  pure ({ s with doing := some k, native }, notes ++ o.map .native)

/-- A method is called. -/
def begin (k : Call) (clock : Except Error ℕ) (cuts : List (Cut Error)) :
    Option (System Url × List (Note Url)) :=
  match k.start cs clock ⟨{ system := s, notes := [.called k] }, cuts⟩ with
  | (.ok none, t) => finish k (.ok (), t)
  | (.err e, t) => finish k (.err e, t)
  | (.stop, _) => none
  | (.ok (some c), t) => t.world.system.engine cs k t.world.notes c

/-- The engine takes a step, and with the flow's call returned the method goes on. -/
def advance (i : Auth.Input Url) : Option (System Url × List (Note Url)) := do
  let (native, o) ← (Auth.machine cs.parse).step s.native i
  let s := { s with native }
  let notes := o.map .native
  match s.doing, engineResult o with
  | some k, some (.ok _) =>
    finish k (k.resume ⟨{ system := { s with doing := none }, notes }, []⟩)
  | some k, some (.error e) => pure ({ s with doing := none }, notes ++ [.returned k (.error e)])
  | _, _ => pure (s, notes)

end System

/-- The flow, the engine and everybody else. -/
def machine [DecidableEq Url] (cs : Crates Url) (request : BrowserRequest Url) :
    Machine (System Url) (Input Url) (Note Url) where
  init s := s.flow = { request } ∧ s.doing = none ∧ s.native.callers 0 = none
  step s
    | .call k clock cuts => if s.doing.isNone then s.begin cs k clock cuts else none
    | .native i => if IsFlow i then none else s.advance cs i
    | .write file => some ({ s with file }, [])
    | .read => some ({ s with notices := s.notices.tail }, [])
    | .hangUp => some ({ s with listening := false }, [])

end Ocvpn.Browser
