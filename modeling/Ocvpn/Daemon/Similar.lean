import Ocvpn.Daemon.Invariant

/-!
# States that look the same to a peer

Two states of the daemon are similar for a peer `P` when they differ only in the private data of
sessions of other peers: profile, identifiers, times, network observation, traffic, error contents
and log texts.  What is kept of an error of another peer's session is a parameter `κ`.

`Session.Similar`, `Service.Similar`, `Attempt.Similar` and `Connection.Similar` compare the parts;
the theorems say that every operation of the session keeps similarity when its arguments differ in
private data only, and that a similar session answers a request of `P` in the same way
(`dispatch_similar_own`).
-/

namespace Ocvpn.Daemon

variable {Peer Handoff : Type}

/-! ### What is kept of private data -/

/-- The error asks for network recovery: the one thing about an error of another peer's session
that the daemon shows to everybody. -/
def needsRecovery (e : Error) : Bool := e.code = .recoveryRequired

/-- An error with nothing left but `κ`. -/
def maskError (κ : Error → Bool) (e : Error) : Error :=
  if κ e then .new .recoveryRequired "" else .new .networkFailure ""

/-- A result with nothing left but its success and `κ` of its error. -/
def maskResult (κ : Error → Bool) : Except Error Unit → Except Error Unit
  | .ok () => .ok ()
  | .error e => .error (maskError κ e)

/-- A recovery outcome with nothing left but its success. -/
def RecoveryOutcome.mask : RecoveryOutcome → RecoveryOutcome
  | .warnings [] => .warnings []
  | _ => .panicked

/-- An update with nothing left but its kind and its result's mask. -/
def Update.mask (κ : Error → Bool) : Update → Update
  | connected _ => connected ⟨"", [], [], [], [], ""⟩
  | reconnecting => reconnecting
  | traffic _ => traffic {}
  | finished result quiescent => finished (maskResult κ result) quiescent

def Stage.mask (κ : Error → Bool) : Stage → Stage
  | launching => launching
  | handoff => handoff
  | relaying stopping terminal => relaying stopping (terminal.map (maskResult κ))
  | settling result => settling (maskResult κ result)
  | ended result => ended (maskResult κ result)
  | recovering result => recovering (maskResult κ result)
  | reporting result => reporting (maskResult κ result)
  | returned => returned
  | crashed => crashed

def SupervisorEvent.mask (κ : Error → Bool) : SupervisorEvent → SupervisorEvent
  | launchFailed e => launchFailed (maskError κ e)
  | spawned => spawned
  | attachFailed e => attachFailed (maskError κ e)
  | handoffWritten => handoffWritten
  | handoffFailed terminated => handoffFailed (maskResult κ terminated)
  | cancelled => cancelled
  | deadline terminated => deadline (maskResult κ terminated)
  | worker update => worker (update.map (Update.mask κ))
  | undelivered => undelivered
  | exited waited drained => exited waited (drained.map (maskResult κ))
  | quiet answer => quiet (maskResult κ answer)
  | proceed => proceed
  | recoveryEnded outcome => recoveryEnded outcome.mask
  | report => report
  | crash => crash

def Supervisor.mask (κ : Error → Bool) (s : Supervisor) : Supervisor :=
  { s with stage := s.stage.mask κ }

/-! ### Similar parts -/

/-- The states that only differ in the reason of a failure are the same to everybody else. -/
def coarse : ConnectionState → ConnectionState
  | .authenticationRequired => .failed
  | s => s

/-- Data tagged with this owner may be shown to `P`. -/
def Concerns (P : Peer) (owner : Option Peer) : Prop := ∀ q, owner = some q → q = P

/-- What everybody may learn of a slot. -/
def Slot.shape (slot : Slot Peer) : Peer × ℕ × ℕ × Option ℕ :=
  (slot.owner, slot.connection, slot.lease, slot.cancel)

structure Session.Similar (P : Peer) (s t : Session Peer) : Prop where
  instanceId : s.snapshot.serviceInstanceId = t.snapshot.serviceInstanceId
  sequence : s.snapshot.sequence = t.snapshot.sequence
  state : coarse s.snapshot.state = coarse t.snapshot.state
  lastOwner : s.lastOwner = t.lastOwner
  slot : s.slot.map Slot.shape = t.slot.map Slot.shape
  recoveryBlocked : s.recoveryBlocked = t.recoveryBlocked
  quiescenceBlocked : s.quiescenceBlocked = t.quiescenceBlocked
  stopping : s.stopping = t.stopping
  /-- A session that concerns `P` is the same. -/
  own : Concerns P s.lastOwner → s.snapshot = t.snapshot ∧ s.slot = t.slot ∧ s.logs = t.logs

/-- Items of the bus: their owners agree, and what concerns `P` is the same. -/
def ItemSimilar (P : Peer) (a b : Option Peer × Event) : Prop :=
  a.1 = b.1 ∧ (Concerns P a.1 → a = b)

structure Service.Similar (P : Peer) (v u : Service Peer) : Prop where
  state : v.state.Similar P u.state
  events : List.Forall₂ (ItemSimilar P) v.events u.events
  cancelled : v.cancelled = u.cancelled

structure Attempt.Similar (P : Peer) (a b : Attempt Peer) : Prop where
  owner : a.owner = b.owner
  watch : a.watch = b.watch
  supervisor : a.supervisor.mask needsRecovery = b.supervisor.mask needsRecovery
  updates : a.updates.map (Update.mask needsRecovery) = b.updates.map (Update.mask needsRecovery)
  own : a.owner = P → a = b

/-- The kinds of requests. -/
inductive MethodKind where
  | capabilities | reserve | start | authProgress | cancel | disconnect | snapshot | subscribe
  | logs (follow : Bool) | adminQuiesce
  deriving DecidableEq

/-- The kind of a request. -/
def methodKind : Method Handoff → MethodKind
  | .capabilities => .capabilities
  | .reserve _ _ _ => .reserve
  | .start _ _ => .start
  | .authProgress _ => .authProgress
  | .cancel _ => .cancel
  | .disconnect => .disconnect
  | .snapshot => .snapshot
  | .subscribe => .subscribe
  | .logs follow => .logs follow
  | .adminQuiesce _ => .adminQuiesce

/-- Stages of a call of `quiesce`, up to the contents of an outcome. -/
def Quiesce.mask : Quiesce → Quiesce
  | recovered outcome => recovered outcome.mask
  | stage => stage

/-- Phases of a connection, which is a connection of `P` when `mine` holds. -/
inductive Phase.Similar (P : Peer) (mine : Prop) : Phase Peer Handoff → Phase Peer Handoff → Prop
  | reading : Similar P mine .reading .reading
  | requested (cursor : ℕ) (r r' : Request Handoff) : methodKind r.method = methodKind r'.method →
      (mine → r = r') → Similar P mine (.requested cursor r) (.requested cursor r')
  | quiescing (st st' : Quiesce) (id id' : Uuid) : st.mask = st'.mask →
      (mine → st = st' ∧ id = id') → Similar P mine (.quiescing st id) (.quiescing st' id')
  | following (cursor : ℕ) (logStream : Bool) :
      Similar P mine (.following cursor logStream) (.following cursor logStream)
  | received (cursor : ℕ) (logStream : Bool) (item item' : Option (Option Peer × Event)) :
      Option.Rel (ItemSimilar P) item item' →
      Similar P mine (.received cursor logStream item) (.received cursor logStream item')
  | returned : Similar P mine .returned .returned
  | closed : Similar P mine .closed .closed

structure Connection.Similar (P : Peer) (c d : Connection Peer Handoff) : Prop where
  peer : c.peer = d.peer
  phase : c.phase.Similar P (c.peer = P) d.phase

/-! ### Masks -/

@[simp] theorem maskResult_ok (κ : Error → Bool) (u : Unit) :
    maskResult κ (.ok u) = .ok () := rfl

@[simp] theorem maskResult_error (κ : Error → Bool) (e : Error) :
    maskResult κ (.error e) = .error (maskError κ e) := rfl

@[simp] theorem maskError_needsRecovery (e : Error) :
    needsRecovery (maskError needsRecovery e) = needsRecovery e := by
  unfold maskError
  cases h : needsRecovery e <;> simp [needsRecovery]

@[simp] theorem maskError_idem (e : Error) :
    maskError needsRecovery (maskError needsRecovery e) = maskError needsRecovery e := by
  rw [maskError, maskError_needsRecovery, maskError]

@[simp] theorem maskResult_idem (r : Except Error Unit) :
    maskResult needsRecovery (maskResult needsRecovery r) = maskResult needsRecovery r := by
  cases r <;> simp

@[simp] theorem Update.mask_idem (u : Update) :
    (u.mask needsRecovery).mask needsRecovery = u.mask needsRecovery := by
  cases u <;> simp [Update.mask]

@[simp] theorem Update.mask_isFinished (κ : Error → Bool) (u : Update) :
    (u.mask κ).isFinished = u.isFinished := by
  cases u <;> rfl

@[simp] theorem Stage.mask_idem (s : Stage) :
    (s.mask needsRecovery).mask needsRecovery = s.mask needsRecovery := by
  cases s <;> simp [Stage.mask, Function.comp_def]

theorem maskResult_afterRecovery (r : Except Error Unit) (o : RecoveryOutcome) :
    maskResult needsRecovery (Supervisor.afterRecovery (maskResult needsRecovery r) o.mask) =
      maskResult needsRecovery (Supervisor.afterRecovery r o) := by
  cases o with
  | warnings list =>
    cases list with
    | nil => simp [Supervisor.afterRecovery, RecoveryOutcome.mask]
    | cons e list =>
      simp [Supervisor.afterRecovery, RecoveryOutcome.mask, maskError, needsRecovery,
        recoveryWarning]
  | failed e =>
    simp [Supervisor.afterRecovery, RecoveryOutcome.mask, maskError, needsRecovery,
      recoveryWarning]
  | panicked =>
    simp [Supervisor.afterRecovery, RecoveryOutcome.mask, maskError, needsRecovery]

theorem maskResult_exitResult (waited : Bool) (terminal drained : Option (Except Error Unit)) :
    maskResult needsRecovery (Supervisor.exitResult waited
      (terminal.map (maskResult needsRecovery)) (drained.map (maskResult needsRecovery))) =
      maskResult needsRecovery (Supervisor.exitResult waited terminal drained) := by
  cases waited <;> cases terminal <;> cases drained <;> simp [Supervisor.exitResult]

namespace Supervisor

/-- What is left of a step when private data is masked. -/
def maskStep : Supervisor × List Update → Supervisor × List Update
  | (s, sent) => (s.mask needsRecovery, sent.map (Update.mask needsRecovery))

theorem mask_relay (s : Supervisor) (stopping : Bool) (terminal : Option (Except Error Unit))
    (e : SupervisorEvent) :
    (((s.mask needsRecovery).relay stopping (terminal.map (maskResult needsRecovery))
      (e.mask needsRecovery)).map maskStep) = (s.relay stopping terminal e).map maskStep := by
  cases e with
  | deadline terminated =>
    cases stopping <;> cases terminated <;> cases terminal <;>
      simp [relay, SupervisorEvent.mask, maskStep, mask, Stage.mask]
  | worker update =>
    cases terminal with
    | some r => cases update <;> simp [relay, SupervisorEvent.mask]
    | none =>
      cases update with
      | none => simp [relay, SupervisorEvent.mask, maskStep, mask, Stage.mask]
      | some u =>
        cases u <;> simp [relay, SupervisorEvent.mask, maskStep, mask, Stage.mask, Update.mask]
  | exited waited drained =>
    simp [relay, SupervisorEvent.mask, maskStep, mask, Stage.mask, maskResult_exitResult]
  | cancelled =>
    cases stopping <;>
      simp [relay, SupervisorEvent.mask, maskStep, mask, Stage.mask, Function.comp_def]
  | undelivered =>
    cases terminal <;> simp [relay, SupervisorEvent.mask, maskStep, mask, Stage.mask]
  | _ => simp [relay, SupervisorEvent.mask]

theorem step_relaying {s : Supervisor} {stopping : Bool} {terminal : Option (Except Error Unit)}
    {e : SupervisorEvent} (hs : s.stage = .relaying stopping terminal) (he : e ≠ .crash) :
    s.step e = s.relay stopping terminal e := by
  obtain ⟨stage, tree, quiescent, recovering⟩ := s
  obtain rfl : stage = _ := hs
  cases e with
  | handoffFailed terminated => cases terminated <;> rfl
  | quiet answer => cases answer <;> rfl
  | crash => exact absurd rfl he
  | _ => rfl

/-- Masking private data commutes with a supervisor's step. -/
theorem mask_step (s : Supervisor) (e : SupervisorEvent) :
    (((s.mask needsRecovery).step (e.mask needsRecovery)).map maskStep) =
      (s.step e).map maskStep := by
  obtain ⟨stage, tree, quiescent, recovering⟩ := s
  cases stage with
  | launching =>
    cases e <;> simp [step, mask, Stage.mask, SupervisorEvent.mask, maskStep, running]
  | handoff =>
    cases e with
    | handoffFailed terminated =>
      cases terminated <;>
        simp [step, mask, Stage.mask, SupervisorEvent.mask, maskStep]
    | _ => simp [step, mask, Stage.mask, SupervisorEvent.mask, maskStep, running]
  | relaying stopping terminal =>
    by_cases he : e = .crash
    · subst he
      simp [step, mask, Stage.mask, SupervisorEvent.mask, maskStep, running]
    · have he' : e.mask needsRecovery ≠ .crash := by
        cases e <;> simp_all [SupervisorEvent.mask]
      rw [step_relaying rfl he, mask, step_relaying rfl he']
      exact mask_relay _ _ _ _
  | settling r =>
    cases e with
    | quiet answer =>
      cases answer <;> simp [step, mask, Stage.mask, SupervisorEvent.mask, maskStep]
    | _ => simp [step, mask, Stage.mask, SupervisorEvent.mask, maskStep, running]
  | ended r =>
    cases e with
    | proceed =>
      cases quiescent <;> simp [step, mask, Stage.mask, SupervisorEvent.mask, maskStep]
    | _ => simp [step, mask, Stage.mask, SupervisorEvent.mask, maskStep, running]
  | recovering r =>
    cases e with
    | recoveryEnded o =>
      simp [step, mask, Stage.mask, SupervisorEvent.mask, maskStep, maskResult_afterRecovery]
    | _ => simp [step, mask, Stage.mask, SupervisorEvent.mask, maskStep, running]
  | reporting r =>
    cases e <;> simp [step, mask, Stage.mask, SupervisorEvent.mask, maskStep, running, Update.mask]
  | returned => cases e <;> simp [step, mask, Stage.mask, SupervisorEvent.mask, running]
  | crashed =>
    cases recovering <;> cases e <;>
      simp [step, mask, Stage.mask, SupervisorEvent.mask, maskStep, running]

end Supervisor

/-! ### The operations of the session -/

namespace Session.Similar

variable {P : Peer} {s t : Session Peer}

/-- Similar sessions have both no slot or slots of one shape. -/
theorem slot_cases (h : s.Similar P t) : (s.slot = none ∧ t.slot = none) ∨
    ∃ a b, s.slot = some a ∧ t.slot = some b ∧ a.owner = b.owner ∧
      a.connection = b.connection ∧ a.lease = b.lease ∧ a.cancel = b.cancel := by
  have hs := h.slot
  cases hsl : s.slot with
  | none =>
    rw [hsl, Option.map_none, eq_comm, Option.map_eq_none_iff] at hs
    exact .inl ⟨rfl, hs⟩
  | some a =>
    rw [hsl, Option.map_some, eq_comm, Option.map_eq_some_iff] at hs
    obtain ⟨b, hb, hab⟩ := hs
    simp only [Slot.shape, Prod.mk.injEq] at hab
    exact .inr ⟨a, b, rfl, hb, hab.1.symm, hab.2.1.symm, hab.2.2.1.symm, hab.2.2.2.symm⟩

theorem coarse_ne {a b x : ConnectionState} (h : coarse a = coarse b) (hx : coarse x = x)
    (hf : x ≠ .failed) : a = x ↔ b = x := by
  cases a <;> cases b <;> cases x <;> simp_all [coarse]

/-- Similar sessions are disconnecting together. -/
theorem disconnecting_iff (h : s.Similar P t) : s.snapshot.state = .disconnecting ↔
    t.snapshot.state = .disconnecting :=
  coarse_ne h.state rfl (by simp)

theorem authenticating_iff (h : s.Similar P t) : s.snapshot.state = .authenticating ↔
    t.snapshot.state = .authenticating :=
  coarse_ne h.state rfl (by simp)

theorem early_eq (h : s.Similar P t) :
    Service.early s.snapshot.state = Service.early t.snapshot.state := by
  have hc : s.snapshot.state = .connecting ↔ t.snapshot.state = .connecting :=
    coarse_ne h.state rfl (by simp)
  simp only [Service.early, h.authenticating_iff, hc]

end Session.Similar

namespace Service.Similar

variable {P : Peer} {v u : Service Peer} {w w' : ℤ}

/-- Replacing the sessions by similar ones. -/
theorem set {s t : Session Peer} (h : v.Similar P u) (hs : s.Similar P t) :
    ({ v with state := s } : Service Peer).Similar P { u with state := t } :=
  ⟨hs, h.events, h.cancelled⟩

theorem send {payload payload' : Snapshot → EventPayload} (h : v.Similar P u)
    (hp : Concerns P v.state.lastOwner → payload = payload') :
    (v.send payload).Similar P (u.send payload') where
  state := ⟨h.state.instanceId, congrArg (· + 1) h.state.sequence, h.state.state,
    h.state.lastOwner, h.state.slot, h.state.recoveryBlocked, h.state.quiescenceBlocked,
    h.state.stopping, fun hc => by
      obtain ⟨hsn, hsl, hl⟩ := h.state.own hc
      simp only [Service.send, hsn, hsl, hl, and_self]⟩
  events := by
    refine List.rel_append h.events (.cons ⟨h.state.lastOwner, fun hc => ?_⟩ .nil)
    obtain ⟨hsn, -⟩ := h.state.own hc
    rw [h.state.lastOwner, hsn, hp hc]
  cancelled := h.cancelled

theorem log {r r' : LogRecord} (h : v.Similar P u)
    (hr : Concerns P v.state.lastOwner → r = r') : (v.log r).Similar P (u.log r') := by
  refine send (h.set ?_) fun hc => by rw [hr hc]
  refine ⟨h.state.instanceId, h.state.sequence, h.state.state, h.state.lastOwner, h.state.slot,
    h.state.recoveryBlocked, h.state.quiescenceBlocked, h.state.stopping, fun hc => ?_⟩
  obtain ⟨hsn, hsl, hl⟩ := h.state.own hc
  refine ⟨hsn, hsl, ?_⟩
  simp only [Session.pushLog, hl, hr hc]

theorem publish {m m' : Option (String × LogLevel)} (h : v.Similar P u)
    (hm : m.isSome = m'.isSome) (hown : Concerns P v.state.lastOwner → m = m' ∧ w = w') :
    (v.publish m w).Similar P (u.publish m' w') := by
  cases m with
  | none =>
    cases m' with
    | none => exact h.send fun _ => rfl
    | some x' => cases hm
  | some x =>
    cases m' with
    | none => cases hm
    | some x' =>
      refine send (h.log fun hc => ?_) fun _ => rfl
      obtain ⟨hx, hw⟩ := hown hc
      rw [Option.some.inj hx, hw]

theorem cancel (h : v.Similar P u) (hv : v.state.Coherent)
    (hw : ∀ slot, v.state.slot = some slot → slot.owner = P → w = w') :
    (v.cancel w).Similar P (u.cancel w') := by
  rcases h.state.slot_cases with ⟨hv0, hu0⟩ | ⟨a, b, ha, hb, hown, hconn, hlease, hcancel⟩
  · rwa [cancel_eq_self hv0, cancel_eq_self hu0]
  have hlast := (hv.owner a ha).1
  have hwall : Concerns P (some a.owner) → w = w' := fun hcon => hw a ha (hcon a.owner rfl)
  rw [cancel_eq_of_slot ha, cancel_eq_of_slot hb, cancelSlot, cancelSlot, ← hcancel]
  cases hc : a.cancel with
  | some channel =>
    refine publish ⟨⟨h.state.instanceId, h.state.sequence, rfl, h.state.lastOwner, h.state.slot,
      h.state.recoveryBlocked, h.state.quiescenceBlocked, h.state.stopping, fun hcon => ?_⟩,
      h.events, by rw [h.cancelled]⟩ rfl fun hcon => ⟨rfl, hwall (hlast ▸ hcon)⟩
    obtain ⟨hsn, hsl, hl⟩ := h.state.own hcon
    exact ⟨by rw [hsn], hsl, hl⟩
  | none =>
    refine publish (h.set ⟨h.state.instanceId, h.state.sequence, rfl, by rw [hown], rfl,
      h.state.recoveryBlocked, h.state.quiescenceBlocked, h.state.stopping, fun hcon => ?_⟩) rfl
      fun hcon => ⟨rfl, hwall hcon⟩
    obtain ⟨hsn, hsl, hl⟩ := h.state.own (hlast ▸ hcon)
    exact ⟨by rw [hsn], rfl, hl⟩

theorem stop (h : v.Similar P u) (hv : v.state.Coherent)
    (hw : ∀ slot, v.state.slot = some slot → slot.owner = P → w = w') :
    (v.stop w).Similar P (u.stop w') := by
  refine cancel (h.set ⟨h.state.instanceId, h.state.sequence, h.state.state, h.state.lastOwner,
    h.state.slot, h.state.recoveryBlocked, h.state.quiescenceBlocked, rfl, h.state.own⟩) ?_ hw
  exact ⟨hv.slot, hv.cancel, hv.owner, hv.network, hv.blocked, hv.logs⟩

theorem unblock (h : v.Similar P u) : v.unblock.Similar P u.unblock := by
  refine h.set ⟨h.state.instanceId, h.state.sequence, h.state.state, h.state.lastOwner,
    h.state.slot, rfl, h.state.quiescenceBlocked, h.state.stopping, fun hcon => ?_⟩
  obtain ⟨hsn, hsl, hl⟩ := h.state.own hcon
  exact ⟨by rw [hsn], hsl, hl⟩

theorem reserved {m m' : Moment} {peer : Peer} {c : ℕ} {id id' : Uuid}
    {name name' protocol protocol' : String} (h : v.Similar P u) (hclock : m.clock = m'.clock)
    (hown : peer = P → m.fresh = m'.fresh ∧ m.wall = m'.wall ∧ id = id' ∧ name = name' ∧
      protocol = protocol') :
    (v.reserved m peer c id name protocol).Similar P
      (u.reserved m' peer c id' name' protocol') := by
  refine publish (h.set ⟨h.state.instanceId, h.state.sequence, rfl, rfl, ?_,
    h.state.recoveryBlocked, h.state.quiescenceBlocked, h.state.stopping, fun hcon => ?_⟩) rfl
    fun hcon => ⟨rfl, (hown (hcon peer rfl)).2.1⟩
  · simp only [Option.map_some, Slot.shape, hclock]
  · obtain ⟨hfresh, -, hid, hname, hprotocol⟩ := hown (hcon peer rfl)
    refine ⟨?_, ?_, rfl⟩
    · simp only [hfresh, hid, hname, h.state.instanceId, h.state.sequence]
    · simp only [hfresh, hprotocol, hclock]

theorem started {m m' : Moment} {a b : Slot Peer} (h : v.Similar P u)
    (ha : v.state.slot = some a) (hb : u.state.slot = some b) (hnext : m.next = m'.next)
    (hw : Concerns P v.state.lastOwner → m.wall = m'.wall) :
    (v.started m a).Similar P (u.started m' b) := by
  have hshape := h.state.slot
  simp only [ha, hb, Option.map_some, Option.some.injEq, Slot.shape, Prod.mk.injEq] at hshape
  refine publish (h.set ⟨h.state.instanceId, h.state.sequence, rfl, h.state.lastOwner, ?_,
    h.state.recoveryBlocked, h.state.quiescenceBlocked, h.state.stopping, fun hcon => ?_⟩) rfl
    fun hcon => ⟨rfl, hw hcon⟩
  · simp only [Option.map_some, Slot.shape, hshape, hnext]
  · obtain ⟨hsn, hsl, hl⟩ := h.state.own hcon
    rw [ha, hb, Option.some.injEq] at hsl
    exact ⟨by rw [hsn], by rw [hsl, hnext], hl⟩

theorem renew {a b : Slot Peer} {clock : ℕ} (h : v.Similar P u)
    (ha : v.state.slot = some a) (hb : u.state.slot = some b) :
    ({ v with state := { v.state with slot := some { a with lease := clock } } } :
      Service Peer).Similar P
      { u with state := { u.state with slot := some { b with lease := clock } } } := by
  have hshape := h.state.slot
  simp only [ha, hb, Option.map_some, Option.some.injEq, Slot.shape, Prod.mk.injEq] at hshape
  refine h.set ⟨h.state.instanceId, h.state.sequence, h.state.state, h.state.lastOwner, ?_,
    h.state.recoveryBlocked, h.state.quiescenceBlocked, h.state.stopping, fun hcon => ?_⟩
  · simp only [Option.map_some, Slot.shape, hshape]
  · obtain ⟨hsn, hsl, hl⟩ := h.state.own hcon
    rw [ha, hb, Option.some.injEq] at hsl
    exact ⟨hsn, by rw [hsl], hl⟩

theorem finished {r r' : Except Error Unit} {quiescent : Bool} (h : v.Similar P u)
    (hr : maskResult needsRecovery r = maskResult needsRecovery r')
    (hown : Concerns P v.state.lastOwner → r = r' ∧ w = w') :
    (v.finished r quiescent w).Similar P (u.finished r' quiescent w') := by
  unfold Service.finished
  cases r with
  | ok _ =>
    cases r' with
    | error e' => cases hr
    | ok _ =>
      refine publish (h.set ⟨h.state.instanceId, h.state.sequence, rfl, h.state.lastOwner, rfl,
        h.state.recoveryBlocked, rfl, h.state.stopping, fun hcon => ?_⟩) rfl fun hcon => ?_
      · obtain ⟨hsn, hsl, hl⟩ := h.state.own hcon
        exact ⟨by simp only [hsn], rfl, hl⟩
      · simp only [h.state.recoveryBlocked, (hown hcon).2, and_self]
  | error e =>
    cases r' with
    | ok _ => cases hr
    | error e' =>
      have hcode : needsRecovery e = needsRecovery e' := by
        rw [← maskError_needsRecovery e, Except.error.inj hr, maskError_needsRecovery]
      have hcoarse : ∀ e : Error, coarse
          (if e.code = .authenticationRequired then .authenticationRequired else .failed) =
            ConnectionState.failed := fun e => by split_ifs <;> rfl
      refine publish (h.set ⟨h.state.instanceId, h.state.sequence,
        (hcoarse e).trans (hcoarse e').symm, h.state.lastOwner, rfl, hcode, rfl, h.state.stopping,
        fun hcon => ?_⟩) rfl fun hcon => ?_
      · obtain ⟨hsn, hsl, hl⟩ := h.state.own hcon
        obtain rfl := Except.error.inj (hown hcon).1
        exact ⟨by simp only [hsn], rfl, hl⟩
      · obtain rfl := Except.error.inj (hown hcon).1
        exact ⟨rfl, (hown hcon).2⟩

theorem update {x x' : Update} {session session' : Uuid} (h : v.Similar P u)
    (hx : x.mask needsRecovery = x'.mask needsRecovery)
    (hown : Concerns P v.state.lastOwner → x = x' ∧ session = session' ∧ w = w') :
    (v.update x session w).Similar P (u.update x' session' w') := by
  have hdis := h.state.disconnecting_iff
  cases x with
  | connected network =>
    cases x' <;> try cases hx
    rename_i network'
    unfold Service.update
    by_cases hd : v.state.snapshot.state = .disconnecting
    · simp only [hd, if_true, hdis.1 hd]
      exact h
    simp only [hd, if_false, mt hdis.2 hd]
    refine publish (h.set ⟨h.state.instanceId, h.state.sequence, rfl, h.state.lastOwner,
      h.state.slot, h.state.recoveryBlocked, h.state.quiescenceBlocked, h.state.stopping,
      fun hcon => ?_⟩) rfl fun hcon => ⟨rfl, (hown hcon).2.2⟩
    obtain ⟨hsn, hsl, hl⟩ := h.state.own hcon
    -- only a peer that the session concerns sees the session and its time
    obtain ⟨hnet, hses, hw⟩ := hown hcon
    exact ⟨by rw [hsn, Update.connected.inj hnet, hses, hw], hsl, hl⟩
  | reconnecting =>
    cases x' <;> try cases hx
    unfold Service.update
    by_cases hd : v.state.snapshot.state = .disconnecting
    · simp only [hd, if_true, hdis.1 hd]
      exact h
    simp only [hd, if_false, mt hdis.2 hd]
    refine publish (h.set ⟨h.state.instanceId, h.state.sequence, rfl, h.state.lastOwner,
      h.state.slot, h.state.recoveryBlocked, h.state.quiescenceBlocked, h.state.stopping,
      fun hcon => ?_⟩) rfl fun hcon => ⟨rfl, (hown hcon).2.2⟩
    obtain ⟨hsn, hsl, hl⟩ := h.state.own hcon
    exact ⟨by rw [hsn], hsl, hl⟩
  | traffic counters =>
    cases x' <;> try cases hx
    unfold Service.update
    refine publish (h.set ⟨h.state.instanceId, h.state.sequence, h.state.state, h.state.lastOwner,
      h.state.slot, h.state.recoveryBlocked, h.state.quiescenceBlocked, h.state.stopping,
      fun hcon => ?_⟩) rfl fun hcon => ⟨rfl, (hown hcon).2.2⟩
    obtain ⟨hsn, hsl, hl⟩ := h.state.own hcon
    exact ⟨by rw [hsn, Update.traffic.inj (hown hcon).1], hsl, hl⟩
  | finished r q =>
    cases x' with
    | finished r' q' =>
      obtain ⟨hr, rfl⟩ := Update.finished.inj hx
      refine h.finished hr fun hcon => ?_
      obtain ⟨hxx, -, hw⟩ := hown hcon
      exact ⟨(Update.finished.inj hxx).1, hw⟩
    | connected | reconnecting | traffic => cases hx

theorem supervisorFailed (h : v.Similar P u) (hw : Concerns P v.state.lastOwner → w = w') :
    (v.supervisorFailed w).Similar P (u.supervisorFailed w') := by
  refine publish (h.set ⟨h.state.instanceId, h.state.sequence, rfl, h.state.lastOwner, rfl, rfl,
    rfl, h.state.stopping, fun hcon => ?_⟩) rfl fun hcon => ⟨rfl, hw hcon⟩
  obtain ⟨hsn, hsl, hl⟩ := h.state.own hcon
  exact ⟨by rw [hsn], rfl, hl⟩

end Service.Similar

/-! ### Requests -/

section Requests

variable [DecidableEq Peer] {P : Peer} {v u : Service Peer} {setup : Service.Setup Peer Handoff}
  {m m' : Service.Moment} {c : ℕ}

omit [DecidableEq Peer] in
/-- Sessions that concern `P` are equal. -/
theorem Session.Similar.eq_of_concerns {s t : Session Peer} (h : s.Similar P t)
    (hc : Concerns P s.lastOwner) : s = t := by
  obtain ⟨hsn, hsl, hl⟩ := h.own hc
  obtain ⟨-, -, -, hlast, -, hr, hq, hstop, -⟩ := h
  cases s
  cases t
  simp only [Session.mk.injEq] at hsn hsl hl hlast hr hq hstop ⊢
  exact ⟨hsn, hsl, hlast, hl, hr, hq, hstop⟩

omit [DecidableEq Peer] in
theorem concerns_of_owner {s : Session Peer} (hs : s.Coherent) {slot : Slot Peer}
    (hslot : s.slot = some slot) (ho : slot.owner = P) : Concerns P s.lastOwner := by
  intro q hq
  rw [(hs.owner slot hslot).1, Option.some.injEq] at hq
  exact hq.symm.trans ho

/-- Similar sessions admit the same peers. -/
theorem Session.Similar.authorize {s t : Session Peer} (h : s.Similar P t) (peer : Peer) :
    s.authorize peer = t.authorize peer := by
  unfold Session.authorize
  rcases h.slot_cases with ⟨hs, ht⟩ | ⟨a, b, hs, ht, ho, -⟩
  · rw [hs, ht]
  · rw [hs, ht, Option.any_some, Option.any_some, ho]

/-- A session that admits `P` is either `P`'s to see, or free after a session of somebody else. -/
theorem concerns_or_foreign {s : Session Peer} (hs : s.Coherent) (ha : s.authorize P = .ok ()) :
    Concerns P s.lastOwner ∨ (s.slot = none ∧ ∃ q, s.lastOwner = some q ∧ q ≠ P) := by
  by_cases hc : Concerns P s.lastOwner
  · exact .inl hc
  simp only [Concerns, not_forall] at hc
  obtain ⟨q, hq, hne⟩ := hc
  refine .inr ⟨?_, q, hq, hne⟩
  cases hslot : s.slot with
  | none => rfl
  | some slot =>
    have ho := authorize_eq_ok.1 ha slot hslot
    exact absurd (concerns_of_owner hs hslot ho q hq) hne

theorem Session.Similar.visible {s t : Session Peer} (h : s.Similar P t) (hs : s.Coherent)
    (ha : s.authorize P = .ok ()) : s.visible P = t.visible P := by
  rcases concerns_or_foreign hs ha with hc | ⟨hslot, q, hq, hne⟩
  · rw [h.eq_of_concerns hc]
  · have hslot' : t.slot = none := by
      have heq := h.slot
      rwa [hslot, Option.map_none, eq_comm, Option.map_eq_none_iff] at heq
    simp [Session.visible, hslot, hslot', ← h.lastOwner, hq, hne, h.instanceId, h.sequence]

theorem Session.Similar.visibleLogs {s t : Session Peer} (h : s.Similar P t) (hs : s.Coherent)
    (ha : s.authorize P = .ok ()) : s.visibleLogs P = t.visibleLogs P := by
  rcases concerns_or_foreign hs ha with hc | ⟨-, q, hq, hne⟩
  · rw [h.eq_of_concerns hc]
  · simp [Session.visibleLogs, ← h.lastOwner, hq, hne]

/-- Answers that `P` cannot tell apart. -/
inductive SameReply (P : Peer) : Except Error (Payload × Service Peer) →
    Except Error (Payload × Service Peer) → Prop
  | error (e : Error) : SameReply P (.error e) (.error e)
  | ok (p : Payload) (v u : Service Peer) : v.Similar P u → SameReply P (.ok (p, v)) (.ok (p, u))

omit [DecidableEq Peer] in
theorem Service.Similar.reserve {id : Uuid} {name protocol : String} (h : v.Similar P u) :
    SameReply P (v.reserve setup m P c id name protocol) (u.reserve setup m P c id name protocol) := by
  have hslot : v.state.slot.isSome = u.state.slot.isSome := by
    simpa using congrArg Option.isSome h.state.slot
  unfold Service.reserve
  rw [h.state.stopping, h.state.recoveryBlocked, hslot]
  split_ifs <;> first
    | exact .error _
    | exact .ok _ _ _ (h.reserved rfl fun _ => ⟨rfl, rfl, rfl, rfl, rfl⟩)

omit [DecidableEq Peer] in
theorem Service.Similar.start {id : Uuid} {handoff : Handoff} (h : v.Similar P u)
    (hst : v.state = u.state) :
    SameReply P (v.start setup m c id handoff) (u.start setup m c id handoff) := by
  unfold Service.start
  rw [hst]
  cases hslot : u.state.slot with
  | none => exact .error _
  | some slot =>
    simp only
    split_ifs
    · exact .error _
    · exact .error _
    · cases setup.validate handoff setup.capabilities.protocols m.wall with
      | error e => exact .error _
      | ok _ => exact .ok _ _ _ (h.started (hst ▸ hslot) hslot rfl fun _ => rfl)

omit [DecidableEq Peer] in
theorem Service.Similar.authProgress {id : Uuid} (h : v.Similar P u) (hst : v.state = u.state) :
    SameReply P (v.authProgress m c id) (u.authProgress m c id) := by
  unfold Service.authProgress
  by_cases hauth : u.state.snapshot.state = .authenticating
  · rw [if_neg (not_not.2 (hst ▸ hauth)), if_neg (not_not.2 hauth)]
    cases hslot : u.state.slot with
    | none =>
      rw [hst, hslot]
      exact .error _
    | some slot =>
      have hslot' : v.state.slot = some slot := hst ▸ hslot
      rw [hslot']
      simp only
      split_ifs
      · exact .error _
      · exact .ok _ _ _ (h.renew hslot' hslot)
  · rw [if_pos (hst ▸ hauth), if_pos hauth]
    exact .error _

/-- **A request of `P` is answered alike** by similar services. -/
theorem dispatch_similar_own {method : Method Handoff} (h : v.Similar P u)
    (hv : v.state.Coherent) :
    SameReply P (dispatch setup v m P c method) (dispatch setup u m P c method) := by
  unfold dispatch
  rw [← h.state.authorize]
  cases ha : v.state.authorize P with
  | error e => exact .error _
  | ok _ =>
    simp only
    have hvis := h.state.visible hv ha
    have hlogs := h.state.visibleLogs hv ha
    have hcancel : (v.cancel m.wall).Similar P (u.cancel m.wall) :=
      h.cancel hv fun _ _ _ => rfl
    rcases concerns_or_foreign hv ha with hc | ⟨hslot, q, hq, hne⟩
    · have hst := h.state.eq_of_concerns hc
      cases method with
      | capabilities => exact .ok _ _ _ h
      | snapshot | subscribe =>
        rw [hvis]
        exact .ok _ _ _ h
      | logs follow =>
        rw [hlogs]
        exact .ok _ _ _ h
      | reserve id name protocol => exact h.reserve
      | start id handoff => exact h.start hst
      | authProgress id => exact h.authProgress hst
      | cancel id =>
        simp only [Service.cancelAttempt, hst]
        split_ifs
        · exact .error _
        · exact .ok _ _ _ hcancel
      | disconnect =>
        simp only [Service.disconnect, hst]
        split_ifs
        · exact .error _
        · exact .ok _ _ _ hcancel
      | adminQuiesce => exact .error _
    -- without a slot nothing of the foreign session is read
    · have hslot' : u.state.slot = none := by
        have heq := h.state.slot
        rwa [hslot, Option.map_none, eq_comm, Option.map_eq_none_iff] at heq
      cases method with
      | capabilities => exact .ok _ _ _ h
      | snapshot | subscribe =>
        rw [hvis]
        exact .ok _ _ _ h
      | logs follow =>
        rw [hlogs]
        exact .ok _ _ _ h
      | reserve id name protocol => exact h.reserve
      | start id handoff =>
        simp only [Service.start, hslot, hslot']
        exact .error _
      | authProgress id =>
        simp only [Service.authProgress, hslot, hslot', ne_eq, h.state.authenticating_iff]
        split_ifs <;> exact .error _
      | cancel id =>
        simp only [Service.cancelAttempt, hslot, hslot', Option.any_none, Bool.false_eq_true,
          if_false]
        exact .ok _ _ _ hcancel
      | disconnect =>
        simp only [Service.disconnect, hslot, hslot', Option.any_none, Bool.false_and,
          Bool.false_eq_true, if_false]
        exact .ok _ _ _ hcancel
      | adminQuiesce => exact .error _

/-- Granted requests of another peer, of one kind, leave similar services. -/
theorem dispatch_similar_other {q : Peer} {method method' : Method Handoff}
    {payload payload' : Payload} {v' u' : Service Peer} (h : v.Similar P u)
    (hv : v.state.Coherent) (hq : q ≠ P) (hkind : methodKind method = methodKind method')
    (hclock : m.clock = m'.clock) (hnext : m.next = m'.next)
    (hd : dispatch setup v m q c method = .ok (payload, v'))
    (hd' : dispatch setup u m' q c method' = .ok (payload', u')) : v'.Similar P u' := by
  have ha := (dispatch_eq_ok hd).1
  -- the slot, if any, is not held by `P`
  have hother : ∀ slot, v.state.slot = some slot → slot.owner ≠ P := fun slot hslot ho =>
    hq ((authorize_eq_ok.1 ha slot hslot).symm.trans ho)
  have hforeign : ∀ slot, v.state.slot = some slot → ¬ Concerns P v.state.lastOwner :=
    fun slot hslot hc => hother slot hslot (hc _ (hv.owner slot hslot).1)
  have ha' : u.state.authorize q = .ok () := by rw [← h.state.authorize, ha]
  have hcancel : (v.cancel m.wall).Similar P (u.cancel m'.wall) :=
    h.cancel hv fun slot hslot ho => absurd ho (hother slot hslot)
  unfold dispatch at hd hd'
  simp only [ha, ha'] at hd hd'
  cases method <;> cases method' <;> simp only [methodKind, reduceCtorEq] at hkind
  case capabilities.capabilities | snapshot.snapshot | subscribe.subscribe | logs.logs =>
    obtain ⟨-, rfl⟩ := Prod.mk.inj (Except.ok.inj hd)
    obtain ⟨-, rfl⟩ := Prod.mk.inj (Except.ok.inj hd')
    exact h
  case reserve.reserve =>
    obtain ⟨-, -, -, -, rfl⟩ := Service.reserve_eq_ok hd
    obtain ⟨-, -, -, -, rfl⟩ := Service.reserve_eq_ok hd'
    exact h.reserved hclock fun heq => absurd heq hq
  case start.start =>
    obtain ⟨a, ha, -, -, -, -, -, rfl⟩ := Service.start_eq_ok hd
    obtain ⟨b, hb, -, -, -, -, -, rfl⟩ := Service.start_eq_ok hd'
    exact h.started ha hb hnext fun hc => absurd hc (hforeign a ha)
  case authProgress.authProgress =>
    obtain ⟨a, ha, -, rfl⟩ := Service.authProgress_eq_ok hd
    obtain ⟨b, hb, -, rfl⟩ := Service.authProgress_eq_ok hd'
    rw [hclock]
    exact h.renew ha hb
  case cancel.cancel =>
    obtain ⟨-, rfl⟩ := Service.cancelAttempt_eq_ok hd
    obtain ⟨-, rfl⟩ := Service.cancelAttempt_eq_ok hd'
    exact hcancel
  case disconnect.disconnect =>
    obtain ⟨-, rfl⟩ := Service.disconnect_eq_ok hd
    obtain ⟨-, rfl⟩ := Service.disconnect_eq_ok hd'
    exact hcancel
  case adminQuiesce.adminQuiesce => cases hd

end Requests

end Ocvpn.Daemon
