import Ocvpn.Daemon.Supervisor
import Ocvpn.Journal.Basic
import Ocvpn.LTS.Basic

/-!
# The private channel of the worker

The loop of `run_channel` in `crates/service/src/worker.rs`: it merges the reports of the network
helper with the events of the native tunnel and tells the supervisor when the tunnel is connected.
One round of the loop is several steps here: one branch of `select!`, one step for each native
event drained after it, and the check at its end.

A tunnel *epoch* starts with an `AttemptReconnect` report.  That report resets `connected` and
`observation` but not `native_reconnected`, so a native `Reconnected` event left over from before
it counts for the new epoch.  A run is `Fresh` when no such event is left over.

## Main results

* `Channel.connected_current` : in a fresh run `Connected` is reported only for the current epoch,
  and never after a failure.
* `Channel.leftover_connects` : without the condition it may be reported without a native
  `Reconnected` event of its epoch.
-/

namespace Ocvpn.Worker

open Daemon (Update workerError)
open Net (TransactionId)

/-- What the native tunnel tells its owner. -/
inductive TunnelEvent where
  | statistics (traffic : TrafficCounters) (tunReady : Bool) (transport : String)
  | reconnected
  | finished (result : Except Error Unit)

/-- What the network helper tells the worker after each call of the lifecycle script. -/
structure LifecycleReport where
  transaction : TransactionId
  reason : NetworkReason
  result : Except Error (Option NetworkObservation)

/-- Where the loop is. -/
inductive Stage where
  /-- In `select!`. -/
  | selecting
  /-- Draining the native events. -/
  | draining
  | returned (result : Except Error Unit)

/-- The variables of `run_channel`. -/
structure Channel where
  transaction : TransactionId
  nativeReady : Bool
  reconnecting : Bool
  nativeReconnected : Bool
  observation : Option NetworkObservation
  connected : Bool
  failure : Option Error
  transport : String
  stage : Stage

/-- One step of the loop.  `written` is the answer of `write_frame`, where the step writes. -/
inductive Input where
  | tick
  /-- The next report, or `none` when the channel of reports closed. -/
  | report (item : Option (Except Error LifecycleReport)) (written : Except Error Unit)
  /-- A native event is drained. -/
  | native (event : TunnelEvent) (written : Except Error Unit)
  /-- The native tunnel is gone without a final event. -/
  | nativeStopped (e : Error)
  /-- No native event is left; `closed` is `reports.is_closed()`. -/
  | drained (closed : Bool) (written : Except Error Unit)

/-- What the loop does. -/
inductive Action where
  /-- An update is written to the supervisor. -/
  | update (u : Update)
  | requestStatistics
  /-- The native tunnel is cancelled. -/
  | cancel

namespace Channel

/-- The loop at its start. -/
def new (transaction : TransactionId) : Channel :=
  { transaction, nativeReady := false, reconnecting := false, nativeReconnected := false
    observation := none, connected := false, failure := none, transport := ""
    stage := .selecting }

/-- `write_frame(..).await?`: go on in `s`, or return the error. -/
def write (s : Channel) (u : Update) (written : Except Error Unit) : Channel × List Action :=
  match written with
  | .ok () => (s, [.update u])
  | .error e => ({ s with stage := .returned (.error e) }, [])

/-- Remember a failure and cancel the native tunnel. -/
def fail (s : Channel) (e : Error) : Channel × List Action :=
  ({ s with failure := some e }, [.cancel])

/-- A report without an error, of this transaction. -/
def observe (s : Channel) (reason : NetworkReason) (value : Option NetworkObservation)
    (written : Except Error Unit) : Channel × List Action :=
  match reason with
  | .attemptReconnect =>
    { s with reconnecting := true, connected := false, observation := none }.write .reconnecting
      written
  | .connect =>
    if !s.reconnecting then ({ s with observation := value }, [])
    else s.fail (workerError "Unexpected network lifecycle order")
  | .reconnect =>
    if s.reconnecting then ({ s with observation := value }, [])
    else s.fail (workerError "Unexpected network lifecycle order")
  | .disconnect | .preInit => (s, [])

section Observe

variable {s : Channel} {value : Option NetworkObservation} {written : Except Error Unit}

theorem observe_connect (h : s.reconnecting = false) :
    s.observe .connect value written = ({ s with observation := value }, []) := by
  simp [observe, h]

theorem observe_reconnect (h : s.reconnecting = true) :
    s.observe .reconnect value written = ({ s with observation := value }, []) := by
  simp [observe, h]

/-- A report out of order is a failure. -/
theorem observe_unexpected {reason : NetworkReason}
    (h : (reason = .connect ∧ s.reconnecting = true) ∨
      (reason = .reconnect ∧ s.reconnecting = false)) :
    s.observe reason value written = s.fail (workerError "Unexpected network lifecycle order") := by
  rcases h with ⟨rfl, h⟩ | ⟨rfl, h⟩ <;> simp [observe, h]

end Observe

/-- The branch of `select!` that reads a report. -/
def report (s : Channel) (item : Option (Except Error LifecycleReport))
    (written : Except Error Unit) : Channel × List Action :=
  match item with
  | none => s.fail (workerError "Network monitor stopped")
  | some (.error e) => s.fail e
  | some (.ok r) =>
    if r.transaction = s.transaction then
      match r.result with
      | .error e => s.fail e
      | .ok value => s.observe r.reason value written
    else s.fail (workerError "Network helper transaction mismatch")

/-- One native event. -/
def native (s : Channel) (event : TunnelEvent) (written : Except Error Unit) :
    Channel × List Action :=
  match event with
  | .statistics traffic tunReady transport =>
    { s with nativeReady := tunReady, transport }.write (.traffic traffic) written
  | .reconnected => ({ s with nativeReconnected := true }, [])
  | .finished result =>
    let result := match s.failure with
      | some e => .error e
      | none => result
    match written with
    | .ok () => ({ s with stage := .returned result }, [.update (.finished result false)])
    | .error e => ({ s with stage := .returned (.error e) }, [])

/-- Tell the supervisor that the tunnel is up, when it is. -/
def announce (s : Channel) (written : Except Error Unit) : Channel × List Action :=
  if !s.connected && s.failure.isNone && s.nativeReady && (!s.reconnecting || s.nativeReconnected)
  then match s.observation with
    | none => (s, [])
    | some network =>
      match written with
      | .ok () =>
        ({ s with
          observation := none, connected := true, reconnecting := false
          nativeReconnected := false },
          [.update (.connected { network with transport := s.transport })])
      | .error e => ({ s with observation := none, stage := .returned (.error e) }, [])
  else (s, [])

/-- The end of a round. -/
def conclude (s : Channel) (closed : Bool) (written : Except Error Unit) : Channel × List Action :=
  let (s, actions) := s.announce written
  match s.stage with
  | .returned _ => (s, actions)
  | _ =>
    if closed && s.failure.isNone then
      ({ s with failure := some (workerError "Network monitor stopped"), stage := .selecting },
        actions ++ [.cancel])
    else ({ s with stage := .selecting }, actions)

/-- Go on draining after a branch of `select!`, unless it returned. -/
def drain (r : Channel × List Action) : Channel × List Action :=
  match r.1.stage with
  | .returned _ => r
  | _ => ({ r.1 with stage := .draining }, r.2)

/-- One step. -/
def step (s : Channel) (input : Input) : Option (Channel × List Action) :=
  match s.stage, input with
  | .selecting, .tick => some (drain (s, [.requestStatistics]))
  | .selecting, .report item written => some (drain (s.report item written))
  | .draining, .native event written => some (s.native event written)
  | .draining, .nativeStopped e => some ({ s with stage := .returned (.error e) }, [])
  | .draining, .drained closed written => some (s.conclude closed written)
  | _, _ => none

end Channel

/-! ### Traces -/

/-- What happened in a run: an input was handled, or the loop did something. -/
inductive Entry where
  | handled (input : Input)
  | did (action : Action)

/-- **The loop of the worker**, with everything it handles and does. -/
def machine : Machine Channel Input Entry where
  init s := ∃ t, s = Channel.new t
  step s input := (s.step input).map fun (s', actions) =>
    (s', .handled input :: actions.map .did)

namespace Entry

/-- The reason and the value of a successful report of the transaction. -/
def observed (t : TransactionId) : Entry → Option (NetworkReason × Option NetworkObservation)
  | handled (.report (some (.ok ⟨t', reason, .ok value⟩)) _) =>
    if t' = t then some (reason, value) else none
  | _ => none

/-- The entry starts an epoch: a successful `AttemptReconnect` report. -/
def attempts (t : TransactionId) (e : Entry) : Bool :=
  match e.observed t with
  | some (.attemptReconnect, _) => true
  | _ => false

/-- The native tunnel reconnected. -/
def reconnects : Entry → Bool
  | handled (.native .reconnected _) => true
  | _ => false

end Entry

/-- What happened since the last `AttemptReconnect` report, or in the whole trace. -/
def epoch (t : TransactionId) (past : List Entry) : List Entry :=
  past.foldl (fun since e => if e.attempts t then [] else since ++ [e]) []

/-- The value of the last successful report with the reason. -/
def lastReport (t : TransactionId) (reason : NetworkReason) (past : List Entry) :
    Option (Option NetworkObservation) :=
  ((past.filterMap (Entry.observed t)).filter (·.1 = reason)).getLast?.map Prod.snd

section Traces

variable {t : TransactionId} {past : List Entry} {e : Entry} {reason : NetworkReason}

theorem epoch_append (h : e.attempts t = false) : epoch t (past ++ [e]) = epoch t past ++ [e] := by
  simp [epoch, List.foldl_append, h]

theorem lastReport_append (h : ∀ value, e.observed t ≠ some (reason, value)) :
    lastReport t reason (past ++ [e]) = lastReport t reason past := by
  unfold lastReport
  rw [List.filterMap_append, List.filter_append]
  suffices ([e].filterMap (Entry.observed t)).filter (·.1 = reason) = [] by
    rw [this, List.append_nil]
  cases ho : e.observed t with
  | none => simp [ho]
  | some r =>
    obtain ⟨reason', value⟩ := r
    have hne : reason' ≠ reason := fun heq => h value (by rw [ho, heq])
    simp [ho, hne]

theorem lastReport_observed {value : Option NetworkObservation}
    (h : e.observed t = some (reason, value)) :
    lastReport t reason (past ++ [e]) = some value := by
  unfold lastReport
  rw [List.filterMap_append, List.filter_append]
  simp [h]

theorem any_attempts_append :
    (past ++ [e]).any (Entry.attempts t) = (past.any (Entry.attempts t) || e.attempts t) := by
  simp

/-- An entry that is no successful report of the transaction starts no epoch. -/
theorem attempts_eq_false (h : e.observed t = none) : e.attempts t = false := by
  rw [Entry.attempts, h]

end Traces

/-! ### The invariant -/

/-- No native `Reconnected` event is left over when an epoch starts. -/
def Fresh (s : Channel) (input : Input) : Prop :=
  ∀ r value written, input = .report (some (.ok r)) written → r.transaction = s.transaction →
    r.reason = .attemptReconnect → r.result = .ok value → s.nativeReconnected = false

/-- What the flags of the loop say about the past. -/
structure Tracks (past : List Entry) (s : Channel) : Prop where
  /-- Within an epoch the loop is reconnecting until it is connected. -/
  attempted : past.any (Entry.attempts s.transaction) = true →
    s.reconnecting = true ∨ s.connected = true
  first : past.any (Entry.attempts s.transaction) = false → s.reconnecting = false
  connect : past.any (Entry.attempts s.transaction) = false → ∀ o, s.observation = some o →
    lastReport s.transaction .connect past = some (some o)
  reconnect : s.reconnecting = true → ∀ o, s.observation = some o →
    lastReport s.transaction .reconnect (epoch s.transaction past) = some (some o)
  native : s.reconnecting = true → s.nativeReconnected = true →
    (epoch s.transaction past).any Entry.reconnects = true

/-- The network reported after `past` is the one of the current epoch. -/
def Current (t : TransactionId) (past : List Entry) (network : NetworkObservation) : Prop :=
  (past.any (Entry.attempts t) = true →
    (epoch t past).any Entry.reconnects = true ∧ ∃ o transport,
      lastReport t .reconnect (epoch t past) = some (some o) ∧ network = { o with transport }) ∧
  (past.any (Entry.attempts t) = false → ∃ o transport,
    lastReport t .connect past = some (some o) ∧ network = { o with transport })

namespace Tracks

variable {past : List Entry} {s s' : Channel} {e : Entry}

theorem initial (t : TransactionId) : Tracks [] (.new t) :=
  ⟨by simp, by simp [Channel.new], by simp [Channel.new], by simp [Channel.new],
    by simp [Channel.new]⟩

/-- Entries that observe nothing do not matter. -/
theorem skip (h : Tracks past s) (he : e.observed s.transaction = none) :
    Tracks (past ++ [e]) s := by
  have hatt := attempts_eq_false he
  have hany : (past ++ [e]).any (Entry.attempts s.transaction) =
      past.any (Entry.attempts s.transaction) := by
    rw [any_attempts_append, hatt, Bool.or_false]
  have hlast {reason : NetworkReason} {past : List Entry} :
      lastReport s.transaction reason (past ++ [e]) = lastReport s.transaction reason past :=
    lastReport_append fun value hv => by rw [he] at hv; cases hv
  refine ⟨hany ▸ h.attempted, hany ▸ h.first, ?_, ?_, ?_⟩
  · rw [hany, hlast]
    exact h.connect
  · rw [epoch_append hatt, hlast]
    exact h.reconnect
  · intro hr hn
    rw [epoch_append hatt, List.any_append, h.native hr hn, Bool.true_or]

theorem skips {actions : List Action} (h : Tracks past s) :
    Tracks (past ++ actions.map .did) s := by
  induction actions generalizing past with
  | nil => simpa using h
  | cons a as ih =>
    have hskip : Tracks (past ++ [.did a]) s := h.skip rfl
    simpa using ih hskip

/-- Only the five flags matter. -/
theorem congr (h : Tracks past s) (ht : s'.transaction = s.transaction)
    (hr : s'.reconnecting = s.reconnecting) (hc : s'.connected = s.connected)
    (ho : s'.observation = s.observation) (hn : s'.nativeReconnected = s.nativeReconnected) :
    Tracks past s' := by
  refine ⟨?_, ?_, ?_, ?_, ?_⟩
  · rw [ht, hr, hc]
    exact h.attempted
  · rw [ht, hr]
    exact h.first
  · rw [ht, ho]
    exact h.connect
  · rw [ht, hr, ho]
    exact h.reconnect
  · rw [ht, hr, hn]
    exact h.native

/-- A report that starts no epoch leaves the facts about the epoch alone; what it says about the
observation is left to show. -/
theorem note (h : Tracks past s) (he : e.attempts s.transaction = false)
    (ht : s'.transaction = s.transaction) (hr : s'.reconnecting = s.reconnecting)
    (hc : s'.connected = s.connected) (hn : s'.nativeReconnected = s.nativeReconnected)
    (hconnect : s.reconnecting = false → ∀ o, s'.observation = some o →
      past.any (Entry.attempts s.transaction) = false →
      lastReport s.transaction .connect (past ++ [e]) = some (some o))
    (hreconnect : s.reconnecting = true → ∀ o, s'.observation = some o →
      lastReport s.transaction .reconnect (epoch s.transaction past ++ [e]) = some (some o)) :
    Tracks (past ++ [e]) s' := by
  have hany : (past ++ [e]).any (Entry.attempts s.transaction) =
      past.any (Entry.attempts s.transaction) := by
    rw [any_attempts_append, he, Bool.or_false]
  refine ⟨?_, ?_, ?_, ?_, ?_⟩
  · rw [ht, hany, hr, hc]
    exact h.attempted
  · rw [ht, hany, hr]
    exact h.first
  · rw [ht, hany]
    exact fun hnone o ho => hconnect (h.first hnone) o ho hnone
  · rw [ht, hr, epoch_append he]
    exact hreconnect
  · rw [ht, hr, hn, epoch_append he]
    intro hr hn
    rw [List.any_append, h.native hr hn, Bool.true_or]

/-- A successful report. -/
theorem observe {reason : NetworkReason} {value : Option NetworkObservation}
    {written : Except Error Unit} (h : Tracks past s)
    (he : e.observed s.transaction = some (reason, value))
    (hfresh : reason = .attemptReconnect → s.nativeReconnected = false) :
    Tracks (past ++ [e]) (s.observe reason value written).1 := by
  have hother {reason' : NetworkReason} (hne : reason' ≠ reason) (past : List Entry) :
      lastReport s.transaction reason' (past ++ [e]) = lastReport s.transaction reason' past :=
    lastReport_append fun v hv => by
      rw [he] at hv
      exact hne (Prod.mk.inj (Option.some.inj hv)).1.symm
  cases reason with
  | attemptReconnect =>
    have hatt : e.attempts s.transaction = true := by rw [Entry.attempts, he]
    have hany : (past ++ [e]).any (Entry.attempts s.transaction) = true := by
      rw [any_attempts_append, hatt, Bool.or_true]
    have hstart : Tracks (past ++ [e])
        { s with reconnecting := true, connected := false, observation := none } :=
      ⟨fun _ => .inl rfl, by simp [hany], by simp, by simp, by simp [hfresh rfl]⟩
    cases written with
    | ok _ => exact hstart
    | error e => exact hstart.congr rfl rfl rfl rfl rfl
  | connect =>
    have hatt : e.attempts s.transaction = false := by rw [Entry.attempts, he]
    cases hr : s.reconnecting with
    | false =>
      rw [Channel.observe_connect hr]
      refine h.note hatt rfl rfl rfl rfl (fun _ o ho _ => ?_) fun hr' => ?_
      · rw [lastReport_observed he]
        exact congrArg some ho
      · rw [hr] at hr'
        cases hr'
    | true =>
      rw [Channel.observe_unexpected (.inl ⟨rfl, hr⟩)]
      refine h.note hatt rfl rfl rfl rfl (fun hr' => ?_) fun hr' o ho => ?_
      · rw [hr] at hr'
        cases hr'
      · rw [hother (by decide)]
        exact h.reconnect hr' o ho
  | reconnect =>
    have hatt : e.attempts s.transaction = false := by rw [Entry.attempts, he]
    cases hr : s.reconnecting with
    | true =>
      rw [Channel.observe_reconnect hr]
      refine h.note hatt rfl rfl rfl rfl (fun hr' => ?_) fun _ o ho => ?_
      · rw [hr] at hr'
        cases hr'
      · rw [lastReport_observed he]
        exact congrArg some ho
    | false =>
      rw [Channel.observe_unexpected (.inr ⟨rfl, hr⟩)]
      refine h.note hatt rfl rfl rfl rfl (fun _ o ho hnone => ?_) fun hr' => ?_
      · rw [hother (by decide)]
        exact h.connect hnone o ho
      · rw [hr] at hr'
        cases hr'
  | preInit | disconnect =>
    have hatt : e.attempts s.transaction = false := by rw [Entry.attempts, he]
    refine h.note hatt rfl rfl rfl rfl (fun _ o ho hnone => ?_) fun hr o ho => ?_
    · rw [hother (by decide)]
      exact h.connect hnone o ho
    · rw [hother (by decide)]
      exact h.reconnect hr o ho

/-- The branch of `select!` that reads a report. -/
theorem report {item : Option (Except Error LifecycleReport)} {written : Except Error Unit}
    (h : Tracks past s) (hfresh : Fresh s (.report item written)) :
    Tracks (past ++ [.handled (.report item written)]) (s.report item written).1 := by
  have hfail {f : Error} (he : (Entry.handled (.report item written)).observed s.transaction = none) :
      Tracks (past ++ [.handled (.report item written)]) (s.fail f).1 :=
    (h.skip he).congr rfl rfl rfl rfl rfl
  cases item with
  | none => exact hfail rfl
  | some r =>
    cases r with
    | error e => exact hfail rfl
    | ok r =>
      obtain ⟨t, reason, result⟩ := r
      unfold Channel.report
      cases result with
      | error e =>
        simp only
        split_ifs <;> exact hfail rfl
      | ok value =>
        simp only
        split_ifs with ht
        · refine h.observe (by simp [Entry.observed, ht]) fun hreason => ?_
          exact hfresh _ value written rfl ht hreason rfl
        · exact hfail (by simp [Entry.observed, ht])

/-- A native event. -/
theorem nativeEvent {event : TunnelEvent} {written : Except Error Unit} (h : Tracks past s) :
    Tracks (past ++ [.handled (.native event written)]) (s.native event written).1 := by
  have hskip := h.skip (e := .handled (.native event written)) rfl
  cases event with
  | statistics traffic tunReady transport =>
    cases written <;> exact hskip.congr rfl rfl rfl rfl rfl
  | reconnected =>
    refine ⟨hskip.attempted, hskip.first, hskip.connect, hskip.reconnect, fun _ _ => ?_⟩
    have hatt : (Entry.handled (.native .reconnected written)).attempts s.transaction = false := rfl
    change (epoch s.transaction _).any Entry.reconnects = true
    rw [epoch_append hatt, List.any_append]
    simp [Entry.reconnects]
  | finished result => cases written <;> exact hskip.congr rfl rfl rfl rfl rfl

/-- The check at the end of a round. -/
theorem conclude {closed : Bool} {written : Except Error Unit} (h : Tracks past s) :
    Tracks past (s.conclude closed written).1 := by
  have hann : Tracks past (s.announce written).1 := by
    unfold Channel.announce
    split_ifs
    · cases ho : s.observation with
      | none => exact h
      | some network =>
        cases written with
        | ok _ => exact ⟨fun _ => .inr rfl, fun _ => rfl, by simp, by simp, by simp⟩
        | error e => exact ⟨h.attempted, h.first, by simp, by simp, h.native⟩
    · exact h
  unfold Channel.conclude
  dsimp only
  split
  · exact hann
  · split_ifs <;> exact hann.congr rfl rfl rfl rfl rfl

theorem drain {r : Channel × List Action} (h : Tracks past r.1) :
    Tracks past (Channel.drain r).1 := by
  unfold Channel.drain
  split
  · exact h
  · exact h.congr rfl rfl rfl rfl rfl

/-- Every step keeps the flags in line with the past. -/
theorem step {input : Input} {actions : List Action} (h : Tracks past s) (hfresh : Fresh s input)
    (hst : s.step input = some (s', actions)) : Tracks (past ++ [.handled input]) s' := by
  unfold Channel.step at hst
  split at hst
  · rw [← (Prod.mk.inj (Option.some.inj hst)).1]
    exact (h.skip rfl).drain
  · rw [← (Prod.mk.inj (Option.some.inj hst)).1]
    exact (h.report hfresh).drain
  · rw [← (Prod.mk.inj (Option.some.inj hst)).1]
    exact h.nativeEvent
  · rw [← (Prod.mk.inj (Option.some.inj hst)).1]
    exact (h.skip rfl).congr rfl rfl rfl rfl rfl
  · rw [← (Prod.mk.inj (Option.some.inj hst)).1]
    exact (h.skip rfl).conclude
  · cases hst

/-- A connected tunnel is the one of the current epoch. -/
theorem current {o : NetworkObservation} {transport : String} (h : Tracks past s)
    (hc : s.connected = false) (hn : s.reconnecting = false ∨ s.nativeReconnected = true)
    (ho : s.observation = some o) : Current s.transaction past { o with transport } := by
  refine ⟨fun hany => ?_, fun hnone => ⟨o, transport, h.connect hnone o ho, rfl⟩⟩
  have hr : s.reconnecting = true := (h.attempted hany).resolve_right (by simp [hc])
  have hn' : s.nativeReconnected = true := hn.resolve_left (by simp [hr])
  exact ⟨h.native hr hn', o, transport, h.reconnect hr o ho, rfl⟩

end Tracks

/-! ### What the loop reports -/

namespace Channel

variable {s s' : Channel} {input : Input} {actions : List Action} {network : NetworkObservation}

theorem announce_connected {written : Except Error Unit}
    (h : .update (.connected network) ∈ (s.announce written).2) :
    s.connected = false ∧ s.failure = none ∧
      (s.reconnecting = false ∨ s.nativeReconnected = true) ∧
      ∃ o, s.observation = some o ∧ network = { o with transport := s.transport } := by
  unfold announce at h
  split_ifs at h with hg
  · simp only [Bool.and_eq_true, Bool.not_eq_true', Option.isNone_iff_eq_none,
      Bool.or_eq_true] at hg
    obtain ⟨⟨⟨hc, hf⟩, -⟩, hn⟩ := hg
    cases ho : s.observation with
    | none => simp [ho] at h
    | some o =>
      cases written with
      | ok _ =>
        simp only [ho, List.mem_singleton, Action.update.injEq, Update.connected.injEq] at h
        exact ⟨hc, hf, hn, o, rfl, h⟩
      | error e => simp [ho] at h
  · cases h

@[simp] theorem drain_actions {r : Channel × List Action} : (drain r).2 = r.2 := by
  unfold drain
  split <;> rfl

theorem observe_connected {reason : NetworkReason} {value : Option NetworkObservation}
    {written : Except Error Unit} :
    .update (.connected network) ∉ (s.observe reason value written).2 := by
  unfold observe
  cases reason with
  | attemptReconnect => cases written <;> simp [write]
  | connect | reconnect =>
    dsimp only
    split_ifs <;> simp [fail]
  | preInit | disconnect => simp

theorem report_connected {item : Option (Except Error LifecycleReport)}
    {written : Except Error Unit} : .update (.connected network) ∉ (s.report item written).2 := by
  unfold report
  split
  · simp [fail]
  · simp [fail]
  · split_ifs
    · split
      · simp [fail]
      · exact observe_connected
    · simp [fail]

theorem native_connected {event : TunnelEvent} {written : Except Error Unit} :
    .update (.connected network) ∉ (s.native event written).2 := by
  cases event <;> cases written <;> simp [native, write]

theorem conclude_connected {closed : Bool} {written : Except Error Unit}
    (h : .update (.connected network) ∈ (s.conclude closed written).2) :
    .update (.connected network) ∈ (s.announce written).2 := by
  unfold conclude at h
  dsimp only at h
  split at h
  · exact h
  · split_ifs at h
    · simpa using h
    · exact h

/-- Only the check at the end of a round reports a connected tunnel. -/
theorem step_connected (hst : s.step input = some (s', actions))
    (h : .update (.connected network) ∈ actions) :
    (Entry.handled input).observed s.transaction = none ∧ s.connected = false ∧
      s.failure = none ∧ (s.reconnecting = false ∨ s.nativeReconnected = true) ∧
      ∃ o, s.observation = some o ∧ network = { o with transport := s.transport } := by
  unfold step at hst
  split at hst
  all_goals first
    | cases hst; done
    | have ha := congrArg Prod.snd (Option.some.inj hst)
      dsimp only at ha
      rw [← ha] at h
  · simp at h
  · rw [drain_actions] at h
    exact absurd h report_connected
  · exact absurd h native_connected
  · cases h
  · exact ⟨rfl, announce_connected (conclude_connected h)⟩

/-- The loop keeps its transaction and never forgets a failure. -/
structure Kept (s s' : Channel) : Prop where
  transaction : s'.transaction = s.transaction
  failure : s.failure.isSome = true → s'.failure.isSome = true

theorem kept_observe {reason : NetworkReason} {value : Option NetworkObservation}
    {written : Except Error Unit} : Kept s (s.observe reason value written).1 := by
  unfold observe
  cases reason with
  | attemptReconnect => cases written <;> exact ⟨rfl, id⟩
  | connect | reconnect =>
    dsimp only
    split_ifs
    · exact ⟨rfl, id⟩
    · exact ⟨rfl, fun _ => rfl⟩
  | preInit | disconnect => exact ⟨rfl, id⟩

theorem kept_report {item : Option (Except Error LifecycleReport)}
    {written : Except Error Unit} : Kept s (s.report item written).1 := by
  unfold report
  split
  · exact ⟨rfl, fun _ => rfl⟩
  · exact ⟨rfl, fun _ => rfl⟩
  · split_ifs
    · split
      · exact ⟨rfl, fun _ => rfl⟩
      · exact kept_observe
    · exact ⟨rfl, fun _ => rfl⟩

theorem kept_conclude {closed : Bool} {written : Except Error Unit} :
    Kept s (s.conclude closed written).1 := by
  have hann : Kept s (s.announce written).1 := by
    unfold announce
    split_ifs
    · split
      · exact ⟨rfl, id⟩
      · cases written <;> exact ⟨rfl, id⟩
    · exact ⟨rfl, id⟩
  unfold conclude
  dsimp only
  split
  · exact hann
  · split_ifs
    · exact ⟨hann.transaction, fun _ => rfl⟩
    · exact ⟨hann.transaction, hann.failure⟩

theorem kept_step (hst : s.step input = some (s', actions)) : Kept s s' := by
  have hdrain {r : Channel × List Action} (hr : Kept s r.1) : Kept s (drain r).1 := by
    unfold drain
    split
    · exact hr
    · exact ⟨hr.transaction, hr.failure⟩
  unfold step at hst
  split at hst
  all_goals first
    | cases hst; done
    | have hs := congrArg Prod.fst (Option.some.inj hst)
      dsimp only at hs
      rw [← hs]
  · exact hdrain ⟨rfl, id⟩
  · exact hdrain kept_report
  · rename_i event written _
    cases event <;> cases written <;> exact ⟨rfl, id⟩
  · exact ⟨rfl, id⟩
  · exact kept_conclude

/-! ### Runs -/

theorem machine_step {os : List Entry} (h : machine.step s input = some (s', os)) :
    ∃ actions, s.step input = some (s', actions) ∧
      os = .handled input :: actions.map .did := by
  obtain ⟨⟨t, actions⟩, hst, heq⟩ := Option.map_eq_some_iff.1 h
  obtain ⟨rfl, rfl⟩ := Prod.mk.inj heq
  exact ⟨actions, hst, rfl⟩

/-- A failed loop never reports a connected tunnel. -/
theorem failed_silent {os : List Entry} (hf : s.failure.isSome = true)
    (h : machine.Run (fun _ _ => True) s os s') :
    ∀ network, .did (.update (.connected network)) ∉ os := by
  refine (h.invariant (P := fun os s => s.failure.isSome = true ∧
    ∀ network, .did (.update (.connected network)) ∉ os) ⟨hf, by simp⟩ ?_).2
  rintro os s i s' new ⟨hf, hsilent⟩ - hrun
  obtain ⟨actions, hst, rfl⟩ := machine_step hrun
  refine ⟨(kept_step hst).failure hf, fun network hmem => ?_⟩
  rcases List.mem_append.1 hmem with hmem | hmem
  · exact hsilent network hmem
  · have hact : Action.update (.connected network) ∈ actions := by simpa using hmem
    rw [(step_connected hst hact).2.2.1] at hf
    cases hf

/-- **The worker reports `Connected` only for the current tunnel epoch.**  In a fresh run a report
that follows an `AttemptReconnect` follows, since the last one, a native `Reconnected` event and a
successful `Reconnect` report, and carries its observation; one before any `AttemptReconnect`
carries the observation of a `Connect` report; and none follows a failure. -/
theorem connected_current {s₀ s : Channel} {os : List Entry} (h₀ : machine.init s₀)
    (h : machine.Run Fresh s₀ os s) :
    (∀ past network rest, os = past ++ .did (.update (.connected network)) :: rest →
      Current s.transaction past network) ∧
    (s.failure.isSome = true → ∀ os' s', machine.Run (fun _ _ => True) s os' s' →
      ∀ network, .did (.update (.connected network)) ∉ os') := by
  obtain ⟨t, rfl⟩ := h₀
  refine ⟨?_, fun hf os' s' h' => failed_silent hf h'⟩
  refine (h.invariant (P := fun os s => Tracks os s ∧ ∀ past network rest,
    os = past ++ .did (.update (.connected network)) :: rest →
      Current s.transaction past network) ⟨.initial t, by simp⟩ ?_).2
  rintro os s i s' new ⟨htracks, hsent⟩ hfresh hrun
  obtain ⟨actions, hst, rfl⟩ := machine_step hrun
  have hkept := (kept_step hst).transaction
  refine ⟨?_, fun past network rest heq => ?_⟩
  · rw [List.append_cons]
    exact (htracks.step hfresh hst).skips
  rw [hkept]
  -- the report is old, or it is among the actions of this step
  rcases List.append_eq_append_iff.1 heq with ⟨mid, rfl, hmid⟩ | ⟨mid, rfl, hmid⟩
  · cases mid with
    | nil => simp at hmid
    | cons e mid =>
      obtain ⟨rfl, hmap⟩ := List.cons.inj (by simpa using hmid)
      obtain ⟨before, after, rfl, rfl, hafter⟩ := List.map_eq_append_iff.1 hmap
      obtain ⟨a, after, rfl, ha, -⟩ := List.map_eq_cons_iff.1 hafter
      obtain rfl := Entry.did.inj ha
      have hmem : Action.update (.connected network) ∈
          before ++ .update (.connected network) :: after :=
        List.mem_append_right _ List.mem_cons_self
      obtain ⟨hquiet, hc, -, hn, o, ho, rfl⟩ := step_connected hst hmem
      rw [List.append_cons]
      exact (htracks.skip hquiet).skips.current hc hn ho
  · cases mid with
    | nil => simp at hmid
    | cons e mid =>
      obtain ⟨rfl, -⟩ := List.cons.inj (by simpa using hmid)
      exact hsent past network mid rfl

/-! ### Two epochs -/

/-- A transaction and an observation of it. -/
def sampleTransaction : TransactionId := ⟨1, 2⟩

def sampleObservation (address : String) : NetworkObservation :=
  ⟨"tun0", [address], [], [], [], ""⟩

/-- A successful report of the transaction. -/
def sampleReport (reason : NetworkReason) (value : Option NetworkObservation) : Input :=
  .report (some (.ok ⟨sampleTransaction, reason, .ok value⟩)) (.ok ())

/-- The tunnel comes up, reconnects and comes up again. -/
def reconnectedInputs : List Input :=
  [sampleReport .connect (some (sampleObservation "10.0.0.1")),
    .native (.statistics {} true "udp") (.ok ()), .drained false (.ok ()),
    sampleReport .attemptReconnect none, .drained false (.ok ()),
    sampleReport .reconnect (some (sampleObservation "10.0.0.2")), .native .reconnected (.ok ()),
    .drained false (.ok ())]

theorem connected_current_reconnected : ∃ os s,
    machine.Run Fresh (.new sampleTransaction) os s ∧ os.length = 12 ∧
    (∀ past network rest, os = past ++ .did (.update (.connected network)) :: rest →
      Current s.transaction past network) ∧
    (s.failure.isSome = true → ∀ os' s', machine.Run (fun _ _ => True) s os' s' →
      ∀ network, .did (.update (.connected network)) ∉ os') := by
  have hother : ∀ i ∈ reconnectedInputs.take 3 ++ reconnectedInputs.drop 4, ∀ s, Fresh s i := by
    rintro i hi s r value written rfl - hreason -
    simp only [reconnectedInputs, sampleReport, List.take, List.drop, List.cons_append,
      List.nil_append, List.mem_cons, Input.report.injEq, Option.some.injEq, Except.ok.injEq,
      reduceCtorEq, List.not_mem_nil, or_false, false_or] at hi
    rcases hi with ⟨rfl, -⟩ | ⟨rfl, -⟩ <;> cases hreason
  have hfirst : machine.Run Fresh (.new sampleTransaction)
      ([] ++ machine.emitted (.new sampleTransaction) (reconnectedInputs.take 3))
      (machine.perform (.new sampleTransaction) (reconnectedInputs.take 3)) :=
    Machine.Run.refl.perform fun i hi => hother i (List.mem_append_left _ hi)
  have hrun := (hfirst.tail (i := sampleReport .attemptReconnect none)
    (fun _ _ _ _ _ _ _ => rfl) rfl).perform fun i hi => hother i (List.mem_append_right _ hi)
  exact ⟨_, _, hrun, rfl, connected_current ⟨sampleTransaction, rfl⟩ hrun⟩

/-- The tunnel reconnects natively before it is ready, and a second attempt follows: the tunnel
counts as connected before it reconnected natively again. -/
def leftoverInputs : List Input :=
  [sampleReport .attemptReconnect none, .native .reconnected (.ok ()), .drained false (.ok ()),
    sampleReport .attemptReconnect none, .drained false (.ok ()),
    sampleReport .reconnect (some (sampleObservation "10.0.0.2")),
    .native (.statistics {} true "udp") (.ok ()), .drained false (.ok ())]

theorem leftover_connects : ¬ ∀ (s₀ s : Channel) (os : List Entry), machine.init s₀ →
    machine.Run (fun _ _ => True) s₀ os s →
    ∀ past network rest, os = past ++ .did (.update (.connected network)) :: rest →
      Current s.transaction past network := by
  intro h
  have hrun : machine.Run (fun _ _ => True) (.new sampleTransaction)
      ([] ++ machine.emitted (.new sampleTransaction) leftoverInputs)
      (machine.perform (.new sampleTransaction) leftoverInputs) :=
    Machine.Run.refl.perform fun _ _ _ => trivial
  have hcur := (h _ _ _ ⟨sampleTransaction, rfl⟩ hrun
    (machine.emitted (.new sampleTransaction) leftoverInputs).dropLast
    { sampleObservation "10.0.0.2" with transport := "udp" } [] rfl).1 rfl
  exact absurd hcur.1 (by decide)

end Channel

end Ocvpn.Worker
