import Ocvpn.Daemon.Invariant

/-!
# The daemon and the published state machine

`ConnectionState::can_transition_to` publishes the transitions of a connection, but the daemon
assigns `snapshot.state` itself.  `Unlisted` lists its assignments that are not in the table, with
what causes them, as far as a step is `Orderly`: it handles no reconnect report of a worker before
its first connected report.

## Main results

* `System.state_changes` : every change of the state by an orderly step is in the table or
  `Unlisted`.
* `System.reservation_dropped` : a cancelled reservation leaves the table.
-/

namespace Ocvpn.Daemon

variable {Peer Handoff : Type}

/-- The states of an attempt that holds a worker and was not asked to stop. -/
def underway (s : ConnectionState) : Prop := s = .connecting ∨ s = .connected ∨ s = .reconnecting

/-- The first update that waits for attempt `k`. -/
def System.nextUpdate (s : System Peer Handoff) (k : ℕ) : Option Update :=
  s.attempts[k]?.bind (·.updates.head?)

/-- No reconnect report is handled while the session is connecting. -/
def System.Orderly (s : System Peer Handoff) (input : Input Peer Handoff) : Prop :=
  ∀ k session wall, input = .update k session wall → s.nextUpdate k = some .reconnecting →
    s.service.state.snapshot.state ≠ .connecting

/-- The changes of the state by orderly steps that the table does not list, with their causes. -/
inductive Unlisted (s s' : System Peer Handoff) :
    Input Peer Handoff → ConnectionState → ConnectionState → Prop
  /-- A reservation that was not started is dropped by its cancellation. -/
  | dropped (input : Input Peer Handoff) (slot : Slot Peer) :
      s.service.state.slot = some slot → slot.cancel = none → s'.service.state.slot = none →
      Unlisted s s' input .authenticating .disconnected
  /-- The attempt ends without an error although nobody cancelled it. -/
  | ended (k : ℕ) (session : Uuid) (wall : ℤ) (q : Bool) (state : ConnectionState) :
      s.nextUpdate k = some (.finished (.ok ()) q) → underway state →
      Unlisted s s' (.update k session wall) state .disconnected

namespace System

variable {s s' : System Peer Handoff} {input : Input Peer Handoff}

/-- A started slot is underway or disconnecting. -/
theorem underway_of_started (h : s.service.state.Coherent) {slot : Slot Peer} {k : ℕ}
    (hslot : s.service.state.slot = some slot) (hc : slot.cancel = some k) :
    underway s.service.state.snapshot.state ∨
      s.service.state.snapshot.state = .disconnecting := by
  have hidle : ¬ idle s.service.state.snapshot.state := fun hi => by
    rw [h.slot.2 hi] at hslot
    cases hslot
  have hauth : s.service.state.snapshot.state ≠ .authenticating := fun ha => by
    obtain ⟨slot', hslot', hc'⟩ := h.cancel.2 ha
    rw [hslot] at hslot'
    obtain rfl := Option.some.inj hslot'
    rw [hc] at hc'
    cases hc'
  revert hidle hauth
  cases s.service.state.snapshot.state <;> simp [idle, underway]

/-- Only an update can break the order. -/
theorem orderly_of_ne (h : ∀ k session wall, input ≠ .update k session wall) : Orderly s input :=
  fun k session wall heq => absurd heq (h k session wall)

/-- A cancellation leads to `disconnecting`, or drops a reservation. -/
theorem cancel_changes {v : Service Peer} (wall : ℤ) (h : v.state.Coherent) :
    (v.cancel wall).state.snapshot.state = v.state.snapshot.state ∨
      v.state.snapshot.state.canTransitionTo (v.cancel wall).state.snapshot.state = true ∨
      (∃ slot, v.state.slot = some slot ∧ slot.cancel = none) ∧
        (v.cancel wall).state.slot = none ∧ v.state.snapshot.state = .authenticating ∧
        (v.cancel wall).state.snapshot.state = .disconnected := by
  cases hslot : v.state.slot with
  | none => exact .inl (by rw [Service.cancel_eq_self hslot])
  | some slot =>
    rw [Service.cancel_eq_of_slot hslot, Service.publish_snapshot_state, Service.publish_slot,
      Service.cancelSlot]
    cases hc : slot.cancel with
    | none =>
      exact .inr (.inr ⟨⟨slot, rfl, hc⟩, rfl, h.cancel.1 ⟨slot, hslot, hc⟩, rfl⟩)
    | some channel =>
      have hidle : ¬ idle v.state.snapshot.state := fun hi => by
        rw [h.slot.2 hi] at hslot
        cases hslot
      revert hidle
      cases v.state.snapshot.state <;> simp [idle, ConnectionState.canTransitionTo]

/-- **The state changes of the daemon.**  In every reachable state every orderly step leaves the
state alone, makes a transition of the published table, or one of the `Unlisted` ones. -/
theorem state_changes [DecidableEq Peer] (setup : Service.Setup Peer Handoff)
    (s : System Peer Handoff) (h : (machine Peer setup).Reachable s) :
    ∀ input s' out, Orderly s input → System.step setup s input = some (s', out) →
      s'.service.state.snapshot.state = s.service.state.snapshot.state ∨
      s.service.state.snapshot.state.canTransitionTo s'.service.state.snapshot.state = true ∨
      Unlisted s s' input s.service.state.snapshot.state s'.service.state.snapshot.state := by
  intro input s' out horder hst
  have hinv := Inv.of_reachable h
  -- every cancellation, whoever asks for it
  have hcancel : ∀ {v : Service Peer} {wall : ℤ}, v.state.Coherent →
      v.state.slot = s.service.state.slot → v.state.snapshot = s.service.state.snapshot →
      s'.service = v.cancel wall →
      s'.service.state.snapshot.state = s.service.state.snapshot.state ∨
      s.service.state.snapshot.state.canTransitionTo s'.service.state.snapshot.state = true ∨
      Unlisted s s' input s.service.state.snapshot.state s'.service.state.snapshot.state := by
    intro v wall hv hslot hsnap heq
    rw [← hsnap, heq]
    rcases cancel_changes wall hv with hsame | hcan | ⟨⟨slot, hs, hc⟩, hnone, hold, hnew⟩
    · exact .inl hsame
    · exact .inr (.inl hcan)
    · rw [hold, hnew]
      exact .inr (.inr (.dropped input slot (hslot ▸ hs) hc (heq ▸ hnone)))
  have hm := move_of_step hinv.admin hst
  generalize hv : s'.service = v at hm
  generalize s'.attempts = attempts at hm
  generalize s'.issued = issued at hm
  cases hm with
  | still | supervise | stale | drained | join | renew | unblock => exact .inl rfl
  | cancel _ wall => exact hv ▸ hcancel hinv.coherent rfl rfl hv
  | stop _ wall =>
    have hstop : ({ s.service.state with stopping := true } : Session Peer).Coherent :=
      ⟨hinv.coherent.slot, hinv.coherent.cancel, hinv.coherent.owner, hinv.coherent.network,
        hinv.coherent.blocked, hinv.coherent.logs⟩
    exact hv ▸ hcancel (v := { s.service with state := { s.service.state with stopping := true } })
      hstop rfl rfl hv
  | reserve m peer c id name protocol _ _ hslot =>
    have hidle := hinv.coherent.slot.1 hslot
    refine .inr (.inl ?_)
    rw [Service.reserved, Service.publish_snapshot_state]
    rcases hidle with hi | hi | hi <;> rw [hi] <;> rfl
  | start m slot fresh hslot hc =>
    refine .inr (.inl ?_)
    rw [Service.started, Service.publish_snapshot_state, hinv.coherent.cancel.1 ⟨slot, hslot, hc⟩]
    rfl
  | update k a u rest session wall ha hw hu hh =>
    -- the attempt was started, so the state is underway
    obtain ⟨slot, hslot, hc⟩ := hinv.core.unresolved k a ha (.inl hw)
    have hstate := underway_of_started hinv.coherent hslot hc
    have hnext : s.nextUpdate k = some u := by simp [nextUpdate, ha, hu]
    cases u with
    | traffic counters => exact .inl (by simp [Service.update])
    | connected network =>
      rcases hstate with (hs | hs | hs) | hs <;>
        simp [Service.update, hs, ConnectionState.canTransitionTo]
    | reconnecting =>
      rcases hstate with (hs | hs | hs) | hs
      -- the report that `Orderly` keeps out
      · exact absurd hs (horder k session wall rfl hnext)
      all_goals simp [Service.update, hs, ConnectionState.canTransitionTo]
    | finished result q =>
      cases result with
      | ok u =>
        simp only [Service.update, Service.finished, Service.publish_snapshot_state]
        rcases hstate with hs | hs
        · exact .inr (.inr (.ended k session wall q _ hnext hs))
        · rw [hs]
          exact .inr (.inl rfl)
      | error e =>
        refine .inr (.inl ?_)
        simp only [Service.update, Service.finished, Service.publish_snapshot_state]
        by_cases he : e.code = .authenticationRequired
        · rcases hstate with (hs | hs | hs) | hs <;>
            simp [hs, he, ConnectionState.canTransitionTo]
        · rcases hstate with (hs | hs | hs) | hs <;>
            simp [hs, he, ConnectionState.canTransitionTo]
  | fail k a wall ha hw hrun hh =>
    obtain ⟨slot, hslot, hc⟩ := hinv.core.unresolved k a ha ((hinv.core.holds_iff_unresolved ha).1 hh)
    refine .inr (.inl ?_)
    rw [Service.supervisorFailed, Service.publish_snapshot_state]
    rcases underway_of_started hinv.coherent hslot hc with (hs | hs | hs) | hs <;> rw [hs] <;> rfl

/-- A peer reserves. -/
def reservedState : System ℕ String :=
  (machine ℕ sampleSetup).perform (start 1 none)
    [.accept 7, .read 0 ⟨1, .reserve 2 "work" "anyconnect"⟩, .dispatch 0 3 100,
      .read 0 ⟨4, .cancel 3⟩]

theorem reservedState_reachable : (machine ℕ sampleSetup).Reachable reservedState :=
  .trans (.initial ⟨1, none, rfl⟩) (Machine.reaches_perform _ _)

theorem state_changes_reserved : ∃ s' out,
    System.step sampleSetup reservedState (.dispatch 0 5 101) = some (s', out) ∧
      (s'.service.state.snapshot.state = reservedState.service.state.snapshot.state ∨
        reservedState.service.state.snapshot.state.canTransitionTo
          s'.service.state.snapshot.state = true ∨
        Unlisted reservedState s' (.dispatch 0 5 101) reservedState.service.state.snapshot.state
          s'.service.state.snapshot.state) :=
  ⟨_, _, rfl, state_changes sampleSetup reservedState reservedState_reachable _ _ _
    (orderly_of_ne (by simp)) rfl⟩

/-- Cancelling a reservation leads from `authenticating` to `disconnected`, which the table does not
allow. -/
theorem reservation_dropped : ¬ ∀ (s : System ℕ String), (machine ℕ sampleSetup).Reachable s →
    ∀ input s' out, System.step sampleSetup s input = some (s', out) →
      s'.service.state.snapshot.state = s.service.state.snapshot.state ∨
      s.service.state.snapshot.state.canTransitionTo s'.service.state.snapshot.state = true := by
  intro h
  have hst : ∃ s' out, System.step sampleSetup reservedState (.dispatch 0 5 101) = some (s', out) ∧
      reservedState.service.state.snapshot.state = .authenticating ∧
      s'.service.state.snapshot.state = .disconnected := ⟨_, _, rfl, by decide, by decide⟩
  obtain ⟨s', out, hst, hold, hnew⟩ := hst
  have hcase := h _ reservedState_reachable _ _ _ hst
  rw [hold, hnew] at hcase
  revert hcase
  decide

end System

end Ocvpn.Daemon
