import Ocvpn.Daemon.Transitions

/-!
# Attempts whose connection closes

The cleanup of a connection cancels the attempt it reserved when the state is still `early`.  A
reconnect report of the worker that overtakes its first connected report makes the state
`reconnecting`, and the cleanup then leaves the attempt alone.  A step is `Orderly` when it handles
no such report.

## Main results

* `System.unestablished_dies` : after orderly steps an attempt that was never connected dies with
  the connection that reserved it.
* `System.premature_reconnect_orphans` : without the condition it may become connected later.
-/

namespace Ocvpn.Daemon.System

variable {Peer Handoff : Type} [DecidableEq Peer] {s s' : System Peer Handoff}
  {setup : Service.Setup Peer Handoff} {input : Input Peer Handoff} {out : List (Output Peer)}
  {A : Uuid} {c : ℕ}

omit [DecidableEq Peer] in
/-- The step accepts a connected report of attempt `A`. -/
def Connects (A : Uuid) (s : System Peer Handoff) (input : Input Peer Handoff) : Prop :=
  ∃ k session wall network, input = .update k session wall ∧
    s.nextUpdate k = some (.connected network) ∧ s.attempts[k]?.map (·.id) = some A ∧
    s.service.holds A = true ∧ s.service.state.snapshot.state ≠ .disconnecting

omit [DecidableEq Peer] in
/-- The slot of `A` is gone, or the attempt is disconnecting and its cancellation was sent. -/
def Dead (A : Uuid) (s : System Peer Handoff) : Prop :=
  ∀ slot, s.service.state.slot = some slot → slot.attempt = A →
    s.service.state.snapshot.state = .disconnecting ∧
      ∃ k, slot.cancel = some k ∧ k ∈ s.service.cancelled

omit [DecidableEq Peer] in
/-- `A` was never connected, and connection `c` reserved it. -/
structure Pending (A : Uuid) (c : ℕ) (s : System Peer Handoff) : Prop where
  issued : A ∈ s.issued
  connection : ∀ slot, s.service.state.slot = some slot → slot.attempt = A → slot.connection = c
  state : ∀ slot, s.service.state.slot = some slot → slot.attempt = A →
    Service.early s.service.state.snapshot.state = true ∨
      (s.service.state.snapshot.state = .disconnecting ∧
        ∃ k, slot.cancel = some k ∧ k ∈ s.service.cancelled)

/-! ### What keeps an attempt dead -/

omit [DecidableEq Peer] in
/-- A cancellation leaves no attempt alive. -/
theorem cancel_dead {v : Service Peer} {wall : ℤ} {slot : Slot Peer}
    (h : (v.cancel wall).state.slot = some slot) :
    v.state.slot = some slot ∧ (v.cancel wall).state.snapshot.state = .disconnecting ∧
      ∃ k, slot.cancel = some k ∧ k ∈ (v.cancel wall).cancelled := by
  cases hslot : v.state.slot with
  | none =>
    rw [Service.cancel_eq_self hslot, hslot] at h
    cases h
  | some slot' =>
    rw [Service.cancel_eq_of_slot hslot, Service.publish_slot, Service.cancelSlot] at h
    rw [Service.cancel_eq_of_slot hslot, Service.publish_snapshot_state, Service.publish_cancelled,
      Service.cancelSlot]
    cases hc : slot'.cancel with
    | none => simp [hc] at h
    | some channel =>
      simp only [hc, hslot, Option.some.injEq] at h
      subst h
      exact ⟨rfl, rfl, channel, hc, by simp⟩

omit [DecidableEq Peer] in
theorem update_cancelled {v : Service Peer} {u : Update} {session : Uuid} {wall : ℤ} :
    (v.update u session wall).cancelled = v.cancelled := by
  cases u with
  | connected network =>
    unfold Service.update
    by_cases hd : v.state.snapshot.state = .disconnecting <;> simp [hd]
  | reconnecting =>
    unfold Service.update
    by_cases hd : v.state.snapshot.state = .disconnecting <;> simp [hd]
  | traffic counters => simp [Service.update]
  | finished result q => cases result <;> simp [Service.update, Service.finished]

omit [DecidableEq Peer] in
/-- An update does not lead out of `disconnecting` but by the end of the attempt. -/
theorem update_disconnecting {v : Service Peer} {u : Update} {session : Uuid} {wall : ℤ}
    (hu : u.isFinished = false) (hd : v.state.snapshot.state = .disconnecting) :
    (v.update u session wall).state.snapshot.state = .disconnecting := by
  cases u with
  | connected network => simp [Service.update, hd]
  | reconnecting => simp [Service.update, hd]
  | traffic counters => simp [Service.update, hd]
  | finished result q => cases hu

/-- An attempt that is dead stays dead. -/
theorem Dead.step (h : Dead A s) (hissued : A ∈ s.issued) (hinv : s.Inv)
    (hst : System.step setup s input = some (s', out)) : Dead A s' ∧ A ∈ s'.issued := by
  have hm := move_of_step hinv.admin hst
  unfold Dead at h ⊢
  generalize s'.service = v at hm ⊢
  generalize s'.attempts = attempts at hm
  generalize s'.issued = issued at hm ⊢
  cases hm with
  | still | supervise | stale | drained | join => exact ⟨h, hissued⟩
  | reserve m peer c id name protocol _ _ _ hfresh =>
    -- a new reservation draws a fresh identifier
    refine ⟨fun slot hslot hA => absurd hissued ?_, by simp [hissued]⟩
    rw [Service.reserved, Service.publish_slot] at hslot
    obtain rfl := Option.some.inj hslot
    exact hA ▸ hfresh
  | start m slot fresh hslot hc =>
    refine ⟨fun slot' hslot' hA => ?_, hissued⟩
    rw [Service.started, Service.publish_slot] at hslot'
    obtain rfl := Option.some.inj hslot'
    obtain ⟨-, k, hk, -⟩ := h slot hslot hA
    rw [hc] at hk
    cases hk
  | renew _ slot clock hslot =>
    refine ⟨fun slot' hslot' hA => ?_, hissued⟩
    obtain rfl := Option.some.inj hslot'
    exact h slot hslot hA
  | cancel _ wall => exact ⟨fun slot hslot _ => (cancel_dead hslot).2, hissued⟩
  | stop _ wall => exact ⟨fun slot hslot _ => (cancel_dead hslot).2, hissued⟩
  | unblock c hquiet =>
    refine ⟨fun slot hslot _ => ?_, hissued⟩
    change s.service.state.slot = some slot at hslot
    rw [hquiet.2.1] at hslot
    cases hslot
  | update k a u rest session wall ha hw hu hh =>
    refine ⟨fun slot hslot hA => ?_, hissued⟩
    cases hfin : u.isFinished with
    | true =>
      cases u with
      | finished r q =>
        rw [Service.update, Service.finished_slot] at hslot
        cases hslot
      | connected | reconnecting | traffic => cases hfin
    | false =>
      rw [(Service.update_frame _ session wall hfin).1] at hslot
      obtain ⟨hd, hk⟩ := h slot hslot hA
      exact ⟨update_disconnecting hfin hd, by rw [update_cancelled]; exact hk⟩
  | fail k a wall =>
    refine ⟨fun slot hslot _ => ?_, hissued⟩
    simp [Service.supervisorFailed] at hslot

/-! ### What keeps an attempt pending -/

/-- An orderly step that does not connect `A` keeps it pending. -/
theorem Pending.step (h : Pending A c s) (hinv : s.Inv) (horder : Orderly s input)
    (hconn : ¬ Connects A s input) (hst : System.step setup s input = some (s', out)) :
    Pending A c s' := by
  have hm := move_of_step hinv.admin hst
  suffices hgoal : A ∈ s'.issued ∧ ∀ slot, s'.service.state.slot = some slot → slot.attempt = A →
      slot.connection = c ∧ (Service.early s'.service.state.snapshot.state = true ∨
        (s'.service.state.snapshot.state = .disconnecting ∧
          ∃ k, slot.cancel = some k ∧ k ∈ s'.service.cancelled)) from
    ⟨hgoal.1, fun slot hs hA => (hgoal.2 slot hs hA).1, fun slot hs hA => (hgoal.2 slot hs hA).2⟩
  generalize s'.service = v at hm ⊢
  generalize s'.attempts = attempts at hm
  generalize s'.issued = issued at hm ⊢
  cases hm with
  | still | supervise | stale | drained | join =>
    exact ⟨h.issued, fun slot hs hA => ⟨h.connection slot hs hA, h.state slot hs hA⟩⟩
  | reserve m peer c' id name protocol _ _ _ hfresh =>
    refine ⟨by simp [h.issued], fun slot hslot hA => absurd h.issued ?_⟩
    rw [Service.reserved, Service.publish_slot] at hslot
    obtain rfl := Option.some.inj hslot
    exact hA ▸ hfresh
  | start m slot fresh hslot hc =>
    refine ⟨h.issued, fun slot' hslot' hA => ?_⟩
    rw [Service.started, Service.publish_slot] at hslot'
    obtain rfl := Option.some.inj hslot'
    refine ⟨h.connection slot hslot hA, .inl ?_⟩
    rw [Service.started, Service.publish_snapshot_state]
    rfl
  | renew _ slot clock hslot =>
    refine ⟨h.issued, fun slot' hslot' hA => ?_⟩
    obtain rfl := Option.some.inj hslot'
    exact ⟨h.connection slot hslot hA, h.state slot hslot hA⟩
  | cancel _ wall =>
    refine ⟨h.issued, fun slot hslot hA => ?_⟩
    obtain ⟨hold, hdead⟩ := cancel_dead hslot
    exact ⟨h.connection slot hold hA, .inr hdead⟩
  | stop _ wall =>
    refine ⟨h.issued, fun slot hslot hA => ?_⟩
    obtain ⟨hold, hdead⟩ := cancel_dead hslot
    exact ⟨h.connection slot hold hA, .inr hdead⟩
  | unblock c' hquiet =>
    refine ⟨h.issued, fun slot hslot _ => ?_⟩
    change s.service.state.slot = some slot at hslot
    rw [hquiet.2.1] at hslot
    cases hslot
  | update k a u rest session wall ha hw hu hh =>
    refine ⟨h.issued, fun slot hslot hA => ?_⟩
    cases hfin : u.isFinished with
    | true =>
      cases u with
      | finished r q =>
        rw [Service.update, Service.finished_slot] at hslot
        cases hslot
      | connected | reconnecting | traffic => cases hfin
    | false =>
      rw [(Service.update_frame _ session wall hfin).1] at hslot
      refine ⟨h.connection slot hslot hA, ?_⟩
      rw [update_cancelled]
      rcases h.state slot hslot hA with hearly | ⟨hd, hk⟩
      · -- only a report of `A` itself may change the state
        have hid : a.id = A := by
          obtain ⟨slot', hslot', hid⟩ := Service.holds_iff.1 hh
          rw [hslot] at hslot'
          rw [← hid, ← Option.some.inj hslot', hA]
        obtain ⟨slot', hslot', hc⟩ := hinv.core.unresolved k a ha (.inl hw)
        have hconnecting : s.service.state.snapshot.state = .connecting := by
          rcases underway_of_started hinv.coherent hslot' hc with (hs | hs | hs) | hs
          · exact hs
          all_goals simp [Service.early, hs] at hearly
        cases u with
        | connected network =>
          refine absurd ⟨k, session, wall, network, rfl, by simp [nextUpdate, ha, hu],
            by simp [ha, hid], hid ▸ hh, by simp [hconnecting]⟩ hconn
        | reconnecting =>
          exact absurd hconnecting (horder k session wall rfl (by simp [nextUpdate, ha, hu]))
        | traffic counters => exact .inl (by simpa [Service.update] using hearly)
        | finished r q => cases hfin
      · exact .inr ⟨update_disconnecting hfin hd, hk⟩
  | fail k a wall =>
    refine ⟨h.issued, fun slot hslot _ => ?_⟩
    simp [Service.supervisorFailed] at hslot

/-! ### The close -/

/-- The cleanup of a connection. -/
theorem step_cleanup {wall : ℤ} (hst : System.step setup s (.cleanup c wall) = some (s', out)) :
    s'.service = cleanup s.service c wall ∧ s'.issued = s.issued := by
  unfold System.step at hst
  by_cases hmain : s.main = .exited
  · rw [if_pos hmain] at hst
    cases hst
  rw [if_neg hmain] at hst
  dsimp only at hst
  unfold connection at hst
  cases hc : s.connections[c]? with
  | none => simp [hc] at hst
  | some conn =>
    obtain ⟨peer, phase⟩ := conn
    rw [hc] at hst
    cases phase with
    | returned =>
      simp only [Option.some.injEq, Prod.mk.injEq] at hst
      rw [← hst.1]
      exact ⟨rfl, rfl⟩
    | quiescing stage id =>
      cases stage <;> simp [quiesce] at hst
    | reading | requested | following | received | closed => simp at hst

/-- The cleanup kills a pending attempt of its connection. -/
theorem Pending.cleanup {wall : ℤ} (h : Pending A c s)
    (hst : System.step setup s (.cleanup c wall) = some (s', out)) :
    Dead A s' ∧ A ∈ s'.issued := by
  obtain ⟨hservice, hissued⟩ := step_cleanup hst
  refine ⟨fun slot hslot hA => ?_, hissued ▸ h.issued⟩
  rw [hservice] at hslot ⊢
  unfold System.cleanup at hslot ⊢
  split at hslot
  · next hcond =>
    rw [if_pos hcond]
    exact (cancel_dead hslot).2
  · next hcond =>
    rw [if_neg hcond]
    rcases h.state slot hslot hA with hearly | hdead
    · refine absurd ?_ hcond
      simp [hslot, h.connection slot hslot hA, hearly]
    · exact hdead

/-- The reply of a granted reservation. -/
def Reserves (c : ℕ) (A : Uuid) (out : List (Output Peer)) : Prop :=
  ∃ peer id, ⟨c, peer, .response ⟨id, .ok (.reserved A)⟩⟩ ∈ out

/-- A request that is dispatched. -/
theorem step_dispatch {fresh : Uuid} {wall : ℤ}
    (hst : System.step setup s (.dispatch c fresh wall) = some (s', out)) :
    ∃ peer cursor request, s.connections[c]? = some ⟨peer, .requested cursor request⟩ ∧
      fresh ∉ s.issued ∧ s.dispatchRequest setup c cursor peer request fresh wall = (s', out) := by
  unfold System.step at hst
  by_cases hmain : s.main = .exited
  · rw [if_pos hmain] at hst
    cases hst
  rw [if_neg hmain] at hst
  dsimp only at hst
  unfold connection at hst
  cases hc : s.connections[c]? with
  | none => simp [hc] at hst
  | some conn =>
    obtain ⟨peer, phase⟩ := conn
    rw [hc] at hst
    cases phase with
    | requested cursor request =>
      dsimp only at hst
      split_ifs at hst with hguard
      exact ⟨peer, cursor, request, rfl, fun h => hguard (.inr h), Option.some.inj hst⟩
    | quiescing stage id => cases stage <;> simp [quiesce] at hst
    | reading | returned | following | received | closed => simp at hst

/-- Only a granted reservation answers with an attempt. -/
theorem dispatch_reserved {v v' : Service Peer} {m : Service.Moment} {peer : Peer}
    {method : Method Handoff} (h : dispatch setup v m peer c method = .ok (.reserved A, v')) :
    ∃ id name protocol, method = .reserve id name protocol ∧ A = m.fresh ∧
      v' = v.reserved m peer c id name protocol := by
  unfold dispatch at h
  cases ha : v.state.authorize peer with
  | error e => simp [ha] at h
  | ok u =>
    simp only [ha] at h
    cases method with
    | reserve id name protocol =>
      obtain ⟨-, -, -, hfresh, rfl⟩ := Service.reserve_eq_ok h
      exact ⟨id, name, protocol, rfl, Payload.reserved.inj hfresh, rfl⟩
    | start id handoff =>
      obtain ⟨slot, -, -, -, -, -, hpay, -⟩ := Service.start_eq_ok h
      cases hpay
    | authProgress id =>
      obtain ⟨slot, -, hpay, -⟩ := Service.authProgress_eq_ok h
      cases hpay
    | cancel id =>
      obtain ⟨hpay, -⟩ := Service.cancelAttempt_eq_ok h
      cases hpay
    | disconnect =>
      obtain ⟨hpay, -⟩ := Service.disconnect_eq_ok h
      cases hpay
    | capabilities | snapshot | subscribe | logs | adminQuiesce => cases h

/-- A granted reservation is pending. -/
theorem pending_of_reserves {fresh : Uuid} {wall : ℤ}
    (hst : System.step setup s (.dispatch c fresh wall) = some (s', out))
    (hout : Reserves c A out) : Pending A c s' := by
  obtain ⟨peer, cursor, request, -, -, hreq⟩ := step_dispatch hst
  obtain ⟨peer', id', hmem⟩ := hout
  unfold dispatchRequest answer at hreq
  set m : Service.Moment := ⟨s.clock, wall, fresh, s.attempts.length⟩ with hm
  cases hd : Daemon.dispatch setup s.service m peer c request.method with
  | error e =>
    simp only [hd, Prod.mk.injEq] at hreq
    simp [← hreq.2] at hmem
  | ok granted =>
    obtain ⟨payload, service⟩ := granted
    simp only [hd, Prod.mk.injEq] at hreq
    obtain ⟨rfl, rfl⟩ := hreq
    obtain rfl : payload = .reserved A := by
      simp only [List.mem_singleton, Output.mk.injEq, Message.response.injEq,
        Response.mk.injEq, Except.ok.injEq] at hmem
      exact hmem.2.2.2.symm
    obtain ⟨id, name, protocol, hmethod, rfl, rfl⟩ := dispatch_reserved hd
    refine ⟨by simp [hmethod, issuedBy, hm], fun slot hslot _ => ?_, fun slot _ _ => .inl rfl⟩
    have hslot' : some _ = some slot := hslot
    exact Option.some.inj hslot' ▸ rfl

/-- **An attempt that was never established dies with its connection.**  Connection `c` reserves
`A`, and closes before a connected report of `A` was accepted: then the slot of `A` is gone or
disconnecting with its cancellation sent, and `A` is never connected afterwards. -/
theorem unestablished_dies (setup : Service.Setup Peer Handoff)
    {s₀ s₁ s₂ s₃ s₄ : System Peer Handoff} {c : ℕ} {A fresh : Uuid} {wall wall' : ℤ}
    {out out' : List (Output Peer)} (h₀ : (machine Peer setup).init s₀)
    (h₁ : (machine Peer setup).Reaches s₀ s₁)
    (hreserve : System.step setup s₁ (.dispatch c fresh wall) = some (s₂, out))
    (hout : Reserves c A out)
    (h₂ : (machine Peer setup).ReachesBy (fun s i => Orderly s i ∧ ¬ Connects A s i) s₂ s₃)
    (hclose : System.step setup s₃ (.cleanup c wall') = some (s₄, out')) :
    Dead A s₄ ∧ ∀ s₅, (machine Peer setup).Reaches s₄ s₅ →
      Dead A s₅ ∧ (s₅.service.holds A = true →
        s₅.service.state.snapshot.state ≠ .connected) := by
  have hinv₂ : s₂.Inv := (Inv.of_reachable (.trans (.initial h₀) h₁)).step hreserve
  obtain ⟨hinv₃, hpending⟩ := h₂.preserves
    (P := fun s => s.Inv ∧ Pending A c s) ⟨hinv₂, pending_of_reserves hreserve hout⟩
    fun s i s' o hs hp hst => ⟨hs.1.step hst, hs.2.step hs.1 hp.1 hp.2 hst⟩
  have hdead := hpending.cleanup hclose
  refine ⟨hdead.1, fun s₅ h₅ => ?_⟩
  obtain ⟨-, hdead₅, -⟩ := h₅.preserves
    (P := fun s => s.Inv ∧ Dead A s ∧ A ∈ s.issued) ⟨hinv₃.step hclose, hdead⟩
    fun s i s' o hs hst => ⟨hs.1.step hst, hs.2.1.step hs.2.2 hs.1 hst⟩
  refine ⟨hdead₅, fun hh hcon => ?_⟩
  obtain ⟨slot, hslot, hA⟩ := Service.holds_iff.1 hh
  rw [(hdead₅ slot hslot hA).1] at hcon
  cases hcon

/-! ### Runs -/

/-- Only an update connects. -/
theorem not_connects {s : System ℕ String} {input : Input ℕ String}
    (h : ∀ k session wall, input ≠ .update k session wall) : ¬ Connects A s input := by
  rintro ⟨k, session, wall, -, rfl, -⟩
  exact h k session wall rfl

/-- A request of peer 7 is read. -/
def requestedState : System ℕ String :=
  (machine ℕ sampleSetup).perform (start 1 none)
    [.accept 7, .read 0 ⟨1, .reserve 2 "work" "anyconnect"⟩]

theorem requestedState_reached : (machine ℕ sampleSetup).Reaches (start 1 none) requestedState :=
  Machine.reaches_perform _ _

/-- The connection of a reservation closes before its start. -/
theorem unestablished_dies_reserved : ∃ s₂ s₃ s₄ out out',
    System.step sampleSetup requestedState (.dispatch 0 3 100) = some (s₂, out) ∧
    System.step sampleSetup s₃ (.cleanup 0 101) = some (s₄, out') ∧
    Dead 3 s₄ ∧ ∀ s₅, (machine ℕ sampleSetup).Reaches s₄ s₅ →
      Dead 3 s₅ ∧ (s₅.service.holds 3 = true →
        s₅.service.state.snapshot.state ≠ .connected) := by
  obtain ⟨s₂, out, h₂, hout, s₃, h₃, s₄, out', h₄⟩ : ∃ s₂ out,
      System.step sampleSetup requestedState (.dispatch 0 3 100) = some (s₂, out) ∧
      Reserves 0 3 out ∧ ∃ s₃,
        (machine ℕ sampleSetup).ReachesBy (fun s i => Orderly s i ∧ ¬ Connects 3 s i) s₂ s₃ ∧
      ∃ s₄ out', System.step sampleSetup s₃ (.cleanup 0 101) = some (s₄, out') :=
    ⟨_, _, rfl, ⟨7, 1, by decide⟩, _, .head (i := .hangUp 0) (o := []) rfl
      ⟨orderly_of_ne (by simp), not_connects (by simp)⟩ .refl, _, _, rfl⟩
  exact ⟨s₂, s₃, s₄, out, out', h₂, h₄, unestablished_dies sampleSetup ⟨1, none, rfl⟩
    requestedState_reached h₂ hout h₃ h₄⟩

/-- The worker reports a reconnect before its first connection, the connection closes, and the
worker's connection comes up afterwards. -/
theorem premature_reconnect_orphans : ¬ ∀ (s₀ s₁ s₂ s₃ s₄ : System ℕ String) (c : ℕ) (A fresh : Uuid)
    (wall wall' : ℤ) (out out' : List (Output ℕ)), (machine ℕ sampleSetup).init s₀ →
    (machine ℕ sampleSetup).Reaches s₀ s₁ →
    System.step sampleSetup s₁ (.dispatch c fresh wall) = some (s₂, out) → Reserves c A out →
    (machine ℕ sampleSetup).ReachesBy (fun s i => ¬ Connects A s i) s₂ s₃ →
    System.step sampleSetup s₃ (.cleanup c wall') = some (s₄, out') →
    Dead A s₄ ∧ ∀ s₅, (machine ℕ sampleSetup).Reaches s₄ s₅ →
      Dead A s₅ ∧ (s₅.service.holds A = true →
        s₅.service.state.snapshot.state ≠ .connected) := by
  intro h
  have hupdate : ∀ {s : System ℕ String}, s.nextUpdate 0 = some .reconnecting →
      ¬ Connects 3 s (.update 0 6 103) := by
    rintro s hs ⟨k, _, _, network, heq, hk, -⟩
    obtain ⟨rfl, -, -⟩ := Input.update.inj heq
    rw [hs] at hk
    cases hk
  obtain ⟨s₂, out, h₂, hout, s₃, h₃, s₄, out', h₄, s₅, h₅, hheld, hconnected⟩ : ∃ s₂ out,
      System.step sampleSetup requestedState (.dispatch 0 3 100) = some (s₂, out) ∧
      Reserves 0 3 out ∧
      ∃ s₃, (machine ℕ sampleSetup).ReachesBy (fun s i => ¬ Connects 3 s i) s₂ s₃ ∧
      ∃ s₄ out', System.step sampleSetup s₃ (.cleanup 0 104) = some (s₄, out') ∧
      ∃ s₅, (machine ℕ sampleSetup).Reaches s₄ s₅ ∧ s₅.service.holds 3 = true ∧
        s₅.service.state.snapshot.state = .connected := by
    refine ⟨_, _, rfl, ⟨7, 1, by decide⟩, _,
      .head (i := .read 0 ⟨4, .start 3 "anyconnect"⟩) (o := []) rfl (not_connects (by simp)) <|
      .head (i := .dispatch 0 5 101) rfl (not_connects (by simp)) <|
      .head (i := .supervise 0 .spawned) (o := []) rfl (not_connects (by simp)) <|
      .head (i := .supervise 0 .handoffWritten) (o := []) rfl (not_connects (by simp)) <|
      .head (i := .supervise 0 (.worker (some .reconnecting))) (o := []) rfl
        (not_connects (by simp)) <|
      .head (i := .update 0 6 103) (o := []) rfl (hupdate rfl) <|
      .head (i := .hangUp 0) (o := []) rfl (not_connects (by simp)) .refl,
      _, _, rfl, _, Machine.reaches_perform _
        [.supervise 0 (.worker (some (.connected ⟨"tun0", [], [], [], [], "DTLS"⟩))),
          .update 0 7 105], by decide, by decide⟩
  obtain ⟨-, hdead⟩ := h _ _ _ _ _ 0 3 3 100 104 _ _ ⟨1, none, rfl⟩ requestedState_reached
    h₂ hout h₃ h₄
  exact (hdead s₅ h₅).2 hheld hconnected

end Ocvpn.Daemon.System
