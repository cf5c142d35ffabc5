import Ocvpn.Daemon.System

/-!
# What a step of the daemon can do

A step changes the service, the attempts and the issued identifiers in one of a few ways, whatever
the tasks around them do.  `Move` lists these ways with their guards and `System.move_of_step`
reads them off the step function, once; the invariants of the session are proved by cases on
`Move`.

The guard of `Move.unblock` is not read off the step: it is what the call of `quiesce` established
before its recovery, carried by `System.Admin`.
-/

namespace Ocvpn.Daemon

variable {Peer Handoff : Type}

namespace System

variable {s s' : System Peer Handoff} {c : ℕ} {phase : Phase Peer Handoff}

@[simp] theorem setPhase_service : (s.setPhase c phase).service = s.service := rfl
@[simp] theorem setPhase_attempts : (s.setPhase c phase).attempts = s.attempts := rfl
@[simp] theorem setPhase_issued : (s.setPhase c phase).issued = s.issued := rfl
@[simp] theorem setPhase_recovery : (s.setPhase c phase).recovery = s.recovery := rfl
@[simp] theorem setPhase_main : (s.setPhase c phase).main = s.main := rfl

theorem mem_connections {conn : Connection Peer Handoff} (h : s.connections[c]? = some conn) :
    conn ∈ s.connections :=
  List.mem_of_getElem? h

@[simp] theorem release_service : (s.release c).service = s.service := by
  unfold release; split_ifs <;> rfl
@[simp] theorem release_attempts : (s.release c).attempts = s.attempts := by
  unfold release; split_ifs <;> rfl
@[simp] theorem release_issued : (s.release c).issued = s.issued := by
  unfold release; split_ifs <;> rfl
@[simp] theorem release_connections : (s.release c).connections = s.connections := by
  unfold release; split_ifs <;> rfl

/-- Releasing gives up the mutex of the call, and nothing else. -/
theorem release_recovery :
    (s.release c).recovery = if s.recovery = some (.call c) then none else s.recovery := by
  unfold release; split_ifs <;> rfl

end System

/-! ### The dispatch -/

namespace Service

variable {v v' : Service Peer} {m : Moment} {peer : Peer} {c : ℕ} {method : Method Handoff}
  {setup : Setup Peer Handoff} {payload : Payload}

theorem reserve_eq_ok {id : Uuid} {name protocol : String}
    (h : v.reserve setup m peer c id name protocol = .ok (payload, v')) :
    v.state.stopping = false ∧ v.state.recoveryBlocked = false ∧ v.state.slot = none ∧
      payload = .reserved m.fresh ∧ v' = v.reserved m peer c id name protocol := by
  unfold reserve at h
  split_ifs at h with h1 h2 h3
  simp only [Except.ok.injEq, Prod.mk.injEq] at h
  simp only [Bool.not_eq_true, Option.isSome_eq_false_iff, Option.isNone_iff_eq_none] at h1 h2 h3
  exact ⟨h1, h2, h3, h.1.symm, h.2.symm⟩

theorem start_eq_ok {id : Uuid} {handoff : Handoff}
    (h : v.start setup m c id handoff = .ok (payload, v')) :
    ∃ slot, v.state.slot = some slot ∧ slot.attempt = id ∧ slot.connection = c ∧
      slot.cancel = none ∧ m.clock - slot.lease < leaseSeconds ∧ payload = .accepted ∧
        v' = v.started m slot := by
  unfold start at h
  cases hslot : v.state.slot with
  | none => simp only [hslot, reduceCtorEq] at h
  | some slot =>
    simp only [hslot] at h
    split_ifs at h with h1 h2
    simp only [not_or, not_not, Bool.not_eq_true, Option.isSome_eq_false_iff,
      Option.isNone_iff_eq_none, Nat.not_le] at h1
    cases hv : setup.validate handoff setup.capabilities.protocols m.wall with
    | error e => simp only [hv, reduceCtorEq] at h
    | ok _ =>
      simp only [hv, Except.ok.injEq, Prod.mk.injEq] at h
      exact ⟨slot, rfl, h1.1, h1.2.1, h1.2.2.1, h1.2.2.2, h.1.symm, h.2.symm⟩

theorem authProgress_eq_ok {id : Uuid} (h : v.authProgress m c id = .ok (payload, v')) :
    ∃ slot, v.state.slot = some slot ∧ payload = .accepted ∧
      v' = { v with state := { v.state with slot := some { slot with lease := m.clock } } } := by
  unfold authProgress at h
  split_ifs at h with h1
  cases hslot : v.state.slot with
  | none => simp only [hslot, reduceCtorEq] at h
  | some slot =>
    simp only [hslot] at h
    split_ifs at h
    simp only [Except.ok.injEq, Prod.mk.injEq] at h
    exact ⟨slot, rfl, h.1.symm, h.2.symm⟩

theorem cancelAttempt_eq_ok {id : Uuid} (h : v.cancelAttempt m id = .ok (payload, v')) :
    payload = .accepted ∧ v' = v.cancel m.wall := by
  unfold cancelAttempt at h
  split_ifs at h
  simp only [Except.ok.injEq, Prod.mk.injEq] at h
  exact ⟨h.1.symm, h.2.symm⟩

theorem disconnect_eq_ok (h : v.disconnect m c = .ok (payload, v')) :
    payload = .accepted ∧ v' = v.cancel m.wall := by
  unfold disconnect at h
  split_ifs at h
  simp only [Except.ok.injEq, Prod.mk.injEq] at h
  exact ⟨h.1.symm, h.2.symm⟩

end Service

variable [DecidableEq Peer]

theorem authorize_eq_ok {s : Session Peer} {peer : Peer} :
    s.authorize peer = .ok () ↔ ∀ slot, s.slot = some slot → slot.owner = peer := by
  unfold Session.authorize
  cases h : s.slot with
  | none => simp
  | some slot => by_cases ho : slot.owner = peer <;> simp [ho]

/-- What a granted request does to the service. -/
theorem dispatch_eq_ok {setup : Service.Setup Peer Handoff} {v v' : Service Peer}
    {m : Service.Moment} {peer : Peer} {c : ℕ} {method : Method Handoff} {payload : Payload}
    (h : dispatch setup v m peer c method = .ok (payload, v')) :
    v.state.authorize peer = .ok () ∧
    (((∀ id name protocol, method ≠ .reserve id name protocol) ∧
        (∀ id handoff, method ≠ .start id handoff) ∧
        (v' = v ∨ v' = v.cancel m.wall ∨ ∃ slot, v.state.slot = some slot ∧
          v' = { v with state := { v.state with slot := some { slot with lease := m.clock } } })) ∨
      (∃ id name protocol, method = .reserve id name protocol ∧
        v.reserve setup m peer c id name protocol = .ok (payload, v')) ∨
      ∃ id handoff, method = .start id handoff ∧
        v.start setup m c id handoff = .ok (payload, v')) := by
  unfold dispatch at h
  cases ha : v.state.authorize peer with
  | error e => simp only [ha, reduceCtorEq] at h
  | ok _ =>
    simp only [ha] at h
    refine ⟨rfl, ?_⟩
    cases method with
    | capabilities | snapshot | subscribe | logs =>
      simp only [Except.ok.injEq, Prod.mk.injEq] at h
      exact .inl ⟨by simp, by simp, .inl h.2.symm⟩
    | reserve id name protocol => exact .inr (.inl ⟨id, name, protocol, rfl, h⟩)
    | start id handoff => exact .inr (.inr ⟨id, handoff, rfl, h⟩)
    | authProgress id =>
      obtain ⟨slot, hslot, -, hv⟩ := Service.authProgress_eq_ok h
      exact .inl ⟨by simp, by simp, .inr (.inr ⟨slot, hslot, hv⟩)⟩
    | cancel id =>
      exact .inl ⟨by simp, by simp, .inr (.inl (Service.cancelAttempt_eq_ok h).2)⟩
    | disconnect => exact .inl ⟨by simp, by simp, .inr (.inl (Service.disconnect_eq_ok h).2)⟩
    | adminQuiesce => cases h

/-- A granted request for a snapshot. -/
theorem dispatch_visible {setup : Service.Setup Peer Handoff}
    {v v' : Service Peer} {m : Service.Moment} {peer : Peer} {c : ℕ} {method : Method Handoff}
    {payload : Payload} (h : dispatch setup v m peer c method = .ok (payload, v'))
    (hm : method = .snapshot ∨ method = .subscribe) :
    payload = .snapshot (v.state.visible peer) ∧ v' = v := by
  unfold dispatch at h
  cases ha : v.state.authorize peer with
  | error e => simp only [ha, reduceCtorEq] at h
  | ok _ =>
    rcases hm with rfl | rfl <;>
    · simp only [ha, Except.ok.injEq, Prod.mk.injEq] at h
      exact ⟨h.1.symm, h.2.symm⟩

/-! ### The moves -/

/-- The session is stopped for good, and no worker can be left behind. -/
def Session.Quiet (s : Session Peer) : Prop :=
  s.stopping = true ∧ s.slot = none ∧ s.quiescenceBlocked = false

/-- What a step does to the service, the attempts and the issued identifiers. -/
inductive Move (s : System Peer Handoff) :
    Input Peer Handoff → Service Peer → List (Attempt Peer) → List Uuid → Prop
  | still (i : Input Peer Handoff) : Move s i s.service s.attempts s.issued
  | reserve (m : Service.Moment) (peer : Peer) (c : ℕ) (id : Uuid) (name protocol : String) :
      s.service.state.stopping = false → s.service.state.recoveryBlocked = false →
      s.service.state.slot = none → m.fresh ∉ s.issued →
      Move s (.dispatch c m.fresh m.wall) (s.service.reserved m peer c id name protocol) s.attempts
        (s.issued ++ [m.fresh])
  | start (m : Service.Moment) (slot : Slot Peer) (fresh : Uuid) :
      s.service.state.slot = some slot → slot.cancel = none → m.next = s.attempts.length →
      Move s (.dispatch slot.connection fresh m.wall) (s.service.started m slot)
        (s.attempts ++ [{ id := slot.attempt, owner := slot.owner, supervisor := .new,
                          updates := [], watch := .looping }]) s.issued
  | renew (i : Input Peer Handoff) (slot : Slot Peer) (clock : ℕ) :
      s.service.state.slot = some slot →
      Move s i { s.service with
        state := { s.service.state with slot := some { slot with lease := clock } } }
        s.attempts s.issued
  | cancel (i : Input Peer Handoff) (wall : ℤ) :
      Move s i (s.service.cancel wall) s.attempts s.issued
  | stop (i : Input Peer Handoff) (wall : ℤ) :
      Move s i (s.service.stop wall) s.attempts s.issued
  | unblock (c : ℕ) : s.service.state.Quiet →
      Move s (.conclude c) s.service.unblock s.attempts s.issued
  | supervise (k : ℕ) (a : Attempt Peer) (event : SupervisorEvent) (supervisor : Supervisor)
      (sent : List Update) :
      s.attempts[k]? = some a → a.supervisor.step event = some (supervisor, sent) →
      Move s (.supervise k event) s.service
        (s.attempts.set k { a with supervisor, updates := a.updates ++ sent }) s.issued
  | update (k : ℕ) (a : Attempt Peer) (u : Update) (rest : List Update) (session : Uuid)
      (wall : ℤ) :
      s.attempts[k]? = some a → a.watch = .looping → a.updates = u :: rest →
      s.service.holds a.id = true →
      Move s (.update k session wall) (s.service.update u session wall)
        (s.attempts.set k
          { a with updates := rest, watch := if u.isFinished then .joining else .looping })
        s.issued
  | stale (k : ℕ) (a : Attempt Peer) (rest : List Update) (session : Uuid) (wall : ℤ) :
      s.attempts[k]? = some a → a.watch = .looping → s.service.holds a.id = false →
      Move s (.update k session wall) s.service
        (s.attempts.set k { a with updates := rest, watch := .joining }) s.issued
  | drained (k : ℕ) (a : Attempt Peer) :
      s.attempts[k]? = some a → a.watch = .looping → a.updates = [] →
      a.supervisor.running = false →
      Move s (.drained k) s.service (s.attempts.set k { a with watch := .joining }) s.issued
  | join (k : ℕ) (a : Attempt Peer) (wall : ℤ) :
      s.attempts[k]? = some a → a.watch = .joining → a.supervisor.running = false →
      s.service.holds a.id = false →
      Move s (.join k wall) s.service (s.attempts.set k { a with watch := .done }) s.issued
  | fail (k : ℕ) (a : Attempt Peer) (wall : ℤ) :
      s.attempts[k]? = some a → a.watch = .joining → a.supervisor.running = false →
      s.service.holds a.id = true →
      Move s (.join k wall) (s.service.supervisorFailed wall)
        (s.attempts.set k { a with watch := .done }) s.issued

/-- What a phase of a connection says about the session: a call of `quiesce` that polls has
stopped it, and one that has the outcome of its recovery found it quiet. -/
def Phase.Fits (q : Session Peer) : Phase Peer Handoff → Prop
  | .quiescing .waiting _ => q.stopping = true
  | .quiescing (.recovered _) _ => q.Quiet
  | _ => True

/-- What holds while an administrative recovery runs, and after it until its call answers. -/
structure System.Admin (s : System Peer Handoff) : Prop where
  /-- The blocking recovery runs only on a quiet session. -/
  task : ∀ c, s.recovery = some (.task c) → s.service.state.Quiet
  phases : ∀ conn ∈ s.connections, conn.phase.Fits s.service.state

namespace System

variable {s s' : System Peer Handoff} {setup : Service.Setup Peer Handoff}
  {input : Input Peer Handoff} {out : List (Output Peer)}

/-- The move of a dispatched request. -/
theorem move_of_dispatchRequest {c cursor : ℕ} {peer : Peer} {request : Request Handoff}
    {fresh : Uuid} {wall : ℤ} (hfresh : fresh ∉ s.issued)
    (h : s.dispatchRequest setup c cursor peer request fresh wall = (s', out)) :
    Move s (.dispatch c fresh wall) s'.service s'.attempts s'.issued := by
  obtain ⟨id, method⟩ := request
  unfold dispatchRequest answer at h
  set m : Service.Moment := ⟨s.clock, wall, fresh, s.attempts.length⟩ with hm
  cases hd : Daemon.dispatch setup s.service m peer c method with
  | error e =>
    simp only [hd, Prod.mk.injEq] at h
    rw [← h.1]
    exact .still _
  | ok granted =>
    obtain ⟨payload, service⟩ := granted
    simp only [hd, Prod.mk.injEq] at h
    rw [← h.1]
    obtain ⟨hauth, hcases⟩ := dispatch_eq_ok hd
    rcases hcases with ⟨hnr, hns, hv⟩ | ⟨pid, name, protocol, rfl, hr⟩ | ⟨aid, handoff, rfl, hst⟩
    · have h1 : spawned peer method = [] := by
        cases method <;> first | rfl | exact absurd rfl (hns _ _)
      have h2 : issuedBy fresh method = [] := by
        cases method <;> first | rfl | exact absurd rfl (hnr _ _ _)
      simp only [h1, h2, List.append_nil, setPhase_service, setPhase_attempts, setPhase_issued]
      rcases hv with rfl | rfl | ⟨slot, hslot, rfl⟩
      · exact .still _
      · exact .cancel _ _
      · exact .renew _ slot _ hslot
    · obtain ⟨hstop, hblocked, hslot, -, rfl⟩ := Service.reserve_eq_ok hr
      simp only [spawned, List.append_nil, setPhase_service, setPhase_attempts, setPhase_issued]
      exact .reserve m peer c pid name protocol hstop hblocked hslot hfresh
    · obtain ⟨slot, hslot, rfl, rfl, hcancel, -, -, rfl⟩ := Service.start_eq_ok hst
      have howner : slot.owner = peer := authorize_eq_ok.1 hauth slot hslot
      simp only [spawned, issuedBy, List.append_nil, setPhase_service, setPhase_attempts,
        setPhase_issued, ← howner]
      exact .start m slot fresh hslot hcancel rfl

omit [DecidableEq Peer] in
/-- The move of a step of a call of `quiesce`. -/
theorem move_of_quiesce {c : ℕ} {peer : Peer} {id : Uuid} {stage : Quiesce} (hadm : s.Admin)
    (hc : s.connections[c]? = some ⟨peer, .quiescing stage id⟩)
    (h : s.quiesce c peer id stage input = some (s', out)) :
    Move s input s'.service s'.attempts s'.issued := by
  unfold quiesce at h
  split at h
  · split_ifs at h
    simp only [Option.some.injEq, Prod.mk.injEq] at h
    rw [← h.1]
    exact .still _
  · simp only [answer, Option.some.injEq, Prod.mk.injEq] at h
    rw [← h.1]
    exact .still _
  · simp only [Option.some.injEq, Prod.mk.injEq] at h
    rw [← h.1]
    exact .stop _ _
  · split_ifs at h
    · simp only [Option.some.injEq, Prod.mk.injEq] at h
      rw [← h.1]
      exact .still _
    · simp only [answer, Option.some.injEq, Prod.mk.injEq] at h
      simp only [← h.1, setPhase_service, setPhase_attempts, setPhase_issued, release_service,
        release_attempts, release_issued]
      exact .still _
    · simp only [Option.some.injEq, Prod.mk.injEq] at h
      rw [← h.1]
      exact .still _
  · simp only [answer, Option.some.injEq, Prod.mk.injEq] at h
    simp only [← h.1, setPhase_service, setPhase_attempts, setPhase_issued, release_service,
      release_attempts, release_issued]
    exact .still _
  · simp only [answer, Option.some.injEq, Prod.mk.injEq] at h
    rw [← h.1]
    exact .still _
  · simp only [answer, Option.some.injEq, Prod.mk.injEq] at h
    rw [← h.1]
    exact .still _
  · rename_i outcome c'
    split at h
    · simp only [answer, Option.some.injEq, Prod.mk.injEq] at h
      rw [← h.1]
      exact .still _
    · simp only [answer, Option.some.injEq, Prod.mk.injEq] at h
      rw [← h.1]
      exact .unblock c' (hadm.phases _ (mem_connections hc))
  · cases h

/-- The move of a step of a connection. -/
theorem move_of_connection {c : ℕ} (hadm : s.Admin)
    (h : s.connection setup c input = some (s', out))
    (hinput : ∀ c' fresh wall, input = .dispatch c' fresh wall → c' = c) :
    Move s input s'.service s'.attempts s'.issued := by
  unfold connection at h
  split at h
  · cases h
  rename_i peer phase hc
  split at h
  · simp only [Option.some.injEq, Prod.mk.injEq] at h
    rw [← h.1]
    exact .still _
  · split_ifs at h with hg
    rw [not_or] at hg
    obtain rfl := hinput _ _ _ rfl
    exact move_of_dispatchRequest hg.2 (Option.some.inj h)
  · split at h <;>
    · simp only [answer, Option.some.injEq, Prod.mk.injEq] at h
      rw [← h.1]
      exact .still _
  · exact move_of_quiesce hadm hc h
  · rw [Option.map_eq_some_iff] at h
    obtain ⟨⟨cursor, item⟩, -, h⟩ := h
    simp only [Prod.mk.injEq] at h
    rw [← h.1]
    exact .still _
  · split at h <;>
    · simp only [Option.some.injEq, Prod.mk.injEq] at h
      rw [← h.1]
      exact .still _
  iterate 3
    · simp only [Option.some.injEq, Prod.mk.injEq] at h
      rw [← h.1]
      exact .still _
  · simp only [Option.some.injEq, Prod.mk.injEq] at h
    rw [← h.1]
    simp only [setPhase_service, setPhase_attempts, setPhase_issued, cleanup]
    split_ifs
    · exact .cancel _ _
    · exact .still _
  · cases h

omit [DecidableEq Peer] in
/-- The move of a step of an attempt. -/
theorem move_of_attempt {k : ℕ} (h : s.attempt k input = some s')
    (hinput : (∃ e, input = .supervise k e) ∨ (∃ x w, input = .update k x w) ∨
      input = .drained k ∨ ∃ w, input = .join k w) :
    Move s input s'.service s'.attempts s'.issued := by
  unfold attempt at h
  split at h
  · cases h
  rename_i a ha
  rcases hinput with ⟨e, rfl⟩ | ⟨session, wall, rfl⟩ | rfl | ⟨wall, rfl⟩
  · simp only at h
    split_ifs at h
    rw [Option.map_eq_some_iff] at h
    obtain ⟨⟨supervisor, sent⟩, hstep, rfl⟩ := h
    exact .supervise k a e supervisor sent ha hstep
  · simp only at h
    cases hw : a.watch <;> cases hu : a.updates <;> simp only [hw, hu, reduceCtorEq] at h
    rename_i u rest
    by_cases hh : s.service.holds a.id = true
    · rw [if_pos hh] at h
      rw [← Option.some.inj h]
      exact .update k a u rest session wall ha hw hu hh
    · rw [if_neg hh] at h
      rw [← Option.some.inj h]
      exact .stale k a rest session wall ha hw (Bool.eq_false_iff.2 hh)
  · simp only at h
    split_ifs at h with hg
    rw [← Option.some.inj h]
    exact .drained k a ha hg.1 hg.2.1 hg.2.2
  · simp only at h
    split_ifs at h with hg hh
    · rw [← Option.some.inj h]
      exact .fail k a wall ha hg.1 hg.2 hh
    · rw [← Option.some.inj h]
      exact .join k a wall ha hg.1 hg.2 (Bool.eq_false_iff.2 hh)

/-- **A step does one of the moves.** -/
theorem move_of_step (hadm : s.Admin) (h : step setup s input = some (s', out)) :
    Move s input s'.service s'.attempts s'.issued := by
  unfold step at h
  by_cases hmain : s.main = .exited
  · rw [if_pos hmain] at h
    cases h
  rw [if_neg hmain] at h
  cases input with
  | pass seconds =>
    simp only [Option.some.injEq, Prod.mk.injEq] at h
    rw [← h.1]
    exact .still _
  | accept peer =>
    simp only [accept, Option.map_eq_some_iff] at h
    obtain ⟨t, ht, h⟩ := h
    split_ifs at ht
    simp only [Prod.mk.injEq] at h
    rw [← h.1, ← Option.some.inj ht]
    exact .still _
  | adminRecovered outcome =>
    simp only [adminRecovered, Option.map_eq_some_iff, Prod.mk.injEq] at h
    obtain ⟨t, ht, rfl, -⟩ := h
    split at ht
    · split at ht <;>
      · rw [← Option.some.inj ht]
        exact .still _
    · cases ht
  | supervise k e =>
    simp only [Option.map_eq_some_iff, Prod.mk.injEq] at h
    obtain ⟨t, ht, rfl, -⟩ := h
    exact move_of_attempt ht (.inl ⟨e, rfl⟩)
  | update k session wall =>
    simp only [Option.map_eq_some_iff, Prod.mk.injEq] at h
    obtain ⟨t, ht, rfl, -⟩ := h
    exact move_of_attempt ht (.inr (.inl ⟨session, wall, rfl⟩))
  | drained k =>
    simp only [Option.map_eq_some_iff, Prod.mk.injEq] at h
    obtain ⟨t, ht, rfl, -⟩ := h
    exact move_of_attempt ht (.inr (.inr (.inl rfl)))
  | join k wall =>
    simp only [Option.map_eq_some_iff, Prod.mk.injEq] at h
    obtain ⟨t, ht, rfl, -⟩ := h
    exact move_of_attempt ht (.inr (.inr (.inr ⟨wall, rfl⟩)))
  | leaseTick wall =>
    simp only at h
    split_ifs at h <;>
    · simp only [Option.some.injEq, Prod.mk.injEq] at h
      rw [← h.1]
      first | exact .cancel _ _ | exact .still _
  | stop wall =>
    simp only at h
    split_ifs at h
    simp only [Option.some.injEq, Prod.mk.injEq] at h
    rw [← h.1]
    exact .stop _ _
  | exit =>
    simp only at h
    split_ifs at h
    simp only [Option.some.injEq, Prod.mk.injEq] at h
    rw [← h.1]
    exact .still _
  -- what a connection does is a lemma of its own
  | dispatch c fresh wall =>
    exact move_of_connection hadm h fun _ _ _ heq => by simp_all
  | read | admin | lock | lockTimeout | teardown | inspect | adminTimeout | conclude | receive
  | deliver | hangUp | cleanup =>
    exact move_of_connection hadm h (by simp)

end System

end Ocvpn.Daemon
