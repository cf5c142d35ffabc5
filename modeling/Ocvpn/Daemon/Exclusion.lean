import Ocvpn.Daemon.Invariant

/-!
# One mutator of the machine's network at a time

Workers, the recovery of their supervisors and the recovery of an administrative `quiesce` all
change the network.  `System.one_mutator` says that none of them overlap: the slot admits one
supervisor, a recovery starts only when no worker can be left, and once that is uncertain nothing
changes the network again.

All three parts follow from `Core.settled`: an attempt that is not settled is the last one, and it
holds the slot or blocks the daemon.
-/

namespace Ocvpn.Daemon

variable {Peer Handoff : Type}

/-! ### What is excluded -/

namespace Supervisor

/-- The recovery of the supervisor ended. -/
def Recovered (s : Supervisor) : Prop :=
  (∃ r, s.stage = .reporting r) ∨ (s.stage = .returned ∧ s.quiescent = true)

/-- The supervisor crashed, or finished without knowing its worker to be gone. -/
def Broken (s : Supervisor) : Prop :=
  s.stage = .crashed ∨ (s.stage = .returned ∧ s.quiescent = false)

variable {s s' : Supervisor} {e : SupervisorEvent} {sent : List Update}

theorem Settled.recovered (h : s.Settled) : s.Recovered := .inr h

theorem Broken.not_settled (h : s.Broken) : ¬ s.Settled := by
  rintro ⟨hst, hq⟩
  rcases h with h | ⟨-, h⟩
  · rw [hst] at h
    cases h
  · rw [hq] at h
    cases h

/-- A broken supervisor stays broken. -/
theorem Broken.step (h : s.Broken) (hst : s.step e = some (s', sent)) : s'.Broken := by
  have hr : s.running = false := by
    rcases h with h | ⟨h, -⟩ <;> rw [running, h]
  exact .inl ((shape_of_step hst).ended hr).2.1

theorem Settled.tree (hs : s.Sound) (h : s.Settled) : s.tree ≠ .spawned := hs.quiescent.1 h.2

theorem Settled.not_recovering (hs : s.Sound) (h : s.Settled) : s.recovering = false := by
  rw [Bool.eq_false_iff]
  intro hr
  rcases (hs.recovery hr).2 with hst | ⟨r, hst⟩ <;> rw [h.1] at hst <;> cases hst

/-- A supervisor whose recovery runs knows its worker to be gone, and is not settled. -/
theorem Sound.recovering_spec (hs : s.Sound) (h : s.recovering = true) :
    s.tree ≠ .spawned ∧ ¬ s.Settled := by
  refine ⟨hs.quiescent.1 (hs.recovery h).1, fun hset => ?_⟩
  rw [hset.not_recovering hs] at h
  cases h

end Supervisor

namespace System

variable {s s' : System Peer Handoff} {input : Input Peer Handoff} {out : List (Output Peer)}

/-- Some attempt is broken. -/
def Broken (s : System Peer Handoff) : Prop := ∃ a ∈ s.attempts, a.supervisor.Broken

/-- The recovery of `quiesce` runs. -/
def AdminRecovering (s : System Peer Handoff) : Prop := ∃ c, s.recovery = some (.task c)

/-- Every reservation that is dispatched now is refused, and changes nothing. -/
def ReserveRefused [DecidableEq Peer] (setup : Service.Setup Peer Handoff)
    (s : System Peer Handoff) : Prop :=
  ∀ c cursor peer requestId id name protocol fresh wall s' out,
    s.connections[c]? =
      some ⟨peer, .requested cursor ⟨requestId, .reserve id name protocol⟩⟩ →
    step setup s (.dispatch c fresh wall) = some (s', out) →
    (∃ e, out = [⟨c, peer, .response ⟨requestId, .error e⟩⟩]) ∧ s'.service = s.service ∧
      s'.attempts = s.attempts

/-- Every call of `quiesce` that finds the session ended is refused. -/
def QuiesceRefused [DecidableEq Peer] (setup : Service.Setup Peer Handoff)
    (s : System Peer Handoff) : Prop :=
  ∀ c peer id s' out, s.connections[c]? = some ⟨peer, .quiescing .waiting id⟩ →
    s.service.state.slot = none → step setup s (.inspect c) = some (s', out) →
    out = [⟨c, peer, .response ⟨id, .error uncertainQuiescence⟩⟩]

variable [DecidableEq Peer] {setup : Service.Setup Peer Handoff}

/-- A daemon that returned makes no step. -/
theorem main_of_step (h : step setup s input = some (s', out)) : s.main ≠ .exited := by
  intro hmain
  unfold step at h
  rw [if_pos hmain] at h
  cases h

theorem reserveRefused_of (h : s.service.state.slot.isSome = true ∨
    s.service.state.recoveryBlocked = true) : s.ReserveRefused setup := by
  intro c cursor peer requestId id name protocol fresh wall s' out hc hst
  have hmain := main_of_step hst
  rw [step, if_neg hmain] at hst
  simp only [connection, hc] at hst
  split_ifs at hst
  rw [Option.some.injEq] at hst
  unfold dispatchRequest at hst
  cases hd : Daemon.dispatch setup s.service ⟨s.clock, wall, fresh, s.attempts.length⟩ peer c
      (.reserve id name protocol) with
  | error e =>
    simp only [hd, answer, Prod.mk.injEq] at hst
    exact ⟨⟨e, hst.2.symm⟩, by rw [← hst.1]; rfl, by rw [← hst.1]; rfl⟩
  | ok granted =>
    -- a granted reservation found no slot and no block
    obtain ⟨payload, v⟩ := granted
    obtain ⟨-, ⟨hne, -⟩ | ⟨id', name', protocol', heq, hr⟩ | ⟨_, _, heq, -⟩⟩ := dispatch_eq_ok hd
    · exact absurd rfl (hne _ _ _)
    · obtain ⟨-, hblocked, hslot, -⟩ := Service.reserve_eq_ok hr
      rcases h with h | h
      · rw [hslot] at h
        cases h
      · rw [hblocked] at h
        cases h
    · cases heq

/-- An attempt that is not settled holds the slot or blocks the daemon. -/
theorem Inv.reserveRefused (h : s.Inv) {k : ℕ} {a : Attempt Peer} (ha : s.attempts[k]? = some a)
    (hset : ¬ a.supervisor.Settled) : s.ReserveRefused setup := by
  refine reserveRefused_of ?_
  rcases (h.core.settled k a ha hset).2 with hun | hq
  · obtain ⟨slot, hslot, -⟩ := h.core.unresolved k a ha hun
    exact .inl (by simp [hslot])
  · exact .inr (h.coherent.blocked hq)

omit [DecidableEq Peer] in
/-- On a quiet session every attempt is settled. -/
theorem Inv.settled_of_quiet (h : s.Inv) (hquiet : s.service.state.Quiet) {a : Attempt Peer}
    (ha : a ∈ s.attempts) : a.supervisor.Settled := by
  obtain ⟨k, hk⟩ := List.mem_iff_getElem?.1 ha
  by_contra hset
  rcases (h.core.settled k a hk hset).2 with hun | hq
  · obtain ⟨slot, hslot, -⟩ := h.core.unresolved k a hk hun
    rw [hquiet.2.1] at hslot
    cases hslot
  · rw [hquiet.2.2] at hq
    cases hq

omit [DecidableEq Peer] in
theorem Inv.last_unique (h : s.Inv) {j k : ℕ} {a b : Attempt Peer} (ha : s.attempts[k]? = some a)
    (hb : s.attempts[j]? = some b) (hseta : ¬ a.supervisor.Settled)
    (hsetb : ¬ b.supervisor.Settled) : j = k := by
  have hk := (h.core.settled k a ha hseta).1
  have hj := (h.core.settled j b hb hsetb).1
  omega

/-! ### Broken attempts stay -/

theorem Broken.step (hinv : s.Inv) (h : s.Broken)
    (hst : System.step setup s input = some (s', out)) : s'.Broken := by
  have hm := move_of_step hinv.admin hst
  obtain ⟨a, hmem, hb⟩ := h
  -- an attempt keeps its place, and its supervisor stays broken
  have hkeep : ∀ {k : ℕ} {x y : Attempt Peer}, s.attempts[k]? = some x →
      (x.supervisor.Broken → y.supervisor.Broken) →
      ∃ a ∈ s.attempts.set k y, a.supervisor.Broken := by
    intro k x y hx hxy
    obtain ⟨j, hj⟩ := List.mem_iff_getElem?.1 hmem
    by_cases hjk : j = k
    · subst hjk
      rw [hx] at hj
      obtain rfl := Option.some.inj hj
      have hlt := (List.getElem?_eq_some_iff.1 hx).1
      exact ⟨y, List.mem_of_getElem? (i := j) (by simp [hlt]), hxy hb⟩
    · exact ⟨a, List.mem_of_getElem? (i := j) (by rw [List.getElem?_set_ne (Ne.symm hjk), hj]), hb⟩
  unfold Broken
  generalize s'.service = v at hm
  generalize s'.attempts = attempts at hm
  generalize s'.issued = issued at hm
  cases hm with
  | still | reserve | renew | cancel | stop | unblock => exact ⟨a, hmem, hb⟩
  | start => exact ⟨a, List.mem_append_left _ hmem, hb⟩
  | supervise k x event supervisor sent hx hstep => exact hkeep hx fun hbx => hbx.step hstep
  | update k x u rest session wall hx => exact hkeep hx id
  | stale k x rest session wall hx => exact hkeep hx id
  | drained k x hx => exact hkeep hx id
  | join k x wall hx => exact hkeep hx id
  | fail k x wall hx => exact hkeep hx id

/-- A broken daemon runs no administrative recovery and grants nothing. -/
theorem Inv.of_broken (h : s.Inv) (hb : s.Broken) :
    s.ReserveRefused setup ∧ ¬ s.AdminRecovering ∧ s.QuiesceRefused setup := by
  obtain ⟨a, ha, hba⟩ := hb
  obtain ⟨k, hk⟩ := List.mem_iff_getElem?.1 ha
  have hset := hba.not_settled
  refine ⟨h.reserveRefused hk hset, ?_, ?_⟩
  · rintro ⟨c, hc⟩
    exact hset (h.settled_of_quiet (h.admin.task c hc) ha)
  · intro c peer id s' out hc hslot hst
    have hq : s.service.state.quiescenceBlocked = true := by
      rcases (h.core.settled k a hk hset).2 with hun | hq
      · obtain ⟨slot, hs, -⟩ := h.core.unresolved k a hk hun
        rw [hslot] at hs
        cases hs
      · exact hq
    have hmain := main_of_step hst
    rw [System.step, if_neg hmain] at hst
    simp only [connection, hc, quiesce, hslot, hq, Option.isSome_none, Bool.false_eq_true, if_false,
      if_true, answer, Option.some.injEq, Prod.mk.injEq] at hst
    exact hst.2.symm

/-- At most one task can change the network, and none once a worker may be left behind. -/
structure Exclusive (setup : Service.Setup Peer Handoff) (s : System Peer Handoff) : Prop where
  /-- Until the recovery of a started attempt has ended, reservations are refused and no other
  supervisor runs. -/
  supervisor : ∀ (k : ℕ) (a : Attempt Peer), s.attempts[k]? = some a → ¬ a.supervisor.Recovered →
    s.ReserveRefused setup ∧ ∀ (j : ℕ) (b : Attempt Peer), s.attempts[j]? = some b →
      b.supervisor.running = true → j = k
  /-- While a recovery runs, every worker is known to be gone. -/
  quiescent : (∃ a ∈ s.attempts, a.supervisor.recovering = true) ∨ s.AdminRecovering →
    ∀ b ∈ s.attempts, b.supervisor.tree ≠ .spawned
  /-- A recovery runs alone. -/
  recovery : ∀ (k : ℕ) (a : Attempt Peer), s.attempts[k]? = some a →
    a.supervisor.recovering = true → ¬ s.AdminRecovering ∧
      ∀ (j : ℕ) (b : Attempt Peer), s.attempts[j]? = some b →
        b.supervisor.recovering = true → j = k
  /-- After a crash or a finish without quiescence, reservations and administrative recoveries
  are refused in every later state. -/
  broken : s.Broken → ∀ s', (machine Peer setup).Reaches s s' →
    s'.ReserveRefused setup ∧ ¬ s'.AdminRecovering ∧ s'.QuiesceRefused setup

/-- **One mutator of the network at a time**, in every reachable state of the daemon. -/
theorem one_mutator (setup : Service.Setup Peer Handoff) (s : System Peer Handoff)
    (h : (machine Peer setup).Reachable s) : s.Exclusive setup := by
  have hinv := Inv.of_reachable h
  have hsound : ∀ {k : ℕ} {a : Attempt Peer}, s.attempts[k]? = some a → a.supervisor.Sound :=
    fun ha => (hinv.core.sound _ (List.mem_of_getElem? ha)).supervisor
  refine ⟨fun k a ha hrec => ?_, fun hrec b hb => ?_, fun k a ha hrec => ?_, fun hb s' hs' => ?_⟩
  · have hset : ¬ a.supervisor.Settled := fun hset => hrec hset.recovered
    refine ⟨hinv.reserveRefused ha hset, fun j b hb hrun => hinv.last_unique ha hb hset ?_⟩
    rintro ⟨hst, -⟩
    simp [Supervisor.running, hst] at hrun
  · obtain ⟨j, hj⟩ := List.mem_iff_getElem?.1 hb
    by_cases hsetb : b.supervisor.Settled
    · exact hsetb.tree (hsound hj)
    rcases hrec with ⟨a, ha, har⟩ | ⟨c, hc⟩
    -- a recovering supervisor is the last one, so `b` is that supervisor
    · obtain ⟨k, hk⟩ := List.mem_iff_getElem?.1 ha
      obtain ⟨htree, hset⟩ := (hsound hk).recovering_spec har
      obtain rfl := hinv.last_unique hk hj hset hsetb
      rw [hk] at hj
      exact Option.some.inj hj ▸ htree
    · exact absurd (hinv.settled_of_quiet (hinv.admin.task c hc) hb) hsetb
  · obtain ⟨-, hset⟩ := (hsound ha).recovering_spec hrec
    refine ⟨?_, fun j b hb hbr => ?_⟩
    · rintro ⟨c, hc⟩
      exact hset (hinv.settled_of_quiet (hinv.admin.task c hc) (List.mem_of_getElem? ha))
    · exact hinv.last_unique ha hb hset ((hsound hb).recovering_spec hbr).2
  · have hkeep : ∀ t i t' o, t.Inv ∧ t.Broken →
        (machine Peer setup).step t i = some (t', o) → t'.Inv ∧ t'.Broken := by
      intro t i t' o ht hst
      exact ⟨ht.1.step hst, ht.2.step ht.1 hst⟩
    obtain ⟨hinv', hb'⟩ := hs'.preserves (And.intro hinv hb) hkeep
    exact hinv'.of_broken hb'

/-- The sample run, whose supervisor then crashes with its worker alive. -/
def crashedState : System ℕ String :=
  (machine ℕ sampleSetup).perform (start 1 none)
    (sampleInputs ++ [.supervise 0 .crash, .drained 0, .join 0 105])

theorem one_mutator_crashed :
    crashedState.attempts.map (·.supervisor.tree) = [.spawned] ∧
      crashedState.service.state.quiescenceBlocked = true ∧ crashedState.Exclusive sampleSetup :=
  ⟨by decide, by decide, one_mutator sampleSetup crashedState
    (Machine.Reachable.trans (.initial ⟨1, none, rfl⟩) (Machine.reaches_perform _ _))⟩

end System

end Ocvpn.Daemon
