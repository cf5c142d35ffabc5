import Ocvpn.Daemon.Coherence

/-!
# The invariant of the daemon

`System.Inv` holds in every reachable state of the daemon (`System.Inv.of_reachable`).  Its parts
are `Session.Coherent` and `Service.Numbered` of `Ocvpn.Daemon.Coherence`, `System.Admin` of
`Ocvpn.Daemon.Moves`, and `System.Core`, which ties the slot to the attempts:

* an attempt is *unresolved* until its update task has handled its end, and exactly the unresolved
  attempt holds the slot (`Core.holds_iff_unresolved`);
* an attempt is *settled* when its supervisor returned from a quiescent run, and every attempt but
  the last is settled (`Core.settled`).

## Main results

* `System.session_invariant` : the session invariant over all runs.
* `System.disconnecting_left_by` : only the end of its attempt leaves the state `disconnecting`.
-/

namespace Ocvpn.Daemon

variable {Peer Handoff : Type}

/-! ### Supervisors -/

namespace Supervisor

variable {s s' : Supervisor} {e : SupervisorEvent} {sent : List Update}

/-- What the flags of a supervisor mean. -/
structure Sound (s : Supervisor) : Prop where
  quiescent : s.quiescent = true ↔ s.tree ≠ .spawned
  recovery : s.recovering = true →
    s.quiescent = true ∧ (s.stage = .crashed ∨ ∃ r, s.stage = .recovering r)
  reporting : ∀ r, s.stage = .reporting r → s.quiescent = true
  recovering : ∀ r, s.stage = .recovering r → s.recovering = true

/-- The supervisor ended after it established that no worker is left. -/
def Settled (s : Supervisor) : Prop := s.stage = .returned ∧ s.quiescent = true

theorem sound_new : new.Sound := ⟨by simp [new], by simp [new], by simp [new], by simp [new]⟩

theorem Sound.recovering_eq_false (h : s.Sound) (hs : s.stage.early = true) :
    s.recovering = false := by
  rw [Bool.eq_false_iff]
  intro hr
  rcases (h.recovery hr).2 with hst | ⟨r, hst⟩ <;> rw [hst] at hs <;> cases hs

/-- The shapes of a supervisor step. -/
inductive Shape (s : Supervisor) : Supervisor → List Update → Prop
  | spawn : s.stage.early = true →
      Shape s { s with stage := .handoff, tree := .spawned, quiescent := false } []
  /-- The flags stay and no final update is sent. -/
  | walk (stage : Stage) (sent : List Update) : s.stage.early = true → stage.early = true →
      (∀ u ∈ sent, u.isFinished = false) → Shape s { s with stage } sent
  | quiet (r : Except Error Unit) : s.stage.early = true →
      Shape s { s with stage := .ended r, tree := .quiet, quiescent := true } []
  | recover (r : Except Error Unit) : s.stage.early = true → s.quiescent = true →
      Shape s { s with stage := .recovering r, recovering := true } []
  | uncertain : s.stage.early = true → s.quiescent = false →
      Shape s { s with stage := .returned } [uncertain]
  | recovered (r r' : Except Error Unit) : s.stage = .recovering r →
      Shape s { s with stage := .reporting r', recovering := false } []
  | outlived : s.stage = .crashed → Shape s { s with recovering := false } []
  | report (r : Except Error Unit) : s.stage = .reporting r →
      Shape s { s with stage := .returned } [.finished r true]
  | crash : s.running = true → Shape s { s with stage := .crashed } []

theorem Shape.of_eq {t : Supervisor} {us : List Update} (h : some (t, us) = some (s', sent))
    (hs : s.Shape t us) : s.Shape s' sent := by
  obtain ⟨rfl, rfl⟩ := Prod.mk.inj (Option.some.inj h)
  exact hs

/-- A round of the `select!` loop stays in `supervise_inner` and hands on no final update. -/
theorem shape_of_relay {stopping : Bool} {terminal : Option (Except Error Unit)}
    (hs : s.stage.early = true) (h : s.relay stopping terminal e = some (s', sent)) :
    s.Shape s' sent := by
  have none : ∀ u ∈ ([] : List Update), u.isFinished = false := by simp
  unfold relay at h
  split at h
  · split_ifs at h
    exact .of_eq h (.walk _ _ hs rfl none)
  · split_ifs at h
    split at h <;> exact .of_eq h (.walk _ _ hs rfl none)
  · split_ifs at h
    split at h
    · exact .of_eq h (.walk _ _ hs rfl none)
    · rename_i u hu
      refine .of_eq h (.walk _ _ hs rfl ?_)
      cases u with
      | finished r q => exact absurd rfl (hu r q)
      | _ => simp [Update.isFinished]
    · exact .of_eq h (.walk _ _ hs rfl none)
  · split_ifs at h
    exact .of_eq h (.walk _ _ hs rfl none)
  · exact .of_eq h (.walk _ _ hs rfl none)
  · cases h

/-- A supervisor step has one of the shapes. -/
theorem shape_of_step (h : s.step e = some (s', sent)) : s.Shape s' sent := by
  have none : ∀ u ∈ ([] : List Update), u.isFinished = false := by simp
  unfold step at h
  split at h
  · split_ifs at h with hr
    exact .of_eq h (.crash hr)
  case h_3 hst => exact .of_eq h (.spawn (by rw [hst]; rfl))
  case h_8 hst _ => exact shape_of_relay (by rw [hst]; rfl) h
  case h_9 result hst => exact .of_eq h (.quiet result (by rw [hst]; rfl))
  case h_11 result hst =>
    split_ifs at h with hq
    · exact .of_eq h (.recover result (by rw [hst]; rfl) hq)
    · exact .of_eq h (.uncertain (by rw [hst]; rfl) (Bool.eq_false_iff.2 hq))
  case h_12 result outcome hst => exact .of_eq h (.recovered result _ hst)
  case h_13 hst =>
    split_ifs at h
    exact .of_eq h (.outlived hst)
  case h_14 result hst => exact .of_eq h (.report result hst)
  case h_15 => cases h
  all_goals
    rename_i hst
    exact .of_eq h (.walk _ _ (by rw [hst]; rfl) rfl none)

theorem Shape.sound (hs : s.Sound) (h : s.Shape s' sent) : s'.Sound := by
  cases h with
  | spawn hst =>
    have hrec := hs.recovering_eq_false hst
    exact ⟨by simp, by simp [hrec], by simp, by simp⟩
  | walk stage sent hst hst' _ =>
    have hrec := hs.recovering_eq_false hst
    refine ⟨hs.quiescent, by simp [hrec], fun r (hr : stage = .reporting r) => ?_,
      fun r (hr : stage = .recovering r) => ?_⟩ <;>
    · subst hr
      cases hst'
  | quiet r hst =>
    have hrec := hs.recovering_eq_false hst
    exact ⟨by simp, by simp [hrec], by simp, by simp⟩
  | recover r hst hq => exact ⟨hs.quiescent, fun _ => ⟨hq, .inr ⟨r, rfl⟩⟩, by simp, by simp⟩
  | uncertain hst hq =>
    have hrec := hs.recovering_eq_false hst
    exact ⟨hs.quiescent, by simp [hrec], by simp, by simp⟩
  | recovered r r' hst =>
    exact ⟨hs.quiescent, by simp, fun _ _ => (hs.recovery (hs.recovering r hst)).1, by simp⟩
  | outlived hst => exact ⟨hs.quiescent, by simp, by simp [hst], by simp [hst]⟩
  | report r hst =>
    have hrec : s.recovering = false := by
      rw [Bool.eq_false_iff]
      intro hr
      rcases (hs.recovery hr).2 with h | ⟨r, h⟩ <;> rw [hst] at h <;> cases h
    exact ⟨hs.quiescent, by simp [hrec], by simp, by simp⟩
  | crash => exact ⟨hs.quiescent, fun hr => ⟨(hs.recovery hr).1, .inl rfl⟩, by simp, by simp⟩

/-- A step that starts from an ended supervisor only ends the recovery a crash left behind. -/
theorem Shape.ended (h : s.Shape s' sent) (hr : s.running = false) :
    s.stage = .crashed ∧ s'.stage = .crashed ∧ s'.quiescent = s.quiescent ∧ sent = [] := by
  have early : s.stage.early = true → s.running = true := by
    intro hs
    unfold running
    cases hst : s.stage <;> simp only [hst, Stage.early, Bool.false_eq_true] at hs ⊢
  cases h with
  | outlived hst => exact ⟨hst, hst, rfl, rfl⟩
  | spawn hst | quiet _ hst | recover _ hst _ | uncertain hst _ =>
    rw [early hst] at hr
    cases hr
  | walk _ _ hst _ _ =>
    rw [early hst] at hr
    cases hr
  | recovered r r' hst => simp [running, hst] at hr
  | report r hst => simp [running, hst] at hr
  | crash hrun =>
    rw [hrun] at hr
    cases hr

/-- What a step sends: the final update is sent by the step that returns. -/
theorem Shape.sends (hs : s.Sound) (h : s.Shape s' sent) :
    (∀ r q, Update.finished r q ∈ sent → s'.stage = .returned ∧ q = s'.quiescent ∧
      (q = false → ∃ e, r = .error e ∧ e.code = .recoveryRequired)) ∧
    (s'.stage = .returned → ∃ r q, Update.finished r q ∈ sent) := by
  cases h with
  | walk stage sent _ hst' hsent =>
    refine ⟨fun r q hmem => absurd (hsent _ hmem) (by simp [Update.isFinished]),
      fun (hr : stage = .returned) => ?_⟩
    subst hr
    cases hst'
  | uncertain _ hq =>
    refine ⟨fun r q hmem => ?_, fun _ => ⟨_, _, List.mem_singleton.2 rfl⟩⟩
    obtain ⟨rfl, rfl⟩ := Update.finished.inj (List.mem_singleton.1 hmem)
    exact ⟨rfl, hq.symm, fun _ => ⟨_, rfl, rfl⟩⟩
  | report r hst =>
    refine ⟨fun r q hmem => ?_, fun _ => ⟨_, _, List.mem_singleton.2 rfl⟩⟩
    obtain ⟨rfl, rfl⟩ := Update.finished.inj (List.mem_singleton.1 hmem)
    exact ⟨rfl, (hs.reporting _ hst).symm, by simp⟩
  | outlived hst => exact ⟨by simp, by simp [hst]⟩
  | spawn | quiet | recover | recovered | crash => exact ⟨by simp, by simp⟩

end Supervisor

/-! ### Attempts -/

namespace Attempt

/-- The end of the attempt is still to be handled. -/
def Unresolved (a : Attempt Peer) : Prop :=
  a.watch = .looping ∨ (a.watch = .joining ∧ a.supervisor.stage = .crashed)

/-- What the channel and the update task of an attempt know of its supervisor. -/
structure Sound (a : Attempt Peer) : Prop where
  supervisor : a.supervisor.Sound
  final : ∀ r q, Update.finished r q ∈ a.updates → a.supervisor.stage = .returned ∧
    q = a.supervisor.quiescent ∧ (q = false → ∃ e, r = .error e ∧ e.code = .recoveryRequired)
  pending : a.watch = .looping → a.supervisor.stage = .returned →
    ∃ r q, Update.finished r q ∈ a.updates
  ended : a.watch ≠ .looping → a.supervisor.running = false

theorem stage_of_not_running {s : Supervisor} (h : s.running = false) :
    s.stage = .returned ∨ s.stage = .crashed := by
  unfold Supervisor.running at h
  cases hs : s.stage <;> simp_all

variable {a : Attempt Peer} {e : SupervisorEvent} {supervisor : Supervisor} {sent : List Update}

theorem Sound.supervise (h : a.Sound) (hs : a.supervisor.step e = some (supervisor, sent)) :
    ({ a with supervisor, updates := a.updates ++ sent } : Attempt Peer).Sound := by
  have shape := Supervisor.shape_of_step hs
  obtain ⟨hfinal, hpending⟩ := shape.sends h.supervisor
  have hrun : a.supervisor.stage ≠ .returned := by
    intro hr
    obtain ⟨hc, -⟩ := shape.ended (by rw [Supervisor.running, hr])
    rw [hr] at hc
    cases hc
  refine ⟨shape.sound h.supervisor, fun r q hmem => ?_, fun _ hst => ?_, fun hw => ?_⟩
  · rcases List.mem_append.1 hmem with hmem | hmem
    · exact absurd (h.final r q hmem).1 hrun
    · exact hfinal r q hmem
  · obtain ⟨r, q, hmem⟩ := hpending hst
    exact ⟨r, q, List.mem_append_right _ hmem⟩
  · obtain ⟨-, hc, -⟩ := shape.ended (h.ended hw)
    simp [Supervisor.running, hc]

/-- A supervisor's step resolves nothing. -/
theorem unresolved_supervise (h : a.Sound)
    (hs : a.supervisor.step e = some (supervisor, sent)) :
    ({ a with supervisor, updates := a.updates ++ sent } : Attempt Peer).Unresolved ↔
      a.Unresolved := by
  by_cases hw : a.watch = .looping
  · simp [Unresolved, hw]
  · obtain ⟨hc, hc', -⟩ := (Supervisor.shape_of_step hs).ended (h.ended hw)
    simp [Unresolved, hw, hc, hc']

/-- A settled supervisor makes no step. -/
theorem not_settled_of_step (hs : a.supervisor.step e = some (supervisor, sent)) :
    ¬ a.supervisor.Settled := by
  rintro ⟨hr, -⟩
  obtain ⟨hc, -⟩ := (Supervisor.shape_of_step hs).ended (by rw [Supervisor.running, hr])
  rw [hr] at hc
  cases hc

end Attempt

/-! ### The slot and the attempts -/

theorem Service.holds_iff {v : Service Peer} {id : Uuid} :
    v.holds id = true ↔ ∃ slot, v.state.slot = some slot ∧ slot.attempt = id := by
  unfold holds
  cases v.state.slot <;> simp

/-- The slot is held by the last attempt until its end is handled. -/
structure System.Core (v : Service Peer) (attempts : List (Attempt Peer)) (issued : List Uuid) :
    Prop where
  sound : ∀ a ∈ attempts, a.Sound
  distinct : (attempts.map (·.id)).Nodup
  known : ∀ a ∈ attempts, a.id ∈ issued
  slotIssued : ∀ slot, v.state.slot = some slot → slot.attempt ∈ issued
  /-- A reservation that was not started names no attempt. -/
  reserved : ∀ slot, v.state.slot = some slot → slot.cancel = none →
    ∀ a ∈ attempts, a.id ≠ slot.attempt
  started : ∀ slot k, v.state.slot = some slot → slot.cancel = some k →
    ∃ a, attempts[k]? = some a ∧ a.id = slot.attempt ∧ a.owner = slot.owner ∧ a.Unresolved
  unresolved : ∀ k a, attempts[k]? = some a → a.Unresolved →
    ∃ slot, v.state.slot = some slot ∧ slot.cancel = some k
  /-- Only the last attempt may be unsettled, and then it holds the slot or blocks the daemon. -/
  settled : ∀ k a, attempts[k]? = some a → ¬ a.supervisor.Settled →
    k + 1 = attempts.length ∧ (a.Unresolved ∨ v.state.quiescenceBlocked = true)
  clear : v.state.slot.isSome = true →
    v.state.recoveryBlocked = false ∧ v.state.quiescenceBlocked = false

namespace System.Core

variable {v v' : Service Peer} {attempts : List (Attempt Peer)} {issued : List Uuid}
  {a : Attempt Peer} {k : ℕ}

/-- The slot is held by exactly the unresolved attempt. -/
theorem holds_iff_unresolved (h : Core v attempts issued) (ha : attempts[k]? = some a) :
    v.holds a.id = true ↔ a.Unresolved := by
  have hmem : a ∈ attempts := List.mem_of_getElem? ha
  constructor
  · intro hh
    obtain ⟨slot, hslot, hid⟩ := Service.holds_iff.1 hh
    cases hc : slot.cancel with
    | none => exact absurd hid.symm (h.reserved slot hslot hc a hmem)
    | some j =>
      obtain ⟨b, hb, hbid, -, hun⟩ := h.started slot j hslot hc
      have hjk : j = k := by
        have hj : (attempts.map (·.id))[j]? = some a.id := by simp [hb, hbid, hid]
        have hk : (attempts.map (·.id))[k]? = some a.id := by simp [ha]
        have hlt : j < (attempts.map (·.id)).length := (List.getElem?_eq_some_iff.1 hj).1
        exact (List.getElem?_inj hlt h.distinct).1 (hj.trans hk.symm)
      subst hjk
      rw [ha] at hb
      exact (Option.some.inj hb) ▸ hun
  · intro hun
    obtain ⟨slot, hslot, hc⟩ := h.unresolved k a ha hun
    obtain ⟨b, hb, hbid, -⟩ := h.started slot k hslot hc
    rw [ha] at hb
    obtain rfl := Option.some.inj hb
    exact Service.holds_iff.2 ⟨slot, hslot, hbid.symm⟩

/-- No attempt is unresolved while the slot is free or not started. -/
theorem not_unresolved (h : Core v attempts issued) (ha : attempts[k]? = some a)
    (hc : ∀ slot, v.state.slot = some slot → slot.cancel = none) : ¬ a.Unresolved := by
  intro hun
  obtain ⟨slot, hslot, hk⟩ := h.unresolved k a ha hun
  rw [hc slot hslot] at hk
  cases hk

/-- What the invariant reads of a slot. -/
def key (slot : Slot Peer) : Peer × Uuid × Option ℕ := (slot.owner, slot.attempt, slot.cancel)

theorem exists_of_key {x y : Option (Slot Peer)} (h : x.map key = y.map key) {slot : Slot Peer}
    (hx : x = some slot) : ∃ slot', y = some slot' ∧ slot'.owner = slot.owner ∧
      slot'.attempt = slot.attempt ∧ slot'.cancel = slot.cancel := by
  subst hx
  cases y with
  | none => cases h
  | some slot' =>
    simp only [Option.map_some, Option.some.injEq, key, Prod.mk.injEq] at h
    exact ⟨slot', rfl, h.1.symm, h.2.1.symm, h.2.2.symm⟩

/-- The invariant does not read the rest of the service. -/
theorem congr (h : Core v attempts issued)
    (hslot : v'.state.slot.map key = v.state.slot.map key)
    (hr : v'.state.slot.isSome = true → v'.state.recoveryBlocked = v.state.recoveryBlocked)
    (hq : v'.state.quiescenceBlocked = v.state.quiescenceBlocked) : Core v' attempts issued where
  sound := h.sound
  distinct := h.distinct
  known := h.known
  slotIssued slot hs := by
    obtain ⟨slot', hs', -, hid, -⟩ := exists_of_key hslot hs
    exact hid ▸ h.slotIssued slot' hs'
  reserved slot hs hc := by
    obtain ⟨slot', hs', -, hid, hc'⟩ := exists_of_key hslot hs
    exact hid ▸ h.reserved slot' hs' (hc'.trans hc)
  started slot k hs hc := by
    obtain ⟨slot', hs', ho, hid, hc'⟩ := exists_of_key hslot hs
    obtain ⟨a, ha, hid', ho', hun⟩ := h.started slot' k hs' (hc'.trans hc)
    exact ⟨a, ha, hid'.trans hid, ho'.trans ho, hun⟩
  unresolved k a ha hun := by
    obtain ⟨slot, hs, hc⟩ := h.unresolved k a ha hun
    obtain ⟨slot', hs', -, -, hc'⟩ := exists_of_key hslot.symm hs
    exact ⟨slot', hs', hc'.trans hc⟩
  settled k a ha hst := by
    rw [hq]
    exact h.settled k a ha hst
  clear hs := by
    have hs' : v.state.slot.isSome = true := by
      obtain ⟨slot, hslot'⟩ := Option.isSome_iff_exists.1 hs
      obtain ⟨slot', hs', -⟩ := exists_of_key hslot hslot'
      simp [hs']
    rw [hr hs, hq]
    exact h.clear hs'

theorem getElem?_set_cases {l : List (Attempt Peer)} {b c : Attempt Peer} {j : ℕ}
    (h : (l.set k b)[j]? = some c) : (j = k ∧ c = b) ∨ (j ≠ k ∧ l[j]? = some c) := by
  rw [List.getElem?_set] at h
  split_ifs at h with hjk hlt
  · exact .inl ⟨hjk.symm, (Option.some.inj h).symm⟩
  · exact .inr ⟨fun heq => hjk heq.symm, h⟩

theorem map_id_set {b : Attempt Peer} (ha : attempts[k]? = some a) (hid : b.id = a.id) :
    (attempts.set k b).map (·.id) = attempts.map (·.id) := by
  refine List.ext_getElem? fun j => ?_
  rw [List.getElem?_map, List.getElem?_map, List.getElem?_set]
  split_ifs with hjk hlt
  · subst hjk
    simp [ha, hid]
  · subst hjk
    rw [List.getElem?_eq_none (Nat.not_lt.1 hlt)]
  · rfl

/-- Replacing an attempt by one that is resolved and settled to the same extent. -/
theorem replace {b : Attempt Peer} (h : Core v attempts issued) (ha : attempts[k]? = some a)
    (hid : b.id = a.id) (ho : b.owner = a.owner) (hsound : b.Sound)
    (hun : b.Unresolved ↔ a.Unresolved)
    (hset : ¬ b.supervisor.Settled → ¬ a.supervisor.Settled) :
    Core v (attempts.set k b) issued where
  sound x hx := by
    rcases List.mem_or_eq_of_mem_set hx with hx | rfl
    · exact h.sound x hx
    · exact hsound
  distinct := by rw [map_id_set ha hid]; exact h.distinct
  known x hx := by
    rcases List.mem_or_eq_of_mem_set hx with hx | rfl
    · exact h.known x hx
    · exact hid ▸ h.known a (List.mem_of_getElem? ha)
  slotIssued := h.slotIssued
  reserved slot hs hc x hx := by
    rcases List.mem_or_eq_of_mem_set hx with hx | rfl
    · exact h.reserved slot hs hc x hx
    · exact hid ▸ h.reserved slot hs hc a (List.mem_of_getElem? ha)
  started slot j hs hc := by
    obtain ⟨x, hx, hxid, hxo, hxun⟩ := h.started slot j hs hc
    by_cases hjk : j = k
    · subst hjk
      rw [ha] at hx
      obtain rfl := Option.some.inj hx
      have hlt := (List.getElem?_eq_some_iff.1 ha).1
      exact ⟨b, by simp [hlt], hid.trans hxid, ho.trans hxo, hun.2 hxun⟩
    · exact ⟨x, by rw [List.getElem?_set_ne (Ne.symm hjk)]; exact hx, hxid, hxo, hxun⟩
  unresolved j x hx hxun := by
    rcases getElem?_set_cases hx with ⟨rfl, rfl⟩ | ⟨-, hx⟩
    · exact h.unresolved j a ha (hun.1 hxun)
    · exact h.unresolved j x hx hxun
  settled j x hx hxset := by
    rw [List.length_set]
    rcases getElem?_set_cases hx with ⟨rfl, rfl⟩ | ⟨-, hx⟩
    · rw [hun]
      exact h.settled j a ha (hset hxset)
    · exact h.settled j x hx hxset
  clear := h.clear

/-- Freeing the slot while no attempt is unresolved. -/
theorem free (h : Core v attempts issued) (hnone : v'.state.slot = none)
    (hun : ∀ (k : ℕ) (a : Attempt Peer), attempts[k]? = some a → ¬ a.Unresolved)
    (hq : v.state.quiescenceBlocked = true → v'.state.quiescenceBlocked = true) :
    Core v' attempts issued where
  sound := h.sound
  distinct := h.distinct
  known := h.known
  slotIssued slot hs := by rw [hnone] at hs; cases hs
  reserved slot hs := by rw [hnone] at hs; cases hs
  started slot k hs := by rw [hnone] at hs; cases hs
  unresolved k a ha hu := absurd hu (hun k a ha)
  settled k a ha hst := by
    obtain ⟨hk, hor⟩ := h.settled k a ha hst
    exact ⟨hk, hor.imp_right hq⟩
  clear hs := by rw [hnone] at hs; cases hs

/-- Handling the end of the attempt that holds the slot frees the slot; unless the attempt is
settled, the daemon is blocked. -/
theorem resolve {b : Attempt Peer} (h : Core v attempts issued) (ha : attempts[k]? = some a)
    (hun : a.Unresolved) (hid : b.id = a.id) (hsound : b.Sound) (hb : ¬ b.Unresolved)
    (hnone : v'.state.slot = none)
    (hset : ¬ b.supervisor.Settled →
      ¬ a.supervisor.Settled ∧ v'.state.quiescenceBlocked = true) :
    Core v' (attempts.set k b) issued where
  sound x hx := by
    rcases List.mem_or_eq_of_mem_set hx with hx | rfl
    · exact h.sound x hx
    · exact hsound
  distinct := by rw [map_id_set ha hid]; exact h.distinct
  known x hx := by
    rcases List.mem_or_eq_of_mem_set hx with hx | rfl
    · exact h.known x hx
    · exact hid ▸ h.known a (List.mem_of_getElem? ha)
  slotIssued slot hs := by rw [hnone] at hs; cases hs
  reserved slot hs := by rw [hnone] at hs; cases hs
  started slot k hs := by rw [hnone] at hs; cases hs
  unresolved j x hx hxun := by
    rcases getElem?_set_cases hx with ⟨rfl, rfl⟩ | ⟨hjk, hx⟩
    · exact absurd hxun hb
    -- only one attempt holds the slot
    · obtain ⟨slot, hs, hc⟩ := h.unresolved k a ha hun
      obtain ⟨slot', hs', hc'⟩ := h.unresolved j x hx hxun
      rw [hs] at hs'
      obtain rfl := Option.some.inj hs'
      rw [hc] at hc'
      exact absurd (Option.some.inj hc').symm hjk
  settled j x hx hxset := by
    rw [List.length_set]
    rcases getElem?_set_cases hx with ⟨rfl, rfl⟩ | ⟨hjk, hx⟩
    · obtain ⟨has, hq⟩ := hset hxset
      exact ⟨(h.settled j a ha has).1, .inr hq⟩
    · obtain ⟨hlast, hor⟩ := h.settled j x hx hxset
      obtain ⟨slot, hs, hc⟩ := h.unresolved k a ha hun
      rcases hor with hxun | hq
      · obtain ⟨slot', hs', hc'⟩ := h.unresolved j x hx hxun
        rw [hs] at hs'
        obtain rfl := Option.some.inj hs'
        rw [hc] at hc'
        exact absurd (Option.some.inj hc').symm hjk
      · rw [(h.clear (by simp [hs])).2] at hq
        cases hq
  clear hs := by rw [hnone] at hs; cases hs

/-- Cancelling keeps a started slot and frees any other. -/
theorem cancelled (h : Core v attempts issued)
    (hslot : v'.state.slot = if v.state.slot.any (·.cancel.isSome) then v.state.slot else none)
    (hr : v'.state.recoveryBlocked = v.state.recoveryBlocked)
    (hq : v'.state.quiescenceBlocked = v.state.quiescenceBlocked) : Core v' attempts issued := by
  by_cases hs : v.state.slot.any (·.cancel.isSome) = true
  · rw [if_pos hs] at hslot
    exact h.congr (by rw [hslot]) (fun _ => hr) hq
  · rw [if_neg hs] at hslot
    refine h.free hslot (fun k a ha => h.not_unresolved ha fun slot hslot' => ?_) fun hb => hq ▸ hb
    simpa [hslot'] using hs

end System.Core

/-! ### Every move keeps the invariant -/

section Moves

variable {s : System Peer Handoff} {input : Input Peer Handoff} {v : Service Peer}
  {attempts : List (Attempt Peer)} {issued : List Uuid}

theorem System.Core.move (h : Core s.service s.attempts s.issued)
    (hcoh : s.service.state.Coherent) (hm : Move s input v attempts issued) :
    Core v attempts issued := by
  cases hm with
  | still => exact h
  | reserve m peer c id name protocol hstop hblocked hslot hfresh =>
    have hq : s.service.state.quiescenceBlocked = false := by
      rw [Bool.eq_false_iff]
      intro hq
      rw [hcoh.blocked hq] at hblocked
      cases hblocked
    have hres : ∀ (k : ℕ) (a : Attempt Peer), s.attempts[k]? = some a → ¬ a.Unresolved := fun k a ha =>
      h.not_unresolved ha fun slot hs => by rw [hslot] at hs; cases hs
    refine ⟨h.sound, h.distinct, fun a ha => List.mem_append_left _ (h.known a ha),
      fun slot hs => ?_, fun slot hs _ a ha hid => ?_, fun slot k hs hc => ?_,
      fun k a ha hun => absurd hun (hres k a ha), fun k a ha hst => ?_, fun _ => ?_⟩
    · simp only [Service.reserved, Service.publish_slot, Option.some.injEq] at hs
      simp [← hs]
    · simp only [Service.reserved, Service.publish_slot, Option.some.injEq] at hs
      have heq : m.fresh = a.id := by rw [hid, ← hs]
      exact hfresh (heq ▸ h.known a ha)
    · simp only [Service.reserved, Service.publish_slot, Option.some.injEq] at hs
      simp [← hs] at hc
    · obtain ⟨hk, hor⟩ := h.settled k a ha hst
      simpa [Service.reserved] using And.intro hk hor
    · simp [Service.reserved, hblocked, hq]
  | start m slot fresh hslot hcancel hnext =>
    obtain ⟨hr, hq⟩ := h.clear (by simp [hslot])
    have hres : ∀ (k : ℕ) (a : Attempt Peer), s.attempts[k]? = some a → ¬ a.Unresolved := fun k a ha =>
      h.not_unresolved ha fun slot' hs => by
        rw [hslot] at hs
        exact Option.some.inj hs ▸ hcancel
    -- the attempts before the new one have ended
    have hset : ∀ (k : ℕ) (a : Attempt Peer), s.attempts[k]? = some a →
        a.supervisor.Settled := fun k a ha => by
      by_contra hst
      rcases (h.settled k a ha hst).2 with hun | hb
      · exact hres k a ha hun
      · rw [hq] at hb
        cases hb
    have hkey : (s.service.started m slot).state.slot =
        some { slot with cancel := some m.next } := by simp [Service.started]
    set b : Attempt Peer := ⟨slot.attempt, slot.owner, .new, [], .looping⟩ with hb
    have hcases : ∀ (k : ℕ) (a : Attempt Peer), (s.attempts ++ [b])[k]? = some a →
        s.attempts[k]? = some a ∨ (k = s.attempts.length ∧ a = b) := by
      intro k a ha
      rcases Nat.lt_trichotomy k s.attempts.length with hk | hk | hk
      · rw [List.getElem?_append_left hk] at ha
        exact .inl ha
      · subst hk
        simp only [List.getElem?_concat_length, Option.some.injEq] at ha
        exact .inr ⟨rfl, ha.symm⟩
      · rw [List.getElem?_append_right (by omega),
          List.getElem?_eq_none (by rw [List.length_singleton]; omega)] at ha
        cases ha
    refine ⟨fun a ha => ?_, ?_, fun a ha => ?_, fun slot' hs => ?_, fun slot' hs hc => ?_,
      fun slot' k hs hc => ?_, fun k a ha hun => ?_, fun k a ha hst => ?_, fun _ => ?_⟩
    · rcases List.mem_append.1 ha with ha | ha
      · exact h.sound a ha
      · rw [List.mem_singleton.1 ha]
        exact ⟨Supervisor.sound_new, by simp [hb], by simp [hb, Supervisor.new], by simp [hb]⟩
    · rw [List.map_append, List.nodup_append]
      refine ⟨h.distinct, by simp, fun x hx y hy => ?_⟩
      obtain ⟨a, ha, rfl⟩ := List.mem_map.1 hx
      rw [List.mem_map] at hy
      obtain ⟨b', hb', rfl⟩ := hy
      rw [List.mem_singleton.1 hb']
      exact h.reserved slot hslot hcancel a ha
    · rcases List.mem_append.1 ha with ha | ha
      · exact h.known a ha
      · rw [List.mem_singleton.1 ha]
        exact h.slotIssued slot hslot
    · rw [hkey, Option.some.injEq] at hs
      exact hs ▸ h.slotIssued slot hslot
    · rw [hkey, Option.some.injEq] at hs
      rw [← hs] at hc
      cases hc
    · rw [hkey, Option.some.injEq] at hs
      subst hs
      obtain rfl : k = s.attempts.length := hnext ▸ (Option.some.inj hc).symm
      exact ⟨b, by simp, rfl, rfl, .inl rfl⟩
    · rcases hcases k a ha with ha | ⟨rfl, rfl⟩
      · exact absurd hun (hres k a ha)
      · exact ⟨_, hkey, by simp [hnext]⟩
    · rcases hcases k a ha with ha | ⟨rfl, rfl⟩
      · exact absurd (hset k a ha) hst
      · exact ⟨by simp, .inl (.inl rfl)⟩
    · simp [Service.started, hr, hq]
  | renew _ slot clock hslot =>
    exact h.congr (by simp [hslot, System.Core.key]) (fun _ => rfl) rfl
  | cancel _ wall => exact h.cancelled Service.cancel_slot (by simp) (by simp)
  | stop _ wall => exact h.cancelled Service.stop_slot (by simp) (by simp)
  | unblock c hquiet =>
    exact h.congr rfl (fun hs => by simp [Service.unblock, hquiet.2.1] at hs) rfl
  | supervise k a event supervisor sent ha hstep =>
    have hs := h.sound a (List.mem_of_getElem? ha)
    exact h.replace ha rfl rfl (hs.supervise hstep) (Attempt.unresolved_supervise hs hstep)
      fun _ => Attempt.not_settled_of_step hstep
  | update k a u rest session wall ha hw hu hh =>
    have hs := h.sound a (List.mem_of_getElem? ha)
    cases hfin : u.isFinished with
    | false =>
      obtain ⟨hslot, hr, hq⟩ := Service.update_frame s.service session wall hfin
      refine (h.congr (by rw [hslot]) (fun _ => hr) hq).replace ha rfl rfl ?_ ?_ id
      · refine ⟨hs.supervisor, fun r q hmem => hs.final r q (by simp [hu, hmem]), fun _ hst => ?_,
          by simp⟩
        obtain ⟨r, q, hmem⟩ := hs.pending hw hst
        rw [hu, List.mem_cons] at hmem
        rcases hmem with rfl | hmem
        · cases hfin
        · exact ⟨r, q, hmem⟩
      · simp [Attempt.Unresolved, hw]
    | true =>
      cases u with
      | finished r q =>
        obtain ⟨hst, hq, -⟩ := hs.final r q (by simp [hu])
        refine h.resolve ha (.inl hw) rfl ?_ ?_ (by simp [Service.update]) fun hset => ?_
        · refine ⟨hs.supervisor, fun r q hmem => hs.final r q (by simp [hu, hmem]), by simp, ?_⟩
          intro _
          simp [Supervisor.running, hst]
        · simp [Attempt.Unresolved, hst]
        · have hqf : q = false := by
            rw [Bool.eq_false_iff]
            intro hqt
            exact hset ⟨hst, hq ▸ hqt⟩
          exact ⟨hset, by simp [Service.update, hqf]⟩
      | connected | reconnecting | traffic => cases hfin
  | stale k a rest session wall ha hw hh =>
    have hun := (h.holds_iff_unresolved ha).2 (.inl hw)
    rw [hh] at hun
    cases hun
  | drained k a ha hw hu hrun =>
    have hs := h.sound a (List.mem_of_getElem? ha)
    -- a supervisor that returned has left its final update
    have hst : a.supervisor.stage = .crashed := by
      rcases Attempt.stage_of_not_running hrun with hst | hst
      · obtain ⟨r, q, hmem⟩ := hs.pending hw hst
        rw [hu] at hmem
        cases hmem
      · exact hst
    refine h.replace ha rfl rfl ⟨hs.supervisor, hs.final, by simp, fun _ => hrun⟩ ?_ id
    simp [Attempt.Unresolved, hw, hst]
  | join k a wall ha hw hrun hh =>
    have hs := h.sound a (List.mem_of_getElem? ha)
    have hun : ¬ a.Unresolved := fun hun => by
      rw [(h.holds_iff_unresolved ha).2 hun] at hh
      cases hh
    refine h.replace ha rfl rfl ⟨hs.supervisor, hs.final, by simp, fun _ => hrun⟩ ?_ id
    simpa [Attempt.Unresolved] using hun
  | fail k a wall ha hw hrun hh =>
    have hs := h.sound a (List.mem_of_getElem? ha)
    have hun := (h.holds_iff_unresolved ha).1 hh
    exact h.resolve ha hun rfl ⟨hs.supervisor, hs.final, by simp, fun _ => hrun⟩
      (by simp [Attempt.Unresolved]) (by simp [Service.supervisorFailed])
      fun hset => ⟨hset, by simp [Service.supervisorFailed]⟩

theorem Session.Coherent.move (h : s.service.state.Coherent)
    (hcore : System.Core s.service s.attempts s.issued) (hm : Move s input v attempts issued) :
    v.state.Coherent := by
  cases hm with
  | still | supervise | stale | drained | join => exact h
  | reserve => exact Service.coherent_reserved h
  | start m slot fresh hslot hcancel _ => exact Service.coherent_started h hslot hcancel
  | renew _ slot clock hslot => exact Service.coherent_renew h hslot
  | cancel => exact Service.coherent_cancel h
  | stop => exact Service.coherent_stop h
  | unblock c hquiet => exact Service.coherent_unblock h hquiet.2.2
  | update k a u rest session wall ha hw hu hh =>
    obtain ⟨slot, hslot, hc⟩ := hcore.unresolved k a ha (.inl hw)
    cases u with
    | finished r q =>
      obtain ⟨-, -, hcode⟩ := (hcore.sound a (List.mem_of_getElem? ha)).final r q (by simp [hu])
      exact Service.coherent_finished h hcode
    | connected | reconnecting | traffic => exact Service.coherent_update h rfl hslot hc
  | fail => exact Service.coherent_supervisorFailed h

theorem Service.Numbered.move (h : s.service.Numbered) (hm : Move s input v attempts issued) :
    v.Numbered := by
  cases hm with
  | still | supervise | stale | drained | join => exact h
  | reserve => exact numbered_publish (h.congr rfl rfl)
  | start => exact numbered_publish (h.congr rfl rfl)
  | renew => exact h.congr rfl rfl
  | cancel => exact numbered_cancel h
  | stop => exact numbered_stop h
  | unblock => exact h.congr rfl rfl
  | update => exact numbered_update h
  | fail => exact numbered_publish (h.congr rfl rfl)

/-- A quiet session stays quiet. -/
theorem Session.Quiet.move (h : s.service.state.Quiet) (hm : Move s input v attempts issued) :
    v.state.Quiet := by
  obtain ⟨hstop, hslot, hq⟩ := h
  have hnone : ∀ id, s.service.holds id = false := fun id => by simp [Service.holds, hslot]
  cases hm with
  | still | supervise | stale | drained | join => exact ⟨hstop, hslot, hq⟩
  | reserve m peer c id name protocol hstop' =>
    rw [hstop] at hstop'
    cases hstop'
  | start m slot fresh hs =>
    rw [hslot] at hs
    cases hs
  | renew _ slot clock hs =>
    rw [hslot] at hs
    cases hs
  | cancel => exact ⟨by simp [hstop], by simp [Service.cancel_slot, hslot], by simp [hq]⟩
  | stop => exact ⟨by simp, by simp [Service.stop_slot, hslot], by simp [hq]⟩
  | unblock => exact ⟨hstop, hslot, hq⟩
  | update k a u rest session wall ha hw hu hh =>
    rw [hnone] at hh
    cases hh
  | fail k a wall ha hw hrun hh =>
    rw [hnone] at hh
    cases hh

/-- A stopped session stays stopped. -/
theorem stopping_move (h : s.service.state.stopping = true)
    (hm : Move s input v attempts issued) : v.state.stopping = true := by
  cases hm with
  | still | supervise | stale | drained | join | renew | unblock => exact h
  | reserve m peer c id name protocol hstop' =>
    rw [h] at hstop'
    cases hstop'
  | start => simpa [Service.started] using h
  | cancel => simpa using h
  | stop => simp
  | update => simpa using h
  | fail => simpa [Service.supervisorFailed] using h

theorem Phase.Fits.move {phase : Phase Peer Handoff} (h : phase.Fits s.service.state)
    (hm : Move s input v attempts issued) : phase.Fits v.state := by
  cases phase with
  | quiescing stage id =>
    cases stage with
    | waiting => exact stopping_move h hm
    | recovered outcome => exact Session.Quiet.move h hm
    | locking | locked | recovering => trivial
  | reading | requested | following | received | returned | closed => trivial

end Moves

/-! ### The administrative phases -/

namespace System

variable {s s' t : System Peer Handoff} {input : Input Peer Handoff} {out : List (Output Peer)}
  {c : ℕ} {phase : Phase Peer Handoff}

/-- Phases that a step enters fit the session it leaves, and the mutex goes to a blocking task
only on a quiet session. -/
def Arrives (s s' : System Peer Handoff) : Prop :=
  (∀ conn ∈ s'.connections, conn ∈ s.connections ∨ conn.phase.Fits s'.service.state) ∧
    ∀ c, s'.recovery = some (.task c) → s.recovery = some (.task c) ∨ s'.service.state.Quiet

theorem arrives_of_eq (hc : s'.connections = s.connections) (hr : s'.recovery = s.recovery) :
    Arrives s s' :=
  ⟨fun _ hconn => .inl (hc ▸ hconn), fun _ hrec => .inl (hr ▸ hrec)⟩

theorem mem_setPhase {conn : Connection Peer Handoff} (h : conn ∈ (t.setPhase c phase).connections) :
    conn ∈ t.connections ∨ conn.phase = phase := by
  obtain ⟨j, hj⟩ := List.mem_iff_getElem?.1 h
  rw [setPhase, List.getElem?_modify] at hj
  split_ifs at hj with hcj
  · obtain ⟨x, hx, rfl⟩ := Option.map_eq_some_iff.1 hj
    exact .inr rfl
  · exact .inl (List.mem_of_getElem? (by simpa using hj))

theorem arrives_setPhase (hc : t.connections = s.connections)
    (hr : ∀ c, t.recovery = some (.task c) →
      s.recovery = some (.task c) ∨ t.service.state.Quiet)
    (hp : phase.Fits t.service.state) : Arrives s (t.setPhase c phase) := by
  refine ⟨fun conn hconn => ?_, hr⟩
  rcases mem_setPhase hconn with hconn | heq
  · exact .inl (hc ▸ hconn)
  · exact .inr (heq ▸ hp)

theorem arrives_quiesce {peer : Peer} {id : Uuid} {stage : Quiesce} (hadm : s.Admin)
    (hc : s.connections[c]? = some ⟨peer, .quiescing stage id⟩)
    (h : s.quiesce c peer id stage input = some (s', out)) : Arrives s s' := by
  have hfits := hadm.phases _ (mem_connections hc)
  have hkeep : ∀ x, (s.release c).recovery = some (.task x) →
      s.recovery = some (.task x) ∨ (s.release c).service.state.Quiet := fun x hx => by
    rw [release_recovery] at hx
    split_ifs at hx
    exact .inl hx
  unfold quiesce answer at h
  split at h
  · split_ifs at h
    rw [← (Prod.mk.inj (Option.some.inj h)).1]
    exact arrives_setPhase rfl (by simp) trivial
  · rw [← (Prod.mk.inj (Option.some.inj h)).1]
    exact arrives_setPhase rfl (fun _ => .inl) trivial
  · rw [← (Prod.mk.inj (Option.some.inj h)).1]
    exact arrives_setPhase rfl (fun _ => .inl) Service.stop_stopping
  · split_ifs at h with hslot hq
    · rw [← (Prod.mk.inj (Option.some.inj h)).1]
      exact arrives_of_eq rfl rfl
    · rw [← (Prod.mk.inj (Option.some.inj h)).1]
      exact arrives_setPhase release_connections hkeep trivial
    · rw [← (Prod.mk.inj (Option.some.inj h)).1]
      have hquiet : s.service.state.Quiet :=
        ⟨hfits, by simpa using hslot, Bool.eq_false_iff.2 hq⟩
      exact arrives_setPhase rfl (fun _ _ => .inr hquiet) trivial
  · rw [← (Prod.mk.inj (Option.some.inj h)).1]
    exact arrives_setPhase release_connections hkeep trivial
  · rw [← (Prod.mk.inj (Option.some.inj h)).1]
    exact arrives_setPhase rfl (fun _ => .inl) trivial
  · rw [← (Prod.mk.inj (Option.some.inj h)).1]
    exact arrives_setPhase rfl (fun _ => .inl) trivial
  · split at h <;>
    · rw [← (Prod.mk.inj (Option.some.inj h)).1]
      exact arrives_setPhase rfl (fun _ => .inl) trivial
  · cases h

variable [DecidableEq Peer] {setup : Service.Setup Peer Handoff}

theorem arrives_dispatchRequest {cursor : ℕ} {peer : Peer} {request : Request Handoff}
    {fresh : Uuid} {wall : ℤ} :
    Arrives s (s.dispatchRequest setup c cursor peer request fresh wall).1 := by
  have hfits : ∀ (q : Session Peer) (b : Bool),
      (afterResponse cursor request.method b : Phase Peer Handoff).Fits q := fun q b => by
    unfold afterResponse
    split_ifs <;> trivial
  unfold dispatchRequest answer
  simp only
  split <;> exact arrives_setPhase rfl (fun _ => .inl) (hfits _ _)

theorem arrives_connection (hadm : s.Admin) (h : s.connection setup c input = some (s', out)) :
    Arrives s s' := by
  unfold connection at h
  split at h
  · cases h
  rename_i peer phase hc
  split at h
  · rw [← (Prod.mk.inj (Option.some.inj h)).1]
    exact arrives_setPhase rfl (fun _ => .inl) trivial
  · split_ifs at h
    rw [show s' = _ from (congrArg Prod.fst (Option.some.inj h)).symm]
    exact arrives_dispatchRequest
  · unfold answer at h
    split at h <;>
    · rw [← (Prod.mk.inj (Option.some.inj h)).1]
      exact arrives_setPhase rfl (fun _ => .inl) trivial
  · exact arrives_quiesce hadm hc h
  · rw [Option.map_eq_some_iff] at h
    obtain ⟨⟨cursor, item⟩, -, h⟩ := h
    rw [← (Prod.mk.inj h).1]
    exact arrives_setPhase rfl (fun _ => .inl) trivial
  · split at h <;>
    · rw [← (Prod.mk.inj (Option.some.inj h)).1]
      exact arrives_setPhase rfl (fun _ => .inl) trivial
  iterate 3
    · rw [← (Prod.mk.inj (Option.some.inj h)).1]
      exact arrives_setPhase rfl (fun _ => .inl) trivial
  · rw [← (Prod.mk.inj (Option.some.inj h)).1]
    exact arrives_setPhase rfl (fun _ => .inl) trivial
  · cases h

omit [DecidableEq Peer] in
theorem arrives_attempt {k : ℕ} (h : s.attempt k input = some s') : Arrives s s' := by
  unfold attempt at h
  split at h
  · cases h
  simp only at h
  split at h
  · split_ifs at h
    obtain ⟨_, -, rfl⟩ := Option.map_eq_some_iff.1 h
    exact arrives_of_eq rfl rfl
  · split at h
    · split at h <;>
      · rw [← Option.some.inj h]
        exact arrives_of_eq rfl rfl
    · cases h
  · split_ifs at h
    rw [← Option.some.inj h]
    exact arrives_of_eq rfl rfl
  · split at h
    · rw [← Option.some.inj h]
      exact arrives_of_eq rfl rfl
    · cases h
  · cases h

theorem arrives_of_step (hadm : s.Admin) (h : step setup s input = some (s', out)) :
    Arrives s s' := by
  unfold step at h
  by_cases hmain : s.main = .exited
  · rw [if_pos hmain] at h
    cases h
  rw [if_neg hmain] at h
  cases input with
  | pass seconds =>
    rw [← (Prod.mk.inj (Option.some.inj h)).1]
    exact arrives_of_eq rfl rfl
  | accept peer =>
    obtain ⟨t, ht, h⟩ := Option.map_eq_some_iff.1 h
    unfold accept at ht
    split_ifs at ht
    rw [← (Prod.mk.inj h).1, ← Option.some.inj ht]
    -- the new connection is reading
    refine ⟨fun conn hconn => ?_, fun _ => .inl⟩
    rcases List.mem_append.1 hconn with hconn | hconn
    · exact .inl hconn
    · rw [List.mem_singleton.1 hconn]
      exact .inr trivial
  | adminRecovered outcome =>
    obtain ⟨t, ht, h⟩ := Option.map_eq_some_iff.1 h
    rw [← (Prod.mk.inj h).1]
    unfold adminRecovered at ht
    split at ht
    · rename_i x hx
      split at ht
      · rw [← Option.some.inj ht]
        exact arrives_setPhase rfl (by simp) (hadm.task x hx)
      · rw [← Option.some.inj ht]
        exact ⟨fun conn => .inl, by simp⟩
    · cases ht
  | supervise | update | drained | join =>
    obtain ⟨t, ht, h⟩ := Option.map_eq_some_iff.1 h
    rw [← (Prod.mk.inj h).1]
    exact arrives_attempt ht
  | leaseTick wall =>
    simp only at h
    split_ifs at h <;>
    · rw [← (Prod.mk.inj (Option.some.inj h)).1]
      exact arrives_of_eq rfl rfl
  | stop wall =>
    simp only at h
    split_ifs at h
    rw [← (Prod.mk.inj (Option.some.inj h)).1]
    exact arrives_of_eq rfl rfl
  | exit =>
    simp only at h
    split_ifs at h
    rw [← (Prod.mk.inj (Option.some.inj h)).1]
    refine ⟨fun conn hconn => .inr ?_, fun _ => .inl⟩
    obtain ⟨x, -, rfl⟩ := List.mem_map.1 hconn
    trivial
  | dispatch | read | admin | lock | lockTimeout | teardown | inspect | adminTimeout | conclude
  | receive | deliver | hangUp | cleanup => exact arrives_connection hadm h

/-! ### The invariant -/

/-- The invariant of the daemon. -/
structure Inv (s : System Peer Handoff) : Prop where
  coherent : s.service.state.Coherent
  numbered : s.service.Numbered
  core : Core s.service s.attempts s.issued
  admin : s.Admin

omit [DecidableEq Peer] in
theorem Inv.initial (instanceId : Uuid) (recoveryError : Option Error) :
    (System.start instanceId recoveryError : System Peer Handoff).Inv where
  coherent := ⟨by simp [start, idle], by simp [start], by simp [start], by simp [start],
    by simp [start], Nat.zero_le _⟩
  numbered := ⟨List.Pairwise.nil, by simp [start], by simp [start]⟩
  core := ⟨by simp [start], by simp [start], by simp [start], by simp [start], by simp [start],
    by simp [start], by simp [start], by simp [start], by simp [start]⟩
  admin := ⟨by simp [start], by simp [start]⟩

/-- Every step keeps the invariant. -/
theorem Inv.step (h : s.Inv) (hst : System.step setup s input = some (s', out)) : s'.Inv := by
  have hm := move_of_step h.admin hst
  obtain ⟨hconn, hrec⟩ := arrives_of_step h.admin hst
  refine ⟨h.coherent.move h.core hm, h.numbered.move hm, h.core.move h.coherent hm, ⟨?_, ?_⟩⟩
  · intro c hc
    rcases hrec c hc with hc | hquiet
    · exact (h.admin.task c hc).move hm
    · exact hquiet
  · intro conn hmem
    rcases hconn conn hmem with hmem | hfits
    · exact (h.admin.phases conn hmem).move hm
    · exact hfits

/-- Every reachable state satisfies the invariant. -/
theorem Inv.of_reachable (h : (machine Peer setup).Reachable s) : s.Inv :=
  h.invariant (fun _ ⟨id, e, hs⟩ => hs ▸ Inv.initial id e) fun _ _ _ _ hs hst => hs.step hst

/-- The end of attempt `a` is handled by this input: its final update, or the end of its
supervisor. -/
def EndsAttempt (k : ℕ) (a : Attempt Peer) (input : Input Peer Handoff) : Prop :=
  (∃ session wall r q, input = .update k session wall ∧
      a.updates.head? = some (.finished r q)) ∨
    ∃ wall, input = .join k wall ∧ a.supervisor.running = false

/-- Only the end of its attempt leaves the state `disconnecting`. -/
theorem disconnecting_left_by (h : s.Inv) (hst : System.step setup s input = some (s', out))
    (hd : s.service.state.snapshot.state = .disconnecting)
    (hd' : s'.service.state.snapshot.state ≠ .disconnecting) :
    ∃ k a, s.attempts[k]? = some a ∧ s.service.state.snapshot.attemptId = some a.id ∧
      EndsAttempt k a input := by
  have hm := move_of_step h.admin hst
  have hattempt : ∀ {id}, s.service.holds id = true →
      s.service.state.snapshot.attemptId = some id := fun hh => by
    obtain ⟨slot, hslot, hid⟩ := Service.holds_iff.1 hh
    rw [(h.coherent.owner slot hslot).2, hid]
  generalize s'.service = v at hm hd'
  generalize s'.attempts = attempts at hm
  generalize s'.issued = issued at hm
  cases hm with
  | still | supervise | stale | drained | join | renew | unblock => exact absurd hd hd'
  | reserve m peer c id name protocol _ _ hslot =>
    have hidle := h.coherent.slot.1 hslot
    simp [idle, hd] at hidle
  | start m slot fresh hslot hcancel =>
    have hauth := h.coherent.cancel.1 ⟨slot, hslot, hcancel⟩
    rw [hd] at hauth
    cases hauth
  | cancel _ wall => exact absurd (Service.cancel_disconnecting h.coherent hd) hd'
  | stop _ wall =>
    refine absurd (Service.cancel_disconnecting (v := { s.service with
      state := { s.service.state with stopping := true } }) ?_ hd) hd'
    exact ⟨h.coherent.slot, h.coherent.cancel, h.coherent.owner, h.coherent.network,
      h.coherent.blocked, h.coherent.logs⟩
  | update k a u rest session wall ha hw hu hh =>
    refine ⟨k, a, ha, hattempt hh, .inl ?_⟩
    cases u with
    | finished r q => exact ⟨session, wall, r, q, rfl, by rw [hu]; rfl⟩
    | connected | reconnecting => exact absurd (by simp [Service.update, hd]) hd'
    | traffic => exact absurd (by simpa [Service.update] using hd) hd'
  | fail k a wall ha hw hrun hh => exact ⟨k, a, ha, hattempt hh, .inr ⟨wall, rfl, hrun⟩⟩

/-- **The session invariant.**  In every reachable state of the daemon the coupled fields of the
session agree, the bus is strictly increasing and its snapshots carry their own numbers; and once
an attempt is disconnecting, only its end leaves that state. -/
theorem session_invariant (setup : Service.Setup Peer Handoff) (s : System Peer Handoff)
    (h : (machine Peer setup).Reachable s) :
    s.service.state.Coherent ∧ s.service.Numbered ∧
      ∀ input s' out, System.step setup s input = some (s', out) →
        s.service.state.snapshot.state = .disconnecting →
        s'.service.state.snapshot.state ≠ .disconnecting →
        ∃ k a, s.attempts[k]? = some a ∧ s.service.state.snapshot.attemptId = some a.id ∧
          EndsAttempt k a input :=
  have hinv := Inv.of_reachable h
  ⟨hinv.coherent, hinv.numbered, fun _ _ _ hst hd hd' => disconnecting_left_by hinv hst hd hd'⟩

/-! ### A run -/

/-- A daemon for peers named by numbers whose handoffs are protocol names. -/
def sampleSetup : Service.Setup ℕ String where
  os := .linux
  root peer := peer == 0
  capabilities :=
    { engineVersion := "9.12", apiMajor := 5, apiMinor := 9
      protocols := [{ id := "anyconnect", label := "", description := "", flags := 0 }]
      pkcs11 := false, totp := true, hotp := true, stoken := false, yubioath := false
      hpke := false }
  protocol := id
  validate _ _ _ := .ok ()

/-- A peer reserves and starts, the tunnel comes up, and the peer disconnects. -/
def sampleInputs : List (Input ℕ String) :=
  [.accept 7, .read 0 ⟨1, .reserve 2 "work" "anyconnect"⟩, .dispatch 0 3 100,
    .read 0 ⟨4, .start 3 "anyconnect"⟩, .dispatch 0 5 101, .supervise 0 .spawned,
    .supervise 0 .handoffWritten, .supervise 0 (.worker (some (.traffic { rxBytes := 1 }))),
    .supervise 0 (.worker (some (.connected ⟨"tun0", [], [], [], [], "DTLS"⟩))), .update 0 6 102,
    .update 0 6 103, .read 0 ⟨7, .disconnect⟩, .dispatch 0 8 104]

/-- The state after it. -/
def sampleState : System ℕ String :=
  (machine ℕ sampleSetup).perform (start 1 none) sampleInputs

theorem session_invariant_sample :
    sampleState.service.state.snapshot.state = .disconnecting ∧
    sampleState.service.state.Coherent ∧ sampleState.service.Numbered ∧
      ∀ input s' out, System.step sampleSetup sampleState input = some (s', out) →
        sampleState.service.state.snapshot.state = .disconnecting →
        s'.service.state.snapshot.state ≠ .disconnecting →
        ∃ k a, sampleState.attempts[k]? = some a ∧
          sampleState.service.state.snapshot.attemptId = some a.id ∧ EndsAttempt k a input :=
  ⟨by decide, session_invariant sampleSetup sampleState
    (Machine.Reachable.trans (.initial ⟨1, none, rfl⟩) (Machine.reaches_perform _ _))⟩

end System

end Ocvpn.Daemon
