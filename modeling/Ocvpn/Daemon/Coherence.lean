import Ocvpn.Daemon.Moves

/-!
# The session invariant, operation by operation

`Session.Coherent` relates the slot, the state, the owner, the network observation, the two blocks
and the log ring.  `Service.Numbered` says that the bus carries strictly increasing sequence
numbers, and that a snapshot on it carries its own.  Each operation of `Ocvpn.Daemon.Session` keeps
both; `Ocvpn.Daemon.Invariant` puts the operations together.
-/

namespace Ocvpn.Daemon

variable {Peer : Type}

/-- The states without a slot. -/
def idle (s : ConnectionState) : Prop :=
  s = .disconnected ∨ s = .failed ∨ s = .authenticationRequired

/-- The states in which a network configuration may be installed. -/
def installed (s : ConnectionState) : Prop :=
  s = .connected ∨ s = .reconnecting ∨ s = .disconnecting

/-- The coupled fields of a session agree. -/
structure Session.Coherent (s : Session Peer) : Prop where
  slot : s.slot = none ↔ idle s.snapshot.state
  cancel : (∃ slot, s.slot = some slot ∧ slot.cancel = none) ↔
    s.snapshot.state = .authenticating
  owner : ∀ slot, s.slot = some slot →
    s.lastOwner = some slot.owner ∧ s.snapshot.attemptId = some slot.attempt
  network : s.snapshot.network.isSome = true →
    s.slot.isSome = true ∧ installed s.snapshot.state
  blocked : s.quiescenceBlocked = true → s.recoveryBlocked = true
  logs : s.logs.length ≤ maxLogs

/-- The bus is numbered. -/
structure Service.Numbered (v : Service Peer) : Prop where
  increasing : v.events.Pairwise fun a b => a.2.sequence < b.2.sequence
  bounded : ∀ e ∈ v.events, e.2.sequence ≤ v.state.snapshot.sequence
  own : ∀ e ∈ v.events, ∀ sn, e.2.payload = .snapshot sn → sn.sequence = e.2.sequence

namespace Service

variable {v : Service Peer} {message : Option (String × LogLevel)} {wall : ℤ}

/-! ### Publishing -/

@[simp] theorem publish_snapshot_state :
    (v.publish message wall).state.snapshot.state = v.state.snapshot.state := by
  cases message <;> rfl
@[simp] theorem publish_attemptId :
    (v.publish message wall).state.snapshot.attemptId = v.state.snapshot.attemptId := by
  cases message <;> rfl
@[simp] theorem publish_network :
    (v.publish message wall).state.snapshot.network = v.state.snapshot.network := by
  cases message <;> rfl
@[simp] theorem publish_slot : (v.publish message wall).state.slot = v.state.slot := by
  cases message <;> rfl
@[simp] theorem publish_lastOwner :
    (v.publish message wall).state.lastOwner = v.state.lastOwner := by
  cases message <;> rfl
@[simp] theorem publish_recoveryBlocked :
    (v.publish message wall).state.recoveryBlocked = v.state.recoveryBlocked := by
  cases message <;> rfl
@[simp] theorem publish_quiescenceBlocked :
    (v.publish message wall).state.quiescenceBlocked = v.state.quiescenceBlocked := by
  cases message <;> rfl
@[simp] theorem publish_stopping :
    (v.publish message wall).state.stopping = v.state.stopping := by
  cases message <;> rfl
@[simp] theorem publish_cancelled : (v.publish message wall).cancelled = v.cancelled := by
  cases message <;> rfl

theorem pushLog_length_le {s : Session Peer} {record : LogRecord} (h : s.logs.length ≤ maxLogs) :
    (s.pushLog record).logs.length ≤ maxLogs := by
  unfold Session.pushLog
  by_cases hfull : s.logs.length = maxLogs
  · have hpos : 0 < maxLogs := by decide
    simp only [if_pos hfull, List.length_append, List.length_tail, List.length_singleton]
    omega
  · simp only [if_neg hfull, List.length_append, List.length_singleton]
    omega

theorem publish_logs_length_le (h : v.state.logs.length ≤ maxLogs) :
    (v.publish message wall).state.logs.length ≤ maxLogs := by
  cases message with
  | none => exact h
  | some m => exact pushLog_length_le h

theorem coherent_publish (h : v.state.Coherent) : (v.publish message wall).state.Coherent where
  slot := by simpa using h.slot
  cancel := by simpa using h.cancel
  owner := by simpa using h.owner
  network := by simpa using h.network
  blocked := by simpa using h.blocked
  logs := publish_logs_length_le h.logs

theorem numbered_send {payload : Snapshot → EventPayload} (h : v.Numbered)
    (hp : ∀ sn sn', payload sn = .snapshot sn' → sn' = sn) : (v.send payload).Numbered where
  increasing := by
    refine List.pairwise_append.2 ⟨h.increasing, List.pairwise_singleton _ _, ?_⟩
    intro a ha b hb
    rw [List.mem_singleton.1 hb]
    exact Nat.lt_succ_of_le (h.bounded a ha)
  bounded := by
    intro e he
    rcases List.mem_append.1 he with he | he
    · exact Nat.le_succ_of_le (h.bounded e he)
    · rw [List.mem_singleton.1 he]
      exact Nat.le_refl _
  own := by
    intro e he sn hsn
    rcases List.mem_append.1 he with he | he
    · exact h.own e he sn hsn
    · rw [List.mem_singleton.1 he] at hsn ⊢
      rw [hp _ _ hsn]

/-- Numbering looks at the events and the sequence number only. -/
theorem Numbered.congr {v' : Service Peer} (h : v.Numbered) (he : v'.events = v.events)
    (hs : v'.state.snapshot.sequence = v.state.snapshot.sequence) : v'.Numbered where
  increasing := by rw [he]; exact h.increasing
  bounded := by rw [he, hs]; exact h.bounded
  own := by rw [he]; exact h.own

theorem numbered_publish (h : v.Numbered) : (v.publish message wall).Numbered := by
  cases message with
  | none => exact numbered_send h fun _ _ heq => (EventPayload.snapshot.inj heq).symm
  | some m =>
    have hlog : (v.log { timestamp := wall, level := m.2, message := m.1 }).Numbered :=
      numbered_send (h.congr rfl rfl) fun _ _ heq => by cases heq
    exact numbered_send hlog fun _ _ heq => (EventPayload.snapshot.inj heq).symm

/-! ### Cancelling -/

theorem cancel_eq_of_slot {slot : Slot Peer} (h : v.state.slot = some slot) : v.cancel wall =
    (v.cancelSlot slot).publish (some ("VPN cancellation requested", .info)) wall := by
  rw [cancel, h]

theorem cancel_eq_self (h : v.state.slot = none) : v.cancel wall = v := by rw [cancel, h]

theorem cancel_slot : (v.cancel wall).state.slot =
    if v.state.slot.any (·.cancel.isSome) then v.state.slot else none := by
  cases h : v.state.slot with
  | none => rw [cancel_eq_self h, h]; rfl
  | some slot =>
    rw [cancel_eq_of_slot h, publish_slot, cancelSlot]
    cases hc : slot.cancel <;> simp [hc, h]

@[simp] theorem cancel_recoveryBlocked :
    (v.cancel wall).state.recoveryBlocked = v.state.recoveryBlocked := by
  cases h : v.state.slot with
  | none => rw [cancel_eq_self h]
  | some slot =>
    rw [cancel_eq_of_slot h, cancelSlot]
    cases slot.cancel <;> simp

@[simp] theorem cancel_quiescenceBlocked :
    (v.cancel wall).state.quiescenceBlocked = v.state.quiescenceBlocked := by
  cases h : v.state.slot with
  | none => rw [cancel_eq_self h]
  | some slot =>
    rw [cancel_eq_of_slot h, cancelSlot]
    cases slot.cancel <;> simp

@[simp] theorem cancel_stopping : (v.cancel wall).state.stopping = v.state.stopping := by
  cases h : v.state.slot with
  | none => rw [cancel_eq_self h]
  | some slot =>
    rw [cancel_eq_of_slot h, cancelSlot]
    cases slot.cancel <;> simp

theorem coherent_cancel (h : v.state.Coherent) : (v.cancel wall).state.Coherent := by
  cases hslot : v.state.slot with
  | none => rwa [cancel_eq_self hslot]
  | some slot =>
    rw [cancel_eq_of_slot hslot, cancelSlot]
    refine coherent_publish ?_
    cases hc : slot.cancel with
    | some channel =>
      have hne : v.state.slot ≠ none := by simp [hslot]
      refine ⟨?_, ?_, h.owner, fun hn => ⟨(h.network hn).1, .inr (.inr rfl)⟩, h.blocked, h.logs⟩
      · simp [hslot, idle]
      · simp [hslot, hc]
    | none =>
      -- an unstarted reservation has no network configuration
      have hstate : v.state.snapshot.state = .authenticating := h.cancel.1 ⟨slot, hslot, hc⟩
      have hnet : v.state.snapshot.network.isSome = false := by
        rw [Bool.eq_false_iff]
        intro hn
        rcases (h.network hn).2 with h' | h' | h' <;> simp [hstate] at h'
      refine ⟨?_, ?_, by simp, fun hn => ?_, h.blocked, h.logs⟩
      · simp [idle]
      · simp
      · simp only [hnet, Bool.false_eq_true] at hn

/-- Cancelling again keeps the state `disconnecting`. -/
theorem cancel_disconnecting (h : v.state.Coherent)
    (hd : v.state.snapshot.state = .disconnecting) :
    (v.cancel wall).state.snapshot.state = .disconnecting := by
  cases hslot : v.state.slot with
  | none => rwa [cancel_eq_self hslot]
  | some slot =>
    rw [cancel_eq_of_slot hslot, publish_snapshot_state, cancelSlot]
    cases hc : slot.cancel with
    | some channel => rfl
    | none =>
      have hauth := h.cancel.1 ⟨slot, hslot, hc⟩
      rw [hd] at hauth
      cases hauth

theorem numbered_cancel (h : v.Numbered) : (v.cancel wall).Numbered := by
  cases hslot : v.state.slot with
  | none => rwa [cancel_eq_self hslot]
  | some slot =>
    rw [cancel_eq_of_slot hslot, cancelSlot]
    refine numbered_publish ?_
    cases slot.cancel <;> exact h.congr rfl rfl

theorem coherent_stop (h : v.state.Coherent) : (v.stop wall).state.Coherent := by
  refine coherent_cancel ?_
  exact ⟨h.slot, h.cancel, h.owner, h.network, h.blocked, h.logs⟩

theorem numbered_stop (h : v.Numbered) : (v.stop wall).Numbered :=
  numbered_cancel (h.congr rfl rfl)

@[simp] theorem stop_stopping : (v.stop wall).state.stopping = true := by simp [stop]

@[simp] theorem stop_recoveryBlocked :
    (v.stop wall).state.recoveryBlocked = v.state.recoveryBlocked := by simp [stop]

@[simp] theorem stop_quiescenceBlocked :
    (v.stop wall).state.quiescenceBlocked = v.state.quiescenceBlocked := by simp [stop]

theorem stop_slot : (v.stop wall).state.slot =
    if v.state.slot.any (·.cancel.isSome) then v.state.slot else none := by
  rw [stop, cancel_slot]

/-! ### Reserving and starting -/

variable {m : Moment}

theorem coherent_reserved {peer : Peer} {c : ℕ} {id : Uuid} {name protocol : String}
    (h : v.state.Coherent) : (v.reserved m peer c id name protocol).state.Coherent := by
  refine coherent_publish ⟨?_, ?_, ?_, ?_, h.blocked, Nat.zero_le _⟩ <;> simp [idle]

theorem coherent_started {slot : Slot Peer} (h : v.state.Coherent)
    (hslot : v.state.slot = some slot) (hc : slot.cancel = none) :
    (v.started m slot).state.Coherent := by
  have hstate : v.state.snapshot.state = .authenticating := h.cancel.1 ⟨slot, hslot, hc⟩
  refine coherent_publish ⟨by simp [idle], by simp, fun slot' h' => ?_, fun hn => ?_, h.blocked,
    h.logs⟩
  · obtain rfl := Option.some.inj h'
    exact h.owner slot hslot
  · rcases (h.network hn).2 with h' | h' | h' <;> simp [hstate] at h'

theorem coherent_renew {slot : Slot Peer} {clock : ℕ} (h : v.state.Coherent)
    (hslot : v.state.slot = some slot) :
    ({ v.state with slot := some { slot with lease := clock } } : Session Peer).Coherent := by
  refine ⟨?_, ?_, fun slot' h' => ?_, fun hn => ⟨rfl, (h.network hn).2⟩, h.blocked, h.logs⟩
  · rw [← h.slot, hslot]
    simp
  · rw [← h.cancel, hslot]
    simp
  · obtain rfl := Option.some.inj h'
    exact h.owner slot hslot

/-! ### Updates -/

variable {session : Uuid}

theorem coherent_update {u : Update} {slot : Slot Peer} {k : ℕ} (h : v.state.Coherent)
    (hu : u.isFinished = false) (hslot : v.state.slot = some slot) (hc : slot.cancel = some k) :
    (v.update u session wall).state.Coherent := by
  have howner := h.owner slot hslot
  cases u with
  | connected network =>
    unfold update
    by_cases hd : v.state.snapshot.state = .disconnecting
    · simpa only [if_pos hd] using h
    · simp only [if_neg hd]
      refine coherent_publish ⟨?_, ?_, h.owner, fun _ => ⟨?_, .inl rfl⟩, h.blocked, h.logs⟩
      · simp [hslot, idle]
      · simp [hslot, hc]
      · simp [hslot]
  | reconnecting =>
    unfold update
    by_cases hd : v.state.snapshot.state = .disconnecting
    · simpa only [if_pos hd] using h
    · simp only [if_neg hd]
      refine coherent_publish ⟨?_, ?_, h.owner, fun hn => ⟨?_, .inr (.inl rfl)⟩, h.blocked, h.logs⟩
      · simp [hslot, idle]
      · simp [hslot, hc]
      · simp [hslot]
  | traffic counters =>
    exact coherent_publish ⟨h.slot, h.cancel, h.owner, h.network, h.blocked, h.logs⟩
  | finished result quiescent => cases hu

theorem coherent_finished {result : Except Error Unit} {quiescent : Bool} (h : v.state.Coherent)
    (hq : quiescent = false → ∃ e, result = .error e ∧ e.code = .recoveryRequired) :
    (v.finished result quiescent wall).state.Coherent := by
  unfold finished
  refine coherent_publish ?_
  cases result with
  | ok _ =>
    cases quiescent with
    | true => exact ⟨by simp [idle], by simp, by simp, by simp, by simp, h.logs⟩
    | false =>
      obtain ⟨e, he, -⟩ := hq rfl
      cases he
  | error e =>
    refine ⟨?_, ?_, by simp, by simp, ?_, h.logs⟩
    · by_cases he : e.code = .authenticationRequired <;> simp [idle, he]
    · by_cases he : e.code = .authenticationRequired <;> simp [he]
    · intro hb
      obtain ⟨e', he', hcode⟩ := hq (by simpa using hb)
      obtain rfl := Except.error.inj he'
      simp [hcode]

theorem coherent_supervisorFailed (h : v.state.Coherent) :
    (v.supervisorFailed wall).state.Coherent :=
  coherent_publish ⟨by simp [idle], by simp, by simp, by simp, by simp, h.logs⟩

theorem coherent_unblock (h : v.state.Coherent) (hq : v.state.quiescenceBlocked = false) :
    v.unblock.state.Coherent :=
  ⟨h.slot, h.cancel, h.owner, h.network, fun hb => absurd (hq ▸ hb) Bool.false_ne_true, h.logs⟩

theorem numbered_update {u : Update} (h : v.Numbered) :
    (v.update u session wall).Numbered := by
  cases u with
  | connected network =>
    unfold update
    by_cases hd : v.state.snapshot.state = .disconnecting
    · simpa only [if_pos hd] using h
    · simp only [if_neg hd]
      exact numbered_publish (h.congr rfl rfl)
  | reconnecting =>
    unfold update
    by_cases hd : v.state.snapshot.state = .disconnecting
    · simpa only [if_pos hd] using h
    · simp only [if_neg hd]
      exact numbered_publish (h.congr rfl rfl)
  | traffic counters =>
    unfold update
    exact numbered_publish (h.congr rfl rfl)
  | finished result quiescent =>
    unfold update finished
    cases result <;> exact numbered_publish (h.congr rfl rfl)

/-! ### What updates leave alone -/

@[simp] theorem finished_slot {result : Except Error Unit} {quiescent : Bool} :
    (v.finished result quiescent wall).state.slot = none := by
  cases result <;> simp [finished]

@[simp] theorem finished_quiescenceBlocked {result : Except Error Unit} {quiescent : Bool} :
    (v.finished result quiescent wall).state.quiescenceBlocked = !quiescent := by
  cases result <;> simp [finished]

@[simp] theorem finished_stopping {result : Except Error Unit} {quiescent : Bool} :
    (v.finished result quiescent wall).state.stopping = v.state.stopping := by
  cases result <;> simp [finished]

/-- An update that does not end the attempt keeps the slot and the blocks. -/
theorem update_frame (v : Service Peer) (session : Uuid) (wall : ℤ) {u : Update}
    (hu : u.isFinished = false) :
    (v.update u session wall).state.slot = v.state.slot ∧
      (v.update u session wall).state.recoveryBlocked = v.state.recoveryBlocked ∧
      (v.update u session wall).state.quiescenceBlocked = v.state.quiescenceBlocked := by
  cases u with
  | connected network =>
    unfold update
    by_cases hd : v.state.snapshot.state = .disconnecting <;> simp [hd]
  | reconnecting =>
    unfold update
    by_cases hd : v.state.snapshot.state = .disconnecting <;> simp [hd]
  | traffic counters => simp [update]
  | finished result quiescent => cases hu

@[simp] theorem update_stopping {u : Update} :
    (v.update u session wall).state.stopping = v.state.stopping := by
  cases u with
  | connected network =>
    unfold update
    by_cases hd : v.state.snapshot.state = .disconnecting <;> simp [hd]
  | reconnecting =>
    unfold update
    by_cases hd : v.state.snapshot.state = .disconnecting <;> simp [hd]
  | traffic counters => simp [update]
  | finished result quiescent => simp [update]

end Service

end Ocvpn.Daemon
