import Ocvpn.Daemon.Turns

/-!
# What a sequence number identifies

Every change of the snapshot is published under a new sequence number, except one: a successful
`quiesce` clears `last_error` and publishes nothing (`Service.unblock`).  A run is `Announced` when
no `quiesce` succeeds while the snapshot has an error; in such a run a peer never receives two
different snapshots with one sequence number.

## Main results

* `System.sequence_identifies` : in an announced run the sequence number identifies the snapshot.
* `System.quiesce_changes_silently` : without the condition it does not.
-/

namespace Ocvpn.Daemon

variable {Peer Handoff : Type}

/-- The snapshot a message carries. -/
def Message.snapshot : Message → Option Snapshot
  | .response ⟨_, .ok (.snapshot sn)⟩ => some sn
  | .event ⟨_, _, .snapshot sn⟩ => some sn
  | _ => none

/-- `w` looks like `v` to every peer, or the bus announces its snapshot under a new number. -/
inductive Service.Follows (v w : Service Peer) : Prop
  | same : w.events = v.events → w.state.snapshot = v.state.snapshot →
      w.state.lastOwner = v.state.lastOwner → w.state.slot.isNone = v.state.slot.isNone →
      Service.Follows v w
  | announced (new : List (Option Peer × Event)) :
      v.state.snapshot.sequence < w.state.snapshot.sequence → w.events = v.events ++ new →
      (∀ e ∈ new, v.state.snapshot.sequence < e.2.sequence ∧
        ∀ sn, e.2.payload = .snapshot sn → sn = w.state.snapshot ∧ e.1 = w.state.lastOwner) →
      Service.Follows v w

namespace Service

variable {v w : Service Peer} {message : Option (String × LogLevel)} {wall : ℤ}

theorem Follows.refl (v : Service Peer) : v.Follows v := .same rfl rfl rfl rfl

/-- Whatever was changed before, a publication announces it. -/
theorem follows_publish (he : w.events = v.events)
    (hs : w.state.snapshot.sequence = v.state.snapshot.sequence) :
    v.Follows (w.publish message wall) := by
  cases message with
  | none =>
    refine .announced [(w.state.lastOwner, ⟨w.state.snapshot.serviceInstanceId,
      w.state.snapshot.sequence + 1, .snapshot (w.publish none wall).state.snapshot⟩)] ?_ ?_ ?_
    · simp [publish, send, hs]
    · simp [publish, send, he]
    · intro e hmem
      rw [List.mem_singleton.1 hmem]
      refine ⟨by simp [hs], fun sn hsn => ⟨(EventPayload.snapshot.inj hsn).symm, rfl⟩⟩
  | some m =>
    refine .announced
      [(w.state.lastOwner, ⟨w.state.snapshot.serviceInstanceId, w.state.snapshot.sequence + 1,
        .log { timestamp := wall, level := m.2, message := m.1 }⟩),
       (w.state.lastOwner, ⟨w.state.snapshot.serviceInstanceId, w.state.snapshot.sequence + 2,
        .snapshot (w.publish (some m) wall).state.snapshot⟩)] ?_ ?_ ?_
    · simp only [publish, log, send, Session.pushLog, hs]
      omega
    · simp [publish, log, send, he, Session.pushLog]
    · intro e hmem
      rcases List.mem_pair.1 hmem with rfl | rfl
      · exact ⟨by simp [hs], fun sn hsn => by cases hsn⟩
      · refine ⟨by simp only [hs]; omega, fun sn hsn =>
          ⟨(EventPayload.snapshot.inj hsn).symm, rfl⟩⟩

theorem follows_cancel (he : w.events = v.events) (hw : w.state.snapshot = v.state.snapshot)
    (ho : w.state.lastOwner = v.state.lastOwner)
    (hs : w.state.slot.isNone = v.state.slot.isNone) : v.Follows (w.cancel wall) := by
  cases hslot : w.state.slot with
  | none =>
    rw [cancel_eq_self hslot]
    exact .same he hw ho hs
  | some slot =>
    rw [cancel_eq_of_slot hslot, cancelSlot]
    cases slot.cancel <;> exact follows_publish he (by rw [hw])

theorem follows_update {u : Update} {session : Uuid} :
    v.Follows (v.update u session wall) := by
  cases u with
  | connected network =>
    unfold update
    by_cases hd : v.state.snapshot.state = .disconnecting
    · simpa only [if_pos hd] using .refl v
    · simp only [if_neg hd]
      exact follows_publish rfl rfl
  | reconnecting =>
    unfold update
    by_cases hd : v.state.snapshot.state = .disconnecting
    · simpa only [if_pos hd] using .refl v
    · simp only [if_neg hd]
      exact follows_publish rfl rfl
  | traffic counters =>
    unfold update
    exact follows_publish rfl rfl
  | finished result quiescent =>
    unfold update finished
    cases result <;> exact follows_publish rfl rfl

end Service

namespace System

variable [DecidableEq Peer] {s s' : System Peer Handoff} {setup : Service.Setup Peer Handoff}
  {input : Input Peer Handoff} {out : List (Output Peer)}

omit [DecidableEq Peer] in
/-- A call of `quiesce` succeeds only while the snapshot has no error. -/
def Announced (s : System Peer Handoff) (input : Input Peer Handoff) : Prop :=
  ∀ c peer id, input = .conclude c →
    s.connections[c]? = some ⟨peer, .quiescing (.recovered (.warnings [])) id⟩ →
    s.service.state.snapshot.lastError = none

omit [DecidableEq Peer] in
theorem quiesceResult_eq_ok {outcome : RecoveryOutcome} {payload : Payload}
    (h : quiesceResult outcome = .ok payload) : outcome = .warnings [] := by
  unfold quiesceResult at h
  split at h <;> first | rfl | cases h

/-- A call of `quiesce` that answers either leaves the service alone, or it succeeded and lifts
the block. -/
theorem step_conclude {c : ℕ} (hst : step setup s (.conclude c) = some (s', out)) :
    s'.service = s.service ∨ (s'.service = s.service.unblock ∧ ∃ peer id,
      s.connections[c]? = some ⟨peer, .quiescing (.recovered (.warnings [])) id⟩) := by
  unfold step at hst
  by_cases hmain : s.main = .exited
  · rw [if_pos hmain] at hst
    cases hst
  rw [if_neg hmain] at hst
  dsimp only at hst
  unfold connection at hst
  split at hst
  · cases hst
  rename_i peer phase hc
  cases phase with
  | quiescing stage id =>
    simp only at hst
    unfold quiesce at hst
    cases stage with
    | recovered outcome =>
      simp only at hst
      split at hst
      · simp only [answer, Option.some.injEq, Prod.mk.injEq] at hst
        exact .inl (by rw [← hst.1]; rfl)
      · rename_i payload hp
        simp only [answer, Option.some.injEq, Prod.mk.injEq] at hst
        rw [quiesceResult_eq_ok hp] at hc
        exact .inr ⟨by rw [← hst.1]; rfl, peer, id, hc⟩
    | locking | locked | waiting | recovering => cases hst
  | reading | requested | following | received | returned | closed => cases hst

/-- In an announced run the service follows itself. -/
theorem follows_of_step (hinv : s.Inv) (hp : Announced s input)
    (hst : step setup s input = some (s', out)) : s.service.Follows s'.service := by
  have hm := move_of_step hinv.admin hst
  generalize hv : s'.service = v at hm
  generalize s'.attempts = attempts at hm
  generalize s'.issued = issued at hm
  cases hm with
  | still | supervise | stale | drained | join => exact .refl _
  | reserve m peer c id name protocol => exact Service.follows_publish rfl rfl
  | start m slot fresh => exact Service.follows_publish rfl rfl
  | renew _ slot clock hslot => exact .same rfl rfl rfl (by simp [hslot])
  | cancel _ wall => exact Service.follows_cancel rfl rfl rfl rfl
  | stop _ wall => exact Service.follows_cancel rfl rfl rfl rfl
  | unblock c hquiet =>
    rcases step_conclude hst with heq | ⟨heq, peer, id, hc⟩
    · rw [← hv, heq]
      exact .refl _
    · have hnone := hp c peer id rfl hc
      exact .same rfl (by simp only [Service.unblock, ← hnone]) rfl rfl
  | update k a u rest session wall => exact Service.follows_update
  | fail k a wall => exact Service.follows_publish rfl rfl

end System

/-! ### What was told so far -/

variable [DecidableEq Peer]

@[simp] theorem visible_sequence (s : Session Peer) (peer : Peer) :
    (s.visible peer).sequence = s.snapshot.sequence := by
  unfold Session.visible
  split_ifs <;> rfl

/-- The owner of an ended session sees its snapshot. -/
theorem visible_eq_snapshot {s : Session Peer} {peer : Peer}
    (h : ∀ owner, s.lastOwner = some owner → owner = peer) : s.visible peer = s.snapshot := by
  have hany : s.lastOwner.any (· ≠ peer) = false := by
    cases ho : s.lastOwner with
    | none => rfl
    | some owner => simpa using h owner ho
  rw [Session.visible, hany, Bool.and_false, if_neg Bool.false_ne_true]

/-- What the service may show a peer: the snapshot as it sees it, or one on the bus. -/
def Service.Shows (v : Service Peer) (peer : Peer) (sn : Snapshot) : Prop :=
  sn = v.state.visible peer ∨ ∃ e ∈ v.events, e.2.payload = .snapshot sn ∧
    ∀ owner, e.1 = some owner → owner = peer

/-- What peers were told agrees with the session and with everything on the bus. -/
structure Told (os : List (Output Peer)) (v : Service Peer) : Prop where
  /-- No message is ahead of the session, and one that is not behind shows what is visible. -/
  current : ∀ o ∈ os, ∀ sn, o.message.snapshot = some sn →
    sn.sequence ≤ v.state.snapshot.sequence ∧
      (sn.sequence = v.state.snapshot.sequence → sn = v.state.visible o.peer)
  agree : ∀ o ∈ os, ∀ o' ∈ os, o.peer = o'.peer → ∀ sn sn', o.message.snapshot = some sn →
    o'.message.snapshot = some sn' → sn.sequence = sn'.sequence → sn = sn'
  /-- The last event on the bus shows the session. -/
  last : ∀ e ∈ v.events, ∀ sn, e.2.payload = .snapshot sn →
    e.2.sequence = v.state.snapshot.sequence →
      sn = v.state.snapshot ∧ e.1 = v.state.lastOwner
  bus : ∀ o ∈ os, ∀ sn, o.message.snapshot = some sn → ∀ e ∈ v.events, ∀ sn',
    e.2.payload = .snapshot sn' → (∀ owner, e.1 = some owner → owner = o.peer) →
      e.2.sequence = sn.sequence → sn' = sn

namespace Told

variable {os out : List (Output Peer)} {v w : Service Peer} {peer : Peer} {sn sn' : Snapshot}

theorem initial (instanceId : Uuid) (recoveryError : Option Error) :
    Told [] (System.start instanceId recoveryError : System Peer Handoff).service :=
  ⟨by simp, by simp, by simp [System.start], by simp⟩

/-- Two events with one number are the same. -/
theorem event_unique (hn : v.Numbered) {e e' : Option Peer × Event} (he : e ∈ v.events)
    (he' : e' ∈ v.events) (h : e.2.sequence = e'.2.sequence) : e = e' := by
  obtain ⟨i, hi, rfl⟩ := List.getElem_of_mem he
  obtain ⟨j, hj, rfl⟩ := List.getElem_of_mem he'
  rcases Nat.lt_trichotomy i j with hij | rfl | hij
  · have := List.pairwise_iff_getElem.1 hn.increasing i j hi hj hij
    omega
  · rfl
  · have := List.pairwise_iff_getElem.1 hn.increasing j i hj hi hij
    omega

/-- An event of the current number that a peer may receive shows what it sees. -/
theorem event_visible (h : Told os v) {e : Option Peer × Event} (he : e ∈ v.events)
    (hp : e.2.payload = .snapshot sn) (ho : ∀ owner, e.1 = some owner → owner = peer)
    (hs : e.2.sequence = v.state.snapshot.sequence) : sn = v.state.visible peer := by
  obtain ⟨rfl, howner⟩ := h.last e he sn hp hs
  rw [visible_eq_snapshot (howner ▸ ho)]

theorem shows_current (h : Told os v) (hn : v.Numbered) (hs : v.Shows peer sn) :
    sn.sequence ≤ v.state.snapshot.sequence ∧
      (sn.sequence = v.state.snapshot.sequence → sn = v.state.visible peer) := by
  rcases hs with rfl | ⟨e, he, hp, ho⟩
  · exact ⟨by simp, fun _ => rfl⟩
  · have hown := hn.own e he sn hp
    exact ⟨hown ▸ hn.bounded e he, fun hcur => h.event_visible he hp ho (hown ▸ hcur)⟩

theorem shows_bus (h : Told os v) (hn : v.Numbered) (hs : v.Shows peer sn)
    {e : Option Peer × Event} (he : e ∈ v.events) (hp : e.2.payload = .snapshot sn')
    (ho : ∀ owner, e.1 = some owner → owner = peer) (hseq : e.2.sequence = sn.sequence) :
    sn' = sn := by
  rcases hs with rfl | ⟨e', he', hp', ho'⟩
  · exact h.event_visible he hp ho (by simpa using hseq)
  · have hsame := event_unique hn he he' (by rw [hseq, hn.own e' he' sn hp'])
    rw [hsame, hp'] at hp
    exact (EventPayload.snapshot.inj hp).symm

theorem shows_agree (h : Told os v) (hn : v.Numbered) (hs : v.Shows peer sn)
    (hs' : v.Shows peer sn') (hseq : sn.sequence = sn'.sequence) : sn = sn' := by
  rcases hs with rfl | ⟨e, he, hp, ho⟩
  · exact ((h.shows_current hn hs').2 (by simpa using hseq.symm)).symm
  · exact h.shows_bus hn hs' he hp ho ((hn.own e he sn hp).symm.trans hseq)

/-- What the peers were told still agrees after the service moved on. -/
theorem follows (h : Told os v) (hn : v.Numbered) (hf : v.Follows w) : Told os w := by
  cases hf with
  | same he hsn hown hslot =>
    have hvis : ∀ peer, w.state.visible peer = v.state.visible peer := fun peer => by
      rw [Session.visible, Session.visible, hsn, hown, hslot]
    exact ⟨by simpa only [hsn, hvis] using h.current, h.agree,
      by simpa only [he, hsn, hown] using h.last, by simpa only [he] using h.bus⟩
  | announced new hlt he hnew =>
    refine ⟨fun o ho sn hsn => ?_, h.agree, fun e hmem sn hsn hseq => ?_,
      fun o ho sn hsn e hmem sn' hsn' howner hseq => ?_⟩
    · have hle := (h.current o ho sn hsn).1
      exact ⟨by omega, fun hcur => by omega⟩
    · rw [he] at hmem
      rcases List.mem_append.1 hmem with hmem | hmem
      · have hle := hn.bounded e hmem
        omega
      · exact (hnew e hmem).2 sn hsn
    · rw [he] at hmem
      rcases List.mem_append.1 hmem with hmem | hmem
      · exact h.bus o ho sn hsn e hmem sn' hsn' howner hseq
      · have hle := (h.current o ho sn hsn).1
        have hlt' := (hnew e hmem).1
        omega

/-- Telling peers what the service shows them keeps the agreement. -/
theorem append (h : Told os v) (hn : v.Numbered)
    (hout : ∀ o ∈ out, ∀ sn, o.message.snapshot = some sn → v.Shows o.peer sn) :
    Told (os ++ out) v := by
  refine ⟨fun o ho sn hsn => ?_, fun o ho o' ho' hpeer sn sn' hsn hsn' hseq => ?_, h.last,
    fun o ho sn hsn e he sn' hsn' howner hseq => ?_⟩
  · rcases List.mem_append.1 ho with ho | ho
    · exact h.current o ho sn hsn
    · exact h.shows_current hn (hout o ho sn hsn)
  · -- a message told before agrees with whatever is shown now
    have hmixed : ∀ {o o' : Output Peer} {sn sn' : Snapshot}, o ∈ os → o.peer = o'.peer →
        o.message.snapshot = some sn → v.Shows o'.peer sn' → sn.sequence = sn'.sequence →
        sn' = sn := by
      intro o o' sn sn' ho hpeer hsn hshow hseq
      rcases hshow with rfl | ⟨e, he, hp, howner⟩
      · rw [(h.current o ho sn hsn).2 (by simpa using hseq), hpeer]
      · exact h.bus o ho sn hsn e he sn' hp (hpeer ▸ howner)
          ((hn.own e he sn' hp).symm.trans hseq.symm)
    rcases List.mem_append.1 ho with ho | ho <;> rcases List.mem_append.1 ho' with ho' | ho'
    · exact h.agree o ho o' ho' hpeer sn sn' hsn hsn' hseq
    · exact (hmixed ho hpeer hsn (hout o' ho' sn' hsn') hseq).symm
    · exact hmixed ho' hpeer.symm hsn' (hout o ho sn hsn) hseq.symm
    · exact h.shows_agree hn (hout o ho sn hsn) (hpeer ▸ hout o' ho' sn' hsn') hseq
  · rcases List.mem_append.1 ho with ho | ho
    · exact h.bus o ho sn hsn e he sn' hsn' howner hseq
    · exact h.shows_bus hn (hout o ho sn hsn) he hsn' howner hseq

end Told

/-! ### Runs -/

namespace System

variable {s s' : System Peer Handoff} {setup : Service.Setup Peer Handoff}
  {input : Input Peer Handoff} {out os : List (Output Peer)}

omit [DecidableEq Peer] in
/-- Receivers hold items of the bus. -/
def Holding (s : System Peer Handoff) : Prop :=
  ∀ conn ∈ s.connections, ∀ cursor logStream item,
    conn.phase = .received cursor logStream (some item) → item ∈ s.service.events

omit [DecidableEq Peer] in
theorem mem_of_receive {events : List (Option Peer × Event)} {cursor cursor' : ℕ}
    {item : Option Peer × Event} (h : receive events cursor = some (cursor', some item)) :
    item ∈ events := by
  unfold receive at h
  split_ifs at h
  · simp only [Option.some.injEq, Prod.mk.injEq, reduceCtorEq, and_false] at h
  · obtain ⟨item', hitem, heq⟩ := Option.map_eq_some_iff.1 h
    obtain rfl := Option.some.inj (Prod.mk.inj heq).2
    exact List.mem_of_getElem? hitem

omit [DecidableEq Peer] in
/-- The bus only grows. -/
theorem mem_of_follows {v w : Service Peer} (h : v.Follows w) {item : Option Peer × Event}
    (hmem : item ∈ v.events) : item ∈ w.events := by
  cases h with
  | same he => rwa [he]
  | announced new _ he => rw [he]; exact List.mem_append_left _ hmem

theorem Holding.step (h : s.Holding) (hf : s.service.Follows s'.service)
    (ht : Turned setup s s' input out) : s'.Holding := by
  intro conn hmem cursor logStream item hphase
  cases ht with
  | still hc => exact mem_of_follows hf (h conn (hc ▸ hmem) _ _ _ hphase)
  | accepted peer hc =>
    rw [hc] at hmem
    rcases List.mem_append.1 hmem with hmem | hmem
    · exact mem_of_follows hf (h conn hmem _ _ _ hphase)
    · rw [List.mem_singleton.1 hmem] at hphase
      cases hphase
  | ended hc =>
    rw [hc, List.mem_map] at hmem
    obtain ⟨_, -, rfl⟩ := hmem
    cases hphase
  | turned c peer before after hc hconns hturn =>
    have hmem' : conn ∈ (s.setPhase c after).connections := by rwa [setPhase, ← hconns]
    rcases mem_setPhase hmem' with hmem | hafter
    · exact mem_of_follows hf (h conn hmem _ _ _ hphase)
    · rw [hphase] at hafter
      cases hturn with
      | granted cursor' request =>
        unfold afterResponse at hafter
        split_ifs at hafter
      | received _ cursor' _ _ hr hs =>
        simp only [Phase.received.injEq] at hafter
        rw [← hafter.2.2] at hr
        rw [hs]
        exact mem_of_receive hr
      | admin _ _ _ _ hq =>
        rw [← hafter] at hq
        cases hq
      | read | refused | adminAnswer | delivered | dropped | cleaned => cases hafter

theorem dispatch_snapshot {v v' : Service Peer} {m : Service.Moment} {peer : Peer} {c : ℕ}
    {method : Method Handoff} {sn : Snapshot}
    (h : dispatch setup v m peer c method = .ok (.snapshot sn, v')) :
    v' = v ∧ sn = v.state.visible peer := by
  unfold dispatch at h
  cases ha : v.state.authorize peer with
  | error e => simp only [ha, reduceCtorEq] at h
  | ok _ =>
    simp only [ha] at h
    cases method with
    | snapshot | subscribe =>
      simp only [Except.ok.injEq, Prod.mk.injEq, Payload.snapshot.injEq] at h
      exact ⟨h.2.symm, h.1.symm⟩
    | capabilities | logs => simp at h
    | reserve => cases (Service.reserve_eq_ok h).2.2.2.1
    | start =>
      obtain ⟨_, _, _, _, _, _, h, _⟩ := Service.start_eq_ok h
      cases h
    | authProgress =>
      obtain ⟨_, _, h, _⟩ := Service.authProgress_eq_ok h
      cases h
    | cancel => cases (Service.cancelAttempt_eq_ok h).1
    | disconnect => cases (Service.disconnect_eq_ok h).1
    | adminQuiesce => cases h

/-- A received item is written only to a peer that may see it. -/
theorem shows_of_deliverable {v : Service Peer} {peer : Peer} {logStream : Bool}
    {item : Option (Option Peer × Event)} {event : Event} {sn : Snapshot}
    (hheld : ∀ e, item = some e → e ∈ v.events)
    (hd : deliverable v peer logStream item = .ok event)
    (hsn : (Message.event event).snapshot = some sn) : v.Shows peer sn := by
  have hpayload : event.payload = .snapshot sn := by
    obtain ⟨_, _, payload⟩ := event
    cases payload with
    | snapshot sn' => exact congrArg _ (Option.some.inj hsn)
    | log record => cases hsn
  cases item with
  | none =>
    unfold deliverable at hd
    cases logStream with
    | true => cases hd
    | false =>
      cases ha : v.state.authorize peer with
      | error e => simp [ha] at hd
      | ok _ =>
        simp only [ha, Bool.false_eq_true, if_false, Except.ok.injEq] at hd
        rw [← hd] at hpayload
        exact .inl (EventPayload.snapshot.inj hpayload).symm
  | some e =>
    obtain ⟨owner, e⟩ := e
    unfold deliverable at hd
    cases ha : v.state.authorize peer with
    | error e => simp [ha] at hd
    | ok _ =>
      simp only [ha] at hd
      split_ifs at hd with hany
      obtain rfl := Except.ok.inj hd
      refine .inr ⟨_, hheld _ rfl, hpayload, fun p hp => ?_⟩
      simp only at hp
      subst hp
      simpa using hany

/-- A snapshot that a step writes is one the service shows. -/
theorem shows_of_turned (hheld : s.Holding) (ht : Turned setup s s' input out) :
    ∀ o ∈ out, ∀ sn, o.message.snapshot = some sn → s'.service.Shows o.peer sn := by
  intro o ho sn hsn
  cases ht with
  | still _ hout | accepted _ _ _ hout | ended _ _ hout =>
    rw [hout] at ho
    cases ho
  | turned c peer before after hc hconns hturn =>
    cases hturn with
    | read | admin | received | dropped | cleaned => cases ho
    | refused cursor request m e =>
      rw [List.mem_singleton.1 ho] at hsn
      cases hsn
    | adminAnswer _ _ id result _ hr =>
      rw [List.mem_singleton.1 ho] at hsn
      cases result with
      | error e => cases hsn
      | ok payload =>
        obtain rfl := hr payload rfl
        cases hsn
    | granted cursor request m payload hd =>
      rw [List.mem_singleton.1 ho] at hsn ⊢
      cases payload with
      | snapshot sn' =>
        obtain rfl := Option.some.inj hsn
        obtain ⟨hs, rfl⟩ := dispatch_snapshot hd
        exact .inl (by rw [hs])
      | capabilities | reserved | accepted | logs => cases hsn
    | delivered cursor logStream item event hd hs =>
      rw [List.mem_singleton.1 ho] at hsn ⊢
      rw [hs]
      refine shows_of_deliverable (fun e he => ?_) hd hsn
      subst he
      exact hheld _ (List.mem_of_getElem? hc) cursor logStream e rfl

/-- A step of an announced run keeps the agreement of everything that was told. -/
theorem told_of_step (hinv : s.Inv) (hheld : s.Holding) (htold : Told os s.service)
    (hp : Announced s input) (hst : step setup s input = some (s', out)) :
    s'.Inv ∧ s'.Holding ∧ Told (os ++ out) s'.service := by
  have hf := follows_of_step hinv hp hst
  have ht := turned_of_step hst
  have hinv' := hinv.step hst
  exact ⟨hinv', hheld.step hf ht, (htold.follows hinv.numbered hf).append hinv'.numbered
    (shows_of_turned hheld ht)⟩

/-- **A sequence number identifies a snapshot.**  In a run in which no call of `quiesce` succeeds
while the snapshot has an error, any two snapshots written to the same peer with the same instance
and sequence are equal. -/
theorem sequence_identifies (setup : Service.Setup Peer Handoff) (s₀ s : System Peer Handoff)
    (os : List (Output Peer)) (h₀ : (machine Peer setup).init s₀)
    (h : (machine Peer setup).Run Announced s₀ os s) (o o' : Output Peer) (ho : o ∈ os)
    (ho' : o' ∈ os) (hpeer : o.peer = o'.peer) (sn sn' : Snapshot)
    (hsn : o.message.snapshot = some sn) (hsn' : o'.message.snapshot = some sn')
    (_ : sn.serviceInstanceId = sn'.serviceInstanceId) (hseq : sn.sequence = sn'.sequence) :
    sn = sn' := by
  have hinv : s.Inv ∧ s.Holding ∧ Told os s.service := by
    refine h.invariant (P := fun os s => s.Inv ∧ s.Holding ∧ Told os s.service) ?_ ?_
    · obtain ⟨id, e, rfl⟩ := h₀
      have hheld : (start id e : System Peer Handoff).Holding := fun conn hmem => by cases hmem
      exact ⟨Inv.initial id e, hheld, Told.initial id e⟩
    · rintro os s i s' out ⟨hinv, hheld, htold⟩ hp hst
      exact told_of_step hinv hheld htold hp hst
  exact hinv.2.2.agree o ho o' ho' hpeer sn sn' hsn hsn' hseq

/-- A peer reads the snapshot twice. -/
def readTwice : List (Input ℕ String) :=
  [.accept 7, .read 0 ⟨1, .snapshot⟩, .dispatch 0 2 100, .read 0 ⟨3, .snapshot⟩, .dispatch 0 4 101]

theorem readTwice_run : (machine ℕ sampleSetup).Run Announced (start 1 none)
    ([] ++ (machine ℕ sampleSetup).emitted (start 1 none) readTwice)
    ((machine ℕ sampleSetup).perform (start 1 none) readTwice) :=
  Machine.Run.refl.perform (by simp [readTwice, Announced])

theorem sequence_identifies_readTwice : ∃ o o' sn sn',
    (machine ℕ sampleSetup).emitted (start 1 none) readTwice = [o, o'] ∧
      o.message.snapshot = some sn ∧ o'.message.snapshot = some sn' ∧
      sn.sequence = sn'.sequence ∧ sn = sn' := by
  refine ⟨_, _, _, _, rfl, rfl, rfl, rfl, ?_⟩
  exact sequence_identifies sampleSetup (start 1 none) _ _ ⟨1, none, rfl⟩ readTwice_run _ _
    (.head _) (.tail _ (.head _)) rfl _ _ rfl rfl rfl rfl

/-! ### A silent change -/

/-- The startup recovery failed, root reads the snapshot and quiesces the service, and reads the
snapshot again. -/
def quiescedInputs : List (Input ℕ String) :=
  [.accept 0, .read 0 ⟨1, .snapshot⟩, .dispatch 0 2 100, .read 0 ⟨3, .adminQuiesce none⟩,
    .admin 0 none, .lock 0, .teardown 0 101, .inspect 0, .adminRecovered (.warnings []),
    .conclude 0, .read 0 ⟨4, .snapshot⟩, .dispatch 0 5 102]

/-- The two snapshots that root reads carry the sequence 0; the first has the error of the startup
recovery, the second has none. -/
theorem quiesce_changes_silently : ¬ ∀ (s₀ s : System ℕ String) (os : List (Output ℕ)),
    (machine ℕ sampleSetup).init s₀ →
    (machine ℕ sampleSetup).Run (fun _ _ => True) s₀ os s → ∀ o ∈ os, ∀ o' ∈ os,
    o.peer = o'.peer → ∀ sn sn', o.message.snapshot = some sn →
    o'.message.snapshot = some sn' → sn.serviceInstanceId = sn'.serviceInstanceId →
    sn.sequence = sn'.sequence → sn = sn' := by
  intro h
  have hrun : (machine ℕ sampleSetup).Run (fun _ _ => True) (start 1 (some (recoveryWarning [])))
      ([] ++ (machine ℕ sampleSetup).emitted (start 1 (some (recoveryWarning []))) quiescedInputs)
      ((machine ℕ sampleSetup).perform (start 1 (some (recoveryWarning []))) quiescedInputs) :=
    Machine.Run.refl.perform (by simp)
  obtain ⟨o, ho, o', ho', hpeer, sn, hsn, sn', hsn', hid, hseq, hne⟩ :
      ∃ o ∈ (machine ℕ sampleSetup).emitted (start 1 (some (recoveryWarning []))) quiescedInputs,
      ∃ o' ∈ (machine ℕ sampleSetup).emitted (start 1 (some (recoveryWarning []))) quiescedInputs,
      o.peer = o'.peer ∧ ∃ sn, o.message.snapshot = some sn ∧ ∃ sn', o'.message.snapshot = some sn' ∧
      sn.serviceInstanceId = sn'.serviceInstanceId ∧ sn.sequence = sn'.sequence ∧ sn ≠ sn' := by
    refine ⟨_, List.mem_cons_self, _, List.mem_cons_of_mem _ (List.mem_cons_of_mem _
      List.mem_cons_self), rfl, _, rfl, _, rfl, rfl, rfl, by decide⟩
  exact hne (h _ _ _ ⟨1, _, rfl⟩ hrun o ho o' ho' hpeer sn sn' hsn hsn' hid hseq)

end System

end Ocvpn.Daemon
