import Ocvpn.Client.Events
import Ocvpn.Daemon.Snapshots

/-!
# Following the snapshot

A snapshot subscription has four sources: the answer to its request, the events of the bus, the
snapshot the daemon sends to a receiver that fell behind, and the snapshot that the client fetches
on a second connection when it meets a gap.  `Flow` is what holds of the first link on the way: once
the daemon has nothing more to send, the newest number that was sent is the current one.

The numbers settle what was read only as far as a number identifies a snapshot
(`Ocvpn.Daemon.Snapshots`).

## Main results

* `Reader.subscription_fresh` : returned snapshots have increasing numbers, and in an announced run
  a reader that caught up holds the current snapshot.
* `Reader.subscription_stale` : without the condition it may hold an old one.
-/

namespace Ocvpn.Client

open Daemon

variable {Peer Handoff : Type}

/-- The event comes from the bus of the instance with `len` events, or shows its newest snapshot. -/
structure Fair (instanceId : Uuid) (len : ℕ) (e : Event) : Prop where
  own : e.serviceInstanceId = instanceId
  bounded : e.sequence ≤ len
  /-- A log record is never the newest event. -/
  logs : (Event.record e).isSome = true → e.sequence < len

theorem Fair.grow {instanceId : Uuid} {len len' : ℕ} {e : Event} (h : Fair instanceId len e)
    (hle : len ≤ len') : Fair instanceId len' e :=
  ⟨h.own, Nat.le_trans h.bounded hle, fun hr => Nat.lt_of_lt_of_le (h.logs hr) hle⟩

/-- The unread frames of a stream, of which the reader has seen the events up to a number: they are
fair, and nothing before the place of the receiver is missing from what was seen or sent. -/
def Flow (instanceId : Uuid) (seen len : ℕ) (frames : List Message)
    (phase : Phase Peer Handoff) : Prop :=
  (∀ m ∈ frames, ∃ e, m = .event e ∧ Fair instanceId len e) ∧
  match phase with
  | .following cursor logStream => logStream = false ∧ cursor ≤ len ∧
    (cursor ≤ seen ∨ ∃ e, .event e ∈ frames ∧ cursor ≤ e.sequence)
  | .received cursor logStream (some item) =>
    logStream = false ∧ Fair instanceId len item.2 ∧ item.2.sequence = cursor
  | .received cursor logStream none => logStream = false ∧ cursor ≤ len
  | .returned | .closed => True
  | _ => False

namespace Flow

variable {instanceId : Uuid} {seen seen' len len' : ℕ} {frames new : List Message}
  {phase phase' : Phase Peer Handoff}

/-- The bus grows behind the stream. -/
theorem grow (h : Flow instanceId seen len frames phase) (hle : len ≤ len') :
    Flow instanceId seen len' frames phase := by
  obtain ⟨hframes, hphase⟩ := h
  refine ⟨fun m hm => ?_, ?_⟩
  · obtain ⟨e, rfl, he⟩ := hframes m hm
    exact ⟨e, rfl, he.grow hle⟩
  · cases phase with
    | following cursor logStream => exact ⟨hphase.1, Nat.le_trans hphase.2.1 hle, hphase.2.2⟩
    | received cursor logStream item =>
      cases item with
      | none => exact ⟨hphase.1, Nat.le_trans hphase.2 hle⟩
      | some item => exact ⟨hphase.1, hphase.2.1.grow hle, hphase.2.2⟩
    | reading | requested | quiescing | returned | closed => exact hphase

/-- What the reader has seen may be more. -/
theorem seen_le (h : Flow instanceId seen len frames phase) (hseen : seen ≤ seen') :
    Flow instanceId seen' len frames phase := by
  refine ⟨h.1, ?_⟩
  have hphase := h.2
  cases phase with
  | following cursor logStream =>
    exact ⟨hphase.1, hphase.2.1, hphase.2.2.imp_left fun hc => Nat.le_trans hc hseen⟩
  | received cursor logStream item => cases item <;> exact hphase
  | reading | requested | quiescing | returned | closed => exact hphase

/-- The reader takes a frame, and has seen its event. -/
theorem consume {e : Event} (h : Flow instanceId seen len (.event e :: frames) phase)
    (he : e.sequence ≤ seen) : Flow instanceId seen len frames phase := by
  obtain ⟨hframes, hphase⟩ := h
  refine ⟨fun m hm => hframes m (List.mem_cons_of_mem _ hm), ?_⟩
  cases phase with
  | following cursor logStream =>
    obtain ⟨hlog, hle, hcovered⟩ := hphase
    refine ⟨hlog, hle, ?_⟩
    rcases hcovered with hc | ⟨e', hmem, hc⟩
    · exact .inl hc
    · rcases List.mem_cons.1 hmem with heq | hmem
      · obtain rfl := Message.event.inj heq
        exact .inl (Nat.le_trans hc he)
      · exact .inr ⟨e', hmem, hc⟩
  | received cursor logStream item => cases item <;> exact hphase
  | reading | requested | quiescing | returned | closed => exact hphase

/-- Everything was read: the reader has seen the newest event. -/
theorem caught_up {logStream : Bool}
    (h : Flow instanceId seen len [] (.following len logStream : Phase Peer Handoff)) :
    len ≤ seen := by
  obtain ⟨-, -, -, hle | ⟨e, hmem, -⟩⟩ := h
  · exact hle
  · cases hmem

variable [DecidableEq Peer] {setup : Service.Setup Peer Handoff} {s s' : System Peer Handoff}
  {input : Daemon.Input Peer Handoff} {c : ℕ} {peer : Peer}

/-- What is written for a received item. -/
theorem deliver {cursor : ℕ} {logStream : Bool} {item : Option (Option Peer × Event)}
    {event : Event} (hbus : s.service.Bus instanceId)
    (h : Flow instanceId seen s.service.events.length frames
      (.received cursor logStream item : Phase Peer Handoff))
    (hd : System.deliverable s.service peer logStream item = .ok event) :
    Fair instanceId s.service.events.length event ∧ cursor ≤ event.sequence ∧
      logStream = false := by
  obtain ⟨-, hphase⟩ := h
  cases item with
  | none =>
    obtain ⟨rfl, hcursor⟩ := hphase
    unfold System.deliverable at hd
    cases ha : s.service.state.authorize peer with
    | error e => simp [ha] at hd
    | ok _ =>
      simp only [ha, Bool.false_eq_true, if_false, Except.ok.injEq] at hd
      rw [← hd]
      have hlen := hbus.length
      exact ⟨⟨hbus.own, Nat.le_of_eq hlen, fun hr => by cases hr⟩, hlen ▸ hcursor, rfl⟩
  | some item =>
    obtain ⟨rfl, hfair, rfl⟩ := hphase
    unfold System.deliverable at hd
    cases ha : s.service.state.authorize peer with
    | error e => simp [ha] at hd
    | ok _ =>
      simp only [ha] at hd
      split_ifs at hd
      obtain rfl := Except.ok.inj hd
      exact ⟨hfair, Nat.le_refl _, rfl⟩

omit [DecidableEq Peer] in
/-- What a receiver holds after it returned. -/
theorem receive {cursor cursor' : ℕ} {item : Option (Option Peer × Event)}
    (hbus : s.service.Bus instanceId)
    (h : Flow instanceId seen s.service.events.length frames
      (.following cursor false : Phase Peer Handoff))
    (hr : System.receive s.service.events cursor = some (cursor', item)) :
    Flow instanceId seen s.service.events.length frames
      (.received cursor' false item : Phase Peer Handoff) := by
  refine ⟨h.1, ?_⟩
  unfold System.receive at hr
  split_ifs at hr
  · obtain ⟨rfl, rfl⟩ := Prod.mk.inj (Option.some.inj hr)
    exact ⟨rfl, Nat.sub_le _ _⟩
  · obtain ⟨item', hitem, heq⟩ := Option.map_eq_some_iff.1 hr
    obtain ⟨rfl, rfl⟩ := Prod.mk.inj heq
    have hmem := List.mem_of_getElem? hitem
    have hlt := (List.getElem?_eq_some_iff.1 hitem).1
    have hseq := hbus.numbered cursor item' hitem
    refine ⟨rfl, ⟨hbus.branded item' hmem, by omega, fun hr => ?_⟩, hseq⟩
    exact hbus.length ▸ hbus.logs item' hmem hr

/-- **A step of the daemon** sends what the stream needs next, or nothing. -/
theorem advance (hbus : s.service.Bus instanceId)
    (hle : s.service.events.length ≤ s'.service.events.length)
    (h : Flow instanceId seen s.service.events.length frames phase)
    (hadv : Advance setup s s' c peer input phase phase' new) :
    Flow instanceId seen s'.service.events.length (frames ++ new) phase' := by
  have silent {phase' : Phase Peer Handoff}
      (h' : Flow instanceId seen s.service.events.length frames phase') :
      Flow instanceId seen s'.service.events.length (frames ++ []) phase' := by
    rw [List.append_nil]
    exact h'.grow hle
  cases hadv with
  | other => exact silent h
  | ended => exact silent ⟨h.1, trivial⟩
  | turn _ out hturn =>
    cases hturn with
    | read | refused | granted => exact h.2.elim
    | admin _ _ _ hadm => cases phase <;> first | exact h.2.elim | cases hadm
    | adminAnswer _ _ _ _ hadm => cases phase <;> first | exact h.2.elim | cases hadm
    | dropped => exact silent ⟨h.1, trivial⟩
    | cleaned => exact silent ⟨h.1, trivial⟩
    | received cursor cursor' logStream item hr =>
      obtain rfl := h.2.1
      exact silent (h.receive hbus hr)
    | delivered cursor logStream item event hd =>
      obtain ⟨hfair, hcursor, hlog⟩ := h.deliver hbus hd
      refine ⟨fun m hm => ?_, hlog, ?_, .inr ⟨event, by simp, hcursor⟩⟩
      · rcases List.mem_append.1 hm with hm | hm
        · obtain ⟨e, rfl, he⟩ := h.1 m hm
          exact ⟨e, rfl, he.grow hle⟩
        · rw [List.map_singleton] at hm
          exact ⟨event, List.mem_singleton.1 hm, hfair.grow hle⟩
      · have := hfair.bounded
        omega

end Flow

/-! ### The first link -/

namespace Net

/-- The first link carries a stream of which the reader has seen the events up to a number. -/
def Streaming (peer : Peer) (instanceId : Uuid) (seen : ℕ) (n : Net Peer Handoff) : Prop :=
  n.At peer 0 fun l phase =>
    l.request = none ∧ Flow instanceId seen n.daemon.service.events.length l.frames phase

namespace Streaming

variable {setup : Service.Setup Peer Handoff} {n n' : Net Peer Handoff} {peer : Peer}
  {instanceId : Uuid} {seen : ℕ} {input : Daemon.Input Peer Handoff} {j : ℕ}

theorem connect (h : n.Streaming peer instanceId seen) (hst : n.connect peer = some n') :
    n'.Streaming peer instanceId seen := by
  unfold Streaming
  rw [(connect_eq_some hst).2.2]
  exact At.connect h hst

theorem send {request : Request Handoff} (h : n.Streaming peer instanceId seen) (hne : j ≠ 0) :
    (n.send j request).Streaming peer instanceId seen :=
  At.send h hne

theorem seen_le {seen' : ℕ} (h : n.Streaming peer instanceId seen) (hseen : seen ≤ seen') :
    n.Streaming peer instanceId seen' :=
  At.mono h fun _ _ hlp => ⟨hlp.1, hlp.2.seen_le hseen⟩

theorem take_other {frame : Message} (h : n.Streaming peer instanceId seen) (hne : j ≠ 0)
    (hst : n.take j = some (frame, n')) : n'.Streaming peer instanceId seen := by
  obtain ⟨-, -, -, -, hdaemon, -⟩ := take_eq_some hst
  unfold Streaming
  rw [hdaemon]
  exact At.take_other h hne hst

/-- The frames of a stream are events; the reader takes the oldest. -/
theorem take {frame : Message} (h : n.Streaming peer instanceId seen)
    (hst : n.take 0 = some (frame, n')) : ∃ e, frame = .event e ∧
      Fair instanceId n.daemon.service.events.length e ∧
      ∀ seen', seen ≤ seen' → e.sequence ≤ seen' → n'.Streaming peer instanceId seen' := by
  obtain ⟨-, -, -, -, hdaemon, -⟩ := take_eq_some hst
  obtain ⟨l, phase, frames, ⟨hreq, hflow⟩, hframes, hat⟩ := At.take h hst
  rw [hframes] at hflow
  obtain ⟨e, rfl, hfair⟩ := hflow.1 frame List.mem_cons_self
  refine ⟨e, rfl, hfair, fun seen' hseen he => ?_⟩
  unfold Streaming
  rw [hdaemon]
  refine hat.mono ?_
  rintro _ _ ⟨rfl, rfl⟩
  exact ⟨hreq, (hflow.seen_le hseen).consume he⟩

variable [DecidableEq Peer]

theorem step (h : n.Streaming peer instanceId seen)
    (hbus : n.daemon.service.Bus instanceId)
    (hle : n.daemon.service.events.length ≤ n'.daemon.service.events.length)
    (hst : n.step setup input = some n') : n'.Streaming peer instanceId seen :=
  At.step h hst fun _ _ _ _ hlp _ hadv _ => ⟨hlp.1, hlp.2.advance hbus hle hadv⟩

theorem relay (h : n.Streaming peer instanceId seen) (ho : n.Owned peer)
    (hst : n.relay setup j = some n') : n'.Streaming peer instanceId seen := by
  unfold Streaming
  rw [relay_service hst]
  refine At.relay h ho hst (fun l request hlp hreq => ?_) fun _ _ hlp => hlp
  rw [hlp.1] at hreq
  cases hreq

end Streaming

end Net

/-! ### The reader -/

/-- What `next` returned so far: snapshots under their own numbers, which increase up to `n`. -/
structure Reported (returned : List Event) (n : ℕ) : Prop where
  snapshots : ∀ e ∈ returned, ∃ sn, e.payload = .snapshot sn ∧ sn.sequence = e.sequence
  increasing : returned.Pairwise fun a b => a.sequence < b.sequence
  bounded : ∀ e ∈ returned, e.sequence ≤ n

namespace Reported

variable {returned : List Event} {n : ℕ} {e : Event} {sn : Snapshot}

theorem nil : Reported [] n := ⟨by simp, by simp, by simp⟩

theorem mono {n' : ℕ} (h : Reported returned n) (hle : n ≤ n') : Reported returned n' :=
  ⟨h.snapshots, h.increasing, fun e he => Nat.le_trans (h.bounded e he) hle⟩

/-- A later snapshot is returned, or the first one. -/
theorem append (h : Reported returned n) (hsn : e.payload = .snapshot sn)
    (hown : sn.sequence = e.sequence) (hlater : returned = [] ∨ n < e.sequence) :
    Reported (returned ++ [e]) e.sequence := by
  refine ⟨fun e' he' => ?_, ?_, fun e' he' => ?_⟩
  · rcases List.mem_append.1 he' with he' | he'
    · exact h.snapshots e' he'
    · rw [List.mem_singleton.1 he']
      exact ⟨sn, hsn, hown⟩
  · rw [List.pairwise_append]
    refine ⟨h.increasing, List.pairwise_singleton _ _, fun a ha b hb => ?_⟩
    rw [List.mem_singleton.1 hb]
    rcases hlater with rfl | hlt
    · cases ha
    · exact Nat.lt_of_le_of_lt (h.bounded a ha) hlt
  · rcases List.mem_append.1 he' with he' | he'
    · rcases hlater with rfl | hlt
      · cases he'
      · exact Nat.le_trans (h.bounded e' he') (Nat.le_of_lt hlt)
    · rw [List.mem_singleton.1 he']

end Reported

/-- The stream counted the events up to `n`; the last of them is behind the bus, or was returned. -/
structure Placed (instanceId : Uuid) (len : ℕ) (returned : List Event) (es : Events) (n : ℕ) :
    Prop where
  kind : es.logStream = false
  initial : es.initial = none
  last : es.last = some (instanceId, n)
  bounded : n ≤ len
  reported : Reported returned n
  shown : n < len ∨ ∃ e, returned.getLast? = some e ∧ e.sequence = n

theorem Placed.grow {instanceId : Uuid} {len len' n : ℕ} {returned : List Event} {es : Events}
    (h : Placed instanceId len returned es n) (hle : len ≤ len') :
    Placed instanceId len' returned es n where
  kind := h.kind
  initial := h.initial
  last := h.last
  bounded := Nat.le_trans h.bounded hle
  reported := h.reported
  shown := h.shown.imp_left fun hlt => Nat.lt_of_lt_of_le hlt hle

namespace Reader

/-- A granted subscription: the answer, and the stream behind it. -/
def Subscribed (instanceId id : Uuid) (len : ℕ) (l : Link Handoff) (phase : Phase Peer Handoff) :
    Prop :=
  ∃ sn frames, l.frames = .response ⟨id, .ok (.snapshot sn)⟩ :: frames ∧
    sn.serviceInstanceId = instanceId ∧ sn.sequence ≤ len ∧
    Flow instanceId sn.sequence len frames phase

/-- A granted snapshot that is no older than the event at the gap. -/
def Fetched (instanceId id : Uuid) (gap len : ℕ) (l : Link Handoff) (phase : Phase Peer Handoff) :
    Prop :=
  ∃ sn, l.frames = [.response ⟨id, .ok (.snapshot sn)⟩] ∧ Idle phase ∧
    sn.serviceInstanceId = instanceId ∧ gap ≤ sn.sequence ∧ sn.sequence ≤ len

/-- What holds of a reader of snapshots, for each stage. -/
def Reading (instanceId : Uuid) (peer : Peer) (net : Net Peer Handoff) (returned : List Event) :
    Stage → Prop
  | .idle => net.links = [] ∧ returned = []
  | .asking id => returned = [] ∧ net.Calling peer 0 ⟨id, .subscribe⟩
      (Subscribed instanceId id net.daemon.service.events.length)
  | .streaming es =>
    -- the answer waits for `next`, or `next` returned it
    (∃ sn, es = { last := none, initial := some (fetchedEvent sn), backlog := []
                  logStream := false } ∧ returned = [] ∧ sn.serviceInstanceId = instanceId ∧
      sn.sequence ≤ net.daemon.service.events.length ∧
      net.Streaming peer instanceId sn.sequence) ∨
    ∃ n, Placed instanceId net.daemon.service.events.length returned es n ∧
      net.Streaming peer instanceId n
  | .connecting es gap => ∃ n,
    Placed instanceId net.daemon.service.events.length returned es n ∧ n < gap.sequence ∧
      gap.sequence ≤ net.daemon.service.events.length ∧
      net.Streaming peer instanceId gap.sequence
  | .fetching es gap k id => ∃ n,
    Placed instanceId net.daemon.service.events.length returned es n ∧ n < gap.sequence ∧
      gap.sequence ≤ net.daemon.service.events.length ∧
      net.Streaming peer instanceId gap.sequence ∧ k ≠ 0 ∧
      net.Calling peer k ⟨id, .snapshot⟩
        (Fetched instanceId id gap.sequence net.daemon.service.events.length)
  | .failed _ => ∃ n, Reported returned n

@[simp] theorem visible_instance [DecidableEq Peer] (s : Session Peer) (p : Peer) :
    (s.visible p).serviceInstanceId = s.snapshot.serviceInstanceId := by
  unfold Session.visible
  split_ifs <;> rfl

namespace Reading

variable {setup : Service.Setup Peer Handoff} {peer : Peer} {instanceId : Uuid}
  {net net' : Net Peer Handoff} {returned : List Event} {stage : Stage}

/-- Whatever happened, the returned snapshots are in order. -/
theorem reported (h : Reading instanceId peer net returned stage) : ∃ n, Reported returned n := by
  cases stage with
  | idle => exact ⟨0, h.2 ▸ .nil⟩
  | asking id => exact ⟨0, h.1 ▸ .nil⟩
  | streaming es =>
    rcases h with ⟨sn, -, rfl, -⟩ | ⟨n, hplaced, -⟩
    · exact ⟨0, .nil⟩
    · exact ⟨n, hplaced.reported⟩
  | connecting es gap | fetching es gap k id =>
    obtain ⟨n, hplaced, -⟩ := h
    exact ⟨n, hplaced.reported⟩
  | failed e => exact h

/-! #### Steps of the daemon -/

section Daemon

variable [DecidableEq Peer]

/-- A step of the daemon. -/
theorem daemon {input : Daemon.Input Peer Handoff}
    (h : Reading instanceId peer net returned stage)
    (hbus : net.daemon.service.Bus instanceId)
    (hle : net.daemon.service.events.length ≤ net'.daemon.service.events.length)
    (hst : net.step setup input = some net') : Reading instanceId peer net' returned stage := by
  have hlen := hbus.length
  cases stage with
  | idle =>
    have hlength := Net.step_length hst
    rw [h.1] at hlength
    exact ⟨List.length_eq_zero_iff.1 hlength, h.2⟩
  | failed e => exact h
  | streaming es =>
    rcases h with ⟨sn, hes, hreturned, hinst, hsn, hstream⟩ | ⟨n, hplaced, hstream⟩
    · exact .inl ⟨sn, hes, hreturned, hinst, Nat.le_trans hsn hle, hstream.step hbus hle hst⟩
    · exact .inr ⟨n, hplaced.grow hle, hstream.step hbus hle hst⟩
  | connecting es gap =>
    obtain ⟨n, hplaced, hlt, hgap, hstream⟩ := h
    exact ⟨n, hplaced.grow hle, hlt, Nat.le_trans hgap hle, hstream.step hbus hle hst⟩
  | asking id =>
    refine ⟨h.1, h.2.step hst rfl hle ?_ ?_⟩
    · intro l cursor m payload hnil hcursor hd
      obtain ⟨rfl, hservice⟩ := dispatch_visible hd (.inr rfl)
      refine ⟨_, [], rfl, ?_, ?_, by simp, rfl, ?_, .inl ?_⟩
      · simpa using hbus.own
      · rw [hservice, visible_sequence, hlen]
      · rw [hservice]
        exact hcursor
      · rw [visible_sequence, hlen]
        exact hcursor
    · rintro l phase phase' frames ⟨sn, rest, hframes, hinst, hsn, hflow⟩ hadv hread
      exact ⟨sn, rest ++ frames, by rw [hframes]; rfl, hinst, Nat.le_trans hsn hle,
        hflow.advance hbus hle hadv⟩
  | fetching es gap k id =>
    obtain ⟨n, hplaced, hlt, hgap, hstream, hk, hcalling⟩ := h
    refine ⟨n, hplaced.grow hle, hlt, Nat.le_trans hgap hle, hstream.step hbus hle hst, hk,
      hcalling.step hst rfl hle ?_ ?_⟩
    · intro l cursor m payload hnil hcursor hd
      obtain ⟨rfl, hservice⟩ := dispatch_visible hd (.inl rfl)
      refine ⟨_, rfl, .inl rfl, ?_, ?_, ?_⟩
      · simpa using hbus.own
      · rw [visible_sequence, hlen]
        exact hgap
      · rw [hservice, visible_sequence, hlen]
    · rintro l phase phase' frames ⟨sn, hframes, hidle, hinst, hge, hsn⟩ hadv hread
      obtain ⟨hidle', rfl⟩ := hidle.advance hadv hread
      exact ⟨sn, by rw [hframes]; rfl, hidle', hinst, hge, Nat.le_trans hsn hle⟩

/-- The daemon reads a request of the client. -/
theorem relay {k : ℕ} (h : Reading instanceId peer net returned stage) (ho : net.Owned peer)
    (hst : net.relay setup k = some net') : Reading instanceId peer net' returned stage := by
  have hservice := Net.relay_service hst
  cases stage with
  | idle =>
    obtain ⟨l, request, peer', hl, -⟩ := Net.relay_eq_some hst
    simp [h.1] at hl
  | failed e => exact h
  | asking id =>
    unfold Reading at h ⊢
    rw [hservice]
    exact ⟨h.1, h.2.relay ho hst⟩
  | streaming es =>
    unfold Reading at h ⊢
    rw [hservice]
    rcases h with ⟨sn, hes, hreturned, hinst, hsn, hstream⟩ | ⟨n, hplaced, hstream⟩
    · exact .inl ⟨sn, hes, hreturned, hinst, hsn, hstream.relay ho hst⟩
    · exact .inr ⟨n, hplaced, hstream.relay ho hst⟩
  | connecting es gap =>
    unfold Reading at h ⊢
    rw [hservice]
    obtain ⟨n, hplaced, hlt, hgap, hstream⟩ := h
    exact ⟨n, hplaced, hlt, hgap, hstream.relay ho hst⟩
  | fetching es gap k id =>
    unfold Reading at h ⊢
    rw [hservice]
    obtain ⟨n, hplaced, hlt, hgap, hstream, hk, hcalling⟩ := h
    exact ⟨n, hplaced, hlt, hgap, hstream.relay ho hst, hk, hcalling.relay ho hst⟩

end Daemon

/-! #### Steps of the client -/

/-- The reader opens its connection and subscribes. -/
theorem subscribe {id : Uuid} (h : Reading instanceId peer net returned .idle)
    (hst : net.connect peer = some net') :
    Reading instanceId peer (net'.send 0 ⟨id, method false⟩) returned (.asking id) := by
  have hopened : (net'.send net.links.length ⟨id, method false⟩).Calling peer net.links.length
      ⟨id, .subscribe⟩ (Subscribed instanceId id net'.daemon.service.events.length) :=
    Net.Calling.opened hst
  rw [h.1] at hopened
  exact ⟨h.2, hopened⟩

/-- The reader reads the answer. -/
theorem answered {id : Uuid} {frame : Message} {es : Events}
    (h : Reading instanceId peer net returned (.asking id))
    (htake : net.take 0 = some (frame, net'))
    (hes : (answerTo id frame).bind (Events.ofPayload false) = .ok es) :
    Reading instanceId peer net' returned (.streaming es) := by
  obtain ⟨hreturned, hcalling⟩ := h
  obtain ⟨-, -, -, -, hdaemon, -⟩ := Net.take_eq_some htake
  rcases hcalling.take htake with ⟨e, rfl⟩ | ⟨l, phase, frames, hreq, hframes, hserved, hat⟩
  · simp [answerTo, Except.bind] at hes
  · obtain ⟨sn, rest, hframes', hinst, hsn, hflow⟩ := hserved
    rw [hframes'] at hframes
    obtain ⟨rfl, rfl⟩ := List.cons.inj hframes
    refine .inl ⟨sn, ?_, hreturned, hinst, by rw [hdaemon]; exact hsn, ?_⟩
    · simpa [answerTo, Except.bind, Events.ofPayload, fetchedEvent, eq_comm] using hes
    · unfold Net.Streaming
      rw [hdaemon]
      refine hat.mono ?_
      rintro _ _ ⟨rfl, rfl⟩
      exact ⟨hreq, hflow⟩

end Reading

/-! #### Consuming an event -/

/-- What `next` does with a fair event on a snapshot stream. -/
theorem examine_fair {es : Events} {event : Event} {instanceId : Uuid} {n len : ℕ}
    (hkind : es.logStream = false) (hlast : es.last = some (instanceId, n))
    (hfair : Fair instanceId len event) :
    (∃ e, es.examine event = .failed e) ∨
    (event.sequence ≤ n ∧ es.examine event = .skipped es) ∨
    (n < event.sequence ∧ es.examine event = .gap) ∨
    n < event.sequence ∧ mismatched event = false ∧ es.examine event = es.accept event := by
  unfold Events.examine
  rw [hlast, hkind]
  simp only [hfair.own, ne_eq, not_true_eq_false, true_and, false_or, Bool.false_eq_true,
    if_false]
  split_ifs with hzero hown hold hgap
  · exact .inl ⟨_, rfl⟩
  · exact .inl ⟨_, rfl⟩
  · exact .inr (.inl ⟨hold, rfl⟩)
  · exact .inr (.inr (.inr ⟨by omega, by simpa using hown, rfl⟩))
  · exact .inr (.inr (.inl ⟨by omega, rfl⟩))

theorem record_of_snapshot {event : Event} (h : (Event.record event).isSome = false) :
    ∃ sn, event.payload = .snapshot sn := by
  obtain ⟨_, _, payload⟩ := event
  cases payload with
  | snapshot sn => exact ⟨sn, rfl⟩
  | log record => cases h

namespace Reading

variable {peer : Peer} {instanceId : Uuid} {r : Reader Peer Handoff} {es : Events}
  {event : Event} {n : ℕ}

/-- `next` looks at an event of the stream. -/
theorem examined
    (hplaced : Placed instanceId r.net.daemon.service.events.length r.returned es n)
    (hfair : Fair instanceId r.net.daemon.service.events.length event)
    (hstream : ∀ seen, n ≤ seen → event.sequence ≤ seen → r.net.Streaming peer instanceId seen) :
    Reading instanceId peer (r.examined es event).net (r.examined es event).returned
      (r.examined es event).stage := by
  rcases examine_fair hplaced.kind hplaced.last hfair with
    ⟨e, he⟩ | ⟨hold, he⟩ | ⟨hlater, he⟩ | ⟨hlater, hown, he⟩
  · simp only [Reader.examined, he]
    exact ⟨n, hplaced.reported⟩
  · simp only [Reader.examined, he]
    exact .inr ⟨n, hplaced, hstream n (Nat.le_refl _) hold⟩
  · simp only [Reader.examined, he]
    exact ⟨n, hplaced, hlater, hfair.bounded,
      hstream event.sequence (Nat.le_of_lt hlater) (Nat.le_refl _)⟩
  · have hnext := hstream event.sequence (Nat.le_of_lt hlater) (Nat.le_refl _)
    unfold Events.accept at he
    rw [hplaced.kind] at he
    cases hrecord : (Event.record event).isSome with
    | true =>
      simp only [hrecord, ne_eq, Bool.true_eq_false, not_false_eq_true, if_true] at he
      simp only [Reader.examined, he]
      refine .inr ⟨event.sequence, ⟨rfl, hplaced.initial, ?_, hfair.bounded,
        hplaced.reported.mono (Nat.le_of_lt hlater), .inl (hfair.logs hrecord)⟩, hnext⟩
      rw [hfair.own]
    | false =>
      simp only [hrecord, ne_eq, not_true_eq_false, if_false] at he
      simp only [Reader.examined, he]
      obtain ⟨sn, hsn⟩ := record_of_snapshot hrecord
      have hseq : sn.sequence = event.sequence := by
        simp only [mismatched, hsn, ne_eq, Bool.or_eq_false_iff, decide_eq_false_iff_not,
          not_not] at hown
        exact hown.2
      refine .inr ⟨event.sequence, ⟨rfl, hplaced.initial, ?_, hfair.bounded,
        hplaced.reported.append hsn hseq (.inr hlater), .inr ⟨event, by simp, rfl⟩⟩, hnext⟩
      rw [hfair.own]

/-- `next` returns the answer to the subscription. -/
theorem examined_initial {sn : Snapshot} (hreturned : r.returned = [])
    (hinst : sn.serviceInstanceId = instanceId)
    (hsn : sn.sequence ≤ r.net.daemon.service.events.length)
    (hstream : r.net.Streaming peer instanceId sn.sequence)
    (hes : es = { last := none, initial := none, backlog := [], logStream := false }) :
    Reading instanceId peer (r.examined es (fetchedEvent sn)).net
      (r.examined es (fetchedEvent sn)).returned (r.examined es (fetchedEvent sn)).stage := by
  have hown : mismatched (fetchedEvent sn) = false := by simp [mismatched, fetchedEvent]
  have hsnapshot : (fetchedEvent sn).payload = .snapshot sn := rfl
  by_cases hzero : (fetchedEvent sn).serviceInstanceId = 0
  · have he : es.examine (fetchedEvent sn) = .failed protocolError := by
      rw [Events.examine, if_pos hzero]
    simp only [Reader.examined, he]
    exact ⟨0, hreturned ▸ .nil⟩
  · have he : es.examine (fetchedEvent sn) = .returned
        { es with last := some (sn.serviceInstanceId, sn.sequence) } (fetchedEvent sn) := by
      rw [Events.examine, if_neg hzero, hown, hes]
      rfl
    simp only [Reader.examined, he]
    refine .inr ⟨sn.sequence, ⟨by rw [hes], by rw [hes], ?_, hsn, ?_,
      .inr ⟨fetchedEvent sn, by simp, rfl⟩⟩, hstream⟩
    · rw [hinst]
    · rw [hreturned]
      exact Reported.append (n := 0) .nil hsnapshot rfl (.inl rfl)

/-- The second connection is opened. -/
theorem fetch {net net' : Net Peer Handoff} {returned : List Event} {gap : Event} {id : Uuid}
    (h : Reading instanceId peer net returned (.connecting es gap))
    (hst : net.connect peer = some net') :
    Reading instanceId peer (net'.send net.links.length ⟨id, .snapshot⟩) returned
      (.fetching es gap net.links.length id) := by
  obtain ⟨n, hplaced, hlt, hgap, hstream⟩ := h
  have hservice : net'.daemon.service = net.daemon.service := (Net.connect_eq_some hst).2.2
  have hne : net.links.length ≠ 0 := by
    obtain ⟨l, phase, hl, -⟩ := hstream
    have := (List.getElem?_eq_some_iff.1 hl).1
    omega
  unfold Reading
  have hdaemon : (net'.send net.links.length ⟨id, .snapshot⟩).daemon.service =
      net.daemon.service := hservice
  rw [hdaemon]
  exact ⟨n, hplaced, hlt, hgap, (hstream.connect hst).send hne, hne, Net.Calling.opened hst⟩

/-- The fetched snapshot is read. -/
theorem fetched {net net' : Net Peer Handoff} {returned : List Event} {gap : Event} {k : ℕ}
    {id : Uuid} {frame : Message} {sn : Snapshot}
    (h : Reading instanceId peer net returned (.fetching es gap k id))
    (htake : net.take k = some (frame, net')) (hanswer : answerTo id frame = .ok (.snapshot sn)) :
    Reading instanceId peer net' (returned ++ [fetchedEvent sn])
      (.streaming { es with last := some (sn.serviceInstanceId, sn.sequence) }) := by
  obtain ⟨n, hplaced, hlt, hgap, hstream, hk, hcalling⟩ := h
  obtain ⟨-, -, -, -, hdaemon, -⟩ := Net.take_eq_some htake
  rcases hcalling.take htake with ⟨e, rfl⟩ | ⟨l, phase, frames, hreq, hframes, hserved, hat⟩
  · simp [answerTo] at hanswer
  · obtain ⟨sn', hframes', hidle, hinst, hge, hsn⟩ := hserved
    rw [hframes'] at hframes
    obtain ⟨rfl, rfl⟩ := List.cons.inj hframes
    obtain rfl : sn' = sn := by simpa [answerTo] using hanswer
    have hsnapshot : (fetchedEvent sn').payload = .snapshot sn' := rfl
    have hlater : n < (fetchedEvent sn').sequence := Nat.lt_of_lt_of_le hlt hge
    refine .inr ⟨sn'.sequence, ⟨hplaced.kind, hplaced.initial, ?_, by rw [hdaemon]; exact hsn,
      hplaced.reported.append hsnapshot rfl (.inr hlater), .inr ⟨fetchedEvent sn', by simp, rfl⟩⟩,
      (hstream.take_other hk htake).seen_le hge⟩
    rw [hinst]

/-- Every step of the reader. -/
theorem step [DecidableEq Peer] {setup : Service.Setup Peer Handoff} {r' : Reader Peer Handoff}
    {input : Input Peer Handoff} (h : Reading instanceId peer r.net r.returned r.stage)
    (hbus : r.net.daemon.service.Bus instanceId) (ho : r.net.Owned peer)
    (hle : r.net.daemon.service.events.length ≤ r'.net.daemon.service.events.length)
    (hst : r.step setup peer false input = some r') :
    Reading instanceId peer r'.net r'.returned r'.stage := by
  have hreported := h.reported
  unfold Reader.step at hst
  split at hst
  · obtain ⟨net, hnet, rfl⟩ := Option.map_eq_some_iff.1 hst
    exact h.daemon hbus hle hnet
  · obtain ⟨net, hnet, rfl⟩ := Option.map_eq_some_iff.1 hst
    exact h.relay ho hnet
  · rename_i hstage
    rw [hstage] at h
    obtain ⟨net, hnet, rfl⟩ := Option.map_eq_some_iff.1 hst
    exact h.subscribe hnet
  · rename_i id hstage
    rw [hstage] at h
    obtain ⟨⟨frame, net⟩, htake, rfl⟩ := Option.map_eq_some_iff.1 hst
    dsimp only
    split
    · rename_i es hes
      exact h.answered htake hes
    · exact hreported
  · rename_i es hstage
    rw [hstage] at h
    split at hst
    · -- the answer is returned first
      rename_i event hinit
      rw [← Option.some.inj hst]
      rcases h with ⟨sn, rfl, hreturned, hinst, hsn, hstream⟩ | ⟨n, hplaced, -⟩
      · obtain rfl := Option.some.inj hinit
        exact examined_initial hreturned hinst hsn hstream rfl
      · rw [hplaced.initial] at hinit
        cases hinit
    · rename_i hinit
      obtain ⟨⟨frame, net⟩, htake, rfl⟩ := Option.map_eq_some_iff.1 hst
      obtain ⟨-, -, -, -, hdaemon, -⟩ := Net.take_eq_some htake
      rcases h with ⟨sn, rfl, -⟩ | ⟨n, hplaced, hstream⟩
      · cases hinit
      · obtain ⟨event, rfl, hfair, hnext⟩ := hstream.take htake
        rw [← hdaemon] at hplaced hfair
        exact examined (r := { r with net }) hplaced hfair hnext
  · rename_i es gap id hstage
    rw [hstage] at h
    obtain ⟨net, hnet, rfl⟩ := Option.map_eq_some_iff.1 hst
    exact h.fetch hnet
  · rename_i es gap k id hstage
    rw [hstage] at h
    obtain ⟨⟨frame, net⟩, htake, rfl⟩ := Option.map_eq_some_iff.1 hst
    dsimp only
    split
    · rename_i sn hanswer
      exact h.fetched htake hanswer
    · exact hreported
    · exact hreported
  · cases hst
  · rw [← Option.some.inj hst]
    exact hreported
  · cases hst

end Reading

end Reader

/-! ### What the reader was told -/

/-- The peer was told the snapshot. -/
def Spoken (os : List (Output Peer)) (peer : Peer) (sn : Snapshot) : Prop :=
  ∃ o ∈ os, o.peer = peer ∧ o.message.snapshot = some sn

theorem Spoken.append {os : List (Output Peer)} {peer : Peer} {sn : Snapshot}
    (h : Spoken os peer sn) (out : List (Output Peer)) : Spoken (os ++ out) peer sn := by
  obtain ⟨o, ho, hpeer, hsn⟩ := h
  exact ⟨o, List.mem_append_left _ ho, hpeer, hsn⟩

namespace Net

/-- Every snapshot on its way to the client was told to its peer. -/
def Heard (os : List (Output Peer)) (peer : Peer) (n : Net Peer Handoff) : Prop :=
  ∀ l ∈ n.links, ∀ m ∈ l.frames, ∀ sn, m.snapshot = some sn → Spoken os peer sn

namespace Heard

variable {os : List (Output Peer)} {peer : Peer} {n n' : Net Peer Handoff} {k : ℕ}

theorem modify (h : n.Heard os peer) {f : Link Handoff → Link Handoff}
    (hlinks : n'.links = n.links.modify k f) (hf : ∀ l, (f l).frames = l.frames) :
    n'.Heard os peer := by
  intro l hl
  obtain ⟨i, hi⟩ := List.mem_iff_getElem?.1 hl
  rw [hlinks, List.getElem?_modify] at hi
  obtain ⟨l', hl', heq⟩ := Option.map_eq_some_iff.1 hi
  have hframes : l.frames = l'.frames := by
    rw [← heq]
    split_ifs
    · exact hf l'
    · rfl
  rw [hframes]
  exact h l' (List.mem_of_getElem? hl')

theorem connect (h : n.Heard os peer) (hst : n.connect peer = some n') : n'.Heard os peer := by
  intro l hl
  rw [(connect_eq_some hst).1] at hl
  rcases List.mem_append.1 hl with hl | hl
  · exact h l hl
  · rw [List.mem_singleton.1 hl]
    simp

theorem take {frame : Message} (h : n.Heard os peer) (hst : n.take k = some (frame, n')) :
    n'.Heard os peer ∧ ∀ sn, frame.snapshot = some sn → Spoken os peer sn := by
  obtain ⟨l, frames, hl, hframes, -, hlinks⟩ := take_eq_some hst
  have hl' := h l (List.mem_of_getElem? hl)
  rw [hframes] at hl'
  refine ⟨fun l' hmem => ?_, hl' frame List.mem_cons_self⟩
  obtain ⟨i, hi⟩ := List.mem_iff_getElem?.1 hmem
  rw [hlinks, List.getElem?_modify] at hi
  obtain ⟨l₀, hl₀, heq⟩ := Option.map_eq_some_iff.1 hi
  by_cases hki : k = i
  · subst hki
    rw [hl] at hl₀
    obtain rfl := Option.some.inj hl₀
    rw [← heq, if_pos rfl]
    exact fun m hm => hl' m (List.mem_cons_of_mem _ hm)
  · rw [← heq, if_neg hki]
    exact h l₀ (List.mem_of_getElem? hl₀)

variable [DecidableEq Peer] {setup : Service.Setup Peer Handoff}
  {input : Daemon.Input Peer Handoff}

/-- What is written to a connection is told to its peer. -/
theorem peer_of_turned {s s' : System Peer Handoff} {out : List (Output Peer)}
    (ht : System.Turned setup s s' input out) :
    ∀ o ∈ out, ∃ phase, s.connections[o.connection]? = some ⟨o.peer, phase⟩ := by
  intro o ho
  cases ht with
  | still _ hout | accepted _ _ _ hout | ended _ _ hout =>
    rw [hout] at ho
    cases ho
  | turned c peer before after hc hconns hturn =>
    have hto : o.connection = c ∧ o.peer = peer := by
      cases hturn with
      | read | admin | received | dropped | cleaned => cases ho
      | refused | granted | adminAnswer | delivered =>
        rw [List.mem_singleton.1 ho]
        exact ⟨rfl, rfl⟩
    exact ⟨before, by rw [hto.1, hto.2]; exact hc⟩

theorem forward (h : n.Heard os peer) (ho : n.Owned peer) (hst : n.forward setup input = some n') :
    ∃ out, System.step setup n.daemon input = some (n'.daemon, out) ∧
      n'.Heard (os ++ out) peer := by
  obtain ⟨out, hdaemon, hlinks⟩ := forward_eq_some hst
  refine ⟨out, hdaemon, fun l hl m hm sn hsn => ?_⟩
  rw [hlinks] at hl
  obtain ⟨l', hl', rfl⟩ := List.mem_map.1 hl
  rcases List.mem_append.1 hm with hm | hm
  · exact (h l' hl' m hm sn hsn).append out
  · obtain ⟨o, hmem, rfl⟩ := List.mem_map.1 hm
    obtain ⟨hmem, hto⟩ := List.mem_filter.1 hmem
    obtain ⟨phase, hc⟩ := ho.peers l' hl'
    obtain ⟨phase', hc'⟩ := peer_of_turned (System.turned_of_step hdaemon) o hmem
    rw [of_decide_eq_true hto, hc] at hc'
    obtain ⟨hpeer, -⟩ := Connection.mk.inj (Option.some.inj hc')
    exact ⟨o, List.mem_append_right _ hmem, hpeer.symm, hsn⟩

end Heard

end Net

/-- The snapshot that the reader has yet to return. -/
def Stage.pending : Stage → Option Event
  | .streaming es | .connecting es _ | .fetching es _ _ _ => es.initial
  | _ => none

namespace Reader

/-- Every snapshot the client holds was told to its peer. -/
structure Heard (os : List (Output Peer)) (peer : Peer) (r : Reader Peer Handoff) : Prop where
  net : r.net.Heard os peer
  pending : ∀ e, r.stage.pending = some e → ∀ sn, e.payload = .snapshot sn → Spoken os peer sn
  returned : ∀ e ∈ r.returned, ∀ sn, e.payload = .snapshot sn → Spoken os peer sn

namespace Heard

variable {os : List (Output Peer)} {peer : Peer} {r r' : Reader Peer Handoff} {es : Events}
  {event : Event}

/-- `next` returns the event it looks at. -/
theorem examined (hnet : r.net.Heard os peer) (hinit : es.initial = none)
    (hreturned : ∀ e ∈ r.returned, ∀ sn, e.payload = .snapshot sn → Spoken os peer sn)
    (hevent : ∀ sn, event.payload = .snapshot sn → Spoken os peer sn) :
    Heard os peer (r.examined es event) := by
  rcases es.examine_cases event with ⟨e, he⟩ | he | he | ⟨last, he⟩ | ⟨last, he⟩ <;>
    simp only [Reader.examined, he]
  · exact ⟨hnet, fun e he => (by cases he), hreturned⟩
  · exact ⟨hnet, fun e he => (by simp [Stage.pending, hinit] at he), hreturned⟩
  · exact ⟨hnet, fun e he => (by simp [Stage.pending, hinit] at he), hreturned⟩
  · exact ⟨hnet, fun e he => (by simp [Stage.pending, hinit] at he), hreturned⟩
  · refine ⟨hnet, fun e he => (by simp [Stage.pending, hinit] at he), fun e he => ?_⟩
    rcases List.mem_append.1 he with he | he
    · exact hreturned e he
    · rw [List.mem_singleton.1 he]
      exact hevent

theorem snapshot_of_answer {id : Uuid} {frame : Message} {sn : Snapshot}
    (h : answerTo id frame = .ok (.snapshot sn)) : frame.snapshot = some sn := by
  rw [answerTo_eq_ok h]
  rfl

/-- The answer that starts a stream of snapshots. -/
theorem pending_of_answer {id : Uuid} {frame : Message}
    (h : (answerTo id frame).bind (Events.ofPayload false) = .ok es) :
    ∃ sn, answerTo id frame = .ok (.snapshot sn) ∧ es =
      { last := none, initial := some (fetchedEvent sn), backlog := [], logStream := false } := by
  cases ha : answerTo id frame with
  | error e => rw [ha] at h; cases h
  | ok payload =>
    rw [ha] at h
    cases payload with
    | snapshot sn => exact ⟨sn, rfl, (Except.ok.inj h).symm⟩
    | capabilities | reserved | accepted | logs => cases h

/-- Another net behind the same reader. -/
theorem congr (h : Heard os peer r) {net : Net Peer Handoff} {out : List (Output Peer)}
    (hnet : net.Heard (os ++ out) peer) : Heard (os ++ out) peer { r with net } :=
  ⟨hnet, fun e he sn hsn => (h.pending e he sn hsn).append out,
    fun e he sn hsn => (h.returned e he sn hsn).append out⟩

end Heard

/-- No step of the daemon is a `quiesce` that clears an error of the snapshot. -/
def Announced (r : Reader Peer Handoff) (input : Input Peer Handoff) : Prop :=
  ∀ i, input = .daemon i → System.Announced r.net.daemon i

/-- What the daemon told in a step of the reader. -/
def Tells [DecidableEq Peer] (setup : Service.Setup Peer Handoff) (s s' : System Peer Handoff)
    (out : List (Output Peer)) : Prop :=
  s' = s ∧ out = [] ∨ ∃ i, System.Announced s i ∧ System.step setup s i = some (s', out)

namespace Heard

variable [DecidableEq Peer] {setup : Service.Setup Peer Handoff} {os : List (Output Peer)}
  {peer : Peer} {r r' : Reader Peer Handoff} {input : Input Peer Handoff}

/-- What a reader holds after a step was told before it or in it. -/
theorem step (h : Heard os peer r) (ho : r.net.Owned peer) (hp : Announced r input)
    (hst : r.step setup peer false input = some r') :
    ∃ out, Heard (os ++ out) peer r' ∧ Tells setup r.net.daemon r'.net.daemon out := by
  -- steps that publish nothing
  have silent {r' : Reader Peer Handoff} (h' : Heard os peer r')
      (ht : Tells setup r.net.daemon r'.net.daemon []) :
      ∃ out, Heard (os ++ out) peer r' ∧ Tells setup r.net.daemon r'.net.daemon out :=
    ⟨[], by rwa [List.append_nil], ht⟩
  -- a request on a connection that was accepted for it
  have opened {net : Net Peer Handoff} {k : ℕ} {request : Request Handoff} {stage : Stage}
      (hnet : r.net.connect peer = some net) (hstage : stage.pending = r.stage.pending) :
      ∃ out, Heard (os ++ out) peer { r with net := net.send k request, stage } ∧
        Tells setup r.net.daemon net.daemon out := by
    have hnet' : (net.send k request).Heard os peer :=
      (h.net.connect hnet).modify rfl fun _ => rfl
    have hdaemon : System.step setup r.net.daemon (.accept peer) = some (net.daemon, []) :=
      Net.connect_step hnet
    have hheard : Heard os peer { r with net := net.send k request, stage } :=
      ⟨hnet', by simpa only [hstage] using h.pending, h.returned⟩
    exact silent hheard (.inr ⟨_, fun _ _ _ heq => (by cases heq), hdaemon⟩)
  unfold Reader.step at hst
  split at hst
  · rename_i i
    obtain ⟨net, hnet, rfl⟩ := Option.map_eq_some_iff.1 hst
    obtain ⟨out, hdaemon, hheard⟩ := h.net.forward ho (Net.step_eq_some hnet).1
    exact ⟨out, h.congr hheard, .inr ⟨i, hp i rfl, hdaemon⟩⟩
  · obtain ⟨net, hnet, rfl⟩ := Option.map_eq_some_iff.1 hst
    obtain ⟨l, request, peer', -, -, -, -, hlinks⟩ := Net.relay_eq_some hnet
    obtain ⟨c, request, hdaemon⟩ := Net.relay_step hnet
    have hnet' : net.Heard os peer := h.net.modify hlinks fun _ => rfl
    exact silent ⟨hnet', h.pending, h.returned⟩ (.inr ⟨_, fun _ _ _ heq => (by cases heq), hdaemon⟩)
  · rename_i hstage
    obtain ⟨net, hnet, rfl⟩ := Option.map_eq_some_iff.1 hst
    exact opened hnet (by rw [hstage]; rfl)
  · rename_i id hstage
    obtain ⟨⟨frame, net⟩, htake, rfl⟩ := Option.map_eq_some_iff.1 hst
    obtain ⟨-, -, -, -, hdaemon, -⟩ := Net.take_eq_some htake
    obtain ⟨hnet, hframe⟩ := h.net.take htake
    dsimp only
    split
    · rename_i es hes
      refine silent ⟨hnet, fun e he sn hsn => hframe sn ?_, h.returned⟩ (.inl ⟨hdaemon, rfl⟩)
      obtain ⟨sn', hanswer, rfl⟩ := pending_of_answer hes
      obtain rfl := Option.some.inj he
      obtain rfl := EventPayload.snapshot.inj hsn
      exact snapshot_of_answer hanswer
    · exact silent ⟨hnet, fun e he => (by cases he), h.returned⟩ (.inl ⟨hdaemon, rfl⟩)
  · rename_i es hstage
    split at hst
    · rename_i event hinit
      rw [← Option.some.inj hst]
      have hpending := h.pending event (by rw [hstage]; exact hinit)
      have hexamined : Heard os peer (r.examined { es with initial := none } event) :=
        examined h.net rfl h.returned hpending
      exact silent hexamined (.inl ⟨by rw [examined_net], rfl⟩)
    · rename_i hinit
      obtain ⟨⟨frame, net⟩, htake, rfl⟩ := Option.map_eq_some_iff.1 hst
      obtain ⟨-, -, -, -, hdaemon, -⟩ := Net.take_eq_some htake
      obtain ⟨hnet, hframe⟩ := h.net.take htake
      cases frame with
      | event event =>
        refine silent (examined (r := { r with net }) hnet hinit h.returned fun sn hsn =>
          hframe sn ?_) (.inl ⟨by rw [examined_net]; exact hdaemon, rfl⟩)
        obtain ⟨_, _, payload⟩ := event
        obtain rfl : payload = .snapshot sn := hsn
        rfl
      | response response =>
        exact silent ⟨hnet, fun e he => (by cases he), h.returned⟩ (.inl ⟨hdaemon, rfl⟩)
  · rename_i es gap id hstage
    obtain ⟨net, hnet, rfl⟩ := Option.map_eq_some_iff.1 hst
    exact opened hnet (by rw [hstage]; rfl)
  · rename_i es gap k id hstage
    obtain ⟨⟨frame, net⟩, htake, rfl⟩ := Option.map_eq_some_iff.1 hst
    obtain ⟨-, -, -, -, hdaemon, -⟩ := Net.take_eq_some htake
    obtain ⟨hnet, hframe⟩ := h.net.take htake
    dsimp only
    split
    · rename_i sn hanswer
      refine silent ⟨hnet, fun e he => h.pending e (by rw [hstage]; exact he), fun e he => ?_⟩
        (.inl ⟨hdaemon, rfl⟩)
      rcases List.mem_append.1 he with he | he
      · exact h.returned e he
      · rintro sn' hsn
        rw [List.mem_singleton.1 he] at hsn
        obtain rfl := EventPayload.snapshot.inj hsn
        exact hframe sn (snapshot_of_answer hanswer)
    · exact silent ⟨hnet, fun e he => (by cases he), h.returned⟩ (.inl ⟨hdaemon, rfl⟩)
    · exact silent ⟨hnet, fun e he => (by cases he), h.returned⟩ (.inl ⟨hdaemon, rfl⟩)
  · cases hst
  · rw [← Option.some.inj hst]
    exact silent ⟨h.net, fun e he => (by cases he), h.returned⟩ (.inl ⟨rfl, rfl⟩)
  · cases hst

end Heard

/-! ### Runs -/

/-- What holds of the reader in every run. -/
structure Sound (instanceId : Uuid) (peer : Peer) (r : Reader Peer Handoff) : Prop where
  inv : r.net.daemon.Inv
  bus : r.net.daemon.service.Bus instanceId
  owned : r.net.Owned peer
  reading : Reading instanceId peer r.net r.returned r.stage

variable [DecidableEq Peer] {setup : Service.Setup Peer Handoff} {peer : Peer}
  {instanceId : Uuid} {r r' : Reader Peer Handoff} {input : Input Peer Handoff}

theorem Sound.step (h : Sound instanceId peer r)
    (hst : r.step setup peer false input = some r') : Sound instanceId peer r' := by
  obtain ⟨hinv, hpub⟩ := inv_of_step h.inv hst
  have hle : r.net.daemon.service.events.length ≤ r'.net.daemon.service.events.length := by
    obtain ⟨new, hnew⟩ := hpub.events
    rw [hnew, List.length_append]
    exact Nat.le_add_right _ _
  exact ⟨hinv, h.bus.publishes hpub, owned_of_step h.owned hst,
    h.reading.step h.bus h.owned hle hst⟩

omit [DecidableEq Peer] in
/-- A reader that has consumed everything saw the current number, and returned the last
snapshot under it. -/
theorem Sound.current {es : Events} (h : Sound instanceId peer r) (hstage : r.stage = .streaming es)
    (hinit : es.initial = none) (hcaught : r.CaughtUp) :
    es.last = some (instanceId, r.net.daemon.service.state.snapshot.sequence) ∧
      ∃ e, r.returned.getLast? = some e ∧
        e.sequence = r.net.daemon.service.state.snapshot.sequence := by
  have hreading := h.reading
  rw [hstage] at hreading
  rcases hreading with ⟨sn, rfl, -⟩ | ⟨n, hplaced, hstream⟩
  · cases hinit
  · obtain ⟨l, phase, hl, hc, -, hflow⟩ := hstream
    obtain ⟨l', peer', logStream, hl', hnil, hc'⟩ := hcaught
    obtain rfl : l = l' := Option.some.inj (hl.symm.trans hl')
    rw [hc] at hc'
    obtain ⟨-, rfl⟩ := Connection.mk.inj (Option.some.inj hc')
    rw [hnil] at hflow
    have hle := Flow.caught_up hflow
    obtain rfl : n = r.net.daemon.service.events.length := Nat.le_antisymm hplaced.bounded hle
    rw [h.bus.length]
    exact ⟨hplaced.last, hplaced.shown.resolve_left (Nat.lt_irrefl _)⟩

/-- **A subscription is monotone and never stays stale.**  In a run in which no call of `quiesce`
succeeds while the snapshot has an error, the returned events are snapshots with increasing
sequence numbers, and a reader that has consumed everything saw the current number and returned
the current snapshot last. -/
theorem subscription_fresh (setup : Service.Setup Peer Handoff) (peer : Peer)
    (r₀ r : Reader Peer Handoff) (h₀ : (reader setup peer false).init r₀)
    (h : (reader setup peer false).ReachesBy Announced r₀ r) :
    (∀ e ∈ r.returned, ∃ sn, e.payload = .snapshot sn ∧ sn.sequence = e.sequence) ∧
    r.returned.Pairwise (fun e e' => e.sequence < e'.sequence) ∧
    ∀ es, r.stage = .streaming es → es.initial = none → r.CaughtUp →
      es.last = some (r.net.daemon.service.state.snapshot.serviceInstanceId,
        r.net.daemon.service.state.snapshot.sequence) ∧
      ∃ e, r.returned.getLast? = some e ∧
        e.payload = .snapshot (r.net.daemon.service.state.visible peer) := by
  obtain ⟨instanceId, recoveryError, rfl⟩ := h₀
  have hrun : Sound instanceId peer r ∧ r.net.daemon.Holding ∧
      ∃ os, Told os r.net.daemon.service ∧ Heard os peer r := by
    refine h.preserves (P := fun r => Sound instanceId peer r ∧ r.net.daemon.Holding ∧
      ∃ os, Told os r.net.daemon.service ∧ Heard os peer r) ?_ ?_
    · refine ⟨⟨.initial instanceId recoveryError, ⟨rfl, ?_, rfl, ?_, ?_⟩, ⟨?_, ?_⟩, rfl, rfl⟩, ?_,
        [], .initial instanceId recoveryError, ?_, ?_, ?_⟩
      all_goals simp [System.start, System.Holding, Net.Heard, Stage.pending]
    · rintro r i r' o ⟨hsound, hheld, os, htold, hheard⟩ hp hst
      have hst' := step_of_reader hst
      obtain ⟨out, hheard', ⟨hdaemon, rfl⟩ | ⟨i', hannounced, hdaemon⟩⟩ :=
        hheard.step hsound.owned hp hst'
      · rw [hdaemon]
        exact ⟨hsound.step hst', hheld, _, by rwa [List.append_nil], hheard'⟩
      · obtain ⟨-, hheld', htold'⟩ := System.told_of_step hsound.inv hheld htold hannounced hdaemon
        exact ⟨hsound.step hst', hheld', _, htold', hheard'⟩
  obtain ⟨hsound, -, os, htold, hheard⟩ := hrun
  obtain ⟨n, hreported⟩ := hsound.reading.reported
  refine ⟨hreported.snapshots, hreported.increasing, fun es hstage hinit hcaught => ?_⟩
  obtain ⟨hlast, e, hreturned, hseq⟩ := hsound.current hstage hinit hcaught
  refine ⟨by rw [hlast, hsound.bus.own], e, hreturned, ?_⟩
  have hmem := List.mem_of_getLast? hreturned
  obtain ⟨sn, hsn, hown⟩ := hreported.snapshots e hmem
  -- the snapshot was told to the peer, and nothing was told under its number but what is visible
  obtain ⟨o, ho, hpeer, hspoken⟩ := hheard.returned e hmem sn hsn
  rw [hsn, (htold.current o ho sn hspoken).2 (hown.trans hseq), hpeer]

/-- Peer 7 reads the first snapshot on connection 0, reserves on connection 1, and reads what was
published. -/
def watchedInputs : List (Input ℕ String) :=
  [.subscribe 3, .relay 0, .daemon (.dispatch 0 5 101), .answered, .next, .daemon (.accept 7),
    .daemon (.read 1 ⟨1, .reserve 2 "work" "anyconnect"⟩), .daemon (.dispatch 1 4 100),
    .daemon (.receive 0), .daemon (.deliver 0), .next, .daemon (.receive 0),
    .daemon (.deliver 0), .next]

/-- The reader after them. -/
def watched : Reader ℕ String :=
  (reader System.sampleSetup 7 false).perform (start ℕ String) watchedInputs

theorem watched_reached : (reader System.sampleSetup 7 false).ReachesBy Announced
    (start ℕ String) watched := by
  refine Machine.reachesBy_perform _ _ ?_
  rintro input hmem r i rfl c peer id rfl
  simp [watchedInputs] at hmem

theorem subscription_fresh_watched : ∃ es, watched.stage = .streaming es ∧ es.initial = none ∧
    watched.CaughtUp ∧ watched.returned.length = 2 ∧
    (∀ e ∈ watched.returned, ∃ sn, e.payload = .snapshot sn ∧ sn.sequence = e.sequence) ∧
    watched.returned.Pairwise (fun e e' => e.sequence < e'.sequence) ∧
    es.last = some (watched.net.daemon.service.state.snapshot.serviceInstanceId,
      watched.net.daemon.service.state.snapshot.sequence) ∧
    ∃ e, watched.returned.getLast? = some e ∧
      e.payload = .snapshot (watched.net.daemon.service.state.visible 7) := by
  obtain ⟨hsnapshots, hincreasing, hcurrent⟩ := subscription_fresh System.sampleSetup 7
    (start ℕ String) watched ⟨1, none, rfl⟩ watched_reached
  have hcaught : watched.CaughtUp := ⟨_, 7, false, rfl, rfl, rfl⟩
  exact ⟨_, rfl, rfl, hcaught, rfl, hsnapshots, hincreasing, hcurrent _ rfl rfl hcaught⟩

/-- The startup recovery failed, and peer 7 reads the first snapshot on connection 0.  Then root
quiesces the service on connection 1. -/
def unawareInputs : List (Input ℕ String) :=
  [.subscribe 3, .relay 0, .daemon (.dispatch 0 5 101), .answered, .next, .daemon (.accept 0),
    .daemon (.read 1 ⟨3, .adminQuiesce none⟩), .daemon (.admin 1 none), .daemon (.lock 1),
    .daemon (.teardown 1 102), .daemon (.inspect 1), .daemon (.adminRecovered (.warnings [])),
    .daemon (.conclude 1)]

/-- The reader before it opens its connection. -/
def warned : Reader ℕ String :=
  { net := { daemon := System.start 1 (some (recoveryWarning [])), links := [] }
    stage := .idle, returned := [] }

/-- The reader after them. -/
def unaware : Reader ℕ String :=
  (reader System.sampleSetup 7 false).perform warned unawareInputs

/-- The snapshot returned last has the error of the startup recovery; the current one has none. -/
theorem subscription_stale : ¬ ∀ (r₀ r : Reader ℕ String) (es : Events),
    (reader System.sampleSetup 7 false).init r₀ →
    (reader System.sampleSetup 7 false).Reaches r₀ r → r.stage = .streaming es →
    es.initial = none → r.CaughtUp → ∃ e, r.returned.getLast? = some e ∧
      e.payload = .snapshot (r.net.daemon.service.state.visible 7) := by
  intro h
  obtain ⟨es, hstage, hinit⟩ : ∃ es, unaware.stage = .streaming es ∧ es.initial = none :=
    ⟨_, rfl, rfl⟩
  obtain ⟨e, hreturned, hpayload⟩ := h warned unaware es ⟨1, _, rfl⟩
    (Machine.reaches_perform _ _) hstage hinit ⟨_, 7, false, rfl, rfl, rfl⟩
  obtain ⟨e', hreturned', hpayload'⟩ : ∃ e, unaware.returned.getLast? = some e ∧
      e.payload ≠ .snapshot (unaware.net.daemon.service.state.visible 7) :=
    ⟨_, rfl, by decide⟩
  rw [hreturned] at hreturned'
  obtain rfl := Option.some.inj hreturned'
  exact hpayload' hpayload

end Reader

end Ocvpn.Client
