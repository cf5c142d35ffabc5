import Ocvpn.Daemon.Invariant

/-!
# The bus

Every event of one service instance is numbered by its place on the bus, so the sequence number of
the session is the length of the bus; a publication ends with the snapshot, so a log record is
never the newest event.  The records kept in memory are the newest ones ever published.

## Main results

* `Move.publishes` : every step publishes at most once.
* `Service.Bus.publishes`, `Service.Retained.publishes` : a publication keeps the numbering, and the
  agreement of the kept records with the published ones.
-/

namespace Ocvpn.Daemon

variable {Peer Handoff : Type}

/-- The event shows a log record. -/
def Event.record (e : Event) : Option LogRecord :=
  match e.payload with
  | .log record => some record
  | .snapshot _ => none

/-- The log records among events of the bus, the oldest first. -/
def logsOf (events : List (Option Peer × Event)) : List LogRecord :=
  events.filterMap fun e => Event.record e.2

@[simp] theorem logsOf_append (events events' : List (Option Peer × Event)) :
    logsOf (events ++ events') = logsOf events ++ logsOf events' :=
  List.filterMap_append

namespace Service

/-- The bus of one service instance. -/
structure Bus (instanceId : Uuid) (v : Service Peer) : Prop where
  own : v.state.snapshot.serviceInstanceId = instanceId
  branded : ∀ e ∈ v.events, e.2.serviceInstanceId = instanceId
  length : v.state.snapshot.sequence = v.events.length
  /-- Events are numbered from one. -/
  numbered : ∀ i e, v.events[i]? = some e → e.2.sequence = i + 1
  /-- A log record is followed by a snapshot. -/
  logs : ∀ e ∈ v.events, (Event.record e.2).isSome = true →
    e.2.sequence < v.state.snapshot.sequence

/-- The records in memory are the newest ones on the bus. -/
def Retained (v : Service Peer) : Prop := v.state.logs <:+ logsOf v.events

variable {instanceId : Uuid} {v w : Service Peer} {message : Option (String × LogLevel)} {wall : ℤ}

/-! ### Publishing -/

/-- The bus looks at the events, the sequence number and the instance only. -/
theorem Bus.congr (h : v.Bus instanceId) (he : w.events = v.events)
    (hs : w.state.snapshot.sequence = v.state.snapshot.sequence)
    (hi : w.state.snapshot.serviceInstanceId = v.state.snapshot.serviceInstanceId) :
    w.Bus instanceId where
  own := hi.trans h.own
  branded := by rw [he]; exact h.branded
  length := by rw [he, hs]; exact h.length
  numbered := by rw [he]; exact h.numbered
  logs := by rw [he, hs]; exact h.logs

/-- Numbered events may be appended, if no log record is the newest one. -/
theorem Bus.append {new : List (Option Peer × Event)} (h : v.Bus instanceId)
    (he : w.events = v.events ++ new)
    (hs : w.state.snapshot.sequence = v.state.snapshot.sequence + new.length)
    (hi : w.state.snapshot.serviceInstanceId = v.state.snapshot.serviceInstanceId)
    (hb : ∀ e ∈ new, e.2.serviceInstanceId = v.state.snapshot.serviceInstanceId)
    (hn : ∀ i e, new[i]? = some e → e.2.sequence = v.state.snapshot.sequence + i + 1)
    (hl : ∀ e ∈ new, (Event.record e.2).isSome = true →
      e.2.sequence < w.state.snapshot.sequence) : w.Bus instanceId where
  own := hi.trans h.own
  branded := by
    intro e hmem
    rw [he] at hmem
    rcases List.mem_append.1 hmem with hmem | hmem
    · exact h.branded e hmem
    · exact (hb e hmem).trans h.own
  length := by rw [hs, he, List.length_append, h.length]
  numbered := by
    intro i e hget
    rw [he] at hget
    rcases Nat.lt_or_ge i v.events.length with hlt | hge
    · rw [List.getElem?_append_left hlt] at hget
      exact h.numbered i e hget
    · rw [List.getElem?_append_right hge] at hget
      have hseq := hn _ e hget
      have hlen := h.length
      omega
  logs := by
    intro e hmem hr
    rw [he] at hmem
    rcases List.mem_append.1 hmem with hmem | hmem
    · have hlt := h.logs e hmem hr
      omega
    · exact hl e hmem hr

/-- What a publication appends to the bus. -/
def published (v : Service Peer) (message : Option (String × LogLevel)) (wall : ℤ) :
    List (Option Peer × Event) :=
  let id := v.state.snapshot.serviceInstanceId
  let sn := (v.publish message wall).state.snapshot
  match message with
  | none => [(v.state.lastOwner, ⟨id, v.state.snapshot.sequence + 1, .snapshot sn⟩)]
  | some (message, level) =>
    [(v.state.lastOwner, ⟨id, v.state.snapshot.sequence + 1, .log ⟨wall, level, message⟩⟩),
      (v.state.lastOwner, ⟨id, v.state.snapshot.sequence + 2, .snapshot sn⟩)]

theorem publish_events :
    (v.publish message wall).events = v.events ++ v.published message wall := by
  cases message with
  | none => rfl
  | some m => simp [publish, log, send, published, Session.pushLog]

theorem publish_sequence : (v.publish message wall).state.snapshot.sequence =
    v.state.snapshot.sequence + (v.published message wall).length := by
  cases message <;> rfl

@[simp] theorem publish_serviceInstanceId :
    (v.publish message wall).state.snapshot.serviceInstanceId =
      v.state.snapshot.serviceInstanceId := by
  cases message <;> rfl

theorem Bus.publish (h : v.Bus instanceId) : (v.publish message wall).Bus instanceId := by
  refine h.append publish_events publish_sequence publish_serviceInstanceId ?_ ?_ ?_
  · cases message <;> simp [published]
  · intro i e hget
    cases message with
    | none =>
      rcases i with _ | i
      · obtain rfl := Option.some.inj hget
        rfl
      · cases hget
    | some m =>
      rcases i with _ | _ | i
      · obtain rfl := Option.some.inj hget
        rfl
      · obtain rfl := Option.some.inj hget
        rfl
      · cases hget
  · intro e hmem hr
    rw [publish_sequence]
    cases message with
    | none =>
      rw [List.mem_singleton.1 hmem] at hr
      cases hr
    | some m =>
      rcases List.mem_pair.1 hmem with rfl | rfl
      · simp [published]
      · cases hr

/-- A publication keeps the newest records. -/
theorem Retained.publish (h : v.Retained) : (v.publish message wall).Retained := by
  rw [Retained, publish_events, logsOf_append]
  cases message with
  | none => exact (List.append_nil (logsOf v.events)).symm ▸ h
  | some m =>
    have hkept : (if v.state.logs.length = maxLogs then v.state.logs.tail else v.state.logs) <:+
        logsOf v.events := by
      split_ifs
      · exact (List.tail_suffix _).trans h
      · exact h
    obtain ⟨dropped, hdropped⟩ := hkept
    exact ⟨dropped, by rw [← hdropped, List.append_assoc]; rfl⟩

/-- `w` is `v` with something published, or with the bus as it was. -/
inductive Publishes (v w : Service Peer) : Prop
  | same : w.events = v.events →
      w.state.snapshot.sequence = v.state.snapshot.sequence →
      w.state.snapshot.serviceInstanceId = v.state.snapshot.serviceInstanceId →
      w.state.logs = v.state.logs → Publishes v w
  | published (u : Service Peer) (message : Option (String × LogLevel)) (wall : ℤ) :
      u.events = v.events → u.state.snapshot.sequence = v.state.snapshot.sequence →
      u.state.snapshot.serviceInstanceId = v.state.snapshot.serviceInstanceId →
      u.state.logs <:+ v.state.logs → w = u.publish message wall → Publishes v w

theorem Publishes.publish {u : Service Peer} (he : u.events = v.events)
    (hs : u.state.snapshot.sequence = v.state.snapshot.sequence)
    (hi : u.state.snapshot.serviceInstanceId = v.state.snapshot.serviceInstanceId)
    (hl : u.state.logs <:+ v.state.logs) : v.Publishes (u.publish message wall) :=
  .published u message wall he hs hi hl rfl

theorem cancelSlot_bus (v : Service Peer) (slot : Slot Peer) :
    (v.cancelSlot slot).events = v.events ∧
      (v.cancelSlot slot).state.snapshot.sequence = v.state.snapshot.sequence ∧
      (v.cancelSlot slot).state.snapshot.serviceInstanceId =
        v.state.snapshot.serviceInstanceId ∧
      (v.cancelSlot slot).state.logs = v.state.logs := by
  unfold cancelSlot
  cases slot.cancel <;> exact ⟨rfl, rfl, rfl, rfl⟩

theorem Publishes.cancel (he : w.events = v.events) (hs : w.state.snapshot = v.state.snapshot)
    (hl : w.state.logs = v.state.logs) : v.Publishes (w.cancel wall) := by
  cases hslot : w.state.slot with
  | none =>
    rw [cancel_eq_self hslot]
    exact .same he (by rw [hs]) (by rw [hs]) hl
  | some slot =>
    obtain ⟨he', hs', hi', hl'⟩ := cancelSlot_bus w slot
    rw [cancel_eq_of_slot hslot]
    exact .publish (he'.trans he) (hs'.trans (by rw [hs])) (hi'.trans (by rw [hs]))
      (hl'.trans hl ▸ List.suffix_rfl)

theorem Publishes.update {u : Update} {session : Uuid} : v.Publishes (v.update u session wall) := by
  have same : v.Publishes v := .same rfl rfl rfl rfl
  cases u with
  | connected network =>
    unfold Service.update
    by_cases hd : v.state.snapshot.state = .disconnecting
    · simpa only [if_pos hd] using same
    · simp only [if_neg hd]
      exact .publish rfl rfl rfl List.suffix_rfl
  | reconnecting =>
    unfold Service.update
    by_cases hd : v.state.snapshot.state = .disconnecting
    · simpa only [if_pos hd] using same
    · simp only [if_neg hd]
      exact .publish rfl rfl rfl List.suffix_rfl
  | traffic counters =>
    unfold Service.update
    exact .publish rfl rfl rfl List.suffix_rfl
  | finished result quiescent =>
    unfold Service.update finished
    cases result <;> exact .publish rfl rfl rfl List.suffix_rfl

/-- The bus only grows. -/
theorem Publishes.events (h : v.Publishes w) : ∃ new, w.events = v.events ++ new := by
  cases h with
  | same he => exact ⟨[], by rw [he, List.append_nil]⟩
  | published u message wall he _ _ _ hw =>
    exact ⟨u.published message wall, by rw [hw, publish_events, he]⟩

theorem Publishes.serviceInstanceId (h : v.Publishes w) :
    w.state.snapshot.serviceInstanceId = v.state.snapshot.serviceInstanceId := by
  cases h with
  | same _ _ hi => exact hi
  | published u message wall _ _ hi _ hw => rw [hw, publish_serviceInstanceId, hi]

theorem Bus.publishes (h : v.Bus instanceId) (hp : v.Publishes w) : w.Bus instanceId := by
  cases hp with
  | same he hs hi => exact h.congr he hs hi
  | published u message wall he hs hi _ hw =>
    rw [hw]
    exact (h.congr he hs hi).publish

theorem Retained.publishes (h : v.Retained) (hp : v.Publishes w) : w.Retained := by
  cases hp with
  | same he hs hi hl => rwa [Retained, he, hl]
  | published u message wall he _ _ hl hw =>
    rw [hw]
    refine Retained.publish ?_
    rw [Retained, he]
    exact hl.trans h

end Service

/-- What a move does to the bus. -/
theorem Move.publishes {s : System Peer Handoff} {input : Input Peer Handoff} {v : Service Peer}
    {attempts : List (Attempt Peer)} {issued : List Uuid} (hm : Move s input v attempts issued) :
    s.service.Publishes v := by
  cases hm with
  | still | supervise | stale | drained | join => exact .same rfl rfl rfl rfl
  | reserve => exact .publish rfl rfl rfl List.nil_suffix
  | start => exact .publish rfl rfl rfl List.suffix_rfl
  | renew => exact .same rfl rfl rfl rfl
  | cancel => exact .cancel rfl rfl rfl
  | stop => exact .cancel rfl rfl rfl
  | unblock => exact .same rfl rfl rfl rfl
  | update => exact .update
  | fail => exact .publish rfl rfl rfl List.suffix_rfl

end Ocvpn.Daemon
