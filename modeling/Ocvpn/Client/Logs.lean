import Ocvpn.Client.Events

/-!
# Following the log

The daemon subscribes a connection to the bus when it has read a request, and takes the backlog of
`Logs { follow: true }` later, when it handles the request.  A record published in between is in the
backlog and on the stream; the backlog carries no sequence numbers, so the client cannot tell.

A run is `Undisturbed` when no record is published between the two.

## Main results

* `Reader.follower_complete` : in an undisturbed run the follower sees the records retained when its
  request was handled and every record published after that, each once and in order.
* `Reader.backlog_repeated` : without the condition a record may be seen twice.
-/

namespace Ocvpn.Client

open Daemon

variable {Peer Handoff : Type}

/-- What was sent of the stream that starts at place `start` of the bus. -/
def Streamed (start : ℕ) (sent : List Event) (phase : Phase Peer Handoff)
    (events : List (Option Peer × Event)) : Prop :=
  ∃ m, start ≤ m ∧ m ≤ events.length ∧ sent = ((events.take m).drop start).map Prod.snd ∧
    match phase with
    | .following cursor logStream => logStream = true ∧ cursor = m
    | .received cursor logStream (some item) =>
      logStream = true ∧ cursor = m + 1 ∧ events[m]? = some item
    | .received _ logStream none => logStream = true
    | .returned | .closed => True
    | _ => False

/-- The events among the frames. -/
def eventsOf (frames : List Message) : List Event :=
  frames.filterMap fun
    | .event e => some e
    | .response _ => none

@[simp] theorem eventsOf_append (frames frames' : List Message) :
    eventsOf (frames ++ frames') = eventsOf frames ++ eventsOf frames' :=
  List.filterMap_append

@[simp] theorem eventsOf_map (es : List Event) : eventsOf (es.map .event) = es := by
  induction es with
  | nil => rfl
  | cons e es ih => exact congrArg (e :: ·) ih

namespace Streamed

variable {start : ℕ} {sent : List Event} {phase phase' : Phase Peer Handoff}
  {events new : List (Option Peer × Event)}

/-- The bus grows behind the stream. -/
theorem grow (h : Streamed start sent phase events) :
    Streamed start sent phase (events ++ new) := by
  obtain ⟨m, hstart, hm, hsent, hphase⟩ := h
  refine ⟨m, hstart, by simp only [List.length_append]; omega, ?_, ?_⟩
  · rw [hsent, List.take_append_of_le_length hm]
  · cases phase with
    | received cursor logStream item =>
      cases item with
      | none => exact hphase
      | some item =>
        refine ⟨hphase.1, hphase.2.1, ?_⟩
        rw [List.getElem?_append_left (List.getElem?_eq_some_iff.1 hphase.2.2).1]
        exact hphase.2.2
    | reading | requested | quiescing | following | returned | closed => exact hphase

/-- The stream may break off anywhere. -/
theorem breaks (h : Streamed start sent phase events)
    (hphase : phase' = .returned ∨ phase' = .closed) : Streamed start sent phase' events := by
  obtain ⟨m, hstart, hm, hsent, -⟩ := h
  refine ⟨m, hstart, hm, hsent, ?_⟩
  rcases hphase with rfl | rfl <;> trivial

variable [DecidableEq Peer] {setup : Service.Setup Peer Handoff} {s s' : System Peer Handoff}
  {input : Daemon.Input Peer Handoff} {c : ℕ} {peer : Peer} {frames : List Message}

/-- A step of the daemon sends the next events of the stream, or none. -/
theorem advance (h : Streamed start sent phase s.service.events)
    (hadv : Advance setup s s' c peer input phase phase' frames)
    (hevents : ∃ new, s'.service.events = s.service.events ++ new) :
    frames = (eventsOf frames).map .event ∧
      Streamed start (sent ++ eventsOf frames) phase' s'.service.events := by
  obtain ⟨new, hnew⟩ := hevents
  have silent {phase' : Phase Peer Handoff} (h' : Streamed start sent phase' s.service.events) :
      ([] : List Message) = (eventsOf []).map .event ∧
        Streamed start (sent ++ eventsOf []) phase' s'.service.events := by
    rw [eventsOf, List.filterMap_nil, List.append_nil, hnew]
    exact ⟨rfl, h'.grow⟩
  cases hadv with
  | other => exact silent h
  | ended => exact silent (h.breaks (.inr rfl))
  | turn _ out hturn =>
    obtain ⟨m, hstart, hm, hsent, hphase⟩ := h
    cases hturn with
    | read | refused | granted => exact hphase.elim
    | admin _ _ _ hadm => cases phase <;> first | exact hphase.elim | cases hadm
    | adminAnswer _ _ _ _ hadm => cases phase <;> first | exact hphase.elim | cases hadm
    | dropped => exact silent ⟨m, hstart, hm, hsent, trivial⟩
    | cleaned => exact silent ⟨m, hstart, hm, hsent, trivial⟩
    | received cursor cursor' logStream item hr hs =>
      obtain ⟨rfl, rfl⟩ := hphase
      refine silent ⟨cursor, hstart, hm, hsent, ?_⟩
      unfold System.receive at hr
      split_ifs at hr
      · obtain ⟨-, rfl⟩ := Prod.mk.inj (Option.some.inj hr)
        rfl
      · obtain ⟨item', hitem, heq⟩ := Option.map_eq_some_iff.1 hr
        obtain ⟨rfl, rfl⟩ := Prod.mk.inj heq
        exact ⟨rfl, rfl, hitem⟩
    | delivered cursor logStream item event hd hs =>
      cases item with
      | none =>
        obtain rfl : logStream = true := hphase
        cases hd
      | some item =>
        obtain ⟨rfl, rfl, hitem⟩ := hphase
        have hlt := (List.getElem?_eq_some_iff.1 hitem).1
        have hevent : item.2 = event := by
          unfold System.deliverable at hd
          cases ha : s.service.state.authorize peer with
          | error e => simp [ha] at hd
          | ok _ =>
            simp only [ha] at hd
            split_ifs at hd
            exact Except.ok.inj hd
        refine ⟨rfl, m + 1, by omega, by simp only [hnew, List.length_append]; omega, ?_,
          rfl, rfl⟩
        -- one more event of the bus has been sent
        rw [hnew, List.take_append_of_le_length (by omega), List.take_add_one, hitem,
          List.drop_append_of_le_length (by simp only [List.length_take]; omega), List.map_append,
          ← hsent, ← hevent]
        rfl

end Streamed

/-! ### The follower -/

namespace Reader

variable [DecidableEq Peer]

omit [DecidableEq Peer] in
/-- A connection of the client is subscribed to the bus, and its request is not handled yet. -/
def awaiting (r : Reader Peer Handoff) : Bool :=
  r.net.links.any fun l => match r.net.daemon.connections[l.connection]? with
    | some ⟨_, .requested _ _⟩ => true
    | _ => false

/-- No log record is published between the subscription of a connection of the client and the
handling of its request. -/
def Undisturbed (setup : Service.Setup Peer Handoff) (r : Reader Peer Handoff)
    (input : Input Peer Handoff) : Prop :=
  ∀ i, input = .daemon i → r.awaiting = true → ∀ s' out,
    System.step setup r.net.daemon i = some (s', out) →
      logsOf s'.service.events = logsOf r.events

/-- The backlog was taken in a state `r₁` on the way from `r₀` to `r`, and the stream goes on from
there. -/
def Since (setup : Service.Setup Peer Handoff) (peer : Peer) (r₀ r : Reader Peer Handoff)
    (backlog : List LogRecord) (sent : List Event) (phase : Phase Peer Handoff) : Prop :=
  ∃ r₁ id start, (reader setup peer true).Reaches r₀ r₁ ∧ (reader setup peer true).Reaches r₁ r ∧
    r₁.stage = .asking id ∧ backlog = r₁.net.daemon.service.state.visibleLogs peer ∧
    (∃ new, r.events = r₁.events ++ new) ∧ start ≤ r₁.events.length ∧
    logsOf (r₁.events.drop start) = [] ∧ Streamed start sent phase r.events

/-- What holds of the follower in an undisturbed run from `r₀`. -/
inductive Follows (setup : Service.Setup Peer Handoff) (peer : Peer) (r₀ r : Reader Peer Handoff) :
    Prop
  | idle : r.stage = .idle → r.net.links = [] → r.returned = [] → Follows setup peer r₀ r
  | asking (id : Uuid) (l : Link Handoff) (phase : Phase Peer Handoff) : r.stage = .asking id →
      r.net.links = [l] → r.net.daemon.connections[l.connection]? = some ⟨peer, phase⟩ →
      r.returned = [] →
      Asked ⟨id, .logs true⟩ r.events.length (∃ backlog sent,
        l.frames = .response ⟨id, .ok (.logs backlog)⟩ :: sent.map .event ∧
          Since setup peer r₀ r backlog sent phase) l phase →
      (∀ cursor request, phase = .requested cursor request → logsOf (r.events.drop cursor) = []) →
      Follows setup peer r₀ r
  | streaming (es : Events) (l : Link Handoff) (phase : Phase Peer Handoff)
      (consumed sent : List Event) : r.stage = .streaming es → r.net.links = [l] →
      r.net.daemon.connections[l.connection]? = some ⟨peer, phase⟩ → l.request = none →
      l.frames = sent.map .event → es.initial = none → es.logStream = true →
      r.returned = consumed.filter (fun e => (Event.record e).isSome) →
      es.last = consumed.getLast?.map (fun e => (e.serviceInstanceId, e.sequence)) →
      Since setup peer r₀ r es.backlog (consumed ++ sent) phase → Follows setup peer r₀ r
  | failed (e : Error) : r.stage = .failed e → Follows setup peer r₀ r

variable {setup : Service.Setup Peer Handoff} {peer : Peer} {r₀ r r' : Reader Peer Handoff}
  {backlog : List LogRecord} {sent sent' : List Event} {phase phase' : Phase Peer Handoff}

/-- The stream goes on with the run. -/
theorem Since.step {input : Input Peer Handoff} (h : Since setup peer r₀ r backlog sent phase)
    (hst : r.step setup peer true input = some r') (hevents : ∃ new, r'.events = r.events ++ new)
    (hsent : ∀ start, Streamed start sent phase r.events →
      Streamed start sent' phase' r'.events) : Since setup peer r₀ r' backlog sent' phase' := by
  obtain ⟨r₁, id, start, h₀₁, h₁, hstage, hbacklog, ⟨new, hnew⟩, hstart, hlogs, hstream⟩ := h
  obtain ⟨new', hnew'⟩ := hevents
  exact ⟨r₁, id, start, h₀₁, h₁.tail (reader_step hst), hstage, hbacklog,
    ⟨new ++ new', by rw [hnew', hnew, List.append_assoc]⟩, hstart, hlogs, hsent start hstream⟩

/-- A follower saw the backlog and then the records of what it consumed; they are the first of the
records that were retained at some moment, or were published later. -/
theorem Since.complete {consumed : List Event}
    (h : Since setup peer r₀ r backlog (consumed ++ sent) phase) : ∃ r₁ id,
    (reader setup peer true).Reaches r₀ r₁ ∧ (reader setup peer true).Reaches r₁ r ∧
    r₁.stage = .asking id ∧
    (backlog ++ consumed.filterMap Event.record) <+:
      (r₁.net.daemon.service.state.visibleLogs peer ++ logsOf (r.events.drop r₁.events.length)) ∧
    (sent = [] → (∃ logStream, phase = .following r.events.length logStream) →
      backlog ++ consumed.filterMap Event.record =
        r₁.net.daemon.service.state.visibleLogs peer ++
          logsOf (r.events.drop r₁.events.length)) := by
  obtain ⟨r₁, id, start, h₀₁, h₁, hstage, rfl, ⟨new, hnew⟩, hstart, hlogs, m, hm, hlen, hsent,
    hphase⟩ := h
  refine ⟨r₁, id, h₀₁, h₁, hstage, ?_⟩
  -- nothing was published between the subscription and the backlog
  have hdrop : logsOf (r.events.drop start) = logsOf (r.events.drop r₁.events.length) := by
    rw [hnew, List.drop_append_of_le_length hstart, List.drop_append_of_le_length (Nat.le_refl _),
      logsOf_append, hlogs, List.drop_length, List.nil_append, List.nil_append]
  have hrecords : (consumed ++ sent).filterMap Event.record =
      logsOf ((r.events.take m).drop start) := by
    rw [hsent, List.filterMap_map]
    rfl
  rw [← hdrop]
  refine ⟨?_, fun hnil hcaught => ?_⟩
  · rw [List.prefix_append_right_inj]
    have hpre : logsOf ((r.events.take m).drop start) <+: logsOf (r.events.drop start) := by
      rw [← List.take_append_drop m r.events, List.drop_append_of_le_length
        (by rw [List.length_take]; omega), logsOf_append, List.take_append_drop]
      exact List.prefix_append _ _
    rw [List.filterMap_append] at hrecords
    exact (List.prefix_append _ _).trans (hrecords ▸ hpre)
  · obtain ⟨logStream, rfl⟩ := hcaught
    obtain ⟨-, rfl⟩ := hphase
    rw [hnil, List.append_nil, List.take_length] at hrecords
    rw [hrecords]

theorem dispatch_logs {v v' : Service Peer} {m : Service.Moment} {c : ℕ} {payload : Payload}
    (h : dispatch setup v m peer c (.logs true) = .ok (payload, v')) :
    v' = v ∧ payload = .logs (v.state.visibleLogs peer) := by
  unfold dispatch at h
  cases ha : v.state.authorize peer with
  | error e => simp only [ha, reduceCtorEq] at h
  | ok _ =>
    simp only [ha, Except.ok.injEq, Prod.mk.injEq] at h
    exact ⟨h.2.symm, h.1.symm⟩

/-- The frames of a stream are its events. -/
theorem Since.frames {input : Daemon.Input Peer Handoff} {s' : System Peer Handoff} {c : ℕ}
    {frames : List Message} (h : Since setup peer r₀ r backlog sent phase)
    (hadv : Advance setup r.net.daemon s' c peer input phase phase' frames)
    (hevents : ∃ new, s'.service.events = r.events ++ new) :
    frames = (eventsOf frames).map .event := by
  obtain ⟨r₁, id, start, -, -, -, -, -, -, -, hstream⟩ := h
  exact (hstream.advance hadv hevents).1

/-- What was sent is numbered increasingly. -/
theorem Since.increasing (h : Since setup peer r₀ r backlog sent phase)
    (hn : r.net.daemon.service.Numbered) : sent.Pairwise fun a b => a.sequence < b.sequence := by
  obtain ⟨r₁, id, start, -, -, -, -, -, -, -, m, -, -, hsent, -⟩ := h
  rw [hsent, List.pairwise_map]
  exact hn.increasing.sublist ((List.drop_sublist _ _).trans (List.take_sublist _ _))

omit [DecidableEq Peer] in
theorem eq_singleton {α : Type*} {l : List α} {a : α} (hlength : l.length = 1)
    (h : l[0]? = some a) : l = [a] := by
  obtain ⟨b, rfl⟩ := List.length_eq_one_iff.1 hlength
  rw [Option.some.inj h]

/-- A step of the daemon in an undisturbed run. -/
theorem Follows.daemon {input : Daemon.Input Peer Handoff} (h : Follows setup peer r₀ r)
    (hreach : (reader setup peer true).Reaches r₀ r) (hinv : r.net.daemon.Inv)
    (hp : Undisturbed setup r (.daemon input)) {net : Net Peer Handoff}
    (hst : r.net.step setup input = some net) : Follows setup peer r₀ { r with net } := by
  have hrstep : r.step setup peer true (.daemon input) = some { r with net } := by
    simp [step, hst]
  obtain ⟨out, hdaemon, -⟩ := Net.forward_eq_some (Net.step_eq_some hst).1
  have hevents : ∃ new, net.daemon.service.events = r.events ++ new :=
    (System.move_of_step hinv.admin hdaemon).publishes.events
  have hlength := Net.step_length hst
  cases h with
  | idle hstage hlinks hreturned =>
    exact .idle hstage (List.length_eq_zero_iff.1 (by rw [hlength, hlinks]; rfl)) hreturned
  | failed e hstage => exact .failed e hstage
  | asking id l phase hstage hlinks hc hreturned hasked hlogs =>
    obtain ⟨phase', frames, hl', hc', hadv, hread⟩ :=
      Net.step_link (k := 0) hst (by rw [hlinks]; rfl) hc
    have hlinks' := eq_singleton (hlength.trans (by rw [hlinks]; rfl)) hl'
    refine .asking id _ phase' hstage hlinks' hc' hreturned
      (hasked.advance hadv hread rfl ?_ ?_ ?_) ?_
    · obtain ⟨new, hnew⟩ := hevents
      change r.events.length ≤ net.daemon.service.events.length
      rw [hnew, List.length_append]
      omega
    · -- the daemon takes the backlog in this step
      rintro cursor m payload hphase hframes hcursor - hd rfl rfl
      obtain ⟨hservice, rfl⟩ := dispatch_logs hd
      have hsame : net.daemon.service.events = r.events := by rw [hservice]; rfl
      refine ⟨_, [], by rw [hframes]; rfl, r, id, cursor, hreach, .single (reader_step hrstep), hstage, rfl,
        ⟨[], by rw [List.append_nil]; exact hsame⟩, hcursor, hlogs cursor _ hphase, cursor,
        Nat.le_refl _, ?_, ?_, rfl, rfl⟩
      · change cursor ≤ net.daemon.service.events.length
        rw [hsame]
        exact hcursor
      · simp
    · rintro ⟨backlog, sent, hframes, hsince⟩
      have hes := hsince.frames hadv hevents
      refine ⟨backlog, sent ++ eventsOf frames, ?_,
        hsince.step hrstep hevents fun start hs => (hs.advance hadv hevents).2⟩
      rw [hframes, List.map_append, ← hes]
      rfl
    · rintro cursor request rfl
      obtain rfl := hadv.requested hread
      have hquiet := hp input rfl (by simp [awaiting, hlinks, hc]) net.daemon out hdaemon
      obtain ⟨new, hnew⟩ := hevents
      have hcursor : cursor ≤ r.events.length := by
        cases hasked with
        | read _ _ _ hcursor => exact hcursor
        | waiting _ _ _ hidle => rcases hidle with h | h | h <;> cases h
        | refused _ _ _ hidle => rcases hidle with h | h | h <;> cases h
        | granted _ _ hs =>
          obtain ⟨_, _, -, _, _, _, -, -, -, -, -, -, -, _, -, -, -, hphase⟩ := hs
          exact hphase.elim
      have hnone : logsOf new = [] := by
        rw [hnew, logsOf_append] at hquiet
        exact List.append_right_eq_self.1 hquiet
      change logsOf (net.daemon.service.events.drop cursor) = []
      rw [hnew, List.drop_append_of_le_length hcursor, logsOf_append, hlogs cursor request rfl, hnone,
        List.append_nil]
  | streaming es l phase consumed sent hstage hlinks hc hreq hframes hinit hlog hreturned hlast
      hsince =>
    obtain ⟨phase', frames, hl', hc', hadv, hread⟩ :=
      Net.step_link (k := 0) hst (by rw [hlinks]; rfl) hc
    have hlinks' := eq_singleton (hlength.trans (by rw [hlinks]; rfl)) hl'
    have hes := hsince.frames hadv hevents
    refine .streaming es _ phase' consumed (sent ++ eventsOf frames) hstage hlinks' hc' hreq ?_ hinit
      hlog hreturned hlast ?_
    · rw [List.map_append, ← hes, hframes]
    · rw [← List.append_assoc]
      exact hsince.step hrstep hevents fun start hs => (hs.advance hadv hevents).2

/-- The daemon reads the request of the follower. -/
theorem Follows.relay {k : ℕ} (h : Follows setup peer r₀ r) {net : Net Peer Handoff}
    (hst : r.net.relay setup k = some net) : Follows setup peer r₀ { r with net } := by
  obtain ⟨l', request, peer', hk, hrequest, hreading, hdaemon, hlinks'⟩ := Net.relay_eq_some hst
  cases h with
  | idle hstage hlinks hreturned => simp [hlinks] at hk
  | failed e hstage => exact .failed e hstage
  | asking id l phase hstage hlinks hc hreturned hasked hlogs =>
    rw [hlinks, List.getElem?_singleton] at hk
    split_ifs at hk with h0
    obtain rfl := Option.some.inj hk
    rw [hc] at hreading
    obtain ⟨rfl, rfl⟩ := Connection.mk.inj (Option.some.inj hreading)
    obtain ⟨rfl, hasked'⟩ := hasked.relay hrequest
    have hevents : ({ r with net } : Reader Peer Handoff).events = r.events := by
      change net.daemon.service.events = _
      rw [hdaemon]
      rfl
    refine .asking id { l with request := none } (.requested r.events.length ⟨id, .logs true⟩)
      hstage (by rw [hlinks', hlinks, h0]; rfl) ?_ hreturned (by rw [hevents]; exact hasked')
      fun cursor request hphase => ?_
    · rw [hdaemon, System.setPhase, List.getElem?_modify, hc]
      simp [events]
    · obtain ⟨rfl, -⟩ := Phase.requested.inj hphase
      rw [hevents, List.drop_length]
      rfl
  | streaming es l phase consumed sent hstage hlinks hc hreq =>
    rw [hlinks, List.getElem?_singleton] at hk
    split_ifs at hk
    obtain rfl := Option.some.inj hk
    rw [hreq] at hrequest
    cases hrequest

/-- The follower reads the answer to its request. -/
theorem Follows.answered {id : Uuid} {frame : Message} {net : Net Peer Handoff}
    (h : Follows setup peer r₀ r) (hstage : r.stage = .asking id)
    (htake : r.net.take 0 = some (frame, net)) {es : Events}
    (hes : (answerTo id frame).bind (Events.ofPayload true) = .ok es) :
    Follows setup peer r₀ { r with net, stage := .streaming es } := by
  have hrstep : r.step setup peer true .answered =
      some { r with net, stage := .streaming es } := by
    simp [step, hstage, htake, hes]
  obtain ⟨l', rest, hl', hframes', hdaemon, hlinks'⟩ := Net.take_eq_some htake
  cases h with
  | asking id' l phase hstage' hlinks hc hreturned hasked hlogs =>
    rw [hstage] at hstage'
    obtain rfl := Stage.asking.inj hstage'
    obtain rfl : l = l' := by
      rw [hlinks] at hl'
      exact Option.some.inj hl'
    cases hasked with
    | waiting _ _ hnil => simp [hnil] at hframes'
    | read _ _ hnil => simp [hnil] at hframes'
    | refused _ _ herr =>
      obtain ⟨e, rfl⟩ := herr frame (by simp [hframes'])
      simp [answerTo, Except.bind] at hes
    | granted _ hreq hs =>
      obtain ⟨backlog, sent, hframes, hsince⟩ := hs
      rw [hframes] at hframes'
      obtain ⟨rfl, rfl⟩ := List.cons.inj hframes'
      have hes' : es = { last := none, initial := none, backlog, logStream := true } := by
        simpa [answerTo, Except.bind, Events.ofPayload, eq_comm] using hes
      subst hes'
      refine .streaming _ { l with frames := sent.map .event } phase [] sent rfl
        (by rw [hlinks', hlinks]; rfl)
        (by rw [hdaemon]; exact hc) hreq rfl rfl rfl (by simp [hreturned]) rfl ?_
      refine hsince.step hrstep ⟨[], ?_⟩ fun start hs => ?_
      · simp [events, hdaemon]
      · simpa [events, hdaemon] using hs
  | idle hstage' => rw [hstage] at hstage'; cases hstage'
  | streaming es _ _ _ _ hstage' => rw [hstage] at hstage'; cases hstage'
  | failed e hstage' => rw [hstage] at hstage'; cases hstage'

/-- On a log stream a later event is accepted, or ends the reader. -/
theorem examine_later {es : Events} {event : Event} (hlog : es.logStream = true)
    (hlater : ∀ i n, es.last = some (i, n) → n < event.sequence) :
    (∃ e, es.examine event = .failed e) ∨ es.examine event = es.accept event := by
  unfold Events.examine
  split_ifs
  · exact .inl ⟨_, rfl⟩
  · exact .inl ⟨_, rfl⟩
  · cases hlast : es.last with
    | none => exact .inr rfl
    | some last =>
      obtain ⟨i, n⟩ := last
      have hlt := hlater i n hlast
      dsimp only
      split_ifs with hold
      · omega
      · exact .inl ⟨_, rfl⟩
      · exact .inr rfl

/-- The follower consumes an event. -/
theorem Follows.next {es : Events} (h : Follows setup peer r₀ r) (hstage : r.stage = .streaming es)
    (hn : r.net.daemon.service.Numbered) (hst : r.step setup peer true .next = some r') :
    Follows setup peer r₀ r' := by
  cases h with
  | streaming es' l phase consumed sent hstage' hlinks hc hreq hframes hinit hlog hreturned hlast
      hsince =>
    rw [hstage] at hstage'
    obtain rfl := Stage.streaming.inj hstage'
    have hst' := hst
    simp only [step, hstage, hinit] at hst'
    obtain ⟨⟨frame, net⟩, htake, rfl⟩ := Option.map_eq_some_iff.1 hst'
    obtain ⟨l', rest, hl', hframes', hdaemon, hlinks'⟩ := Net.take_eq_some htake
    obtain rfl : l = l' := by
      rw [hlinks] at hl'
      exact Option.some.inj hl'
    rw [hframes] at hframes'
    obtain ⟨event, sent, rfl, rfl, rfl⟩ := List.map_eq_cons_iff.1 hframes'
    have hincreasing := hsince.increasing hn
    -- the numbers on the bus increase, so no frame is old
    have hlater : ∀ i n, es.last = some (i, n) → n < event.sequence := by
      intro i n hi
      rw [hlast, Option.map_eq_some_iff] at hi
      obtain ⟨e, he, heq⟩ := hi
      obtain ⟨-, rfl⟩ := Prod.mk.inj heq
      exact (List.pairwise_append.1 hincreasing).2.2 e (List.mem_of_getLast? he) event
        List.mem_cons_self
    have hnext : Since setup peer r₀ (examined { r with net } es event) es.backlog
        ((consumed ++ [event]) ++ sent) phase := by
      refine hsince.step hst ⟨[], by simp [events, hdaemon]⟩ fun start hs => ?_
      rw [List.append_assoc]
      simpa [events, hdaemon] using hs
    have hlinks'' : net.links = [{ l with frames := sent.map .event }] := by
      rw [hlinks', hlinks]
      rfl
    have hc' : net.daemon.connections[l.connection]? = some ⟨peer, phase⟩ := by
      rw [hdaemon]
      exact hc
    rcases examine_later hlog hlater with ⟨e, he⟩ | he
    · exact .failed e (by simp only [examined, he])
    -- a log record is returned, anything else only advances `last`
    unfold Events.accept at he
    dsimp only at he
    split_ifs at he with hkind
    · rw [hlog] at hkind
      refine .streaming { es with last := some (event.serviceInstanceId, event.sequence) }
        { l with frames := sent.map .event } phase (consumed ++ [event]) sent
        (by simp only [examined, he]) ?_ ?_ hreq rfl hinit hlog ?_ (by simp) hnext
      · simpa using hlinks''
      · simpa using hc'
      · have hskip : (Event.record event).isSome = false := by simpa using hkind
        simp [examined, he, hreturned, List.filter_append, hskip]
    · rw [hlog, not_not] at hkind
      refine .streaming { es with last := some (event.serviceInstanceId, event.sequence) }
        { l with frames := sent.map .event } phase (consumed ++ [event]) sent
        (by simp only [examined, he]) ?_ ?_ hreq rfl hinit hlog ?_ (by simp) hnext
      · simpa using hlinks''
      · simpa using hc'
      · simp [examined, he, hreturned, List.filter_append, hkind]
  | idle hstage' => rw [hstage] at hstage'; cases hstage'
  | asking _ _ _ hstage' => rw [hstage] at hstage'; cases hstage'
  | failed e hstage' => rw [hstage] at hstage'; cases hstage'

/-- The follower opens its connection and asks for the records. -/
theorem Follows.subscribe {id : Uuid} (h : Follows setup peer r₀ r) (hstage : r.stage = .idle)
    {net : Net Peer Handoff} (hst : r.net.connect peer = some net) :
    Follows setup peer r₀
      { r with net := net.send 0 ⟨id, method true⟩, stage := .asking id } := by
  cases h with
  | idle _ hlinks hreturned =>
    obtain ⟨daemon, haccept, rfl⟩ := Option.map_eq_some_iff.1 hst
    unfold System.accept at haccept
    split_ifs at haccept
    obtain rfl := Option.some.inj haccept
    refine .asking id
      { connection := r.net.daemon.connections.length, request := some ⟨id, .logs true⟩, frames := [] }
      .reading rfl (by simp [Net.send, hlinks, method]) ?_ hreturned
      (.waiting _ rfl rfl (.inl rfl)) (fun _ _ h => by cases h)
    simp [Net.send]
  | asking _ _ _ hstage' => rw [hstage] at hstage'; cases hstage'
  | streaming _ _ _ _ _ hstage' => rw [hstage] at hstage'; cases hstage'
  | failed _ hstage' => rw [hstage] at hstage'; cases hstage'

/-- Every step of an undisturbed run. -/
theorem Follows.step {input : Input Peer Handoff} (h : Follows setup peer r₀ r)
    (hreach : (reader setup peer true).Reaches r₀ r) (hinv : r.net.daemon.Inv)
    (hp : Undisturbed setup r input) (hst : r.step setup peer true input = some r') :
    Follows setup peer r₀ r' := by
  have hst' := hst
  unfold Reader.step at hst'
  split at hst'
  · obtain ⟨net, hnet, rfl⟩ := Option.map_eq_some_iff.1 hst'
    exact h.daemon hreach hinv hp hnet
  · obtain ⟨net, hnet, rfl⟩ := Option.map_eq_some_iff.1 hst'
    exact h.relay hnet
  · rename_i hstage
    obtain ⟨net, hnet, rfl⟩ := Option.map_eq_some_iff.1 hst'
    exact h.subscribe hstage hnet
  · rename_i id hstage
    obtain ⟨⟨frame, net⟩, htake, rfl⟩ := Option.map_eq_some_iff.1 hst'
    dsimp only
    split
    · rename_i es hes
      exact h.answered hstage htake hes
    · rename_i e _
      exact .failed e rfl
  · rename_i es hstage
    exact h.next hstage hinv.numbered hst
  · rename_i es gap id hstage
    cases h with
    | idle hstage' => rw [hstage] at hstage'; cases hstage'
    | asking _ _ _ hstage' => rw [hstage] at hstage'; cases hstage'
    | streaming _ _ _ _ _ hstage' => rw [hstage] at hstage'; cases hstage'
    | failed _ hstage' => rw [hstage] at hstage'; cases hstage'
  · rename_i es gap k id hstage
    cases h with
    | idle hstage' => rw [hstage] at hstage'; cases hstage'
    | asking _ _ _ hstage' => rw [hstage] at hstage'; cases hstage'
    | streaming _ _ _ _ _ hstage' => rw [hstage] at hstage'; cases hstage'
    | failed _ hstage' => rw [hstage] at hstage'; cases hstage'
  · cases hst'
  · rename_i e _
    rw [← Option.some.inj hst']
    exact .failed e rfl
  · cases hst'

/-! ### Runs -/

/-- **A log follower sees every record exactly once.**  In an undisturbed run the backlog followed
by the returned records is the beginning of the records that were retained at some moment of the
request, followed by those published after it; it is all of them once the follower has caught
up. -/
theorem follower_complete (setup : Service.Setup Peer Handoff) (peer : Peer)
    (r₀ r : Reader Peer Handoff) (es : Events) (h₀ : (reader setup peer true).init r₀)
    (h : (reader setup peer true).ReachesBy (Undisturbed setup) r₀ r)
    (hstage : r.stage = .streaming es) : ∃ r₁ id,
    (reader setup peer true).Reaches r₀ r₁ ∧ (reader setup peer true).Reaches r₁ r ∧
    r₁.stage = .asking id ∧
    (es.backlog ++ r.returned.filterMap Event.record) <+:
      (r₁.net.daemon.service.state.visibleLogs peer ++ logsOf (r.events.drop r₁.events.length)) ∧
    (r.CaughtUp → es.backlog ++ r.returned.filterMap Event.record =
      r₁.net.daemon.service.state.visibleLogs peer ++
        logsOf (r.events.drop r₁.events.length)) := by
  have hrun : (reader setup peer true).Reaches r₀ r ∧ r.net.daemon.Inv ∧
      Follows setup peer r₀ r := by
    refine h.preserves (P := fun r => (reader setup peer true).Reaches r₀ r ∧
      r.net.daemon.Inv ∧ Follows setup peer r₀ r) ?_ ?_
    · obtain ⟨instanceId, recoveryError, rfl⟩ := h₀
      exact ⟨.refl, .initial instanceId recoveryError, .idle rfl rfl rfl⟩
    · rintro r i r' o ⟨hreach, hinv, hfollows⟩ hp hst
      have hst' := step_of_reader hst
      exact ⟨hreach.tail (reader_step hst'), (inv_of_step hinv hst').1,
        hfollows.step hreach hinv hp hst'⟩
  cases hrun.2.2 with
  | streaming es' l phase consumed sent hstage' hlinks hc hreq hframes hinit hlog hreturned hlast
      hsince =>
    rw [hstage] at hstage'
    obtain rfl := Stage.streaming.inj hstage'
    have hrecords : r.returned.filterMap Event.record = consumed.filterMap Event.record := by
      rw [hreturned, List.filterMap_filter]
      refine List.filterMap_congr fun e _ => ?_
      cases Event.record e <;> rfl
    obtain ⟨r₁, id, h₀₁, h₁, hasking, hprefix, hall⟩ := hsince.complete
    rw [hrecords]
    refine ⟨r₁, id, h₀₁, h₁, hasking, hprefix, ?_⟩
    rintro ⟨l', peer', logStream, hl', hnil, hc'⟩
    obtain rfl : l = l' := by
      rw [hlinks] at hl'
      exact Option.some.inj hl'
    rw [hc] at hc'
    obtain ⟨-, rfl⟩ := Connection.mk.inj (Option.some.inj hc')
    exact hall (List.map_eq_nil_iff.1 (hframes ▸ hnil)) ⟨logStream, rfl⟩
  | idle hstage' => rw [hstage] at hstage'; cases hstage'
  | asking _ _ _ hstage' => rw [hstage] at hstage'; cases hstage'
  | failed _ hstage' => rw [hstage] at hstage'; cases hstage'

/-- The records in memory never outnumber those on the bus, and the bus only grows. -/
theorem retained_of_reaches {logStream : Bool} (hinv : r.net.daemon.Inv)
    (hret : r.net.daemon.service.Retained) (h : (reader setup peer logStream).Reaches r r') :
    r'.net.daemon.Inv ∧ r'.net.daemon.service.Retained ∧
      ∃ new, r'.events = r.events ++ new := by
  refine h.preserves (P := fun r' => r'.net.daemon.Inv ∧ r'.net.daemon.service.Retained ∧
    ∃ new, r'.events = r.events ++ new) ⟨hinv, hret, [], by rw [List.append_nil]⟩ ?_
  rintro r' i r'' o ⟨hinv, hret, new, hnew⟩ hst
  obtain ⟨hinv', hpub⟩ := inv_of_step hinv (step_of_reader hst)
  obtain ⟨new', hnew'⟩ := hpub.events
  exact ⟨hinv', hret.publishes hpub, new ++ new', by rw [events, hnew', ← events, hnew,
    List.append_assoc]⟩

/-- The follower reads its backlog on connection 0, and then peer 7 reserves on connection 1. -/
def followedInputs : List (Input ℕ String) :=
  [.subscribe 3, .relay 0, .daemon (.dispatch 0 5 101), .answered, .daemon (.accept 7),
    .daemon (.read 1 ⟨1, .reserve 2 "work" "anyconnect"⟩), .daemon (.dispatch 1 4 100),
    .daemon (.receive 0), .daemon (.deliver 0), .next]

/-- The follower after them. -/
def followed : Reader ℕ String :=
  (reader System.sampleSetup 7 true).perform (start ℕ String) followedInputs

theorem followed_reached : (reader System.sampleSetup 7 true).ReachesBy
    (Undisturbed System.sampleSetup) (start ℕ String) followed := by
  have hother : ∀ {r : Reader ℕ String} {input : Input ℕ String},
      (r.awaiting = false ∨ ∀ i, input ≠ .daemon i) → Undisturbed System.sampleSetup r input := by
    rintro r input (h | h) i heq hw
    · rw [h] at hw
      cases hw
    · exact absurd heq (h i)
  refine .head (i := .subscribe 3) (o := []) rfl (hother (.inl rfl)) <|
    .head (i := .relay 0) (o := []) rfl (hother (.inl rfl)) <|
    .head (i := .daemon (.dispatch 0 5 101)) (o := []) rfl ?_ <|
    .head (i := .answered) (o := []) rfl (hother (.inl rfl)) <|
    .head (i := .daemon (.accept 7)) (o := []) rfl (hother (.inl rfl)) <|
    .head (i := .daemon (.read 1 ⟨1, .reserve 2 "work" "anyconnect"⟩)) (o := []) rfl
      (hother (.inl rfl)) <|
    .head (i := .daemon (.dispatch 1 4 100)) (o := []) rfl (hother (.inl rfl)) <|
    .head (i := .daemon (.receive 0)) (o := []) rfl (hother (.inl rfl)) <|
    .head (i := .daemon (.deliver 0)) (o := []) rfl (hother (.inl rfl)) <|
    .head (i := .next) (o := []) rfl (hother (.inl rfl)) .refl
  rintro i heq - s' out hst
  obtain rfl := Input.daemon.inj heq
  have hs : _ = s' := congrArg Prod.fst (Option.some.inj hst)
  rw [← hs]
  rfl

theorem follower_complete_followed : ∃ es, followed.stage = .streaming es ∧ ∃ r₁ id,
    (reader System.sampleSetup 7 true).Reaches (start ℕ String) r₁ ∧
    (reader System.sampleSetup 7 true).Reaches r₁ followed ∧ r₁.stage = .asking id ∧
    (es.backlog ++ followed.returned.filterMap Event.record) <+:
      (r₁.net.daemon.service.state.visibleLogs 7 ++
        logsOf (followed.events.drop r₁.events.length)) ∧
    (followed.CaughtUp → es.backlog ++ followed.returned.filterMap Event.record =
      r₁.net.daemon.service.state.visibleLogs 7 ++
        logsOf (followed.events.drop r₁.events.length)) :=
  ⟨_, rfl, follower_complete System.sampleSetup 7 (start ℕ String) followed _ ⟨1, none, rfl⟩
    followed_reached rfl⟩

/-- Peer 7 reserves on connection 0; its follower subscribes on connection 1 before that and reads
the backlog after it. -/
def repeatedInputs : List (Input ℕ String) :=
  [.daemon (.accept 7), .daemon (.read 0 ⟨1, .reserve 2 "work" "anyconnect"⟩), .subscribe 3,
    .relay 0, .daemon (.dispatch 0 4 100), .daemon (.dispatch 1 5 101), .answered,
    .daemon (.receive 1), .daemon (.deliver 1), .next]

/-- The follower after them. -/
def repeated : Reader ℕ String :=
  (reader System.sampleSetup 7 true).perform (start ℕ String) repeatedInputs

/-- The record of the reservation is in the backlog, and is returned as well. -/
theorem backlog_repeated : ¬ ∀ (r₀ r : Reader ℕ String) (es : Events),
    (reader System.sampleSetup 7 true).init r₀ →
    (reader System.sampleSetup 7 true).Reaches r₀ r → r.stage = .streaming es → ∃ r₁ id,
    (reader System.sampleSetup 7 true).Reaches r₀ r₁ ∧
    (reader System.sampleSetup 7 true).Reaches r₁ r ∧ r₁.stage = .asking id ∧
    (es.backlog ++ r.returned.filterMap Event.record) <+:
      (r₁.net.daemon.service.state.visibleLogs 7 ++ logsOf (r.events.drop r₁.events.length)) := by
  intro h
  obtain ⟨es, hstage, hlength⟩ : ∃ es, repeated.stage = .streaming es ∧
      (es.backlog ++ repeated.returned.filterMap Event.record).length = 2 := ⟨_, rfl, by decide⟩
  obtain ⟨r₁, id, h₀₁, h₁, -, hprefix⟩ := h (start ℕ String) repeated es ⟨1, none, rfl⟩
    (Machine.reaches_perform _ _) hstage
  have hempty : (start ℕ String).net.daemon.service.Retained := List.nil_suffix
  obtain ⟨hinv, hret, -⟩ := retained_of_reaches (System.Inv.initial 1 none) hempty h₀₁
  obtain ⟨-, -, new, hnew⟩ := retained_of_reaches hinv hret h₁
  -- only one record was ever published
  have hone : (logsOf repeated.events).length = 1 := by decide
  have hvisible : (r₁.net.daemon.service.state.visibleLogs 7).length ≤
      r₁.net.daemon.service.state.logs.length := by
    unfold Session.visibleLogs
    split_ifs <;> simp
  have hle := hprefix.length_le
  have hkept := hret.length_le
  rw [hlength, hnew, List.drop_left, List.length_append] at hle
  rw [hnew, logsOf_append, List.length_append] at hone
  unfold events at hone
  omega

end Reader

end Ocvpn.Client
