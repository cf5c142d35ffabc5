import Ocvpn.Daemon.Invariant

/-!
# What a step does to the connections

A step changes the phase of at most one connection, unless it accepts one or ends the daemon.
`Turn` lists the phase changes with what is written to the client, and `System.turned_of_step`
reads them off the step function, as `System.move_of_step` does for the session.

## Main results

* `System.turned_of_step` : the turn of every step.
-/

namespace Ocvpn.Daemon

variable {Peer Handoff : Type}

/-- The connection an input is about. -/
def Input.connection : Input Peer Handoff → Option ℕ
  | .read c _ | .dispatch c _ _ | .admin c _ | .lock c | .lockTimeout c | .teardown c _
  | .inspect c | .adminTimeout c | .conclude c | .receive c | .deliver c | .hangUp c
  | .cleanup c _ => some c
  | _ => none

/-- The phase belongs to a call of `quiesce`. -/
def Phase.isQuiescing : Phase Peer Handoff → Bool
  | .quiescing _ _ => true
  | _ => false

/-- An administrative request is being handled. -/
def Phase.administrative : Phase Peer Handoff → Bool
  | .quiescing _ _ => true
  | .requested _ request => request.method.administrative
  | _ => false

variable [DecidableEq Peer]

/-- What a step does to the connection `c` of a peer, and what it writes. -/
inductive Turn (setup : Service.Setup Peer Handoff) (s s' : System Peer Handoff) (c : ℕ)
    (peer : Peer) : Input Peer Handoff → Phase Peer Handoff → Phase Peer Handoff →
      List (Output Peer) → Prop
  /-- A request is read, after subscribing to the bus. -/
  | read (request : Request Handoff) : s'.service = s.service →
      Turn setup s s' c peer (.read c request) .reading
        (.requested s.service.events.length request) []
  | refused (cursor : ℕ) (request : Request Handoff) (m : Service.Moment) (e : Error) :
      dispatch setup s.service m peer c request.method = .error e → s'.service = s.service →
      s'.issued = s.issued →
      Turn setup s s' c peer (.dispatch c m.fresh m.wall) (.requested cursor request) .reading
        [⟨c, peer, .response ⟨request.requestId, .error e⟩⟩]
  | granted (cursor : ℕ) (request : Request Handoff) (m : Service.Moment) (payload : Payload) :
      dispatch setup s.service m peer c request.method = .ok (payload, s'.service) →
      m.fresh ∉ s.issued → s'.issued = s.issued ++ System.issuedBy m.fresh request.method →
      Turn setup s s' c peer (.dispatch c m.fresh m.wall) (.requested cursor request)
        (System.afterResponse cursor request.method true)
        [⟨c, peer, .response ⟨request.requestId, .ok payload⟩⟩]
  /-- An administrative request goes on. -/
  | admin (input : Input Peer Handoff) (before after : Phase Peer Handoff) :
      before.administrative = true → after.isQuiescing = true →
      Turn setup s s' c peer input before after []
  /-- An administrative request is answered. -/
  | adminAnswer (input : Input Peer Handoff) (before : Phase Peer Handoff) (id : Uuid)
      (result : Except Error Payload) :
      before.administrative = true → (∀ payload, result = .ok payload → payload = .accepted) →
      Turn setup s s' c peer input before .reading [⟨c, peer, .response ⟨id, result⟩⟩]
  | received (cursor cursor' : ℕ) (logStream : Bool) (item : Option (Option Peer × Event)) :
      System.receive s.service.events cursor = some (cursor', item) → s'.service = s.service →
      Turn setup s s' c peer (.receive c) (.following cursor logStream)
        (.received cursor' logStream item) []
  | delivered (cursor : ℕ) (logStream : Bool) (item : Option (Option Peer × Event))
      (event : Event) :
      System.deliverable s.service peer logStream item = .ok event → s'.service = s.service →
      Turn setup s s' c peer (.deliver c) (.received cursor logStream item)
        (.following cursor logStream) [⟨c, peer, .event event⟩]
  | dropped (input : Input Peer Handoff) (before : Phase Peer Handoff) :
      s'.service = s.service → Turn setup s s' c peer input before .returned []
  | cleaned (wall : ℤ) : s'.service = System.cleanup s.service c wall →
      Turn setup s s' c peer (.cleanup c wall) .returned .closed []

/-- What a step does to the list of connections, and what it writes. -/
inductive System.Turned (setup : Service.Setup Peer Handoff) (s s' : System Peer Handoff)
    (input : Input Peer Handoff) (out : List (Output Peer)) : Prop
  | still : s'.connections = s.connections → out = [] → System.Turned setup s s' input out
  | accepted (peer : Peer) : s'.connections = s.connections ++ [⟨peer, .reading⟩] →
      s'.service = s.service → out = [] → System.Turned setup s s' input out
  | ended : s'.connections = s.connections.map (fun conn => { conn with phase := .closed }) →
      s'.service = s.service → out = [] → System.Turned setup s s' input out
  | turned (c : ℕ) (peer : Peer) (before after : Phase Peer Handoff) :
      s.connections[c]? = some ⟨peer, before⟩ →
      s'.connections = s.connections.modify c (fun conn => { conn with phase := after }) →
      Turn setup s s' c peer input before after out → System.Turned setup s s' input out

namespace System

variable {s s' : System Peer Handoff} {setup : Service.Setup Peer Handoff} {c : ℕ}
  {input : Input Peer Handoff} {out : List (Output Peer)}

/-- What a step of a call of `quiesce` does to its connection. -/
theorem turned_of_quiesce {peer : Peer} {id : Uuid} {stage : Quiesce}
    (hc : s.connections[c]? = some ⟨peer, .quiescing stage id⟩)
    (h : s.quiesce c peer id stage input = some (s', out)) : Turned setup s s' input out := by
  have goes {t : System Peer Handoff} {stage' : Quiesce}
      (heq : (t.setPhase c (.quiescing stage' id), ([] : List (Output Peer))) = (s', out))
      (ht : t.connections = s.connections) : Turned setup s s' input out := by
    rw [Prod.mk.injEq] at heq
    obtain ⟨rfl, rfl⟩ := heq
    refine .turned c peer _ (.quiescing stage' id) hc ?_ (.admin _ _ _ rfl rfl)
    rw [setPhase, ht]
  have answers {t : System Peer Handoff} {result : Except Error Payload}
      (heq : t.answer c peer id result .reading = (s', out))
      (ht : t.connections = s.connections)
      (hr : ∀ payload, result = .ok payload → payload = .accepted) :
      Turned setup s s' input out := by
    rw [answer, Prod.mk.injEq] at heq
    obtain ⟨rfl, rfl⟩ := heq
    refine .turned c peer _ .reading hc ?_ (.adminAnswer _ _ id result rfl hr)
    rw [setPhase, ht]
  unfold quiesce at h
  split at h
  · split_ifs at h
    exact goes (Option.some.inj h) rfl
  · exact answers (Option.some.inj h) rfl (by simp)
  · exact goes (Option.some.inj h) rfl
  · split_ifs at h
    · simp only [Option.some.injEq, Prod.mk.injEq] at h
      exact .still (by rw [h.1]) h.2.symm
    · exact answers (Option.some.inj h) release_connections (by simp)
    · exact goes (Option.some.inj h) rfl
  · exact answers (Option.some.inj h) release_connections (by simp)
  · exact answers (Option.some.inj h) rfl (by simp)
  · exact answers (Option.some.inj h) rfl (by simp)
  · rename_i outcome _
    split at h
    · exact answers (Option.some.inj h) rfl (by simp)
    · rename_i payload hp
      refine answers (Option.some.inj h) rfl fun payload' hp' => ?_
      obtain rfl := Except.ok.inj hp'
      unfold quiesceResult at hp
      split at hp <;> first | exact (Except.ok.inj hp).symm | cases hp
  · cases h

/-- What a dispatched request does to its connection. -/
theorem turned_of_dispatchRequest {cursor : ℕ} {peer : Peer} {request : Request Handoff}
    {fresh : Uuid} {wall : ℤ} (hc : s.connections[c]? = some ⟨peer, .requested cursor request⟩)
    (hfresh : fresh ∉ s.issued)
    (h : s.dispatchRequest setup c cursor peer request fresh wall = (s', out)) :
    Turned setup s s' (.dispatch c fresh wall) out := by
  unfold dispatchRequest answer at h
  set m : Service.Moment := ⟨s.clock, wall, fresh, s.attempts.length⟩ with hm
  cases hd : Daemon.dispatch setup s.service m peer c request.method with
  | error e =>
    simp only [hd, Prod.mk.injEq] at h
    obtain ⟨rfl, rfl⟩ := h
    refine .turned c peer _ _ hc rfl ?_
    have hafter : afterResponse cursor request.method false = (.reading : Phase Peer Handoff) := by
      simp [afterResponse]
    rw [hafter]
    exact .refused cursor request m e hd rfl rfl
  | ok granted =>
    obtain ⟨payload, service⟩ := granted
    simp only [hd, Prod.mk.injEq] at h
    obtain ⟨rfl, rfl⟩ := h
    exact .turned c peer _ _ hc rfl (.granted cursor request m payload hd hfresh rfl)

/-- What a step of a connection does to it. -/
theorem turned_of_connection (h : s.connection setup c input = some (s', out))
    (hinput : input.connection = some c) : Turned setup s s' input out := by
  unfold connection at h
  split at h
  · cases h
  rename_i peer phase hc
  split at h
  · obtain rfl := Option.some.inj hinput
    simp only [Option.some.injEq, Prod.mk.injEq] at h
    obtain ⟨rfl, rfl⟩ := h
    exact .turned _ peer _ _ hc rfl (.read _ rfl)
  · split_ifs at h with hg
    rw [not_or] at hg
    obtain rfl := Option.some.inj hinput
    exact turned_of_dispatchRequest hc hg.2 (Option.some.inj h)
  · split at h
    · simp only [Option.some.injEq, Prod.mk.injEq] at h
      obtain ⟨rfl, rfl⟩ := h
      exact .turned c peer _ _ hc rfl (.admin _ _ _ rfl rfl)
    · simp only [answer, Option.some.injEq, Prod.mk.injEq] at h
      obtain ⟨rfl, rfl⟩ := h
      exact .turned c peer _ _ hc rfl (.adminAnswer _ _ _ _ rfl (by simp))
  · exact turned_of_quiesce hc h
  · obtain rfl := Option.some.inj hinput
    rw [Option.map_eq_some_iff] at h
    obtain ⟨⟨cursor, item⟩, hr, h⟩ := h
    simp only [Prod.mk.injEq] at h
    obtain ⟨rfl, rfl⟩ := h
    exact .turned _ peer _ _ hc rfl (.received _ cursor _ item hr rfl)
  · obtain rfl := Option.some.inj hinput
    split at h
    · simp only [Option.some.injEq, Prod.mk.injEq] at h
      obtain ⟨rfl, rfl⟩ := h
      exact .turned _ peer _ _ hc rfl (.dropped _ _ rfl)
    · rename_i event hd
      simp only [Option.some.injEq, Prod.mk.injEq] at h
      obtain ⟨rfl, rfl⟩ := h
      exact .turned _ peer _ _ hc rfl (.delivered _ _ _ event hd rfl)
  iterate 3
    · simp only [Option.some.injEq, Prod.mk.injEq] at h
      obtain ⟨rfl, rfl⟩ := h
      exact .turned c peer _ _ hc rfl (.dropped _ _ rfl)
  · obtain rfl := Option.some.inj hinput
    simp only [Option.some.injEq, Prod.mk.injEq] at h
    obtain ⟨rfl, rfl⟩ := h
    exact .turned _ peer _ _ hc rfl (.cleaned _ rfl)
  · cases h

omit [DecidableEq Peer] in
/-- The tasks of an attempt do not touch the connections. -/
theorem attempt_connections {k : ℕ} (h : s.attempt k input = some s') :
    s'.connections = s.connections := by
  unfold attempt at h
  split at h
  · cases h
  split at h
  · split_ifs at h
    rw [Option.map_eq_some_iff] at h
    obtain ⟨_, -, rfl⟩ := h
    rfl
  · split at h
    · split_ifs at h <;>
      · rw [← Option.some.inj h]
    · cases h
  · split_ifs at h
    rw [← Option.some.inj h]
  · split_ifs at h <;>
    · rw [← Option.some.inj h]
  · cases h

/-- **The turn of a step.** -/
theorem turned_of_step (h : step setup s input = some (s', out)) :
    Turned setup s s' input out := by
  unfold step at h
  by_cases hmain : s.main = .exited
  · rw [if_pos hmain] at h
    cases h
  rw [if_neg hmain] at h
  cases input with
  | pass seconds =>
    simp only [Option.some.injEq, Prod.mk.injEq] at h
    obtain ⟨rfl, rfl⟩ := h
    exact .still rfl rfl
  | accept peer =>
    simp only [accept, Option.map_eq_some_iff] at h
    obtain ⟨t, ht, h⟩ := h
    split_ifs at ht
    simp only [Prod.mk.injEq] at h
    obtain ⟨rfl, rfl⟩ := h
    obtain rfl := Option.some.inj ht
    exact .accepted peer rfl rfl rfl
  | adminRecovered outcome =>
    simp only [adminRecovered, Option.map_eq_some_iff, Prod.mk.injEq] at h
    obtain ⟨t, ht, rfl, rfl⟩ := h
    split at ht
    · rename_i c _
      split at ht
      · rename_i peer id hc
        obtain rfl := Option.some.inj ht
        exact .turned c peer _ (.quiescing (.recovered outcome) id) hc rfl
          (.admin _ _ _ rfl rfl)
      · obtain rfl := Option.some.inj ht
        exact .still rfl rfl
    · cases ht
  | supervise | update | drained | join =>
    simp only [Option.map_eq_some_iff, Prod.mk.injEq] at h
    obtain ⟨t, ht, rfl, rfl⟩ := h
    exact .still (attempt_connections ht) rfl
  | leaseTick wall =>
    simp only at h
    split_ifs at h <;>
    · simp only [Option.some.injEq, Prod.mk.injEq] at h
      exact .still (by rw [← h.1]) h.2.symm
  | stop wall =>
    simp only at h
    split_ifs at h
    simp only [Option.some.injEq, Prod.mk.injEq] at h
    exact .still (by rw [← h.1]) h.2.symm
  | exit =>
    simp only at h
    split_ifs at h
    simp only [Option.some.injEq, Prod.mk.injEq] at h
    obtain ⟨rfl, rfl⟩ := h
    exact .ended rfl rfl rfl
  | read | dispatch | admin | lock | lockTimeout | teardown | inspect | adminTimeout | conclude
  | receive | deliver | hangUp | cleanup => exact turned_of_connection h rfl

end System

end Ocvpn.Daemon
