import Ocvpn.Daemon.Turns

/-!
# A client and its connections

`Connection` of `crates/client/src/daemon.rs` writes one request at a time and reads frames.  A
`Link` is the client's end of one connection: the request that the daemon did not read yet, and the
frames that the client did not read yet.  A `Net` is the daemon with the links of one client; the
other connections of the daemon belong to anybody.

Losing a message or a connection needs no step of its own: a client that gives a link up leaves its
frames unread, and the daemon may hang up whenever it reads.

## Main results

* `Net.forward_link` : what a step of the daemon does to a link.
-/

namespace Ocvpn.Client

open Daemon

variable {Peer Handoff : Type}

/-- The client's end of a connection. -/
structure Link (Handoff : Type) where
  /-- The number of the connection in the daemon. -/
  connection : ℕ
  /-- The request that was written and is not read yet. -/
  request : Option (Request Handoff)
  /-- The frames that were sent and are not read yet, the oldest first. -/
  frames : List Message

/-- What the daemon writes to a connection. -/
def framesTo (c : ℕ) (out : List (Output Peer)) : List Message :=
  (out.filter (·.connection = c)).map (·.message)

/-- The link after the daemon wrote. -/
def Link.receive (l : Link Handoff) (out : List (Output Peer)) : Link Handoff :=
  { l with frames := l.frames ++ framesTo l.connection out }

/-- The daemon, and the links of one client in the order they were opened. -/
structure Net (Peer Handoff : Type) where
  daemon : System Peer Handoff
  links : List (Link Handoff)

namespace Net

/-- The connections of the client. -/
def linked (n : Net Peer Handoff) (c : ℕ) : Bool := n.links.any (·.connection = c)

/-- Write a request. -/
def send (n : Net Peer Handoff) (k : ℕ) (request : Request Handoff) : Net Peer Handoff :=
  { n with links := n.links.modify k fun l => { l with request := some request } }

/-- Read the oldest frame of a link. -/
def take (n : Net Peer Handoff) (k : ℕ) : Option (Message × Net Peer Handoff) :=
  match n.links[k]? with
  | some ⟨_, _, frame :: frames⟩ =>
    some (frame, { n with links := n.links.modify k fun l => { l with frames } })
  | _ => none

variable [DecidableEq Peer]

/-- The daemon handles an input. -/
def forward (setup : Service.Setup Peer Handoff) (n : Net Peer Handoff)
    (input : Daemon.Input Peer Handoff) : Option (Net Peer Handoff) :=
  (System.step setup n.daemon input).map fun (daemon, out) =>
    { daemon, links := n.links.map (·.receive out) }

/-- The daemon handles an input other than a request of the client. -/
def step (setup : Service.Setup Peer Handoff) (n : Net Peer Handoff)
    (input : Daemon.Input Peer Handoff) : Option (Net Peer Handoff) :=
  match input with
  | .read c request => if n.linked c then none else n.forward setup (.read c request)
  | input => n.forward setup input

/-- The daemon reads the request that waits on a link. -/
def relay (setup : Service.Setup Peer Handoff) (n : Net Peer Handoff) (k : ℕ) :
    Option (Net Peer Handoff) :=
  match n.links[k]? with
  | some ⟨c, some request, _⟩ =>
    (n.forward setup (.read c request)).map fun n =>
      { n with links := n.links.modify k fun l => { l with request := none } }
  | _ => none

/-- Open another connection. -/
def connect (n : Net Peer Handoff) (peer : Peer) : Option (Net Peer Handoff) :=
  (n.daemon.accept peer).map fun daemon =>
    { daemon
      links := n.links ++
        [{ connection := n.daemon.connections.length, request := none, frames := [] }] }

/-- The links are connections of the peer, one link each. -/
structure Owned (peer : Peer) (n : Net Peer Handoff) : Prop where
  nodup : (n.links.map (·.connection)).Nodup
  peers : ∀ l ∈ n.links, ∃ phase, n.daemon.connections[l.connection]? = some ⟨peer, phase⟩

end Net

/-- What a step of the daemon does to one connection: its phase and the frames written to it. -/
inductive Advance (setup : Service.Setup Peer Handoff) [DecidableEq Peer]
    (s s' : System Peer Handoff) (c : ℕ) (peer : Peer) (input : Daemon.Input Peer Handoff) :
    Phase Peer Handoff → Phase Peer Handoff → List Message → Prop
  /-- The step is about something else. -/
  | other (phase : Phase Peer Handoff) : Advance setup s s' c peer input phase phase []
  /-- The daemon ended. -/
  | ended (phase : Phase Peer Handoff) : s'.service = s.service →
      Advance setup s s' c peer input phase .closed []
  | turn (before after : Phase Peer Handoff) (out : List (Output Peer)) :
      Turn setup s s' c peer input before after out →
      Advance setup s s' c peer input before after (out.map (·.message))

section Advance

variable [DecidableEq Peer] {setup : Service.Setup Peer Handoff} {s s' : System Peer Handoff}
  {input : Daemon.Input Peer Handoff} {c : ℕ} {peer : Peer} {out : List (Output Peer)}
  {before after phase : Phase Peer Handoff}

/-- A turn writes to its own connection. -/
theorem framesTo_turn (h : Turn setup s s' c peer input before after out) :
    framesTo c out = out.map (·.message) ∧ ∀ c', c' ≠ c → framesTo c' out = [] := by
  have hout : ∀ o ∈ out, o.connection = c := by
    cases h with
    | read | admin | received | dropped | cleaned => simp
    | refused | granted | adminAnswer | delivered => simp
  refine ⟨?_, fun c' hne => ?_⟩
  · rw [framesTo, List.filter_eq_self.2 fun o ho => by simpa using hout o ho]
  · rw [framesTo, List.filter_eq_nil_iff.2 fun o ho => by simpa [hout o ho] using hne.symm,
      List.map_nil]

/-- What a step of the daemon does to a connection. -/
theorem advance_of_turned (ht : System.Turned setup s s' input out)
    (hc : s.connections[c]? = some ⟨peer, phase⟩) :
    ∃ phase', s'.connections[c]? = some ⟨peer, phase'⟩ ∧
      Advance setup s s' c peer input phase phase' (framesTo c out) := by
  cases ht with
  | still hconns hout =>
    refine ⟨phase, hconns ▸ hc, ?_⟩
    rw [hout]
    exact .other phase
  | accepted other hconns hs hout =>
    refine ⟨phase, ?_, ?_⟩
    · rw [hconns]
      exact List.getElem?_append_left (List.getElem?_eq_some_iff.1 hc).1 ▸ hc
    · rw [hout]
      exact .other phase
  | ended hconns hs hout =>
    refine ⟨.closed, ?_, ?_⟩
    · rw [hconns, List.getElem?_map, hc]
      rfl
    · rw [hout]
      exact .ended phase hs
  | turned c' peer' before after hc' hconns hturn =>
    by_cases heq : c' = c
    · subst heq
      rw [hc'] at hc
      obtain ⟨rfl, rfl⟩ := Connection.mk.inj (Option.some.inj hc)
      refine ⟨after, ?_, ?_⟩
      · rw [hconns, List.getElem?_modify, hc']
        simp
      · rw [(framesTo_turn hturn).1]
        exact .turn _ _ _ hturn
    · refine ⟨phase, ?_, ?_⟩
      · rw [hconns, List.getElem?_modify, hc]
        simp [heq]
      · rw [(framesTo_turn hturn).2 c (Ne.symm heq)]
        exact .other phase

/-- A request that is read leaves everything but its connection alone. -/
theorem step_read {request : Request Handoff}
    (hst : System.step setup s (.read c request) = some (s', out)) :
    ∃ peer, s.connections[c]? = some ⟨peer, .reading⟩ ∧ out = [] ∧
      s' = s.setPhase c (.requested s.service.events.length request) := by
  unfold System.step at hst
  by_cases hmain : s.main = .exited
  · rw [if_pos hmain] at hst
    cases hst
  rw [if_neg hmain] at hst
  dsimp only at hst
  unfold System.connection at hst
  split at hst
  · cases hst
  rename_i peer phase hc
  cases phase with
  | reading =>
    obtain ⟨rfl, rfl⟩ := Prod.mk.inj (Option.some.inj hst)
    exact ⟨peer, hc, rfl, rfl⟩
  | quiescing stage id => cases stage <;> cases hst
  | requested | following | received | returned | closed => cases hst

end Advance

namespace Net

variable [DecidableEq Peer] {setup : Service.Setup Peer Handoff} {n n' : Net Peer Handoff}
  {input : Daemon.Input Peer Handoff} {k : ℕ} {l : Link Handoff} {peer : Peer}
  {phase : Phase Peer Handoff}

theorem forward_eq_some (h : n.forward setup input = some n') : ∃ out,
    System.step setup n.daemon input = some (n'.daemon, out) ∧
      n'.links = n.links.map (·.receive out) := by
  obtain ⟨⟨daemon, out⟩, hst, rfl⟩ := Option.map_eq_some_iff.1 h
  exact ⟨out, hst, rfl⟩

/-- **What a step of the daemon does to a link.** -/
theorem forward_link (h : n.forward setup input = some n') (hl : n.links[k]? = some l)
    (hc : n.daemon.connections[l.connection]? = some ⟨peer, phase⟩) : ∃ phase' frames,
    n'.links[k]? = some { l with frames := l.frames ++ frames } ∧
      n'.daemon.connections[l.connection]? = some ⟨peer, phase'⟩ ∧
      Advance setup n.daemon n'.daemon l.connection peer input phase phase' frames := by
  obtain ⟨out, hst, hlinks⟩ := forward_eq_some h
  obtain ⟨phase', hc', hadv⟩ := advance_of_turned (System.turned_of_step hst) hc
  refine ⟨phase', _, ?_, hc', hadv⟩
  rw [hlinks, List.getElem?_map, hl]
  rfl

/-- A connection is accepted by a step of the daemon. -/
theorem connect_step (h : n.connect peer = some n') :
    System.step setup n.daemon (.accept peer) = some (n'.daemon, []) := by
  obtain ⟨daemon, haccept, rfl⟩ := Option.map_eq_some_iff.1 h
  have hserving : n.daemon.main ≠ .exited := by
    intro hexited
    unfold System.accept at haccept
    split_ifs at haccept with hg
    rw [hexited] at hg
    cases hg.1
  rw [System.step, if_neg hserving]
  simp only [haccept, Option.map_some]

/-- A request is read by a step of the daemon. -/
theorem relay_step (h : n.relay setup k = some n') : ∃ c request,
    System.step setup n.daemon (.read c request) = some (n'.daemon, []) := by
  unfold relay at h
  split at h
  · rename_i c request frames hl
    obtain ⟨m, hm, rfl⟩ := Option.map_eq_some_iff.1 h
    obtain ⟨out, hst, -⟩ := forward_eq_some hm
    obtain ⟨-, -, rfl, -⟩ := step_read hst
    exact ⟨c, request, hst⟩
  · cases h

theorem Owned.forward (ho : n.Owned peer) (h : n.forward setup input = some n') :
    n'.Owned peer := by
  obtain ⟨out, hst, hlinks⟩ := forward_eq_some h
  refine ⟨?_, fun l hmem => ?_⟩
  · rw [hlinks, List.map_map]
    exact ho.nodup
  · rw [hlinks] at hmem
    obtain ⟨l', hmem', rfl⟩ := List.mem_map.1 hmem
    obtain ⟨phase, hc⟩ := ho.peers l' hmem'
    obtain ⟨phase', hc', -⟩ := advance_of_turned (System.turned_of_step hst) hc
    exact ⟨phase', hc'⟩

/-- Other inputs than requests of the client are handled as they come. -/
theorem step_eq_some (h : n.step setup input = some n') :
    n.forward setup input = some n' ∧
      ∀ c request, input = .read c request → n.linked c = false := by
  unfold step at h
  split at h
  · rename_i c request
    split_ifs at h with hc
    refine ⟨h, fun c' request' heq => ?_⟩
    obtain ⟨rfl, -⟩ := Input.read.inj heq
    exact Bool.eq_false_iff.2 hc
  · rename_i hne
    exact ⟨h, fun c request heq => absurd heq (hne c request)⟩

/-- What a step of the daemon does to a link. -/
theorem step_link (h : n.step setup input = some n') (hl : n.links[k]? = some l)
    (hc : n.daemon.connections[l.connection]? = some ⟨peer, phase⟩) : ∃ phase' frames,
    n'.links[k]? = some { l with frames := l.frames ++ frames } ∧
      n'.daemon.connections[l.connection]? = some ⟨peer, phase'⟩ ∧
      Advance setup n.daemon n'.daemon l.connection peer input phase phase' frames ∧
      ∀ request, input ≠ .read l.connection request := by
  obtain ⟨hfwd, hlinked⟩ := step_eq_some h
  obtain ⟨phase', frames, hl', hc', hadv⟩ := forward_link hfwd hl hc
  refine ⟨phase', frames, hl', hc', hadv, fun request heq => ?_⟩
  have hfalse := hlinked _ request heq
  rw [linked, List.any_eq_false] at hfalse
  exact hfalse l (List.mem_of_getElem? hl) (by simp)

theorem step_length (h : n.step setup input = some n') : n'.links.length = n.links.length := by
  obtain ⟨out, -, hlinks⟩ := forward_eq_some (step_eq_some h).1
  rw [hlinks, List.length_map]

/-- The daemon reads the request of a link: nothing else changes. -/
theorem relay_eq_some (h : n.relay setup k = some n') : ∃ l request peer,
    n.links[k]? = some l ∧ l.request = some request ∧
      n.daemon.connections[l.connection]? = some ⟨peer, .reading⟩ ∧
      n'.daemon = n.daemon.setPhase l.connection
        (.requested n.daemon.service.events.length request) ∧
      n'.links = n.links.modify k (fun l => { l with request := none }) := by
  unfold relay at h
  split at h
  · rename_i c request frames hl
    obtain ⟨m, hm, rfl⟩ := Option.map_eq_some_iff.1 h
    obtain ⟨out, hst, hlinks⟩ := forward_eq_some hm
    obtain ⟨peer, hc, rfl, hs⟩ := step_read hst
    refine ⟨_, request, peer, hl, rfl, hc, hs, ?_⟩
    have hsame : n.links.map (·.receive ([] : List (Output Peer))) = n.links := by
      simp [Link.receive, framesTo]
    rw [hlinks, hsame]
  · cases h

omit [DecidableEq Peer] in
theorem take_eq_some {frame : Message} (h : n.take k = some (frame, n')) : ∃ l frames,
    n.links[k]? = some l ∧ l.frames = frame :: frames ∧ n'.daemon = n.daemon ∧
      n'.links = n.links.modify k (fun l => { l with frames }) := by
  unfold take at h
  split at h
  · rename_i c request frame' frames hl
    obtain ⟨rfl, rfl⟩ := Prod.mk.inj (Option.some.inj h)
    exact ⟨_, frames, hl, rfl, rfl, rfl⟩
  · cases h

/-! ### Links side by side -/

section Links

variable {l' : Link Handoff} {j : ℕ}

omit [DecidableEq Peer] in
theorem Owned.congr (ho : n.Owned peer)
    (hlinks : n'.links.map (·.connection) = n.links.map (·.connection))
    (hpeers : ∀ (c : ℕ) (phase : Phase Peer Handoff),
      n.daemon.connections[c]? = some ⟨peer, phase⟩ →
      ∃ phase' : Phase Peer Handoff, n'.daemon.connections[c]? = some ⟨peer, phase'⟩) :
    n'.Owned peer := by
  refine ⟨hlinks ▸ ho.nodup, fun l hmem => ?_⟩
  have hmem' : l.connection ∈ n.links.map (·.connection) :=
    hlinks ▸ List.mem_map_of_mem hmem
  obtain ⟨l', hl', heq⟩ := List.mem_map.1 hmem'
  obtain ⟨phase, hc⟩ := ho.peers l' hl'
  exact heq ▸ hpeers _ phase hc

omit [DecidableEq Peer] in
theorem map_connection_modify {f : Link Handoff → Link Handoff} (links : List (Link Handoff))
    (hf : ∀ l, (f l).connection = l.connection) :
    (links.modify k f).map (·.connection) = links.map (·.connection) := by
  refine List.ext_getElem? fun i => ?_
  rw [List.getElem?_map, List.getElem?_map, List.getElem?_modify]
  cases links[i]? with
  | none => rfl
  | some l =>
    by_cases hki : k = i <;> simp [hki, hf]

omit [DecidableEq Peer] in
theorem Owned.send {request : Request Handoff} (ho : n.Owned peer) :
    (n.send k request).Owned peer :=
  ho.congr (map_connection_modify _ fun _ => rfl) fun _ phase hc => ⟨phase, hc⟩

omit [DecidableEq Peer] in
theorem Owned.take {frame : Message} (ho : n.Owned peer) (h : n.take k = some (frame, n')) :
    n'.Owned peer := by
  obtain ⟨l, frames, -, -, hdaemon, hlinks⟩ := take_eq_some h
  refine ho.congr ?_ fun _ phase hc => ⟨phase, hdaemon ▸ hc⟩
  rw [hlinks]
  exact map_connection_modify _ fun _ => rfl

theorem Owned.relay (ho : n.Owned peer) (h : n.relay setup k = some n') : n'.Owned peer := by
  obtain ⟨l, request, peer', -, -, hc', hdaemon, hlinks⟩ := relay_eq_some h
  refine ho.congr ?_ fun c phase hc => ?_
  · rw [hlinks]
    exact map_connection_modify _ fun _ => rfl
  · rw [hdaemon, System.setPhase, List.getElem?_modify, hc]
    by_cases heq : l.connection = c
    · exact ⟨_, by simp [heq]; rfl⟩
    · exact ⟨phase, by simp [heq]⟩

theorem Owned.step (ho : n.Owned peer) (h : n.step setup input = some n') : n'.Owned peer :=
  ho.forward (step_eq_some h).1

omit [DecidableEq Peer] in
/-- A new link is the last one. -/
theorem connect_eq_some (h : n.connect peer = some n') :
    n'.links = n.links ++ [⟨n.daemon.connections.length, none, []⟩] ∧
      n'.daemon.connections = n.daemon.connections ++ [⟨peer, .reading⟩] ∧
      n'.daemon.service = n.daemon.service := by
  obtain ⟨daemon, haccept, rfl⟩ := Option.map_eq_some_iff.1 h
  unfold System.accept at haccept
  split_ifs at haccept
  obtain rfl := Option.some.inj haccept
  exact ⟨rfl, rfl, rfl⟩

omit [DecidableEq Peer] in
theorem Owned.connect (ho : n.Owned peer) (h : n.connect peer = some n') : n'.Owned peer := by
  obtain ⟨hlinks, hconns, -⟩ := connect_eq_some h
  have hlt : ∀ l ∈ n.links, l.connection < n.daemon.connections.length := fun l hmem => by
    obtain ⟨phase, hc⟩ := ho.peers l hmem
    exact (List.getElem?_eq_some_iff.1 hc).1
  refine ⟨?_, fun l hmem => ?_⟩
  · rw [hlinks, List.map_append, List.nodup_append]
    refine ⟨ho.nodup, List.pairwise_singleton _ _, ?_⟩
    rintro a ha b hb rfl
    obtain ⟨l, hmem, rfl⟩ := List.mem_map.1 ha
    have heq := List.mem_singleton.1 hb
    have hlt' := hlt l hmem
    simp only at heq
    omega
  · rw [hlinks] at hmem
    rcases List.mem_append.1 hmem with hmem | hmem
    · obtain ⟨phase, hc⟩ := ho.peers l hmem
      refine ⟨phase, ?_⟩
      rw [hconns, List.getElem?_append_left (hlt l hmem)]
      exact hc
    · rw [List.mem_singleton.1 hmem, hconns]
      exact ⟨.reading, by simp⟩

/-- Reading a request of another link changes nothing here. -/
theorem relay_other (ho : n.Owned peer) (h : n.relay setup j = some n')
    (hl : n.links[k]? = some l) (hne : j ≠ k) : n'.links[k]? = some l ∧
      n'.daemon.connections[l.connection]? = n.daemon.connections[l.connection]? := by
  obtain ⟨l', request, peer', hl', -, -, hdaemon, hlinks⟩ := relay_eq_some h
  have hdistinct : l'.connection ≠ l.connection := fun heq => by
    refine hne ((List.getElem?_inj ?_ ho.nodup).1 ?_)
    · rw [List.length_map]
      exact (List.getElem?_eq_some_iff.1 hl').1
    · rw [List.getElem?_map, List.getElem?_map, hl', hl]
      exact congrArg some heq
  refine ⟨?_, ?_⟩
  · rw [hlinks, List.getElem?_modify, hl]
    simp [hne]
  · rw [hdaemon, System.setPhase, List.getElem?_modify]
    simp [hdistinct]

end Links

end Net

/-- A request is only read when the step reads it. -/
theorem Advance.requested [DecidableEq Peer] {setup : Service.Setup Peer Handoff}
    {s s' : System Peer Handoff} {input : Daemon.Input Peer Handoff} {c cursor : ℕ} {peer : Peer}
    {phase : Phase Peer Handoff} {frames : List Message} {request : Request Handoff}
    (h : Advance setup s s' c peer input phase (.requested cursor request) frames)
    (hread : ∀ request, input ≠ .read c request) : phase = .requested cursor request := by
  generalize hafter : Phase.requested cursor request = after at h ⊢
  cases h with
  | other => rfl
  | ended => cases hafter
  | turn _ out hturn =>
    cases hturn with
    | read request => exact absurd rfl (hread request)
    | granted cursor' request =>
      unfold System.afterResponse at hafter
      split_ifs at hafter
    | admin _ _ _ _ hq =>
      rw [← hafter] at hq
      cases hq
    | refused | adminAnswer | received | delivered | dropped | cleaned => cases hafter

/-- Every request of the link that is not handled yet meets a condition. -/
def Requests (p : Method Handoff → Prop) (l : Link Handoff) (phase : Phase Peer Handoff) : Prop :=
  ∀ q, (l.request = some q ∨ ∃ cursor, phase = .requested cursor q) → p q.method

namespace Requests

variable {p : Method Handoff → Prop} {l : Link Handoff} {phase phase' : Phase Peer Handoff}
  {frames : List Message}

/-- A step that reads no request of the link. -/
theorem advance [DecidableEq Peer] {setup : Service.Setup Peer Handoff}
    {s s' : System Peer Handoff} {input : Daemon.Input Peer Handoff} {c : ℕ} {peer : Peer}
    (h : Requests p l phase) (hadv : Advance setup s s' c peer input phase phase' frames)
    (hread : ∀ request, input ≠ .read c request) :
    Requests p { l with frames := l.frames ++ frames } phase' := by
  rintro q (hq | ⟨cursor, rfl⟩)
  · exact h q (.inl hq)
  · exact h q (.inr ⟨cursor, hadv.requested hread⟩)

/-- The request of the link is read. -/
theorem relay {cursor : ℕ} {request : Request Handoff} (h : Requests p l phase)
    (hreq : l.request = some request) :
    Requests p { l with request := none } (.requested cursor request : Phase Peer Handoff) := by
  rintro q (hq | ⟨cursor, hq⟩)
  · cases hq
  · obtain ⟨-, rfl⟩ := Phase.requested.inj hq
    exact h _ (.inl hreq)

/-- A request is written. -/
theorem send {request : Request Handoff} (h : Requests p l phase) (hp : p request.method) :
    Requests p { l with request := some request } phase := by
  rintro q (hq | hq)
  · obtain rfl := Option.some.inj hq
    exact hp
  · exact h q (.inr hq)

end Requests

/-! ### A request in flight -/

/-- The connection writes nothing unless it reads another request. -/
def Idle (phase : Phase Peer Handoff) : Prop :=
  phase = .reading ∨ phase = .returned ∨ phase = .closed

/-- Where the only request of a link is; `served` says what holds once it was granted. -/
inductive Asked (request : Request Handoff) (events : ℕ) (served : Prop) (l : Link Handoff) :
    Phase Peer Handoff → Prop
  | waiting (phase : Phase Peer Handoff) : l.request = some request → l.frames = [] → Idle phase →
      Asked request events served l phase
  /-- The daemon read it, and subscribed to the bus at `cursor`. -/
  | read (cursor : ℕ) : l.request = none → l.frames = [] → cursor ≤ events →
      Asked request events served l (.requested cursor request)
  /-- It was refused, or the daemon ended before it answered. -/
  | refused (phase : Phase Peer Handoff) : l.request = none →
      (∀ m ∈ l.frames, ∃ e, m = .response ⟨request.requestId, .error e⟩) → Idle phase →
      Asked request events served l phase
  | granted (phase : Phase Peer Handoff) : l.request = none → served →
      Asked request events served l phase

section Asked

variable [DecidableEq Peer] {setup : Service.Setup Peer Handoff} {s s' : System Peer Handoff}
  {input : Daemon.Input Peer Handoff} {c events' : ℕ} {peer : Peer} {l : Link Handoff}
  {phase phase' : Phase Peer Handoff} {frames : List Message} {request : Request Handoff}
  {served served' : Prop}

/-- An idle connection stays idle and silent while no request is read. -/
theorem Idle.advance (h : Idle phase) (hadv : Advance setup s s' c peer input phase phase' frames)
    (hread : ∀ request, input ≠ .read c request) : Idle phase' ∧ frames = [] := by
  cases hadv with
  | other => exact ⟨h, rfl⟩
  | ended => exact ⟨.inr (.inr rfl), rfl⟩
  | turn _ out hturn =>
    cases hturn with
    | read request => exact absurd rfl (hread request)
    | dropped => exact ⟨.inr (.inl rfl), rfl⟩
    | cleaned => exact ⟨.inr (.inr rfl), rfl⟩
    | refused | granted | received | delivered => rcases h with h | h | h <;> cases h
    | admin _ _ _ hadm => rcases h with rfl | rfl | rfl <;> cases hadm
    | adminAnswer _ _ _ _ hadm => rcases h with rfl | rfl | rfl <;> cases hadm

/-- A request in flight goes on with every step that reads no request of its link. -/
theorem Asked.advance (h : Asked request s.service.events.length served l phase)
    (hadv : Advance setup s s' c peer input phase phase' frames)
    (hread : ∀ request, input ≠ .read c request) (hadm : request.method.administrative = false)
    (hevents : s.service.events.length ≤ events')
    (hgrant : ∀ cursor m payload, phase = .requested cursor request → l.frames = [] →
      cursor ≤ s.service.events.length → input = .dispatch c m.fresh m.wall →
      dispatch setup s.service m peer c request.method = .ok (payload, s'.service) →
      phase' = System.afterResponse cursor request.method true →
      frames = [.response ⟨request.requestId, .ok payload⟩] → served')
    (hserved : served → served') :
    Asked request events' served' { l with frames := l.frames ++ frames } phase' := by
  cases h with
  | waiting _ hreq hframes hidle =>
    obtain ⟨hidle', rfl⟩ := hidle.advance hadv hread
    exact .waiting _ hreq (by simpa using hframes) hidle'
  | refused _ hreq hframes hidle =>
    obtain ⟨hidle', rfl⟩ := hidle.advance hadv hread
    exact .refused _ hreq (by simpa using hframes) hidle'
  | granted _ hreq hs => exact .granted _ hreq (hserved hs)
  | read cursor hreq hframes hcursor =>
    cases hadv with
    | other => exact .read cursor hreq (by simpa using hframes) (Nat.le_trans hcursor hevents)
    | ended => exact .refused _ hreq (by simp [hframes]) (.inr (.inr rfl))
    | turn _ out hturn =>
      cases hturn with
      | refused cursor request m e =>
        refine .refused _ hreq (fun x hx => ⟨e, ?_⟩) (.inl rfl)
        simpa [hframes] using hx
      | granted cursor request m payload hd =>
        exact .granted _ hreq (hgrant cursor m payload rfl hframes hcursor rfl hd rfl rfl)
      | dropped => exact .refused _ hreq (by simp [hframes]) (.inr (.inl rfl))
      | admin _ _ _ hadm' =>
        rw [Phase.administrative, hadm] at hadm'
        cases hadm'
      | adminAnswer _ _ _ _ hadm' =>
        rw [Phase.administrative, hadm] at hadm'
        cases hadm'

omit [DecidableEq Peer] in
theorem Asked.mono (h : Asked request events' served l phase) (hs : served → served') :
    Asked request events' served' l phase := by
  cases h with
  | waiting _ hreq hnil hidle => exact .waiting _ hreq hnil hidle
  | read cursor hreq hnil hcursor => exact .read cursor hreq hnil hcursor
  | refused _ hreq herr hidle => exact .refused _ hreq herr hidle
  | granted _ hreq h => exact .granted _ hreq (hs h)

omit [DecidableEq Peer] in
/-- The daemon reads the request. -/
theorem Asked.relay {request' : Request Handoff}
    (h : Asked request events' served l (.reading : Phase Peer Handoff))
    (hreq : l.request = some request') : request' = request ∧
      Asked request events' served' { l with request := none }
        (.requested events' request' : Phase Peer Handoff) := by
  cases h with
  | waiting _ hreq' hframes =>
    obtain rfl := Option.some.inj (hreq.symm.trans hreq')
    exact ⟨rfl, .read _ rfl hframes (Nat.le_refl _)⟩
  | refused _ hnone =>
    rw [hnone] at hreq
    cases hreq
  | granted _ hnone =>
    rw [hnone] at hreq
    cases hreq

end Asked

/-! ### One link over time -/

namespace Net

/-- The link `k` is the end of a connection of the peer, and `P` holds of the two. -/
def At (peer : Peer) (n : Net Peer Handoff) (k : ℕ)
    (P : Link Handoff → Phase Peer Handoff → Prop) : Prop :=
  ∃ l phase, n.links[k]? = some l ∧ n.daemon.connections[l.connection]? = some ⟨peer, phase⟩ ∧
    P l phase

namespace At

variable {setup : Service.Setup Peer Handoff} {n n' : Net Peer Handoff}
  {input : Daemon.Input Peer Handoff} {k j : ℕ} {peer : Peer}
  {P P' : Link Handoff → Phase Peer Handoff → Prop}

theorem mono (h : n.At peer k P) (hP : ∀ l phase, P l phase → P' l phase) : n.At peer k P' := by
  obtain ⟨l, phase, hl, hc, hlp⟩ := h
  exact ⟨l, phase, hl, hc, hP l phase hlp⟩

/-- Another connection is opened. -/
theorem connect {p : Peer} (h : n.At peer k P) (hst : n.connect p = some n') :
    n'.At peer k P := by
  obtain ⟨l, phase, hl, hc, hlp⟩ := h
  obtain ⟨hlinks, hconns, -⟩ := connect_eq_some hst
  refine ⟨l, phase, ?_, ?_, hlp⟩
  · rw [hlinks, List.getElem?_append_left (List.getElem?_eq_some_iff.1 hl).1]
    exact hl
  · rw [hconns, List.getElem?_append_left (List.getElem?_eq_some_iff.1 hc).1]
    exact hc

/-- A request is written to another link. -/
theorem send {request : Request Handoff} (h : n.At peer k P) (hne : j ≠ k) :
    (n.send j request).At peer k P := by
  obtain ⟨l, phase, hl, hc, hlp⟩ := h
  refine ⟨l, phase, ?_, hc, hlp⟩
  rw [Net.send, List.getElem?_modify, hl]
  simp [hne]

/-- A request is written to the link. -/
theorem send_self {request : Request Handoff} (h : n.At peer k P)
    (hP : ∀ l phase, P l phase → P' { l with request := some request } phase) :
    (n.send k request).At peer k P' := by
  obtain ⟨l, phase, hl, hc, hlp⟩ := h
  refine ⟨{ l with request := some request }, phase, ?_, hc, hP l phase hlp⟩
  rw [Net.send, List.getElem?_modify, hl]
  simp

/-- A request is written to a new link. -/
theorem opened {request : Request Handoff} (hst : n.connect peer = some n')
    (hP : P ⟨n.daemon.connections.length, some request, []⟩ .reading) :
    (n'.send n.links.length request).At peer n.links.length P := by
  obtain ⟨hlinks, hconns, -⟩ := connect_eq_some hst
  refine ⟨⟨n.daemon.connections.length, some request, []⟩, .reading, ?_, ?_, hP⟩
  · rw [Net.send, hlinks, List.getElem?_modify]
    simp
  · simp [Net.send, hconns]

/-- A frame of another link is read. -/
theorem take_other {frame : Message} (h : n.At peer k P) (hne : j ≠ k)
    (hst : n.take j = some (frame, n')) : n'.At peer k P := by
  obtain ⟨l, phase, hl, hc, hlp⟩ := h
  obtain ⟨l', frames, -, -, hdaemon, hlinks⟩ := take_eq_some hst
  refine ⟨l, phase, ?_, hdaemon ▸ hc, hlp⟩
  rw [hlinks, List.getElem?_modify, hl]
  simp [hne]

/-- A frame of the link is read. -/
theorem take {frame : Message} (h : n.At peer k P) (hst : n.take k = some (frame, n')) :
    ∃ l phase frames, P l phase ∧ l.frames = frame :: frames ∧
      n'.At peer k fun l' phase' => l' = { l with frames } ∧ phase' = phase := by
  obtain ⟨l, phase, hl, hc, hlp⟩ := h
  obtain ⟨l', frames, hl', hframes, hdaemon, hlinks⟩ := take_eq_some hst
  rw [hl] at hl'
  obtain rfl := Option.some.inj hl'
  refine ⟨l, phase, frames, hlp, hframes, { l with frames }, phase, ?_, hdaemon ▸ hc, rfl, rfl⟩
  rw [hlinks, List.getElem?_modify, hl]
  simp

variable [DecidableEq Peer]

/-- A step of the daemon. -/
theorem step (h : n.At peer k P) (hst : n.step setup input = some n')
    (hP : ∀ l phase phase' frames, P l phase →
      n.daemon.connections[l.connection]? = some ⟨peer, phase⟩ →
      Advance setup n.daemon n'.daemon l.connection peer input phase phase' frames →
      (∀ request, input ≠ .read l.connection request) →
      P' { l with frames := l.frames ++ frames } phase') : n'.At peer k P' := by
  obtain ⟨l, phase, hl, hc, hlp⟩ := h
  obtain ⟨phase', frames, hl', hc', hadv, hread⟩ := step_link hst hl hc
  exact ⟨_, phase', hl', hc', hP l phase phase' frames hlp hc hadv hread⟩

/-- The daemon reads a request, of this link or of another one. -/
theorem relay (h : n.At peer k P) (ho : n.Owned peer) (hst : n.relay setup j = some n')
    (hself : ∀ l request, P l .reading → l.request = some request →
      P' { l with request := none } (.requested n.daemon.service.events.length request))
    (hother : ∀ l phase, P l phase → P' l phase) : n'.At peer k P' := by
  obtain ⟨l, phase, hl, hc, hlp⟩ := h
  obtain ⟨l', request, peer', hl', hreq, hreading, hdaemon, hlinks⟩ := relay_eq_some hst
  by_cases hne : j = k
  · subst hne
    rw [hl] at hl'
    obtain rfl := Option.some.inj hl'
    rw [hc] at hreading
    obtain ⟨rfl, rfl⟩ := Connection.mk.inj (Option.some.inj hreading)
    refine ⟨_, _, ?_, ?_, hself l request hlp hreq⟩
    · rw [hlinks, List.getElem?_modify, hl]
      simp
    · rw [hdaemon, System.setPhase, List.getElem?_modify, hc]
      simp
  · obtain ⟨hl'', hc''⟩ := relay_other ho hst hl hne
    exact ⟨l, phase, hl'', hc''.trans hc, hother l phase hlp⟩

end At

/-- `P` holds of every link and its connection. -/
def Each (peer : Peer) (n : Net Peer Handoff) (P : Link Handoff → Phase Peer Handoff → Prop) :
    Prop :=
  ∀ k < n.links.length, n.At peer k P

namespace Each

variable {setup : Service.Setup Peer Handoff} {n n' : Net Peer Handoff}
  {input : Daemon.Input Peer Handoff} {k j : ℕ} {peer : Peer}
  {P P' : Link Handoff → Phase Peer Handoff → Prop}

theorem mono (h : n.Each peer P) (hP : ∀ l phase, P l phase → P' l phase) : n.Each peer P' :=
  fun k hk => (h k hk).mono hP

/-- Another connection is opened. -/
theorem connect (h : n.Each peer P) (hst : n.connect peer = some n')
    (hP : P ⟨n.daemon.connections.length, none, []⟩ .reading) : n'.Each peer P := by
  obtain ⟨hlinks, hconns, -⟩ := connect_eq_some hst
  intro k hk
  by_cases hnew : k < n.links.length
  · exact (h k hnew).connect hst
  · rw [hlinks, List.length_append, List.length_singleton] at hk
    obtain rfl : k = n.links.length := by omega
    exact ⟨⟨n.daemon.connections.length, none, []⟩, .reading, by simp [hlinks], by simp [hconns],
      hP⟩

/-- A request is written to a link. -/
theorem send {request : Request Handoff} (h : n.Each peer P)
    (hP : ∀ l phase, P l phase → P { l with request := some request } phase) :
    (n.send k request).Each peer P := by
  intro j hj
  rw [Net.send, List.length_modify] at hj
  by_cases hne : k = j
  · subst hne
    exact (h k hj).send_self hP
  · exact (h j hj).send hne

/-- A frame is read. -/
theorem take {frame : Message} (h : n.Each peer P) (hst : n.take k = some (frame, n'))
    (hP : ∀ l phase frames, P l phase → l.frames = frame :: frames → P { l with frames } phase) :
    n'.Each peer P := by
  intro j hj
  obtain ⟨l, frames, -, -, -, hlinks⟩ := take_eq_some hst
  rw [hlinks, List.length_modify] at hj
  by_cases hne : k = j
  · subst hne
    obtain ⟨l, phase, frames, hlp, hframes, hat⟩ := (h k hj).take hst
    refine hat.mono ?_
    rintro _ _ ⟨rfl, rfl⟩
    exact hP l _ frames hlp hframes
  · exact (h j hj).take_other hne hst

variable [DecidableEq Peer]

/-- A step of the daemon. -/
theorem step (h : n.Each peer P) (hst : n.step setup input = some n')
    (hP : ∀ l phase phase' frames, P l phase →
      Advance setup n.daemon n'.daemon l.connection peer input phase phase' frames →
      (∀ request, input ≠ .read l.connection request) →
      P' { l with frames := l.frames ++ frames } phase') : n'.Each peer P' := by
  intro k hk
  rw [step_length hst] at hk
  exact (h k hk).step hst fun l phase phase' frames hlp _ => hP l phase phase' frames hlp

/-- The daemon reads a request. -/
theorem relay (h : n.Each peer P) (ho : n.Owned peer) (hst : n.relay setup j = some n')
    (hself : ∀ l request, P l .reading → l.request = some request →
      P' { l with request := none } (.requested n.daemon.service.events.length request))
    (hother : ∀ l phase, P l phase → P' l phase) : n'.Each peer P' := by
  intro k hk
  obtain ⟨l, request, p, -, -, -, -, hlinks⟩ := relay_eq_some hst
  rw [hlinks, List.length_modify] at hk
  exact (h k hk).relay ho hst hself hother

end Each

/-- The only request of a link of the peer is in flight; `served` says what holds of the link and
its connection once it was granted. -/
def Calling (peer : Peer) (n : Net Peer Handoff) (k : ℕ) (request : Request Handoff)
    (served : Link Handoff → Phase Peer Handoff → Prop) : Prop :=
  n.At peer k fun l phase => Asked request n.daemon.service.events.length (served l phase) l phase

theorem relay_service [DecidableEq Peer] {setup : Service.Setup Peer Handoff}
    {n n' : Net Peer Handoff} {j : ℕ} (hst : n.relay setup j = some n') :
    n'.daemon.service = n.daemon.service := by
  obtain ⟨l, request, peer, -, -, -, hdaemon, -⟩ := relay_eq_some hst
  rw [hdaemon]
  rfl

namespace Calling

variable {setup : Service.Setup Peer Handoff} {n n' : Net Peer Handoff}
  {input : Daemon.Input Peer Handoff} {k j : ℕ} {peer : Peer} {request : Request Handoff}
  {served served' : Link Handoff → Phase Peer Handoff → Prop}

/-- A step of the daemon. -/
theorem step [DecidableEq Peer] (h : n.Calling peer k request served)
    (hst : n.step setup input = some n') (hadm : request.method.administrative = false)
    (hevents : n.daemon.service.events.length ≤ n'.daemon.service.events.length)
    (hgrant : ∀ (l : Link Handoff) cursor m payload, l.frames = [] →
      cursor ≤ n.daemon.service.events.length →
      dispatch setup n.daemon.service m peer l.connection request.method =
        .ok (payload, n'.daemon.service) →
      served' { l with frames := [.response ⟨request.requestId, .ok payload⟩] }
        (System.afterResponse cursor request.method true))
    (hserved : ∀ l phase phase' frames, served l phase →
      Advance setup n.daemon n'.daemon l.connection peer input phase phase' frames →
      (∀ request, input ≠ .read l.connection request) →
      served' { l with frames := l.frames ++ frames } phase') :
    n'.Calling peer k request served' := by
  refine At.step h hst fun l phase phase' frames hasked hc hadv hread =>
    hasked.advance hadv hread hadm hevents ?_ ?_
  · rintro cursor m payload - hnil hcursor - hd rfl rfl
    rw [hnil]
    exact hgrant l cursor m payload hnil hcursor hd
  · exact fun hs => hserved l phase phase' frames hs hadv hread

/-- The daemon reads a request, of this link or of another one. -/
theorem relay [DecidableEq Peer] (h : n.Calling peer k request served) (ho : n.Owned peer)
    (hst : n.relay setup j = some n') : n'.Calling peer k request served := by
  have hservice := relay_service hst
  unfold Calling
  rw [hservice]
  exact At.relay h ho hst (fun l request' hasked hreq => (hasked.relay hreq).2) fun _ _ hasked => hasked

/-- Another connection is opened. -/
theorem connect {p : Peer} (h : n.Calling peer k request served) (hst : n.connect p = some n') :
    n'.Calling peer k request served := by
  unfold Calling
  rw [(connect_eq_some hst).2.2]
  exact At.connect h hst

/-- A frame of another link is read. -/
theorem take_other {frame : Message} (h : n.Calling peer k request served) (hne : j ≠ k)
    (hst : n.take j = some (frame, n')) : n'.Calling peer k request served := by
  obtain ⟨-, -, -, -, hdaemon, -⟩ := take_eq_some hst
  unfold Calling
  rw [hdaemon]
  exact At.take_other h hne hst

/-- The answer is read: the request was refused, or it was granted. -/
theorem take {frame : Message} (h : n.Calling peer k request served)
    (hst : n.take k = some (frame, n')) :
    (∃ e, frame = .response ⟨request.requestId, .error e⟩) ∨ ∃ l phase frames,
      l.request = none ∧ l.frames = frame :: frames ∧ served l phase ∧
      n'.At peer k fun l' phase' => l' = { l with frames } ∧ phase' = phase := by
  obtain ⟨l, phase, frames, hasked, hframes, hat⟩ := At.take h hst
  cases hasked with
  | waiting _ _ hnil => simp [hnil] at hframes
  | read _ _ hnil => simp [hnil] at hframes
  | refused _ _ herr => exact .inl (herr frame (by simp [hframes]))
  | granted _ hreq hs => exact .inr ⟨l, phase, frames, hreq, hframes, hs, hat⟩

/-- A request is written to a new link. -/
theorem opened (hst : n.connect peer = some n') :
    (n'.send n.links.length request).Calling peer n.links.length request served :=
  At.opened hst (.waiting _ rfl rfl (.inl rfl))

end Calling

end Net

end Ocvpn.Client
