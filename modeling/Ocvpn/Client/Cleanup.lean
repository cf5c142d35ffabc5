import Ocvpn.Client.Connect
import Ocvpn.Daemon.Grants

/-!
# A failed connect leaves no tunnel behind

Whatever the two cancellations did, `run` returns the error of its attempt only after
`wait_for_cleanup` read an answer that rules the attempt out.  The answer is old when it is read, but
what it says stays true: a slot never returns to an attempt that lost it (`System.Free`).

## Main results

* `Connect.failed_connect_releases` : after the error of the attempt the slot is not the attempt's,
  at most one `Start` is sent, and no `Cancel` touches another attempt.
-/

namespace Ocvpn.Client.Connect

open Daemon

variable {Peer Handoff Url : Type}

/-! ### What a step can do -/

/-- A stage of which nothing is to be known but its attempt. -/
def Stage.silent : Stage Handoff → Bool
  | .attempting _ (.calling _ _ (.poll _)) | .attempting _ (.sleeping _ _)
  | .returned (some _) (.failed _) => false
  | _ => true

/-- `Start` was not sent yet. -/
def Stage.early : Stage Handoff → Bool
  | .opening | .opened | .reserving _ => true
  | .attempting _ (.monitor) | .attempting _ .authenticating | .attempting _ (.ready _)
  | .attempting _ (.calling _ _ .progress) => true
  | _ => false

/-- The requests of an attempt on a connection that is open already. -/
inductive Asks (a : Uuid) : Work Handoff → ℕ → Call → Method Handoff → Prop
  | progress : Asks a .authenticating 0 .progress (.authProgress a)
  | start (handoff : Handoff) : Asks a (.ready handoff) 0 .start (.start a handoff)
  | cancel (e : Error) : Asks a (.failing e) 0 (.cancel e) (.cancel a)
  | poll (e : Error) (k : ℕ) : Asks a (.sleeping e k) k (.poll e) .snapshot

/-- The requests of an attempt on a new connection. -/
inductive AsksAnew (a : Uuid) : Work Handoff → Call → Method Handoff → Prop
  | recancel (e : Error) : AsksAnew a (.reopening e) (.recancel e) (.cancel a)
  | poll (e : Error) : AsksAnew a (.cleaning e) (.poll e) .snapshot

/-- What a step changes. -/
inductive Moved [DecidableEq Peer] (setup : Service.Setup Peer Handoff) (peer : Peer)
    (r r' : Connect Peer Handoff) : Prop
  | daemon (input : Daemon.Input Peer Handoff) : r.net.step setup input = some r'.net →
      r'.stage = r.stage → r'.sent = r.sent → Moved setup peer r r'
  | relay (k : ℕ) : r.net.relay setup k = some r'.net → r'.stage = r.stage → r'.sent = r.sent →
      Moved setup peer r r'
  | still : r'.net = r.net → r'.stage = r.stage → r'.sent = r.sent → Moved setup peer r r'
  /-- The client goes on by itself. -/
  | silent : r'.net = r.net → r'.sent = r.sent → r'.stage.attempt = r.stage.attempt →
      (r'.stage.early = true → r.stage.early = true) → r'.stage.silent = true →
      Moved setup peer r r'
  | opened : r.net.connect peer = some r'.net → r.stage = .opening → r'.stage = .opened →
      r'.sent = r.sent → Moved setup peer r r'
  | reserve (id pid : Uuid) (name protocol : String) : r.stage = .opened →
      r'.net = r.net.send 0 ⟨id, .reserve pid name protocol⟩ → r'.stage = .reserving id →
      r'.sent = r.sent ++ [⟨id, .reserve pid name protocol⟩] → Moved setup peer r r'
  | reserved (id : Uuid) (frame : Message) : r.stage = .reserving id →
      r.net.take 0 = some (frame, r'.net) → r'.stage = reservation (answerTo id frame) →
      r'.sent = r.sent → Moved setup peer r r'
  | asks (a id : Uuid) (work : Work Handoff) (k : ℕ) (call : Call) (method : Method Handoff) :
      r.stage = .attempting a work → Asks a work k call method →
      r'.net = r.net.send k ⟨id, method⟩ → r'.stage = .attempting a (.calling k id call) →
      r'.sent = r.sent ++ [⟨id, method⟩] → Moved setup peer r r'
  | asksAnew (a id : Uuid) (work : Work Handoff) (call : Call) (method : Method Handoff)
      (net : Net Peer Handoff) :
      r.stage = .attempting a work → AsksAnew a work call method →
      r.net.connect peer = some net → r'.net = net.send r.net.links.length ⟨id, method⟩ →
      r'.stage = .attempting a (.calling r.net.links.length id call) →
      r'.sent = r.sent ++ [⟨id, method⟩] → Moved setup peer r r'
  | answered (a id : Uuid) (k : ℕ) (call : Call) (frame : Message) :
      r.stage = .attempting a (.calling k id call) → r.net.take k = some (frame, r'.net) →
      r'.stage = call.next a k (answerTo id frame) → r'.sent = r.sent → Moved setup peer r r'

section Moved

variable {a : Uuid} {r r' : Connect Peer Handoff} {peer : Peer}

@[simp] theorem next_attempt (call : Call) (k : ℕ) (result : Except Error Payload) :
    (call.next a k result : Stage Handoff).attempt = some a := by
  unfold Call.next
  split <;> (repeat' split) <;> rfl

/-- A call goes back to an early stage only from one. -/
theorem next_early {call : Call} {k : ℕ} {result : Except Error Payload} {id : Uuid}
    (h : (call.next a k result : Stage Handoff).early = true) :
    (Stage.attempting a (.calling k id call) : Stage Handoff).early = true := by
  unfold Call.next at h
  split at h <;> (repeat' split at h) <;> first | rfl | cases h

/-- No failure on the side of the client ends the wait for the cleanup. -/
theorem next_silent (call : Call) (k : ℕ) (f : Failure) :
    (call.next a k (.error f.error) : Stage Handoff).silent = true := by
  cases call <;> cases f <;> rfl

theorem Asks.early {work : Work Handoff} {k k' : ℕ} {id : Uuid} {call : Call}
    {method : Method Handoff} (h : Asks a work k call method)
    (he : (Stage.attempting a (.calling k' id call) : Stage Handoff).early = true) :
    (Stage.attempting a work).early = true := by
  cases h with
  | progress => rfl
  | start | cancel | poll => cases he

/-- A cancellation names the attempt. -/
theorem Asks.cancels {work : Work Handoff} {k : ℕ} {call : Call} {method : Method Handoff}
    (h : Asks a work k call method) : ∀ a', method = .cancel a' → some a = some a' := by
  intro a' heq
  cases h with
  | cancel e => exact congrArg some (Method.cancel.inj heq)
  | progress | start | poll => cases heq

theorem AsksAnew.cancels {work : Work Handoff} {call : Call} {method : Method Handoff}
    (h : AsksAnew a work call method) : ∀ a', method = .cancel a' → some a = some a' := by
  intro a' heq
  cases h with
  | recancel e => exact congrArg some (Method.cancel.inj heq)
  | poll => cases heq

variable [DecidableEq Peer] {setup : Service.Setup Peer Handoff} {work : Work Handoff}

/-- A call on the first connection, whose stream may be gone. -/
theorem moved_of_call {r₀ : Connect Peer Handoff} {id : Uuid} {call : Call}
    {method : Method Handoff} (hstage : r.stage = .attempting a work)
    (hasks : Asks a work 0 call method) (hnet : r₀.net = r.net) (hsent : r₀.sent = r.sent) :
    Moved setup peer r (r₀.call a id call method) := by
  unfold Connect.call
  split_ifs
  · refine .asks a id work 0 call method hstage hasks ?_ rfl ?_
    · simp only [request, hnet]
    · simp only [request, hsent]
  · refine .silent hnet hsent ?_ (fun he => ?_) (next_silent call 0 .unavailable)
    · rw [hstage]
      exact next_attempt call 0 _
    · rw [hstage]
      have he' : (Stage.attempting a (.calling 0 id call) : Stage Handoff).early = true :=
        next_early he
      exact hasks.early he'

theorem moved_of_callAnew {id : Uuid} {call : Call} {method : Method Handoff}
    (hstage : r.stage = .attempting a work) (hasks : AsksAnew a work call method)
    (h : r.callAnew peer a id call method = some r') : Moved setup peer r r' := by
  obtain ⟨net, hnet, rfl⟩ := Option.map_eq_some_iff.1 h
  exact .asksAnew a id work call method net hstage hasks hnet rfl rfl rfl

/-- The attempt goes on by itself. -/
theorem moved_of_goes {stage : Stage Handoff} (hstage : r.stage = .attempting a work)
    (ha : stage.attempt = some a) (hearly : stage.early = true → (Stage.attempting a work).early = true)
    (hsilent : stage.silent = true) : Moved setup peer r { r with stage } :=
  .silent rfl rfl (by rw [hstage]; exact ha) (by rw [hstage]; exact hearly) hsilent

theorem authentication_eq (emitted : Bool) (event : Option (Pump Handoff)) :
    (Stage.attempting a (authentication emitted event)).silent = true := by
  unfold authentication
  split <;> (try split) <;> rfl

theorem observed_eq (done emitted : Bool) (result : Except Error Event) :
    (observed a done emitted result : Stage Handoff).attempt = some a ∧
      (observed a done emitted result : Stage Handoff).silent = true ∧
      ((observed a done emitted result : Stage Handoff).early = true → done = false) := by
  unfold observed
  cases done <;> cases emitted <;> (repeat' split) <;> simp_all [Stage.attempt, Stage.silent,
    Stage.early]

/-- What a step of a reserved attempt changes. -/
theorem moved_of_attempt {input : Input Peer Handoff} (hstage : r.stage = .attempting a work)
    (h : r.attempt peer a work input = some r') : Moved setup peer r r' := by
  -- the attempt fails, and by that nothing is sent
  have fails {e : Error} (hr : some (r.goes a (.failing e)) = some r') : Moved setup peer r r' := by
    rw [← Option.some.inj hr]
    exact moved_of_goes hstage rfl (fun he => by cases he) rfl
  unfold Connect.attempt at h
  split at h
  · split_ifs at h
    · exact fails h
    · split at h
      · exact fails h
      · rw [← Option.some.inj h]
        exact moved_of_goes hstage rfl (fun _ => rfl) rfl
      · rw [← Option.some.inj h]
        exact moved_of_goes hstage rfl (fun _ => rfl) rfl
  · split_ifs at h
    exact fails h
  · split_ifs at h
    exact fails h
  · split_ifs at h
    rw [← Option.some.inj h]
    exact moved_of_goes hstage (observed_eq _ _ _).1 (fun _ => rfl) (observed_eq _ _ _).2.1
  · split_ifs at h
    rw [← Option.some.inj h]
    exact moved_of_call hstage .progress rfl rfl
  · split_ifs at h
    rw [← Option.some.inj h]
    exact moved_of_goes hstage rfl (fun _ => rfl) (authentication_eq _ _)
  · rename_i handoff id
    split_ifs at h
    · exact fails h
    · rw [← Option.some.inj h]
      exact moved_of_call hstage (.start handoff) rfl rfl
  · split_ifs at h
    rw [← Option.some.inj h]
    refine moved_of_goes hstage (observed_eq _ _ _).1 (fun he => ?_) (observed_eq _ _ _).2.1
    cases (observed_eq _ _ _).2.2 he
  · rename_i k id call
    obtain ⟨⟨frame, net⟩, htake, rfl⟩ := Option.map_eq_some_iff.1 h
    exact .answered a id k call frame hstage htake rfl rfl
  · rename_i k id call f
    rw [← Option.some.inj h]
    exact moved_of_goes hstage (next_attempt _ _ _) next_early (next_silent _ _ f)
  · rename_i e id
    rw [← Option.some.inj h]
    exact moved_of_call hstage (.cancel e) rfl rfl
  · rename_i e id
    exact moved_of_callAnew hstage (.recancel e) h
  · rename_i e f
    rw [← Option.some.inj h]
    refine moved_of_goes hstage (next_attempt _ _ _) (fun he => ?_) (next_silent _ _ f)
    have hearly : (Stage.attempting a (.calling 0 0 (.recancel e)) : Stage Handoff).early = true :=
      next_early he
    cases hearly
  · rename_i e id
    exact moved_of_callAnew hstage (.poll e) h
  · rename_i e k id
    rw [← Option.some.inj h]
    exact .asks a id _ k _ _ hstage (.poll e k) rfl rfl rfl
  all_goals first
    | rw [← Option.some.inj h]
      exact moved_of_goes hstage rfl (fun he => by cases he) rfl
    | cases h

/-- What a step changes. -/
theorem moved_of_step {profile : Profile Url} {input : Input Peer Handoff}
    (h : r.step setup peer profile input = some r') : Moved setup peer r r' := by
  unfold Connect.step at h
  split at h
  · obtain ⟨net, hnet, rfl⟩ := Option.map_eq_some_iff.1 h
    exact .daemon _ hnet rfl rfl
  · obtain ⟨net, hnet, rfl⟩ := Option.map_eq_some_iff.1 h
    exact .relay _ hnet rfl rfl
  · rw [← Option.some.inj h]
    exact .still rfl rfl rfl
  · rename_i hstage
    split_ifs at h
    · rw [← Option.some.inj h]
      exact .silent rfl rfl (by rw [hstage]; rfl) (fun he => by cases he) rfl
    · obtain ⟨net, hnet, rfl⟩ := Option.map_eq_some_iff.1 h
      exact .opened hnet hstage rfl rfl
  · rename_i hstage
    rw [← Option.some.inj h]
    exact .silent rfl rfl (by rw [hstage]; rfl) (fun he => by cases he) rfl
  · rename_i result id hstage
    split at h
    · rw [← Option.some.inj h]
      exact .silent rfl rfl (by rw [hstage]; rfl) (fun he => by cases he) rfl
    · split_ifs at h
      · rw [← Option.some.inj h]
        exact .silent rfl rfl (by rw [hstage]; rfl) (fun he => by cases he) rfl
      · rw [← Option.some.inj h]
        exact .reserve id _ _ _ hstage rfl rfl rfl
  · rename_i id hstage
    obtain ⟨⟨frame, net⟩, htake, rfl⟩ := Option.map_eq_some_iff.1 h
    exact .reserved id frame hstage htake rfl rfl
  · rename_i id f hstage
    rw [← Option.some.inj h]
    exact .silent rfl rfl (by rw [hstage]; rfl) (fun he => by cases he) rfl
  · exact moved_of_attempt ‹r.stage = _› h
  · cases h

end Moved

/-! ### Links -/

/-- `wait_for_cleanup` returns on the answer. -/
def Settles (a : Uuid) : Message → Prop
  | .response ⟨_, .error e⟩ => e.code = .busy
  | .response ⟨_, .ok (.snapshot sn)⟩ => cleaned a sn = some (.ok ())
  | _ => False

/-- What holds of every link: it cancels the attempt of this call, if any, and an attempt that it
tells about was reserved for the peer. -/
structure Linked (peer : Peer) (attempt : Option Uuid) (s : System Peer Handoff)
    (l : Link Handoff) (phase : Phase Peer Handoff) : Prop where
  cancels : Requests (fun m => ∀ a, m = .cancel a → attempt = some a) l phase
  reserved : ∀ m ∈ l.frames, ∀ id a, m = .response ⟨id, .ok (.reserved a)⟩ →
    System.Granted peer a s

/-- What holds of a link that asks for snapshots: an answer that settles the wait tells the
truth. -/
structure Polled (a : Uuid) (s : System Peer Handoff) (l : Link Handoff)
    (phase : Phase Peer Handoff) : Prop where
  requests : Requests (fun m => m = .snapshot) l phase
  plain : Idle phase ∨ ∃ cursor q, phase = .requested cursor q
  frames : ∀ m ∈ l.frames, Settles a m → System.Free a s

section Links

variable {peer : Peer} {attempt attempt' : Option Uuid} {s s' : System Peer Handoff}
  {l : Link Handoff} {phase phase' : Phase Peer Handoff} {frames : List Message} {a : Uuid}

theorem Linked.mono (h : Linked peer attempt s l phase)
    (ha : ∀ a, attempt = some a → attempt' = some a)
    (hs : ∀ a, System.Granted peer a s → System.Granted peer a s') :
    Linked peer attempt' s' l phase :=
  ⟨fun q hq a hm => ha a (h.cancels q hq a hm), fun m hm id a heq => hs a (h.reserved m hm id a heq)⟩

theorem Polled.mono (h : Polled a s l phase) (hs : System.Free a s → System.Free a s') :
    Polled a s' l phase :=
  ⟨h.requests, h.plain, fun m hm hset => hs (h.frames m hm hset)⟩

theorem Polled.not_administrative (h : Polled a s l phase) : ¬ phase.administrative = true := by
  rcases h.plain with (rfl | rfl | rfl) | ⟨cursor, q, rfl⟩
  · exact Bool.false_ne_true
  · exact Bool.false_ne_true
  · exact Bool.false_ne_true
  · rw [Phase.administrative, h.requests q (.inr ⟨cursor, rfl⟩)]
    exact Bool.false_ne_true

variable [DecidableEq Peer] {setup : Service.Setup Peer Handoff}
  {input : Daemon.Input Peer Handoff} {out : List (Output Peer)} {c : ℕ}

theorem Linked.advance (h : Linked peer attempt s l phase) (hinv : s.Inv)
    (hst : System.step setup s input = some (s', out))
    (hadv : Advance setup s s' c peer input phase phase' frames)
    (hread : ∀ request, input ≠ .read c request) :
    Linked peer attempt s' { l with frames := l.frames ++ frames } phase' := by
  refine ⟨h.cancels.advance hadv hread, fun m hm id a heq => ?_⟩
  rcases List.mem_append.1 hm with hm | hm
  · exact (h.reserved m hm id a heq).step hinv hst
  · cases hadv with
    | other | ended => cases hm
    | turn _ out' hturn =>
      obtain ⟨o, ho, rfl⟩ := List.mem_map.1 hm
      exact System.granted_of_turn hturn o ho id heq

/-- The visible snapshot settles the wait only when the slot is not the attempt's. -/
theorem free_of_cleaned (hinv : s.Inv)
    (h : cleaned a (s.service.state.visible peer) = some (.ok ())) : System.Free a s := by
  intro slot hslot hA
  have hvisible : (s.service.state.visible peer).attemptId = some slot.attempt ∧
      ¬ idle (s.service.state.visible peer).state := System.visible_of_slot hinv hslot
  obtain ⟨hattempt, hactive⟩ := hvisible
  unfold cleaned at h
  rw [hattempt, hA] at h
  have hstate : active (s.service.state.visible peer).state = true := by
    generalize (s.service.state.visible peer).state = state at hactive
    cases state <;> simp [idle, active] at hactive ⊢
  rw [hstate] at h
  split at h
  · simp_all
  · split at h <;> cases h

theorem Polled.advance (h : Polled a s l phase) (hinv : s.Inv) (hgrant : System.Granted peer a s)
    (hst : System.step setup s input = some (s', out))
    (hadv : Advance setup s s' c peer input phase phase' frames)
    (hread : ∀ request, input ≠ .read c request) :
    Polled a s' { l with frames := l.frames ++ frames } phase' := by
  have hrequests := h.requests.advance hadv hread
  have hkeep : ∀ m ∈ l.frames, Settles a m → System.Free a s' := fun m hm hset =>
    (h.frames m hm hset).step hgrant.issued hinv hst
  have quiet (hplain : Idle phase' ∨ ∃ cursor q, phase' = .requested cursor q)
      (hnil : frames = []) : Polled a s' { l with frames := l.frames ++ frames } phase' :=
    ⟨hrequests, hplain, by rw [hnil, List.append_nil]; exact hkeep⟩
  cases hadv with
  | other => exact quiet h.plain rfl
  | ended => exact quiet (.inl (.inr (.inr rfl))) rfl
  | turn _ out' hturn =>
    cases hturn with
    | read request => exact absurd rfl (hread request)
    | dropped => exact quiet (.inl (.inr (.inl rfl))) rfl
    | cleaned => exact quiet (.inl (.inr (.inr rfl))) rfl
    | received | delivered =>
      rcases h.plain with (hidle | hidle | hidle) | ⟨_, _, hidle⟩ <;> cases hidle
    | admin _ _ _ hadm => exact absurd hadm h.not_administrative
    | adminAnswer _ _ _ _ hadm => exact absurd hadm h.not_administrative
    | refused cursor request m e hd hs =>
      have hmethod : request.method = .snapshot := h.requests request (.inr ⟨cursor, rfl⟩)
      refine ⟨hrequests, .inl (.inl rfl), fun m hm hset => ?_⟩
      rcases List.mem_append.1 hm with hm | hm
      · exact hkeep m hm hset
      · rw [hmethod] at hd
        exact (System.free_of_busy hgrant hd).step hgrant.issued hinv hst
    | granted cursor request m payload hd =>
      have hmethod : request.method = .snapshot := h.requests request (.inr ⟨cursor, rfl⟩)
      rw [hmethod] at hd
      obtain ⟨rfl, -⟩ := dispatch_visible hd (.inl rfl)
      refine ⟨hrequests, .inl (.inl (by rw [hmethod]; rfl)), fun m hm hset => ?_⟩
      rcases List.mem_append.1 hm with hm | hm
      · exact hkeep m hm hset
      · obtain rfl := List.mem_singleton.1 hm
        exact (free_of_cleaned hinv hset).step hgrant.issued hinv hst

end Links

/-! ### The invariant -/

/-- What the stage promises. -/
def Holds (peer : Peer) (net : Net Peer Handoff) : Stage Handoff → Prop
  | .attempting a (.calling k _ (.poll _)) | .attempting a (.sleeping _ k) =>
    net.At peer k (Polled a net.daemon)
  | .returned (some a) (.failed _) => System.Free a net.daemon
  | _ => True

/-- The request starts a tunnel. -/
def isStart (q : Request Handoff) : Bool :=
  match q.method with
  | .start _ _ => true
  | _ => false

/-- What holds of the client and the daemon after every step. -/
structure Sound (peer : Peer) (r : Connect Peer Handoff) : Prop where
  inv : r.net.daemon.Inv
  owned : r.net.Owned peer
  links : r.net.Each peer (Linked peer r.stage.attempt r.net.daemon)
  granted : ∀ a, r.stage.attempt = some a → System.Granted peer a r.net.daemon
  stage : Holds peer r.net r.stage
  starts : r.sent.countP isStart ≤ 1
  unstarted : r.stage.early = true → r.sent.countP isStart = 0

section Sound

variable {peer : Peer} {r r' : Connect Peer Handoff} {a : Uuid}

theorem holds_of_silent {net : Net Peer Handoff} {stage : Stage Handoff}
    (h : stage.silent = true) : Holds peer net stage := by
  unfold Holds
  split <;> trivial

variable [DecidableEq Peer] {setup : Service.Setup Peer Handoff}

/-- A step of the daemon, as the client's links see it. -/
theorem Sound.daemon {input : Daemon.Input Peer Handoff} (h : Sound peer r)
    (hst : r.net.step setup input = some r'.net) (hstage : r'.stage = r.stage)
    (hsent : r'.sent = r.sent) : Sound peer r' := by
  obtain ⟨out, hdaemon, -⟩ := Net.forward_eq_some (Net.step_eq_some hst).1
  refine ⟨h.inv.step hdaemon, h.owned.step hst, ?_, fun a ha => ?_, ?_, ?_, ?_⟩
  · rw [hstage]
    exact h.links.step hst fun l phase phase' frames hl hadv hread =>
      hl.advance h.inv hdaemon hadv hread
  · exact (h.granted a (hstage ▸ ha)).step h.inv hdaemon
  · rw [hstage]
    have hholds := h.stage
    unfold Holds at hholds ⊢
    split at hholds
    · rename_i a k id e hs
      exact hholds.step hst fun l phase phase' frames hl _ hadv hread =>
        hl.advance h.inv (h.granted a (by rw [hs]; rfl)) hdaemon hadv hread
    · rename_i a e k hs
      exact hholds.step hst fun l phase phase' frames hl _ hadv hread =>
        hl.advance h.inv (h.granted a (by rw [hs]; rfl)) hdaemon hadv hread
    · rename_i a e hs
      exact hholds.step (h.granted a (by rw [hs]; rfl)).issued h.inv hdaemon
    · trivial
  · rw [hsent]
    exact h.starts
  · rw [hsent, hstage]
    exact h.unstarted

/-- The daemon reads a request of the client. -/
theorem Sound.relay {k : ℕ} (h : Sound peer r) (hst : r.net.relay setup k = some r'.net)
    (hstage : r'.stage = r.stage) (hsent : r'.sent = r.sent) : Sound peer r' := by
  obtain ⟨c, request, hdaemon⟩ := Net.relay_step hst
  have hgranted : ∀ a, System.Granted peer a r.net.daemon → System.Granted peer a r'.net.daemon :=
    fun a ha => ha.step h.inv hdaemon
  have hpolled {a : Uuid} {k : ℕ} (hs : r.stage.attempt = some a)
      (hat : r.net.At peer k (Polled a r.net.daemon)) : r'.net.At peer k (Polled a r'.net.daemon) := by
    have hfree : System.Free a r.net.daemon → System.Free a r'.net.daemon := fun hf =>
      hf.step (h.granted a hs).issued h.inv hdaemon
    refine hat.relay h.owned hst (fun l request hl hreq => ?_) fun l phase hl => hl.mono hfree
    exact ⟨hl.requests.relay hreq, .inr ⟨_, _, rfl⟩, fun m hm hset => hfree (hl.frames m hm hset)⟩
  refine ⟨h.inv.step hdaemon, h.owned.relay hst, ?_, fun a ha => ?_, ?_, ?_, ?_⟩
  · rw [hstage]
    refine h.links.relay h.owned hst (fun l request hl hreq => ?_) fun l phase hl =>
      hl.mono (fun _ ha => ha) hgranted
    exact ⟨hl.cancels.relay hreq, fun m hm id a heq => hgranted a (hl.reserved m hm id a heq)⟩
  · exact hgranted a (h.granted a (hstage ▸ ha))
  · rw [hstage]
    have hholds := h.stage
    unfold Holds at hholds ⊢
    split at hholds
    · rename_i a k id e hs
      exact hpolled (by rw [hs]; rfl) hholds
    · rename_i a e k hs
      exact hpolled (by rw [hs]; rfl) hholds
    · rename_i a e hs
      exact hholds.step (h.granted a (by rw [hs]; rfl)).issued h.inv hdaemon
    · trivial
  · rw [hsent]
    exact h.starts
  · rw [hsent, hstage]
    exact h.unstarted

omit [DecidableEq Peer] in
/-- The client goes on by itself. -/
theorem Sound.goes (h : Sound peer r) (hnet : r'.net = r.net) (hsent : r'.sent = r.sent)
    (ha : r'.stage.attempt = r.stage.attempt)
    (hearly : r'.stage.early = true → r.stage.early = true)
    (hholds : Holds peer r.net r'.stage) : Sound peer r' where
  inv := hnet ▸ h.inv
  owned := hnet ▸ h.owned
  links := by rw [hnet, ha]; exact h.links
  granted := by rw [hnet, ha]; exact h.granted
  stage := by rw [hnet]; exact hholds
  starts := hsent ▸ h.starts
  unstarted := fun he => hsent ▸ h.unstarted (hearly he)

omit [DecidableEq Peer] in
/-- A link without requests and frames. -/
theorem linked_new (attempt : Option Uuid) (s : System Peer Handoff) (c : ℕ) :
    Linked peer attempt s ⟨c, none, []⟩ .reading :=
  ⟨fun q hq => (by rcases hq with hq | ⟨cursor, hq⟩ <;> cases hq), fun m hm => (by cases hm)⟩

/-- A connection is opened. -/
theorem Sound.connect (setup : Service.Setup Peer Handoff) {net : Net Peer Handoff}
    (h : Sound peer r)
    (hst : r.net.connect peer = some net) : net.daemon.Inv ∧ net.Owned peer ∧
      net.Each peer (Linked peer r.stage.attempt net.daemon) ∧
      ∀ a, System.Granted peer a r.net.daemon → System.Granted peer a net.daemon := by
  have hdaemon : System.step setup r.net.daemon (.accept peer) = some (net.daemon, []) :=
    Net.connect_step hst
  have hgranted : ∀ a, System.Granted peer a r.net.daemon → System.Granted peer a net.daemon :=
    fun a ha => ha.step h.inv hdaemon
  exact ⟨h.inv.step hdaemon, h.owned.connect hst, (h.links.mono fun l phase hl =>
    hl.mono (fun _ ha => ha) hgranted).connect hst (linked_new _ _ _), hgranted⟩

omit [DecidableEq Peer] in
/-- A request is written. -/
theorem Linked.send {attempt : Option Uuid} {s : System Peer Handoff} {l : Link Handoff}
    {phase : Phase Peer Handoff} {q : Request Handoff} (h : Linked peer attempt s l phase)
    (hq : ∀ a, q.method = .cancel a → attempt = some a) :
    Linked peer attempt s { l with request := some q } phase :=
  ⟨h.cancels.send hq, h.reserved⟩

omit [DecidableEq Peer] in
/-- A frame is read. -/
theorem Linked.take {attempt : Option Uuid} {s : System Peer Handoff} {l : Link Handoff}
    {phase : Phase Peer Handoff} {frame : Message} {frames : List Message}
    (h : Linked peer attempt s l phase) (hframes : l.frames = frame :: frames) :
    Linked peer attempt s { l with frames } phase :=
  ⟨h.cancels, fun m hm => h.reserved m (by rw [hframes]; exact List.mem_cons_of_mem _ hm)⟩

omit [DecidableEq Peer] in
/-- What follows an answer to another call than the poll. -/
theorem next_holds {net : Net Peer Handoff} {call : Call} {k : ℕ} {result : Except Error Payload}
    (hcall : ∀ e, call ≠ .poll e) : Holds peer net (call.next a k result) := by
  refine holds_of_silent ?_
  cases call with
  | poll e => exact absurd rfl (hcall e)
  | progress | start | cancel | recancel =>
    unfold Call.next
    split <;> (try split) <;> first | rfl | simp_all

omit [DecidableEq Peer] in
/-- What follows the answer to a poll. -/
theorem poll_holds {net : Net Peer Handoff} {k : ℕ} {id : Uuid} {frame : Message} {e : Error}
    (hfree : Settles a frame → System.Free a net.daemon)
    (hat : net.At peer k (Polled a net.daemon)) :
    Holds peer net ((Call.poll e).next a k (answerTo id frame)) := by
  have hprotocol : Holds peer net ((Call.poll e).next a k (.error protocolError)) := trivial
  cases frame with
  | event event => exact hprotocol
  | response response =>
    obtain ⟨id', result⟩ := response
    by_cases hid : id' = id
    · have hanswer : answerTo id (.response ⟨id', result⟩) = result := by simp [answerTo, hid]
      rw [hanswer]
      cases result with
      | error e' =>
        by_cases hbusy : e'.code = .busy
        · simp only [Call.next, hbusy, if_true]
          exact hfree hbusy
        · simp only [Call.next, hbusy, if_false]
          trivial
      | ok payload =>
        cases payload with
        | snapshot sn =>
          simp only [Call.next]
          split
          · rename_i hcleaned
            exact hfree hcleaned
          · trivial
          · exact hat
        | capabilities | reserved | accepted | logs => trivial
    · have hanswer : answerTo id (.response ⟨id', result⟩) = .error protocolError := by
        simp [answerTo, hid]
      rw [hanswer]
      exact hprotocol

omit [DecidableEq Peer] in
theorem reservation_silent (result : Except Error Payload) :
    (reservation result : Stage Handoff).silent = true := by
  unfold reservation
  split <;> rfl

omit [DecidableEq Peer] in
theorem reservation_attempt {result : Except Error Payload}
    (h : (reservation result : Stage Handoff).attempt = some a) : result = .ok (.reserved a) := by
  unfold reservation at h
  split at h
  · rw [Option.some.inj h]
  · cases h
  · cases h

omit [DecidableEq Peer] in
/-- A link that was just opened for the poll. -/
theorem polled_new {s : System Peer Handoff} {c : ℕ} {id : Uuid} :
    Polled a s ⟨c, some ⟨id, .snapshot⟩, []⟩ .reading := by
  refine ⟨fun q hq => ?_, .inl (.inl rfl), fun m hm => by cases hm⟩
  rcases hq with hq | ⟨cursor, hq⟩
  · rw [← Option.some.inj hq]
  · cases hq

/-- Every step keeps the invariant. -/
theorem Sound.step (h : Sound peer r) (hm : Moved setup peer r r') : Sound peer r' := by
  cases hm with
  | daemon input hst hstage hsent => exact h.daemon hst hstage hsent
  | relay k hst hstage hsent => exact h.relay hst hstage hsent
  | still hnet hstage hsent =>
    exact h.goes hnet hsent (by rw [hstage]) (fun he => hstage ▸ he) (hstage ▸ h.stage)
  | silent hnet hsent ha hearly hsilent =>
    exact h.goes hnet hsent ha hearly (holds_of_silent hsilent)
  | opened hst hstage hstage' hsent =>
    obtain ⟨hinv, howned, hlinks, -⟩ := h.connect setup hst
    rw [hstage] at hlinks
    refine ⟨hinv, howned, ?_, fun a ha => ?_, ?_, hsent ▸ h.starts, fun _ => ?_⟩
    · rw [hstage']
      exact hlinks
    · rw [hstage'] at ha
      cases ha
    · rw [hstage']
      trivial
    · rw [hsent]
      exact h.unstarted (by rw [hstage]; rfl)
  | reserve id pid name protocol hstage hnet hstage' hsent =>
    have hlinks := h.links
    rw [hstage] at hlinks
    have hcount : r'.sent.countP isStart = r.sent.countP isStart := by
      rw [hsent, List.countP_append]
      rfl
    refine ⟨by rw [hnet]; exact h.inv, by rw [hnet]; exact h.owned.send, ?_, fun a ha => ?_, ?_,
      hcount ▸ h.starts, fun _ => hcount ▸ h.unstarted (by rw [hstage]; rfl)⟩
    · rw [hnet, hstage']
      exact hlinks.send fun l phase hl => hl.send fun a ha => by cases ha
    · rw [hstage'] at ha
      cases ha
    · rw [hstage']
      trivial
  | reserved id frame hstage hst hstage' hsent =>
    obtain ⟨l, frames, hl, -, hdaemon, -⟩ := Net.take_eq_some hst
    have hlinks := h.links
    rw [hstage] at hlinks
    refine ⟨hdaemon ▸ h.inv, h.owned.take hst, ?_, fun a ha => ?_, ?_, hsent ▸ h.starts,
      fun _ => hsent ▸ h.unstarted (by rw [hstage]; rfl)⟩
    · rw [hdaemon]
      refine Net.Each.mono (hlinks.take hst fun l phase frames hl hframes => hl.take hframes)
        fun l phase hl => hl.mono (fun a ha => ?_) fun _ hg => hg
      cases ha
    · -- the frame on the first link told about the attempt
      obtain ⟨l, phase, frames, hlp, hframes, -⟩ :=
        (hlinks 0 (List.getElem?_eq_some_iff.1 hl).1).take hst
      have hanswer := reservation_attempt (hstage' ▸ ha)
      rw [hdaemon]
      exact hlp.reserved frame (by rw [hframes]; exact List.mem_cons_self) id a
        (answerTo_eq_ok hanswer)
    · rw [hstage']
      exact holds_of_silent (reservation_silent _)
  | asks a id work k call method hstage hasks hnet hstage' hsent =>
    have hlinks := h.links
    have hholds := h.stage
    rw [hstage] at hlinks hholds
    have hunstarted := h.unstarted
    have hstarts := h.starts
    rw [hstage] at hunstarted
    refine ⟨by rw [hnet]; exact h.inv, by rw [hnet]; exact h.owned.send, ?_, ?_, ?_, ?_, ?_⟩
    · rw [hnet, hstage']
      exact hlinks.send fun l phase hl => hl.send (hasks.cancels)
    · rw [hnet, hstage']
      exact fun a' ha' => h.granted a' (by rw [hstage]; exact ha')
    · rw [hnet, hstage']
      cases hasks with
      | poll e k =>
        exact Net.At.send_self hholds fun l phase hl =>
          ⟨hl.requests.send rfl, hl.plain, hl.frames⟩
      | progress | start | cancel => trivial
    · rw [hsent, List.countP_append]
      cases hasks with
      | start handoff =>
        rw [hunstarted rfl]
        exact Nat.le_refl 1
      | progress | cancel | poll => exact hstarts
    · rw [hsent, hstage', List.countP_append]
      cases hasks with
      | progress => exact fun _ => hunstarted rfl
      | start | cancel | poll => exact fun he => by cases he
  | asksAnew a id work call method net hstage hasks hst hnet hstage' hsent =>
    obtain ⟨hinv, howned, hlinks, hgranted⟩ := h.connect setup hst
    rw [hstage] at hlinks
    have hcount : r'.sent.countP isStart = r.sent.countP isStart := by
      rw [hsent, List.countP_append]
      cases hasks <;> rfl
    refine ⟨by rw [hnet]; exact hinv, by rw [hnet]; exact howned.send, ?_, ?_, ?_,
      hcount ▸ h.starts, ?_⟩
    · rw [hnet, hstage']
      exact hlinks.send fun l phase hl => hl.send (hasks.cancels)
    · rw [hnet, hstage']
      exact fun a' ha' => hgranted a' (h.granted a' (by rw [hstage]; exact ha'))
    · rw [hnet, hstage']
      cases hasks with
      | recancel e => trivial
      | poll e => exact Net.At.opened hst polled_new
    · rw [hstage']
      cases hasks <;> exact fun he => by cases he
  | answered a id k call frame hstage hst hstage' hsent =>
    obtain ⟨l, frames, hl, -, hdaemon, -⟩ := Net.take_eq_some hst
    have hlinks := h.links
    have hholds := h.stage
    rw [hstage] at hlinks hholds
    refine ⟨hdaemon ▸ h.inv, h.owned.take hst, ?_, ?_, ?_, hsent ▸ h.starts, ?_⟩
    · rw [hdaemon, hstage', next_attempt]
      exact hlinks.take hst fun l phase frames hl hframes => hl.take hframes
    · rw [hdaemon, hstage', next_attempt]
      exact fun a' ha' => h.granted a' (by rw [hstage]; exact ha')
    · rw [hstage']
      cases call with
      | poll e =>
        obtain ⟨l, phase, frames, hlp, hframes, hat⟩ := Net.At.take hholds hst
        have hfree := hlp.frames frame (by rw [hframes]; exact List.mem_cons_self)
        refine poll_holds (by rw [hdaemon]; exact hfree) (hat.mono ?_)
        rintro _ _ ⟨rfl, rfl⟩
        rw [hdaemon]
        exact ⟨hlp.requests, hlp.plain, fun m hm => hlp.frames m (by
          rw [hframes]; exact List.mem_cons_of_mem _ hm)⟩
      | progress | start | cancel | recancel => exact next_holds (by simp)
    · rw [hsent, hstage']
      exact fun he => h.unstarted (by rw [hstage]; exact next_early he)

end Sound

/-! ### Runs -/

variable [DecidableEq Peer]

/-- A cancellation of an attempt that does not hold the slot changes nothing. -/
theorem cancel_harmless {setup : Service.Setup Peer Handoff} {s s' : System Peer Handoff} {c : ℕ}
    {peer : Peer} {cursor : ℕ} {q : Request Handoff} {a fresh : Uuid} {wall : ℤ}
    {out : List (Output Peer)} (hc : s.connections[c]? = some ⟨peer, .requested cursor q⟩)
    (hq : q.method = .cancel a) (hfree : System.Free a s)
    (hst : System.step setup s (.dispatch c fresh wall) = some (s', out)) :
    s'.service = s.service := by
  obtain ⟨peer', cursor', q', hc', -, hs⟩ := System.step_dispatch hst
  rw [hc] at hc'
  obtain ⟨rfl, hphase⟩ := Connection.mk.inj (Option.some.inj hc')
  obtain ⟨rfl, rfl⟩ := Phase.requested.inj hphase
  unfold System.dispatchRequest at hs
  dsimp only at hs
  split at hs
  · obtain ⟨rfl, -⟩ := Prod.mk.inj hs
    rfl
  · rename_i payload service hd
    obtain ⟨rfl, -⟩ := Prod.mk.inj hs
    rw [hq] at hd
    show service = s.service
    unfold dispatch at hd
    cases hauth : s.service.state.authorize peer with
    | error e =>
      rw [hauth] at hd
      cases hd
    | ok _ =>
      simp only [hauth] at hd
      unfold Service.cancelAttempt at hd
      split_ifs at hd with hother
      obtain ⟨-, rfl⟩ := Prod.mk.inj (Except.ok.inj hd)
      -- a granted cancellation finds the slot free, or held by its attempt
      cases hslot : s.service.state.slot with
      | none => exact Service.cancel_eq_self hslot
      | some slot => exact absurd (by simp [hslot, hfree slot hslot]) hother

/-- **A failed connect leaves no orphaned tunnel.**  Whenever `run` returned the error of an
attempt that was reserved, the slot does not belong to the attempt; `run` sends at most one
`Start`; and every `Cancel` it sends names its own attempt, and changes nothing unless that attempt
holds the slot. -/
theorem failed_connect_releases (setup : Service.Setup Peer Handoff) (peer : Peer)
    (profile : Profile Url) (r : Connect Peer Handoff)
    (h : (connect setup peer profile).Reachable r) :
    (∀ a e, r.stage = .returned (some a) (.failed e) → System.Free a r.net.daemon) ∧
    r.sent.countP isStart ≤ 1 ∧
    ∀ l ∈ r.net.links, ∀ p cursor q a,
      r.net.daemon.connections[l.connection]? = some ⟨p, .requested cursor q⟩ →
      q.method = .cancel a → r.stage.attempt = some a ∧ ∀ fresh wall s' out,
        System.step setup r.net.daemon (.dispatch l.connection fresh wall) = some (s', out) →
        System.Free a r.net.daemon → s'.service = r.net.daemon.service := by
  have hsound : Sound peer r := by
    refine h.invariant ?_ ?_
    · rintro _ ⟨instanceId, recoveryError, handoff, rfl⟩
      refine ⟨.initial instanceId recoveryError, ⟨by simp, by simp⟩, fun k hk => ?_, ?_, trivial,
        by simp, by simp⟩
      · simp at hk
      · rintro a ha
        cases ha
    · rintro r i r' o hr hst
      obtain ⟨r'', hst', heq⟩ := Option.map_eq_some_iff.1 hst
      obtain ⟨rfl, -⟩ := Prod.mk.inj heq
      exact hr.step (moved_of_step hst')
  refine ⟨fun a e hstage => ?_, hsound.starts, fun l hl p cursor q a hc hq => ?_⟩
  · have hholds := hsound.stage
    rw [hstage] at hholds
    exact hholds
  · obtain ⟨k, hk, hlk⟩ := List.getElem_of_mem hl
    obtain ⟨l', phase, hl', hc', hlinked⟩ := hsound.links k hk
    obtain rfl : l = l' := by
      rw [List.getElem?_eq_getElem hk, hlk] at hl'
      exact Option.some.inj hl'
    rw [hc] at hc'
    obtain ⟨-, rfl⟩ := Connection.mk.inj (Option.some.inj hc')
    exact ⟨hlinked.cancels q (.inr ⟨cursor, rfl⟩) a hq, fun fresh wall s' out hst hfree =>
      cancel_harmless hc hq hfree hst⟩

/-- The user cancels after the reservation; the cancellation and the poll are answered. -/
def cancelledInputs : List (Input ℕ String) :=
  [.opened, .profile (.ok ()) 3, .relay 0, .daemon (.dispatch 0 4 100), .answered, .stop,
    .monitorOpened (.ok ()), .proceed 5, .relay 0, .daemon (.dispatch 0 6 101), .answered,
    .proceed 7, .relay 1, .daemon (.dispatch 1 8 102), .answered]

def workProfile : Profile Unit :=
  { id := 2, revision := 1, name := "work", protocol := "anyconnect", server := () }

/-- The client before it opens its connection. -/
def beginning : Connect ℕ String :=
  { net := { daemon := System.start 1 none, links := [] }
    usable := true, stopping := false, handoff := none, stage := .opening, sent := [] }

/-- The client after the inputs. -/
def cancelledRun : Connect ℕ String :=
  (connect System.sampleSetup 7 workProfile).perform beginning cancelledInputs

theorem failed_connect_releases_cancelled :
    cancelledRun.stage = .returned (some 4) (.failed cancelled) ∧
    (∀ a e, cancelledRun.stage = .returned (some a) (.failed e) →
      System.Free a cancelledRun.net.daemon) ∧
    cancelledRun.sent.countP isStart ≤ 1 ∧
    ∀ l ∈ cancelledRun.net.links, ∀ p cursor q a,
      cancelledRun.net.daemon.connections[l.connection]? = some ⟨p, .requested cursor q⟩ →
      q.method = .cancel a → cancelledRun.stage.attempt = some a ∧ ∀ fresh wall s' out,
        System.step System.sampleSetup cancelledRun.net.daemon
          (.dispatch l.connection fresh wall) = some (s', out) →
        System.Free a cancelledRun.net.daemon → s'.service = cancelledRun.net.daemon.service :=
  ⟨rfl, failed_connect_releases System.sampleSetup 7 workProfile cancelledRun
    (Machine.Reachable.trans (.initial ⟨1, none, none, rfl⟩) (Machine.reaches_perform _ _))⟩

end Ocvpn.Client.Connect
