import Ocvpn.Daemon.Similar
import Ocvpn.Daemon.Exclusion

/-!
# Sessions of different peers do not leak into each other

Two runs of the daemon in lockstep perform the same kinds of steps in the same order and differ
only in the private data of sessions of peers other than `P` (`Agree`); requests of others succeed
or fail alike (`SameOutcome`).  `System.sessions_isolated` says that `P` reads the same messages in
both runs.

What two runs may differ in has one exception: whether an error of another peer's session asks for
network recovery.  That blocks every later reservation, so it is visible to everybody;
`System.error_code_observed` is a pair of runs that differ in it.

## Main results

* `System.Similar.step` : one step in lockstep keeps states similar and shows `P` the same.
* `System.sessions_isolated` : the theorem over runs, and that requests of `P` change nothing
  while another peer owns the slot.
-/

namespace Ocvpn.Daemon

variable {Peer Handoff : Type}

/-! ### Lists in lockstep -/

theorem forall₂_getElem? {α β : Type} {R : α → β → Prop} {l : List α} {l' : List β}
    (h : List.Forall₂ R l l') (k : ℕ) : Option.Rel R l[k]? l'[k]? := by
  induction h generalizing k with
  | nil => exact .none
  | cons hab _ ih =>
    cases k with
    | zero => exact .some hab
    | succ k => exact ih k

theorem forall₂_modify {α β : Type} {R : α → β → Prop} {l : List α} {l' : List β} {f : α → α}
    {g : β → β} (h : List.Forall₂ R l l') (k : ℕ)
    (hfg : ∀ a b, l[k]? = some a → l'[k]? = some b → R a b → R (f a) (g b)) :
    List.Forall₂ R (l.modify k f) (l'.modify k g) := by
  induction h generalizing k with
  | nil => simp
  | cons hab hl ih =>
    cases k with
    | zero => exact .cons (hfg _ _ rfl rfl hab) hl
    | succ k => exact .cons hab (ih k hfg)

theorem forall₂_set {α β : Type} {R : α → β → Prop} {l : List α} {l' : List β} {a : α} {b : β}
    (h : List.Forall₂ R l l') (k : ℕ) (hab : R a b) :
    List.Forall₂ R (l.set k a) (l'.set k b) := by
  induction h generalizing k with
  | nil => exact .nil
  | cons hcd hl ih =>
    cases k with
    | zero => exact .cons hab hl
    | succ k => exact .cons hcd (ih k)

namespace System

/-! ### What two runs agree on -/

section Agree

variable (κ : Error → Bool) (P : Peer)

/-- Connection `c` is `P`'s. -/
def Owns (s : System Peer Handoff) (c : ℕ) : Prop :=
  ∃ conn, s.connections[c]? = some conn ∧ conn.peer = P

/-- Attempt `k` was started by `P`. -/
def Started (s : System Peer Handoff) (k : ℕ) : Prop :=
  ∃ a, s.attempts[k]? = some a ∧ a.owner = P

/-- `P` holds the slot. -/
def Holds (s : System Peer Handoff) : Prop :=
  ∃ slot, s.service.state.slot = some slot ∧ slot.owner = P

/-- Inputs of one kind that differ only in data of sessions and requests of peers other than `P`;
of an error of such a session they keep `κ`. -/
inductive Agree (s : System Peer Handoff) : Input Peer Handoff → Input Peer Handoff → Prop
  | pass (seconds : ℕ) : Agree s (.pass seconds) (.pass seconds)
  | accept (peer : Peer) : Agree s (.accept peer) (.accept peer)
  | read (c : ℕ) (r r' : Request Handoff) : methodKind r.method = methodKind r'.method →
      (s.Owns P c → r = r') → Agree s (.read c r) (.read c r')
  | dispatch (c : ℕ) (fresh fresh' : Uuid) (wall wall' : ℤ) :
      (s.Owns P c → fresh = fresh' ∧ wall = wall') →
      Agree s (.dispatch c fresh wall) (.dispatch c fresh' wall')
  | admin (c : ℕ) (verified verified' : Option (Except Error Unit)) :
      (s.Owns P c → verified = verified') → Agree s (.admin c verified) (.admin c verified')
  | lock (c : ℕ) : Agree s (.lock c) (.lock c)
  | lockTimeout (c : ℕ) : Agree s (.lockTimeout c) (.lockTimeout c)
  | teardown (c : ℕ) (wall wall' : ℤ) : (s.Holds P → wall = wall') →
      Agree s (.teardown c wall) (.teardown c wall')
  | inspect (c : ℕ) : Agree s (.inspect c) (.inspect c)
  | adminTimeout (c : ℕ) : Agree s (.adminTimeout c) (.adminTimeout c)
  | adminRecovered (o o' : RecoveryOutcome) : o.mask = o'.mask →
      (∀ c, s.recovery = some (.task c) → s.Owns P c → o = o') →
      Agree s (.adminRecovered o) (.adminRecovered o')
  | conclude (c : ℕ) : Agree s (.conclude c) (.conclude c)
  | receive (c : ℕ) : Agree s (.receive c) (.receive c)
  | deliver (c : ℕ) : Agree s (.deliver c) (.deliver c)
  | hangUp (c : ℕ) : Agree s (.hangUp c) (.hangUp c)
  | cleanup (c : ℕ) (wall wall' : ℤ) : (s.Holds P → wall = wall') →
      Agree s (.cleanup c wall) (.cleanup c wall')
  | supervise (k : ℕ) (e e' : SupervisorEvent) : e.mask κ = e'.mask κ →
      (s.Started P k → e = e') → Agree s (.supervise k e) (.supervise k e')
  | update (k : ℕ) (session session' : Uuid) (wall wall' : ℤ) :
      (s.Started P k → session = session' ∧ wall = wall') →
      Agree s (.update k session wall) (.update k session' wall')
  | drained (k : ℕ) : Agree s (.drained k) (.drained k)
  | join (k : ℕ) (wall wall' : ℤ) : (s.Started P k → wall = wall') →
      Agree s (.join k wall) (.join k wall')
  | leaseTick (wall wall' : ℤ) : (s.Holds P → wall = wall') →
      Agree s (.leaseTick wall) (.leaseTick wall')
  | stop (wall wall' : ℤ) : (s.Holds P → wall = wall') → Agree s (.stop wall) (.stop wall')
  | exit : Agree s .exit .exit

theorem Agree.refl {κ : Error → Bool} {P : Peer} {s : System Peer Handoff}
    (i : Input Peer Handoff) : Agree κ P s i i := by
  cases i <;> constructor <;> simp

end Agree

/-- What everybody may learn of a message: where it goes, and whether a request succeeded. -/
def outcome (o : Output Peer) : ℕ × Peer × Option Bool :=
  (o.connection, o.peer, match o.message with
    | .response r => some r.result.isOk
    | .event _ => none)

/-- The same responses succeed. -/
def SameOutcome (o p : List (Output Peer)) : Prop := o.map outcome = p.map outcome

/-- What `P` reads. -/
def observe [DecidableEq Peer] (P : Peer) (o : Output Peer) : Option (ℕ × Message) :=
  if o.peer = P then some (o.connection, o.message) else none

/-- States that look the same to `P`. -/
structure Similar (P : Peer) (s t : System Peer Handoff) : Prop where
  service : s.service.Similar P t.service
  clock : s.clock = t.clock
  connections : List.Forall₂ (Connection.Similar P) s.connections t.connections
  attempts : List.Forall₂ (Attempt.Similar P) s.attempts t.attempts
  recovery : s.recovery = t.recovery
  main : s.main = t.main

namespace Similar

variable {P : Peer} {s t : System Peer Handoff} {c : ℕ}

/-- Connections correspond. -/
theorem connection (h : s.Similar P t) {peer : Peer} {phase : Phase Peer Handoff}
    (hc : s.connections[c]? = some ⟨peer, phase⟩) :
    ∃ phase', t.connections[c]? = some ⟨peer, phase'⟩ ∧ phase.Similar P (peer = P) phase' := by
  have hrel := forall₂_getElem? h.connections c
  rw [hc] at hrel
  cases hd : t.connections[c]? with
  | none =>
    rw [hd] at hrel
    cases hrel
  | some d =>
    rw [hd] at hrel
    obtain ⟨peer', phase'⟩ := d
    cases hrel with
    | some hcd =>
      obtain ⟨hp, hph⟩ := hcd
      obtain rfl : peer = peer' := hp
      exact ⟨phase', rfl, hph⟩

/-- Attempts correspond. -/
theorem attempt (h : s.Similar P t) {k : ℕ} {a : Attempt Peer} (ha : s.attempts[k]? = some a) :
    ∃ b, t.attempts[k]? = some b ∧ a.Similar P b := by
  have hrel := forall₂_getElem? h.attempts k
  rw [ha] at hrel
  cases hb : t.attempts[k]? with
  | none =>
    rw [hb] at hrel
    cases hrel
  | some b =>
    rw [hb] at hrel
    cases hrel with
    | some hab => exact ⟨b, rfl, hab⟩

theorem setPhase (h : s.Similar P t) {peer : Peer} {phase q q' : Phase Peer Handoff}
    (hc : s.connections[c]? = some ⟨peer, phase⟩) (hq : q.Similar P (peer = P) q') :
    (s.setPhase c q).Similar P (t.setPhase c q') := by
  refine ⟨h.service, h.clock, forall₂_modify h.connections c fun a b ha _ hab => ?_, h.attempts,
    h.recovery, h.main⟩
  rw [hc] at ha
  obtain rfl := Option.some.inj ha
  exact ⟨hab.peer, hq⟩

theorem withService (h : s.Similar P t) {v u : Service Peer} (hv : v.Similar P u) :
    ({ s with service := v } : System Peer Handoff).Similar P { t with service := u } :=
  ⟨hv, h.clock, h.connections, h.attempts, h.recovery, h.main⟩

theorem withRecovery (h : s.Similar P t) (g : Option Guard) :
    ({ s with recovery := g } : System Peer Handoff).Similar P { t with recovery := g } :=
  ⟨h.service, h.clock, h.connections, h.attempts, rfl, h.main⟩

theorem release (h : s.Similar P t) : (s.release c).Similar P (t.release c) := by
  unfold System.release
  rw [h.recovery]
  split_ifs
  · exact h.withRecovery none
  · exact h

end Similar

/-! ### One step in lockstep -/

/-- Results of a step that look the same to `P`. -/
def Alike [DecidableEq Peer] (P : Peer) (x y : System Peer Handoff × List (Output Peer)) : Prop :=
  x.1.Similar P y.1 ∧ x.2.filterMap (observe P) = y.2.filterMap (observe P)

section Lockstep

variable [DecidableEq Peer] {P : Peer} {s t : System Peer Handoff} {c : ℕ} {peer : Peer}
  {setup : Service.Setup Peer Handoff} {x y : System Peer Handoff × List (Output Peer)}

theorem observe_single {m m' : Message} (h : peer = P → m = m') :
    [(⟨c, peer, m⟩ : Output Peer)].filterMap (observe P) =
      [(⟨c, peer, m'⟩ : Output Peer)].filterMap (observe P) := by
  by_cases hp : peer = P
  · rw [h hp]
  · simp [observe, hp]

theorem Similar.silent (h : s.Similar P t) : Alike P (s, []) (t, []) := ⟨h, rfl⟩

theorem Similar.answer (h : s.Similar P t) {phase q q' : Phase Peer Handoff} {id id' : Uuid}
    {r r' : Except Error Payload} (hc : s.connections[c]? = some ⟨peer, phase⟩)
    (hq : q.Similar P (peer = P) q') (hr : peer = P → id = id' ∧ r = r') :
    Alike P (s.answer c peer id r q) (t.answer c peer id' r' q') := by
  refine ⟨h.setPhase hc hq, observe_single fun hp => ?_⟩
  obtain ⟨rfl, rfl⟩ := hr hp
  rfl

omit [DecidableEq Peer] in
theorem owns_of {phase : Phase Peer Handoff} (hc : s.connections[c]? = some ⟨peer, phase⟩)
    (hp : peer = P) : s.Owns P c := ⟨_, hc, hp⟩

omit [DecidableEq Peer] in
theorem afterResponse_similar {cursor : ℕ} {m m' : Method Handoff} {accepted : Bool} {mine : Prop}
    (hkind : methodKind m = methodKind m') :
    (afterResponse cursor m accepted : Phase Peer Handoff).Similar P mine
      (afterResponse cursor m' accepted) := by
  have hfollow : m.follow = m'.follow ∧ m.logStream = m'.logStream := by
    cases m <;> cases m' <;> simp_all [methodKind, Method.follow, Method.logStream]
  unfold afterResponse
  rw [hfollow.1, hfollow.2]
  split_ifs
  · exact .following _ _
  · exact .reading

omit [DecidableEq Peer] in
/-- Attempts of others that just started look the same. -/
theorem spawned_similar {m m' : Method Handoff} (hp : peer ≠ P)
    (hkind : methodKind m = methodKind m') :
    List.Forall₂ (Attempt.Similar P) (spawned peer m) (spawned peer m') := by
  cases m <;> cases m' <;> simp only [methodKind, reduceCtorEq] at hkind
  case start.start =>
    exact .cons ⟨rfl, rfl, rfl, rfl, fun heq => absurd heq hp⟩ .nil
  all_goals exact .nil

theorem Similar.read (h : s.Similar P t) {r r' : Request Handoff}
    (hkind : methodKind r.method = methodKind r'.method) (hr : s.Owns P c → r = r')
    (hx : s.connection setup c (.read c r) = some x)
    (hy : t.connection setup c (.read c r') = some y) : Alike P x y := by
  unfold System.connection at hx hy
  rcases hc : s.connections[c]? with _ | ⟨peer, phase⟩
  · simp only [hc, reduceCtorEq] at hx
  obtain ⟨phase', hc', hph⟩ := h.connection hc
  rw [hc] at hx
  rw [hc'] at hy
  cases hph with
  | reading =>
    obtain rfl := Option.some.inj hx
    obtain rfl := Option.some.inj hy
    have hlen : s.service.events.length = t.service.events.length := h.service.events.length_eq
    rw [hlen]
    exact (h.setPhase hc (.requested _ r r' hkind fun hp => hr (owns_of hc hp))).silent
  | requested _ r =>
    obtain ⟨id, method⟩ := r
    cases method <;> cases hx
  | quiescing st => cases st <;> cases hx
  | following | received | returned | closed => cases hx

/-- Requests of one kind on one connection are dispatched alike. -/
theorem Similar.dispatchRequest (h : s.Similar P t) (hs : s.service.state.Coherent)
    {r r' : Request Handoff} {cursor : ℕ} {fresh fresh' : Uuid} {wall wall' : ℤ}
    (hc : s.connections[c]? = some ⟨peer, .requested cursor r⟩)
    (hkind : methodKind r.method = methodKind r'.method)
    (hown : peer = P → r = r' ∧ fresh = fresh' ∧ wall = wall')
    (hout : SameOutcome (s.dispatchRequest setup c cursor peer r fresh wall).2
      (t.dispatchRequest setup c cursor peer r' fresh' wall').2) :
    Alike P (s.dispatchRequest setup c cursor peer r fresh wall)
      (t.dispatchRequest setup c cursor peer r' fresh' wall') := by
  have hlen : s.attempts.length = t.attempts.length := h.attempts.length_eq
  have hclock := h.clock
  unfold System.dispatchRequest at hout ⊢
  simp only at hout ⊢
  by_cases hp : peer = P
  · obtain ⟨rfl, rfl, rfl⟩ := hown hp
    subst hp
    rw [← hlen, ← hclock]
    generalize hm : ({ clock := s.clock, wall, fresh, next := s.attempts.length } :
      Service.Moment) = m
    have hreply : SameReply peer (Daemon.dispatch setup s.service m peer c r.method)
        (Daemon.dispatch setup t.service m peer c r.method) := dispatch_similar_own h.service hs
    generalize Daemon.dispatch setup s.service m peer c r.method = a at hreply ⊢
    generalize Daemon.dispatch setup t.service m peer c r.method = b at hreply ⊢
    cases hreply with
    | error e => exact h.answer hc (afterResponse_similar rfl) fun _ => ⟨rfl, rfl⟩
    | ok payload v u hv =>
      refine Similar.answer (s := { s with
        service := v
        attempts := s.attempts ++ spawned peer r.method
        issued := s.issued ++ issuedBy fresh r.method }) ?_ hc (afterResponse_similar rfl)
        fun _ => ⟨rfl, rfl⟩
      refine ⟨hv, rfl, h.connections, List.rel_append h.attempts ?_, h.recovery, h.main⟩
      exact List.forall₂_same.2 fun a _ => ⟨rfl, rfl, rfl, rfl, fun _ => rfl⟩
  · generalize hv : Daemon.dispatch setup s.service _ peer c r.method = a at hout ⊢
    generalize hu : Daemon.dispatch setup t.service _ peer c r'.method = b at hout ⊢
    rcases a with e | ⟨payload, v⟩ <;> rcases b with e' | ⟨payload', u⟩
    · exact h.answer hc (afterResponse_similar hkind) fun heq => absurd heq hp
    · simp [SameOutcome, outcome, System.answer, Except.isOk, Except.toBool] at hout
    · simp [SameOutcome, outcome, System.answer, Except.isOk, Except.toBool] at hout
    · refine Similar.answer (s := { s with
        service := v
        attempts := s.attempts ++ spawned peer r.method
        issued := s.issued ++ issuedBy fresh r.method }) ?_ hc (afterResponse_similar hkind)
        fun heq => absurd heq hp
      refine ⟨dispatch_similar_other h.service hs hp hkind hclock hlen hv hu, hclock,
        h.connections, List.rel_append h.attempts ?_, h.recovery, h.main⟩
      exact spawned_similar hp hkind

theorem Similar.dispatch (h : s.Similar P t) (hs : s.service.state.Coherent)
    {fresh fresh' : Uuid} {wall wall' : ℤ}
    (hown : s.Owns P c → fresh = fresh' ∧ wall = wall')
    (hx : s.connection setup c (.dispatch c fresh wall) = some x)
    (hy : t.connection setup c (.dispatch c fresh' wall') = some y)
    (hout : SameOutcome x.2 y.2) : Alike P x y := by
  unfold System.connection at hx hy
  rcases hc : s.connections[c]? with _ | ⟨peer, phase⟩
  · simp only [hc, reduceCtorEq] at hx
  obtain ⟨phase', hc', hph⟩ := h.connection hc
  rw [hc] at hx
  rw [hc'] at hy
  cases hph with
  | requested cursor r r' hkind hr =>
    simp only at hx hy
    split_ifs at hx
    split_ifs at hy
    obtain rfl := Option.some.inj hx
    obtain rfl := Option.some.inj hy
    exact h.dispatchRequest hs hc hkind (fun hp => ⟨hr hp, hown (owns_of hc hp)⟩) hout
  | quiescing st => cases st <;> cases hx
  | reading | following | received | returned | closed => cases hx

theorem Similar.admin (h : s.Similar P t) {verified verified' : Option (Except Error Unit)}
    (hown : s.Owns P c → verified = verified')
    (hx : s.connection setup c (.admin c verified) = some x)
    (hy : t.connection setup c (.admin c verified') = some y)
    (hout : SameOutcome x.2 y.2) : Alike P x y := by
  unfold System.connection at hx hy
  rcases hc : s.connections[c]? with _ | ⟨peer, phase⟩
  · simp only [hc, reduceCtorEq] at hx
  obtain ⟨phase', hc', hph⟩ := h.connection hc
  rw [hc] at hx
  rw [hc'] at hy
  cases hph with
  | requested cursor r r' hkind hr =>
    obtain ⟨id, method⟩ := r
    obtain ⟨id', method'⟩ := r'
    cases method <;> cases method' <;> try cases hx
    case adminQuiesce.adminQuiesce authorization authorization' =>
      simp only at hx hy
      have hgate : peer = P → id = id' ∧ adminGate setup peer authorization verified =
          adminGate setup peer authorization' verified' := fun hp => by
        obtain ⟨hid, hm⟩ := Request.mk.inj (hr hp)
        rw [hown (owns_of hc hp), Method.adminQuiesce.inj hm]
        exact ⟨hid, rfl⟩
      revert hx hy hgate
      rcases adminGate setup peer authorization verified with e | _ <;>
        rcases adminGate setup peer authorization' verified' with e' | _ <;>
        intro hx hy hgate <;> obtain rfl := Option.some.inj hx <;>
        obtain rfl := Option.some.inj hy
      · exact h.answer hc .reading fun hp => ⟨(hgate hp).1, by rw [Except.error.inj (hgate hp).2]⟩
      · simp [SameOutcome, System.answer] at hout
      · simp [SameOutcome, System.answer] at hout
      · exact (h.setPhase hc (.quiescing _ _ _ _ rfl fun hp => ⟨rfl, (hgate hp).1⟩)).silent
    all_goals cases hkind
  | quiescing st => cases st <;> cases hx
  | reading | following | received | returned | closed => cases hx

omit [DecidableEq Peer] in
theorem Similar.slot_isSome (h : s.Similar P t) :
    s.service.state.slot.isSome = t.service.state.slot.isSome := by
  simpa using congrArg Option.isSome h.service.state.slot

omit [DecidableEq Peer] in
theorem quiesceResult_isOk (o : RecoveryOutcome) :
    (quiesceResult o).isOk = (quiesceResult o.mask).isOk := by
  rcases o with _ | _ | _
  · rename_i list
    cases list <;> rfl
  · rfl
  · rfl

/-- The calls of `quiesce` go on alike. -/
theorem Similar.quiesce (h : s.Similar P t) (hs : s.service.state.Coherent) {st st' : Quiesce}
    {id id' : Uuid} {i j : Input Peer Handoff}
    (hc : s.connections[c]? = some ⟨peer, .quiescing st id⟩) (hst : st.mask = st'.mask)
    (hown : peer = P → st = st' ∧ id = id')
    (hij : i = j ∨ ∃ w w', i = .teardown c w ∧ j = .teardown c w' ∧ (s.Holds P → w = w'))
    (hx : s.quiesce c peer id st i = some x) (hy : t.quiesce c peer id' st' j = some y) :
    Alike P x y := by
  have hreply : ∀ (r : Except Error Payload), peer = P → id = id' ∧ r = r :=
    fun _ hp => ⟨(hown hp).2, rfl⟩
  have hphase : ∀ q : Quiesce, (Phase.quiescing q id : Phase Peer Handoff).Similar P (peer = P)
      (.quiescing q id') := fun q => .quiescing _ _ _ _ rfl fun hp => ⟨rfl, (hown hp).2⟩
  cases st with
  | locking =>
    obtain rfl : st' = .locking := by cases st' <;> first | rfl | cases hst
    rcases hij with rfl | ⟨w, w', rfl, -⟩
    · cases i with
      | lock =>
        simp only [System.quiesce] at hx hy
        split_ifs at hx
        split_ifs at hy
        rw [← Option.some.inj hx, ← Option.some.inj hy]
        exact Similar.silent (Similar.setPhase (h.withRecovery _) hc (hphase .locked))
      | lockTimeout =>
        rw [← Option.some.inj hx, ← Option.some.inj hy]
        exact h.answer hc .reading (hreply _)
      | _ => cases hx
    · cases hx
  | locked =>
    obtain rfl : st' = .locked := by cases st' <;> first | rfl | cases hst
    have hstop : ∀ w w', (s.Holds P → w = w') →
        Alike P ({ s with service := s.service.stop w }.setPhase c (.quiescing .waiting id), [])
          ({ t with service := t.service.stop w' }.setPhase c (.quiescing .waiting id'), []) :=
      fun w w' hw => Similar.silent (Similar.setPhase (h.withService (h.service.stop hs
        fun slot hslot ho => hw ⟨slot, hslot, ho⟩)) hc (hphase .waiting))
    rcases hij with rfl | ⟨w, w', rfl, rfl, hw⟩
    · cases i with
      | teardown _ w =>
        rw [← Option.some.inj hx, ← Option.some.inj hy]
        exact hstop w w fun _ => rfl
      | _ => cases hx
    · rw [← Option.some.inj hx, ← Option.some.inj hy]
      exact hstop w w' hw
  | waiting =>
    obtain rfl : st' = .waiting := by cases st' <;> first | rfl | cases hst
    rcases hij with rfl | ⟨w, w', rfl, -⟩
    · cases i with
      | inspect =>
        simp only [System.quiesce, ← h.slot_isSome, ← h.service.state.quiescenceBlocked] at hx hy
        split_ifs at hx hy <;> rw [← Option.some.inj hx, ← Option.some.inj hy]
        · exact h.silent
        · exact h.release.answer (by rwa [release_connections]) .reading (hreply _)
        · exact Similar.silent (Similar.setPhase (h.withRecovery _) hc (hphase .recovering))
      | adminTimeout =>
        rw [← Option.some.inj hx, ← Option.some.inj hy]
        exact h.release.answer (by rwa [release_connections]) .reading (hreply _)
      | _ => cases hx
    · cases hx
  | recovering =>
    obtain rfl : st' = .recovering := by cases st' <;> first | rfl | cases hst
    rcases hij with rfl | ⟨w, w', rfl, -⟩
    · cases i with
      | adminTimeout =>
        rw [← Option.some.inj hx, ← Option.some.inj hy]
        exact h.answer hc .reading (hreply _)
      | _ => cases hx
    · cases hx
  | recovered o =>
    obtain ⟨o', rfl⟩ : ∃ o', st' = .recovered o' := by
      cases st' <;> first | exact ⟨_, rfl⟩ | cases hst
    rcases hij with rfl | ⟨w, w', rfl, -⟩
    · cases i with
      | adminTimeout =>
        rw [← Option.some.inj hx, ← Option.some.inj hy]
        exact h.answer hc .reading (hreply _)
      | conclude =>
        -- the outcomes of a foreign call agree on success only
        have hok : (quiesceResult o).isOk = (quiesceResult o').isOk := by
          rw [quiesceResult_isOk o, Quiesce.recovered.inj hst, ← quiesceResult_isOk]
        have hresult : peer = P → id = id' ∧ quiesceResult o = quiesceResult o' := fun hp =>
          ⟨(hown hp).2, by rw [Quiesce.recovered.inj (hown hp).1]⟩
        simp only [System.quiesce] at hx hy
        revert hx hy hok hresult
        rcases quiesceResult o with e | payload <;> rcases quiesceResult o' with e' | payload' <;>
          intro hx hy hok hresult
        · rw [← Option.some.inj hx, ← Option.some.inj hy]
          exact h.answer hc .reading hresult
        · cases hok
        · cases hok
        · rw [← Option.some.inj hx, ← Option.some.inj hy]
          exact Similar.answer (h.withService h.service.unblock) hc .reading hresult
      | _ => cases hx
    · cases hx

/-- What only a call of `quiesce` handles. -/
theorem Similar.quiescing (h : s.Similar P t) (hs : s.service.state.Coherent)
    {i j : Input Peer Handoff}
    (hij : (i = j ∧ i ∈ [.lock c, .lockTimeout c, .inspect c, .adminTimeout c, .conclude c]) ∨
      ∃ w w', i = .teardown c w ∧ j = .teardown c w' ∧ (s.Holds P → w = w'))
    (hx : s.connection setup c i = some x) (hy : t.connection setup c j = some y) :
    Alike P x y := by
  have hij' : i = j ∨ ∃ w w', i = .teardown c w ∧ j = .teardown c w' ∧ (s.Holds P → w = w') :=
    hij.imp_left And.left
  unfold System.connection at hx hy
  rcases hc : s.connections[c]? with _ | ⟨peer, phase⟩
  · simp only [hc, reduceCtorEq] at hx
  obtain ⟨phase', hc', hph⟩ := h.connection hc
  rw [hc] at hx
  rw [hc'] at hy
  cases hph with
  | quiescing st st' id id' hst hown =>
    have hx' : s.quiesce c peer id st i = some x := by cases st <;> exact hx
    have hy' : t.quiesce c peer id' st' j = some y := by cases st' <;> exact hy
    exact h.quiesce hs hc hst hown hij' hx' hy'
  | requested _ r =>
    obtain ⟨id, method⟩ := r
    simp only [List.mem_cons, List.not_mem_nil, or_false] at hij
    rcases hij with ⟨-, rfl | rfl | rfl | rfl | rfl⟩ | ⟨w, w', rfl, -⟩ <;> cases method <;> cases hx
  | reading | following | received | returned | closed =>
    simp only [List.mem_cons, List.not_mem_nil, or_false] at hij
    rcases hij with ⟨-, rfl | rfl | rfl | rfl | rfl⟩ | ⟨w, w', rfl, -⟩ <;> cases hx

omit [DecidableEq Peer] in
theorem receive_similar {es fs : List (Option Peer × Event)} {cursor : ℕ}
    (h : List.Forall₂ (ItemSimilar P) es fs) {a b : ℕ × Option (Option Peer × Event)}
    (ha : System.receive es cursor = some a) (hb : System.receive fs cursor = some b) :
    a.1 = b.1 ∧ Option.Rel (ItemSimilar P) a.2 b.2 := by
  have hlen := h.length_eq
  have hitem := forall₂_getElem? h cursor
  unfold System.receive at ha hb
  rw [← hlen] at hb
  split_ifs at ha hb with hlag
  · rw [← Option.some.inj ha, ← Option.some.inj hb]
    exact ⟨rfl, .none⟩
  · obtain ⟨e, he, rfl⟩ := Option.map_eq_some_iff.1 ha
    obtain ⟨f, hf, rfl⟩ := Option.map_eq_some_iff.1 hb
    rw [he, hf] at hitem
    exact ⟨rfl, hitem⟩

theorem Similar.receive (h : s.Similar P t) (hx : s.connection setup c (.receive c) = some x)
    (hy : t.connection setup c (.receive c) = some y) : Alike P x y := by
  unfold System.connection at hx hy
  rcases hc : s.connections[c]? with _ | ⟨peer, phase⟩
  · simp only [hc, reduceCtorEq] at hx
  obtain ⟨phase', hc', hph⟩ := h.connection hc
  rw [hc] at hx
  rw [hc'] at hy
  cases hph with
  | following cursor logStream =>
    obtain ⟨⟨cursor₁, item₁⟩, h₁, rfl⟩ := Option.map_eq_some_iff.1 hx
    obtain ⟨⟨cursor₂, item₂⟩, h₂, rfl⟩ := Option.map_eq_some_iff.1 hy
    obtain ⟨hcursor, hitem⟩ := receive_similar h.service.events h₁ h₂
    obtain rfl : cursor₁ = cursor₂ := hcursor
    exact (h.setPhase hc (.received _ _ _ _ hitem)).silent
  | requested _ r =>
    obtain ⟨id, method⟩ := r
    cases method <;> cases hx
  | quiescing st => cases st <;> cases hx
  | reading | received | returned | closed => cases hx

/-- A received item is handed on alike. -/
theorem deliverable_similar {v u : Service Peer} (h : v.Similar P u) (hv : v.state.Coherent)
    (peer : Peer) (logStream : Bool) {item item' : Option (Option Peer × Event)}
    (hitem : Option.Rel (ItemSimilar P) item item') :
    (∃ e, deliverable v peer logStream item = .error e ∧
        deliverable u peer logStream item' = .error e) ∨
      ∃ e e', deliverable v peer logStream item = .ok e ∧
        deliverable u peer logStream item' = .ok e' ∧ (peer = P → e = e') := by
  have hauth := h.state.authorize peer
  cases hitem with
  | @some a b hab =>
    obtain ⟨owner, event⟩ := a
    obtain ⟨owner', event'⟩ := b
    obtain ⟨ho, hown⟩ := hab
    obtain rfl : owner = owner' := ho
    simp only [deliverable, ← hauth]
    rcases v.state.authorize peer with e | _
    · exact .inl ⟨e, rfl, rfl⟩
    by_cases hany : owner.any (· ≠ peer) = true
    · simp only [hany, if_true]
      exact .inl ⟨_, rfl, rfl⟩
    · simp only [hany]
      refine .inr ⟨_, _, rfl, rfl, fun hp => ?_⟩
      have hcon : Concerns P owner := fun q hq => by
        rw [hq, Option.any_some, decide_eq_true_eq, not_not] at hany
        exact hany.trans hp
      exact (Prod.mk.inj (hown hcon)).2
  | none =>
    unfold deliverable
    cases logStream with
    | true => exact .inl ⟨_, rfl, rfl⟩
    | false =>
      simp only [← hauth, Bool.false_eq_true, if_false]
      rcases ha : v.state.authorize peer with e | _
      · exact .inl ⟨e, rfl, rfl⟩
      refine .inr ⟨_, _, rfl, rfl, fun hp => ?_⟩
      subst hp
      rw [h.state.instanceId, h.state.sequence, h.state.visible hv ha]

theorem Similar.deliver (h : s.Similar P t) (hs : s.service.state.Coherent)
    (hx : s.connection setup c (.deliver c) = some x)
    (hy : t.connection setup c (.deliver c) = some y) : Alike P x y := by
  unfold System.connection at hx hy
  rcases hc : s.connections[c]? with _ | ⟨peer, phase⟩
  · simp only [hc, reduceCtorEq] at hx
  obtain ⟨phase', hc', hph⟩ := h.connection hc
  rw [hc] at hx
  rw [hc'] at hy
  cases hph with
  | received cursor logStream item item' hitem =>
    simp only at hx hy
    rcases deliverable_similar h.service hs peer logStream hitem with
      ⟨e, he, he'⟩ | ⟨e, e', he, he', heq⟩
    · rw [he] at hx
      rw [he'] at hy
      rw [← Option.some.inj hx, ← Option.some.inj hy]
      exact (h.setPhase hc .returned).silent
    · rw [he] at hx
      rw [he'] at hy
      rw [← Option.some.inj hx, ← Option.some.inj hy]
      exact ⟨h.setPhase hc (.following _ _), observe_single fun hp => by rw [heq hp]⟩
  | requested _ r =>
    obtain ⟨id, method⟩ := r
    cases method <;> cases hx
  | quiescing st => cases st <;> cases hx
  | reading | following | returned | closed => cases hx

theorem Similar.hangUp (h : s.Similar P t) (hx : s.connection setup c (.hangUp c) = some x)
    (hy : t.connection setup c (.hangUp c) = some y) : Alike P x y := by
  unfold System.connection at hx hy
  rcases hc : s.connections[c]? with _ | ⟨peer, phase⟩
  · simp only [hc, reduceCtorEq] at hx
  obtain ⟨phase', hc', hph⟩ := h.connection hc
  rw [hc] at hx
  rw [hc'] at hy
  cases hph with
  | reading | following | received =>
    rw [← Option.some.inj hx, ← Option.some.inj hy]
    exact (h.setPhase hc .returned).silent
  | requested _ r =>
    obtain ⟨id, method⟩ := r
    cases method <;> cases hx
  | quiescing st => cases st <;> cases hx
  | returned | closed => cases hx

omit [DecidableEq Peer] in
theorem cleanup_similar {v u : Service Peer} {w w' : ℤ} (h : v.Similar P u)
    (hv : v.state.Coherent)
    (hw : ∀ slot, v.state.slot = some slot → slot.owner = P → w = w') :
    (System.cleanup v c w).Similar P (System.cleanup u c w') := by
  have hany : v.state.slot.any (·.connection = c) = u.state.slot.any (·.connection = c) := by
    rcases h.state.slot_cases with ⟨hv0, hu0⟩ | ⟨a, b, ha, hb, -, hconn, -⟩
    · rw [hv0, hu0]
    · rw [ha, hb, Option.any_some, Option.any_some, hconn]
  unfold System.cleanup
  rw [← hany, ← h.state.early_eq]
  split_ifs
  · exact h.cancel hv hw
  · exact h

theorem Similar.cleanup (h : s.Similar P t) (hs : s.service.state.Coherent) {w w' : ℤ}
    (hw : s.Holds P → w = w') (hx : s.connection setup c (.cleanup c w) = some x)
    (hy : t.connection setup c (.cleanup c w') = some y) : Alike P x y := by
  unfold System.connection at hx hy
  rcases hc : s.connections[c]? with _ | ⟨peer, phase⟩
  · simp only [hc, reduceCtorEq] at hx
  obtain ⟨phase', hc', hph⟩ := h.connection hc
  rw [hc] at hx
  rw [hc'] at hy
  cases hph with
  | returned =>
    rw [← Option.some.inj hx, ← Option.some.inj hy]
    have hservice := cleanup_similar (c := c) h.service hs fun slot hslot ho => hw ⟨slot, hslot, ho⟩
    exact Similar.silent (Similar.setPhase (h.withService hservice) hc .closed)
  | requested _ r =>
    obtain ⟨id, method⟩ := r
    cases method <;> cases hx
  | quiescing st => cases st <;> cases hx
  | reading | following | received | closed => cases hx

omit [DecidableEq Peer] in
theorem Similar.adminRecovered (h : s.Similar P t) {o o' : RecoveryOutcome} (ho : o.mask = o'.mask)
    (hown : ∀ c, s.recovery = some (.task c) → s.Owns P c → o = o') {s' t' : System Peer Handoff}
    (hx : s.adminRecovered o = some s') (hy : t.adminRecovered o' = some t') :
    s'.Similar P t' := by
  unfold System.adminRecovered at hx hy
  rw [← h.recovery] at hy
  rcases hr : s.recovery with _ | _ | c
  · simp only [hr, reduceCtorEq] at hx
  · simp only [hr, reduceCtorEq] at hx
  rw [hr] at hx hy
  simp only at hx hy
  have hnone : s.connections[c]? = none → t.connections[c]? = none := fun hc => by
    rw [List.getElem?_eq_none_iff] at hc ⊢
    rwa [← h.connections.length_eq]
  rcases hc : s.connections[c]? with _ | ⟨peer, phase⟩
  · rw [hc] at hx
    rw [hnone hc] at hy
    rw [← Option.some.inj hx, ← Option.some.inj hy]
    exact h.withRecovery none
  obtain ⟨phase', hc', hph⟩ := h.connection hc
  rw [hc] at hx
  rw [hc'] at hy
  cases hph with
  | quiescing st st' id id' hst hown' =>
    cases st with
    | recovering =>
      obtain rfl : st' = .recovering := by cases st' <;> first | rfl | cases hst
      rw [← Option.some.inj hx, ← Option.some.inj hy]
      refine Similar.setPhase (h.withRecovery none) hc (.quiescing _ _ _ _ ?_ fun hp => ?_)
      · exact congrArg Quiesce.recovered ho
      · rw [hown c hr (owns_of hc hp)]
        exact ⟨rfl, (hown' hp).2⟩
    | locking | locked | waiting | recovered =>
      cases st' <;> try cases hst
      all_goals
        rw [← Option.some.inj hx, ← Option.some.inj hy]
        exact h.withRecovery none
  | reading | requested | following | received | returned | closed =>
    rw [← Option.some.inj hx, ← Option.some.inj hy]
    exact h.withRecovery none

/-! ### Attempts in lockstep -/

omit [DecidableEq Peer] in
theorem Similar.withAttempt (h : s.Similar P t) {k : ℕ} {v u : Service Peer} {a b : Attempt Peer}
    (hv : v.Similar P u) (hab : a.Similar P b) :
    ({ s with service := v, attempts := s.attempts.set k a } : System Peer Handoff).Similar P
      { t with service := u, attempts := t.attempts.set k b } :=
  ⟨hv, h.clock, h.connections, forall₂_set h.attempts k hab, h.recovery, h.main⟩

omit [DecidableEq Peer] in
theorem Similar.supervise (h : s.Similar P t) {k : ℕ} {e e' : SupervisorEvent}
    (he : e.mask needsRecovery = e'.mask needsRecovery) (hown : s.Started P k → e = e')
    {s' t' : System Peer Handoff} (hx : s.attempt k (.supervise k e) = some s')
    (hy : t.attempt k (.supervise k e') = some t') : s'.Similar P t' := by
  unfold System.attempt at hx hy
  rcases ha : s.attempts[k]? with _ | a
  · simp only [ha, reduceCtorEq] at hx
  obtain ⟨b, hb, hab⟩ := h.attempt ha
  rw [ha] at hx
  rw [hb] at hy
  simp only at hx hy
  split_ifs at hx
  split_ifs at hy
  obtain ⟨⟨p, sent⟩, hp, rfl⟩ := Option.map_eq_some_iff.1 hx
  obtain ⟨⟨q, sent'⟩, hq, rfl⟩ := Option.map_eq_some_iff.1 hy
  have hmask : Supervisor.maskStep (p, sent) = Supervisor.maskStep (q, sent') := by
    have hstep := (a.supervisor.mask_step e).symm
    rw [hab.supervisor, he, Supervisor.mask_step, hp, hq] at hstep
    exact Option.some.inj hstep
  obtain ⟨hsup, hsent⟩ := Prod.mk.inj hmask
  refine h.withAttempt h.service ⟨hab.owner, hab.watch, hsup, ?_, fun ho => ?_⟩
  · rw [List.map_append, List.map_append, hab.updates, hsent]
  · obtain rfl := hab.own ho
    obtain rfl := hown ⟨a, ha, ho⟩
    rw [hp] at hq
    obtain ⟨rfl, rfl⟩ := Prod.mk.inj (Option.some.inj hq)
    rfl

omit [DecidableEq Peer] in
/-- A session that concerns `P` while an attempt holds the slot is served by an attempt of `P`. -/
theorem Inv.started_of_concerns (hs : s.Inv) {k : ℕ} {a : Attempt Peer}
    (ha : s.attempts[k]? = some a) (hun : a.Unresolved)
    (hc : Concerns P s.service.state.lastOwner) : s.Started P k := by
  obtain ⟨slot, hslot, hcancel⟩ := hs.core.unresolved k a ha hun
  obtain ⟨b, hb, -, ho, -⟩ := hs.core.started slot k hslot hcancel
  exact ⟨b, hb, ho.trans (hc _ (hs.coherent.owner slot hslot).1)⟩

omit [DecidableEq Peer] in
theorem Similar.update (h : s.Similar P t) (hs : s.Inv) (ht : t.Inv) {k : ℕ}
    {session session' : Uuid} {w w' : ℤ} (hown : s.Started P k → session = session' ∧ w = w')
    {s' t' : System Peer Handoff} (hx : s.attempt k (.update k session w) = some s')
    (hy : t.attempt k (.update k session' w') = some t') : s'.Similar P t' := by
  unfold System.attempt at hx hy
  rcases ha : s.attempts[k]? with _ | a
  · simp only [ha, reduceCtorEq] at hx
  obtain ⟨b, hb, hab⟩ := h.attempt ha
  rw [ha] at hx
  rw [hb] at hy
  simp only at hx hy
  have hupdates := hab.updates
  rcases hw : a.watch with _ | _ | _
  · have hwb := hab.watch.symm.trans hw
    rcases hu : a.updates with _ | ⟨x, rest⟩
    · simp only [hw, hu, reduceCtorEq] at hx
    rcases hub : b.updates with _ | ⟨y, rest'⟩
    · simp only [hwb, hub, reduceCtorEq] at hy
    -- an attempt whose update task still receives holds the slot
    have hholds := (hs.core.holds_iff_unresolved ha).2 (.inl hw)
    have hholds' := (ht.core.holds_iff_unresolved hb).2 (.inl hwb)
    simp only [hw, hu, hholds, if_true, Option.some.injEq] at hx
    simp only [hwb, hub, hholds', if_true, Option.some.injEq] at hy
    rw [hu, hub, List.map_cons, List.map_cons, List.cons.injEq] at hupdates
    obtain ⟨hxy, hrest⟩ := hupdates
    have hfin : x.isFinished = y.isFinished := by
      rw [← Update.mask_isFinished needsRecovery x, hxy, Update.mask_isFinished]
    have heq : a.owner = P → a = b ∧ x = y ∧ rest = rest' := fun ho => by
      obtain rfl := hab.own ho
      rw [hu] at hub
      obtain ⟨rfl, rfl⟩ := List.cons.inj hub
      exact ⟨rfl, rfl, rfl⟩
    subst hx hy
    refine h.withAttempt (h.service.update hxy fun hc => ?_)
      ⟨hab.owner, by rw [hfin], hab.supervisor, hrest, fun ho => ?_⟩
    · have hstarted := hs.started_of_concerns ha (.inl hw) hc
      obtain ⟨a', ha', ho⟩ := hstarted
      rw [ha] at ha'
      obtain rfl := Option.some.inj ha'
      exact ⟨(heq ho).2.1, hown ⟨a, ha, ho⟩⟩
    · obtain ⟨rfl, rfl, rfl⟩ := heq ho
      rfl
  · simp only [hw, reduceCtorEq] at hx
  · simp only [hw, reduceCtorEq] at hx

omit [DecidableEq Peer] in
theorem Similar.drained (h : s.Similar P t) {k : ℕ} {s' t' : System Peer Handoff}
    (hx : s.attempt k (.drained k) = some s') (hy : t.attempt k (.drained k) = some t') :
    s'.Similar P t' := by
  unfold System.attempt at hx hy
  rcases ha : s.attempts[k]? with _ | a
  · simp only [ha, reduceCtorEq] at hx
  obtain ⟨b, hb, hab⟩ := h.attempt ha
  rw [ha] at hx
  rw [hb] at hy
  simp only at hx hy
  split_ifs at hx
  split_ifs at hy
  rw [← Option.some.inj hx, ← Option.some.inj hy]
  exact h.withAttempt h.service ⟨hab.owner, rfl, hab.supervisor, hab.updates, fun ho => by
    rw [hab.own ho]⟩

theorem crashed_iff_of_mask {p q : Supervisor}
    (h : p.mask needsRecovery = q.mask needsRecovery) : p.stage = .crashed ↔ q.stage = .crashed := by
  have hmask : ∀ st : Stage, st.mask needsRecovery = .crashed ↔ st = .crashed := fun st => by
    cases st <;> simp [Stage.mask]
  have hst : p.stage.mask needsRecovery = q.stage.mask needsRecovery := (Supervisor.mk.inj h).1
  rw [← hmask, hst, hmask]

omit [DecidableEq Peer] in
theorem Similar.join (h : s.Similar P t) (hs : s.Inv) (ht : t.Inv) {k : ℕ} {w w' : ℤ}
    (hown : s.Started P k → w = w') {s' t' : System Peer Handoff}
    (hx : s.attempt k (.join k w) = some s') (hy : t.attempt k (.join k w') = some t') :
    s'.Similar P t' := by
  unfold System.attempt at hx hy
  rcases ha : s.attempts[k]? with _ | a
  · simp only [ha, reduceCtorEq] at hx
  obtain ⟨b, hb, hab⟩ := h.attempt ha
  rw [ha] at hx
  rw [hb] at hy
  simp only at hx hy
  have hun : a.Unresolved ↔ b.Unresolved := by
    simp only [Attempt.Unresolved, hab.watch, crashed_iff_of_mask hab.supervisor]
  have hholds : s.service.holds a.id = t.service.holds b.id := by
    rw [Bool.eq_iff_iff, hs.core.holds_iff_unresolved ha, hun, ht.core.holds_iff_unresolved hb]
  rw [← hholds] at hy
  have hdone : ({ a with watch := .done } : Attempt Peer).Similar P { b with watch := .done } :=
    ⟨hab.owner, rfl, hab.supervisor, hab.updates, fun ho => by rw [hab.own ho]⟩
  by_cases hh : s.service.holds a.id = true
  · rw [if_pos hh] at hx hy
    split_ifs at hx
    split_ifs at hy
    rw [← Option.some.inj hx, ← Option.some.inj hy]
    refine h.withAttempt (h.service.supervisorFailed fun hc => hown ?_) hdone
    exact hs.started_of_concerns ha ((hs.core.holds_iff_unresolved ha).1 hh) hc
  · rw [if_neg hh] at hx hy
    split_ifs at hx
    split_ifs at hy
    rw [← Option.some.inj hx, ← Option.some.inj hy]
    exact h.withAttempt h.service hdone

/-! ### Every step -/

omit [DecidableEq Peer] in
theorem Similar.leaseExpired (h : s.Similar P t) : s.leaseExpired = t.leaseExpired := by
  unfold System.leaseExpired
  rw [← h.clock]
  rcases h.service.state.slot_cases with ⟨hs, ht⟩ | ⟨a, b, ha, hb, -, -, hlease, hcancel⟩
  · rw [hs, ht]
  · rw [ha, hb, Option.any_some, Option.any_some, hlease, hcancel]

/-- Inputs that agree keep similar states similar and show `P` the same. -/
theorem Similar.step (h : s.Similar P t) (hs : s.Inv) (ht : t.Inv) {i j : Input Peer Handoff}
    (hx : System.step setup s i = some x) (hy : System.step setup t j = some y)
    (hag : Agree needsRecovery P s i j) (hout : SameOutcome x.2 y.2) : Alike P x y := by
  unfold System.step at hx hy
  -- both services run, or neither does
  by_cases hmain : s.main = .exited
  · rw [if_pos hmain] at hx
    cases hx
  rw [if_neg hmain] at hx
  rw [if_neg (h.main ▸ hmain)] at hy
  cases hag with
  | pass seconds =>
    rw [← Option.some.inj hx, ← Option.some.inj hy]
    exact Similar.silent ⟨h.service, congrArg (· + seconds) h.clock, h.connections, h.attempts,
      h.recovery, h.main⟩
  | accept peer =>
    obtain ⟨s', hs', rfl⟩ := Option.map_eq_some_iff.1 hx
    obtain ⟨t', ht', rfl⟩ := Option.map_eq_some_iff.1 hy
    unfold System.accept at hs' ht'
    split_ifs at hs'
    split_ifs at ht'
    rw [← Option.some.inj hs', ← Option.some.inj ht']
    exact Similar.silent ⟨h.service, h.clock,
      List.rel_append h.connections (.cons ⟨rfl, .reading⟩ .nil), h.attempts, h.recovery, h.main⟩
  | read c r r' hkind hown => exact h.read hkind hown hx hy
  | dispatch c fresh fresh' wall wall' hown => exact h.dispatch hs.coherent hown hx hy hout
  | admin c verified verified' hown => exact h.admin hown hx hy hout
  | lock c => exact h.quiescing hs.coherent (.inl ⟨rfl, by simp⟩) hx hy
  | lockTimeout c => exact h.quiescing hs.coherent (.inl ⟨rfl, by simp⟩) hx hy
  | teardown c w w' hw => exact h.quiescing hs.coherent (.inr ⟨w, w', rfl, rfl, hw⟩) hx hy
  | inspect c => exact h.quiescing hs.coherent (.inl ⟨rfl, by simp⟩) hx hy
  | adminTimeout c => exact h.quiescing hs.coherent (.inl ⟨rfl, by simp⟩) hx hy
  | conclude c => exact h.quiescing hs.coherent (.inl ⟨rfl, by simp⟩) hx hy
  | receive c => exact h.receive hx hy
  | deliver c => exact h.deliver hs.coherent hx hy
  | hangUp c => exact h.hangUp hx hy
  | cleanup c w w' hw => exact h.cleanup hs.coherent hw hx hy
  | adminRecovered o o' ho hown =>
    obtain ⟨s', hs', rfl⟩ := Option.map_eq_some_iff.1 hx
    obtain ⟨t', ht', rfl⟩ := Option.map_eq_some_iff.1 hy
    exact (h.adminRecovered ho hown hs' ht').silent
  | supervise k e e' he hown =>
    obtain ⟨s', hs', rfl⟩ := Option.map_eq_some_iff.1 hx
    obtain ⟨t', ht', rfl⟩ := Option.map_eq_some_iff.1 hy
    exact (h.supervise he hown hs' ht').silent
  | update k session session' w w' hown =>
    obtain ⟨s', hs', rfl⟩ := Option.map_eq_some_iff.1 hx
    obtain ⟨t', ht', rfl⟩ := Option.map_eq_some_iff.1 hy
    exact (h.update hs ht hown hs' ht').silent
  | drained k =>
    obtain ⟨s', hs', rfl⟩ := Option.map_eq_some_iff.1 hx
    obtain ⟨t', ht', rfl⟩ := Option.map_eq_some_iff.1 hy
    exact (h.drained hs' ht').silent
  | join k w w' hown =>
    obtain ⟨s', hs', rfl⟩ := Option.map_eq_some_iff.1 hx
    obtain ⟨t', ht', rfl⟩ := Option.map_eq_some_iff.1 hy
    exact (h.join hs ht hown hs' ht').silent
  | leaseTick w w' hw =>
    simp only [← h.leaseExpired] at hx hy
    split_ifs at hx hy
    · rw [← Option.some.inj hx, ← Option.some.inj hy]
      exact Similar.silent (h.withService (h.service.cancel hs.coherent
        fun slot hslot ho => hw ⟨slot, hslot, ho⟩))
    · rw [← Option.some.inj hx, ← Option.some.inj hy]
      exact h.silent
  | stop w w' hw =>
    simp only at hx hy
    split_ifs at hx
    split_ifs at hy
    rw [← Option.some.inj hx, ← Option.some.inj hy]
    have hstop := h.service.stop hs.coherent fun slot hslot ho => hw ⟨slot, hslot, ho⟩
    exact Similar.silent ⟨hstop, h.clock, h.connections, h.attempts, h.recovery, rfl⟩
  | exit =>
    simp only at hx hy
    split_ifs at hx
    split_ifs at hy
    rw [← Option.some.inj hx, ← Option.some.inj hy]
    refine Similar.silent ⟨h.service, h.clock, ?_, h.attempts, h.recovery, rfl⟩
    exact List.forall₂_map_left_iff.2 (List.forall₂_map_right_iff.2
      (h.connections.imp fun a b hab => ⟨hab.peer, .closed⟩))

end Lockstep

/-! ### Runs -/

section Runs

theorem Similar.start (P : Peer) (instanceId : Uuid) (recoveryError : Option Error) :
    (System.start instanceId recoveryError : System Peer Handoff).Similar P
      (System.start instanceId recoveryError) where
  service := ⟨⟨rfl, rfl, rfl, rfl, rfl, rfl, rfl, rfl, fun _ => ⟨rfl, rfl, rfl⟩⟩, .nil, rfl⟩
  clock := rfl
  connections := .nil
  attempts := .nil
  recovery := rfl
  main := rfl

variable [DecidableEq Peer]

/-- While another peer owns the slot, a request that is not administrative is refused and changes
nothing of the daemon. -/
theorem dispatchRequest_foreign (setup : Service.Setup Peer Handoff) {s : System Peer Handoff}
    {P : Peer} {slot : Slot Peer} (hslot : s.service.state.slot = some slot)
    (ho : slot.owner ≠ P) (c cursor : ℕ) (request : Request Handoff) (fresh : Uuid) (wall : ℤ) :
    s.dispatchRequest setup c cursor P request fresh wall =
      s.answer c P request.requestId (.error busy) .reading := by
  have hauth : s.service.state.authorize P = .error busy := by
    simp [Session.authorize, hslot, ho]
  simp [dispatchRequest, Daemon.dispatch, hauth, afterResponse]

/-- Two runs from one initial state that agree on everything but the private data of sessions of
peers other than `P`; of an error of such a session they keep `κ`. -/
def Twins (setup : Service.Setup Peer Handoff) (κ : Error → Bool) (P : Peer)
    (os ps : List (Output Peer)) : Prop :=
  ∃ s₀, (machine Peer setup).init s₀ ∧
    (machine Peer setup).Lockstep (fun s _ => Agree κ P s) SameOutcome s₀ s₀ os ps

/-- **Sessions do not leak.**  Two runs that differ only in the private data of sessions of peers
other than `P`, up to whether their errors ask for network recovery, show `P` the same messages;
and while another peer owns the slot, a dispatched request of `P` leaves everything but its own
connection as it was. -/
theorem sessions_isolated (setup : Service.Setup Peer Handoff) (P : Peer) :
    (∀ os ps, Twins setup needsRecovery P os ps →
      os.filterMap (observe P) = ps.filterMap (observe P)) ∧
    ∀ (s s' : System Peer Handoff) slot c fresh wall out, s.service.state.slot = some slot →
      slot.owner ≠ P → s.Owns P c →
      System.step setup s (.dispatch c fresh wall) = some (s', out) →
      ∃ requestId, (s', out) = s.answer c P requestId (.error busy) .reading := by
  constructor
  · rintro os ps ⟨s₀, ⟨id, e, rfl⟩, hrun⟩
    refine hrun.observe (fun s t => s.Similar P t ∧ s.Inv ∧ t.Inv) (observe P) ?_
      ⟨.start P id e, .initial id e, .initial id e⟩
    rintro s t i j s' t' o p ⟨h, hs, ht⟩ hx hy hag hout
    obtain ⟨hsim, hobs⟩ := h.step hs ht hx hy hag hout
    exact ⟨⟨hsim, hs.step hx, ht.step hy⟩, hobs⟩
  · rintro s s' slot c fresh wall out hslot ho ⟨⟨peer, phase⟩, hc, rfl⟩ hst
    have hmain : s.main ≠ .exited := fun hm => by
      rw [step, if_pos hm] at hst
      cases hst
    rw [step, if_neg hmain] at hst
    unfold connection at hst
    rw [hc] at hst
    cases phase with
    | requested cursor request =>
      simp only at hst
      split_ifs at hst
      rw [← Option.some.inj hst, dispatchRequest_foreign setup hslot ho]
      exact ⟨_, rfl⟩
    | quiescing stage => cases stage <;> cases hst
    | reading | following | received | returned | closed => cases hst

/-- Peer 7 reserves one of two profiles, then peer 9 asks for a snapshot. -/
theorem twins_profile : Twins sampleSetup needsRecovery 9
    [⟨0, 7, .response ⟨1, .ok (.reserved 3)⟩⟩, ⟨1, 9, .response ⟨5, .error busy⟩⟩]
    [⟨0, 7, .response ⟨2, .ok (.reserved 4)⟩⟩, ⟨1, 9, .response ⟨5, .error busy⟩⟩] := by
  have foreign : ∀ {s : System ℕ String} {P : Prop}, s.connections[0]?.any (·.peer = 7) →
      s.Owns 9 0 → P := by
    rintro s P h ⟨conn, hconn, hpeer⟩
    simp [hconn, hpeer] at h
  refine ⟨start 1 none, ⟨1, none, rfl⟩, ?_⟩
  suffices h : ∃ os ps, (machine ℕ sampleSetup).Lockstep (fun s _ => Agree needsRecovery 9 s)
      SameOutcome (start 1 none) (start 1 none) os ps ∧
      os = [⟨0, 7, .response ⟨1, .ok (.reserved 3)⟩⟩, ⟨1, 9, .response ⟨5, .error busy⟩⟩] ∧
      ps = [⟨0, 7, .response ⟨2, .ok (.reserved 4)⟩⟩, ⟨1, 9, .response ⟨5, .error busy⟩⟩] by
    obtain ⟨_, _, h, rfl, rfl⟩ := h
    exact h
  refine ⟨_, _, .cons (i := .accept 7) (j := .accept 7) rfl rfl (.refl _) (by rfl) <|
    .cons (i := .accept 9) (j := .accept 9) rfl rfl (.refl _) (by rfl) <|
    .cons (i := .read 0 ⟨1, .reserve 2 "work" "anyconnect"⟩)
      (j := .read 0 ⟨2, .reserve 3 "home" "anyconnect"⟩) rfl rfl
      (.read _ _ _ (by rfl) (foreign (by rfl))) (by rfl) <|
    .cons (i := .dispatch 0 3 100) (j := .dispatch 0 4 200) rfl rfl
      (.dispatch _ _ _ _ _ (foreign (by rfl))) (by rfl) <|
    .cons (i := .read 1 ⟨5, .snapshot⟩) (j := .read 1 ⟨5, .snapshot⟩) rfl rfl (.refl _)
      (by rfl) <|
    .cons (i := .dispatch 1 6 300) (j := .dispatch 1 6 300) rfl rfl (.refl _) (by rfl) <|
    .nil _ _, by decide, by decide⟩

/-- What peer 9 reads in the first pair of runs. -/
theorem sessions_isolated_profile :
    ([⟨0, 7, .response ⟨1, .ok (.reserved 3)⟩⟩, ⟨1, 9, .response ⟨5, .error busy⟩⟩] :
      List (Output ℕ)).filterMap (observe 9) =
    ([⟨0, 7, .response ⟨2, .ok (.reserved 4)⟩⟩, ⟨1, 9, .response ⟨5, .error busy⟩⟩] :
      List (Output ℕ)).filterMap (observe 9) :=
  (sessions_isolated sampleSetup 9).1 _ _ twins_profile

/-- The answer to peer 9, whose reservation has no profile, after an attempt of peer 7 failed. -/
def refusal (e : Error) : List (Output ℕ) :=
  [⟨0, 7, .response ⟨1, .ok (.reserved 3)⟩⟩, ⟨0, 7, .response ⟨4, .ok .accepted⟩⟩,
    ⟨1, 9, .response ⟨7, .error e⟩⟩]

/-- Two failures of peer 7's attempt, one of which asks for network recovery. -/
theorem twins_failure : Twins sampleSetup (fun _ => false) 9
    (refusal (.new .recoveryRequired "Repair pending network recovery before connecting"))
    (refusal (.invalid "Invalid reservation profile")) := by
  have foreign : ∀ {s : System ℕ String} {P : Prop}, s.attempts[0]?.any (·.owner = 7) →
      s.Started 9 0 → P := by
    rintro s P h ⟨a, ha, howner⟩
    simp [ha, howner] at h
  refine ⟨start 1 none, ⟨1, none, rfl⟩, ?_⟩
  suffices h : ∃ os ps, (machine ℕ sampleSetup).Lockstep (fun s _ => Agree (fun _ => false) 9 s)
      SameOutcome (start 1 none) (start 1 none) os ps ∧
      os = refusal (.new .recoveryRequired "Repair pending network recovery before connecting") ∧
      ps = refusal (.invalid "Invalid reservation profile") by
    obtain ⟨_, _, h, rfl, rfl⟩ := h
    exact h
  refine ⟨_, _, .cons (i := .accept 7) (j := .accept 7) rfl rfl (.refl _) (by rfl) <|
    .cons (i := .read 0 ⟨1, .reserve 2 "work" "anyconnect"⟩)
      (j := .read 0 ⟨1, .reserve 2 "work" "anyconnect"⟩) rfl rfl (.refl _) (by rfl) <|
    .cons (i := .dispatch 0 3 100) (j := .dispatch 0 3 100) rfl rfl (.refl _) (by rfl) <|
    .cons (i := .read 0 ⟨4, .start 3 "anyconnect"⟩) (j := .read 0 ⟨4, .start 3 "anyconnect"⟩)
      rfl rfl (.refl _) (by rfl) <|
    .cons (i := .dispatch 0 5 101) (j := .dispatch 0 5 101) rfl rfl (.refl _) (by rfl) <|
    .cons (i := .supervise 0 (.launchFailed (.new .recoveryRequired "no engine")))
      (j := .supervise 0 (.launchFailed (.new .networkFailure "no engine"))) rfl rfl
      (.supervise _ _ _ (by rfl) (foreign (by rfl))) (by rfl) <|
    .cons (i := .supervise 0 .proceed) (j := .supervise 0 .proceed) rfl rfl (.refl _) (by rfl) <|
    .cons (i := .supervise 0 (.recoveryEnded (.warnings [])))
      (j := .supervise 0 (.recoveryEnded (.warnings []))) rfl rfl (.refl _) (by rfl) <|
    .cons (i := .supervise 0 .report) (j := .supervise 0 .report) rfl rfl (.refl _) (by rfl) <|
    .cons (i := .update 0 6 102) (j := .update 0 6 102) rfl rfl (.refl _) (by rfl) <|
    .cons (i := .accept 9) (j := .accept 9) rfl rfl (.refl _) (by rfl) <|
    .cons (i := .read 1 ⟨7, .reserve 0 "" ""⟩) (j := .read 1 ⟨7, .reserve 0 "" ""⟩) rfl rfl
      (.refl _) (by rfl) <|
    .cons (i := .dispatch 1 8 103) (j := .dispatch 1 8 103) rfl rfl (.refl _) (by rfl) <|
    .nil _ _, by decide, by decide⟩

/-- Whether an error of another peer's session asks for network recovery is observable. -/
theorem error_code_observed :
    ¬ ∀ (setup : Service.Setup ℕ String) (P : ℕ) os ps, Twins setup (fun _ => false) P os ps →
      os.filterMap (observe P) = ps.filterMap (observe P) := by
  intro h
  have hsame := h sampleSetup 9 _ _ twins_failure
  revert hsame
  decide

end Runs

end System

end Ocvpn.Daemon
