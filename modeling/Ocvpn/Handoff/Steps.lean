import Ocvpn.Auth.Steps
import Ocvpn.Handoff.Machine

/-!
# What the steps of a session do

The steps of the client, said once: those of a call (`Goes`), those of `recv_timeout` (`Receives`)
and those of the engine under the client's ears (`Hears`).

## Main results

* `goes_of_stepCaller`, `receives_of_stepRecv`, `hears_of_advance` : every step is one of them.
-/

namespace Ocvpn.Handoff

open Auth Crash Ipc Net

variable {Url : Type}

/-! ### Calls -/

/-- The call holds the lock of the prompts. -/
def Place.Locks : Place → Prop
  | .enter .. | .mark | .stop | .clear => False
  | _ => True

/-- What the save of a prompt's pin does to the document. -/
def SavesPrompt (S : PinStore) (p : CertificatePrompt) (d d' : PinsDocument) : Prop :=
  ∃ pin, certificatePin S p.host p.port p.fingerprint = .ok pin ∧ Saves S pin d d'

/-- The steps of a call. -/
inductive Goes (S : PinStore) (s : System Url) (c : ℕ) : System Url → List (Note Url) → Prop
  | lock (id : Uuid) (d : CertificateDecision) (hc : s.callers c = some (.enter id d))
      (hfree : s.holder = none) :
      Goes S s c { s.goto c (.check id d) with holder := some c } []
  | away (r : Run Unit) (id : Uuid) (d : CertificateDecision) (hc : s.callers c = some (.enter id d)) :
      Goes S s c (s.quit c) [.returned c r]
  | unlock (r : Run Unit)
      (hc : (∃ id d, s.callers c = some (.check id d)) ∨ ∃ e, s.callers c = some (.refused e)) :
      Goes S s c (s.unlock c r).1 (s.unlock c r).2
  | ask (id : Uuid) (d : CertificateDecision) (p : CertificatePrompt)
      (hc : s.callers c = some (.check id d)) (hp : s.certificates id = some p)
      (hnative : s.native.callers c = none) :
      Goes S s c ({ s with native := s.native.goto c (.enter (.certificateReply id d)) }.goto c
        (.replying id p d)) []
  | look (id : Uuid) (p : CertificatePrompt) (revision : UInt64)
      (hc : s.callers c = some (.reading id p)) : Goes S s c (s.goto c (.saving id p revision)) []
  | miss (id : Uuid) (p : CertificatePrompt) (e : Error) (file : PinsDocument)
      (hc : s.callers c = some (.reading id p) ∨ ∃ rev, s.callers c = some (.saving id p rev))
      (hfile : file = s.file ∨ SavesPrompt S p s.file file) :
      Goes S s c { s.goto c (.failing id e) with file } (s.rewritten (some p) file ++ [.saveFailed p])
  | save (id : Uuid) (p : CertificatePrompt) (rev : UInt64) (file : PinsDocument)
      (hc : s.callers c = some (.saving id p rev)) (hsaves : SavesPrompt S p s.file file) :
      Goes S s c { s.goto c (.leaving id (.ok ())) with file } [.written (some p) file]
  | fail (id : Uuid) (e : Error) (hc : s.callers c = some (.failing id e))
      (hnative : s.native.callers c = none) :
      Goes S s c { { s with native := s.native.goto c .swap }.goto c (.stopping id e) with
        cancelled := true } []
  | leave (id : Uuid) (r : Run Unit) (hc : s.callers c = some (.leaving id r)) :
      Goes S s c ({ s with certificates := Function.update s.certificates id none }.unlock c r).1
        [.returned c r]
  | mark (hc : s.callers c = some .mark) (hnative : s.native.callers c = none) :
      Goes S s c { { s with native := s.native.goto c .swap }.goto c .stop with cancelled := true } []
  | clear (certificates : Uuid → Option CertificatePrompt) (hc : s.callers c = some .clear)
      (hcert : certificates = s.certificates ∨ certificates = fun _ => none) :
      Goes S s c { s.quit c with certificates } [.returned c (.ok ())]

section Goes

variable [DecidableEq Url] {parse : String → Option Url} {S : PinStore} {s s' : System Url}
  {o : List (Note Url)} {c : ℕ}

theorem engine_call {q : Auth.Request} (h : s.engine parse (.call c q) = some s') :
    s.native.callers c = none ∧ s' = { s with native := s.native.goto c (.enter q) } := by
  simp only [System.engine, Auth.machine, Option.bind_eq_bind, Option.bind_eq_some_iff] at h
  obtain ⟨⟨a, o⟩, hstep, h⟩ := h
  split_ifs at hstep with hc
  cases hstep
  cases h
  exact ⟨hc, rfl⟩

theorem engine_cancel (h : s.engine parse (.cancel c) = some s') :
    s.native.callers c = none ∧ s' = { s with native := s.native.goto c .swap } := by
  simp only [System.engine, Auth.machine, Option.bind_eq_bind, Option.bind_eq_some_iff] at h
  obtain ⟨⟨a, o⟩, hstep, h⟩ := h
  split_ifs at hstep with hc
  cases hstep
  cases h
  exact ⟨hc, rfl⟩

/-- The save of a prompt's pin. -/
theorem save_spec (S : PinStore) (p : CertificatePrompt) (revision : UInt64) (d : PinsDocument) :
    Spec True (· = d)
      (do let pin ← ofRun (certificatePin S p.host p.port p.fingerprint)
          savePin S pin revision : PinsProg PinsDocument)
      (fun d' w => w = d' ∧ SavesPrompt S p d d')
      (fun _ w => w = d ∨ SavesPrompt S p d w) fun _ => True := by
  refine spec_ofRun_bind (fun pin hpin => ?_) (fun _ _ hw _ => .inl hw) fun _ _ _ => ⟨⟨⟩, ⟨⟩⟩
  exact (savePin_spec S pin revision d).mono (fun _ => id) (fun _ _ hw => ⟨hw.1, pin, hpin, hw.2⟩)
    (fun _ _ hw => hw.imp_right fun h => ⟨pin, hpin, h⟩) fun _ _ => trivial

/-- **The steps of a call** are those of `Goes`. -/
theorem goes_of_stepCaller {cuts : List (Cut Error)} {k : Place} (hc : s.callers c = some k)
    (h : s.stepCaller parse S c cuts k = some (s', o)) : Goes S s c s' o := by
  cases k with
  | enter id d =>
    simp only [System.stepCaller] at h
    split_ifs at h with hpoison hfree
    · cases h
      exact .away _ id d hc
    · cases h
      exact .lock id d hc hfree
  | check id d =>
    simp only [System.stepCaller] at h
    split_ifs at h
    · cases h
      exact .unlock _ (.inl ⟨id, d, hc⟩)
    · split at h
      · cases h
        exact .unlock _ (.inl ⟨id, d, hc⟩)
      · rename_i p hp
        simp only [Option.bind_eq_bind, Option.bind_eq_some_iff] at h
        obtain ⟨s₁, hengine, h⟩ := h
        cases h
        obtain ⟨hnative, rfl⟩ := engine_call hengine
        exact .ask id d p hc hp hnative
  | replying | stopping | stop => cases h
  | refused e =>
    cases h
    exact .unlock _ (.inr ⟨e, hc⟩)
  | reading id p =>
    simp only [System.stepCaller] at h
    split at h
    · cases h
      exact .look id p _ hc
    · rename_i e _ _
      cases h
      -- nothing was written, so nothing is noted but the failure
      have hmiss : Goes S s c _ _ := .miss id p e s.file (.inl hc) (.inl rfl)
      rw [System.rewritten, if_pos rfl, List.nil_append] at hmiss
      exact hmiss
    · cases h
  | saving id p revision =>
    simp only [System.stepCaller] at h
    have hspec := save_spec S p revision s.file s.file cuts (.inl trivial) rfl
    split at h
    · rename_i document t hresult
      rw [hresult] at hspec
      obtain ⟨hworld, hsaves⟩ := hspec.2
      cases h
      rw [hworld]
      exact .save id p revision document hc hsaves
    · rename_i e t hresult
      rw [hresult] at hspec
      cases h
      exact .miss id p e t.world (.inr ⟨revision, hc⟩) hspec.2
    · cases h
  | failing id e =>
    simp only [System.stepCaller, Option.bind_eq_bind, Option.bind_eq_some_iff] at h
    obtain ⟨s₁, hengine, h⟩ := h
    cases h
    obtain ⟨hnative, rfl⟩ := engine_cancel hengine
    exact .fail id e hc hnative
  | leaving id r =>
    cases h
    exact .leave id r hc
  | mark =>
    simp only [System.stepCaller, Option.bind_eq_bind, Option.bind_eq_some_iff] at h
    obtain ⟨s₁, hengine, h⟩ := h
    cases h
    obtain ⟨hnative, rfl⟩ := engine_cancel hengine
    exact .mark hc hnative
  | clear =>
    simp only [System.stepCaller] at h
    split_ifs at h
    · cases h
      exact .clear _ hc (.inr rfl)
    · cases h
      exact .clear _ hc (.inl rfl)

end Goes

/-! ### The session -/

/-- The event that `recv_timeout` has in hand. -/
def Recv.hand : Recv Url → Option (Auth.Event Url)
  | .draining e => some e
  | .rechecking e | .deciding e => e
  | .guarding => some .authenticated
  | .inserting p => some (.prompted (.certificate p))
  | _ => none

/-- The session is about to return a handoff. -/
def Recv.Releases : Recv Url → Prop
  | .deciding e => e = some .authenticated
  | .stopped r => r = .ok (some .authenticated)
  | _ => False

/-- What a step of `recv_timeout` may do. -/
structure Receives (s s' : System Url) (o : List (Note Url)) : Prop where
  callers : s'.callers = s.callers
  holder : s'.holder = s.holder
  poisoned : s'.poisoned = s.poisoned
  file : s'.file = s.file
  native : s'.native = s.native ∨
    (s.native.callers 0 = none ∧ s'.native = s.native.goto 0 .swap)
  cancelled : s.cancelled = true → s'.cancelled = true
  events : ∀ e ∈ s'.events, e ∈ s.events
  hand : ∀ e, s'.recv.hand = some e → s.recv.hand = some e ∨ e ∈ s.events ∨ ∃ x, e = .failed x
  guard : s'.recv = .rechecking (some .authenticated) → s.holder = none ∧ s.poisoned = false
  pass : s'.recv = .deciding (some .authenticated) →
    s.recv = .rechecking (some .authenticated) ∧ s.cancelled = false
  halt : ∀ r, s'.recv = .stopping r ∨ s'.recv = .stopped r → r ≠ .ok (some .authenticated)
  certificates : ∀ id p, s'.certificates id = some p →
    s.certificates id = some p ∨ (s.recv = .inserting p ∧ id = p.promptId)
  notes : ∀ n ∈ o, ∃ r, n = .received r ∧ (r = .ok (some .authenticated) → s.recv.Releases)

/-- Two states of a session that differ in what only the session knows. -/
structure Beside (s s' : System Url) : Prop where
  callers : s'.callers = s.callers
  holder : s'.holder = s.holder
  poisoned : s'.poisoned = s.poisoned
  file : s'.file = s.file
  native : s'.native = s.native
  cancelled : s'.cancelled = s.cancelled
  events : s'.events = s.events

theorem Beside.rfl {s : System Url} : Beside s s := by constructor <;> rfl

theorem Beside.savePassword (s : System Url) (savePassword : Option String) :
    Beside s { s with savePassword } := by constructor <;> rfl

section Receives

variable {s s₁ s' : System Url} {o : List (Note Url)}

/-- `recv_timeout` returns. -/
theorem receives_answer {r : Result Url} (h : Beside s s₁)
    (hcert : ∀ id p, s₁.certificates id = some p →
      s.certificates id = some p ∨ (s.recv = .inserting p ∧ id = p.promptId))
    (hr : r = .ok (some .authenticated) → s.recv.Releases) :
    Receives s (s₁.answer r).1 (s₁.answer r).2 where
  callers := h.callers
  holder := h.holder
  poisoned := h.poisoned
  file := h.file
  native := .inl h.native
  cancelled := by
    show s.cancelled = true → s₁.cancelled = true
    rw [h.cancelled]
    exact id
  events := by
    show ∀ e ∈ s₁.events, e ∈ s.events
    rw [h.events]
    exact fun _ => id
  hand := nofun
  guard := nofun
  pass := nofun
  halt := by simp [System.answer]
  certificates := hcert
  notes := by
    simp only [System.answer, List.mem_singleton, forall_eq]
    exact ⟨r, rfl, hr⟩

/-- `recv_timeout` goes on. -/
theorem receives_move {k : Recv Url} {events : List (Auth.Event Url)}
    (hevents : ∀ e ∈ events, e ∈ s.events)
    (hhand : ∀ e, k.hand = some e → s.recv.hand = some e ∨ e ∈ s.events ∨ ∃ x, e = .failed x)
    (hguard : k = .rechecking (some .authenticated) → s.holder = none ∧ s.poisoned = false)
    (hpass : k = .deciding (some .authenticated) →
      s.recv = .rechecking (some .authenticated) ∧ s.cancelled = false)
    (hhalt : ∀ r, k ≠ .stopping r ∧ k ≠ .stopped r) :
    Receives s { s with recv := k, events } [] where
  callers := rfl
  holder := rfl
  poisoned := rfl
  file := rfl
  native := .inl rfl
  cancelled := id
  events := hevents
  hand := hhand
  guard := hguard
  pass := hpass
  halt := fun r hr => (hr.elim (hhalt r).1 (hhalt r).2).elim
  certificates := fun _ _ => .inl
  notes := by simp

variable [DecidableEq Url] {parse : String → Option Url}

/-- The session cancels. -/
theorem receives_stopWith {r : Result Url} (h : Beside s s₁) (hcert : s₁.certificates = s.certificates)
    (hr : r ≠ .ok (some .authenticated)) (hst : s₁.stopWith parse r = some (s', o)) :
    Receives s s' o := by
  simp only [System.stopWith, Option.bind_eq_bind, Option.bind_eq_some_iff] at hst
  obtain ⟨s₂, hengine, hst⟩ := hst
  cases hst
  obtain ⟨hnative, rfl⟩ := engine_cancel hengine
  refine ⟨h.callers, h.holder, h.poisoned, h.file, .inr ⟨by rw [← h.native]; exact hnative, ?_⟩,
    fun _ => rfl, ?_, nofun, nofun, nofun, ?_, ?_, by simp⟩
  · simp only [h.native]
  · simp only [h.events]
    exact fun _ => id
  · rintro r' (h' | h') <;> cases h'
    exact hr
  · simp only [hcert]
    exact fun _ _ => .inl

/-- The session is over. -/
theorem receives_conclude {close : Except Error Unit} {r : Reported Url} (h : Beside s s₁)
    (hcert : s₁.certificates = s.certificates) (hr : r = .authenticated → s.recv.Releases)
    (hst : s₁.conclude parse close r = some (s', o)) : Receives s s' o := by
  unfold System.conclude at hst
  split at hst
  · rw [Option.some.injEq] at hst
    rw [show s' = _ from congrArg Prod.fst hst.symm, show o = _ from congrArg Prod.snd hst.symm]
    refine receives_answer ⟨h.1, h.2, h.3, h.4, h.5, h.6, h.7⟩ ?_ fun heq => hr ?_
    · simp only [hcert]
      exact fun _ _ => .inl
    · simpa using heq
  · exact receives_stopWith h hcert (by simp) hst

omit [DecidableEq Url] in
/-- The last event, after the notices of the browser. -/
theorem drained_cases (ns : List (Notice Url)) (e : Auth.Event Url) :
    let e' := ns.foldl (fun e n => match n with
      | .failed error => .failed error
      | .prompt _ => e) e
    e' = e ∨ ∃ x, e' = .failed x := by
  induction ns generalizing e with
  | nil => exact .inl rfl
  | cons n ns ih =>
    rcases n with p | x
    · exact ih e
    · exact .inr ((ih (.failed x)).elim (⟨x, ·⟩) id)

/-- `recv_timeout` makes something of its event. -/
theorem receives_deciding {out : Outside Url} {e : Option (Auth.Event Url)}
    (hk : s.recv = .deciding e) (h : s.stepRecv parse out (.deciding e) = some (s', o)) :
    Receives s s' o := by
  rcases e with _ | (p | id | _ | x | _)
  · cases h
    exact receives_answer .rfl (fun _ _ => .inl) (by simp)
  · simp only [System.stepRecv] at h
    split at h
    · exact receives_stopWith .rfl rfl (by simp) h
    · split at h
      · cases h
        exact receives_answer .rfl (fun _ _ => .inl) (by simp)
      · cases h
        exact receives_move (fun _ => id) (by simp [Recv.hand, hk]) nofun nofun (by simp)
      · split at h
        · exact receives_stopWith .rfl rfl (by simp) h
        · exact receives_stopWith .rfl rfl (by simp) h
        · cases h
          exact receives_answer .rfl (fun _ _ => .inl) (by simp)
  · simp only [System.stepRecv] at h
    split at h
    · exact receives_stopWith .rfl rfl (by simp) h
    · cases h
      exact receives_answer .rfl (fun _ _ => .inl) (by simp)
  · refine receives_conclude ?_ ?_ (fun _ => ?_) h
    · constructor <;> rfl
    · rfl
    · rw [hk]
      rfl
  · exact receives_conclude (Beside.savePassword s none) rfl (by simp) h
  · exact receives_conclude (Beside.savePassword s none) rfl (by simp) h

/-- **The steps of `recv_timeout`**. -/
theorem receives_of_stepRecv {out : Outside Url} {k : Recv Url} (hk : s.recv = k)
    (h : s.stepRecv parse out k = some (s', o)) : Receives s s' o := by
  cases k with
  | idle =>
    simp only [System.stepRecv] at h
    split_ifs at h
    · cases h
      exact receives_answer .rfl (fun _ _ => .inl) (by simp)
    · cases h
      exact receives_move (fun _ => id) (by simp [Recv.hand]) nofun nofun (by simp)
  | looking =>
    simp only [System.stepRecv] at h
    split_ifs at h
    · exact receives_conclude (Beside.savePassword s none) rfl (by simp) h
    · cases h
      exact receives_move (fun _ => id) (by simp [Recv.hand]) nofun nofun (by simp)
  | noticing =>
    simp only [System.stepRecv] at h
    split at h
    · cases h
      exact receives_move (fun _ => id) (by simp [Recv.hand]) nofun nofun (by simp)
    · cases h
      exact receives_answer .rfl (fun _ _ => .inl) (by simp)
    · split at h
      · exact receives_stopWith .rfl rfl (by simp) h
      · exact receives_stopWith .rfl rfl (by simp) h
  | receiving =>
    simp only [System.stepRecv] at h
    split at h
    · cases h
      exact receives_move (fun _ => id) (by simp [Recv.hand]) nofun nofun (by simp)
    · split at h
      · rename_i e events hevents
        rw [Option.some.injEq] at h
        rw [show s' = _ from congrArg Prod.fst h.symm, show o = _ from congrArg Prod.snd h.symm]
        -- the event leaves the queue: it is now in the hand of the receiver
        refine receives_move ?_ (fun e' he' => .inr (.inl ?_)) (fun hguard => ?_) ?_ ?_
        · rw [hevents]
          exact fun _ => List.mem_cons_of_mem _
        · rw [hevents]
          split_ifs at he' <;> cases he' <;> exact List.mem_cons_self
        · split_ifs at hguard with hlast
          cases hguard
          exact absurd rfl hlast
        · split_ifs <;> nofun
        · split_ifs <;> simp
      · split_ifs at h
        cases h
        exact receives_answer .rfl (fun _ _ => .inl) (by simp)
  | draining e =>
    simp only [System.stepRecv, Option.some.injEq] at h
    -- either the last event is kept, or it became a failure
    have hlast := drained_cases out.drained e
    generalize out.drained.foldl _ e = e' at h hlast
    rw [show s' = _ from congrArg Prod.fst h.symm, show o = _ from congrArg Prod.snd h.symm]
    refine receives_move (fun _ => id) (fun x hx => ?_) (fun hguard => ?_) ?_ ?_
    · rw [hk]
      split_ifs at hx with hauth <;> cases hx
      · rw [hauth] at hlast
        exact .inl (hlast.elim (congrArg some ·.symm) fun ⟨_, h⟩ => nomatch h)
      · exact hlast.elim (fun h => .inl (congrArg some h.symm)) fun h => .inr (.inr h)
    · split_ifs at hguard with hauth
      cases hguard
      exact absurd rfl hauth
    · split_ifs <;> nofun
    · split_ifs <;> simp
  | guarding =>
    simp only [System.stepRecv] at h
    split_ifs at h with hpoison hfree
    · cases h
      exact receives_answer .rfl (fun _ _ => .inl) (by simp)
    · cases h
      exact receives_move (fun _ => id) (by simp [Recv.hand, hk])
        (fun _ => ⟨hfree, by simpa using hpoison⟩) nofun (by simp)
  | rechecking e =>
    simp only [System.stepRecv] at h
    split_ifs at h with hmark
    · exact receives_conclude (Beside.savePassword s none) rfl (by simp) h
    · cases h
      refine receives_move (fun _ => id) (fun e' he' => .inl ?_) nofun (fun hpass => ?_) (by simp)
      · rw [hk]
        exact he'
      · cases hpass
        exact ⟨hk, by simpa using hmark⟩
  | deciding e => exact receives_deciding hk h
  | inserting p =>
    simp only [System.stepRecv] at h
    split_ifs at h
    · cases h
      exact receives_answer .rfl (fun _ _ => .inl) (by simp)
    · cases h
      refine receives_answer ⟨rfl, rfl, rfl, rfl, rfl, rfl, rfl⟩ (fun id p' hp' => ?_) (by simp)
      -- the prompt that was inserted is the one in the hand, the others were there before
      by_cases hid : id = p.promptId
      · subst hid
        simp only [Function.update_self, Option.some.injEq] at hp'
        exact .inr ⟨hp' ▸ hk, by rw [hp']⟩
      · simp only [Function.update_of_ne hid] at hp'
        exact .inl hp'
  | stopping r => cases h
  | stopped r =>
    simp only [System.stepRecv, Option.some.injEq] at h
    rw [show s' = _ from congrArg Prod.fst h.symm, show o = _ from congrArg Prod.snd h.symm]
    refine receives_answer ⟨rfl, rfl, rfl, rfl, rfl, rfl, rfl⟩ (fun id p hp => .inl ?_) fun hr => ?_
    · dsimp only at hp
      split_ifs at hp
      exact hp
    · rw [hk]
      exact hr

end Receives

/-! ### The engine -/

/-- The request that a call of the engine brings. -/
def request? : Caller → Option Auth.Request
  | .enter q | .check q | .send q | .leave q => some q
  | _ => none

/-- An event of a note. -/
def event? : Auth.Note Url → Option (Auth.Event Url)
  | .event e => some e
  | _ => none

/-- The engine but for one call, which is at `k` now. -/
structure Calling (n n' : Auth.System Url) (c : ℕ) (k : Option Caller) : Prop where
  callers : n'.callers = Function.update n.callers c k
  worker : n'.worker = n.worker
  issued : n'.issued = n.issued
  receiver : n'.shared.receiver = n.shared.receiver

/-- What a step of the worker may do. -/
structure Sees (n : Auth.System Url) (m : Move Url) (n' : Auth.System Url)
    (o : List (Auth.Note Url)) : Prop where
  callers : n'.callers = n.callers
  receiver : n'.shared.receiver = true → n.shared.receiver = true
  isOver : n'.worker.isOver = true → n.worker.isOver = true ∨ n'.shared.receiver = false
  issued : ∀ id ∈ n.issued, id ∈ n'.issued
  entered : ∀ p, n'.worker = .entered p → p.id ∉ n.issued ∧ p.id ∈ n'.issued
  announcing : ∀ p, n'.worker = .announcing p → n.worker = .entered p
  prompted : ∀ p, .event (.prompted p) ∈ o → n.worker = .announcing p
  authenticated : .event .authenticated ∈ o → n.worker.isOver = true
  quiet : ∀ x ∈ o, (∀ c q r, x ≠ .accepted c q r) ∧ (∀ c r, x ≠ .returned c r) ∧
    ∀ c, x ≠ .cancelReturned c

/-- The steps of the engine, as the client hears of them. -/
inductive Hears (s : System Url) : Auth.Input Url → System Url → List (Note Url) → Prop
  | begin (i : Auth.Input Url) (c : ℕ) (k : Caller) (hfree : s.callers c = none)
      (hnative : s.native.callers c = none)
      (hk : ∀ id d, request? k ≠ some (.certificateReply id d)) :
      Hears s i { s with native := s.native.goto c k } []
  | move (i : Auth.Input Url) (c : ℕ) (k k' : Caller) (n : Auth.System Url)
      (hc : s.native.callers c = some k) (hn : Calling s.native n c (some k'))
      (hreq : request? k' = request? k) (hk : ∀ q, k ≠ .leave q ∧ k' ≠ .leave q) :
      Hears s i { s with native := n } []
  | accept (i : Auth.Input Url) (c : ℕ) (q : Auth.Request) (n : Auth.System Url)
      (pending : Option (Pending Url)) (hc : s.native.callers c = some (.send q))
      (hn : Calling s.native n c (some (.leave q))) (hreceiver : s.native.shared.receiver = true) :
      Hears s i { s with native := n } [.native (.accepted c q pending)]
  | leave (i : Auth.Input Url) (c : ℕ) (q : Auth.Request) (n : Auth.System Url)
      (hc : s.native.callers c = some (.leave q)) (hn : Calling s.native n c none) :
      Hears s i (System.hear { s with native := n } (.returned c (.ok ())))
        [.native (.returned c (.ok ()))]
  | refuse (i : Auth.Input Url) (c : ℕ) (q : Auth.Request) (e : Fault Error) (n : Auth.System Url)
      (hc : s.native.callers c = some (.check q) ∨ s.native.callers c = some (.send q))
      (hn : Calling s.native n c none) :
      Hears s i (System.hear { s with native := n } (.returned c (.error e)))
        [.native (.returned c (.error e))]
  | cancelled (i : Auth.Input Url) (c : ℕ) (n : Auth.System Url)
      (hc : s.native.callers c = some .erase) (hn : Calling s.native n c none) :
      Hears s i (System.hear { s with native := n } (.cancelReturned c)) [.native (.cancelReturned c)]
  | work (m : Move Url) (n : Auth.System Url) (o : List (Auth.Note Url))
      (hn : Sees s.native m n o) :
      Hears s (.worker m) { s with native := n, events := s.events ++ o.filterMap event? }
        (o.map .native)
  | drop : Hears s .dropEvents { s with native := { s.native with listening := false } } []

section Hears

variable {n n' : Auth.System Url} {o : List (Auth.Note Url)}

theorem sees_of_works {m : Move Url} (h : Works n m n' o) : Sees n m n' o := by
  cases h with
  | call p hw hid =>
    refine ⟨rfl, id, by simp [Phase.isOver], fun id => List.mem_cons_of_mem _, ?_, by simp, by simp,
      by simp, by simp⟩
    rintro p' ⟨⟩
    exact ⟨hid, List.mem_cons_self⟩
  | announce p hw =>
    exact ⟨rfl, id, by simp [Phase.isOver], fun _ => id, by simp, by simpa using hw, by simp,
      by simp, by simp⟩
  | publish p hw =>
    exact ⟨rfl, id, by simp [Phase.isOver], fun _ => id, by simp, by simp, by simpa using hw,
      by simp, by simp⟩
  | finish p report =>
    refine ⟨rfl, id, ?_, fun _ => id, ?_, ?_, by simp, by simp, by simp⟩ <;>
      cases report <;> simp [Phase.isOver]
  | stop =>
    exact ⟨rfl, by simp, by simp, fun _ => id, by simp, by simp, by simp, by simp, by simp⟩
  | close result hw =>
    exact ⟨rfl, id, fun _ => .inl (by rw [hw]; rfl), fun _ => id, by simp, by simp, by simp,
      by simp, by simp⟩
  | conclude result e hw he =>
    have hover : n.worker.isOver = true := by
      rw [hw]
      rfl
    exact ⟨rfl, id, fun _ => .inl hover, fun _ => id, by simp, by simp,
      fun p hp => absurd (List.mem_singleton.1 hp) (by simpa using (he p).symm), fun _ => hover,
      by simp⟩
  | _ =>
    exact ⟨rfl, id, by simp [Phase.isOver, System.fail, System.resume], fun _ => id,
      by simp [System.fail, System.resume], by simp [System.fail, System.resume], by simp, by simp,
      by simp⟩

theorem foldl_hear (s : System Url) (hquiet : ∀ x ∈ o, (∀ c r, x ≠ .returned c r) ∧
    ∀ c, x ≠ .cancelReturned c) :
    o.foldl System.hear s = { s with events := s.events ++ o.filterMap event? } := by
  induction o generalizing s with
  | nil => simp
  | cons x o ih =>
    rw [List.foldl_cons, ih _ fun y hy => hquiet y (List.mem_cons_of_mem _ hy)]
    have hx := hquiet x List.mem_cons_self
    cases x with
    | returned c r => exact absurd rfl (hx.1 c r)
    | cancelReturned c => exact absurd rfl (hx.2 c)
    | event e => simp [System.hear, event?]
    | _ => simp only [System.hear, List.filterMap_cons, event?]

variable [DecidableEq Url] {parse : String → Option Url} {s s' : System Url}
  {os : List (Note Url)} {i : Auth.Input Url}

/-- A call of the engine goes on. -/
theorem hears_of_calls {c : ℕ} (h : Calls parse s.native c n o) :
    Hears s i (o.foldl System.hear { s with native := n }) (o.map .native) := by
  cases h with
  | enter q hc => exact .move i c _ _ _ hc ⟨rfl, rfl, rfl, rfl⟩ rfl (by simp)
  | pass q hc => exact .move i c _ _ _ hc ⟨rfl, rfl, rfl, rfl⟩ rfl (by simp)
  | refuse q e hc => exact .refuse i c q e _ hc ⟨rfl, rfl, rfl, rfl⟩
  | send q hc hreceiver => exact .accept i c q _ _ hc ⟨rfl, rfl, rfl, rfl⟩ hreceiver
  | leave q hc =>
    refine .leave i c q _ hc ?_
    split_ifs <;> exact ⟨rfl, rfl, rfl, rfl⟩
  | mark hc => exact .move i c _ _ _ hc ⟨rfl, rfl, rfl, rfl⟩ rfl (by simp)
  | skip hc => exact .move i c _ _ _ hc ⟨rfl, rfl, rfl, rfl⟩ rfl (by simp)
  | notify hc => exact .move i c _ _ _ hc ⟨rfl, rfl, rfl, rfl⟩ rfl (by simp)
  | overflow hc => exact .move i c _ _ _ hc ⟨rfl, rfl, rfl, rfl⟩ rfl (by simp)
  | erase hc => exact .cancelled i c _ hc ⟨rfl, rfl, rfl, rfl⟩

/-- **The steps of the engine** are those of `Hears`. -/
theorem hears_of_advance (hres : s.reserves i = false) (h : s.advance parse i = some (s', os)) :
    Hears s i s' os := by
  simp only [System.advance, Option.bind_eq_bind, Option.bind_eq_some_iff] at h
  obtain ⟨⟨n, o⟩, hstep, h⟩ := h
  cases h
  cases i with
  | call c q =>
    simp only [Auth.machine] at hstep
    split_ifs at hstep with hc
    cases hstep
    simp only [System.reserves, Bool.or_eq_false_iff, Option.isSome_eq_false_iff] at hres
    refine .begin _ c _ (by simpa using hres.1.2) hc fun id d hid => ?_
    cases hid
    exact absurd hres.2 (by simp)
  | cancel c =>
    simp only [Auth.machine] at hstep
    split_ifs at hstep with hc
    cases hstep
    simp only [System.reserves, Bool.or_eq_false_iff, Option.isSome_eq_false_iff] at hres
    exact .begin _ c _ (by simpa using hres.2) hc (by simp [request?])
  | caller c =>
    simp only [Auth.machine] at hstep
    split at hstep
    · rename_i k hc
      exact hears_of_calls (calls_of_stepCaller hc hstep)
    · cases hstep
  | worker m =>
    have hsees := sees_of_works (works_of_stepWorker hstep)
    rw [foldl_hear _ fun x hx => (hsees.quiet x hx).2]
    exact .work m n o hsees
  | dropEvents =>
    simp only [Auth.machine] at hstep
    split_ifs at hstep
    cases hstep
    exact .drop

end Hears

end Ocvpn.Handoff
