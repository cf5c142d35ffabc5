import Ocvpn.Handoff.Steps

/-!
# Calls of the client and calls of the engine

A call of the client that waits for the engine's `certificate_reply` has a call there under the same
number, and the engine hears of certificates from nobody else.  Whoever has found its prompt holds
the lock of the prompts until the decision is dealt with.

## Main results

* `machine_cases` : the steps of the machine.
* `Links.step` : the two calls stay together.
-/

namespace Ocvpn.Handoff

open Auth Crash Ipc Net

variable {Url : Type}

/-! ### What the client hears -/

/-- A call whose request of the engine returned. -/
def afterReply (r : Run Unit) : Option Place → Option Place
  | some (.replying id p d) => match r with
    | .ok _ => some (if d = .pin then .reading id p else .leaving id (.ok ()))
    | .error e => some (.refused e)
  | k => k

/-- A call whose cancellation of the engine returned. -/
def afterCancel : Option Place → Option Place
  | some (.stopping id e) => some (.leaving id (Exec.fail e))
  | some .stop => some .clear
  | k => k

/-- The session, when its cancellation returned. -/
def afterStop : Recv Url → Recv Url
  | .stopping r => .stopped r
  | k => k

theorem hear_returned (s : System Url) (c : ℕ) (r : Run Unit) : s.hear (.returned c r) =
    { s with callers := Function.update s.callers c (afterReply r (s.callers c)) } := by
  have hsame : { s with callers := Function.update s.callers c (s.callers c) } = s := by
    rw [Function.update_eq_self]
  cases hc : s.callers c with
  | none =>
    rw [hc] at hsame
    simp only [System.hear, hc, afterReply, hsame]
  | some k =>
    cases k with
    | replying id p d => cases r <;> simp [System.hear, hc, afterReply, System.goto]
    | _ =>
      rw [hc] at hsame
      simp only [System.hear, hc, afterReply, hsame]

theorem hear_cancelReturned (s : System Url) (c : ℕ) : s.hear (.cancelReturned c) =
    if c = 0 then { s with recv := afterStop s.recv }
    else { s with callers := Function.update s.callers c (afterCancel (s.callers c)) } := by
  by_cases hzero : c = 0
  · rw [if_pos hzero]
    simp only [System.hear, if_pos hzero]
    cases hrecv : s.recv <;> simp only [afterStop] <;> rw [← hrecv]
  · have hsame : { s with callers := Function.update s.callers c (s.callers c) } = s := by
      rw [Function.update_eq_self]
    rw [if_neg hzero]
    simp only [System.hear, if_neg hzero]
    cases hc : s.callers c with
    | none =>
      rw [hc] at hsame
      simp only [afterCancel, hsame]
    | some k =>
      cases k with
      | stopping id e => rfl
      | stop => rfl
      | _ =>
        rw [hc] at hsame
        simp only [afterCancel, hsame]

/-! ### The steps of the machine -/

/-- A step of the machine. -/
inductive Steps (S : PinStore) (s : System Url) : System Url → List (Note Url) → Prop
  | begin (c : ℕ) (k : Place) (hfree : s.Free c) (hk : k = .mark ∨ ∃ id d, k = .enter id d) :
    Steps S s (s.goto c k) []
  | call {s' o} (c : ℕ) (h : Goes S s c s' o) : Steps S s s' o
  | panic (c : ℕ)
    (hc : (∃ id p, s.callers c = some (.reading id p)) ∨
      ∃ id p rev, s.callers c = some (.saving id p rev)) :
    Steps S s { s.quit c with holder := none, poisoned := true } []
  | recv {s' o} (h : Receives s s' o) : Steps S s s' o
  | native {s' o} (i : Auth.Input Url) (h : Hears s i s' o) : Steps S s s' o
  | foreign (file : PinsDocument) (hfile : file = s.file ∨ ∃ pin, Saves S pin s.file file) :
    Steps S s { s with file } (s.rewritten none file)

variable {S : PinStore} {s s' : System Url} {o : List (Note Url)}

/-- **The steps of the machine** are those of `Steps`. -/
theorem machine_cases [DecidableEq Url] {parse : String → Option Url} {i : Input Url}
    (h : (machine parse S).step s i = some (s', o)) : Steps S s s' o := by
  cases i with
  | reply c id d =>
    simp only [machine] at h
    split_ifs at h with hfree
    cases h
    exact .begin c _ hfree (.inr ⟨id, d, rfl⟩)
  | cancel c =>
    simp only [machine] at h
    split_ifs at h with hfree
    cases h
    exact .begin c _ hfree (.inl rfl)
  | caller c cuts =>
    simp only [machine] at h
    split at h
    · rename_i k hc
      exact .call c (goes_of_stepCaller hc h)
    · cases h
  | panic c =>
    simp only [machine] at h
    split at h
    · rename_i id p hc
      cases h
      exact .panic c (.inl ⟨id, p, hc⟩)
    · rename_i id p rev hc
      cases h
      exact .panic c (.inr ⟨id, p, rev, hc⟩)
    · cases h
  | recv out =>
    simp only [machine] at h
    split_ifs at h
    exact .recv (receives_of_stepRecv rfl h)
  | native i =>
    simp only [machine] at h
    split_ifs at h with hres
    exact .native i (hears_of_advance (by simpa using hres) h)
  | foreign pin revision cuts =>
    simp only [machine] at h
    cases h
    refine .foreign _ ?_
    have hspec := savePin_spec S pin revision s.file s.file cuts (.inl trivial) rfl
    generalize savePin S pin revision ⟨s.file, cuts⟩ = r at hspec ⊢
    obtain ⟨document | e | _, t⟩ := r
    · exact .inr ⟨pin, hspec.2.1 ▸ hspec.2.2⟩
    · exact hspec.2.imp_right fun h => ⟨pin, h⟩
    · exact hspec.2.imp_right fun h => ⟨pin, h⟩

/-! ### The two calls -/

@[simp] theorem goto_callers (s : System Url) (c : ℕ) (k : Place) :
    (s.goto c k).callers = Function.update s.callers c (some k) := rfl

@[simp] theorem quit_callers (s : System Url) (c : ℕ) :
    (s.quit c).callers = Function.update s.callers c none := rfl

/-- The request that the engine has from a call. -/
def System.request (s : System Url) (c : ℕ) : Option Auth.Request :=
  (s.native.callers c).bind request?

/-- The lock has one holder; a call that waits for the engine's `certificate_reply` has a call
there, and nobody else has one. -/
structure Links (s : System Url) : Prop where
  locks : ∀ c k, s.callers c = some k → k.Locks → s.holder = some c
  asks : ∀ c id d, s.request c = some (.certificateReply id d) →
    ∃ p, s.callers c = some (.replying id p d)
  asked : ∀ c id p d, s.callers c = some (.replying id p d) →
    s.request c = some (.certificateReply id d)

namespace Links

theorem initial (savePassword : Option String) (nonInteractive : Bool) (file : PinsDocument) :
    Links ({ savePassword, nonInteractive, file } : System Url) :=
  ⟨fun _ _ h => (nomatch h), fun _ _ _ h => (nomatch h), fun _ _ _ _ h => (nomatch h)⟩

/-- One call moves, and the lock with it. -/
theorem update (h : Links s) {c : ℕ} {k : Option Place} {q : Option Auth.Request}
    (hcallers : s'.callers = Function.update s.callers c k)
    (hlocks : ∀ k', k = some k' → k'.Locks → s'.holder = some c)
    (hholder : s'.holder = s.holder ∨ ∀ d k', d ≠ c → s.callers d = some k' → ¬ k'.Locks)
    (hother : ∀ d, d ≠ c → s'.request d = s.request d) (hself : s'.request c = q)
    (hasks : ∀ id d, q = some (.certificateReply id d) → ∃ p, k = some (.replying id p d))
    (hasked : ∀ id p d, k = some (.replying id p d) → q = some (.certificateReply id d)) :
    Links s' := by
  have hc : s'.callers c = k := by rw [hcallers, Function.update_self]
  have hd : ∀ d, d ≠ c → s'.callers d = s.callers d := fun d hd => by
    rw [hcallers, Function.update_of_ne hd]
  refine ⟨fun d k' hk' hlock => ?_, fun d id r hq => ?_, fun d id p r hp => ?_⟩
  · by_cases hdc : d = c
    · subst hdc
      exact hlocks k' (hc.symm.trans hk') hlock
    · rw [hd d hdc] at hk'
      obtain hsame | hnone := hholder
      · rw [hsame]
        exact h.locks d k' hk' hlock
      · exact absurd hlock (hnone d k' hdc hk')
  · by_cases hdc : d = c
    · subst hdc
      obtain ⟨p, hp⟩ := hasks id r (hself.symm.trans hq)
      exact ⟨p, hc.trans hp⟩
    · rw [hd d hdc]
      exact h.asks d id r ((hother d hdc).symm.trans hq)
  · by_cases hdc : d = c
    · subst hdc
      exact hself.trans (hasked id p r (hc.symm.trans hp))
    · rw [hd d hdc] at hp
      exact (hother d hdc).trans (h.asked d id p r hp)

/-- The calls of the client stay where they are, and the requests of the engine are the same. -/
theorem congr (h : Links s) (hcallers : s'.callers = s.callers) (hholder : s'.holder = s.holder)
    (hrequest : ∀ c, s'.request c = s.request c) : Links s' := by
  refine ⟨fun c k hk hlock => ?_, fun c id d hq => ?_, fun c id p d hp => ?_⟩
  · rw [hholder]
    exact h.locks c k (hcallers ▸ hk) hlock
  · rw [hcallers]
    exact h.asks c id d ((hrequest c).symm.trans hq)
  · exact (hrequest c).trans (h.asked c id p d (hcallers ▸ hp))

/-- A call that waits for nothing has no request of its own. -/
theorem idle (h : Links s) {c : ℕ} {k : Option Place} (hc : s.callers c = k)
    (hk : ∀ id p d, k ≠ some (.replying id p d)) (k' : Option Place) :
    ∀ id d, s.request c = some (.certificateReply id d) → ∃ p, k' = some (.replying id p d) := by
  intro id d hq
  obtain ⟨p, hp⟩ := h.asks c id d hq
  exact absurd (hc.symm.trans hp) (hk id p d)

/-- The others do not hold the lock. -/
theorem alone (h : Links s) {c : ℕ} {k : Place} (hc : s.callers c = some k) (hk : k.Locks) :
    ∀ d k', d ≠ c → s.callers d = some k' → ¬ k'.Locks := by
  intro d k' hd hk' hlock
  have hsame := (h.locks c k hc hk).symm.trans (h.locks d k' hk' hlock)
  exact hd (Option.some.inj hsame).symm

/-- The engine's call of another number is another one. -/
theorem request_goto {d c : ℕ} (hdc : d ≠ c) (k : Caller)
    (hnative : s'.native = s.native.goto c k) : s'.request d = s.request d := by
  rw [System.request, System.request, hnative, Auth.System.goto]
  dsimp only
  rw [Function.update_of_ne hdc]

theorem request_goto_self {c : ℕ} {k : Caller} (hnative : s'.native = s.native.goto c k) :
    s'.request c = request? k := by
  rw [System.request, hnative, Auth.System.goto]
  dsimp only
  rw [Function.update_self, Option.bind_some]

theorem goes (h : Links s) {c : ℕ} (hst : Goes S s c s' o) : Links s' := by
  cases hst with
  | lock id d hc hfree =>
    refine h.update (k := some (.check id d)) rfl (fun _ _ _ => rfl) (.inr fun e k' _ hk' hlock => ?_)
      (fun _ _ => rfl) rfl (h.idle hc (by simp) _) (by simp)
    -- a call that has the prompts would be their holder
    rw [h.locks e k' hk' hlock] at hfree
    cases hfree
  | away r id d hc =>
    exact h.update (k := none) rfl nofun (.inl rfl) (fun _ _ => rfl) rfl (h.idle hc (by simp) _)
      nofun
  | unlock r hc =>
    obtain ⟨k, hc, hlock, hk⟩ : ∃ k, s.callers c = some k ∧ k.Locks ∧
        ∀ id p d, some k ≠ some (.replying id p d) := by
      obtain ⟨id, d, hc⟩ | ⟨e, hc⟩ := hc
      · exact ⟨_, hc, trivial, by simp⟩
      · exact ⟨_, hc, trivial, by simp⟩
    exact h.update (k := none) rfl nofun (.inr (h.alone hc hlock)) (fun _ _ => rfl) rfl
      (h.idle hc hk _) nofun
  | ask id d p hc hp hnative =>
    refine h.update (k := some (.replying id p d)) rfl (fun _ _ _ => h.locks c _ hc trivial)
      (.inl rfl) (fun e he => request_goto he _ rfl) (request_goto_self rfl) ?_ ?_
    · rintro id' d' hq
      cases hq
      exact ⟨p, rfl⟩
    · rintro id' p' d' heq
      cases heq
      rfl
  | look id p revision hc =>
    exact h.update (k := some (.saving id p revision)) rfl (fun _ _ _ => h.locks c _ hc trivial)
      (.inl rfl) (fun _ _ => rfl) rfl (h.idle hc (by simp) _) (by simp)
  | miss id p e file hc hfile =>
    obtain ⟨k, hc, hlock, hk⟩ : ∃ k, s.callers c = some k ∧ k.Locks ∧
        ∀ id p d, some k ≠ some (.replying id p d) := by
      obtain hc | ⟨rev, hc⟩ := hc
      · exact ⟨_, hc, trivial, by simp⟩
      · exact ⟨_, hc, trivial, by simp⟩
    exact h.update (k := some (.failing id e)) rfl (fun _ _ _ => h.locks c _ hc hlock)
      (.inl rfl) (fun _ _ => rfl) rfl (h.idle hc hk _) (by simp)
  | save id p rev file hc hsaves =>
    exact h.update (k := some (.leaving id (.ok ()))) rfl (fun _ _ _ => h.locks c _ hc trivial)
      (.inl rfl) (fun _ _ => rfl) rfl (h.idle hc (by simp) _) (by simp)
  | fail id e hc hnative =>
    exact h.update (k := some (.stopping id e)) rfl (fun _ _ _ => h.locks c _ hc trivial)
      (.inl rfl) (fun e he => request_goto he _ rfl) (request_goto_self rfl) nofun (by simp)
  | leave id r hc =>
    exact h.update (k := none) rfl nofun (.inr (h.alone hc trivial)) (fun _ _ => rfl) rfl
      (h.idle hc (by simp) _) nofun
  | mark hc hnative =>
    refine h.update (k := some .stop) rfl (fun k' hk' hlock => ?_) (.inl rfl)
      (fun e he => request_goto he _ rfl) (request_goto_self rfl) nofun (by simp)
    cases hk'
    exact hlock.elim
  | clear certificates hc hcert =>
    exact h.update (k := none) rfl nofun (.inl rfl) (fun _ _ => rfl) rfl (h.idle hc (by simp) _)
      nofun

theorem receives (h : Links s) (hst : Receives s s' o) : Links s' := by
  refine h.congr hst.callers hst.holder fun c => ?_
  obtain hsame | ⟨hnone, hswap⟩ := hst.native
  · rw [System.request, System.request, hsame]
  · by_cases hc : c = 0
    · rw [hc, request_goto_self hswap, System.request, hnone]
      rfl
    · exact request_goto hc _ hswap

theorem request_calling {n : Auth.System Url} {d c : ℕ} {k : Option Caller}
    (hn : Calling s.native n c k) (hnative : s'.native = n) (hdc : d ≠ c) :
    s'.request d = s.request d := by
  rw [System.request, System.request, hnative, hn.callers, Function.update_of_ne hdc]

theorem request_calling_self {n : Auth.System Url} {c : ℕ} {k : Option Caller}
    (hn : Calling s.native n c k) (hnative : s'.native = n) :
    s'.request c = k.bind request? := by
  rw [System.request, hnative, hn.callers, Function.update_self]

theorem afterReply_ne {r : Run Unit} {k : Option Place} {id : Uuid} {p : CertificatePrompt}
    {d : CertificateDecision} : afterReply r k ≠ some (.replying id p d) := by
  unfold afterReply
  split
  · split
    · split_ifs <;> simp
    · simp
  · rename_i hk
    exact hk _ _ _

/-- The engine's call returns. -/
theorem returned (h : Links s) {n : Auth.System Url} {c : ℕ} (r : Run Unit)
    (hn : Calling s.native n c none) :
    Links (System.hear { s with native := n } (.returned c r)) := by
  rw [hear_returned]
  refine h.update (k := afterReply r (s.callers c)) (q := none) rfl (fun k hk hlock => ?_) (.inl rfl)
    (fun d hd => request_calling hn rfl hd) (request_calling_self hn rfl) nofun
    fun id p d hd => absurd hd afterReply_ne
  cases hc : s.callers c with
  | none =>
    rw [hc] at hk
    cases hk
  | some k' =>
    refine h.locks c k' hc ?_
    rw [hc] at hk
    cases k' with
    | replying => trivial
    | _ =>
      cases hk
      exact hlock

/-- The engine's cancellation returns. -/
theorem cancelReturned (h : Links s) {n : Auth.System Url} {c : ℕ}
    (hc : s.native.callers c = some .erase) (hn : Calling s.native n c none) :
    Links (System.hear { s with native := n } (.cancelReturned c)) := by
  have hrequest : s.request c = none := by
    rw [System.request, hc]
    rfl
  rw [hear_cancelReturned]
  split_ifs with hzero
  · refine h.congr rfl rfl fun d => ?_
    by_cases hd : d = c
    · rw [hd, hrequest]
      exact request_calling_self hn rfl
    · exact request_calling hn rfl hd
  · refine h.update (k := afterCancel (s.callers c)) (q := none) rfl (fun k hk hlock => ?_) (.inl rfl)
      (fun d hd => request_calling hn rfl hd) (request_calling_self hn rfl) nofun fun id p d hd => ?_
    · cases hk' : s.callers c with
      | none =>
        rw [hk'] at hk
        cases hk
      | some k' =>
        refine h.locks c k' hk' ?_
        rw [hk'] at hk
        cases k' with
        | stopping => trivial
        | stop =>
          cases hk
          exact hlock.elim
        | _ =>
          cases hk
          exact hlock
    · have hcaller : s.callers c = some (.replying id p d) := by
        cases hk : s.callers c with
        | none =>
          rw [hk] at hd
          cases hd
        | some k =>
          rw [hk] at hd
          cases k <;> cases hd
          rfl
      have hasked := h.asked c id p d hcaller
      rw [hrequest] at hasked
      cases hasked

theorem hears (h : Links s) {i : Auth.Input Url} (hst : Hears s i s' o) : Links s' := by
  cases hst with
  | begin _ c k hfree hnative hk =>
    refine h.update (k := none) (q := request? k) ?_ nofun (.inl rfl)
      (fun d hd => request_goto hd k rfl) (request_goto_self rfl)
      (fun id d hq => absurd hq (hk id d)) nofun
    rw [← hfree, Function.update_eq_self]
  | move _ c k k' n hc hn hreq hk =>
    refine h.congr rfl rfl fun d => ?_
    by_cases hd : d = c
    · rw [hd, request_calling_self hn rfl, System.request, hc]
      exact hreq
    · exact request_calling hn rfl hd
  | accept _ c q n pending hc hn hreceiver =>
    refine h.congr rfl rfl fun d => ?_
    by_cases hd : d = c
    · rw [hd, request_calling_self hn rfl, System.request, hc]
      rfl
    · exact request_calling hn rfl hd
  | leave _ c q n hc hn => exact h.returned _ hn
  | refuse _ c q e n hc hn => exact h.returned _ hn
  | cancelled _ c n hc hn => exact h.cancelReturned hc hn
  | work m n o hn =>
    refine h.congr rfl rfl fun d => ?_
    rw [System.request, System.request, hn.callers]
  | drop => exact h.congr rfl rfl fun _ => rfl

/-- **The calls stay together.** -/
theorem step (h : Links s) (hst : Steps S s s' o) : Links s' := by
  cases hst with
  | begin c k hfree hk =>
    have hnone : ∀ id p d, (none : Option Place) ≠ some (.replying id p d) := fun _ _ _ => nofun
    refine h.update (k := some k) (q := s.request c) rfl (fun k' hk' hlock => ?_) (.inl rfl)
      (fun _ _ => rfl) rfl (h.idle hfree.2.1 hnone _) fun id p d hd => ?_
    · cases hk'
      obtain rfl | ⟨id, d, rfl⟩ := hk <;> exact hlock.elim
    · cases hd
      obtain hk | ⟨_, _, hk⟩ := hk <;> cases hk
  | call c h' => exact h.goes h'
  | panic c hc =>
    obtain ⟨k, hc, hlock, hk⟩ : ∃ k, s.callers c = some k ∧ k.Locks ∧
        ∀ id p d, some k ≠ some (.replying id p d) := by
      obtain ⟨id, p, hc⟩ | ⟨id, p, rev, hc⟩ := hc
      · exact ⟨_, hc, trivial, by simp⟩
      · exact ⟨_, hc, trivial, by simp⟩
    exact h.update (k := none) rfl nofun (.inr (h.alone hc hlock)) (fun _ _ => rfl) rfl
      (h.idle hc hk _) nofun
  | recv h' => exact h.receives h'
  | native i h' => exact h.hears h'
  | foreign file hfile => exact h.congr rfl rfl fun _ => rfl

end Links

end Ocvpn.Handoff
