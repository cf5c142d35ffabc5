import Ocvpn.Handoff.Links

/-!
# What the steps of a session mean for the pins

The steps of the machine, as far as the pins and the handoff are concerned: what becomes of a
decision to pin (`Acts`), what the session does (`Says`), and what the worker of the engine does
(`Worker`).

## Main results

* `Steps.acts`, `Steps.says`, `Steps.worker` : the same for every step.
-/

namespace Ocvpn.Handoff

open Auth Crash Ipc Net

variable {Url : Type} {S : PinStore} {s s' : System Url} {o os : List (Note Url)} {c d : ℕ}
  {id : Uuid} {p : CertificatePrompt}

/-! ### What was seen -/

/-- The engine has announced the prompt. -/
def Told (os : List (Note Url)) (q : Prompt Url) : Prop := .native (.event (.prompted q)) ∈ os

/-- The engine has taken the decision to pin the certificate of the prompt. -/
def Taken (os : List (Note Url)) (id : Uuid) : Prop :=
  ∃ c pending, .native (.accepted c (.certificateReply id .pin) pending) ∈ os

/-- The file holds the pin of the prompt.  Its host is normalised by the call and by the store. -/
def Pinned (S : PinStore) (p : CertificatePrompt) (file : PinsDocument) : Prop :=
  ∃ pin ∈ file.pins, (S.parseHost p.host).bind S.parseHost = some pin.host ∧ pin.port = p.port ∧
    pin.fingerprint = p.fingerprint

/-- A file that holds the pin of the prompt was written for it. -/
def Durable (S : PinStore) (os : List (Note Url)) (p : CertificatePrompt) : Prop :=
  ∃ file, .written (some p) file ∈ os ∧ Pinned S p file

/-- The note reports the handoff. -/
def Note.Hands (n : Note Url) : Prop := n = .received (.ok (some .authenticated))

theorem Told.append {q : Prompt Url} (h : Told os q) : Told (os ++ o) q :=
  List.mem_append_left _ h

theorem Durable.append (h : Durable S os p) : Durable S (os ++ o) p := by
  obtain ⟨file, hmem, hpin⟩ := h
  exact ⟨file, List.mem_append_left _ hmem, hpin⟩

theorem taken_append : Taken (os ++ o) id ↔ Taken os id ∨ Taken o id := by
  simp only [Taken, List.mem_append, exists_or]

theorem certificatePin_eq_ok {host fingerprint : String} {port : UInt16} {pin : CertificatePin}
    (h : certificatePin S host port fingerprint = .ok pin) :
    S.parseHost host = some pin.host ∧ pin.port = port ∧ pin.fingerprint = fingerprint := by
  obtain ⟨-, -, h⟩ := Exec.bind_eq_ok.1 h
  obtain ⟨-, -, h⟩ := Exec.bind_eq_ok.1 h
  split at h
  · cases h
  · rename_i host' hhost
    cases h
    exact ⟨hhost, rfl, rfl⟩

theorem SavesPrompt.pinned {d d' : PinsDocument} (h : SavesPrompt S p d d') : Pinned S p d' := by
  obtain ⟨pin, hpin, pin', hpin', hpins⟩ := h
  obtain ⟨hhost, hport, hfingerprint⟩ := certificatePin_eq_ok hpin
  obtain ⟨hhost', hport', hfingerprint'⟩ := certificatePin_eq_ok hpin'
  refine ⟨pin', hpins ▸ mem_put pin' d.pins, ?_, hport'.trans hport,
    hfingerprint'.trans hfingerprint⟩
  rw [hhost, Option.bind_some, hhost']

/-! ### Calls that have a pin to save -/

/-- The engine has the decision to pin, and the call has not saved the pin; or it could not, and has
not set the mark. -/
def BusyAt : Option Place → Option Caller → Uuid → Prop
  | some (.replying i _ d), k, id => i = id ∧ d = .pin ∧ k = some (.leave (.certificateReply i d))
  | some (.reading i _), _, id => i = id
  | some (.saving i _ _), _, id => i = id
  | some (.failing i _), _, id => i = id
  | _, _, _ => False

def Busy (s : System Url) (c : ℕ) (id : Uuid) : Prop :=
  BusyAt (s.callers c) (s.native.callers c) id

/-- The prompt that the call has found. -/
def Place.prompt : Place → Option (Uuid × CertificatePrompt)
  | .replying id p _ | .reading id p | .saving id p _ => some (id, p)
  | _ => none

/-- What a step does about the decisions to pin, apart from `recv_timeout`; call `c` may move. -/
structure Acts (S : PinStore) (s s' : System Url) (o : List (Note Url)) (c : ℕ) : Prop where
  other : ∀ d ≠ c, s'.callers d = s.callers d ∧ s'.native.callers d = s.native.callers d
  cancelled : s.cancelled = true → s'.cancelled = true
  poisoned : s.poisoned = true → s'.poisoned = true
  broken : s'.poisoned = true → s.poisoned = true ∨ ∃ id, Busy s c id
  busy : ∀ id, Busy s' c id → Busy s c id ∨ Taken o id
  settled : ∀ id, Busy s c id → Busy s' c id ∨ s'.cancelled = true ∨ s'.poisoned = true ∨
    ∃ p, (s.callers c).bind Place.prompt = some (id, p) ∧ Durable S o p
  taken : ∀ id, Taken o id → s.native.shared.receiver = true ∧ Busy s' c id
  failing : ∀ id e, s.callers c = some (.failing id e) →
    s'.callers c = some (.failing id e) ∨ s'.cancelled = true
  failed : ∀ p, .saveFailed p ∈ o → ∃ id e, Busy s c id ∧ s'.callers c = some (.failing id e)
  written : ∀ p file, .written (some p) file ∈ o → ∃ id, Busy s c id ∧
    (s.callers c).bind Place.prompt = some (id, p) ∧ Pinned S p file

/-- Nobody has a decision to pin from the note. -/
def Note.Silent : Note Url → Prop
  | .native (.accepted ..) | .written (some _) _ | .saveFailed _ => False
  | _ => True

/-- A step that nobody has a decision from. -/
theorem Acts.silent (ho : ∀ n ∈ o, n.Silent)
    (hother : ∀ d ≠ c, s'.callers d = s.callers d ∧ s'.native.callers d = s.native.callers d)
    (hcancelled : s.cancelled = true → s'.cancelled = true)
    (hpoisoned : s.poisoned = true → s'.poisoned = true)
    (hbroken : s'.poisoned = true → s.poisoned = true ∨ ∃ id, Busy s c id)
    (hbusy : ∀ id, Busy s' c id → Busy s c id)
    (hsettled : ∀ id, Busy s c id → Busy s' c id ∨ s'.cancelled = true ∨ s'.poisoned = true)
    (hfailing : ∀ id e, s.callers c = some (.failing id e) →
      s'.callers c = some (.failing id e) ∨ s'.cancelled = true) : Acts S s s' o c where
  other := hother
  cancelled := hcancelled
  poisoned := hpoisoned
  broken := hbroken
  busy := fun id h => .inl (hbusy id h)
  settled := fun id h => (hsettled id h).imp_right fun h => h.imp_right .inl
  taken := by
    rintro id ⟨d, pending, hmem⟩
    exact (ho _ hmem).elim
  failing := hfailing
  failed := fun p hmem => (ho _ hmem).elim
  written := fun p file hmem => (ho _ hmem).elim

/-- A call moves from a place without a decision to another one. -/
theorem Acts.idle (ho : ∀ n ∈ o, n.Silent)
    (hother : ∀ d ≠ c, s'.callers d = s.callers d ∧ s'.native.callers d = s.native.callers d)
    (hcancelled : s.cancelled = true → s'.cancelled = true) (hpoisoned : s'.poisoned = s.poisoned)
    (hbefore : ∀ id, ¬ Busy s c id) (hafter : ∀ id, ¬ Busy s' c id) : Acts S s s' o c := by
  refine .silent ho hother hcancelled ?_ ?_ (fun id h => (hafter id h).elim)
    (fun id h => (hbefore id h).elim) fun id e h => (hbefore id ?_).elim
  · rw [hpoisoned]
    exact id
  · rw [hpoisoned]
    exact .inl
  · rw [Busy, h]
    rfl

/-- A step that leaves the client's calls alone. -/
theorem Acts.beside (c : ℕ) (ho : ∀ n ∈ o, n.Silent) (hcallers : s'.callers = s.callers)
    (hother : ∀ d ≠ c, s'.native.callers d = s.native.callers d)
    (hself : ∀ q, s'.native.callers c = some (.leave q) ↔ s.native.callers c = some (.leave q))
    (hcancelled : s.cancelled = true → s'.cancelled = true) (hpoisoned : s'.poisoned = s.poisoned) :
    Acts S s s' o c := by
  have hsame : ∀ id, Busy s' c id ↔ Busy s c id := by
    intro id
    rw [Busy, Busy, hcallers]
    cases hc : s.callers c with
    | none => rfl
    | some k => cases k <;> simp only [BusyAt, hself]
  refine .silent ho (fun d hd => ⟨by rw [hcallers], hother d hd⟩) hcancelled ?_ ?_
    (fun id => (hsame id).1) (fun id h => .inl ((hsame id).2 h)) fun id e h => .inl ?_
  · rw [hpoisoned]
    exact id
  · rw [hpoisoned]
    exact .inl
  · rw [hcallers, h]

theorem Goes.acts (h : Goes S s c s' o) : Acts S s s' o c := by
  have hother : ∀ {k : Option Place} {d : ℕ}, d ≠ c →
      Function.update s.callers c k d = s.callers d := fun hd => Function.update_of_ne hd _ _
  have hnativeOther : ∀ {k : Option Caller} {d : ℕ}, d ≠ c →
      Function.update s.native.callers c k d = s.native.callers d :=
    fun hd => Function.update_of_ne hd _ _
  cases h with
  | lock i d hc hfree =>
    exact .idle (by simp) (fun d hd => ⟨hother hd, rfl⟩) id rfl (by simp [Busy, BusyAt, hc])
      (by simp [Busy, BusyAt])
  | away r i d hc =>
    exact .idle (by simp [Note.Silent]) (fun d hd => ⟨hother hd, rfl⟩) id rfl
      (by simp [Busy, BusyAt, hc]) (by simp [Busy, BusyAt])
  | unlock r hc =>
    refine .idle (by simp [System.unlock, Note.Silent]) (fun d hd => ⟨hother hd, rfl⟩) id rfl ?_
      (by simp [System.unlock, Busy, BusyAt])
    obtain ⟨i, d, hc⟩ | ⟨e, hc⟩ := hc <;> simp [Busy, BusyAt, hc]
  | ask i d p hc hp hnative =>
    exact .idle (by simp) (fun d hd => ⟨hother hd, hnativeOther hd⟩) id rfl
      (by simp [Busy, BusyAt, hc]) (by simp [Busy, BusyAt, System.goto, Auth.System.goto])
  | look i p revision hc =>
    refine .silent (by simp) (fun d hd => ⟨hother hd, rfl⟩) id id .inl ?_ ?_ (by simp [hc])
    · simp [Busy, BusyAt, hc]
    · simp [Busy, BusyAt, hc]
  | miss i p e file hc hfile =>
    obtain ⟨hbusy, hprompt, hplace⟩ : Busy s c i ∧
        (s.callers c).bind Place.prompt = some (i, p) ∧
        ∀ j, Busy s c j ↔ i = j := by
      obtain hc | ⟨rev, hc⟩ := hc <;> simp [Busy, BusyAt, Place.prompt, hc]
    have hafter : ∀ j, Busy { s.goto c (.failing i e) with file } c j ↔ i = j := by
      simp [Busy, BusyAt]
    -- a failed save may have replaced the file all the same
    have hnotes : ∀ n ∈ s.rewritten (some p) file ++ [.saveFailed p],
        (n = .written (some p) file ∧ file ≠ s.file) ∨ n = .saveFailed p := by
      intro n hn
      unfold System.rewritten at hn
      split_ifs at hn with hsame
      · exact .inr (by simpa using hn)
      · exact (List.mem_cons.1 hn).imp (⟨·, hsame⟩) (by simp)
    refine ⟨fun d hd => ⟨hother hd, rfl⟩, id, id, .inl, fun j hj => .inl ?_, fun j hj => .inl ?_, ?_,
      ?_, ?_, ?_⟩
    · exact (hplace j).2 ((hafter j).1 hj)
    · exact (hafter j).2 ((hplace j).1 hj)
    · rintro j ⟨d, pending, hmem⟩
      obtain ⟨h, -⟩ | h := hnotes _ hmem <;> cases h
    · intro j e' he'
      obtain hc | ⟨rev, hc⟩ := hc <;> rw [hc] at he' <;> cases he'
    · exact fun _ _ => ⟨i, e, hbusy, Function.update_self ..⟩
    · intro q file' hmem
      obtain ⟨h, hne⟩ | h := hnotes _ hmem <;> cases h
      exact ⟨i, hbusy, hprompt, (hfile.resolve_left hne).pinned⟩
  | save i p rev file hc hsaves =>
    have hprompt : (s.callers c).bind Place.prompt = some (i, p) := by rw [hc]; rfl
    have hplace : ∀ j, Busy s c j ↔ i = j := by simp [Busy, BusyAt, hc]
    refine ⟨fun d hd => ⟨hother hd, rfl⟩, id, id, .inl, fun j hj => ?_, fun j hj => ?_, ?_, ?_, ?_, ?_⟩
    · simp [Busy, BusyAt] at hj
    · refine .inr (.inr (.inr ⟨p, ?_, file, List.mem_cons_self, hsaves.pinned⟩))
      rw [hprompt, (hplace j).1 hj]
    · rintro j ⟨d, pending, hmem⟩
      simp at hmem
    · simp [hc]
    · simp
    · intro q file' hmem
      cases List.mem_singleton.1 hmem
      exact ⟨i, (hplace i).2 rfl, hprompt, hsaves.pinned⟩
  | fail i e hc hnative =>
    exact .silent (by simp) (fun d hd => ⟨hother hd, hnativeOther hd⟩) (fun _ => rfl) id .inl
      (by simp [Busy, BusyAt, System.goto]) (fun _ _ => .inr (.inl rfl)) fun _ _ _ => .inr rfl
  | leave i r hc =>
    exact .idle (by simp [Note.Silent]) (fun d hd => ⟨hother hd, rfl⟩) id rfl
      (by simp [Busy, BusyAt, hc]) (by simp [System.unlock, Busy, BusyAt])
  | mark hc hnative =>
    exact .idle (by simp) (fun d hd => ⟨hother hd, hnativeOther hd⟩) (fun _ => rfl) rfl
      (by simp [Busy, BusyAt, hc]) (by simp [Busy, BusyAt, System.goto])
  | clear certificates hc hcert =>
    exact .idle (by simp [Note.Silent]) (fun d hd => ⟨hother hd, rfl⟩) id rfl
      (by simp [Busy, BusyAt, hc]) (by simp [Busy, BusyAt])

/-- A call of the engine that goes on with a request brings no decision. -/
theorem Calling.other {n : Auth.System Url} {k : Option Caller} (hn : Calling s.native n c k)
    (hd : d ≠ c) : n.callers d = s.native.callers d := by
  rw [hn.callers, Function.update_of_ne hd]

theorem Calling.self {n : Auth.System Url} {k : Option Caller} (hn : Calling s.native n c k) :
    n.callers c = k := by
  rw [hn.callers, Function.update_self]

/-- The decision is on its way, or with a call that does not wait for the engine. -/
theorem busyAt_cases {k : Option Place} {q : Option Caller} (h : BusyAt k q id) :
    (∃ p, k = some (.replying id p .pin) ∧ q = some (.leave (.certificateReply id .pin))) ∨
      ((∀ i p d, k ≠ some (.replying i p d)) ∧ ∀ q', BusyAt k q' id) := by
  unfold BusyAt at h
  split at h
  · obtain ⟨rfl, rfl, hq⟩ := h
    exact .inl ⟨_, rfl, hq⟩
  · exact .inr ⟨by simp, fun _ => h⟩
  · exact .inr ⟨by simp, fun _ => h⟩
  · exact .inr ⟨by simp, fun _ => h⟩
  · exact h.elim

theorem afterReply_of_ne {r : Run Unit} {k : Option Place}
    (h : ∀ i p d, k ≠ some (.replying i p d)) : afterReply r k = k := by
  unfold afterReply
  split
  · exact absurd rfl (h _ _ _)
  · rfl

theorem busyAt_afterCancel {k : Option Place} {q : Option Caller} :
    BusyAt (afterCancel k) q id ↔ BusyAt k q id := by
  cases k with
  | none => rfl
  | some k => cases k <;> rfl

/-- A call of the engine returns, and the client hears of it. -/
theorem Acts.back {n : Auth.System Url} {k' : Option Place} (ho : ∀ n ∈ o, n.Silent)
    (hn : Calling s.native n c none) (hnative : s'.native = n)
    (hcallers : s'.callers = Function.update s.callers c k')
    (hcancelled : s'.cancelled = s.cancelled) (hpoisoned : s'.poisoned = s.poisoned)
    (hbusy : ∀ id, BusyAt k' none id ↔ Busy s c id)
    (hfailing : ∀ id e, s.callers c = some (.failing id e) → k' = some (.failing id e)) :
    Acts S s s' o c := by
  have hself : s'.callers c = k' := by rw [hcallers, Function.update_self]
  have hsame : ∀ id, Busy s' c id ↔ Busy s c id := by
    intro id
    rw [← hbusy, Busy, hself, hnative, hn.self]
  refine .silent ho (fun d hd => ⟨?_, ?_⟩) ?_ ?_ ?_ (fun id => (hsame id).1)
    (fun id h => .inl ((hsame id).2 h)) fun id e h => .inl (hself.trans (hfailing id e h))
  · rw [hcallers, Function.update_of_ne hd]
  · rw [hnative, hn.other hd]
  · rw [hcancelled]
    exact id
  · rw [hpoisoned]
    exact id
  · rw [hpoisoned]
    exact .inl

/-- The decision is with the call as soon as the engine has taken it and returns. -/
theorem busyAt_afterReply {k : Caller} {q : Auth.Request} {r : Run Unit} (hl : Links s)
    (hc : s.native.callers c = some k) (hk : request? k = some q)
    (hr : (k = .leave q ∧ r = .ok ()) ∨ ((∀ q, k ≠ .leave q) ∧ ∃ e, r = .error e)) :
    BusyAt (afterReply r (s.callers c)) none id ↔ Busy s c id := by
  by_cases hwait : ∃ i p d, s.callers c = some (.replying i p d)
  · obtain ⟨i, p, d, hp⟩ := hwait
    have hq : q = .certificateReply i d := by
      have hasked := hl.asked c i p d hp
      rw [System.request, hc, Option.bind_some, hk] at hasked
      exact Option.some.inj hasked
    subst hq
    rw [Busy, hp, hc]
    obtain ⟨rfl, rfl⟩ | ⟨hleave, e, rfl⟩ := hr
    · by_cases hd : d = .pin
      · simp [afterReply, BusyAt, hd]
      · simp [afterReply, BusyAt, hd]
    · simp [afterReply, BusyAt, hleave]
  · have hne : ∀ i p d, s.callers c ≠ some (.replying i p d) :=
      fun i p d h => hwait ⟨i, p, d, h⟩
    rw [afterReply_of_ne hne, Busy]
    constructor
    all_goals
      intro h
      obtain ⟨p, hp, -⟩ | ⟨-, h⟩ := busyAt_cases h
      · exact absurd hp (hne _ _ _)
      · exact h _

theorem Acts.returned {n : Auth.System Url} {k : Caller} {q : Auth.Request} {r : Run Unit}
    (hl : Links s) (hc : s.native.callers c = some k) (hn : Calling s.native n c none)
    (hk : request? k = some q)
    (hr : (k = .leave q ∧ r = .ok ()) ∨ ((∀ q, k ≠ .leave q) ∧ ∃ e, r = .error e)) :
    Acts S s (System.hear { s with native := n } (.returned c r)) [.native (.returned c r)] c := by
  rw [hear_returned]
  refine .back (by simp [Note.Silent]) hn rfl rfl rfl rfl (fun id => busyAt_afterReply hl hc hk hr)
    fun id e h => ?_
  show afterReply r (s.callers c) = _
  rw [h]
  rfl

/-- The engine takes a response. -/
theorem Acts.accept {n : Auth.System Url} {q : Auth.Request} {pending : Option (Pending Url)}
    (hl : Links s) (hc : s.native.callers c = some (.send q))
    (hn : Calling s.native n c (some (.leave q))) (hreceiver : s.native.shared.receiver = true) :
    Acts S s { s with native := n } [.native (.accepted c q pending)] c where
  other := fun d hd => ⟨rfl, hn.other hd⟩
  cancelled := id
  poisoned := id
  broken := .inl
  busy := by
    intro j hj
    obtain ⟨p, hp, hq⟩ | ⟨-, hj⟩ := busyAt_cases hj
    · refine .inr ⟨c, pending, ?_⟩
      rw [hn.self] at hq
      cases hq
      exact List.mem_cons_self
    · exact .inl (hj _)
  settled := by
    intro j hj
    obtain ⟨p, -, hq⟩ | ⟨-, hj⟩ := busyAt_cases hj
    · rw [hc] at hq
      cases hq
    · exact .inl (hj _)
  taken := by
    rintro j ⟨d, pending', hmem⟩
    cases List.mem_singleton.1 hmem
    refine ⟨hreceiver, ?_⟩
    obtain ⟨p, hp⟩ := hl.asks c j .pin (by rw [System.request, hc]; rfl)
    rw [Busy, hp, hn.self]
    exact ⟨rfl, rfl, rfl⟩
  failing := fun _ _ => .inl
  failed := by simp
  written := by simp

theorem Hears.acts {i : Auth.Input Url} (hl : Links s) (h : Hears s i s' o) :
    ∃ c, Acts S s s' o c := by
  cases h with
  | begin _ c k hfree hnative hk =>
    refine ⟨c, .idle (by simp) (fun d hd => ⟨rfl, Function.update_of_ne hd _ _⟩) id rfl ?_ ?_⟩
    · simp [Busy, BusyAt, hfree]
    · simp [Busy, BusyAt, hfree]
  | move _ c k k' n hc hn hreq hk =>
    refine ⟨c, .beside c (by simp) rfl (fun d hd => hn.other hd) (fun q => ?_) id rfl⟩
    rw [hn.self, hc, Option.some.injEq, Option.some.injEq]
    exact iff_of_false (hk q).2 (hk q).1
  | accept _ c q n pending hc hn hreceiver => exact ⟨c, .accept hl hc hn hreceiver⟩
  | leave _ c q n hc hn => exact ⟨c, .returned hl hc hn rfl (.inl ⟨rfl, rfl⟩)⟩
  | refuse _ c q e n hc hn =>
    obtain hc | hc := hc
    · exact ⟨c, .returned hl hc hn rfl (.inr ⟨by simp, e, rfl⟩)⟩
    · exact ⟨c, .returned hl hc hn rfl (.inr ⟨by simp, e, rfl⟩)⟩
  | cancelled _ c n hc hn =>
    rw [hear_cancelReturned]
    split_ifs
    · refine ⟨c, .beside c (by simp [Note.Silent]) rfl (fun d hd => hn.other hd) (fun q => ?_) id rfl⟩
      rw [hn.self, hc]
      simp
    · refine ⟨c, .back (by simp [Note.Silent]) hn rfl rfl rfl rfl (fun id => ?_) fun id e h => ?_⟩
      · show BusyAt (afterCancel (s.callers c)) none id ↔ _
        rw [busyAt_afterCancel, Busy, hc]
        unfold BusyAt
        split <;> simp_all
      · show afterCancel (s.callers c) = _
        rw [h]
        rfl
  | work m n o hn =>
    refine ⟨0, .beside 0 ?_ rfl (fun d _ => congrFun hn.callers d) (fun q => ?_) id rfl⟩
    · intro x hx
      obtain ⟨y, hy, rfl⟩ := List.mem_map.1 hx
      cases y with
      | accepted c q pending => exact absurd rfl ((hn.quiet _ hy).1 _ _ _)
      | _ => trivial
    · exact iff_of_eq (congrArg (· = _) (congrFun hn.callers 0))
  | drop => exact ⟨0, .beside 0 (by simp) rfl (fun _ _ => rfl) (fun _ => .rfl) id rfl⟩

theorem Receives.acts (h : Receives s s' o) : Acts S s s' o 0 := by
  refine .beside 0 ?_ h.callers (fun d hd => ?_) (fun q => ?_) h.cancelled h.poisoned
  · intro n hn
    obtain ⟨r, rfl, -⟩ := h.notes n hn
    trivial
  · obtain hsame | ⟨-, hswap⟩ := h.native
    · rw [hsame]
    · rw [hswap]
      exact Function.update_of_ne hd _ _
  · obtain hsame | ⟨hnone, hswap⟩ := h.native
    · rw [hsame]
    · rw [hswap, hnone, Auth.System.goto]
      simp

/-- **What a step does about the decisions to pin.** -/
theorem Steps.acts (hl : Links s) (h : Steps S s s' o) : ∃ c, Acts S s s' o c := by
  cases h with
  | begin c k hfree hk =>
    refine ⟨c, .idle (by simp) (fun d hd => ⟨Function.update_of_ne hd _ _, rfl⟩) id rfl ?_ ?_⟩
    · simp [Busy, BusyAt, hfree.2.1]
    · obtain rfl | ⟨i, d, rfl⟩ := hk <;> simp [Busy, BusyAt]
  | call c h => exact ⟨c, h.acts⟩
  | panic c hc =>
    have hbusy : ∃ id, Busy s c id := by
      obtain ⟨i, p, hc⟩ | ⟨i, p, rev, hc⟩ := hc <;> exact ⟨i, by rw [Busy, hc]; rfl⟩
    refine ⟨c, .silent (by simp) (fun d hd => ⟨Function.update_of_ne hd _ _, rfl⟩) id (fun _ => rfl)
      (fun _ => .inr hbusy) (by simp [Busy, BusyAt]) (fun _ _ => .inr (.inr rfl)) fun i e he => ?_⟩
    obtain ⟨i, p, hc⟩ | ⟨i, p, rev, hc⟩ := hc <;> simp [hc] at he
  | recv h => exact ⟨0, h.acts⟩
  | native i h => exact h.acts hl
  | foreign file hfile =>
    refine ⟨0, .beside 0 ?_ rfl (fun _ _ => rfl) (fun _ => .rfl) id rfl⟩
    intro n hn
    unfold System.rewritten at hn
    split_ifs at hn
    · cases hn
    · cases List.mem_singleton.1 hn
      trivial

/-! ### The worker and the session -/

/-- What a step does to the worker of the engine. -/
inductive Worker (s s' : System Url) (o : List (Note Url)) : Prop
  | rests (worker : s'.native.worker = s.native.worker)
    (issued : s'.native.issued = s.native.issued)
    (receiver : s'.native.shared.receiver = s.native.shared.receiver)
    (quiet : ∀ e, .native (.event e) ∉ o)
  | sees (m : Move Url) (no : List (Auth.Note Url)) (h : Sees s.native m s'.native no)
    (notes : o = no.map .native)

/-- What a step does to the session. -/
structure Says (s s' : System Url) (o : List (Note Url)) : Prop where
  events : ∀ e ∈ s'.events, e ∈ s.events ∨ .native (.event e) ∈ o
  hand : ∀ e, s'.recv.hand = some e → s.recv.hand = some e ∨ e ∈ s.events ∨ ∃ x, e = .failed x
  certificates : ∀ id p, s'.certificates id = some p →
    s.certificates id = some p ∨ (s.recv = .inserting p ∧ id = p.promptId)
  guard : s'.recv = .rechecking (some .authenticated) →
    s.recv = .rechecking (some .authenticated) ∨ s.holder = none ∧ s.poisoned = false
  pass : s'.recv = .deciding (some .authenticated) →
    s.recv = .deciding (some .authenticated) ∨
      s.recv = .rechecking (some .authenticated) ∧ s.cancelled = false
  halt : ∀ r, s'.recv = .stopping r ∨ s'.recv = .stopped r →
    r ≠ .ok (some .authenticated) ∨ s.recv = .stopping r ∨ s.recv = .stopped r
  hands : ∀ n ∈ o, n.Hands → s.recv.Releases
  prompt : ∀ c id p, (s'.callers c).bind Place.prompt = some (id, p) →
    (s.callers c).bind Place.prompt = some (id, p) ∨ s.certificates id = some p

/-- A step that leaves the session alone. -/
theorem Says.beside (hrecv : s'.recv = s.recv ∨ ∃ r, s.recv = .stopping r ∧ s'.recv = .stopped r)
    (hevents : ∀ e ∈ s'.events, e ∈ s.events ∨ .native (.event e) ∈ o)
    (hcertificates : ∀ id p, s'.certificates id = some p → s.certificates id = some p)
    (ho : ∀ n ∈ o, ¬ n.Hands)
    (hprompt : ∀ c id p, (s'.callers c).bind Place.prompt = some (id, p) →
      (s.callers c).bind Place.prompt = some (id, p) ∨ s.certificates id = some p) :
    Says s s' o where
  events := hevents
  hand := by
    intro e he
    obtain hsame | ⟨r, -, hstop⟩ := hrecv
    · exact .inl (hsame ▸ he)
    · rw [hstop] at he
      cases he
  certificates := fun id p h => .inl (hcertificates id p h)
  guard := by
    intro h
    obtain hsame | ⟨r, -, hstop⟩ := hrecv
    · exact .inl (hsame ▸ h)
    · rw [hstop] at h
      cases h
  pass := by
    intro h
    obtain hsame | ⟨r, -, hstop⟩ := hrecv
    · exact .inl (hsame ▸ h)
    · rw [hstop] at h
      cases h
  halt := by
    intro r h
    obtain hsame | ⟨r', hr', hstop⟩ := hrecv
    · rw [hsame] at h
      exact .inr h
    · rw [hstop] at h
      obtain h | h := h <;> cases h
      exact .inr (.inl hr')
  hands := fun n hn h => (ho n hn h).elim
  prompt := hprompt

theorem Receives.says (h : Receives s s' o) : Says s s' o where
  events := fun e he => .inl (h.events e he)
  hand := h.hand
  certificates := h.certificates
  guard := fun hr => .inr (h.guard hr)
  pass := fun hr => .inr (h.pass hr)
  halt := fun r hr => .inl (h.halt r hr)
  hands := by
    rintro n hn rfl
    obtain ⟨r, hr, hrel⟩ := h.notes _ hn
    cases hr
    exact hrel rfl
  prompt := by
    rw [h.callers]
    exact fun c id p => .inl

/-- Only call `c` moves, to a place without a prompt or with the one it had. -/
theorem prompt_of_update {k : Option Place} (hcallers : s'.callers = Function.update s.callers c k)
    (hk : ∀ id p, k.bind Place.prompt = some (id, p) →
      (s.callers c).bind Place.prompt = some (id, p) ∨ s.certificates id = some p) :
    ∀ d id p, (s'.callers d).bind Place.prompt = some (id, p) →
      (s.callers d).bind Place.prompt = some (id, p) ∨ s.certificates id = some p := by
  intro d id p h
  rw [hcallers] at h
  by_cases hd : d = c
  · rw [hd, Function.update_self] at h
    rw [hd]
    exact hk id p h
  · rw [Function.update_of_ne hd] at h
    exact .inl h

theorem Goes.says (h : Goes S s c s' o) : Says s s' o := by
  cases h with
  | lock i d hc hfree =>
    exact .beside (.inl rfl) (fun _ => .inl) (fun _ _ => id) (by simp)
      (prompt_of_update rfl (by simp [Place.prompt]))
  | away r i d hc =>
    exact .beside (.inl rfl) (fun _ => .inl) (fun _ _ => id) (by simp [Note.Hands])
      (prompt_of_update rfl (by simp))
  | unlock r hc =>
    exact .beside (.inl rfl) (fun _ => .inl) (fun _ _ => id) (by simp [System.unlock, Note.Hands])
      (prompt_of_update rfl (by simp))
  | ask i d p hc hp hnative =>
    refine .beside (.inl rfl) (fun _ => .inl) (fun _ _ => id) (by simp)
      (prompt_of_update rfl fun j q h => .inr ?_)
    cases h
    exact hp
  | look i p revision hc =>
    refine .beside (.inl rfl) (fun _ => .inl) (fun _ _ => id) (by simp)
      (prompt_of_update rfl fun j q h => .inl ?_)
    rw [hc]
    exact h
  | miss i p e file hc hfile =>
    refine .beside (.inl rfl) (fun _ => .inl) (fun _ _ => id) (fun n hn => ?_)
      (prompt_of_update rfl (by simp [Place.prompt]))
    unfold System.rewritten at hn
    split_ifs at hn
    all_goals
      rintro rfl
      simp at hn
  | save i p rev file hc hsaves =>
    exact .beside (.inl rfl) (fun _ => .inl) (fun _ _ => id) (by simp [Note.Hands])
      (prompt_of_update rfl (by simp [Place.prompt]))
  | fail i e hc hnative =>
    exact .beside (.inl rfl) (fun _ => .inl) (fun _ _ => id) (by simp)
      (prompt_of_update rfl (by simp [Place.prompt]))
  | leave i r hc =>
    refine .beside (.inl rfl) (fun _ => .inl) (fun j p h => ?_) (by simp [Note.Hands])
      (prompt_of_update rfl (by simp))
    by_cases hj : j = i
    · rw [hj, System.unlock] at h
      simp [System.quit] at h
    · simpa [System.unlock, System.quit, hj] using h
  | mark hc hnative =>
    exact .beside (.inl rfl) (fun _ => .inl) (fun _ _ => id) (by simp)
      (prompt_of_update rfl (by simp [Place.prompt]))
  | clear certificates hc hcert =>
    refine .beside (.inl rfl) (fun _ => .inl) (fun j p h => ?_) (by simp [Note.Hands])
      (prompt_of_update rfl (by simp))
    obtain rfl | rfl := hcert
    · exact h
    · cases h

theorem afterReply_prompt {r : Run Unit} {k : Option Place}
    (h : (afterReply r k).bind Place.prompt = some (id, p)) :
    k.bind Place.prompt = some (id, p) := by
  unfold afterReply at h
  split at h
  · split at h
    · split_ifs at h
      · exact h
      · cases h
    · cases h
  · exact h

theorem afterCancel_prompt {k : Option Place}
    (h : (afterCancel k).bind Place.prompt = some (id, p)) :
    k.bind Place.prompt = some (id, p) := by
  unfold afterCancel at h
  split at h
  · cases h
  · cases h
  · exact h

theorem afterStop_cases (k : Recv Url) :
    afterStop k = k ∨ ∃ r, k = .stopping r ∧ afterStop k = .stopped r := by
  cases k with
  | stopping r => exact .inr ⟨r, rfl, rfl⟩
  | _ => exact .inl rfl

theorem Hears.says {i : Auth.Input Url} (h : Hears s i s' o) : Says s s' o := by
  cases h with
  | begin _ c k hfree hnative hk =>
    exact .beside (.inl rfl) (fun _ => .inl) (fun _ _ => id) (by simp) fun _ _ _ => .inl
  | move _ c k k' n hc hn hreq hk =>
    exact .beside (.inl rfl) (fun _ => .inl) (fun _ _ => id) (by simp) fun _ _ _ => .inl
  | accept _ c q n pending hc hn hreceiver =>
    exact .beside (.inl rfl) (fun _ => .inl) (fun _ _ => id) (by simp [Note.Hands])
      fun _ _ _ => .inl
  | leave _ c q n hc hn =>
    rw [hear_returned]
    exact .beside (.inl rfl) (fun _ => .inl) (fun _ _ => id) (by simp [Note.Hands])
      (prompt_of_update rfl fun j p h => .inl (afterReply_prompt h))
  | refuse _ c q e n hc hn =>
    rw [hear_returned]
    exact .beside (.inl rfl) (fun _ => .inl) (fun _ _ => id) (by simp [Note.Hands])
      (prompt_of_update rfl fun j p h => .inl (afterReply_prompt h))
  | cancelled _ c n hc hn =>
    rw [hear_cancelReturned]
    split_ifs
    · exact .beside (afterStop_cases _) (fun _ => .inl) (fun _ _ => id) (by simp [Note.Hands])
        fun _ _ _ => .inl
    · exact .beside (.inl rfl) (fun _ => .inl) (fun _ _ => id) (by simp [Note.Hands])
        (prompt_of_update rfl fun j p h => .inl (afterCancel_prompt h))
  | work m n o hn =>
    refine .beside (.inl rfl) (fun e he => ?_) (fun _ _ => id) ?_ fun _ _ _ => .inl
    · refine (List.mem_append.1 he).imp_right fun he => ?_
      obtain ⟨x, hx, hxe⟩ := List.mem_filterMap.1 he
      refine List.mem_map.2 ⟨x, hx, ?_⟩
      cases x <;> cases hxe
      rfl
    · intro x hx
      obtain ⟨y, -, rfl⟩ := List.mem_map.1 hx
      exact nofun
  | drop => exact .beside (.inl rfl) (fun _ => .inl) (fun _ _ => id) (by simp) fun _ _ _ => .inl

/-- **What a step does to the session.** -/
theorem Steps.says (h : Steps S s s' o) : Says s s' o := by
  cases h with
  | begin c k hfree hk =>
    refine .beside (.inl rfl) (fun _ => .inl) (fun _ _ => id) (by simp)
      (prompt_of_update rfl ?_)
    obtain rfl | ⟨i, d, rfl⟩ := hk <;> simp [Place.prompt]
  | call c h => exact h.says
  | panic c hc =>
    exact .beside (.inl rfl) (fun _ => .inl) (fun _ _ => id) (by simp)
      (prompt_of_update rfl (by simp))
  | recv h => exact h.says
  | native i h => exact h.says
  | foreign file hfile =>
    refine .beside (.inl rfl) (fun _ => .inl) (fun _ _ => id) (fun n hn => ?_) fun _ _ _ => .inl
    unfold System.rewritten at hn
    split_ifs at hn
    · cases hn
    · cases List.mem_singleton.1 hn
      exact nofun

theorem Hears.worker {i : Auth.Input Url} (h : Hears s i s' o) : Worker s s' o := by
  cases h with
  | begin | drop => exact .rests rfl rfl rfl (by simp)
  | move _ c k k' n hc hn => exact .rests hn.worker hn.issued hn.receiver (by simp)
  | accept _ c q n pending hc hn => exact .rests hn.worker hn.issued hn.receiver (by simp)
  | leave _ c q n hc hn | refuse _ c q e n hc hn =>
    rw [hear_returned]
    exact .rests hn.worker hn.issued hn.receiver (by simp)
  | cancelled _ c n hc hn =>
    rw [hear_cancelReturned]
    split_ifs <;> exact .rests hn.worker hn.issued hn.receiver (by simp)
  | work m n o hn => exact .sees m o hn rfl

theorem Goes.worker (h : Goes S s c s' o) : Worker s s' o := by
  cases h with
  | miss i p e file hc hfile =>
    refine .rests rfl rfl rfl fun e he => ?_
    unfold System.rewritten at he
    split_ifs at he <;> simp at he
  | unlock => exact .rests rfl rfl rfl (by simp [System.unlock])
  | _ => exact .rests rfl rfl rfl (by simp)

/-- **What a step does to the worker.** -/
theorem Steps.worker (h : Steps S s s' o) : Worker s s' o := by
  cases h with
  | begin | panic => exact .rests rfl rfl rfl (by simp)
  | call c h => exact h.worker
  | recv h =>
    have hquiet : ∀ e, .native (.event e) ∉ o := by
      intro e he
      obtain ⟨r, hr, -⟩ := h.notes _ he
      cases hr
    obtain hsame | ⟨-, hswap⟩ := h.native
    · exact .rests (by rw [hsame]) (by rw [hsame]) (by rw [hsame]) hquiet
    · exact .rests (by rw [hswap]; rfl) (by rw [hswap]; rfl) (by rw [hswap]; rfl) hquiet
  | native i h => exact h.worker
  | foreign file hfile =>
    refine .rests rfl rfl rfl fun e he => ?_
    unfold System.rewritten at he
    split_ifs at he <;> simp at he

namespace Worker

theorem receiver (h : Worker s s' o) (hs : s'.native.shared.receiver = true) :
    s.native.shared.receiver = true := by
  cases h with
  | rests _ _ hreceiver => rwa [← hreceiver]
  | sees m no h => exact h.receiver hs

theorem isOver (h : Worker s s' o) (hs : s'.native.worker.isOver = true) :
    s.native.worker.isOver = true ∨ s'.native.shared.receiver = false := by
  cases h with
  | rests hworker => exact .inl (hworker ▸ hs)
  | sees m no h => exact h.isOver hs

theorem last (h : Worker s s' o) (ho : .native (.event .authenticated) ∈ o) :
    s.native.worker.isOver = true := by
  cases h with
  | rests _ _ _ hquiet => exact (hquiet _ ho).elim
  | sees m no h hnotes =>
    rw [hnotes, List.mem_map] at ho
    obtain ⟨x, hx, hxe⟩ := ho
    cases hxe
    exact h.authenticated hx

end Worker

end Ocvpn.Handoff
