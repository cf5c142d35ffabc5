import Ocvpn.Handoff.Effects
import Ocvpn.LTS.History

/-!
# A handoff is released after its pins

The engine goes on as soon as it has a decision, and may be done with the authentication before the
pin of a certificate is saved.  What keeps the handoff back is the lock of the prompts: the call
that saves holds it, and `recv_timeout` takes it before it looks for a cancellation again.

## Main results

* `Inv.step` : the invariant of a session and what there was to see of it.
* `handoff_after_pins` : what holds of every run.
-/

namespace Ocvpn.Handoff

open Auth Crash Ipc Net

variable {Url : Type} {S : PinStore} {s s' : System Url} {o os : List (Note Url)} {c : ℕ} {id : Uuid}
  {p : CertificatePrompt}

/-! ### One prompt for each UUID -/

/-- A UUID is handed out once, so that no two prompts have the same. -/
structure Prompts (os : List (Note Url)) (s : System Url) : Prop where
  told : ∀ q, Told os q → q.id ∈ s.native.issued
  coming : ∀ q, s.native.worker = .entered q ∨ s.native.worker = .announcing q →
    q.id ∈ s.native.issued ∧ ∀ q', Told os q' → q'.id ≠ q.id
  unique : ∀ q q', Told os q → Told os q' → q.id = q'.id → q = q'

theorem Prompts.step (h : Prompts os s) (hw : Worker s s' o) : Prompts (os ++ o) s' := by
  cases hw with
  | rests hworker hissued hreceiver hquiet =>
    have htold : ∀ q, Told (os ++ o) q ↔ Told os q := fun q =>
      ⟨fun hq => (List.mem_append.1 hq).resolve_right (hquiet _), List.mem_append_left _⟩
    refine ⟨fun q hq => ?_, fun q hq => ?_, fun q q' hq hq' => h.unique q q' ((htold q).1 hq)
      ((htold q').1 hq')⟩
    · rw [hissued]
      exact h.told q ((htold q).1 hq)
    · rw [hworker] at hq
      rw [hissued]
      exact ⟨(h.coming q hq).1, fun q' hq' => (h.coming q hq).2 q' ((htold q').1 hq')⟩
  | sees m no hsees hnotes =>
    have htold : ∀ q, Told (os ++ o) q → Told os q ∨ s.native.worker = .announcing q := by
      intro q hq
      refine (List.mem_append.1 hq).imp_right fun hq => ?_
      rw [hnotes, List.mem_map] at hq
      obtain ⟨x, hx, hxe⟩ := hq
      cases hxe
      exact hsees.prompted q hx
    have hissued : ∀ q, Told (os ++ o) q → q.id ∈ s.native.issued := fun q hq =>
      (htold q hq).elim (h.told q) fun hw => (h.coming q (.inr hw)).1
    refine ⟨fun q hq => hsees.issued _ (hissued q hq), fun q hq => ?_, fun q q' hq hq' hid => ?_⟩
    · obtain hq | hq := hq
      · obtain ⟨hfresh, hmem⟩ := hsees.entered q hq
        refine ⟨hmem, fun q' hq' hid => hfresh ?_⟩
        rw [← hid]
        exact hissued q' hq'
      · have hentered := hsees.announcing q hq
        refine ⟨hsees.issued _ (h.coming q (.inl hentered)).1, fun q' hq' hid => ?_⟩
        obtain hq' | hq' := htold q' hq'
        · exact (h.coming q (.inl hentered)).2 q' hq' hid
        · rw [hentered] at hq'
          cases hq'
    · obtain hq | hq := htold q hq <;> obtain hq' | hq' := htold q' hq'
      · exact h.unique q q' hq hq' hid
      · exact absurd hid ((h.coming q' (.inr hq')).2 q hq)
      · exact absurd hid.symm ((h.coming q (.inr hq)).2 q' hq')
      · rw [hq] at hq'
        cases hq'
        rfl

/-- What the client knows of prompts was announced. -/
structure Heard (os : List (Note Url)) (s : System Url) : Prop where
  events : ∀ q, .prompted q ∈ s.events → Told os q
  hand : ∀ q, s.recv.hand = some (.prompted q) → Told os q
  certificates : ∀ id p, s.certificates id = some p → p.promptId = id ∧ Told os (.certificate p)
  prompt : ∀ c id p, (s.callers c).bind Place.prompt = some (id, p) →
    p.promptId = id ∧ Told os (.certificate p)

theorem Heard.step (h : Heard os s) (hs : Says s s' o) : Heard (os ++ o) s' where
  events := by
    intro q hq
    obtain hq | hq := hs.events _ hq
    · exact (h.events q hq).append
    · exact List.mem_append_right _ hq
  hand := by
    intro q hq
    obtain hq | hq | ⟨x, hx⟩ := hs.hand _ hq
    · exact (h.hand q hq).append
    · exact (h.events q hq).append
    · cases hx
  certificates := by
    intro i p hp
    obtain hp | ⟨hrecv, rfl⟩ := hs.certificates i p hp
    · exact (h.certificates i p hp).imp_right Told.append
    · exact ⟨rfl, (h.hand _ (by rw [hrecv]; rfl)).append⟩
  prompt := by
    intro c i p hp
    obtain hp | hp := hs.prompt c i p hp
    · exact (h.prompt c i p hp).imp_right Told.append
    · exact (h.certificates i p hp).imp_right Told.append

/-! ### The file -/

/-- The file of pins after what was seen. -/
def fileAfter (file : PinsDocument) (os : List (Note Url)) : PinsDocument :=
  os.foldl (fun file n => match n with
    | .written _ file' => file'
    | _ => file) file

theorem fileAfter_append (file : PinsDocument) :
    fileAfter file (os ++ o) = fileAfter (fileAfter file os) o := List.foldl_append

theorem fileAfter_eq {file : PinsDocument} (h : ∀ q file', .written q file' ∉ o) :
    fileAfter file o = file := by
  induction o with
  | nil => rfl
  | cons n o ih =>
    have hrest := ih fun q file' hmem => h q file' (List.mem_cons_of_mem _ hmem)
    cases n with
    | written q file' => exact absurd List.mem_cons_self (h q file')
    | _ => exact hrest

@[simp] theorem fileAfter_rewritten (s : System Url) (q : Option CertificatePrompt)
    (file : PinsDocument) : fileAfter s.file (s.rewritten q file) = file := by
  unfold System.rewritten
  split_ifs with hsame
  · exact hsame.symm
  · rfl

/-- The file changes when it is seen to be written. -/
theorem Steps.file (h : Steps S s s' o) : s'.file = fileAfter s.file o := by
  cases h with
  | begin | panic => rfl
  | call c h => cases h with
    | miss i p e file hc hfile =>
      -- a save that fails may have replaced the file before
      rw [fileAfter_append, fileAfter_rewritten]
      rfl
    | _ => rfl
  | recv h =>
    rw [h.file, fileAfter_eq fun q file' hmem => ?_]
    obtain ⟨r, hr, -⟩ := h.notes _ hmem
    cases hr
  | native i h => cases h with
    | leave | refuse =>
      rw [hear_returned]
      rfl
    | cancelled =>
      rw [hear_cancelReturned]
      split_ifs <;> rfl
    | work m n o hn => exact (fileAfter_eq (by simp)).symm
    | _ => rfl
  | foreign file hfile => exact (fileAfter_rewritten s none file).symm

/-! ### The handoff -/

/-- The session has an authenticated worker and the lock. -/
def Recv.Ready (r : Recv Url) : Prop :=
  r = .rechecking (some .authenticated) ∨ r = .deciding (some .authenticated)

/-- The pin of the prompt with the UUID is durable. -/
def Kept (S : PinStore) (os : List (Note Url)) (id : Uuid) : Prop :=
  ∃ p, p.promptId = id ∧ Told os (.certificate p) ∧ Durable S os p

theorem Kept.append (h : Kept S os id) : Kept S (os ++ o) id := by
  obtain ⟨p, hid, htold, hdurable⟩ := h
  exact ⟨p, hid, htold.append, hdurable.append⟩

/-- What may be seen after what was seen before: a handoff when every pin that was asked for is
durable and no save has failed, a pin of a prompt whose reply the engine has taken, and such a reply
before the handoff. -/
def Justified (S : PinStore) (before : List (Note Url)) (n : Note Url) : Prop :=
  (n.Hands → (∀ id, Taken before id → Kept S before id) ∧ ∀ p, .saveFailed p ∉ before) ∧
  (∀ p file, n = .written (some p) file →
    Told before (.certificate p) ∧ Taken before p.promptId ∧ Pinned S p file) ∧
  ∀ c id pending, n = .native (.accepted c (.certificateReply id .pin) pending) →
    ∀ n ∈ before, ¬ n.Hands

/-- The invariant of a session and what there was to see of it. -/
structure Inv (S : PinStore) (os : List (Note Url)) (s : System Url) : Prop where
  links : Links s
  prompts : Prompts os s
  heard : Heard os s
  /-- The queue of responses is closed at the end. -/
  closed : s.native.worker.isOver = true → s.native.shared.receiver = false
  last : .authenticated ∈ s.events ∨ s.recv.hand = some .authenticated ∨ (∃ n ∈ os, n.Hands) →
    s.native.shared.receiver = false
  /-- A decision to pin is dealt with, unless something went wrong. -/
  taken : ∀ id, Taken os id →
    s.cancelled = true ∨ s.poisoned = true ∨ Kept S os id ∨ ∃ c, Busy s c id
  busy : ∀ c id, Busy s c id → Taken os id
  failed : ∀ p, .saveFailed p ∈ os →
    s.cancelled = true ∨ ∃ c id e, s.callers c = some (.failing id e)
  /-- Nobody has a decision any more when the session has had the lock. -/
  ready : s.recv.Ready → s.poisoned = false ∧ ∀ c id, ¬ Busy s c id
  deciding : s.recv = .deciding (some .authenticated) →
    (∀ id, Taken os id → Kept S os id) ∧ ∀ p, .saveFailed p ∉ os
  halt : ∀ r, s.recv = .stopping r ∨ s.recv = .stopped r → r ≠ .ok (some .authenticated)
  justified : AtEach (Justified S) os

theorem Links.holder_of_busy (h : Links s) (hb : Busy s c id) : s.holder = some c := by
  cases hc : s.callers c with
  | none =>
    rw [Busy, hc] at hb
    exact hb.elim
  | some k =>
    refine h.locks c k hc ?_
    rw [Busy, hc] at hb
    cases k with
    | replying | reading | saving | failing => trivial
    | _ => exact hb.elim

theorem Inv.initial (savePassword : Option String) (nonInteractive : Bool) (file : PinsDocument) :
    Inv S [] ({ savePassword, nonInteractive, file } : System Url) where
  links := .initial _ _ _
  prompts := ⟨fun _ h => (nomatch h), fun _ h => by simp at h, fun _ _ h => (nomatch h)⟩
  heard := ⟨fun _ h => (nomatch h), fun _ h => (nomatch h), fun _ _ h => (nomatch h),
    fun _ _ _ h => (nomatch h)⟩
  closed := fun h => (nomatch h)
  last := by simp [Recv.hand]
  taken := fun _ ⟨_, _, h⟩ => (nomatch h)
  busy := fun _ _ h => h.elim
  failed := fun _ h => (nomatch h)
  ready := by simp [Recv.Ready]
  deciding := by simp
  halt := by simp
  justified := .nil

/-- Once the queue of responses is closed, the engine takes no decision. -/
theorem Acts.not_taken (ha : Acts S s s' o c) (hclosed : s.native.shared.receiver = false) :
    ¬ Taken o id := by
  intro ho
  have hopen := (ha.taken id ho).1
  rw [hclosed] at hopen
  cases hopen

namespace Inv

variable (h : Inv S os s)

include h

theorem deciding_of_releases (hr : s.recv.Releases) : s.recv = .deciding (some .authenticated) := by
  cases hrecv : s.recv with
  | deciding e =>
    rw [hrecv] at hr
    exact congrArg Recv.deciding hr
  | stopped r =>
    rw [hrecv] at hr
    exact absurd hr (h.halt r (.inr hrecv))
  | _ =>
    rw [hrecv] at hr
    exact hr.elim

theorem closed_of_ready (hr : s.recv.Ready) : s.native.shared.receiver = false := by
  refine h.last (.inr (.inl ?_))
  obtain hr | hr := hr <;> rw [hr] <;> rfl

/-- The session gets to a worker that is done, with the lock: nobody has a decision. -/
theorem ready_before (hs : Says s s' o) (hr : s'.recv.Ready) :
    s.native.shared.receiver = false ∧ s.poisoned = false ∧ ∀ c id, ¬ Busy s c id := by
  refine ⟨?_, ?_⟩
  · have hhand : s'.recv.hand = some .authenticated := by
      obtain hr | hr := hr <;> rw [hr] <;> rfl
    obtain hhand | hmem | ⟨x, hx⟩ := hs.hand _ hhand
    · exact h.last (.inr (.inl hhand))
    · exact h.last (.inl hmem)
    · cases hx
  · obtain hr | hr := hr
    · obtain hr | ⟨hfree, hpoisoned⟩ := hs.guard hr
      · exact h.ready (.inl hr)
      · refine ⟨hpoisoned, fun c id hb => ?_⟩
        rw [h.links.holder_of_busy hb] at hfree
        cases hfree
    · obtain hr | ⟨hr, -⟩ := hs.pass hr
      · exact h.ready (.inr hr)
      · exact h.ready (.inl hr)

theorem step_ready (ha : Acts S s s' o c) (hs : Says s s' o) (hr : s'.recv.Ready) :
    s'.poisoned = false ∧ ∀ c id, ¬ Busy s' c id := by
  obtain ⟨hclosed, hpoisoned, hbusy⟩ := h.ready_before hs hr
  refine ⟨?_, fun d i hb => ?_⟩
  · by_contra hbroken
    obtain hb | ⟨i, hb⟩ := ha.broken (by simpa using hbroken)
    · rw [hpoisoned] at hb
      cases hb
    · exact hbusy c i hb
  · by_cases hd : d = c
    · subst hd
      obtain hb | ho := ha.busy i hb
      · exact hbusy d i hb
      · exact ha.not_taken hclosed ho
    · rw [Busy, (ha.other d hd).1, (ha.other d hd).2] at hb
      exact hbusy d i hb

theorem step_deciding (ha : Acts S s s' o c) (hs : Says s s' o)
    (hr : s'.recv = .deciding (some .authenticated)) :
    (∀ id, Taken (os ++ o) id → Kept S (os ++ o) id) ∧ ∀ p, .saveFailed p ∉ os ++ o := by
  obtain ⟨hclosed, hpoisoned, hbusy⟩ := h.ready_before hs (.inr hr)
  have hold : (∀ id, Taken os id → Kept S os id) ∧ ∀ p, .saveFailed p ∉ os := by
    obtain hr | ⟨hr, hcancelled⟩ := hs.pass hr
    · exact h.deciding hr
    · refine ⟨fun i hi => ?_, fun p hp => ?_⟩
      · obtain hc | hp | hkept | ⟨d, hd⟩ := h.taken i hi
        · rw [hcancelled] at hc
          cases hc
        · rw [hpoisoned] at hp
          cases hp
        · exact hkept
        · exact (hbusy d i hd).elim
      · obtain hc | ⟨d, i, e, hd⟩ := h.failed p hp
        · rw [hcancelled] at hc
          cases hc
        · exact hbusy d i (by rw [Busy, hd]; rfl)
  refine ⟨fun i hi => ?_, fun p hp => ?_⟩
  · obtain hi | hi := taken_append.1 hi
    · exact (hold.1 i hi).append
    · exact (ha.not_taken hclosed hi).elim
  · obtain hp | hp := List.mem_append.1 hp
    · exact hold.2 p hp
    · obtain ⟨i, e, hb, -⟩ := ha.failed p hp
      exact hbusy c i hb

theorem step_taken (ha : Acts S s s' o c) (hi : Taken (os ++ o) id) :
    s'.cancelled = true ∨ s'.poisoned = true ∨ Kept S (os ++ o) id ∨ ∃ c, Busy s' c id := by
  obtain hi | hi := taken_append.1 hi
  · obtain hc | hp | hkept | ⟨d, hd⟩ := h.taken id hi
    · exact .inl (ha.cancelled hc)
    · exact .inr (.inl (ha.poisoned hp))
    · exact .inr (.inr (.inl hkept.append))
    · by_cases hdc : d = c
      · subst hdc
        obtain hb | hc | hp | ⟨p, hp, file, hmem, hpin⟩ := ha.settled id hd
        · exact .inr (.inr (.inr ⟨d, hb⟩))
        · exact .inl hc
        · exact .inr (.inl hp)
        · obtain ⟨hid, htold⟩ := h.heard.prompt d id p hp
          exact .inr (.inr (.inl ⟨p, hid, htold.append, file, List.mem_append_right _ hmem, hpin⟩))
      · refine .inr (.inr (.inr ⟨d, ?_⟩))
        rw [Busy, (ha.other d hdc).1, (ha.other d hdc).2]
        exact hd
  · exact .inr (.inr (.inr ⟨c, (ha.taken id hi).2⟩))

theorem step_failed (ha : Acts S s s' o c) (hp : .saveFailed p ∈ os ++ o) :
    s'.cancelled = true ∨ ∃ c id e, s'.callers c = some (.failing id e) := by
  obtain hp | hp := List.mem_append.1 hp
  · obtain hc | ⟨d, i, e, hd⟩ := h.failed p hp
    · exact .inl (ha.cancelled hc)
    · by_cases hdc : d = c
      · subst hdc
        exact (ha.failing i e hd).symm.imp_right fun hd => ⟨d, i, e, hd⟩
      · exact .inr ⟨d, i, e, (ha.other d hdc).1.trans hd⟩
  · obtain ⟨i, e, -, hd⟩ := ha.failed p hp
    exact .inr ⟨c, i, e, hd⟩

theorem step_justified (ha : Acts S s s' o c) (hs : Says s s' o) :
    AtEach (Justified S) (os ++ o) := by
  refine h.justified.append fun before n after ho => ?_
  have hmem : n ∈ o := by simp [ho]
  have hsub : ∀ m ∈ before, m ∈ o := by
    intro m hm
    simp [ho, hm]
  refine ⟨fun hn => ?_, fun p file hn => ?_, fun d i pending hn m hm hhands => ?_⟩
  · have hr := h.deciding_of_releases (hs.hands n hmem hn)
    have hclosed := h.closed_of_ready (.inr hr)
    refine ⟨fun i hi => ?_, fun p hp => ?_⟩
    · obtain hi | ⟨d, pending, hi⟩ := taken_append.1 hi
      · exact ((h.deciding hr).1 i hi).append
      · exact (ha.not_taken hclosed ⟨d, pending, hsub _ hi⟩).elim
    · obtain hp | hp := List.mem_append.1 hp
      · exact (h.deciding hr).2 p hp
      · obtain ⟨i, e, hb, -⟩ := ha.failed p (hsub _ hp)
        exact (h.ready (.inr hr)).2 c i hb
  · obtain ⟨i, hb, hprompt, hpin⟩ := ha.written p file (hn ▸ hmem)
    obtain ⟨rfl, htold⟩ := h.heard.prompt c i p hprompt
    exact ⟨htold.append, taken_append.2 (.inl (h.busy c _ hb)), hpin⟩
  · have htaken : Taken o i := ⟨d, pending, hn ▸ hmem⟩
    refine ha.not_taken ?_ htaken
    obtain hm | hm := List.mem_append.1 hm
    · exact h.last (.inr (.inr ⟨m, hm, hhands⟩))
    · exact h.closed_of_ready (.inr (h.deciding_of_releases (hs.hands m (hsub m hm) hhands)))

/-- **The invariant holds after each step.** -/
theorem step (hst : Steps S s s' o) : Inv S (os ++ o) s' := by
  obtain ⟨c, ha⟩ := hst.acts h.links
  have hs := hst.says
  have hw := hst.worker
  have hclosed : s.native.shared.receiver = false → s'.native.shared.receiver = false := by
    intro hr
    by_contra hr'
    rw [hw.receiver (by simpa using hr')] at hr
    cases hr
  refine ⟨h.links.step hst, h.prompts.step hw, h.heard.step hs, fun hover => ?_, ?_,
    fun i => h.step_taken ha, fun d i hb => ?_, fun p => h.step_failed ha, h.step_ready ha hs,
    h.step_deciding ha hs, fun r hr => ?_, h.step_justified ha hs⟩
  · exact (hw.isOver hover).elim (fun h' => hclosed (h.closed h')) id
  · rintro (hmem | hhand | ⟨n, hn, hhands⟩)
    · obtain hmem | ho := hs.events _ hmem
      · exact hclosed (h.last (.inl hmem))
      · exact hclosed (h.closed (hw.last ho))
    · obtain hhand | hmem | ⟨x, hx⟩ := hs.hand _ hhand
      · exact hclosed (h.last (.inr (.inl hhand)))
      · exact hclosed (h.last (.inl hmem))
      · cases hx
    · obtain hn | hn := List.mem_append.1 hn
      · exact hclosed (h.last (.inr (.inr ⟨n, hn, hhands⟩)))
      · exact hclosed (h.closed_of_ready (.inr (h.deciding_of_releases (hs.hands n hn hhands))))
  · rw [taken_append]
    by_cases hd : d = c
    · subst hd
      exact (ha.busy i hb).imp_left (h.busy d i)
    · rw [Busy, (ha.other d hd).1, (ha.other d hd).2] at hb
      exact .inl (h.busy d i hb)
  · obtain hne | hr | hr := hs.halt r hr
    · exact hne
    · exact h.halt r (.inl hr)
    · exact h.halt r (.inr hr)

end Inv

/-- **A handoff is released only after every pin that was asked for is durable**, and never after a
save that failed.  A pin is saved only for a prompt whose reply the engine has taken, and the engine
takes none after the handoff.  A UUID stands for one prompt, and the file is what was seen to be
written. -/
theorem handoff_after_pins [DecidableEq Url] (parse : String → Option Url) (S : PinStore)
    {s₀ : System Url} (h₀ : (machine parse S).init s₀)
    (h : (machine parse S).Run (fun _ _ => True) s₀ os s) :
    AtEach (Justified S) os ∧ (∀ q q', Told os q → Told os q' → q.id = q'.id → q = q') ∧
      s.file = fileAfter s₀.file os := by
  have hfile : s.file = fileAfter s₀.file os :=
    h.invariant (P := fun os s => s.file = fileAfter s₀.file os) rfl
      fun os s i s' o hfile _ hst => by rw [fileAfter_append, ← hfile, (machine_cases hst).file]
  obtain ⟨savePassword, nonInteractive, file, rfl⟩ := h₀
  have hinv : Inv S os s := h.invariant (Inv.initial savePassword nonInteractive file)
    fun _ _ _ _ _ hinv _ hst => hinv.step (machine_cases hst)
  exact ⟨hinv.justified, hinv.prompts.unique, hfile⟩

/-- A store that takes every host. -/
def sampleStore : PinStore := ⟨"pins", some, fun _ => false⟩

def samplePrompt : CertificatePrompt :=
  ⟨7, 1, "vpn.example", 443, "self-signed", "", "aaaaaaaaaaaaaaaaaaaaaaaaaaaaaaaaaaaaaaaa", false⟩

/-- The engine asks about a certificate, whose pin the user wants, and is done with the
authentication before the pin is saved. -/
def sampleInputs : List (Input ℕ) :=
  [ [.native (.worker (.callback (.certificate samplePrompt))), .native (.worker .announce),
      .native (.worker .publish)],
    List.replicate 7 (.recv {}),
    [.reply 1 7 .pin, .caller 1 [], .caller 1 [], .native (.caller 1), .native (.caller 1),
      .native (.caller 1), .native (.worker .poll), .native (.worker .receive),
      .native (.worker .examine), .native (.worker (.handle (.ok ()))),
      .native (.worker (.stop 0 (.ok ()))), .native (.caller 1), .native (.worker .close),
      .native (.worker .conclude)],
    List.replicate 5 (.recv {}), [.caller 1 [], .caller 1 [], .caller 1 []],
    List.replicate 3 (.recv {}) ].flatten

def sampleMachine : Machine (System ℕ) (Input ℕ) (Note ℕ) := machine (fun _ => none) sampleStore

/-- The notes before the handoff. -/
def sampleNotes : List (Note ℕ) := sampleMachine.emitted {} sampleInputs.dropLast

theorem handoff_after_pins_sample : Taken sampleNotes 7 ∧ Kept sampleStore sampleNotes 7 := by
  have htaken : Taken sampleNotes 7 := ⟨1, some (.certificate 7), by decide +kernel⟩
  have hrun := (Machine.Run.refl : sampleMachine.Run (fun _ _ => True) {} [] {}).perform
    fun i (_ : i ∈ sampleInputs) _ => trivial
  have hos : sampleMachine.emitted {} sampleInputs =
      sampleNotes ++ .received (.ok (some .authenticated)) :: [] := by
    decide +kernel
  rw [List.nil_append, hos] at hrun
  have hjust := (handoff_after_pins (fun _ => none) sampleStore ⟨none, false, {}, rfl⟩ hrun).1
  exact ⟨htaken, ((hjust sampleNotes _ [] rfl).1 rfl).1 7 htaken⟩

end Ocvpn.Handoff
