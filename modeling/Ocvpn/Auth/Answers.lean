import Ocvpn.Auth.Pairing

/-!
# One answer for each prompt

What the notes of a run say about the answers.  A prompt is known by its UUID, which no other
prompt of the run has: the answer that a wait returns was accepted while the prompt with that UUID
was current, and no second one was.  After a cancellation has returned, no new call is accepted and
no wait returns an answer.

## Main results

* `Accepting.of_run` : at most one answer is accepted for a form or a certificate.
* `Source.of_run` : what a wait returns was accepted for its prompt.
* `Finished.run` : nothing of a transaction that is over reaches the library.
* `Hushed.run` : what a cancellation that has returned keeps from happening.
-/

namespace Ocvpn.Auth

open Ipc

variable {Url : Type} [DecidableEq Url] {parse : String → Option Url}
variable {s s' : System Url} {o os : List (Note Url)} {i : Input Url}

/-! ### At most one answer -/

/-- The UUID of the prompt. -/
def Pending.id : Pending Url → Uuid
  | .form p => p.promptId
  | .certificate id => id
  | .browser id _ _ => id

/-- The note of an answer accepted for a form or a certificate with the UUID. -/
def Note.acceptsFor (id : Uuid) : Note Url → Bool
  | .accepted _ _ (some p) => p.direct && p.id == id
  | _ => false

omit [DecidableEq Url] in
@[simp] theorem Prompt.pending_id (p : Prompt Url) : p.pending.id = p.id := by cases p <;> rfl

/-- Answers are accepted for prompts that were handed out, one for each, and not after the prompt
was dropped. -/
structure Accepting (os : List (Note Url)) (s : System Url) : Prop where
  issued : ∀ p, s.shared.pending = some p → p.id ∈ s.issued
  entered : ∀ p, s.worker = .entered p →
    p.id ∈ s.issued ∧ os.countP (Note.acceptsFor p.id) = 0 ∧
      ∀ q, s.shared.pending = some q → q.id ≠ p.id
  unanswered : ∀ p, s.shared.pending = some p → p.direct = true → ¬ Settling s →
    os.countP (Note.acceptsFor p.id) = 0
  fresh : ∀ id, 0 < os.countP (Note.acceptsFor id) → id ∈ s.issued
  once : ∀ id, os.countP (Note.acceptsFor id) ≤ 1

omit [DecidableEq Url] in
theorem Accepting.initial : Accepting [] ({} : System Url) :=
  ⟨fun _ h => (nomatch h), fun _ h => (nomatch h), fun _ h => (nomatch h), fun _ h => (nomatch h),
    fun _ => Nat.zero_le 1⟩

omit [DecidableEq Url] in
/-- A step that accepts nothing. -/
theorem Accepting.keep (h : Accepting os s) (ho : ∀ id, o.countP (Note.acceptsFor id) = 0)
    (hissued : s.issued ⊆ s'.issued)
    (hpending : ∀ p, s'.shared.pending = some p → s.shared.pending = some p ∨
      ∃ p', s.worker = .entered p' ∧ s'.worker = .announcing p' ∧ p'.pending = p)
    (hentered : ∀ p, s'.worker = .entered p →
      s.worker = .entered p ∨ p.id ∉ s.issued ∧ p.id ∈ s'.issued)
    (hset : Settling s → Settling s' ∨ s'.shared.pending = none) : Accepting (os ++ o) s' := by
  have hcount : ∀ id, (os ++ o).countP (Note.acceptsFor id) = os.countP (Note.acceptsFor id) := by
    intro id
    rw [List.countP_append, ho id, Nat.add_zero]
  refine ⟨fun p hp => ?_, fun p hp => ?_, fun p hp hdirect hnot => ?_, fun id hid => ?_, fun id => ?_⟩
  · obtain hp | ⟨p', hp', -, rfl⟩ := hpending p hp
    · exact hissued (h.issued p hp)
    · rw [Prompt.pending_id]
      exact hissued (h.entered p' hp').1
  · rw [hcount]
    have hold : ∀ q, s'.shared.pending = some q → s.shared.pending = some q := by
      intro q hq
      obtain hq | ⟨p', -, hw, -⟩ := hpending q hq
      · exact hq
      · rw [hp] at hw
        cases hw
    obtain hp | ⟨hnot, hid⟩ := hentered p hp
    · obtain ⟨hid, hzero, hne⟩ := h.entered p hp
      exact ⟨hissued hid, hzero, fun q hq => hne q (hold q hq)⟩
    · refine ⟨hid, ?_, fun q hq heq => hnot (heq ▸ h.issued q (hold q hq))⟩
      by_contra hne
      exact hnot (h.fresh p.id (Nat.pos_of_ne_zero hne))
  · rw [hcount]
    obtain hp' | ⟨p', hp', -, rfl⟩ := hpending p hp
    · refine h.unanswered p hp' hdirect fun hset' => ?_
      obtain hset' | hnone := hset hset'
      · exact hnot hset'
      · rw [hnone] at hp
        cases hp
    · rw [Prompt.pending_id]
      exact (h.entered p' hp').2.1
  · rw [hcount] at hid
    exact hissued (h.fresh id hid)
  · rw [hcount]
    exact h.once id

omit [DecidableEq Url] in
theorem Accepting.works {m : Move Url} (h : Accepting os s) (hst : Works s m s' o) :
    Accepting (os ++ o) s' := by
  refine h.keep (fun id => ?_) ?_ (fun p hp => ?_) (fun p hp => ?_) fun ⟨c, q, hc, hq⟩ => ?_
  · cases hst <;> rfl
  · cases hst with
    | call => exact List.subset_cons_self _ _
    | _ => exact List.Subset.refl _
  · obtain hpending | hpending | ⟨p', hw, hw', hpending, -⟩ := hst.pending
    · exact .inl (by rwa [hpending] at hp)
    · rw [hpending] at hp
      cases hp
    · rw [hpending] at hp
      cases hp
      exact .inr ⟨p', hw, hw', rfl⟩
  · cases hst with
    | call p' _ hid =>
      cases hp
      exact .inr ⟨hid, List.mem_cons_self⟩
    | finish _ report => cases report <;> cases hp
    | _ => cases hp
  · exact .inl ⟨c, q, by rw [hst.frame.callers, hc], hq⟩

theorem Accepting.calls {c : ℕ} (h : Accepting os s) (hst : Calls parse s c s' o)
    (hlock : Locking s) (hchecked : Checked s) : Accepting (os ++ o) s' := by
  have hworker := hst.worker
  -- everything but an accepted answer
  have hkeep : (∀ id, o.countP (Note.acceptsFor id) = 0) →
      (Settling s → Settling s' ∨ s'.shared.pending = none) → Accepting (os ++ o) s' := by
    intro ho hset
    refine h.keep ho (by rw [hworker.2.1]; exact List.Subset.refl _) (fun p hp => ?_)
      (fun p hp => .inl (by rwa [hworker.1] at hp)) hset
    obtain hpending | hpending := hst.pending
    · exact .inl (by rwa [hpending] at hp)
    · rw [hpending] at hp
      cases hp
  cases hst with
  | enter q hc =>
    exact hkeep (fun _ => rfl) fun hset => .inl (hset.goto hc (by simp) : Settling (s.goto c _))
  | pass q hc => exact hkeep (fun _ => rfl) fun hset => .inl (hset.goto hc (by simp))
  | refuse q e hc =>
    refine hkeep (fun _ => rfl) fun hset => .inl ?_
    exact hc.elim (hset.quit · (by simp) : _ → Settling (s.quit c)) (hset.quit · (by simp))
  | mark hc =>
    exact hkeep (fun _ => rfl) fun hset => .inl (hset.goto hc (by simp) : Settling (s.goto c _))
  | skip hc => exact hkeep (fun _ => rfl) fun hset => .inl (hset.goto hc (by simp))
  | notify hc =>
    exact hkeep (fun _ => rfl) fun hset => .inl (hset.goto hc (by simp) : Settling (s.goto c _))
  | overflow hc => exact hkeep (fun _ => rfl) fun hset => .inl (hset.goto hc (by simp))
  | erase => exact hkeep (fun _ => rfl) fun _ => .inr rfl
  | leave q hc =>
    refine hkeep (fun _ => rfl) fun hset => ?_
    cases hq : q.settles with
    | true => exact .inr rfl
    | false =>
      exact .inl (hset.quit hc fun q' hq' => by cases hq'; exact hq : Settling (s.quit c))
  | send q hc =>
    obtain ⟨p, hp, hfits⟩ := hchecked c q hc
    rw [hp] at hkeep ⊢
    cases hd : p.direct with
    | false =>
      refine hkeep (fun id => ?_) fun hset =>
        .inl (hset.goto hc (by simp) : Settling (s.goto c (.leave q)))
      simp [Note.acceptsFor, hd]
    | true =>
      -- the lock is with this call: nobody else is dropping the prompt
      have hnot : ¬ Settling s := by
        rintro ⟨d, q', hq', -⟩
        have hholder := hlock.unique c _ hc trivial
        rw [hlock.unique d _ hq' trivial] at hholder
        cases hholder
        rw [hc] at hq'
        cases hq'
      have hzero := h.unanswered p hp hd hnot
      have hcount : ∀ id, (os ++ [Note.accepted c q (some p)]).countP (Note.acceptsFor id) =
          os.countP (Note.acceptsFor id) + if p.id = id then 1 else 0 := by
        intro id
        rw [List.countP_append, List.countP_singleton]
        simp [Note.acceptsFor, hd]
      refine ⟨h.issued, fun p' hp' => ?_, fun p' _ _ hnot' => ?_,
        fun id hid => ?_, fun id => ?_⟩
      · obtain ⟨hid, hzero', hne⟩ := h.entered p' hp'
        refine ⟨hid, ?_, hne⟩
        rw [hcount, hzero', if_neg (hne p hp)]
      · refine absurd ⟨c, q, ?_, by rw [hfits.direct.2, hd]⟩ hnot'
        exact (goto_callers s c (.leave q) c).trans (if_pos rfl)
      · rw [hcount] at hid
        split_ifs at hid with heq
        · rw [← heq]
          exact h.issued p hp
        · exact h.fresh id hid
      · rw [hcount]
        split_ifs with heq
        · rw [← heq, hzero]
        · exact h.once id

theorem Accepting.step (h : Accepting os s) (hlock : Locking s) (hchecked : Checked s)
    (hst : (machine parse).step s i = some (s', o)) : Accepting (os ++ o) s' := by
  obtain ⟨c, k, hk, hc, rfl, rfl⟩ | ⟨c, -, hst⟩ | ⟨m, -, hst⟩ | ⟨-, -, rfl, rfl⟩ :=
    machine_step_cases hst
  · refine h.keep (fun _ => rfl) (List.Subset.refl _) (fun p hp => .inl hp) (fun p hp => .inl hp)
      fun ⟨d, q, hd, hq⟩ => .inl ⟨d, q, ?_, hq⟩
    rw [goto_callers, if_neg, hd]
    rintro rfl
    rw [hc] at hd
    cases hd
  · exact h.calls hst hlock hchecked
  · exact h.works hst
  · exact h.keep (fun _ => rfl) (List.Subset.refl _) (fun p hp => .inl hp) (fun p hp => .inl hp) .inl

/-- **At most one answer is accepted for each form or certificate**, timeouts or not. -/
theorem Accepting.of_run {p : System Url → Input Url → Prop}
    (h : (machine parse).Run p {} os s) : Accepting os s ∧ Locking s ∧ Checked s :=
  h.invariant (P := fun os s => Accepting os s ∧ Locking s ∧ Checked s)
    ⟨.initial, .initial, fun _ _ h => (nomatch h)⟩
    fun _ _ _ _ _ ⟨hs, hlock, hchecked⟩ _ hst =>
      ⟨hs.step hlock hchecked hst, hlock.step hst, hchecked.step hst hlock⟩

/-! ### Where answers come from -/

/-- What the worker has taken out of the queue, browser responses included. -/
def Phase.taken : Phase Url → List Response
  | .received _ r | .answered _ r => [r]
  | .comparing _ id reply => [.browser id reply]
  | _ => []

/-- The response was accepted for a prompt that takes it. -/
def Accepted (os : List (Note Url)) (r : Response) : Prop :=
  ∃ c q P, .accepted c q (some P) ∈ os ∧ q.Fits P ∧ q.response = r

/-- What the worker gets was accepted, and what a wait returns is an answer to its prompt. -/
structure Source (os : List (Note Url)) (s : System Url) : Prop where
  taken : ∀ r ∈ s.worker.taken ++ s.shared.responses, r ≠ .cancel → Accepted os r
  waited : ∀ p r, .waited p (.ok r) ∈ os → r ≠ .cancel ∧ p.Answers r ∧ Accepted os r
  answered : ∀ p r, s.worker = .answered p r → .waited p (.ok r) ∈ os
  submitted : ∀ p id page, .submitted p id page ∈ os →
    id = p.id ∧ .waited p (.ok (.browser id (.page page))) ∈ os
  stale : ∀ p, .stale p ∉ os

omit [DecidableEq Url] in
theorem Source.initial : Source [] ({} : System Url) :=
  ⟨fun _ h => (nomatch h), fun _ _ h => (nomatch h), fun _ _ h => (nomatch h),
    fun _ _ _ h => (nomatch h), fun _ h => (nomatch h)⟩

omit [DecidableEq Url] in
theorem Accepted.append {r : Response} (h : Accepted os r) : Accepted (os ++ o) r := by
  obtain ⟨c, q, P, hmem, hq⟩ := h
  exact ⟨c, q, P, List.mem_append_left _ hmem, hq⟩

omit [DecidableEq Url] in
/-- A step that takes nothing new, with notes of none of the kinds. -/
theorem Source.keep (h : Source os s)
    (htaken : ∀ r ∈ s'.worker.taken ++ s'.shared.responses, r ≠ .cancel →
      r ∈ s.worker.taken ++ s.shared.responses ∨ Accepted o r)
    (hanswered : ∀ p r, s'.worker = .answered p r →
      s.worker = .answered p r ∨ .waited p (.ok r) ∈ o)
    (hwaited : ∀ p r, .waited p (.ok r) ∈ o →
      p.Answers r ∧ r ∈ s.worker.taken ++ s.shared.responses)
    (hsubmitted : ∀ p id page, .submitted p id page ∈ o →
      id = p.id ∧ s.worker = .answered p (.browser id (.page page)))
    (hstale : ∀ p, .stale p ∉ o) : Source (os ++ o) s' := by
  refine ⟨fun r hr hne => ?_, fun p r hr => ?_, fun p r hw => ?_, fun p id page hp => ?_,
    fun p hp => ?_⟩
  · obtain hr | ⟨c, q, P, hmem, hq⟩ := htaken r hr hne
    · exact (h.taken r hr hne).append
    · exact ⟨c, q, P, List.mem_append_right _ hmem, hq⟩
  · obtain hr | hr := List.mem_append.1 hr
    · obtain ⟨hne, hans, hsource⟩ := h.waited p r hr
      exact ⟨hne, hans, hsource.append⟩
    · obtain ⟨hans, hmem⟩ := hwaited p r hr
      have hne : r ≠ .cancel := by
        rintro rfl
        cases p <;> exact hans
      exact ⟨hne, hans, (h.taken r hmem hne).append⟩
  · obtain hw | hw := hanswered p r hw
    · exact List.mem_append_left _ (h.answered p r hw)
    · exact List.mem_append_right _ hw
  · obtain hp | hp := List.mem_append.1 hp
    · obtain ⟨hid, hmem⟩ := h.submitted p id page hp
      exact ⟨hid, List.mem_append_left _ hmem⟩
    · obtain ⟨hid, hw⟩ := hsubmitted p id page hp
      exact ⟨hid, List.mem_append_left _ (h.answered p _ hw)⟩
  · obtain hp | hp := List.mem_append.1 hp
    · exact h.stale p hp
    · exact hstale p hp

omit [DecidableEq Url] in
theorem Source.works {m : Move Url} (h : Source os s) (hinv : Inv s) (hst : Works s m s' o) :
    Source (os ++ o) s' := by
  -- within the phases that hold nothing, only the queue counts
  have hqueue : ∀ {w : Phase Url}, w.taken = [] → ∀ {q : List Response},
      q.Sublist s.shared.responses → ∀ r ∈ w.taken ++ q, r ≠ .cancel →
      r ∈ s.worker.taken ++ s.shared.responses ∨ Accepted o r := by
    intro w hw q hq r hr _
    rw [hw, List.nil_append] at hr
    exact .inl (List.mem_append_right _ (hq.subset hr))
  have hsame : ∀ r ∈ s'.worker.taken ++ s'.shared.responses,
      s'.worker.taken ++ s'.shared.responses = s.worker.taken ++ s.shared.responses →
      r ≠ .cancel → r ∈ s.worker.taken ++ s.shared.responses ∨ Accepted o r :=
    fun r hr heq _ => .inl (heq ▸ hr)
  cases hst with
  | receive p r rest hw hq =>
    refine h.keep (fun r hr => hsame r hr ?_) (by simp) (by simp) (by simp) (by simp)
    simp [hw, hq, Phase.taken]
  | lookup p id reply hw =>
    refine h.keep (fun r hr => hsame r hr ?_) (by simp) (by simp) (by simp) (by simp)
    simp [hw, Phase.taken]
  | answer p r hw hmark hr =>
    refine h.keep (fun r hr => hsame r hr ?_) (by simp) ?_ (by simp) (by simp)
    · simp [hw, Phase.taken]
    · intro p' r' hmem
      cases List.mem_singleton.1 hmem
      exact ⟨hinv.answer hw hmark hr, by simp [hw, Phase.taken]⟩
  | found p id reply origin kind hw hp =>
    refine h.keep (fun r hr => hsame r hr ?_) (by simp) ?_ (by simp) (by simp)
    · simp [hw, Phase.taken]
    · intro p' r' hmem
      cases List.mem_singleton.1 hmem
      exact ⟨(hinv.waiting.works (.found _ _ _ _ _ hw hp)).browser p id reply rfl,
        by simp [hw, Phase.taken]⟩
  | interrupt _ _ _ _ _ hsub =>
    exact h.keep (hqueue rfl hsub) (by simp [System.fail, System.resume]) (by simp) (by simp)
      (by simp)
  | stale _ p r hw hr => exact absurd (hinv.answered p r hw) hr
  | submit _ p page hw =>
    refine h.keep (hqueue rfl (.refl _)) (by simp) (by simp) ?_ (by simp)
    intro p' id page' hmem
    cases List.mem_singleton.1 hmem
    exact ⟨rfl, hw⟩
  | finish _ report =>
    cases report <;> exact h.keep (hqueue rfl (.refl _)) (by simp) (by simp) (by simp) (by simp)
  | _ =>
    exact h.keep (hqueue rfl (.refl _)) (by simp [System.fail, System.resume])
      (by simp) (by simp) (by simp)

theorem Source.calls {c : ℕ} (h : Source os s) (hchecked : Checked s)
    (hst : Calls parse s c s' o) : Source (os ++ o) s' := by
  have hworker := hst.worker.1
  have hanswered : ∀ p r, s'.worker = .answered p r → s.worker = .answered p r ∨
      .waited p (.ok r) ∈ o := by
    intro p r hw
    exact .inl (by rwa [hworker] at hw)
  -- the steps that leave the queue alone
  have hkeep : s'.shared.responses = s.shared.responses → (∀ n ∈ o, ∃ r, n = .returned c r ∨
      n = .cancelReturned c) → Source (os ++ o) s' := by
    intro hresponses ho
    refine h.keep (fun r hr _ => .inl (by rwa [hworker, hresponses] at hr)) hanswered ?_ ?_ ?_
    · intro p r hmem
      obtain ⟨_, hn | hn⟩ := ho _ hmem <;> cases hn
    · intro p id page hmem
      obtain ⟨_, hn | hn⟩ := ho _ hmem <;> cases hn
    · intro p hmem
      obtain ⟨_, hn | hn⟩ := ho _ hmem <;> cases hn
  cases hst with
  | send q hc =>
    obtain ⟨p, hp, hfits⟩ := hchecked c q hc
    refine h.keep (fun r hr _ => ?_) hanswered (by simp) (by simp) (by simp)
    rw [hworker] at hr
    change r ∈ _ ++ (_ ++ [q.response]) at hr
    rw [← List.append_assoc] at hr
    obtain hr | hr := List.mem_append.1 hr
    · exact .inl hr
    · rw [List.mem_singleton.1 hr, hp]
      exact .inr ⟨c, q, p, List.mem_singleton_self _, hfits, rfl⟩
  | notify hc =>
    refine h.keep (fun r hr hne => ?_) hanswered (by simp) (by simp) (by simp)
    rw [hworker] at hr
    change r ∈ _ ++ (_ ++ [.cancel]) at hr
    rw [← List.append_assoc] at hr
    obtain hr | hr := List.mem_append.1 hr
    · exact .inl hr
    · exact absurd (List.mem_singleton.1 hr) hne
  | leave q => exact hkeep (by split_ifs <;> rfl) (by simp)
  | refuse | erase => exact hkeep rfl (by simp)
  | _ => exact hkeep rfl (by simp)

theorem Source.step (h : Source os s) (hinv : Inv s)
    (hst : (machine parse).step s i = some (s', o)) : Source (os ++ o) s' := by
  obtain ⟨c, k, -, -, rfl, rfl⟩ | ⟨c, -, hst⟩ | ⟨m, -, hst⟩ | ⟨-, -, rfl, rfl⟩ :=
    machine_step_cases hst
  · exact h.keep (fun r hr _ => .inl hr) (fun p r hw => .inl hw) (by simp) (by simp) (by simp)
  · exact h.calls hinv.checked hst
  · exact h.works hinv hst
  · exact h.keep (fun r hr _ => .inl hr) (fun p r hw => .inl hw) (by simp) (by simp) (by simp)

/-- **What a wait returns was accepted for its prompt**, and the waiting side finds nothing else. -/
theorem Source.of_run (h : (machine parse).Run Timely {} os s) : Source os s ∧ Inv s :=
  h.invariant (P := fun os s => Source os s ∧ Inv s) ⟨.initial, .initial⟩
    fun _ _ _ _ _ ⟨hs, hinv⟩ hi hst => ⟨hs.step hinv hst, hinv.step hi hst⟩

omit [DecidableEq Url] in
/-- A response that both prompts take has the UUID of both. -/
theorem id_of_fits {q : Request} {P : Pending Url} {p : Prompt Url} (hfits : q.Fits P)
    (hans : p.Answers q.response) : P.id = p.id := by
  have hid : ∀ {prompt : AuthPrompt} {r : AuthReply}, prompt.validateReply r = .ok () →
      prompt.promptId = r.promptId := by
    intro prompt r hvalid
    obtain ⟨⟨⟩, hvalid, -⟩ := Exec.bind_eq_ok.1 hvalid
    rw [Exec.rejectIf_eq_ok, Bool.or_eq_false_iff, bne_eq_false_iff_eq] at hvalid
    exact hvalid.1
  cases q <;> cases P <;> cases p <;> first
    | exact False.elim hfits
    | exact False.elim hans
    | exact (hid hfits).trans (hid hans).symm
    | exact hfits.symm.trans hans

/-! ### Transactions that are over -/

/-- The prompt with the UUID has been made, and the worker is not at it any more. -/
def Finished (id : Uuid) (s : System Url) : Prop :=
  id ∈ s.issued ∧ ∀ p, s.worker = .entered p ∨ s.worker.current = some p → p.id ≠ id

theorem Finished.step {id : Uuid} (h : Finished id s)
    (hst : (machine parse).step s i = some (s', o)) : Finished id s' := by
  obtain ⟨c, k, -, -, rfl, -⟩ | ⟨c, -, hst⟩ | ⟨m, -, hst⟩ | ⟨-, -, rfl, -⟩ := machine_step_cases hst
  · exact h
  · obtain ⟨hworker, hissued, -⟩ := hst.worker
    exact ⟨by rw [hissued]; exact h.1, by rw [hworker]; exact h.2⟩
  · refine ⟨?_, fun p hp => ?_⟩
    · cases hst with
      | call => exact List.mem_cons_of_mem _ h.1
      | _ => exact h.1
    · obtain hp | hp := hp
      · cases hst with
        | call p' hw hid =>
          cases hp
          rintro rfl
          exact hid h.1
        | finish _ report => cases report <;> cases hp
        | _ => cases hp
      · obtain ⟨hcurrent, -⟩ | ⟨hentered, -⟩ := hst.current hp
        · exact h.2 p (.inr hcurrent)
        · exact h.2 p (.inl hentered)
  · exact h

/-- The worker is at the prompts whose answers it gets or hands on. -/
theorem current_of_note (hinv : Inv s) (hst : (machine parse).step s i = some (s', o)) :
    (∀ p id page, .submitted p id page ∈ o → id = p.id ∧ s.worker.current = some p) ∧
      ∀ p id reply, .waited p (.ok (.browser id reply)) ∈ o →
        id = p.id ∧ s.worker.current = some p := by
  obtain ⟨c, k, -, -, -, rfl⟩ | ⟨c, -, hst⟩ | ⟨m, -, hst⟩ | ⟨-, -, -, rfl⟩ := machine_step_cases hst
  · simp
  · cases hst <;> simp
  · cases hst with
    | submit _ p page hw =>
      refine ⟨fun p' id page' hmem => ?_, by simp⟩
      cases List.mem_singleton.1 hmem
      exact ⟨rfl, by rw [hw]; rfl⟩
    | answer p r hw _ hr =>
      refine ⟨by simp, fun p' id reply hmem => ?_⟩
      cases List.mem_singleton.1 hmem
      exact absurd rfl (hr id reply)
    | found p id reply origin kind hw hp =>
      refine ⟨by simp, fun p' id' reply' hmem => ?_⟩
      cases List.mem_singleton.1 hmem
      have hans := (hinv.waiting.works (.found _ _ _ _ _ hw hp)).browser p id reply rfl
      refine ⟨?_, by rw [hw]; rfl⟩
      cases p <;> first | exact False.elim hans | exact hans
    | _ => simp
  · simp

/-- **Nothing of a transaction that is over reaches the library**, nor does a wait return it. -/
theorem Finished.run {id : Uuid} (h : Finished id s) (hinv : Inv s)
    (hrun : (machine parse).Run Timely s os s') :
    (∀ p page, .submitted p id page ∉ os) ∧
      ∀ p reply, .waited p (.ok (.browser id reply)) ∉ os := by
  have key : (Finished id s' ∧ Inv s') ∧ (∀ p page, .submitted p id page ∉ os) ∧
      ∀ p reply, .waited p (.ok (.browser id reply)) ∉ os := by
    refine hrun.invariant (P := fun os s => (Finished id s ∧ Inv s) ∧
      (∀ p page, .submitted p id page ∉ os) ∧
      ∀ p reply, .waited p (.ok (.browser id reply)) ∉ os) ⟨⟨h, hinv⟩, by simp⟩ ?_
    rintro os s i s' o ⟨⟨hf, hinv⟩, hsubmitted, hwaited⟩ hi hst
    obtain ⟨hs, hw⟩ := current_of_note hinv hst
    refine ⟨⟨hf.step hst, hinv.step hi hst⟩, fun p page hmem => ?_, fun p reply hmem => ?_⟩
    · obtain hmem | hmem := List.mem_append.1 hmem
      · exact hsubmitted p page hmem
      · obtain ⟨hid, hcurrent⟩ := hs p id page hmem
        exact hf.2 p (.inr hcurrent) hid.symm
    · obtain hmem | hmem := List.mem_append.1 hmem
      · exact hwaited p reply hmem
      · obtain ⟨hid, hcurrent⟩ := hw p id reply hmem
        exact hf.2 p (.inr hcurrent) hid.symm
  exact key.2

/-! ### After a cancellation -/

/-- Once a cancellation has returned, a response to a browser transaction finds no prompt. -/
def Dropped (s : System Url) : Prop :=
  s.cancelled = true → ∀ p id reply, s.worker = .comparing p id reply → s.shared.pending = none

theorem Dropped.step (h : Dropped s) (hmarked : Marked s)
    (hst : (machine parse).step s i = some (s', o)) : Dropped s' := by
  obtain ⟨c, k, -, -, rfl, -⟩ | ⟨c, -, hst⟩ | ⟨m, -, hst⟩ | ⟨-, -, rfl, -⟩ := machine_step_cases hst
  · exact h
  · intro hcancelled p id reply hw
    rw [hst.worker.1] at hw
    cases hst with
    | erase => rfl
    | leave q =>
      split_ifs at hcancelled ⊢
      · rfl
      · exact h hcancelled p id reply hw
    | _ => exact h hcancelled p id reply hw
  · intro hcancelled p id reply hw
    rw [hst.frame.cancelled] at hcancelled
    cases hst with
    | lookup p' id' reply' _ hmark =>
      rw [hmarked.returned hcancelled] at hmark
      cases hmark
    | finish _ report => cases report <;> cases hw
    | _ => cases hw
  · exact h

/-- A cancellation has returned in `s₀`: no call that begins later gets past its checks. -/
structure Hushed (s₀ s : System Url) : Prop where
  returned : s.cancelled = true
  marked : Marked s
  dropped : Dropped s
  late : ∀ c q, s₀.callers c = none → s.callers c ≠ some (.send q)

theorem cancelled_mono (hst : (machine parse).step s i = some (s', o)) (h : s.cancelled = true) :
    s'.cancelled = true := by
  obtain ⟨c, k, -, -, rfl, -⟩ | ⟨c, -, hst⟩ | ⟨m, -, hst⟩ | ⟨-, -, rfl, -⟩ := machine_step_cases hst
  · exact h
  · cases hst with
    | leave => split_ifs <;> exact h
    | erase => rfl
    | _ => exact h
  · rwa [hst.frame.cancelled]
  · exact h

theorem Hushed.step {s₀ : System Url} (h : Hushed s₀ s)
    (hst : (machine parse).step s i = some (s', o)) :
    Hushed s₀ s' ∧ (∀ c q P, s₀.callers c = none → .accepted c q P ∉ o) ∧
      ∀ p r, .waited p (.ok r) ∉ o := by
  have hmark := h.marked.returned h.returned
  refine ⟨⟨cancelled_mono hst h.returned, h.marked.step hst, h.dropped.step h.marked hst,
    fun c q hc hsend => ?_⟩, ?_⟩
  -- a call that starts now has to pass the check first
  · obtain ⟨d, k, hk, -, rfl, -⟩ | ⟨d, -, hst⟩ | ⟨m, -, hst⟩ | ⟨-, -, rfl, -⟩ :=
      machine_step_cases hst
    · rw [goto_callers] at hsend
      split_ifs at hsend
      · obtain rfl | ⟨q', rfl⟩ := hk <;> cases hsend
      · exact h.late c q hc hsend
    · cases hst with
      | pass q' hd hq =>
        rw [(Request.check_eq_ok hq).1] at hmark
        cases hmark
      | leave q' =>
        have hsend' : (s.quit d).callers c = some (.send q) := by
          split_ifs at hsend <;> exact hsend
        rw [quit_callers] at hsend'
        split_ifs at hsend'
        exact h.late c q hc hsend'
      | refuse | erase =>
        simp only [System.release, System.setPending, System.quit, Function.update_apply] at hsend
        split_ifs at hsend
        exact h.late c q hc hsend
      | _ =>
        simp only [System.goto, Function.update_apply] at hsend
        split_ifs at hsend
        · cases hsend
        · exact h.late c q hc hsend
    · rw [hst.frame.callers] at hsend
      exact h.late c q hc hsend
    · exact h.late c q hc hsend
  · obtain ⟨d, k, -, -, -, rfl⟩ | ⟨d, -, hst⟩ | ⟨m, -, hst⟩ | ⟨-, -, -, rfl⟩ :=
      machine_step_cases hst
    · simp
    · cases hst with
      | send q hd =>
        refine ⟨fun c q' P hc hmem => ?_, by simp⟩
        cases List.mem_singleton.1 hmem
        exact h.late d q hc hd
      | _ => simp
    · cases hst with
      | answer p r hw hmark' =>
        rw [hmark] at hmark'
        cases hmark'
      | found p id reply origin kind hw hp =>
        rw [h.dropped h.returned p id reply hw] at hp
        cases hp
      | _ => simp
    · simp

/-- **After a cancellation has returned**, no new call is accepted and no wait returns an answer. -/
theorem Hushed.run {p : System Url → Input Url → Prop} (h : Hushed s s)
    (hrun : (machine parse).Run p s os s') :
    (∀ c q P, s.callers c = none → .accepted c q P ∉ os) ∧ ∀ p r, .waited p (.ok r) ∉ os := by
  have key : Hushed s s' ∧ (∀ c q P, s.callers c = none → .accepted c q P ∉ os) ∧
      ∀ p r, .waited p (.ok r) ∉ os := by
    refine hrun.invariant (P := fun os s' => Hushed s s' ∧
      (∀ c q P, s.callers c = none → .accepted c q P ∉ os) ∧ ∀ p r, .waited p (.ok r) ∉ os)
      ⟨h, by simp⟩ ?_
    rintro os s' i s'' o ⟨hh, haccepted, hwaited⟩ - hst
    obtain ⟨hh', haccepted', hwaited'⟩ := hh.step hst
    refine ⟨hh', fun c q P hc hmem => ?_, fun p r hmem => ?_⟩
    · exact (List.mem_append.1 hmem).elim (haccepted c q P hc) (haccepted' c q P hc)
    · exact (List.mem_append.1 hmem).elim (hwaited p r) (hwaited' p r)
  exact key.2

end Ocvpn.Auth
