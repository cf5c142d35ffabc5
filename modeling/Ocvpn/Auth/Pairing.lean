import Ocvpn.Auth.Steps

/-!
# Prompts and answers stay paired

The invariants of the worker and its callers.  The lock of `pending` has one holder; whatever
follows a cancellation finds its mark.  As long as nothing is cancelled, at most one answer to a
form or a certificate is on its way, and it answers the prompt the worker waits at.
-/

namespace Ocvpn.Auth

open Ipc

variable {Url : Type} {s s' : System Url} {o : List (Note Url)}

/-! ### The lock -/

/-- The lock of `pending` has one holder, who is at a place that holds it. -/
structure Locking (s : System Url) : Prop where
  unique : ∀ c k, s.callers c = some k → k.Locks → s.holder = some c
  held : ∀ c, s.holder = some c → ∃ k, s.callers c = some k ∧ k.Locks

@[simp] theorem goto_callers (s : System Url) (c : ℕ) (k : Caller) (c' : ℕ) :
    (s.goto c k).callers c' = if c' = c then some k else s.callers c' := by
  simp [System.goto, Function.update_apply]

@[simp] theorem quit_callers (s : System Url) (c c' : ℕ) :
    (s.quit c).callers c' = if c' = c then none else s.callers c' := by
  simp [System.quit, Function.update_apply]

/-- Moving within the places that hold the lock, or within those that do not. -/
theorem Locking.goto (h : Locking s) {c : ℕ} {k k' : Caller} (hc : s.callers c = some k)
    (hk : k.Locks ↔ k'.Locks) : Locking (s.goto c k') := by
  constructor
  · intro d l hd hl
    rw [goto_callers] at hd
    split_ifs at hd with hdc
    · cases hd
      rw [hdc]
      exact h.unique c k hc (hk.2 hl)
    · exact h.unique d l hd hl
  · intro d hd
    obtain ⟨l, hl, hlocks⟩ := h.held d hd
    rw [goto_callers]
    split_ifs with hdc
    · rw [hdc, hc] at hl
      cases hl
      exact ⟨k', rfl, hk.1 hlocks⟩
    · exact ⟨l, hl, hlocks⟩

/-- Leaving without the lock. -/
theorem Locking.quit (h : Locking s) {c : ℕ} {k : Caller} (hc : s.callers c = some k)
    (hk : ¬ k.Locks) : Locking (s.quit c) := by
  constructor
  · intro d l hd hl
    rw [quit_callers] at hd
    split_ifs at hd
    exact h.unique d l hd hl
  · intro d hd
    obtain ⟨l, hl, hlocks⟩ := h.held d hd
    rw [quit_callers]
    split_ifs with hdc
    · rw [hdc, hc] at hl
      cases hl
      exact absurd hlocks hk
    · exact ⟨l, hl, hlocks⟩

/-- Leaving with the lock. -/
theorem Locking.release (h : Locking s) {c : ℕ} {k : Caller} (hc : s.callers c = some k)
    (hk : k.Locks) : Locking (s.release c) := by
  have hholder := h.unique c k hc hk
  constructor
  · intro d l hd hl
    change (s.quit c).callers d = some l at hd
    rw [quit_callers] at hd
    split_ifs at hd with hdc
    rw [h.unique d l hd hl] at hholder
    exact absurd (Option.some.inj hholder) hdc
  · intro d hd
    cases hd

theorem Locking.congr (h : Locking s) (hcallers : s'.callers = s.callers)
    (hholder : s'.holder = s.holder) : Locking s' :=
  ⟨by simpa only [hcallers, hholder] using h.unique, by simpa only [hcallers, hholder] using h.held⟩

theorem Locking.initial : Locking ({} : System Url) :=
  ⟨fun _ _ h => (nomatch h), fun _ h => (nomatch h)⟩

variable [DecidableEq Url] {parse : String → Option Url} {i : Input Url}

theorem Locking.calls {c : ℕ} (h : Locking s) (hst : Calls parse s c s' o) : Locking s' := by
  cases hst with
  | enter q hc hfree =>
    constructor
    · intro d l hd hl
      change (s.goto c (.check q)).callers d = some l at hd
      rw [goto_callers] at hd
      split_ifs at hd with hdc
      · rw [hdc]
      · rw [h.unique d l hd hl] at hfree
        cases hfree
    · intro d hd
      cases hd
      exact ⟨.check q, by simp, trivial⟩
  | pass q hc => exact h.goto hc (by simp [Caller.Locks])
  | refuse q e hc => exact hc.elim (h.release · trivial) (h.release · trivial)
  | send q hc => exact (h.goto hc (by simp [Caller.Locks]) : Locking (s.goto c (.leave q))).congr rfl rfl
  | leave q hc =>
    split_ifs
    · exact (h.release hc trivial).congr rfl rfl
    · exact h.release hc trivial
  | mark hc => exact (h.goto hc (by simp [Caller.Locks]) : Locking (s.goto c (.notify))).congr rfl rfl
  | skip hc => exact h.goto hc (by simp [Caller.Locks])
  | notify hc => exact (h.goto hc (by simp [Caller.Locks]) : Locking (s.goto c (.erase))).congr rfl rfl
  | overflow hc => exact h.goto hc (by simp [Caller.Locks])
  | erase hc => exact (h.quit hc (by simp [Caller.Locks])).congr rfl rfl

theorem Locking.step (h : Locking s) (hst : (machine parse).step s i = some (s', o)) :
    Locking s' := by
  obtain ⟨c, k, hk, hc, rfl, -⟩ | ⟨c, -, hst⟩ | ⟨m, -, hst⟩ | ⟨-, -, rfl, -⟩ := machine_step_cases hst
  · constructor
    · intro d l hd hl
      rw [goto_callers] at hd
      split_ifs at hd
      · cases hd
        obtain rfl | ⟨q, rfl⟩ := hk <;> cases hl
      · exact h.unique d l hd hl
    · intro d hd
      obtain ⟨l, hl, hlocks⟩ := h.held d hd
      have hdc : d ≠ c := by
        rintro rfl
        rw [hc] at hl
        cases hl
      exact ⟨l, by simp [hdc, hl], hlocks⟩
  · exact h.calls hst
  · exact h.congr hst.frame.callers hst.frame.holder
  · exact h.congr rfl rfl

/-! ### The mark -/

/-- Whatever follows a cancellation finds its mark. -/
structure Marked (s : System Url) : Prop where
  calls : ∀ c, s.callers c = some .notify ∨ s.callers c = some .erase → s.shared.cancelled = true
  queue : .cancel ∈ s.shared.responses → s.shared.cancelled = true
  returned : s.cancelled = true → s.shared.cancelled = true
  deaf : s.listening = false → s.cancelled = true

omit [DecidableEq Url] in
theorem Marked.initial : Marked ({} : System Url) :=
  ⟨fun _ h => (nomatch h), fun h => (nomatch h), fun h => (nomatch h), fun h => (nomatch h)⟩

theorem Request.response_ne (q : Request) : q.response ≠ .cancel := by
  cases q <;> simp [Request.response]

theorem Marked.calls_step {c : ℕ} (h : Marked s) (hst : Calls parse s c s' o) : Marked s' := by
  cases hst with
  | enter q =>
    refine ⟨fun d hd => h.calls d ?_, h.queue, h.returned, h.deaf⟩
    change (s.goto c (.check q)).callers d = _ ∨ (s.goto c (.check q)).callers d = _ at hd
    rw [goto_callers] at hd
    split_ifs at hd
    · simp at hd
    · exact hd
  | pass q =>
    refine ⟨fun d hd => h.calls d ?_, h.queue, h.returned, h.deaf⟩
    rw [goto_callers] at hd
    split_ifs at hd
    · simp at hd
    · exact hd
  | refuse q e =>
    refine ⟨fun d hd => h.calls d ?_, h.queue, h.returned, h.deaf⟩
    change (s.quit c).callers d = _ ∨ (s.quit c).callers d = _ at hd
    rw [quit_callers] at hd
    split_ifs at hd
    · simp at hd
    · exact hd
  | send q =>
    refine ⟨fun d hd => h.calls d ?_, fun hq => h.queue ?_, h.returned, h.deaf⟩
    · change (s.goto c (.leave q)).callers d = _ ∨ (s.goto c (.leave q)).callers d = _ at hd
      rw [goto_callers] at hd
      split_ifs at hd
      · simp at hd
      · exact hd
    -- an answer is not a cancellation
    · simpa [q.response_ne.symm] using hq
  | leave q =>
    have hd' : ∀ d, (s.quit c).callers d = some .notify ∨ (s.quit c).callers d = some .erase →
        s.shared.cancelled = true := by
      intro d hd
      rw [quit_callers] at hd
      split_ifs at hd
      · simp at hd
      · exact h.calls d hd
    split_ifs <;> exact ⟨hd', h.queue, h.returned, h.deaf⟩
  | mark => exact ⟨fun _ _ => rfl, fun _ => rfl, fun _ => rfl, h.deaf⟩
  | skip _ hmark => exact ⟨fun _ _ => hmark, fun _ => hmark, fun _ => hmark, h.deaf⟩
  | notify hc =>
    have hmark := h.calls c (.inl hc)
    exact ⟨fun _ _ => hmark, fun _ => hmark, fun _ => hmark, h.deaf⟩
  | overflow hc =>
    have hmark := h.calls c (.inl hc)
    exact ⟨fun _ _ => hmark, fun _ => hmark, fun _ => hmark, h.deaf⟩
  | erase hc =>
    have hmark := h.calls c (.inr hc)
    exact ⟨fun _ _ => hmark, fun _ => hmark, fun _ => hmark, fun _ => rfl⟩

theorem Marked.step (h : Marked s) (hst : (machine parse).step s i = some (s', o)) : Marked s' := by
  obtain ⟨c, k, hk, hc, rfl, -⟩ | ⟨c, -, hst⟩ | ⟨m, -, hst⟩ | ⟨-, hc, rfl, -⟩ := machine_step_cases hst
  · refine ⟨fun d hd => h.calls d ?_, h.queue, h.returned, h.deaf⟩
    rw [goto_callers] at hd
    split_ifs at hd
    · obtain rfl | ⟨q, rfl⟩ := hk <;> simp at hd
    · exact hd
  · exact h.calls_step hst
  · obtain ⟨hcallers, hholder, hcancelled, hlistening, hmark, hresponses, -⟩ := hst.frame
    refine ⟨fun d hd => ?_, fun hq => ?_, fun hr => ?_, fun hl => ?_⟩
    · rw [hmark]
      exact h.calls d (by rwa [hcallers] at hd)
    · rw [hmark]
      exact h.queue (hresponses _ hq)
    · rw [hmark]
      exact h.returned (by rwa [hcancelled] at hr)
    · rw [hcancelled]
      exact h.deaf (by rwa [hlistening] at hl)
  · exact ⟨h.calls, h.queue, h.returned, fun _ => hc⟩

/-! ### The current prompt -/

/-- Of the prompts, only the one the worker waits at is pending; and what it found for a browser
transaction belongs to that transaction. -/
structure Waiting (s : System Url) : Prop where
  transaction : ∀ p, s.worker = .submitting p ∨ (∃ b, s.worker = .finishing p b) → p.IsBrowser
  pending : ∀ p, s.worker.current = some p →
    s.shared.pending = some p.pending ∨ s.shared.pending = none
  browser : ∀ p id reply, s.worker = .answered p (.browser id reply) → p.Answers (.browser id reply)

omit [DecidableEq Url] in
theorem Waiting.initial : Waiting ({} : System Url) :=
  ⟨fun _ h => by simp at h, fun _ h => (nomatch h), fun _ _ _ h => (nomatch h)⟩

/-- A step of a call leaves the current prompt pending or drops it. -/
theorem Calls.pending {c : ℕ} (h : Calls parse s c s' o) :
    s'.shared.pending = s.shared.pending ∨ s'.shared.pending = none := by
  cases h with
  | leave => split_ifs <;> simp [System.setPending, System.release, System.quit]
  | erase => exact .inr rfl
  | _ => exact .inl rfl

/-- A step of a call leaves the worker where it is. -/
theorem Calls.worker {c : ℕ} (h : Calls parse s c s' o) :
    s'.worker = s.worker ∧ s'.issued = s.issued ∧ s'.listening = s.listening := by
  cases h with
  | leave => split_ifs <;> exact ⟨rfl, rfl, rfl⟩
  | _ => exact ⟨rfl, rfl, rfl⟩

omit [DecidableEq Url] in
theorem Waiting.works {m : Move Url} (h : Waiting s) (hst : Works s m s' o) : Waiting s' := by
  refine ⟨fun p hp => ?_, fun p hp => ?_, fun p id reply hp => ?_⟩
  · cases hst with
    | opened _ _ _ _ hbrowser | submit _ _ _ _ hbrowser =>
      obtain hp | ⟨b, hp⟩ := hp <;> cases hp
      exact hbrowser
    | done _ p' hw =>
      obtain hp | ⟨b, hp⟩ := hp <;> cases hp
      exact h.transaction p (.inl hw)
    | finish _ report => cases report <;> simp at hp
    | conclude => simp at hp
    | _ => obtain hp | ⟨b, hp⟩ := hp <;> cases hp
  · obtain ⟨hcurrent, hpending⟩ | ⟨-, -, hpending⟩ := hst.current hp
    · rw [hpending]
      exact h.pending p hcurrent
    · exact .inl hpending
  · cases hst with
    | answer p' r hw _ hr =>
      cases hp
      exact absurd rfl (hr id reply)
    | found p' id' reply' origin kind hw hfound =>
      cases hp
      obtain hpending | hpending := h.pending p (by rw [hw]; rfl)
      · rw [hfound] at hpending
        cases p <;> cases hpending
        rfl
      · rw [hfound] at hpending
        cases hpending
    | finish _ report => cases report <;> cases hp
    | _ => cases hp

theorem Waiting.step (h : Waiting s) (hst : (machine parse).step s i = some (s', o)) :
    Waiting s' := by
  obtain ⟨c, k, -, -, rfl, -⟩ | ⟨c, -, hst⟩ | ⟨m, -, hst⟩ | ⟨-, -, rfl, -⟩ := machine_step_cases hst
  · exact ⟨h.transaction, h.pending, h.browser⟩
  · have hw := hst.worker.1
    refine ⟨by rw [hw]; exact h.transaction, fun p hp => ?_, by rw [hw]; exact h.browser⟩
    obtain hpending | hpending := hst.pending
    · rw [hpending]
      exact h.pending p (by rwa [hw] at hp)
    · exact .inr hpending
  · exact h.works hst
  · exact ⟨h.transaction, h.pending, h.browser⟩

/-! ### Answers on their way -/

/-- The response is not for a browser transaction. -/
def Response.direct : Response → Bool
  | .browser .. => false
  | _ => true

def Pending.direct : Pending Url → Bool
  | .browser .. => false
  | _ => true

/-- What the worker has taken out of the queue and has not handled. -/
def Phase.held : Phase Url → List Response
  | .received _ r | .answered _ r => [r]
  | _ => []

/-- The answers on their way, apart from those to browser transactions. -/
def System.flight (s : System Url) : List Response :=
  (s.worker.held ++ s.shared.responses).filter Response.direct

/-- A call has put its answer into the queue and not yet dropped the prompt. -/
def Settling (s : System Url) : Prop := ∃ c q, s.callers c = some (.leave q) ∧ q.settles = true

/-- The pending prompt takes the answer. -/
def Request.Fits : Pending Url → Request → Prop
  | .form prompt, .reply r => prompt.validateReply r = .ok ()
  | .certificate id, .certificateReply id' _ => id' = id
  | .browser id _ _, .browserReply id' _ => id' = id
  | _, _ => False

/-- What was checked under the lock still holds. -/
def Checked (s : System Url) : Prop :=
  ∀ c q, s.callers c = some (.send q) → ∃ p, s.shared.pending = some p ∧ q.Fits p

/-- The state of the answers while nothing is cancelled. -/
structure Flow (s : System Url) : Prop where
  ready : ¬ Settling s → ∀ p, s.shared.pending = some p → p.direct = true →
    (∃ prompt, s.worker.current = some prompt ∧ prompt.pending = p) ∧ s.flight = []
  answers : ∀ r ∈ s.flight, ∃ p, s.worker.current = some p ∧ p.Answers r
  single : s.flight.length ≤ 1

theorem Request.check_eq_ok {q : Request} {sh : Shared Url} (h : q.check parse sh = .ok ()) :
    sh.cancelled = false ∧ ∃ p, sh.pending = some p ∧ q.Fits p := by
  cases q with
  | reply r =>
    obtain ⟨⟨⟩, hmark, h⟩ := Exec.bind_eq_ok.1 h
    rw [Exec.rejectIf_eq_ok] at hmark
    split at h
    · rename_i prompt hp
      exact ⟨hmark, .form prompt, hp, h⟩
    · cases h
  | certificateReply id d =>
    obtain ⟨⟨⟩, hmark, h⟩ := Exec.bind_eq_ok.1 h
    rw [Exec.rejectIf_eq_ok] at hmark
    split at h
    · rename_i current hp
      refine ⟨hmark, .certificate current, hp, ?_⟩
      rw [Exec.rejectIf_eq_ok, bne_eq_false_iff_eq] at h
      exact h.symm
    · cases h
  | browserReply id r =>
    obtain ⟨⟨⟩, hmark, h⟩ := Exec.bind_eq_ok.1 h
    rw [Exec.rejectIf_eq_ok] at hmark
    split at h
    · rename_i current origin kind hp
      obtain ⟨⟨⟩, hid, -⟩ := Exec.bind_eq_ok.1 h
      refine ⟨hmark, .browser current origin kind, hp, ?_⟩
      rw [Exec.rejectIf_eq_ok, bne_eq_false_iff_eq] at hid
      exact hid.symm
    · cases h

omit [DecidableEq Url] in
/-- An answer that the prompt takes answers the prompt. -/
theorem Request.Fits.answers {q : Request} {p : Prompt Url} (h : q.Fits p.pending) :
    p.Answers q.response := by
  cases q <;> cases p <;> exact h

omit [DecidableEq Url] in
theorem Request.Fits.direct {q : Request} {p : Pending Url} (h : q.Fits p) :
    q.response.direct = p.direct ∧ q.settles = p.direct := by
  cases q <;> cases p <;> first | exact ⟨rfl, rfl⟩ | cases h

omit [DecidableEq Url] in
theorem Prompt.IsBrowser.direct {p : Prompt Url} (h : p.IsBrowser) : p.pending.direct = false := by
  cases p <;> first | rfl | cases h

omit [DecidableEq Url] in
/-- Only answers of one kind answer a prompt. -/
theorem Prompt.Answers.direct {p : Prompt Url} {r : Response} (h : p.Answers r) :
    r.direct = p.pending.direct := by
  cases p <;> cases r <;> first | rfl | cases h

omit [DecidableEq Url] in
/-- A step of the worker brings no answer on its way. -/
theorem Works.flight {m : Move Url} (h : Works s m s' o) : s'.flight.Sublist s.flight := by
  -- nothing is held in the phases without an answer, and there the queue gets no longer
  have hqueue : ∀ {w : Phase Url}, w.held = [] → ∀ {q : List Response},
      q.Sublist s.shared.responses →
      ((w.held ++ q).filter Response.direct).Sublist s.flight := by
    intro w hw q hq
    rw [hw]
    exact (hq.trans (List.sublist_append_right _ _)).filter _
  cases h with
  | receive p r rest hw hq =>
    simp only [System.flight, hw, hq, Phase.held, List.nil_append, List.singleton_append]
    exact .refl _
  | answer p r hw =>
    simp only [System.flight, hw, Phase.held]
    exact .refl _
  | found p id reply _ _ hw =>
    simp only [System.flight, hw, Phase.held, List.singleton_append, List.nil_append]
    rw [List.filter_cons_of_neg (by simp [Response.direct])]
  | interrupt _ _ _ rest _ hsub => exact hqueue rfl hsub
  | finish _ report => cases report <;> exact hqueue rfl (.refl _)
  | _ => exact hqueue rfl (.refl _)

omit [DecidableEq Url] in
/-- While nothing is cancelled and nothing times out, the worker leaves a form or a certificate
only with an answer to it. -/
theorem Works.leaves {m : Move Url} {p : Prompt Url} (h : Works s m s' o) (hm : m ≠ .timeout)
    (hmark : s.shared.cancelled = false) (hmarked : Marked s) (hwaiting : Waiting s)
    (hp : s.worker.current = some p) :
    s'.worker.current = some p ∨ p.IsBrowser ∨
      ∃ r, s.worker = .answered p r ∧ s'.worker.held = [] ∧
        s'.shared.responses = s.shared.responses := by
  cases h with
  | call _ hw | announce _ hw | stop _ _ hw | close _ hw | conclude _ _ hw | report _ hw =>
    rw [hw] at hp
    cases hp
  | publish _ hw | poll _ hw | receive _ _ _ hw | lookup _ _ _ hw | answer _ _ hw
  | found _ _ _ _ _ hw | discard _ _ _ hw | again _ _ _ hw | opened _ _ _ hw | submit _ _ _ hw
  | retry _ _ hw | done _ _ hw =>
    rw [hw] at hp
    exact .inl hp
  | stale _ _ _ hw | handle _ _ _ _ _ hw =>
    rw [hw] at hp
    cases hp
    exact .inr (.inr ⟨_, hw, rfl, rfl⟩)
  | finish p' report hw =>
    rw [hw] at hp
    cases hp
    exact .inr (.inl (hwaiting.transaction _ (.inr ⟨_, hw⟩)))
  | interrupt _ _ _ _ _ _ hwhy =>
    -- each reason but an expired wait is a cancellation
    obtain hwhy | hwhy | hwhy | hwhy := hwhy
    · exact absurd hwhy hm
    · rw [hmark] at hwhy
      cases hwhy
    · rw [hmarked.queue hwhy] at hmark
      cases hmark
    · rw [hmarked.returned (hmarked.deaf hwhy)] at hmark
      cases hmark
  | fail _ e hw hw' hwhy =>
    cases hworker : s.worker with
    | announcing p' =>
      rw [hmarked.returned (hmarked.deaf (hwhy p' hworker))] at hmark
      cases hmark
    | answered p' r => exact absurd hworker (hw' p' r)
    | submitting p' =>
      rw [hworker] at hp
      cases hp
      exact .inr (.inl (hwaiting.transaction _ (.inl hworker)))
    | finishing p' b =>
      rw [hworker] at hp
      cases hp
      exact .inr (.inl (hwaiting.transaction _ (.inr ⟨b, hworker⟩)))
    | _ => simp_all [Phase.waits, Phase.current]

omit [DecidableEq Url] in
/-- An answer at a browser transaction is not on its way. -/
theorem Flow.flight_eq_nil (h : Flow s) {p : Prompt Url} (hp : s.worker.current = some p)
    (hbrowser : p.IsBrowser) : s.flight = [] := by
  rw [List.eq_nil_iff_forall_not_mem]
  intro r hr
  obtain ⟨p', hp', hans⟩ := h.answers r hr
  rw [hp] at hp'
  cases hp'
  have hdirect : r.direct = true := (List.mem_filter.1 hr).2
  rw [hans.direct, hbrowser.direct] at hdirect
  cases hdirect

omit [DecidableEq Url] in
/-- Only a new prompt becomes pending. -/
theorem Works.pending {m : Move Url} (h : Works s m s' o) :
    s'.shared.pending = s.shared.pending ∨ s'.shared.pending = none ∨
      ∃ p, s.worker = .entered p ∧ s'.worker = .announcing p ∧
        s'.shared.pending = some p.pending ∧ s.holder = none := by
  cases h with
  | announce p hw hfree => exact .inr (.inr ⟨p, hw, rfl, rfl, hfree⟩)
  | finish | close => exact .inr (.inl rfl)
  | _ => exact .inl rfl

omit [DecidableEq Url] in
/-- When the worker leaves a prompt, nothing is on its way any more; and it does not leave a form
or a certificate that nobody answered. -/
theorem Flow.leaves {m : Move Url} {p : Prompt Url} (h : Flow s) (hst : Works s m s' o)
    (hm : m ≠ .timeout) (hmark : s.shared.cancelled = false) (hmarked : Marked s)
    (hwaiting : Waiting s) (hp : s.worker.current = some p) :
    s'.worker.current = some p ∨
      s'.flight = [] ∧ (p.pending.direct = true → s.flight ≠ []) := by
  have hsub := hst.flight
  obtain hcurrent | hbrowser | ⟨r, hr, hheld, hqueue⟩ := hst.leaves hm hmark hmarked hwaiting hp
  · exact .inl hcurrent
  · rw [h.flight_eq_nil hp hbrowser, List.sublist_nil] at hsub
    exact .inr ⟨hsub, by simp [hbrowser.direct]⟩
  · right
    cases hdirect : r.direct with
    | false =>
      cases r with
      | browser id reply =>
        have hans := hwaiting.browser p id reply hr
        have hbrowser : p.IsBrowser := by cases p <;> first | exact hans | trivial
        rw [h.flight_eq_nil hp hbrowser, List.sublist_nil] at hsub
        exact ⟨hsub, by simp [hbrowser.direct]⟩
      | _ => cases hdirect
    | true =>
      -- the answer was the only one
      have hflight : s.flight = r :: s.shared.responses.filter Response.direct := by
        rw [System.flight, hr, Phase.held, List.singleton_append, List.filter_cons_of_pos hdirect]
      have hsingle := h.single
      rw [hflight, List.length_cons] at hsingle
      refine ⟨?_, by simp [hflight]⟩
      rw [System.flight, hheld, hqueue, List.nil_append]
      exact List.eq_nil_of_length_eq_zero (by omega)

omit [DecidableEq Url] in
theorem Flow.works {m : Move Url} (h : Flow s) (hst : Works s m s' o) (hm : m ≠ .timeout)
    (hmark : s.shared.cancelled = false) (hmarked : Marked s) (hwaiting : Waiting s) : Flow s' := by
  have hsub := hst.flight
  refine ⟨fun hnot p hp hdirect => ?_, fun r hr => ?_, Nat.le_trans hsub.length_le h.single⟩
  · have hnot' : ¬ Settling s := by
      rintro ⟨c, q, hc, hq⟩
      exact hnot ⟨c, q, by rw [hst.frame.callers, hc], hq⟩
    obtain hpending | hpending | ⟨p', hw, hw', hpending, -⟩ := hst.pending
    · rw [hpending] at hp
      obtain ⟨⟨prompt, hcurrent, rfl⟩, hnil⟩ := h.ready hnot' p hp hdirect
      rw [hnil, List.sublist_nil] at hsub
      obtain hcurrent' | ⟨-, hne⟩ := h.leaves hst hm hmark hmarked hwaiting hcurrent
      · exact ⟨⟨prompt, hcurrent', rfl⟩, hsub⟩
      · exact absurd hnil (hne hdirect)
    · rw [hpending] at hp
      cases hp
    · rw [hpending] at hp
      cases hp
      refine ⟨⟨p', by rw [hw']; rfl, rfl⟩, List.eq_nil_iff_forall_not_mem.2 fun r hr => ?_⟩
      obtain ⟨_, hcurrent, -⟩ := h.answers r (hsub.subset hr)
      rw [hw] at hcurrent
      cases hcurrent
  · obtain ⟨p, hp, hans⟩ := h.answers r (hsub.subset hr)
    obtain hcurrent | ⟨hnil, -⟩ := h.leaves hst hm hmark hmarked hwaiting hp
    · exact ⟨p, hcurrent, hans⟩
    · rw [hnil] at hr
      cases hr

omit [DecidableEq Url] in
theorem Settling.goto {c : ℕ} {k k' : Caller} (hc : s.callers c = some k)
    (hk : ∀ q, k ≠ .leave q) (h : Settling s) : Settling (s.goto c k') := by
  obtain ⟨d, q, hd, hq⟩ := h
  refine ⟨d, q, ?_, hq⟩
  rw [goto_callers, if_neg, hd]
  rintro rfl
  rw [hc] at hd
  exact hk q (Option.some.inj hd)

omit [DecidableEq Url] in
theorem Settling.quit {c : ℕ} {k : Caller} (hc : s.callers c = some k)
    (hk : ∀ q, k = .leave q → q.settles = false) (h : Settling s) : Settling (s.quit c) := by
  obtain ⟨d, q, hd, hq⟩ := h
  refine ⟨d, q, ?_, hq⟩
  rw [quit_callers, if_neg, hd]
  rintro rfl
  rw [hc] at hd
  rw [hk q (Option.some.inj hd)] at hq
  cases hq

omit [DecidableEq Url] in
/-- The flow does not depend on the calls that have nothing to drop. -/
theorem Flow.congr (h : Flow s) (hworker : s'.worker = s.worker)
    (hpending : s'.shared.pending = s.shared.pending) (hflight : s'.flight = s.flight)
    (hset : Settling s → Settling s') : Flow s' := by
  refine ⟨fun hnot p hp hdirect => ?_, ?_, ?_⟩
  · rw [hworker, hflight]
    exact h.ready (mt hset hnot) p (by rwa [hpending] at hp) hdirect
  · rw [hworker, hflight]
    exact h.answers
  · rw [hflight]
    exact h.single

theorem Flow.calls {c : ℕ} (h : Flow s) (hst : Calls parse s c s' o)
    (hmark : s'.shared.cancelled = false) (hlock : Locking s) (hmarked : Marked s)
    (hchecked : Checked s) : Flow s' := by
  cases hst with
  | enter q hc =>
    exact h.congr rfl rfl rfl fun hset => (hset.goto hc (by simp) : Settling (s.goto c (.check q)))
  | pass q hc => exact h.congr rfl rfl rfl (·.goto hc (by simp))
  | refuse q e hc =>
    refine h.congr rfl rfl rfl fun hset => ?_
    exact hc.elim (hset.quit · (by simp) : _ → Settling (s.quit c)) (hset.quit · (by simp))
  | send q hc =>
    have hholder := hlock.unique c _ hc trivial
    obtain ⟨p, hp, hfits⟩ := hchecked c q hc
    obtain ⟨hdirect, hsettles⟩ := hfits.direct
    generalize hs' : ({ s.goto c (.leave q) with shared := { s.shared with
      responses := s.shared.responses ++ [q.response] } } : System Url) = s'
    have hflight : s'.flight = s.flight ++ [q.response].filter Response.direct := by
      rw [← hs']
      simp only [System.flight, List.filter_append, List.append_assoc]
      rfl
    have hworker : s'.worker = s.worker := by rw [← hs']; rfl
    have hcallers : s'.callers = (s.goto c (.leave q)).callers := by rw [← hs']
    cases hd : p.direct with
    | false =>
      rw [List.filter_cons_of_neg (by simp [hdirect, hd]), List.filter_nil,
        List.append_nil] at hflight
      refine h.congr hworker (by rw [← hs']) hflight fun hset => ?_
      obtain ⟨d, q', hd', hq'⟩ : Settling (s.goto c (.leave q)) := hset.goto hc (by simp)
      exact ⟨d, q', by rw [hcallers, hd'], hq'⟩
    | true =>
      -- the lock is with this call, so nobody else is dropping the prompt
      have hnot : ¬ Settling s := by
        rintro ⟨d, q', hq', -⟩
        rw [hlock.unique d _ hq' trivial] at hholder
        cases hholder
        rw [hc] at hq'
        cases hq'
      obtain ⟨⟨prompt, hcurrent, rfl⟩, hnil⟩ := h.ready hnot p hp hd
      rw [List.filter_cons_of_pos (by rw [hdirect, hd]), List.filter_nil, hnil,
        List.nil_append] at hflight
      have hset : Settling s' := ⟨c, q, by simp [hcallers], by rw [hsettles, hd]⟩
      refine ⟨fun hnot' => absurd hset hnot', ?_, ?_⟩
      · rw [hflight, hworker]
        intro r hr
        rw [List.mem_singleton.1 hr]
        exact ⟨prompt, hcurrent, hfits.answers⟩
      · rw [hflight]
        exact Nat.le_refl 1
  | leave q hc =>
    cases hq : q.settles with
    | true => exact ⟨fun _ p hp => (nomatch hp), h.answers, h.single⟩
    | false =>
      refine h.congr rfl rfl rfl fun hset => ?_
      exact (hset.quit hc fun q' hq' => by cases hq'; exact hq : Settling (s.quit c))
  | mark => cases hmark
  | skip _ hmark' =>
    rw [show s.shared.cancelled = _ from hmark] at hmark'
    cases hmark'
  | notify hc | overflow hc =>
    have hcalls := hmarked.calls c (.inl hc)
    rw [show s.shared.cancelled = _ from hmark] at hcalls
    cases hcalls
  | erase hc =>
    have hcalls := hmarked.calls c (.inr hc)
    rw [show s.shared.cancelled = _ from hmark] at hcalls
    cases hcalls

/-! ### The checks -/

theorem Checked.calls {c : ℕ} (h : Checked s) (hst : Calls parse s c s' o) (hlock : Locking s) :
    Checked s' := by
  -- a call that sends has the lock, so it is alone with the prompt
  have hsole : ∀ {k : Caller}, s.callers c = some k → k.Locks → ∀ d q,
      s.callers d = some (.send q) → d = c := by
    intro k hc hk d q hd
    have hholder := hlock.unique d _ hd trivial
    rw [hlock.unique c k hc hk] at hholder
    exact (Option.some.inj hholder).symm
  intro d q hd
  cases hst with
  | pass q' hc hq =>
    rw [goto_callers] at hd
    split_ifs at hd with hdc
    · cases hd
      exact (Request.check_eq_ok hq).2
    · exact h d q hd
  | leave q' hc =>
    have hd' : (s.quit c).callers d = some (.send q) := by split_ifs at hd <;> exact hd
    rw [quit_callers] at hd'
    split_ifs at hd' with hdc
    exact absurd (hsole hc trivial d q hd') hdc
  | erase hc hfree =>
    replace hd : (s.quit c).callers d = some (.send q) := hd
    rw [quit_callers] at hd
    split_ifs at hd
    rw [hlock.unique d _ hd trivial] at hfree
    cases hfree
  | refuse q' e hc =>
    replace hd : (s.quit c).callers d = some (.send q) := hd
    rw [quit_callers] at hd
    split_ifs at hd
    exact h d q hd
  | enter q' | send q' | mark | skip | notify | overflow =>
    simp only [System.goto, Function.update_apply] at hd
    split_ifs at hd
    · cases hd
    · exact h d q hd

theorem Checked.step (h : Checked s) (hst : (machine parse).step s i = some (s', o))
    (hlock : Locking s) : Checked s' := by
  obtain ⟨c, k, hk, -, rfl, -⟩ | ⟨c, -, hst⟩ | ⟨m, -, hst⟩ | ⟨-, -, rfl, -⟩ := machine_step_cases hst
  · intro d q hd
    rw [goto_callers] at hd
    split_ifs at hd
    · obtain rfl | ⟨q', rfl⟩ := hk <;> cases hd
    · exact h d q hd
  · exact h.calls hst hlock
  · intro c q hc
    rw [hst.frame.callers] at hc
    rw [hst.frame.pending (by simp [hlock.unique c _ hc trivial])]
    exact h c q hc
  · exact h

/-! ### Everything together -/

/-- The invariant of the machine, as long as no prompt times out. -/
structure Inv (s : System Url) : Prop where
  lock : Locking s
  marked : Marked s
  waiting : Waiting s
  checked : Checked s
  flow : s.shared.cancelled = false → Flow s
  answered : ∀ p r, s.worker = .answered p r → p.Answers r

omit [DecidableEq Url] in
theorem Inv.initial : Inv ({} : System Url) :=
  ⟨.initial, .initial, .initial, fun _ _ h => (nomatch h),
    fun _ => ⟨fun _ _ h => (nomatch h), fun _ h => (nomatch h), Nat.zero_le 1⟩,
    fun _ _ h => (nomatch h)⟩

omit [DecidableEq Url] in
/-- What the worker waited for answers its prompt. -/
theorem Inv.answer {p : Prompt Url} {r : Response} (h : Inv s) (hw : s.worker = .received p r)
    (hmark : s.shared.cancelled = false) (hr : ∀ id reply, r ≠ .browser id reply) :
    p.Answers r := by
  have hdirect : r.direct = true := by
    cases r with
    | browser id reply => exact absurd rfl (hr id reply)
    | _ => rfl
  have hmem : r ∈ s.flight := by simp [System.flight, hw, Phase.held, hdirect]
  obtain ⟨p', hp', hans⟩ := (h.flow hmark).answers r hmem
  rw [hw] at hp'
  cases hp'
  exact hans

/-- The mark stays. -/
theorem mark_mono (hst : (machine parse).step s i = some (s', o))
    (hmark : s'.shared.cancelled = false) : s.shared.cancelled = false := by
  obtain ⟨c, k, -, -, rfl, -⟩ | ⟨c, -, hst⟩ | ⟨m, -, hst⟩ | ⟨-, -, rfl, -⟩ := machine_step_cases hst
  · exact hmark
  · cases hst with
    | mark => cases hmark
    | leave => split_ifs at hmark <;> exact hmark
    | _ => exact hmark
  · rwa [hst.frame.mark] at hmark
  · exact hmark

theorem Inv.step (h : Inv s) (hi : i ≠ .worker .timeout)
    (hst : (machine parse).step s i = some (s', o)) : Inv s' := by
  refine ⟨h.lock.step hst, h.marked.step hst, h.waiting.step hst, h.checked.step hst h.lock,
    fun hmark' => ?_, fun p r hw => ?_⟩
  · have hmark := mark_mono hst hmark'
    have hflow := h.flow hmark
    obtain ⟨c, k, hk, hc, rfl, -⟩ | ⟨c, -, hcalls⟩ | ⟨m, rfl, hworks⟩ | ⟨-, -, rfl, -⟩ :=
      machine_step_cases hst
    · refine hflow.congr rfl rfl rfl fun ⟨d, q, hd, hq⟩ => ⟨d, q, ?_, hq⟩
      rw [goto_callers, if_neg, hd]
      rintro rfl
      rw [hc] at hd
      cases hd
    · exact hflow.calls hcalls hmark' h.lock h.marked h.checked
    · exact hflow.works hworks (fun hm => hi (by rw [hm])) hmark h.marked h.waiting
    · exact hflow.congr rfl rfl rfl fun hset => hset
  · obtain ⟨c, k, -, -, rfl, -⟩ | ⟨c, -, hcalls⟩ | ⟨m, rfl, hworks⟩ | ⟨-, -, rfl, -⟩ :=
      machine_step_cases hst
    · exact h.answered p r hw
    · rw [hcalls.worker.1] at hw
      exact h.answered p r hw
    · cases hworks with
      | answer p' r' hw' hmark hr =>
        cases hw
        exact h.answer hw' hmark hr
      | found p' id reply origin kind hw' hp =>
        cases hw
        exact (h.waiting.works (.found _ _ _ _ _ hw' hp)).browser p id reply rfl
      | finish _ report => cases report <;> cases hw
      | _ => cases hw
    · exact h.answered p r hw

/-- No prompt times out in the step. -/
def Timely (_ : System Url) (i : Input Url) : Prop := i ≠ .worker .timeout

/-- **The invariant holds in every run without timeouts.** -/
theorem Inv.of_run {os : List (Note Url)} (h : (machine parse).Run Timely {} os s) : Inv s :=
  h.invariant (P := fun _ s => Inv s) .initial fun _ _ _ _ _ hs hi hst => hs.step hi hst

end Ocvpn.Auth
