import Ocvpn.Auth.Machine

/-!
# What the steps do

Every step of the worker and its callers, said once: what it needs and what it changes.  Later
proofs go by these cases and not by the definition of the machine.

## Main results

* `works_of_stepWorker` : the steps of the worker.
* `Works.frame` : what they leave alone.
* `Locking.step`, `Marked.step` : the lock of `pending` has one holder, who is at a place that
  holds it; whatever follows a cancellation finds its mark.
-/

namespace Ocvpn.Auth

open Ipc

variable {Url : Type}

/-! ### The worker -/

/-- The response is an answer to the prompt. -/
def Prompt.Answers : Prompt Url → Response → Prop
  | .form prompt, .form reply => prompt.validateReply reply = .ok ()
  | .certificate prompt, .certificate id _ => id = prompt.promptId
  | .browser id _ _, .browser id' _ => id' = id
  | _, _ => False

/-- The prompt is a browser transaction. -/
def Prompt.IsBrowser : Prompt Url → Prop
  | .browser .. => True
  | _ => False

/-- The steps of the worker. -/
inductive Works (s : System Url) : Move Url → System Url → List (Note Url) → Prop
  | call (p : Prompt Url) (hw : s.worker = .native) (hid : p.id ∉ s.issued) :
      Works s (.callback p) { s with worker := .entered p, issued := p.id :: s.issued } []
  | announce (p : Prompt Url) (hw : s.worker = .entered p) (hfree : s.holder = none) :
      Works s .announce { s.setPending (some p.pending) with worker := .announcing p } []
  | publish (p : Prompt Url) (hw : s.worker = .announcing p) :
      Works s .publish { s with worker := .polling p } [.event (.prompted p)]
  | poll (p : Prompt Url) (hw : s.worker = .polling p) (hmark : s.shared.cancelled = false) :
      Works s .poll { s with worker := .receiving p } []
  | receive (p : Prompt Url) (r : Response) (rest : List Response) (hw : s.worker = .receiving p)
      (hq : s.shared.responses = r :: rest) :
      Works s .receive
        { s with worker := .received p r, shared := { s.shared with responses := rest } } []
  | lookup (p : Prompt Url) (id : Uuid) (reply : BrowserReply)
      (hw : s.worker = .received p (.browser id reply)) (hmark : s.shared.cancelled = false) :
      Works s .examine { s with worker := .comparing p id reply } []
  | answer (p : Prompt Url) (r : Response) (hw : s.worker = .received p r)
      (hmark : s.shared.cancelled = false) (hr : ∀ id reply, r ≠ .browser id reply) :
      Works s .examine { s with worker := .answered p r } [.waited p (.ok r)]
  | found (p : Prompt Url) (id : Uuid) (reply : BrowserReply) (origin : Url)
      (kind : NativeBrowserKind) (hw : s.worker = .comparing p id reply)
      (hp : s.shared.pending = some (.browser id origin kind)) :
      Works s .compare { s with worker := .answered p (.browser id reply) }
        [.waited p (.ok (.browser id reply))]
  | discard (p : Prompt Url) (id : Uuid) (reply : BrowserReply)
      (hw : s.worker = .comparing p id reply) : Works s .compare { s with worker := .polling p } []
  | interrupt (m : Move Url) (p : Prompt Url) (e : Error) (rest : List Response)
      (hw : s.worker.waits = some p) (hsub : rest.Sublist s.shared.responses)
      (hwhy : m = .timeout ∨ s.shared.cancelled = true ∨ .cancel ∈ s.shared.responses ∨
        s.listening = false) :
      Works s m ({ s with shared := { s.shared with responses := rest } }.fail e)
        [.waited p (.error e)]
  | stale (m : Move Url) (p : Prompt Url) (r : Response) (hw : s.worker = .answered p r)
      (hr : ¬ p.Answers r) : Works s m (s.fail Auth.stale) [.stale p]
  | handle (m : Move Url) (p : Prompt Url) (r : Response) (f : Option Error)
      (a : List CertificatePin) (hw : s.worker = .answered p r) :
      Works s m { s with worker := .native, failure := f, accepted := a } []
  | again (m : Move Url) (p : Prompt Url) (r : Response) (hw : s.worker = .answered p r)
      (hp : p.IsBrowser) : Works s m { s with worker := .polling p } []
  | opened (m : Move Url) (p : Prompt Url) (r : Response) (hw : s.worker = .answered p r)
      (hp : p.IsBrowser) : Works s m { s with worker := .finishing p false } []
  | submit (m : Move Url) (p : Prompt Url) (page : BrowserPage)
      (hw : s.worker = .answered p (.browser p.id (.page page))) (hp : p.IsBrowser) :
      Works s m { s with worker := .submitting p } [.submitted p p.id page]
  | retry (m : Move Url) (p : Prompt Url) (hw : s.worker = .submitting p) :
      Works s m { s with worker := .polling p } []
  | done (m : Move Url) (p : Prompt Url) (hw : s.worker = .submitting p) :
      Works s m { s with worker := .finishing p true } []
  | finish (p : Prompt Url) (report : Bool) (hw : s.worker = .finishing p report)
      (hfree : s.holder = none) :
      Works s .finish
        { s.setPending none with worker := if report then .reporting p else .native } []
  | report (p : Prompt Url) (hw : s.worker = .reporting p) :
      Works s .report s.resume [.event (.browserFinished p.id)]
  | fail (m : Move Url) (e : Error) (hw : s.worker.waits = none)
      (hw' : ∀ p r, s.worker ≠ .answered p r)
      (hwhy : ∀ p, s.worker = .announcing p → s.listening = false)
      (hlive : s.worker.isOver = false) : Works s m (s.fail e) []
  | stop (m : Move Url) (result : Except Error Unit) (hw : s.worker = .native) :
      Works s m
        { s with worker := .closing result, shared := { s.shared with receiver := false } } []
  | close (result : Except Error Unit) (hw : s.worker = .closing result) (hfree : s.holder = none) :
      Works s .close { s.setPending none with worker := .concluding result } []
  | conclude (result : Except Error Unit) (e : Event Url) (hw : s.worker = .concluding result)
      (he : ∀ p, e ≠ .prompted p) :
      Works s .conclude { s with worker := .ended } [.event e]

variable {s s' : System Url} {o : List (Note Url)}

theorem works_of_handle {rest : Run Unit} {p : Prompt Url} {r : Response} (m : Move Url)
    (hw : s.worker = .answered p r) :
    Works s m (s.handle rest p r).1 (s.handle rest p r).2 := by
  unfold System.handle
  split
  · split
    · exact .handle _ _ _ _ _ hw
    · exact .handle _ _ _ _ _ hw
  · rename_i prompt id decision
    split_ifs with hid
    · exact .stale _ _ _ hw (by simpa [Prompt.Answers] using hid)
    · exact .handle _ _ _ _ _ hw
    · exact .handle _ _ _ _ _ hw
    · exact .handle _ _ _ _ _ hw
  · rename_i id' origin kind id reply
    split_ifs with hid
    · exact .again _ _ _ hw trivial
    · obtain rfl : id = id' := by simpa using hid
      split
      · exact .handle _ _ _ _ _ hw
      · exact .handle _ _ _ _ _ hw
      · exact .opened _ _ _ hw trivial
      · exact .submit _ _ _ hw trivial
      · exact .handle _ _ _ _ _ hw
  · rename_i hform hcertificate hbrowser
    refine .stale _ _ _ hw fun hans => ?_
    cases p <;> cases r <;> try exact hans
    · exact hform _ _ rfl rfl
    · exact hcertificate _ _ _ rfl rfl
    · exact hbrowser _ _ _ _ _ rfl rfl

/-- **The steps of the worker** are those of `Works`. -/
theorem works_of_stepWorker [DecidableEq Url] {m : Move Url}
    (h : s.stepWorker s.worker m = some (s', o)) : Works s m s' o := by
  cases m with
  | callback p =>
    cases hw : s.worker <;> simp only [hw, System.stepWorker, reduceCtorEq] at h
    split_ifs at h with hc
    cases h
    exact .call p hw hc.1
  | fail e =>
    cases hw : s.worker <;> simp only [hw, System.stepWorker, reduceCtorEq] at h
    cases h
    exact .fail _ e (by simp [hw, Phase.waits]) (by simp [hw]) (by simp [hw]) (by rw [hw]; rfl)
  | announce =>
    cases hw : s.worker <;> simp only [hw, System.stepWorker, reduceCtorEq] at h
    split_ifs at h with hc
    cases h
    exact .announce _ hw (by simpa using hc)
  | publish =>
    cases hw : s.worker <;> simp only [hw, System.stepWorker, reduceCtorEq] at h
    split_ifs at h with hc
    · cases h
      exact .publish _ hw
    · cases h
      exact .fail _ _ (by simp [hw, Phase.waits]) (by simp [hw]) (fun _ _ => by simpa using hc)
        (by rw [hw]; rfl)
  | poll =>
    cases hw : s.worker <;> simp only [hw, System.stepWorker, reduceCtorEq] at h
    split_ifs at h with hc
    · cases h
      exact .interrupt _ _ _ _ (by simp [hw, Phase.waits]) (.refl _) (.inr (.inl hc))
    · cases h
      exact .poll _ hw (by simpa using hc)
  | receive =>
    cases hw : s.worker <;> simp only [hw, System.stepWorker, reduceCtorEq] at h
    split at h
    · cases h
    · rename_i r rest hq
      split_ifs at h with hc
      · cases h
        exact .interrupt _ _ _ _ (by simp [hw, Phase.waits]) (by simp [hq])
          (.inr (.inr (.inl (by simp [hq, hc]))))
      · cases h
        exact .receive _ _ _ hw hq
  | timeout =>
    cases hw : s.worker <;> simp only [hw, System.stepWorker, reduceCtorEq] at h
    cases h
    exact .interrupt _ _ _ _ (by simp [hw, Phase.waits]) (.refl _) (.inl rfl)
  | disconnect =>
    cases hw : s.worker <;> simp only [hw, System.stepWorker, reduceCtorEq] at h
    split_ifs at h with hc
    cases h
    exact .interrupt _ _ _ _ (by simp [hw, Phase.waits]) (.refl _)
      (.inr (.inr (.inr (by simpa using hc.2))))
  | examine =>
    cases hw : s.worker <;> simp only [hw, System.stepWorker, reduceCtorEq] at h
    split_ifs at h with hc
    · cases h
      exact .interrupt _ _ _ _ (by simp [hw, Phase.waits]) (.refl _) (.inr (.inl hc))
    · split at h
      · cases h
        exact .lookup _ _ _ hw (by simpa using hc)
      · rename_i hr
        cases h
        exact .answer _ _ hw (by simpa using hc) hr
  | compare =>
    cases hw : s.worker <;> simp only [hw, System.stepWorker, reduceCtorEq] at h
    split_ifs at h with hfree
    split at h
    · rename_i current origin kind hp
      split_ifs at h with hc
      · cases h
        exact .found _ _ _ _ _ hw (hc ▸ hp)
      · cases h
        exact .discard _ _ _ hw
    · cases h
      exact .discard _ _ _ hw
  | handle rest =>
    cases hw : s.worker <;>
      simp only [hw, System.stepWorker, reduceCtorEq, Option.some.injEq] at h
    rw [show s' = _ from congrArg Prod.fst h.symm, show o = _ from congrArg Prod.snd h.symm]
    exact works_of_handle _ hw
  | submitted result =>
    cases hw : s.worker <;> simp only [hw, System.stepWorker, reduceCtorEq] at h
    split at h
    · cases h
      exact .fail _ _ (by simp [hw, Phase.waits]) (by simp [hw]) (by simp [hw]) (by rw [hw]; rfl)
    · split_ifs at h
      · cases h
        exact .retry _ _ hw
      · cases h
        exact .fail _ _ (by simp [hw, Phase.waits]) (by simp [hw]) (by simp [hw]) (by rw [hw]; rfl)
      · cases h
        exact .done _ _ hw
  | finish =>
    cases hw : s.worker <;> simp only [hw, System.stepWorker, reduceCtorEq] at h
    by_cases hc : s.holder.isNone = true
    · rw [if_pos hc] at h
      cases h
      exact .finish _ _ hw (by simpa using hc)
    · rw [if_neg hc] at h
      cases h
  | report =>
    cases hw : s.worker <;> simp only [hw, System.stepWorker, reduceCtorEq] at h
    split_ifs at h with hc
    · cases h
      exact .report _ hw
    · cases h
      exact .fail _ _ (by simp [hw, Phase.waits]) (by simp [hw]) (by simp [hw]) (by rw [hw]; rfl)
  | stop code handoff =>
    cases hw : s.worker <;> simp only [hw, System.stepWorker, reduceCtorEq] at h
    cases h
    exact .stop _ _ hw
  | close =>
    cases hw : s.worker <;> simp only [hw, System.stepWorker, reduceCtorEq] at h
    split_ifs at h with hc
    cases h
    exact .close _ hw (by simpa using hc)
  | conclude =>
    cases hw : s.worker <;> simp only [hw, System.stepWorker, reduceCtorEq] at h
    cases h
    refine .conclude _ _ hw fun p => ?_
    repeat' split
    all_goals simp

/-- What a step of the worker leaves alone, whatever it is. -/
structure Frame (s s' : System Url) : Prop where
  callers : s'.callers = s.callers
  holder : s'.holder = s.holder
  cancelled : s'.cancelled = s.cancelled
  listening : s'.listening = s.listening
  mark : s'.shared.cancelled = s.shared.cancelled
  responses : ∀ r ∈ s'.shared.responses, r ∈ s.shared.responses
  pending : s.holder ≠ none → s'.shared.pending = s.shared.pending

theorem Works.frame {m : Move Url} (h : Works s m s' o) : Frame s s' := by
  cases h with
  | announce _ _ hfree => exact ⟨rfl, rfl, rfl, rfl, rfl, fun _ => id, fun hne => absurd hfree hne⟩
  | finish _ _ _ hfree => exact ⟨rfl, rfl, rfl, rfl, rfl, fun _ => id, fun hne => absurd hfree hne⟩
  | close _ _ hfree => exact ⟨rfl, rfl, rfl, rfl, rfl, fun _ => id, fun hne => absurd hfree hne⟩
  | receive _ r rest _ hq =>
    refine ⟨rfl, rfl, rfl, rfl, rfl, fun r' hr' => ?_, fun _ => rfl⟩
    rw [hq]
    exact List.mem_cons_of_mem _ hr'
  | interrupt _ _ _ _ _ hsub => exact ⟨rfl, rfl, rfl, rfl, rfl, fun _ => (hsub.subset ·), fun _ => rfl⟩
  | _ => exact ⟨rfl, rfl, rfl, rfl, rfl, fun _ => id, fun _ => rfl⟩

/-- The worker is at a prompt after the step: it was already, or the prompt becomes current. -/
theorem Works.current {m : Move Url} {p : Prompt Url} (h : Works s m s' o)
    (hp : s'.worker.current = some p) :
    (s.worker.current = some p ∧ s'.shared.pending = s.shared.pending) ∨
      (s.worker = .entered p ∧ s.holder = none ∧ s'.shared.pending = some p.pending) := by
  cases h with
  | announce p' hw hfree =>
    cases hp
    exact .inr ⟨hw, hfree, rfl⟩
  | finish p' report => cases report <;> cases hp
  | publish _ hw | poll _ hw | receive _ _ _ hw | lookup _ _ _ hw | answer _ _ hw
  | found _ _ _ _ _ hw | discard _ _ _ hw | again _ _ _ hw | opened _ _ _ hw | submit _ _ _ hw
  | retry _ _ hw | done _ _ hw =>
    cases hp
    exact .inl ⟨by rw [hw]; rfl, rfl⟩
  | _ => cases hp

/-! ### The callers -/

/-- The steps of a call. -/
inductive Calls [DecidableEq Url] (parse : String → Option Url) (s : System Url) (c : ℕ) :
    System Url → List (Note Url) → Prop
  | enter (q : Request) (hc : s.callers c = some (.enter q)) (hfree : s.holder = none) :
      Calls parse s c { s.goto c (.check q) with holder := some c } []
  | pass (q : Request) (hc : s.callers c = some (.check q)) (hq : q.check parse s.shared = .ok ()) :
      Calls parse s c (s.goto c (.send q)) []
  | refuse (q : Request) (e : Fault Error)
      (hc : s.callers c = some (.check q) ∨ s.callers c = some (.send q)) :
      Calls parse s c (s.release c) [.returned c (.error e)]
  | send (q : Request) (hc : s.callers c = some (.send q)) (hreceiver : s.shared.receiver = true) :
      Calls parse s c
        { s.goto c (.leave q) with
          shared := { s.shared with responses := s.shared.responses ++ [q.response] } }
        [.accepted c q s.shared.pending]
  | leave (q : Request) (hc : s.callers c = some (.leave q)) :
      Calls parse s c (if q.settles then (s.release c).setPending none else s.release c)
        [.returned c (.ok ())]
  | mark (hc : s.callers c = some .swap) :
      Calls parse s c { s.goto c .notify with shared := { s.shared with cancelled := true } } []
  | skip (hc : s.callers c = some .swap) (hmark : s.shared.cancelled = true) :
      Calls parse s c (s.goto c .erase) []
  | notify (hc : s.callers c = some .notify) :
      Calls parse s c
        { s.goto c .erase with
          shared := { s.shared with responses := s.shared.responses ++ [.cancel] } } []
  | overflow (hc : s.callers c = some .notify)
      (hfull : s.shared.receiver = true → responseLimit ≤ s.shared.responses.length) :
      Calls parse s c (s.goto c .erase) []
  | erase (hc : s.callers c = some .erase) (hfree : s.holder = none) :
      Calls parse s c { (s.quit c).setPending none with cancelled := true } [.cancelReturned c]

theorem sendResponse_eq_ok {sh sh' : Shared Url} {r : Response} :
    sh.sendResponse r = .ok sh' ↔
      sh.receiver = true ∧ sh.responses.length < responseLimit ∧
        sh' = { sh with responses := sh.responses ++ [r] } := by
  unfold Shared.sendResponse
  cases hr : sh.receiver with
  | false => simp
  | true =>
    by_cases hl : sh.responses.length < responseLimit
    · simp [hl, Nat.not_le.2 hl, eq_comm]
    · simp [hl, Nat.not_lt.1 hl]

variable [DecidableEq Url] {parse : String → Option Url}

/-- **The steps of a call** are those of `Calls`. -/
theorem calls_of_stepCaller {c : ℕ} {k : Caller} (hc : s.callers c = some k)
    (h : s.stepCaller parse c k = some (s', o)) : Calls parse s c s' o := by
  cases k with
  | enter q =>
    simp only [System.stepCaller] at h
    split_ifs at h with hfree
    cases h
    exact .enter q hc (by simpa using hfree)
  | check q =>
    simp only [System.stepCaller] at h
    split at h
    · rename_i hq
      cases h
      exact .pass q hc hq
    · cases h
      exact .refuse q _ (.inl hc)
  | send q =>
    simp only [System.stepCaller] at h
    split at h
    · rename_i shared hq
      obtain ⟨hr, -, rfl⟩ := sendResponse_eq_ok.1 hq
      cases h
      exact .send q hc hr
    · cases h
      exact .refuse q _ (.inr hc)
  | leave q =>
    simp only [System.stepCaller, Option.some.injEq] at h
    rw [show s' = _ from congrArg Prod.fst h.symm, show o = _ from congrArg Prod.snd h.symm]
    exact .leave q hc
  | swap =>
    simp only [System.stepCaller] at h
    split_ifs at h with hmark
    · cases h
      exact .skip hc hmark
    · cases h
      exact .mark hc
  | notify =>
    simp only [System.stepCaller] at h
    split at h
    · rename_i shared hq
      obtain ⟨-, -, rfl⟩ := sendResponse_eq_ok.1 hq
      cases h
      exact .notify hc
    · rename_i e hq
      cases h
      -- the queue refused, though somebody listens: it was full
      refine .overflow hc fun hr => ?_
      by_contra hl
      rw [sendResponse_eq_ok.2 ⟨hr, Nat.not_le.1 hl, rfl⟩] at hq
      cases hq
  | erase =>
    simp only [System.stepCaller] at h
    split_ifs at h with hfree
    cases h
    exact .erase hc (by simpa using hfree)

/-- A step of the machine: somebody begins a call, a call goes on, the worker goes on, or the
session is dropped. -/
theorem machine_step_cases {i : Input Url} (h : (machine parse).step s i = some (s', o)) :
    (∃ c k, (k = .swap ∨ ∃ q, k = .enter q) ∧ s.callers c = none ∧ s' = s.goto c k ∧ o = []) ∨
    (∃ c, i = .caller c ∧ Calls parse s c s' o) ∨
    (∃ m, i = .worker m ∧ Works s m s' o) ∨
    (i = .dropEvents ∧ s.cancelled = true ∧ s' = { s with listening := false } ∧ o = []) := by
  cases i with
  | call c q =>
    simp only [machine] at h
    split_ifs at h with hc
    cases h
    exact .inl ⟨c, _, .inr ⟨q, rfl⟩, hc, rfl, rfl⟩
  | cancel c =>
    simp only [machine] at h
    split_ifs at h with hc
    cases h
    exact .inl ⟨c, _, .inl rfl, hc, rfl, rfl⟩
  | caller c =>
    simp only [machine] at h
    split at h
    · rename_i k hc
      exact .inr (.inl ⟨c, rfl, calls_of_stepCaller hc h⟩)
    · cases h
  | worker m => exact .inr (.inr (.inl ⟨m, rfl, works_of_stepWorker h⟩))
  | dropEvents =>
    simp only [machine] at h
    split_ifs at h with hc
    cases h
    exact .inr (.inr (.inr ⟨rfl, hc, rfl, rfl⟩))

end Ocvpn.Auth
