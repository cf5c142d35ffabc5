import Ocvpn.Browser.Methods
import Ocvpn.LTS.Basic

/-!
# The account that is submitted

Whatever the engine, the ledger and the reader of the prompts do, a GlobalProtect flow gives the
engine no page but the one of the account that the user was last asked about, and confirmed.

## Main results

* `Inv.step` : the invariant of a run of a flow.
* `confirmed_account_submitted` : what holds at every step that submits a page.
-/

namespace Ocvpn.Browser

open Auth Crash Ipc Net

variable {Url : Type}

/-! ### What was shown -/

/-- The last method that was called. -/
def lastCall (os : List (Note Url)) : Option Call :=
  (os.filterMap fun
    | .called k => some k
    | _ => none).getLast?

variable [DecidableEq Url]

/-- A run of the flow, with everything it shows. -/
abbrev Runs (cs : Crates Url) (request : BrowserRequest Url) :=
  (machine cs request).Run fun _ _ => True

/-- A call of the flow asks for the confirmation of a completion that it was given; the ledger's
file is the one of `u` before the call, and the one of `v` after it. -/
structure Asking (cs : Crates Url) (request : BrowserRequest Url) (c : GpCompletion) (k : Call)
    (u v : System Url) : Prop where
  step : ∃ clock cuts, (machine cs request).step u (.call k clock cuts) = some (v,
    [.called k, .prompted (u.flow.prompt .confirmAccount (some c.username)), .returned k (.ok ())])
  found : k.completion cs.markup = some c
  recorded : Recorded cs request c u.file v.file

/-- On the run from `s₀` to `s`, the last account to confirm was that of the completion `c`. -/
def Shown (cs : Crates Url) (request : BrowserRequest Url) (s₀ : System Url) (os : List (Note Url))
    (s : System Url) (c : GpCompletion) : Prop :=
  ∃ k u v xs zs, Runs cs request s₀ xs u ∧ Asking cs request c k u v ∧ Runs cs request v zs s ∧
    os = xs ++ [.called k, .prompted (u.flow.prompt .confirmAccount (some c.username)),
      .returned k (.ok ())] ++ zs ∧ ∀ n ∈ zs, ¬ n.Asks

/-- What holds in a state where a page reaches the engine. -/
structure Confirmed (cs : Crates Url) (request : BrowserRequest Url) (s₀ : System Url)
    (before : List (Note Url)) (s : System Url) (page : BrowserPage) : Prop where
  call : lastCall before = some (.confirm true)
  account : ∃ c, page = cs.submission request c ∧ Shown cs request s₀ before s c
  first : ∀ n ∈ before, ¬ n.Submits
  unrejected : ∀ n ∈ before, ¬ n.Rejects

variable {cs : Crates Url} {request : BrowserRequest Url} {os o : List (Note Url)}
  {c : GpCompletion} {s₀ s s' : System Url} {i : Input Url}

theorem Shown.tail (h : Shown cs request s₀ os s c)
    (hst : (machine cs request).step s i = some (s', o)) (ho : ∀ n ∈ o, ¬ n.Asks) :
    Shown cs request s₀ (os ++ o) s' c := by
  obtain ⟨k, u, v, xs, zs, hbefore, hasking, hafter, rfl, hzs⟩ := h
  refine ⟨k, u, v, xs, zs ++ o, hbefore, hasking, hafter.tail trivial hst, by simp, ?_⟩
  exact List.forall_mem_append.2 ⟨hzs, ho⟩

omit [DecidableEq Url] in
theorem lastCall_append (ho : ∀ n ∈ o, ∀ k, n ≠ .called k) : lastCall (os ++ o) = lastCall os := by
  have hnone : o.filterMap (fun | .called k => some k | _ => none) = ([] : List Call) := by
    rw [List.filterMap_eq_nil_iff]
    intro n hn
    cases n with
    | called k => exact absurd rfl (ho _ hn k)
    | _ => rfl
  simp only [lastCall, List.filterMap_append, hnone, List.append_nil]

omit [DecidableEq Url] in
theorem lastCall_called (k : Call) : lastCall (os ++ [.called k]) = some k := by
  simp [lastCall]

/-! ### The invariant -/

/-- The places of the flow's call that brings the page of a completion. -/
inductive Bringing (cs : Crates Url) (request : BrowserRequest Url) (s₀ : System Url)
    (os : List (Note Url)) (s : System Url) : Caller → Prop
  | enter (c : GpCompletion) (id : Uuid) (hshown : Shown cs request s₀ os s c)
      (hunsent : ∀ n ∈ os, ¬ n.Submits) :
      Bringing cs request s₀ os s (.enter (.browserReply id (.page (cs.submission request c))))
  | check (c : GpCompletion) (id : Uuid) (hshown : Shown cs request s₀ os s c)
      (hunsent : ∀ n ∈ os, ¬ n.Submits) :
      Bringing cs request s₀ os s (.check (.browserReply id (.page (cs.submission request c))))
  | send (c : GpCompletion) (id : Uuid) (hshown : Shown cs request s₀ os s c)
      (hunsent : ∀ n ∈ os, ¬ n.Submits) (hlive : ∀ n ∈ os, ¬ n.Rejects) :
      Bringing cs request s₀ os s (.send (.browserReply id (.page (cs.submission request c))))
  | leave (id : Uuid) (page : BrowserPage) :
      Bringing cs request s₀ os s (.leave (.browserReply id (.page page)))

/-- The places of the flow's call that cancels. -/
inductive Cancelling (mark : Bool) : Caller → Prop
  | swap : Cancelling mark .swap
  | notify (hmark : mark = true) : Cancelling mark .notify
  | erase (hmark : mark = true) : Cancelling mark .erase

/-- A run of a flow. -/
structure Inv (cs : Crates Url) (request : BrowserRequest Url) (s₀ : System Url)
    (os : List (Note Url)) (s : System Url) : Prop where
  run : Runs cs request s₀ os s
  same : s.flow.request = request
  /-- No method is in a call of the engine. -/
  idle : s.doing = none → s.native.callers 0 = none ∧
    (∀ c, s.flow.pending = some c → Shown cs request s₀ os s c) ∧
    (s.flow.submitted = false → ∀ n ∈ os, ¬ n.Submits)
  doing : ∀ k, s.doing = some k → (∃ accepted, k = .confirm accepted) ∧ s.flow.pending = none ∧
    s.flow.submitted = false
  accepting : s.doing = some (.confirm true) → lastCall os = some (.confirm true) ∧
    ∃ x, s.native.callers 0 = some x ∧ Bringing cs request s₀ os s x
  rejecting : s.doing = some (.confirm false) → (∀ n ∈ os, ¬ n.Submits) ∧
    ∃ x, s.native.callers 0 = some x ∧ Cancelling s.native.shared.cancelled x
  submitted : s.flow.submitted = true → s.flow.pending = none
  rejected : (∃ n ∈ os, n.Rejects) → s.native.shared.cancelled = true

theorem Inv.initial (h : (machine cs request).init s) : Inv cs request s [] s := by
  obtain ⟨hflow, hdoing, hcaller⟩ := h
  refine ⟨.refl, by rw [hflow], fun _ => ⟨hcaller, by simp [hflow], by simp⟩, ?_, ?_, ?_, ?_,
    by simp⟩
  · simp [hdoing]
  · simp [hdoing]
  · simp [hdoing]
  · simp [hflow]

/-- A step that adds nothing that matters. -/
theorem Bringing.tail {x : Caller} (h : Bringing cs request s₀ os s x)
    (hst : (machine cs request).step s i = some (s', o)) (ho : ∀ n ∈ o, n.Idle) :
    Bringing cs request s₀ (os ++ o) s' x := by
  cases h with
  | enter c id hshown hunsent =>
    exact .enter c id (hshown.tail hst fun n hn => (ho n hn).asks)
      (List.forall_mem_append.2 ⟨hunsent, fun n hn => (ho n hn).submits⟩)
  | check c id hshown hunsent =>
    exact .check c id (hshown.tail hst fun n hn => (ho n hn).asks)
      (List.forall_mem_append.2 ⟨hunsent, fun n hn => (ho n hn).submits⟩)
  | send c id hshown hunsent hlive =>
    exact .send c id (hshown.tail hst fun n hn => (ho n hn).asks)
      (List.forall_mem_append.2 ⟨hunsent, fun n hn => (ho n hn).submits⟩)
      (List.forall_mem_append.2 ⟨hlive, fun n hn => (ho n hn).rejects⟩)
  | leave id page => exact .leave id page

/-- The flow's call that brings a page goes on. -/
theorem Bringing.own {x : Caller} (h : Bringing cs request s₀ os s x)
    {o : List (Auth.Note Url)} (hx : s.native.callers 0 = some x)
    (hst : (machine cs request).step s i = some (s', o.map .native))
    (hcalls : Calls cs.parse s.native 0 s'.native o) (ho : engineResult o = none)
    (hlive : (∃ n ∈ os, n.Rejects) → s.native.shared.cancelled = true) :
    ∃ x', s'.native.callers 0 = some x' ∧ Bringing cs request s₀ (os ++ o.map .native) s' x' := by
  generalize s'.native = a' at hcalls ⊢
  cases hcalls with
  | enter q hc hfree =>
    rw [hx] at hc
    cases hc
    cases h with | enter c id hshown hunsent =>
    have hshown' := hshown.tail hst (by simp)
    rw [List.map_nil, List.append_nil] at hshown' ⊢
    exact ⟨_, goto_self s.native 0 _, .check c id hshown' hunsent⟩
  | pass q hc hq =>
    rw [hx] at hc
    cases hc
    cases h with | check c id hshown hunsent =>
    have hshown' := hshown.tail hst (by simp)
    rw [List.map_nil, List.append_nil] at hshown' ⊢
    refine ⟨_, goto_self s.native 0 _, .send c id hshown' hunsent fun n hn hrejects => ?_⟩
    have hcancelled := hlive ⟨n, hn, hrejects⟩
    simp [Auth.Request.check, Shared.browserCheck, hcancelled, Exec.rejectIf, Exec.fail, bind,
      Except.bind] at hq
  | send q hc hreceiver =>
    rw [hx] at hc
    cases hc
    cases h with | send c id hshown hunsent hlive =>
    exact ⟨_, goto_self s.native 0 _, .leave id _⟩
  | refuse | leave | erase => cases ho
  | mark hc | skip hc | notify hc | overflow hc =>
    rw [hx] at hc
    cases hc
    cases h

/-- The flow's call that cancels goes on. -/
theorem Cancelling.own {parse : String → Option Url} {x : Caller} {a a' : Auth.System Url}
    {o : List (Auth.Note Url)} (h : Cancelling a.shared.cancelled x) (hx : a.callers 0 = some x)
    (hcalls : Calls parse a 0 a' o) (ho : engineResult o = none) :
    o = [] ∧ ∃ x', a'.callers 0 = some x' ∧ Cancelling a'.shared.cancelled x' := by
  cases hcalls with
  | enter q hc | pass q hc | send q hc =>
    rw [hx] at hc
    cases hc
    cases h
  | refuse | leave | erase => cases ho
  | mark => exact ⟨rfl, _, goto_self a 0 _, .notify rfl⟩
  | skip _ hmark => exact ⟨rfl, _, goto_self a 0 _, .erase hmark⟩
  | notify hc | overflow hc =>
    rw [hx] at hc
    cases hc
    cases h with | notify hmark =>
    exact ⟨rfl, _, goto_self a 0 _, .erase hmark⟩

omit [DecidableEq Url] in
theorem idle_of_foreign {o : List (Auth.Note Url)} (ho : ∀ n ∈ o, Foreign n) :
    ∀ n ∈ o.map (Note.native : Auth.Note Url → Note Url), n.Idle := by
  intro n hn
  obtain ⟨m, hm, rfl⟩ := List.mem_map.1 hn
  refine ⟨fun hsub => ?_, id, id⟩
  unfold Note.Submits at hsub
  split at hsub
  · rename_i heq
    cases heq
    exact ho _ hm
  · exact hsub

omit [DecidableEq Url] in
theorem lastCall_native (o : List (Auth.Note Url)) :
    lastCall (os ++ o.map .native) = lastCall os :=
  lastCall_append (by simp)

namespace Inv

/-- Whoever rejected is still known after entries that do not matter. -/
theorem rejected_append (h : Inv cs request s₀ os s) (ho : ∀ n ∈ o, ¬ n.Rejects)
    (hmark : s.native.shared.cancelled = true → s'.native.shared.cancelled = true) :
    (∃ n ∈ os ++ o, n.Rejects) → s'.native.shared.cancelled = true := by
  rintro ⟨n, hn, hrejects⟩
  rcases List.mem_append.1 hn with hn | hn
  · exact hmark (h.rejected ⟨n, hn, hrejects⟩)
  · exact absurd hrejects (ho n hn)

/-- A step of somebody else. -/
theorem other (h : Inv cs request s₀ os s)
    (hst : (machine cs request).step s i = some (s', o)) (hdoing : s'.doing = s.doing)
    (hflow : Unmoved s s') (hcaller : s'.native.callers 0 = s.native.callers 0)
    (hmark : s.native.shared.cancelled = true → s'.native.shared.cancelled = true)
    (ho : ∀ n ∈ o, n.Idle) (hcall : s.doing ≠ none → lastCall (os ++ o) = lastCall os) :
    Inv cs request s₀ (os ++ o) s' := by
  refine ⟨h.run.tail trivial hst, hflow.request.trans h.same, fun hd => ?_, fun k hk => ?_,
    fun hd => ?_, fun hd => ?_, fun hsub => ?_,
    h.rejected_append (fun n hn => (ho n hn).rejects) hmark⟩
  · obtain ⟨hnone, hshown, hunsent⟩ := h.idle (hdoing ▸ hd)
    refine ⟨hcaller.trans hnone, fun c hc => ?_, fun hsub => ?_⟩
    · exact (hshown c (hflow.pending ▸ hc)).tail hst fun n hn => (ho n hn).asks
    · exact List.forall_mem_append.2
        ⟨hunsent (hflow.submitted ▸ hsub), fun n hn => (ho n hn).submits⟩
  · rw [hflow.pending, hflow.submitted]
    exact h.doing k (hdoing ▸ hk)
  · rw [hdoing] at hd
    obtain ⟨hlast, x, hx, hbringing⟩ := h.accepting hd
    exact ⟨(hcall (by simp [hd])).trans hlast, x, hcaller.trans hx, hbringing.tail hst ho⟩
  · obtain ⟨hunsent, x, hx, hcancelling⟩ := h.rejecting (hdoing ▸ hd)
    refine ⟨List.forall_mem_append.2 ⟨hunsent, fun n hn => (ho n hn).submits⟩, x,
      hcaller.trans hx, ?_⟩
    cases hcancelling with
    | swap => exact .swap
    | notify hm => exact .notify (hmark hm)
    | erase hm => exact .erase (hmark hm)
  · rw [hflow.pending]
    exact h.submitted (hflow.submitted ▸ hsub)

/-- A method asks for a confirmation. -/
theorem ask (h : Inv cs request s₀ os s) {k : Call} {clock : Except Error ℕ}
    {cuts : List (Cut Error)} (hst : (machine cs request).step s (.call k clock cuts) = some (s',
      [.called k, .prompted (s.flow.prompt .confirmAccount (some c.username)),
        .returned k (.ok ())]))
    (hdoing : s.doing = none) (hbeside : Beside s s')
    (hfree : s.flow.pending = none ∧ s.flow.submitted = false)
    (hflow : s'.flow = { s.flow with pending := some c })
    (hk : k.completion cs.markup = some c)
    (hrecorded : Recorded cs s.flow.request c s.file s'.file) :
    Inv cs request s₀ (os ++ [.called k, .prompted (s.flow.prompt .confirmAccount (some c.username)),
      .returned k (.ok ())]) s' := by
  have hnew : ∀ n ∈ ([.called k, .prompted (s.flow.prompt .confirmAccount (some c.username)),
      .returned k (.ok ())] : List (Note Url)), ¬ n.Submits ∧ ¬ n.Rejects := by
    intro n hn
    simp only [List.mem_cons, List.not_mem_nil, or_false] at hn
    rcases hn with rfl | rfl | rfl
    · exact ⟨id, id⟩
    · exact ⟨id, id⟩
    · exact ⟨id, by cases k <;> simp [Note.Rejects]⟩
  obtain ⟨hnone, -, hunsent⟩ := h.idle hdoing
  have hdoing' : s'.doing = none := hbeside.doing.trans hdoing
  refine ⟨h.run.tail trivial hst, by rw [hflow]; exact h.same,
    fun _ => ⟨by rw [hbeside.native, hnone], fun c' hc' => ?_, fun _ => ?_⟩, by simp [hdoing'],
    by simp [hdoing'], by simp [hdoing'], by simp [hflow, hfree.2],
    h.rejected_append (fun n hn => (hnew n hn).2) (by rw [hbeside.native]; exact id)⟩
  · rw [hflow] at hc'
    cases hc'
    exact ⟨k, s, s', os, [], h.run, ⟨⟨_, _, hst⟩, hk, h.same ▸ hrecorded⟩, .refl, by simp, by simp⟩
  · exact List.forall_mem_append.2 ⟨hunsent hfree.2, fun n hn => (hnew n hn).1⟩

/-- The user answers. -/
theorem confirm (h : Inv cs request s₀ os s) {accepted : Bool}
    (hst : (machine cs request).step s i = some (s', [.called (.confirm accepted)]))
    (hdoing : s.doing = none) (hp : s.flow.pending = some c)
    (hflow : s'.flow = { s.flow with pending := none })
    (hdoing' : s'.doing = some (.confirm accepted))
    (hcaller : s'.native.callers 0 = some (if accepted then
      .enter (.browserReply s.flow.request.transactionId
        (.page (cs.submission s.flow.request c))) else .swap))
    (hmark : s'.native.shared = s.native.shared) :
    Inv cs request s₀ (os ++ [.called (.confirm accepted)]) s' := by
  obtain ⟨-, hshown, hunsent⟩ := h.idle hdoing
  have hsub : s.flow.submitted = false := by
    by_contra hsub
    rw [h.submitted (by simpa using hsub)] at hp
    cases hp
  have hnew : ∀ n ∈ [(.called (.confirm accepted) : Note Url)], n.Idle := by
    simp only [List.mem_singleton, forall_eq]
    exact ⟨id, id, id⟩
  have hunsent' := List.forall_mem_append.2 ⟨hunsent hsub, fun n hn => (hnew n hn).submits⟩
  refine ⟨h.run.tail trivial hst, by rw [hflow]; exact h.same,
    by simp [hdoing'], ?_, fun hd => ?_, fun hd => ?_, by simp [hflow],
    h.rejected_append (fun n hn => (hnew n hn).rejects) (by rw [hmark]; exact id)⟩
  · rintro k hk
    rw [hdoing', Option.some.injEq] at hk
    exact ⟨⟨accepted, hk.symm⟩, by rw [hflow], by rw [hflow]; exact hsub⟩
  · obtain rfl : accepted = true := by simpa [hdoing'] using hd
    refine ⟨lastCall_called _, _, hcaller, ?_⟩
    rw [if_pos rfl, h.same]
    exact .enter c _ ((hshown c hp).tail hst fun n hn => (hnew n hn).asks) hunsent'
  · obtain rfl : accepted = false := by simpa [hdoing'] using hd
    refine ⟨hunsent', _, hcaller, ?_⟩
    exact .swap

/-- The flow's call goes on. -/
theorem own (h : Inv cs request s₀ os s) {o : List (Auth.Note Url)}
    (hst : (machine cs request).step s i = some (s', o.map .native)) (hdoing : s'.doing = s.doing)
    (hflow : s'.flow = s.flow) (hcalls : Calls cs.parse s.native 0 s'.native o)
    (ho : engineResult o = none) : Inv cs request s₀ (os ++ o.map .native) s' := by
  have hrun := h.run.tail trivial hst
  have hmark := mark_of_calls hcalls
  have hdone : ∀ n ∈ o.map (Note.native : Auth.Note Url → Note Url), ¬ n.Rejects := by
    simp [Note.Rejects]
  cases hd : s.doing with
  | none => exact absurd (h.idle hd).1 (callers_of_calls hcalls)
  | some k =>
    obtain ⟨⟨accepted, rfl⟩, hpending, hsub⟩ := h.doing k hd
    have hdoing' := fun k (hk : s'.doing = some k) => h.doing k (hdoing ▸ hk)
    rw [hd] at hdoing
    cases accepted with
    | false =>
      obtain ⟨hunsent, x, hx, hcancelling⟩ := h.rejecting hd
      obtain ⟨rfl, x', hx', hcancelling'⟩ := hcancelling.own hx hcalls ho
      rw [List.map_nil, List.append_nil] at hrun ⊢
      exact ⟨hrun, by rw [hflow]; exact h.same, by simp [hdoing], by rwa [hflow],
        by simp [hdoing], fun _ => ⟨hunsent, x', hx', hcancelling'⟩, by simp [hflow, hsub],
        fun hrejected => hmark (h.rejected hrejected)⟩
    | true =>
      obtain ⟨hlast, x, hx, hbringing⟩ := h.accepting hd
      obtain ⟨x', hx', hbringing'⟩ := hbringing.own hx hst hcalls ho h.rejected
      exact ⟨hrun, by rw [hflow]; exact h.same, by simp [hdoing], by rwa [hflow],
        fun _ => ⟨(lastCall_native o).trans hlast, x', hx', hbringing'⟩, by simp [hdoing],
        by simp [hflow, hsub], h.rejected_append hdone hmark⟩

/-- It returns. -/
theorem back (h : Inv cs request s₀ os s) {accepted : Bool} {result : Run Unit}
    {o : List (Auth.Note Url)} {ys : List (Note Url)} {r : Run Unit}
    (hst : (machine cs request).step s i =
      some (s', o.map .native ++ ys ++ [.returned (.confirm accepted) r]))
    (hdoing : s.doing = some (.confirm accepted))
    (hcalls : Calls cs.parse s.native 0 s'.native o) (ho : engineResult o = some result)
    (hdoing' : s'.doing = none)
    (hflow : s'.flow = { s.flow with
      submitted := s.flow.submitted || (accepted && result.toOption.isSome) })
    (hys : ∀ n ∈ ys, n.Idle) :
    Inv cs request s₀ (os ++ (o.map .native ++ ys ++ [.returned (.confirm accepted) r])) s' := by
  obtain ⟨-, hpending, hsub⟩ := h.doing _ hdoing
  obtain ⟨hnone, hmark, hidle, hplace⟩ := back_of_calls hcalls ho
  have hsubmits : ∀ n ∈ o.map .native ++ ys ++ [.returned (.confirm accepted) r], ¬ n.Submits := by
    intro n hn
    simp only [List.mem_append, List.mem_singleton] at hn
    rcases hn with (hn | hn) | rfl
    · exact (hidle n hn).submits
    · exact (hys n hn).submits
    · exact id
  refine ⟨h.run.tail trivial hst, by rw [hflow]; exact h.same,
    fun _ => ⟨hnone, ?_, fun hsub' => ?_⟩, by simp [hdoing'], by simp [hdoing'],
    by simp [hdoing'], fun _ => by rw [hflow]; exact hpending, ?_⟩
  · rw [hflow, hpending]
    simp
  · refine List.forall_mem_append.2 ⟨?_, hsubmits⟩
    cases accepted with
    | false => exact (h.rejecting hdoing).1
    | true =>
      -- The engine has refused the page.
      obtain ⟨-, x, hx, hbringing⟩ := h.accepting hdoing
      obtain ⟨q, e, hcheck | hsend, -⟩ | ⟨rfl, -⟩ := hplace
      · rw [hx] at hcheck
        cases hcheck
        cases hbringing with | check c id hshown hunsent => exact hunsent
      · rw [hx] at hsend
        cases hsend
        cases hbringing with | send c id hshown hunsent => exact hunsent
      · simp [hflow, Except.toOption] at hsub'
  · rintro ⟨n, hn, hrejects⟩
    rw [hmark]
    simp only [List.mem_append, List.mem_singleton] at hn
    rcases hn with hn | (hn | hn) | rfl
    · exact h.rejected ⟨n, hn, hrejects⟩
    · exact absurd hrejects (hidle n hn).rejects
    · exact absurd hrejects (hys n hn).rejects
    · cases accepted with
      | true => exact hrejects.elim
      | false =>
        obtain ⟨-, x, hx, hcancelling⟩ := h.rejecting hdoing
        obtain ⟨q, e, hcheck | hsend, -⟩ | ⟨-, ⟨q, hleave⟩ | herase⟩ := hplace
        · rw [hx] at hcheck
          cases hcheck
          cases hcancelling
        · rw [hx] at hsend
          cases hsend
          cases hcancelling
        · rw [hx] at hleave
          cases hleave
          cases hcancelling
        · rw [hx] at herase
          cases herase
          cases hcancelling with | erase hmark => exact hmark

theorem step (h : Inv cs request s₀ os s) (hmoves : Moves cs s i s' o)
    (hst : (machine cs request).step s i = some (s', o)) : Inv cs request s₀ (os ++ o) s' := by
  cases hmoves with
  | idle _ hdoing hbeside hflow ho =>
    exact h.other hst hbeside.doing hflow (by rw [hbeside.native]) (by rw [hbeside.native]; exact id)
      ho fun hd => absurd hdoing hd
  | other o hdoing hflow hcaller hmark ho =>
    exact h.other hst hdoing ⟨by rw [hflow], by rw [hflow], by rw [hflow]⟩ hcaller hmark
      (idle_of_foreign ho) fun _ => lastCall_native o
  | ask k clock cuts c hi hdoing hbeside hfree hflow hk hrecorded =>
    exact h.ask (hi ▸ hst) hdoing hbeside hfree hflow hk hrecorded
  | confirm accepted c hdoing hp hflow hdoing' hcaller hmark =>
    exact h.confirm hst hdoing hp hflow hdoing' hcaller hmark
  | own o hdoing hflow hcalls ho => exact h.own hst hdoing hflow hcalls ho
  | back accepted result o ys r hdoing hcalls ho hdoing' hflow hys =>
    exact h.back hst hdoing hcalls ho hdoing' hflow hys

/-- A step that submits a page. -/
theorem confirmed (h : Inv cs request s₀ os s) (hmoves : Moves cs s i s' o) {id : Uuid}
    {page : BrowserPage} {pending : Option (Pending Url)}
    (hn : .native (.accepted 0 (.browserReply id (.page page)) pending) ∈ o) :
    Confirmed cs request s₀ os s page := by
  have hsubmits : (.native (.accepted 0 (.browserReply id (.page page)) pending) :
    Note Url).Submits := trivial
  cases hmoves with
  | idle _ hdoing hbeside hflow ho => exact absurd hsubmits (ho _ hn).submits
  | other o hdoing hflow hcaller hmark ho =>
    exact absurd hsubmits (idle_of_foreign ho _ hn).submits
  | ask | confirm => simp at hn
  | back accepted result o ys r hdoing hcalls ho hdoing' hflow hys =>
    have hidle := (back_of_calls hcalls ho).2.2.1
    simp only [List.mem_append, List.mem_singleton, reduceCtorEq, or_false] at hn
    rcases hn with hn | hn
    · exact absurd hsubmits (hidle _ hn).submits
    · exact absurd hsubmits (hys _ hn).submits
  | own o hdoing hflow hcalls ho =>
    simp only [List.mem_map, Note.native.injEq, exists_eq_right] at hn
    generalize s'.native = a' at hcalls
    cases hcalls with
    | send q hc hreceiver =>
      simp only [List.mem_singleton, Auth.Note.accepted.injEq, true_and] at hn
      obtain ⟨rfl, -⟩ := hn
      cases hd : s.doing with
      | none => simp [(h.idle hd).1] at hc
      | some k =>
        obtain ⟨⟨_ | _, rfl⟩, -⟩ := h.doing k hd
        · obtain ⟨-, x, hx, hcancelling⟩ := h.rejecting hd
          rw [hx] at hc
          cases hc
          cases hcancelling
        · obtain ⟨hlast, x, hx, hbringing⟩ := h.accepting hd
          rw [hx] at hc
          cases hc
          cases hbringing with | send c id hshown hunsent hlive =>
          exact ⟨hlast, ⟨c, rfl, hshown⟩, hunsent, hlive⟩
    | _ => simp at hn

end Inv

/-- What holds at every step of a GlobalProtect flow that submits a page. -/
theorem confirmed_account_submitted (cs : Crates Url) (request : BrowserRequest Url)
    (hgp : request.protocol = "gp") (hkind : request.kind = .webview)
    {s₀ s s' : System Url} {i : Input Url} {before o : List (Note Url)} {id : Uuid}
    {page : BrowserPage} {pending : Option (Pending Url)} (h₀ : (machine cs request).init s₀)
    (h : Runs cs request s₀ before s) (hst : (machine cs request).step s i = some (s', o))
    (ho : .native (.accepted 0 (.browserReply id (.page page)) pending) ∈ o) :
    Confirmed cs request s₀ before s page := by
  have hmoves : ∀ {os s i s' o}, Inv cs request s₀ os s →
      (machine cs request).step s i = some (s', o) → Moves cs s i s' o := fun hinv hst =>
    moves_of_step (by rw [hinv.same, hgp]) (by rw [hinv.same, hkind])
      (fun k hk => (hinv.doing k hk).1) (fun hd => (hinv.idle hd).1) hst
  have hinv : Inv cs request s₀ before s := by
    refine h.invariant (Inv.initial h₀) fun os s i s' o hinv _ hst => ?_
    exact hinv.step (hmoves hinv hst) hst
  exact hinv.confirmed (hmoves hinv hst) ho

/-- The libraries on the sample's inputs. -/
def sampleCrates : Crates String where
  parse := some
  text := id
  markup :=
    { decode := fun payload =>
        if payload = "PHNhbWwtYXV0aC1zdGF0dXM+MTwvc2FtbC1hdXRoLXN0YXR1cz48c2FtbC11c2VybmFtZT5hbm48L3NhbWwtdXNlcm5hbWU+PHByZWxvZ2luLWNvb2tpZT5jMTwvcHJlbG9naW4tY29va2llPg==" then
          some "<saml-auth-status>1</saml-auth-status><saml-username>ann</saml-username><prelogin-cookie>c1</prelogin-cookie>"
        else none
      fragment := fun _ => pure ![some "1", some "ann", some "c1", none] }
  ledger :=
    { digest := fun _ => [208, 246, 49, 202, 29, 219, 168, 219, 59, 207, 203, 158, 5, 124, 220, 152,
        208, 55, 159, 27, 238, 0, 231, 90, 84, 81, 71, 162, 125, 173, 217, 130]
      fromSlice := fun _ => none
      toVec := fun _ => "[\x7b\"digest\":[208,246,49,202,29,219,168,219,59,207,203,158,5,124,220,152,208,55,159,27,238,0,231,90,84,81,71,162,125,173,217,130],\"expires\":86500\x7d]".toList.map
        fun c => UInt8.ofNat c.toNat }

def sampleRequest : BrowserRequest String :=
  { attemptId := 7
    transactionId := 1
    protocol := "gp"
    expectedOrigin := "https://vpn.example.test/"
    phase := .gateway
    kind := .webview
    mode := .system }

/-- The engine waits for a page. -/
def sampleStart : System String :=
  { flow := { request := sampleRequest }
    native :=
      { worker := .polling (.browser 1 "https://vpn.example.test/" .webview)
        shared := { pending := some (.browser 1 "https://vpn.example.test/" .webview) } } }

/-- A callback is confirmed. -/
def sampleInputs : List (Input String) :=
  [ .call (.callback "globalprotectcallback:PHNhbWwtYXV0aC1zdGF0dXM+MTwvc2FtbC1hdXRoLXN0YXR1cz48c2FtbC11c2VybmFtZT5hbm48L3NhbWwtdXNlcm5hbWU+PHByZWxvZ2luLWNvb2tpZT5jMTwvcHJlbG9naW4tY29va2llPg==")
      (.ok 100) [],
    .call (.confirm true) (.ok 100) [],
    .native (.caller 0),
    .native (.caller 0) ]

def sampleMachine : Machine (System String) (Input String) (Note String) :=
  machine sampleCrates sampleRequest

theorem confirmed_account_submitted_sample :
    Confirmed sampleCrates sampleRequest sampleStart
      (sampleMachine.emitted sampleStart sampleInputs) (sampleMachine.perform sampleStart sampleInputs)
      (sampleCrates.submission sampleRequest ⟨"ann", "prelogin-cookie", "c1"⟩) := by
  have hrun :=
    (Machine.Run.refl : sampleMachine.Run (fun _ _ => True) sampleStart [] sampleStart).perform
      fun i (_ : i ∈ sampleInputs) _ => trivial
  rw [List.nil_append] at hrun
  have hlast : (sampleMachine.step (sampleMachine.perform sampleStart sampleInputs)
      (.native (.caller 0))).map (·.2) = some [.native (.accepted 0 (.browserReply 1
        (.page (sampleCrates.submission sampleRequest ⟨"ann", "prelogin-cookie", "c1"⟩)))
          (some (.browser 1 "https://vpn.example.test/" .webview)))] := by
    decide +kernel
  obtain ⟨⟨s', o⟩, hst, ho⟩ := Option.map_eq_some_iff.1 hlast
  exact confirmed_account_submitted sampleCrates sampleRequest rfl rfl ⟨rfl, rfl, rfl⟩ hrun hst
    ((show o = _ from ho) ▸ List.mem_singleton.2 rfl)

end Ocvpn.Browser
