import Ocvpn.Browser.Flow
import Ocvpn.Auth.Steps

/-!
# What the methods do

Every step of a GlobalProtect flow in a webview, said once.

## Main results

* `moves_of_step` : the steps of the machine are those of `Moves`.
-/

namespace Ocvpn.Browser

open Auth Crash Ipc Net

variable {Url : Type}

/-! ### The parts of a method -/

/-- The parts of a method leave this alone. -/
structure Beside (s s' : System Url) : Prop where
  native : s'.native = s.native
  doing : s'.doing = s.doing

theorem Beside.rfl {s : System Url} : Beside s s := ⟨.refl _, .refl _⟩

theorem prompt_spec (stage : BrowserStage) (account : Option String) (t : Turn Url) :
    Spec True (· = t) (prompt stage account)
      (fun _ t' => Beside t.system t'.system ∧ t'.system.flow = t.system.flow ∧
        t'.system.file = t.system.file ∧
        t'.notes = t.notes ++ [.prompted (t.system.flow.prompt stage account)])
      (fun _ t' => t' = t) fun _ => True := by
  unfold prompt
  refine Spec.bind (R := fun s w => s = t.system ∧ w = t) (Spec.get ?_) fun s => ?_
  · rintro _ rfl
    exact ⟨rfl, rfl⟩
  refine Spec.intro (p := s = t.system) (fun _ => And.left) ?_
  rintro rfl
  split_ifs
  · refine Spec.modify ?_
    rintro _ ⟨-, rfl⟩
    exact ⟨⟨rfl, rfl⟩, rfl, rfl, rfl⟩
  · exact Spec.fail fun _ => And.right

/-- Only the ledger file differs. -/
structure Filed (t t' : Turn Url) : Prop where
  beside : Beside t.system t'.system
  flow : t'.system.flow = t.system.flow
  notes : t'.notes = t.notes

theorem Filed.rfl {t : Turn Url} : Filed t t := ⟨.rfl, .refl _, .refl _⟩

theorem claimCompletion_spec (l : Ledger) (clock : Except Error ℕ) (cookie : String) (t : Turn Url) :
    Spec True (· = t) (claimCompletion l clock cookie)
      (fun _ t' => Filed t t' ∧ l.Claimed cookie t.system.file t'.system.file)
      (fun _ => Filed t) fun _ => True := by
  unfold claimCompletion
  refine Spec.bind (R := fun _ w => w = t) (Spec.ofExcept (fun _ _ hw _ => hw) ?_)
    fun now => Spec.zoom ?_
  · rintro _ _ rfl -
    exact .rfl
  · rintro _ rfl
    refine (l.claimCompletionAt_spec cookie now _).mono (fun _ => id) ?_ ?_ fun _ => id
    · exact fun _ file' hclaimed => ⟨⟨⟨rfl, rfl⟩, rfl, rfl⟩, hclaimed⟩
    · exact fun _ _ _ => ⟨⟨rfl, rfl⟩, rfl, rfl⟩

/-- The ledger holds what it has to before a confirmation is asked for: outside the embedded mode
the file was rewritten by a claim of the cookie. -/
def Recorded (cs : Crates Url) (request : BrowserRequest Url) (c : GpCompletion)
    (file file' : LedgerFile) : Prop :=
  request.mode ≠ .embedded → cs.ledger.Claimed c.cookie file file'

/-- A confirmation is asked for. -/
structure Offered (cs : Crates Url) (c : GpCompletion) (t t' : Turn Url) : Prop where
  beside : Beside t.system t'.system
  flow : t'.system.flow = { t.system.flow with pending := some c }
  notes : t'.notes = t.notes ++ [.prompted (t.system.flow.prompt .confirmAccount (some c.username))]
  recorded : Recorded cs t.system.flow.request c t.system.file t'.system.file

/-- The confirmation is asked for. -/
theorem offer_spec (cs : Crates Url) (c : GpCompletion) (t : Turn Url) :
    Spec True
      (fun t' => Filed t t' ∧ Recorded cs t.system.flow.request c t.system.file t'.system.file)
      (do
        prompt .confirmAccount (some c.username)
        setFlow fun f => { f with pending := some c })
      (fun _ => Offered cs c t) (fun _ => Filed t) fun _ => True := by
  refine Spec.each fun t₁ ⟨hfiled, hrecorded⟩ => ?_
  refine Spec.bind ((prompt_spec _ _ t₁).mono (fun _ => id) (fun _ _ => id) ?_ fun _ => id)
    fun _ => Spec.modify ?_
  · rintro _ _ rfl
    exact hfiled
  · rintro t₂ ⟨hbeside, hflow, hfile, hnotes⟩
    refine ⟨⟨hbeside.native.trans hfiled.beside.native, hbeside.doing.trans hfiled.beside.doing⟩,
      ?_, by rw [hnotes, hfiled.notes, hfiled.flow], fun hmode => ?_⟩
    · simp only [hflow, hfiled.flow]
    · rw [hfile]
      exact hrecorded hmode

theorem confirmation_spec (cs : Crates Url) (clock : Except Error ℕ) (c : GpCompletion)
    (t : Turn Url) :
    Spec True (· = t) (confirmation cs.ledger clock c)
      (fun _ => Offered cs c t) (fun _ => Filed t) fun _ => True := by
  unfold confirmation
  refine Spec.bind (R := fun r w => r = t.system.flow.request ∧ w = t) (Spec.get ?_) fun r => ?_
  · rintro _ rfl
    exact ⟨rfl, rfl⟩
  refine Spec.intro (p := r = t.system.flow.request) (fun _ => And.left) ?_
  rintro rfl
  split_ifs with hlong hmode
  · refine Spec.fail ?_
    rintro _ ⟨-, rfl⟩
    exact .rfl
  · refine Spec.bind ((claimCompletion_spec cs.ledger clock c.cookie t).mono (fun _ => And.right)
      ?_ (fun _ _ => id) fun _ => id) fun _ => offer_spec cs c t
    rintro _ t' ⟨hfiled, hclaimed⟩
    exact ⟨hfiled, fun _ => hclaimed⟩
  · refine (offer_spec cs c t).pre ?_
    rintro _ ⟨-, rfl⟩
    exact ⟨.rfl, fun h => absurd h hmode⟩

/-! ### The beginning of a method -/

/-- The completion in a callback or a page. -/
def Call.completion (m : Markup) : Call → Option GpCompletion
  | callback uri => (m.callbackCompletion uri).toOption
  | page p => (m.pageCompletion p).toOption.join
  | _ => none

/-- A method has come to its end without a call of the engine, and changed nothing that matters. -/
structure Quiet (t t' : Turn Url) : Prop where
  beside : Beside t.system t'.system
  request : t'.system.flow.request = t.system.flow.request
  pending : t'.system.flow.pending = t.system.flow.pending
  submitted : t'.system.flow.submitted = t.system.flow.submitted
  notes : ∃ ys, t'.notes = t.notes ++ ys ∧ ∀ n ∈ ys, ∃ p, n = .prompted p ∧
    p.stage ≠ .confirmAccount

/-- A method has asked for a confirmation. -/
structure Asked (cs : Crates Url) (k : Call) (t t' : Turn Url) : Prop where
  free : t.system.flow.pending = none ∧ t.system.flow.submitted = false
  offered : ∃ c, k.completion cs.markup = some c ∧ Offered cs c t t'

/-- A method has come to its call of the engine. -/
structure Decided (cs : Crates Url) (k : Call) (e : Engine) (t t' : Turn Url) : Prop where
  native : t'.system.native = t.system.native
  notes : t'.notes = t.notes
  confirmed : ∃ c, t.system.flow.pending = some c ∧
    t'.system.flow = { t.system.flow with pending := none } ∧
    (k = .confirm false ∧ e = .cancel ∨ k = .confirm true ∧
      e = .reply (.browserReply t.system.flow.request.transactionId
        (.page (cs.submission t.system.flow.request c))))

theorem openedThen_spec (t : Turn Url) :
    Spec True (· = t) openedThen (fun _ => Quiet t) (fun _ => Quiet t) fun _ => True := by
  unfold openedThen
  refine Spec.bind (R := fun _ t' => Beside t.system t'.system ∧
    t'.system.flow = { t.system.flow with opened := true } ∧ t'.notes = t.notes)
    (Spec.modify ?_) fun _ => ?_
  · rintro _ rfl
    exact ⟨⟨rfl, rfl⟩, rfl, rfl⟩
  refine Spec.bind (R := fun _ t' => Beside t.system t'.system ∧
    t'.system.flow = { t.system.flow with opened := true } ∧ t'.notes = t.notes)
    (Spec.get fun _ => id) fun request => Spec.each fun t₁ ⟨hbeside, hflow, hnotes⟩ => ?_
  refine (prompt_spec _ _ t₁).mono (fun _ => id) ?_ ?_ fun _ => id
  · rintro _ t₂ ⟨hbeside₂, hflow₂, -, hnotes₂⟩
    have hf := hflow₂.trans hflow
    refine ⟨⟨hbeside₂.native.trans hbeside.native, hbeside₂.doing.trans hbeside.doing⟩,
      by rw [hf], by rw [hf], by rw [hf], _, by rw [hnotes₂, hnotes], ?_⟩
    simp only [List.mem_singleton, forall_eq]
    refine ⟨_, rfl, ?_⟩
    unfold Flow.prompt
    split_ifs <;> simp
  · rintro _ _ rfl
    exact ⟨hbeside, by rw [hflow], by rw [hflow], by rw [hflow], [], by simp [hnotes], by simp⟩

theorem Quiet.rfl {t : Turn Url} : Quiet t t :=
  ⟨.rfl, .refl _, .refl _, .refl _, [], by simp, by simp⟩

/-- A confirmation as the end of a method. -/
theorem asked_of_confirmation (cs : Crates Url) (clock : Except Error ℕ) {k : Call}
    {c : GpCompletion} {t : Turn Url} (hk : k.completion cs.markup = some c)
    (hfree : t.system.flow.pending = none ∧ t.system.flow.submitted = false) :
    Spec True (· = t) (confirmation cs.ledger clock c) (fun _ => Asked cs k t)
      (fun _ => Quiet t) fun _ => True := by
  refine (confirmation_spec cs clock c t).mono (fun _ => id) ?_ ?_ fun _ => id
  · exact fun _ t' hoffered => ⟨hfree, c, hk, hoffered⟩
  · rintro _ t' ⟨hbeside, hflow, hnotes⟩
    exact ⟨hbeside, by rw [hflow], by rw [hflow], by rw [hflow], [], by simp [hnotes], by simp⟩

/-- A method looks at the flow first. -/
theorem spec_flow {α : Type} {t : Turn Url} {g : Flow Url → Method Url α}
    {Q : α → Turn Url → Prop} {E : Error → Turn Url → Prop}
    (h : Spec True (· = t) (g t.system.flow) Q E fun _ => True) :
    Spec True (· = t) (Io.get (·.system.flow) >>= g) Q E fun _ => True := by
  refine Spec.bind (R := fun f w => f = t.system.flow ∧ w = t) (Spec.get ?_) fun f => ?_
  · rintro _ rfl
    exact ⟨rfl, rfl⟩
  refine Spec.intro (p := f = t.system.flow) (fun _ => And.left) ?_
  rintro rfl
  exact h.pre fun _ => And.right

variable [DecidableEq Url]

/-- The beginning of a method of a GlobalProtect flow in a webview. -/
theorem start_spec (cs : Crates Url) (clock : Except Error ℕ) (k : Call) (t : Turn Url)
    (hgp : t.system.flow.request.protocol = "gp") (hkind : t.system.flow.request.kind = .webview) :
    Spec True (· = t) (k.start cs clock)
      (fun r t' => match r with
        | none => Quiet t t' ∨ Asked cs k t t'
        | some e => Decided cs k e t t')
      (fun e t' => Quiet t t' ∧ (k = .confirm false → e = stale)) fun _ => True := by
  cases k with
  | opened =>
    refine spec_flow ?_
    rw [if_neg (by simp [hkind])]
    refine Spec.bind (R := fun _ => Quiet t) ((openedThen_spec t).mono (fun _ => id) (fun _ _ => id)
      (fun _ _ h => ⟨h, by simp⟩) fun _ => id) fun _ => Spec.pure fun _ h => .inl h
  | callback uri =>
    refine Spec.bind (R := fun _ => Asked cs (.callback uri) t) (spec_flow ?_)
      fun _ => Spec.pure fun _ h => .inr h
    split_ifs with htakes
    · refine Spec.fail ?_
      rintro _ rfl
      exact ⟨.rfl, by simp⟩
    · refine spec_ofRun_bind (fun c hc => ?_) ?_ fun _ _ _ => ⟨⟨⟩, ⟨⟩⟩
      · have hfree : t.system.flow.pending = none ∧ t.system.flow.submitted = false := by
          simp only [Flow.takesCallbacks, Bool.not_eq_true', Bool.not_eq_false, Bool.and_eq_true,
            Option.isNone_iff_eq_none] at htakes
          exact ⟨htakes.1.2, htakes.2⟩
        refine (asked_of_confirmation cs clock (k := .callback uri) (by simp [Call.completion, hc]; rfl)
          hfree).mono (fun _ => id) (fun _ _ => id) (fun _ _ h => ⟨h, by simp⟩) fun _ => id
      · rintro _ _ rfl -
        exact ⟨.rfl, by simp⟩
  | page p =>
    refine spec_flow (spec_ofRun_bind (fun _ _ => ?_) ?_ fun _ _ _ => ⟨⟨⟩, ⟨⟩⟩)
    · split_ifs with hskip hprotocol
      · refine Spec.pure ?_
        rintro _ rfl
        exact .inl .rfl
      · refine spec_ofRun_bind (fun found hfound => ?_) ?_ fun _ _ _ => ⟨⟨⟩, ⟨⟩⟩
        · cases found with
          | none =>
            refine Spec.pure ?_
            rintro _ rfl
            exact .inl .rfl
          | some c =>
            -- the page counts, so nothing is pending or submitted
            have hfree : t.system.flow.pending = none ∧ t.system.flow.submitted = false := by
              simpa [hkind] using hskip
            refine Spec.bind (R := fun _ => Asked cs (.page p) t)
              ((asked_of_confirmation cs clock (k := .page p) (by simp [Call.completion, hfound]; rfl)
                hfree).mono (fun _ => id) (fun _ _ => id) (fun _ _ h => ⟨h, by simp⟩) fun _ => id)
              fun _ => Spec.pure fun _ h => .inr h
        · rintro _ _ rfl -
          exact ⟨.rfl, by simp⟩
      · exact absurd (by simp [hgp]) hprotocol
    · rintro _ _ rfl -
      exact ⟨.rfl, by simp⟩
  | confirm accepted =>
    refine spec_flow ?_
    cases hp : t.system.flow.pending with
    | none =>
      refine Spec.fail ?_
      rintro _ rfl
      exact ⟨.rfl, fun _ => rfl⟩
    | some c =>
      refine Spec.bind (R := fun _ t' => t'.system.native = t.system.native ∧ t'.notes = t.notes ∧
        t'.system.flow = { t.system.flow with pending := none }) (Spec.modify ?_) fun _ => ?_
      · rintro _ rfl
        exact ⟨rfl, rfl, rfl⟩
      · cases accepted with
        | false => exact Spec.pure fun _ ⟨hn, ho, hf⟩ => ⟨hn, ho, c, hp, hf, .inl ⟨rfl, rfl⟩⟩
        | true => exact Spec.pure fun _ ⟨hn, ho, hf⟩ => ⟨hn, ho, c, hp, hf, .inr ⟨rfl, rfl⟩⟩

/-! ### The steps of the engine -/

/-- The note is not about the flow's calls. -/
def Foreign : Auth.Note Url → Prop
  | .accepted 0 _ _ | .returned 0 _ | .cancelReturned 0 => False
  | _ => True

omit [DecidableEq Url] in
theorem engineResult_foreign {o : List (Auth.Note Url)} (h : ∀ n ∈ o, Foreign n) :
    engineResult o = none := by
  unfold engineResult
  split
  · exact (h _ List.mem_cons_self).elim
  · exact (h _ List.mem_cons_self).elim
  · rfl

omit [DecidableEq Url] in
theorem goto_self (a : Auth.System Url) (c : ℕ) (k : Caller) : (a.goto c k).callers c = some k :=
  Function.update_self ..

/-- A call that takes a step has begun. -/
theorem callers_of_calls {parse : String → Option Url} {a a' : Auth.System Url} {c : ℕ}
    {o : List (Auth.Note Url)} (h : Calls parse a c a' o) : a.callers c ≠ none := by
  cases h with
  | refuse q e hc => rcases hc with hc | hc <;> simp [hc]
  | enter _ hc | pass _ hc | send _ hc | leave _ hc | mark hc | skip hc | notify hc | overflow hc
  | erase hc => simp [hc]

/-- The mark of a cancellation stays. -/
theorem mark_of_calls {parse : String → Option Url} {a a' : Auth.System Url} {c : ℕ}
    {o : List (Auth.Note Url)} (h : Calls parse a c a' o) (hmark : a.shared.cancelled = true) :
    a'.shared.cancelled = true := by
  cases h with
  | leave => split_ifs <;> exact hmark
  | mark => rfl
  | _ => exact hmark

/-- A step of another call. -/
theorem foreign_of_calls {parse : String → Option Url} {a a' : Auth.System Url} {c : ℕ}
    {o : List (Auth.Note Url)} (hc : c ≠ 0) (h : Calls parse a c a' o) :
    a'.callers 0 = a.callers 0 ∧ (∀ n ∈ o, Foreign n) ∧
      (a.shared.cancelled = true → a'.shared.cancelled = true) := by
  have hother : ∀ v, Function.update a.callers c v 0 = a.callers 0 :=
    fun v => Function.update_of_ne hc.symm v a.callers
  refine ⟨?_, ?_, mark_of_calls h⟩
  · cases h with
    | leave q hq => split_ifs <;> exact hother _
    | _ => exact hother _
  · cases h <;> simp [Foreign, hc]

/-- A step of the engine is one of somebody else, or one of the flow's call. -/
theorem engine_cases {parse : String → Option Url} {a a' : Auth.System Url} {i : Auth.Input Url}
    {o : List (Auth.Note Url)} (hi : ¬ IsFlow i)
    (h : (Auth.machine parse).step a i = some (a', o)) :
    (a'.callers 0 = a.callers 0 ∧ (∀ n ∈ o, Foreign n) ∧
      (a.shared.cancelled = true → a'.shared.cancelled = true)) ∨ Calls parse a 0 a' o := by
  cases i with
  | call c q =>
    have hc : c ≠ 0 := by
      rintro rfl
      exact hi trivial
    simp only [Auth.machine] at h
    split_ifs at h
    cases h
    exact .inl ⟨Function.update_of_ne hc.symm _ _, by simp, id⟩
  | cancel c =>
    have hc : c ≠ 0 := by
      rintro rfl
      exact hi trivial
    simp only [Auth.machine] at h
    split_ifs at h
    cases h
    exact .inl ⟨Function.update_of_ne hc.symm _ _, by simp, id⟩
  | caller c =>
    simp only [Auth.machine] at h
    split at h
    · rename_i k hk
      have hcalls := calls_of_stepCaller hk h
      by_cases hc : c = 0
      · exact .inr (hc ▸ hcalls)
      · exact .inl (foreign_of_calls hc hcalls)
    · cases h
  | worker m =>
    have hworks := works_of_stepWorker h
    refine .inl ⟨by rw [hworks.frame.callers], ?_, fun hmark => by rwa [hworks.frame.mark]⟩
    cases hworks <;> simp [Foreign]
  | dropEvents =>
    simp only [Auth.machine] at h
    split_ifs at h
    cases h
    exact .inl ⟨rfl, by simp, id⟩

/-! ### The steps of the machine -/

/-- A page reaches the engine by a call of the flow. -/
def Note.Submits : Note Url → Prop
  | .native (.accepted 0 (.browserReply _ (.page _)) _) => True
  | _ => False

/-- The account is to be confirmed. -/
def Note.Asks : Note Url → Prop
  | .prompted p => p.stage = .confirmAccount
  | _ => False

/-- The user has rejected the account. -/
def Note.Rejects : Note Url → Prop
  | .returned (.confirm false) (.error (.error e)) => e = cancelled
  | _ => False

/-- None of these. -/
structure Note.Idle (n : Note Url) : Prop where
  submits : ¬ n.Submits
  asks : ¬ n.Asks
  rejects : ¬ n.Rejects

/-- The flow is the same but for `opened`. -/
structure Unmoved (s s' : System Url) : Prop where
  request : s'.flow.request = s.flow.request
  pending : s'.flow.pending = s.flow.pending
  submitted : s'.flow.submitted = s.flow.submitted

/-- The steps of a GlobalProtect flow in a webview, on an input. -/
inductive Moves (cs : Crates Url) (s : System Url) (i : Input Url) :
    System Url → List (Note Url) → Prop
  /-- A method comes to its end. -/
  | idle (s' : System Url) (o : List (Note Url)) (hdoing : s.doing = none)
      (hbeside : Beside s s') (hflow : Unmoved s s') (ho : ∀ n ∈ o, n.Idle) : Moves cs s i s' o
  /-- Somebody else goes on. -/
  | other (s' : System Url) (o : List (Auth.Note Url)) (hdoing : s'.doing = s.doing)
      (hflow : s'.flow = s.flow) (hcaller : s'.native.callers 0 = s.native.callers 0)
      (hmark : s.native.shared.cancelled = true → s'.native.shared.cancelled = true)
      (ho : ∀ n ∈ o, Foreign n) : Moves cs s i s' (o.map .native)
  | ask (s' : System Url) (k : Call) (clock : Except Error ℕ) (cuts : List (Cut Error))
      (c : GpCompletion) (hi : i = .call k clock cuts) (hdoing : s.doing = none)
      (hbeside : Beside s s') (hfree : s.flow.pending = none ∧ s.flow.submitted = false)
      (hflow : s'.flow = { s.flow with pending := some c })
      (hk : k.completion cs.markup = some c) (hrecorded : Recorded cs s.flow.request c s.file s'.file) :
      Moves cs s i s' [.called k, .prompted (s.flow.prompt .confirmAccount (some c.username)),
        .returned k (.ok ())]
  | confirm (s' : System Url) (accepted : Bool) (c : GpCompletion) (hdoing : s.doing = none)
      (hp : s.flow.pending = some c) (hflow : s'.flow = { s.flow with pending := none })
      (hdoing' : s'.doing = some (.confirm accepted))
      (hcaller : s'.native.callers 0 = some (if accepted then
        .enter (.browserReply s.flow.request.transactionId
          (.page (cs.submission s.flow.request c))) else .swap))
      (hmark : s'.native.shared = s.native.shared) :
      Moves cs s i s' [.called (.confirm accepted)]
  /-- The flow's call goes on. -/
  | own (s' : System Url) (o : List (Auth.Note Url)) (hdoing : s'.doing = s.doing)
      (hflow : s'.flow = s.flow) (hcalls : Calls cs.parse s.native 0 s'.native o)
      (ho : engineResult o = none) : Moves cs s i s' (o.map .native)
  /-- It returns. -/
  | back (s' : System Url) (accepted : Bool) (result : Run Unit) (o : List (Auth.Note Url))
      (ys : List (Note Url)) (r : Run Unit) (hdoing : s.doing = some (.confirm accepted))
      (hcalls : Calls cs.parse s.native 0 s'.native o) (ho : engineResult o = some result)
      (hdoing' : s'.doing = none)
      (hflow : s'.flow = { s.flow with
        submitted := s.flow.submitted || (accepted && result.toOption.isSome) })
      (hys : ∀ n ∈ ys, n.Idle) :
      Moves cs s i s' (o.map .native ++ ys ++ [.returned (.confirm accepted) r])

/-- The flow's call of the engine returns. -/
theorem back_of_calls {parse : String → Option Url} {a a' : Auth.System Url}
    {o : List (Auth.Note Url)} {result : Run Unit} (h : Calls parse a 0 a' o)
    (ho : engineResult o = some result) :
    a'.callers 0 = none ∧ a'.shared.cancelled = a.shared.cancelled ∧
      (∀ n ∈ o.map (Note.native : Auth.Note Url → Note Url), n.Idle) ∧
      ((∃ q e, (a.callers 0 = some (.check q) ∨ a.callers 0 = some (.send q)) ∧ result = .error e) ∨
        result = .ok () ∧ ((∃ q, a.callers 0 = some (.leave q)) ∨ a.callers 0 = some .erase)) := by
  have hself : ∀ v, Function.update a.callers 0 v 0 = v := fun v => Function.update_self ..
  cases h with
  | refuse q e hc =>
    cases ho
    exact ⟨hself _, rfl, by simp; exact ⟨id, id, id⟩, .inl ⟨q, e, hc, rfl⟩⟩
  | leave q hc =>
    cases ho
    refine ⟨?_, ?_, by simp; exact ⟨id, id, id⟩, .inr ⟨rfl, .inl ⟨q, hc⟩⟩⟩
    · split_ifs <;> exact hself _
    · split_ifs <;> rfl
  | erase hc =>
    cases ho
    exact ⟨hself _, rfl, by simp; exact ⟨id, id, id⟩, .inr ⟨rfl, .inr hc⟩⟩
  | enter | pass | send | mark | skip | notify | overflow => cases ho

variable {cs : Crates Url} {request : BrowserRequest Url} {s s' : System Url} {o : List (Note Url)}

omit [DecidableEq Url] in
theorem idle_of_prompt {p : BrowserPrompt Url} (hp : p.stage ≠ .confirmAccount) :
    (.prompted p : Note Url).Idle :=
  ⟨id, hp, id⟩

omit [DecidableEq Url] in
/-- The notes of a quiet method. -/
theorem Quiet.idle {t t' : Turn Url} (h : Quiet t t') (ht : ∀ n ∈ t.notes, n.Idle) :
    ∀ n ∈ t'.notes, n.Idle := by
  obtain ⟨ys, hnotes, hys⟩ := h.notes
  intro n hn
  rw [hnotes, List.mem_append] at hn
  rcases hn with hn | hn
  · exact ht n hn
  · obtain ⟨p, rfl, hp⟩ := hys n hn
    exact idle_of_prompt hp

/-- A method is called. -/
theorem moves_of_begin {k : Call} {clock : Except Error ℕ} {cuts : List (Cut Error)}
    (hgp : s.flow.request.protocol = "gp") (hkind : s.flow.request.kind = .webview)
    (hdoing : s.doing = none) (h : s.begin cs k clock cuts = some (s', o)) :
    Moves cs s (.call k clock cuts) s' o := by
  have hspec := start_spec cs clock k ⟨s, [.called k]⟩ hgp hkind ⟨s, [.called k]⟩ cuts
    (.inl trivial) rfl
  have hcalled : ∀ n ∈ ([.called k] : List (Note Url)), n.Idle := by
    simp only [List.mem_singleton, forall_eq]
    exact ⟨id, id, id⟩
  unfold System.begin at h
  generalize k.start cs clock ⟨⟨s, [.called k]⟩, cuts⟩ = result at h hspec
  obtain ⟨(_ | e) | e | _, t⟩ := result
  · simp only [System.finish, Option.some.injEq, Prod.mk.injEq] at h
    obtain ⟨rfl, rfl⟩ := h
    obtain hquiet | hasked := hspec.2
    · refine .idle _ _ hdoing hquiet.beside ⟨hquiet.request, hquiet.pending, hquiet.submitted⟩ ?_
      refine List.forall_mem_append.2 ⟨hquiet.idle hcalled, ?_⟩
      simp only [List.mem_singleton, forall_eq]
      exact ⟨id, id, by cases k <;> simp [Note.Rejects]⟩
    · obtain ⟨c, hk, hoffered⟩ := hasked.offered
      rw [hoffered.notes]
      exact .ask _ k clock cuts c rfl hdoing hoffered.beside hasked.free hoffered.flow hk hoffered.recorded
  · obtain ⟨hnative, hnotes, c, hp, hflow, he⟩ := hspec.2
    simp only [System.engine, Option.bind_eq_bind, Option.bind_eq_some_iff, Option.pure_def,
      Option.some.injEq, Prod.mk.injEq] at h
    obtain ⟨⟨a, o'⟩, hstep, rfl, rfl⟩ := h
    -- a refused account cancels the engine, an accepted one is submitted
    obtain ⟨rfl, rfl⟩ | ⟨rfl, rfl⟩ := he
    all_goals
      simp only [Auth.machine] at hstep
      split_ifs at hstep
      cases hstep
      rw [hnotes]
    · exact .confirm _ false c hdoing hp hflow rfl (by simp [System.goto]) (by simp [System.goto, hnative])
    · exact .confirm _ true c hdoing hp hflow rfl (by simp [System.goto]) (by simp [System.goto, hnative])
  · simp only [System.finish, Option.some.injEq, Prod.mk.injEq] at h
    obtain ⟨rfl, rfl⟩ := h
    obtain ⟨hquiet, hstale⟩ := hspec.2
    refine .idle _ _ hdoing hquiet.beside ⟨hquiet.request, hquiet.pending, hquiet.submitted⟩ ?_
    refine List.forall_mem_append.2 ⟨hquiet.idle hcalled, ?_⟩
    simp only [List.mem_singleton, forall_eq]
    refine ⟨id, id, fun hrejects => ?_⟩
    unfold Note.Rejects at hrejects
    split at hrejects
    · rename_i heq
      simp only [Note.returned.injEq, Except.error.injEq, Fault.error.injEq] at heq
      obtain ⟨rfl, rfl⟩ := heq
      rw [hstale rfl] at hrejects
      simp [stale, cancelled, Error.new] at hrejects
    · exact hrejects
  · cases h

omit [DecidableEq Url] in
/-- The end of a confirmation. -/
theorem confirmThen_spec (t : Turn Url) :
    Spec True (· = t) confirmThen
      (fun _ t' => Beside t.system t'.system ∧ t'.system.flow = { t.system.flow with submitted := true } ∧
        ∃ ys, t'.notes = t.notes ++ ys ∧ ∀ n ∈ ys, n.Idle)
      (fun _ t' => Beside t.system t'.system ∧ t'.system.flow = { t.system.flow with submitted := true } ∧
        ∃ ys, t'.notes = t.notes ++ ys ∧ ∀ n ∈ ys, n.Idle)
      fun _ => True := by
  unfold confirmThen
  refine Spec.bind (R := fun _ t' => Beside t.system t'.system ∧
    t'.system.flow = { t.system.flow with submitted := true } ∧ t'.notes = t.notes)
    (Spec.modify ?_) fun _ => Spec.each fun t₁ ⟨hbeside, hflow, hnotes⟩ => ?_
  · rintro _ rfl
    exact ⟨⟨rfl, rfl⟩, rfl, rfl⟩
  refine (prompt_spec _ _ t₁).mono (fun _ => id) ?_ ?_ fun _ => id
  · rintro _ t₂ ⟨hbeside₂, hflow₂, -, hnotes₂⟩
    refine ⟨⟨hbeside₂.native.trans hbeside.native, hbeside₂.doing.trans hbeside.doing⟩,
      hflow₂.trans hflow, _, by rw [hnotes₂, hnotes], ?_⟩
    simp only [List.mem_singleton, forall_eq]
    exact idle_of_prompt (by simp [Flow.prompt])
  · rintro _ _ rfl
    exact ⟨hbeside, hflow, [], by simp [hnotes], by simp⟩

/-- The engine goes on. -/
theorem moves_of_advance {i : Auth.Input Url}
    (hdoing : ∀ k, s.doing = some k → ∃ accepted, k = .confirm accepted)
    (hcaller : s.doing = none → s.native.callers 0 = none) (hi : ¬ IsFlow i)
    (h : s.advance cs i = some (s', o)) : Moves cs s (.native i) s' o := by
  simp only [System.advance, Option.bind_eq_bind, Option.bind_eq_some_iff] at h
  obtain ⟨⟨a, o'⟩, hstep, h⟩ := h
  -- as long as the call has no result, only the engine moves
  have hon : engineResult o' = none → s' = { s with native := a } ∧ o = o'.map .native := by
    intro hr
    cases hd : s.doing <;> simp only [hd, hr, Option.pure_def, Option.some.injEq, Prod.mk.injEq] at h
    all_goals exact ⟨by rw [← h.1], h.2.symm⟩
  obtain ⟨hother, hforeign, hmark⟩ | hcalls := engine_cases hi hstep
  · obtain ⟨rfl, rfl⟩ := hon (engineResult_foreign hforeign)
    exact .other _ _ rfl rfl hother hmark hforeign
  cases hresult : engineResult o' with
  | none =>
    obtain ⟨rfl, rfl⟩ := hon hresult
    exact .own _ _ rfl rfl hcalls hresult
  | some result =>
    cases hd : s.doing with
    | none => exact absurd (hcaller hd) (callers_of_calls hcalls)
    | some k =>
      obtain ⟨accepted, rfl⟩ := hdoing k hd
      cases result with
      | error e =>
        simp only [hd, hresult, Option.pure_def, Option.some.injEq, Prod.mk.injEq] at h
        obtain ⟨rfl, rfl⟩ := h
        simpa using Moves.back { s with doing := none, native := a } accepted _ o' [] (.error e) hd
          hcalls hresult rfl (by simp [Except.toOption]) (by simp)
      | ok _ =>
        simp only [hd, hresult] at h
        cases accepted with
        | false =>
          simp only [Call.resume, Io.fail, System.finish, Option.some.injEq, Prod.mk.injEq] at h
          obtain ⟨rfl, rfl⟩ := h
          simpa using Moves.back { s with doing := none, native := a } false _ o' []
            (.error (.error cancelled)) hd hcalls hresult rfl (by simp) (by simp)
        | true =>
          -- the engine took the page, so `confirm` goes on with the flow
          have hspec := confirmThen_spec ⟨{ s with doing := none, native := a }, o'.map .native⟩
            ⟨{ s with doing := none, native := a }, o'.map .native⟩ [] (.inl trivial) rfl
          simp only [Call.resume] at h
          generalize confirmThen ⟨⟨{ s with doing := none, native := a }, o'.map .native⟩, []⟩ = end'
            at h hspec
          obtain ⟨_ | e | _, t⟩ := end'
          · simp only [System.finish, Option.some.injEq, Prod.mk.injEq] at h
            obtain ⟨rfl, rfl⟩ := h
            obtain ⟨hbeside, hflow, ys, hnotes, hys⟩ := hspec.2
            rw [hnotes]
            exact .back _ true _ o' ys _ hd (hbeside.native ▸ hcalls) hresult hbeside.doing
              (by rw [hflow]; simp [Except.toOption]) hys
          · simp only [System.finish, Option.some.injEq, Prod.mk.injEq] at h
            obtain ⟨rfl, rfl⟩ := h
            obtain ⟨hbeside, hflow, ys, hnotes, hys⟩ := hspec.2
            rw [hnotes]
            exact .back _ true _ o' ys _ hd (hbeside.native ▸ hcalls) hresult hbeside.doing
              (by rw [hflow]; simp [Except.toOption]) hys
          · cases h

/-- **The steps of the machine** are those of `Moves`. -/
theorem moves_of_step {i : Input Url} (hgp : s.flow.request.protocol = "gp")
    (hkind : s.flow.request.kind = .webview)
    (hdoing : ∀ k, s.doing = some k → ∃ accepted, k = .confirm accepted)
    (hcaller : s.doing = none → s.native.callers 0 = none)
    (h : (machine cs request).step s i = some (s', o)) : Moves cs s i s' o := by
  cases i with
  | call k clock cuts =>
    simp only [machine] at h
    split_ifs at h with hd
    exact moves_of_begin hgp hkind (Option.isNone_iff_eq_none.1 hd) h
  | native i =>
    simp only [machine] at h
    split_ifs at h with hi
    exact moves_of_advance hdoing hcaller hi h
  | write file =>
    cases h
    exact .other _ [] rfl rfl rfl id (by simp)
  | read =>
    cases h
    exact .other _ [] rfl rfl rfl id (by simp)
  | hangUp =>
    cases h
    exact .other _ [] rfl rfl rfl id (by simp)

end Ocvpn.Browser
