import Ocvpn.Auth.Answers

/-!
# A cancelled wait ends

After a cancellation every wait of the worker ends with an error, in every fair run.  The worker
may be asleep in `recv_timeout` when the mark is set: `cancel` then wakes it with an entry of the
queue, or finds the queue full, which wakes it as well.

## Main results

* `released` : the lock of `pending` is released again and again.
* `wait_ends` : the wait ends.
-/

namespace Ocvpn.Auth

open Ipc Machine

variable {Url : Type} [DecidableEq Url] {parse : String → Option Url}
variable {s s' : System Url} {o : List (Note Url)} {i : Input Url}

/-- The threads: each call, and the worker. -/
inductive Thread where
  | caller (c : ℕ)
  | worker
  deriving DecidableEq

/-- Whose step an input is; that a prompt times out is nobody's. -/
def Input.thread : Input Url → Option Thread
  | .caller c => some (.caller c)
  | .worker .timeout => none
  | .worker _ => some .worker
  | _ => none

/-! ### Invariants -/

/-- A worker that sleeps while the mark is set is about to be woken. -/
structure Woken (s : System Url) : Prop where
  alive : s.shared.receiver = false → s.worker.isOver = true
  asleep : s.shared.cancelled = true → ∀ p, s.worker = .receiving p →
    s.shared.responses ≠ [] ∨ ∃ c, s.callers c = some .notify

omit [DecidableEq Url] in
theorem Woken.initial : Woken ({} : System Url) := ⟨fun h => (nomatch h), fun h => (nomatch h)⟩

omit [DecidableEq Url] in
/-- A queue that is full wakes the worker as well. -/
theorem Woken.overflow {p : Prompt Url} (h : Woken s) (hw : s.worker = .receiving p)
    (hfull : s.shared.receiver = true → responseLimit ≤ s.shared.responses.length) :
    s.shared.responses ≠ [] := by
  have hreceiver : s.shared.receiver = true := by
    by_contra hr
    have hover := h.alive (by simpa using hr)
    rw [hw] at hover
    cases hover
  intro hnil
  have hlength := hfull hreceiver
  rw [hnil] at hlength
  cases hlength

theorem Woken.calls {c : ℕ} (h : Woken s) (hst : Calls parse s c s' o) : Woken s' := by
  have hworker := hst.worker.1
  -- a call that stays or becomes a waking one
  have hother : ∀ {k : Caller}, k ≠ .notify → s.callers c = some k →
      ∀ {f : Option Caller}, (∃ d, s.callers d = some .notify) →
        ∃ d, Function.update s.callers c f d = some .notify := by
    rintro k hk hc f ⟨d, hd⟩
    refine ⟨d, ?_⟩
    rw [Function.update_of_ne, hd]
    rintro rfl
    rw [hc] at hd
    exact hk (Option.some.inj hd)
  cases hst with
  | enter q hc => exact ⟨h.alive, fun hm p hw => (h.asleep hm p hw).imp id (hother (by simp) hc)⟩
  | pass q hc => exact ⟨h.alive, fun hm p hw => (h.asleep hm p hw).imp id (hother (by simp) hc)⟩
  | refuse q e hc =>
    refine ⟨h.alive, fun hm p hw => (h.asleep hm p hw).imp id ?_⟩
    exact hc.elim (fun hc => hother (by simp) hc) fun hc => hother (by simp) hc
  | send q hc => exact ⟨h.alive, fun _ _ _ => .inl (by simp)⟩
  | leave q hc =>
    have hasleep : s.shared.cancelled = true → ∀ p, s.worker = .receiving p →
        s.shared.responses ≠ [] ∨ ∃ d, (s.quit c).callers d = some .notify :=
      fun hm p hw => (h.asleep hm p hw).imp id (hother (by simp) hc)
    split_ifs <;> exact ⟨h.alive, hasleep⟩
  | mark hc => exact ⟨h.alive, fun _ _ _ => .inr ⟨c, Function.update_self _ _ _⟩⟩
  | skip hc => exact ⟨h.alive, fun hm p hw => (h.asleep hm p hw).imp id (hother (by simp) hc)⟩
  | notify hc => exact ⟨h.alive, fun _ _ _ => .inl (by simp)⟩
  | overflow hc hfull =>
    exact ⟨h.alive, fun _ _ hw => .inl (h.overflow hw hfull)⟩
  | erase hc => exact ⟨h.alive, fun hm p hw => (h.asleep hm p hw).imp id (hother (by simp) hc)⟩

omit [DecidableEq Url] in
theorem Woken.works {m : Move Url} (h : Woken s) (hst : Works s m s' o) : Woken s' := by
  refine ⟨fun hr => ?_, fun hm p hw => ?_⟩
  · cases hst with
    | stop | close | conclude => rfl
    | fail _ _ _ _ _ hlive =>
      rw [h.alive hr] at hlive
      cases hlive
    | interrupt _ _ _ _ hw =>
      have hover := h.alive hr
      cases hworker : s.worker <;> simp_all [Phase.waits, Phase.isOver]
    | call _ hw | announce _ hw | publish _ hw | poll _ hw | receive _ _ _ hw | lookup _ _ _ hw
    | answer _ _ hw | found _ _ _ _ _ hw | discard _ _ _ hw | stale _ _ _ hw | handle _ _ _ _ _ hw
    | again _ _ _ hw | opened _ _ _ hw | submit _ _ _ hw | retry _ _ hw | done _ _ hw
    | finish _ _ hw | report _ hw =>
      have hover := h.alive hr
      rw [hw] at hover
      cases hover
  · cases hst with
    | poll p' _ hmark =>
      rw [hmark] at hm
      cases hm
    | finish _ report => cases report <;> cases hw
    | _ => cases hw

theorem Woken.step (h : Woken s) (hst : (machine parse).step s i = some (s', o)) : Woken s' := by
  obtain ⟨c, k, hk, hc, rfl, -⟩ | ⟨c, -, hst⟩ | ⟨m, -, hst⟩ | ⟨-, -, rfl, -⟩ := machine_step_cases hst
  · refine ⟨h.alive, fun hm p hw => (h.asleep hm p hw).imp id ?_⟩
    rintro ⟨d, hd⟩
    refine ⟨d, ?_⟩
    rw [goto_callers, if_neg, hd]
    rintro rfl
    rw [hc] at hd
    cases hd
  · exact h.calls hst
  · exact h.works hst
  · exact ⟨h.alive, h.asleep⟩

/-- What holds in every state of every run once a cancellation has returned. -/
structure Steady (s : System Url) : Prop where
  lock : Locking s
  marked : Marked s
  dropped : Dropped s
  woken : Woken s

theorem Steady.step (h : Steady s) (hst : (machine parse).step s i = some (s', o)) : Steady s' :=
  ⟨h.lock.step hst, h.marked.step hst, h.dropped.step h.marked hst, h.woken.step hst⟩

/-! ### The lock is released -/

/-- Nobody else moves a call. -/
theorem callers_of_ne {c : ℕ} {k : Caller} (hc : s.callers c = some k) (hi : i ≠ .caller c)
    (hst : (machine parse).step s i = some (s', o)) : s'.callers c = some k := by
  obtain ⟨d, k', -, hd, rfl, -⟩ | ⟨d, rfl, hcalls⟩ | ⟨m, -, hworks⟩ | ⟨-, -, rfl, -⟩ :=
    machine_step_cases hst
  · rw [goto_callers, if_neg, hc]
    rintro rfl
    rw [hc] at hd
    cases hd
  · have hdc : c ≠ d := by
      rintro rfl
      exact hi rfl
    cases hcalls with
    | leave =>
      split_ifs <;> exact (quit_callers s d c).trans (by rw [if_neg hdc, hc])
    | refuse | erase => exact (quit_callers s d c).trans (by rw [if_neg hdc, hc])
    | _ => exact (goto_callers s d _ c).trans (by rw [if_neg hdc, hc])
  · rw [hworks.frame.callers, hc]
  · exact hc

variable {τ : Trace (machine parse)}

theorem Steady.all (h : Steady (τ.state 0)) (n : ℕ) : Steady (τ.state n) :=
  τ.invariant h (fun _ _ _ _ hs hst => hs.step hst) n

/-- A step of the trace that is not one of the call's. -/
theorem caller_stays {c n : ℕ} {k : Caller} (hc : (τ.state n).callers c = some k)
    (hn : ¬ τ.Moves Input.thread (.caller c) n) : (τ.state (n + 1)).callers c = some k := by
  obtain ⟨hsame, -⟩ | ⟨i, hi, hst⟩ := τ.cases_step n
  · rw [hsame, hc]
  · refine callers_of_ne hc ?_ hst
    rintro rfl
    exact hn ⟨_, hi, rfl⟩

/-- The step of a call. -/
theorem calls_of_moves {c n : ℕ} (h : τ.Moves Input.thread (.caller c) n) :
    Calls parse (τ.state n) c (τ.state (n + 1)) (τ.output n) := by
  obtain ⟨i, hi, hst⟩ := h.step
  obtain rfl : i = .caller c := by
    cases i with
    | caller d =>
      cases hi
      rfl
    | worker m => cases m <;> cases hi
    | _ => cases hi
  simp only [machine] at hst
  split at hst
  · exact calls_of_stepCaller ‹_› hst
  · cases hst

/-- The step of the worker. -/
theorem works_of_moves {n : ℕ} (h : τ.Moves Input.thread .worker n) :
    ∃ m, m ≠ .timeout ∧ Works (τ.state n) m (τ.state (n + 1)) (τ.output n) := by
  obtain ⟨i, hi, hst⟩ := h.step
  cases i with
  | worker m =>
    refine ⟨m, ?_, works_of_stepWorker hst⟩
    rintro rfl
    cases hi
  | _ => cases hi

/-- A call at a place where it can always go on gets to the next one. -/
theorem caller_moves (hfair : τ.Fair Input.thread) {c n : ℕ} {k : Caller} {Q : ℕ → Prop}
    (hc : (τ.state n).callers c = some k)
    (hgo : ∀ s : System Url, s.callers c = some k → (s.stepCaller parse c k).isSome)
    (hmove : ∀ m, (τ.state m).callers c = some k →
      Calls parse (τ.state m) c (τ.state (m + 1)) (τ.output m) → Q m) : ∃ m ≥ n, Q m := by
  refine τ.progress hfair (.caller c) (P := fun s => s.callers c = some k) hc ?_ ?_ ?_
  · exact fun m hm hn => .inl (caller_stays hm hn)
  · exact fun m hm hmoves => hmove m hm (calls_of_moves hmoves)
  · refine fun m hm => .inl ⟨m, Nat.le_refl m, .caller c, rfl, ?_⟩
    simp only [machine, hm]
    exact hgo _ hm

/-- The next place of a call that holds the lock; leaving, it releases the lock. -/
theorem Calls.next {c : ℕ} {q : Request} (hst : Calls parse s c s' o) :
    (s.callers c = some (.leave q) → s'.holder = none) ∧
    (s.callers c = some (.send q) → s'.holder = none ∨ s'.callers c = some (.leave q)) ∧
    (s.callers c = some (.check q) → s'.holder = none ∨ s'.callers c = some (.send q)) := by
  cases hst with
  | refuse => exact ⟨fun _ => rfl, fun _ => .inl rfl, fun _ => .inl rfl⟩
  | leave q' hc =>
    rw [hc]
    refine ⟨fun _ => ?_, fun h => (nomatch h), fun h => (nomatch h)⟩
    split_ifs <;> rfl
  | pass q' hc =>
    rw [hc]
    refine ⟨fun h => (nomatch h), fun h => (nomatch h), fun h => .inr ?_⟩
    cases h
    simp
  | send q' hc =>
    rw [hc]
    refine ⟨fun h => (nomatch h), fun h => .inr ?_, fun h => (nomatch h)⟩
    cases h
    exact (goto_callers s c (.leave q) c).trans (if_pos rfl)
  | enter _ hc | mark hc | skip hc | notify hc | overflow hc | erase hc =>
    rw [hc]
    exact ⟨fun h => (nomatch h), fun h => (nomatch h), fun h => (nomatch h)⟩

/-- **The lock is released**: whoever holds it leaves. -/
theorem released (hfair : τ.Fair Input.thread) (h₀ : Steady (τ.state 0)) (n : ℕ) :
    ∃ m ≥ n, (τ.state m).holder = none := by
  have hleave : ∀ {c q n}, (τ.state n).callers c = some (.leave q) →
      ∃ m ≥ n, (τ.state m).holder = none := by
    intro c q n hc
    obtain ⟨m, hm, hq⟩ := caller_moves hfair (Q := fun m => (τ.state (m + 1)).holder = none) hc
      (fun _ _ => rfl) fun m hm hst => hst.next.1 hm
    exact ⟨m + 1, by omega, hq⟩
  have hsend : ∀ {c q n}, (τ.state n).callers c = some (.send q) →
      ∃ m ≥ n, (τ.state m).holder = none := by
    intro c q n hc
    obtain ⟨m, hm, hq | hq⟩ := caller_moves hfair (Q := fun m => (τ.state (m + 1)).holder = none ∨
      (τ.state (m + 1)).callers c = some (.leave q)) hc
      (fun s _ => by simp only [System.stepCaller]; split <;> rfl) fun m hm hst => hst.next.2.1 hm
    · exact ⟨m + 1, by omega, hq⟩
    · obtain ⟨k, hk, hfree⟩ := hleave hq
      exact ⟨k, by omega, hfree⟩
  have hcheck : ∀ {c q n}, (τ.state n).callers c = some (.check q) →
      ∃ m ≥ n, (τ.state m).holder = none := by
    intro c q n hc
    obtain ⟨m, hm, hq | hq⟩ := caller_moves hfair (Q := fun m => (τ.state (m + 1)).holder = none ∨
      (τ.state (m + 1)).callers c = some (.send q)) hc
      (fun s _ => by simp only [System.stepCaller]; split <;> rfl) fun m hm hst => hst.next.2.2 hm
    · exact ⟨m + 1, by omega, hq⟩
    · obtain ⟨k, hk, hfree⟩ := hsend hq
      exact ⟨k, by omega, hfree⟩
  cases hholder : (τ.state n).holder with
  | none => exact ⟨n, Nat.le_refl n, hholder⟩
  | some c =>
    obtain ⟨k, hk, hlocks⟩ := (h₀.all n).lock.held c hholder
    cases k with
    | check q => exact hcheck hk
    | send q => exact hsend hk
    | leave q => exact hleave hk
    | _ => cases hlocks

/-! ### The wait ends -/

/-- The wait at the prompt returns an error at the time. -/
def Ends (τ : Trace (machine parse)) (p : Prompt Url) (n : ℕ) : Prop :=
  ∃ e, .waited p (.error e) ∈ τ.output n

/-- The step that puts `Cancel` into the queue leaves something there. -/
theorem Calls.wakes {c : ℕ} {p : Prompt Url} (hst : Calls parse s c s' o) (h : Woken s)
    (hw : s.worker = .receiving p) (hc : s.callers c = some .notify) :
    s'.shared.responses ≠ [] := by
  cases hst with
  | notify => simp
  | overflow _ hfull => exact h.overflow hw hfull
  | refuse _ _ hc' =>
    rw [hc] at hc'
    obtain hc' | hc' := hc' <;> cases hc'
  | enter _ hc' | pass _ hc' | send _ hc' | leave _ hc' | mark hc' | skip hc' | erase hc' =>
    rw [hc] at hc'
    cases hc'

/-- A call only adds to the queue. -/
theorem Calls.responses {c : ℕ} (hst : Calls parse s c s' o) :
    ∃ l, s'.shared.responses = s.shared.responses ++ l := by
  cases hst with
  | send | notify => exact ⟨_, rfl⟩
  | leave => exact ⟨[], by split_ifs <;> exact (List.append_nil _).symm⟩
  | _ => exact ⟨[], (List.append_nil _).symm⟩

theorem ends_of_timeout {p : Prompt Url} (hp : s.worker.waits = some p)
    (hst : (machine parse).step s (.worker .timeout) = some (s', o)) :
    ∃ e, .waited p (.error e) ∈ o := by
  simp only [machine] at hst
  cases hw : s.worker <;> simp only [hw, System.stepWorker, reduceCtorEq, Option.some.injEq] at hst
  rw [hw] at hp
  cases hp
  obtain ⟨-, rfl⟩ := Prod.mk.inj hst
  exact ⟨expired, List.mem_singleton_self _⟩

/-- A step that is not the worker's leaves it alone, or its wait times out. -/
theorem worker_stays {n : ℕ} {p : Prompt Url} (hp : (τ.state n).worker.waits = some p)
    (hn : ¬ τ.Moves Input.thread .worker n) :
    (τ.state (n + 1)).worker = (τ.state n).worker ∧
      (∃ l, (τ.state (n + 1)).shared.responses = (τ.state n).shared.responses ++ l) ∨
    Ends τ p n := by
  obtain ⟨hsame, -⟩ | ⟨i, hi, hst⟩ := τ.cases_step n
  · rw [hsame]
    exact .inl ⟨rfl, [], (List.append_nil _).symm⟩
  · obtain ⟨c, k, -, -, hs', -⟩ | ⟨c, -, hcalls⟩ | ⟨m, rfl, hworks⟩ | ⟨-, -, hs', -⟩ :=
      machine_step_cases hst
    · rw [hs']
      exact .inl ⟨rfl, [], (List.append_nil _).symm⟩
    · exact .inl ⟨hcalls.worker.1, hcalls.responses⟩
    · have hm : m = .timeout := by
        by_contra hne
        refine hn ⟨_, hi, ?_⟩
        cases m <;> first | rfl | exact absurd rfl hne
      subst hm
      exact .inr (ends_of_timeout hp hst)
    · rw [hs']
      exact .inl ⟨rfl, [], (List.append_nil _).symm⟩

omit [DecidableEq Url] in
/-- What a step of the worker does in a wait that is cancelled. -/
theorem Works.cancelled {m : Move Url} {p : Prompt Url} (hst : Works s m s' o)
    (hp : s.worker.waits = some p) (hmark : s.shared.cancelled = true) (hdropped : Dropped s)
    (hcancelled : s.cancelled = true) :
    (∃ e, .waited p (.error e) ∈ o) ∨
    ((∃ id reply, s.worker = .comparing p id reply) ∧ s'.worker = .polling p) ∨
    (s.worker = .receiving p ∧ ∃ r, s'.worker = .received p r) := by
  cases hst with
  | interrupt _ p' e _ hw =>
    rw [hw] at hp
    cases hp
    exact .inl ⟨e, List.mem_singleton_self _⟩
  | discard p' id reply hw =>
    rw [hw] at hp
    cases hp
    exact .inr (.inl ⟨⟨id, reply, hw⟩, rfl⟩)
  | receive p' r rest hw =>
    rw [hw] at hp
    cases hp
    exact .inr (.inr ⟨hw, r, rfl⟩)
  | poll _ _ h | lookup _ _ _ _ h | answer _ _ _ h =>
    rw [hmark] at h
    cases h
  | found p' id reply origin kind hw h =>
    rw [hdropped hcancelled p' id reply hw] at h
    cases h
  | fail _ _ hw =>
    rw [hw] at hp
    cases hp
  | call _ hw | announce _ hw | publish _ hw | stale _ _ _ hw | handle _ _ _ _ _ hw
  | again _ _ _ hw | opened _ _ _ hw | submit _ _ _ hw | retry _ _ hw | done _ _ hw
  | finish _ _ hw | report _ hw | stop _ _ hw | close _ hw | conclude _ _ hw =>
    rw [hw] at hp
    cases hp

/-- At the time, the cancelled wait ends, or goes on to the phase after `w`. -/
def Advances (τ : Trace (machine parse)) (p : Prompt Url) (w : Phase Url) (n : ℕ) : Prop :=
  Ends τ p n ∨ ((∃ id reply, w = .comparing p id reply) ∧ (τ.state (n + 1)).worker = .polling p) ∨
    (w = .receiving p ∧ ∃ r, (τ.state (n + 1)).worker = .received p r)

section Wait

variable (h₀ : Steady (τ.state 0)) (hcancelled : ∀ n, (τ.state n).cancelled = true)

include h₀ hcancelled

theorem advances_of_moves {p : Prompt Url} {w : Phase Url} {n : ℕ} (hw : (τ.state n).worker = w)
    (hp : w.waits = some p) (hmoves : τ.Moves Input.thread .worker n) : Advances τ p w n := by
  obtain ⟨_, -, hworks⟩ := works_of_moves hmoves
  have hsteady := h₀.all n
  have := hworks.cancelled (p := p) (by rw [hw, hp])
    (hsteady.marked.returned (hcancelled n)) hsteady.dropped (hcancelled n)
  rwa [hw] at this

/-- The worker stays in its phase until it moves on or the wait ends. -/
theorem worker_stays_or_advances {p : Prompt Url} {w : Phase Url} (hp : w.waits = some p) (n : ℕ)
    (hw : (τ.state n).worker = w) : (τ.state (n + 1)).worker = w ∨ Advances τ p w n := by
  by_cases hmoves : τ.Moves Input.thread .worker n
  · exact .inr (advances_of_moves h₀ hcancelled hw hp hmoves)
  · obtain ⟨hsame, -⟩ | hends := worker_stays (p := p) (by rw [hw, hp]) hmoves
    · exact .inl (by rw [hsame, hw])
    · exact .inr (.inl hends)

variable (hfair : τ.Fair Input.thread)

include hfair

/-- In a phase the worker can leave at once, it moves on or the wait ends. -/
theorem worker_moves {p : Prompt Url} {w : Phase Url} {n : ℕ} (hw : (τ.state n).worker = w)
    (hp : w.waits = some p)
    (hgo : ∀ m, (τ.state m).worker = w →
      (∃ k ≥ m, (machine parse).Enabled Input.thread .worker (τ.state k)) ∨
        ∃ k ≥ m, Advances τ p w k) :
    ∃ m ≥ n, Advances τ p w m := by
  refine τ.progress hfair .worker (P := fun s => s.worker = w) hw ?_ ?_ hgo
  · exact fun m hm _ => worker_stays_or_advances h₀ hcancelled hp m hm
  · exact fun m hm hmoves => advances_of_moves h₀ hcancelled hm hp hmoves

theorem ends_of_received {p : Prompt Url} {r : Response} {n : ℕ}
    (hw : (τ.state n).worker = .received p r) : ∃ m ≥ n, Ends τ p m := by
  obtain ⟨m, hm, hends | ⟨⟨_, _, h⟩, -⟩ | ⟨h, -⟩⟩ := worker_moves h₀ hcancelled hfair hw rfl
    fun m hm => .inl ⟨m, Nat.le_refl m, .worker .examine, rfl, by
      simp [machine, System.stepWorker, hm, (h₀.all m).marked.returned (hcancelled m)]⟩
  · exact ⟨m, hm, hends⟩
  · cases h
  · cases h

theorem ends_of_polling {p : Prompt Url} {n : ℕ} (hw : (τ.state n).worker = .polling p) :
    ∃ m ≥ n, Ends τ p m := by
  obtain ⟨m, hm, hends | ⟨⟨_, _, h⟩, -⟩ | ⟨h, -⟩⟩ := worker_moves h₀ hcancelled hfair hw rfl
    fun m hm => .inl ⟨m, Nat.le_refl m, .worker .poll, rfl, by
      simp [machine, System.stepWorker, hm, (h₀.all m).marked.returned (hcancelled m)]⟩
  · exact ⟨m, hm, hends⟩
  · cases h
  · cases h

/-- The worker compares as soon as the lock is free. -/
theorem ends_of_comparing {p : Prompt Url} {id : Uuid} {reply : BrowserReply} {n : ℕ}
    (hw : (τ.state n).worker = .comparing p id reply) : ∃ m ≥ n, Ends τ p m := by
  obtain ⟨m, hm, hends | ⟨-, hpolling⟩ | ⟨h, -⟩⟩ := worker_moves h₀ hcancelled hfair hw rfl
    fun m hm => by
      obtain ⟨k, hk, hfree⟩ := released hfair h₀ m
      obtain hcomparing | hadvances := τ.holds_until (P := fun s => s.worker = .comparing p id reply)
        (Q := Advances τ p (.comparing p id reply)) hk hm
        (worker_stays_or_advances h₀ hcancelled rfl)
      · refine .inl ⟨k, hk, .worker .compare, rfl, ?_⟩
        simp only [machine, System.stepWorker, hcomparing, hfree, Option.isNone_none, if_true]
        split
        · split_ifs <;> rfl
        · rfl
      · exact .inr hadvances
  · exact ⟨m, hm, hends⟩
  · obtain ⟨k, hk, hends⟩ := ends_of_polling h₀ hcancelled hfair hpolling
    exact ⟨k, by omega, hends⟩
  · cases h

/-- A worker that sleeps is woken. -/
theorem ends_of_receiving {p : Prompt Url} {n : ℕ} (hw : (τ.state n).worker = .receiving p) :
    ∃ m ≥ n, Ends τ p m := by
  have hadvance : ∀ {m}, Advances τ p (.receiving p) m → ∃ k ≥ m, Ends τ p k := by
    rintro m (hends | ⟨⟨_, _, h⟩, -⟩ | ⟨-, r, hr⟩)
    · exact ⟨m, Nat.le_refl m, hends⟩
    · cases h
    · obtain ⟨k, hk, hends⟩ := ends_of_received h₀ hcancelled hfair hr
      exact ⟨k, by omega, hends⟩
  -- with something in the queue the worker can go on
  have hfull : ∀ {n}, (τ.state n).worker = .receiving p → (τ.state n).shared.responses ≠ [] →
      ∃ m ≥ n, Ends τ p m := by
    intro n hw hne
    have henabled : ∀ s : System Url, s.worker = .receiving p → s.shared.responses ≠ [] →
        (machine parse).Enabled Input.thread .worker s := by
      intro s hs hs'
      obtain ⟨r, rest, hr⟩ := List.exists_cons_of_ne_nil hs'
      exact ⟨.worker .receive, rfl, by simp [machine, System.stepWorker, hs, hr]⟩
    have hstay : ∀ m, (τ.state m).worker = .receiving p ∧ (τ.state m).shared.responses ≠ [] →
        ¬ τ.Moves Input.thread .worker m →
        ((τ.state (m + 1)).worker = .receiving p ∧ (τ.state (m + 1)).shared.responses ≠ []) ∨
          Advances τ p (.receiving p) m := by
      rintro m ⟨hm, hm'⟩ hn
      obtain ⟨hsame, l, hl⟩ | hends := worker_stays (p := p) (by rw [hm]; rfl) hn
      · exact .inl ⟨by rw [hsame, hm], by rw [hl]; simp [hm']⟩
      · exact .inr (.inl hends)
    have hprogress := τ.progress hfair .worker
      (P := fun s => s.worker = .receiving p ∧ s.shared.responses ≠ [])
      (Q := Advances τ p (.receiving p)) ⟨hw, hne⟩ hstay
      (fun m hm hmoves => advances_of_moves h₀ hcancelled hm.1 rfl hmoves)
      (fun m hm => .inl ⟨m, Nat.le_refl m, henabled _ hm.1 hm.2⟩)
    obtain ⟨m, hm, hadvances⟩ := hprogress
    obtain ⟨k, hk, hends⟩ := hadvance hadvances
    exact ⟨k, by omega, hends⟩
  have hsteady := h₀.all n
  obtain hne | ⟨c, hc⟩ := hsteady.woken.asleep (hsteady.marked.returned (hcancelled n)) p hw
  · exact hfull hw hne
  · -- the cancellation has yet to wake it
    have henabled : ∀ s : System Url, s.callers c = some .notify →
        (machine parse).Enabled Input.thread (.caller c) s := by
      intro s hs
      refine ⟨.caller c, rfl, ?_⟩
      simp only [machine, hs, System.stepCaller]
      split <;> rfl
    have hwake : ∃ m ≥ n, Advances τ p (.receiving p) m ∨
        (τ.state (m + 1)).worker = .receiving p ∧ (τ.state (m + 1)).shared.responses ≠ [] := by
      refine τ.progress hfair (.caller c)
        (P := fun s => s.worker = .receiving p ∧ s.callers c = some .notify) ⟨hw, hc⟩ ?_ ?_ ?_
      · rintro m ⟨hm, hm'⟩ hn
        obtain hstays | hadvances := worker_stays_or_advances h₀ hcancelled rfl m hm
        · exact .inl ⟨hstays, caller_stays hm' hn⟩
        · exact .inr (.inl hadvances)
      · rintro m ⟨hm, hm'⟩ hmoves
        have hcalls := calls_of_moves hmoves
        exact .inr ⟨by rw [hcalls.worker.1, hm], hcalls.wakes (h₀.all m).woken hm hm'⟩
      · exact fun m hm => .inl ⟨m, Nat.le_refl m, henabled _ hm.2⟩
    obtain ⟨m, hm, hadvances | ⟨hw', hne⟩⟩ := hwake
    · obtain ⟨k, hk, hends⟩ := hadvance hadvances
      exact ⟨k, by omega, hends⟩
    · obtain ⟨k, hk, hends⟩ := hfull hw' hne
      exact ⟨k, by omega, hends⟩

/-- **A cancelled wait ends** with an error, whatever is in the queue. -/
theorem wait_ends {p : Prompt Url} {n : ℕ} (hp : (τ.state n).worker.waits = some p) :
    ∃ m ≥ n, Ends τ p m := by
  cases hw : (τ.state n).worker with
  | polling p' =>
    rw [hw] at hp
    cases hp
    exact ends_of_polling h₀ hcancelled hfair hw
  | receiving p' =>
    rw [hw] at hp
    cases hp
    exact ends_of_receiving h₀ hcancelled hfair hw
  | received p' r =>
    rw [hw] at hp
    cases hp
    exact ends_of_received h₀ hcancelled hfair hw
  | comparing p' id reply =>
    rw [hw] at hp
    cases hp
    exact ends_of_comparing h₀ hcancelled hfair hw
  | _ =>
    rw [hw] at hp
    cases hp

end Wait

/-! ### The pairing -/

theorem Steady.of_run {p : System Url → Input Url → Prop} {os : List (Note Url)}
    (h : (machine parse).Run p {} os s) : Steady s := by
  refine h.invariant (P := fun _ s => Steady s) ?_ fun _ _ _ _ _ hs _ hst => hs.step hst
  exact ⟨.initial, .initial, fun hc => (nomatch hc), .initial⟩

/-- **Prompts and answers stay paired** in every run in which no prompt times out: the waiting side
never finds a stale answer, and gets the one accepted for its prompt; a page reaches the library in
its own transaction, and never after that is over; a form or a certificate gets at most one answer.
Once a cancellation has returned, no call that begins later is accepted and no wait returns an
answer; in a fair run each wait ends with an error. -/
theorem prompts_paired {os : List (Note Url)} (h : (machine parse).Run Timely {} os s) :
    (∀ p, .stale p ∉ os) ∧
    (∀ p r, .waited p (.ok r) ∈ os →
      p.Answers r ∧ ∃ c q P, .accepted c q (some P) ∈ os ∧ P.id = p.id ∧ q.response = r) ∧
    (∀ p id page, .submitted p id page ∈ os →
      id = p.id ∧ .waited p (.ok (.browser id (.page page))) ∈ os) ∧
    (∀ id, Finished id s → ∀ os' s', (machine parse).Run Timely s os' s' →
      (∀ p page, .submitted p id page ∉ os') ∧
        ∀ p reply, .waited p (.ok (.browser id reply)) ∉ os') ∧
    (∀ id, os.countP (Note.acceptsFor id) ≤ 1) ∧
    (s.cancelled = true → ∀ os' s', (machine parse).Run Timely s os' s' →
      (∀ c q P, s.callers c = none → .accepted c q P ∉ os') ∧ ∀ p r, .waited p (.ok r) ∉ os') ∧
    (s.cancelled = true → ∀ τ : Trace (machine parse), τ.state 0 = s → τ.Fair Input.thread →
      ∀ n p, (τ.state n).worker.waits = some p →
        ∃ m ≥ n, ∃ e, .waited p (.error e) ∈ τ.output m) := by
  obtain ⟨hsource, hinv⟩ := Source.of_run h
  have hsteady := Steady.of_run h
  refine ⟨hsource.stale, fun p r hr => ?_, hsource.submitted,
    fun id hfinished os' s' hrun => hfinished.run hinv hrun, (Accepting.of_run h).1.once,
    fun hcancelled os' s' hrun => ?_, fun hcancelled τ hτ hfair n p hp => ?_⟩
  · obtain ⟨-, hans, c, q, P, hmem, hfits, rfl⟩ := hsource.waited p r hr
    exact ⟨hans, c, q, P, hmem, id_of_fits hfits hans, rfl⟩
  · exact Hushed.run ⟨hcancelled, hsteady.marked, hsteady.dropped,
      fun c q hc hsend => by rw [hc] at hsend; cases hsend⟩ hrun
  · have h₀ : Steady (τ.state 0) := by rwa [hτ]
    refine wait_ends h₀ (fun n => ?_) hfair hp
    exact τ.invariant (P := fun s => s.cancelled = true) (by rwa [hτ])
      (fun _ _ _ _ hs hst => cancelled_mono hst hs) n

/-- A certificate that the user accepts. -/
def sampleCertificate : CertificatePrompt where
  promptId := 1
  attemptId := 2
  host := "vpn.example"
  port := 443
  reason := ""
  details := ""
  fingerprint := ""
  changedPin := false

/-- The worker asks, a call answers, and the worker gets the answer. -/
def sampleInputs : List (Input ℕ) :=
  [.worker (.callback (.certificate sampleCertificate)), .worker .announce, .worker .publish,
    .call 0 (.certificateReply 1 .acceptAttempt), .caller 0, .worker .poll, .caller 0, .caller 0,
    .worker .receive, .worker .examine, .caller 0]

theorem sampleInputs_timely (s : System ℕ) : ∀ i ∈ sampleInputs, Timely s i := by
  simp [sampleInputs, Timely]

/-- The machine of the sample; no URL is read there. -/
def sampleMachine : Machine (System ℕ) (Input ℕ) (Note ℕ) := machine fun _ => none

theorem prompts_paired_sample :
    ∃ c q P, .accepted c q (some P) ∈ sampleMachine.emitted {} sampleInputs ∧
      P.id = 1 ∧ q.response = .certificate 1 .acceptAttempt := by
  have hrun : sampleMachine.Run Timely {} (sampleMachine.emitted {} sampleInputs)
      (sampleMachine.perform {} sampleInputs) :=
    (Run.refl : sampleMachine.Run Timely {} [] {}).perform fun i hi s => sampleInputs_timely s i hi
  exact ((prompts_paired hrun).2.1 (.certificate sampleCertificate)
    (.certificate 1 .acceptAttempt) (by decide)).2

end Ocvpn.Auth
