import Ocvpn.Daemon.Bus
import Ocvpn.Daemon.Orphans
import Ocvpn.Daemon.Transitions
import Ocvpn.Journal.Ownership

/-!
# The daemon and the journals on disk

A `Host` is the daemon with the journal directory it and its workers share.  A worker whose process
tree is not known to be quiet may run `lifecycle` at any time; the recoveries of the daemon run when
their steps end, with the outcome that the step reports.

`recovery_blocked` is set from the error code of the final update.  A supervisor passes the error of
its worker on when its own recovery was clean, so an error that asks for a recovery blocks the
service although none is outstanding.  A run is `Timely` when no supervisor recovers without
warnings after such an error.

## Main results

* `Host.blocked_iff_outstanding` : in a timely run a quiescent final update blocks the service
  exactly when the recovery was not clean, and a granted reservation finds no journal.
* `Host.blocked_after_recovery` : without the condition the service is blocked with nothing to
  recover.
-/

namespace Ocvpn.Daemon

open Net Crash

/-! ### The model -/

variable {Peer Handoff H : Type}

/-- The daemon, and the world of its network helper. -/
structure Host (Peer Handoff H : Type) where
  daemon : System Peer Handoff
  world : World H
  /-- How the recovery of each attempt ended; no step reads it. -/
  recoveries : ℕ → Option RecoveryOutcome

namespace Host

/-- How a recovery on a blocking thread ends. -/
def outcome : Outcome Error (List Error) → RecoveryOutcome
  | .ok warnings => .warnings warnings
  | .err e => .failed e
  | .stop => .panicked

/-- The transaction of an attempt. -/
def transaction (s : Host Peer Handoff H) (a : Attempt Peer) : TransactionId :=
  { serviceInstanceId := s.daemon.service.state.snapshot.serviceInstanceId, attemptId := a.id }

/-- A program of a new process. -/
def run {α : Type} (x : Prog H α) (w : World H) (cuts : List (Cut Error)) :
    Outcome Error α × World H :=
  let r := x ⟨{ w with memory := none }, cuts⟩
  (r.1, r.2.world)

/-- One step of the daemon, of a worker or of the operating system. -/
inductive Input (Peer Handoff H : Type) where
  /-- A step of the daemon that ends no recovery. -/
  | daemon (input : Daemon.Input Peer Handoff)
  /-- The network helper of attempt `k` runs `lifecycle`. -/
  | work (k : ℕ) (input : LifecycleInput) (cuts : List (Cut Error))
  /-- The network helper of attempt `k` could not deliver the report of its `lifecycle`. -/
  | undelivered (k : ℕ) (cuts : List (Cut Error))
  /-- The recovery of attempt `k` ends. -/
  | recovered (k : ℕ) (cuts : List (Cut Error))
  /-- The recovery of `quiesce` ends. -/
  | adminRecovered (cuts : List (Cut Error))
  /-- Other programs change the operating system. -/
  | elapse (host : H) (transcripts : List Transcript)

/-- The input ends a recovery. -/
def endsRecovery : Daemon.Input Peer Handoff → Bool
  | .supervise _ (.recoveryEnded _) | .adminRecovered _ => true
  | _ => false

/-- A program of the process tree of attempt `k` runs. -/
def worker {α : Type} (s : Host Peer Handoff H) (k : ℕ) (x : Attempt Peer → Prog H α)
    (cuts : List (Cut Error)) : Option (Host Peer Handoff H) :=
  match s.daemon.attempts[k]? with
  | some a =>
    if a.supervisor.tree = .spawned then some { s with world := (run (x a) s.world cuts).2 }
    else none
  | none => none

/-- One step. -/
def step [DecidableEq Peer] (setup : Service.Setup Peer Handoff) (P : Platform H)
    (s : Host Peer Handoff H) (input : Input Peer Handoff H) :
    Option (Host Peer Handoff H × List (Output Peer)) :=
  match input with
  | .daemon input =>
    -- a recovery ends only together with its run below
    if endsRecovery input then none
    else (System.step setup s.daemon input).map fun (daemon, out) => ({ s with daemon }, out)
  | .work k input cuts =>
    (s.worker k (fun a => lifecycle P (s.transaction a) input) cuts).map (·, [])
  | .undelivered k cuts => (s.worker k (fun a => recover P (s.transaction a)) cuts).map (·, [])
  | .recovered k cuts => match s.daemon.attempts[k]? with
    | some a =>
      let r := run (recover P (s.transaction a)) s.world cuts
      (System.step setup s.daemon (.supervise k (.recoveryEnded (outcome r.1)))).map
        fun (daemon, out) =>
          ({ s with
            daemon, world := r.2
            recoveries := fun i => if i = k then some (outcome r.1) else s.recoveries i }, out)
    | none => none
  | .adminRecovered cuts =>
    let r := run (recoverAll P) s.world cuts
    (System.step setup s.daemon (.adminRecovered (outcome r.1))).map fun (daemon, out) =>
      ({ s with daemon, world := r.2 }, out)
  -- anything else may change the host in between
  | .elapse host transcripts => some ({ s with world := { s.world with host, transcripts } }, [])

/-- The error of the recovery at the start, which runs before the daemon serves. -/
def startupError : RecoveryOutcome → Option Error
  | .warnings [] => none
  | .warnings list => some (recoveryWarning list)
  | .failed e => some (recoveryWarning [e])
  | .panicked => none

end Host

/-- **The daemon on its host**, from the recovery at its start on.  A panic of that recovery ends
the daemon. -/
def host [DecidableEq Peer] (setup : Service.Setup Peer Handoff) (P : Platform H) :
    Machine (Host Peer Handoff H) (Host.Input Peer Handoff H) (Output Peer) where
  init s := ∃ instanceId world cuts, (recoverAll P ⟨world, cuts⟩).1 ≠ .stop ∧
    s = { daemon := System.start instanceId
            (Host.startupError (Host.outcome (recoverAll P ⟨world, cuts⟩).1))
          world := (recoverAll P ⟨world, cuts⟩).2.world
          recoveries := fun _ => none }
  step := Host.step setup P

namespace Host

/-! ### Journals and attempts -/

/-- The result asks for a recovery. -/
def Required (r : Except Error Unit) : Prop := ∃ e, r = .error e ∧ e.code = .recoveryRequired

/-- No final report of the attempt tells that its network is in order. -/
structure Outstanding (a : Attempt Peer) : Prop where
  updates : ∀ r q, Update.finished r q ∈ a.updates → Required r
  reporting : ∀ r, a.supervisor.stage = .reporting r → Required r

/-- While reservations are possible, only an attempt that is not over has a journal. -/
def Accounted (instanceId : Uuid) (s : Session Peer) (attempts : List (Attempt Peer))
    (root : Root) : Prop :=
  s.stopping = false → s.recoveryBlocked = false → ∀ t, root.find (path t) ≠ none →
    ∃ (k : ℕ) (a : Attempt Peer), attempts[k]? = some a ∧ a.Unresolved ∧ Outstanding a ∧
      path t = path { serviceInstanceId := instanceId, attemptId := a.id }

/-- Every final report of the attempt tells how its recovery ended. -/
def Reports (o : Option RecoveryOutcome) (a : Attempt Peer) : Prop :=
  ∀ r, (a.supervisor.stage = .reporting r ∨ Update.finished r true ∈ a.updates) →
    ∃ o', o = some o' ∧ (Required r ↔ o' ≠ .warnings [])

/-- An attempt goes on without the end of its recovery. -/
structure Grown (a a' : Attempt Peer) : Prop where
  id : a'.id = a.id
  reporting : ∀ r, a'.supervisor.stage = .reporting r → a.supervisor.stage = .reporting r
  updates : ∀ r q, Update.finished r q ∈ a'.updates → Update.finished r q ∈ a.updates ∨
    (q = true ∧ a.supervisor.stage = .reporting r) ∨ (q = false ∧ Required r)

theorem Grown.refl (a : Attempt Peer) : Grown a a := ⟨rfl, fun _ h => h, fun _ _ h => .inl h⟩

theorem Outstanding.grown {a a' : Attempt Peer} (h : Outstanding a) (hg : Grown a a') :
    Outstanding a' := by
  refine ⟨fun r q hmem => ?_, fun r hr => h.reporting r (hg.reporting r hr)⟩
  rcases hg.updates r q hmem with hmem | ⟨-, hr⟩ | ⟨-, hr⟩
  · exact h.updates r q hmem
  · exact h.reporting r hr
  · exact hr

theorem Reports.grown {o : Option RecoveryOutcome} {a a' : Attempt Peer} (h : Reports o a)
    (hg : Grown a a') : Reports o a' := by
  intro r hr
  refine h r ?_
  rcases hr with hr | hmem
  · exact .inl (hg.reporting r hr)
  · rcases hg.updates r true hmem with hmem | ⟨-, hr⟩ | ⟨hq, -⟩
    · exact .inr hmem
    · exact .inl hr
    · cases hq

/-! ### Steps of a supervisor -/

theorem required_afterRecovery {r : Except Error Unit} {o : RecoveryOutcome}
    (h : o ≠ .warnings []) : Required (Supervisor.afterRecovery r o) := by
  unfold Supervisor.afterRecovery
  split
  · exact absurd rfl h
  · exact ⟨_, rfl, rfl⟩
  · exact ⟨_, rfl, rfl⟩
  · exact ⟨_, rfl, rfl⟩

/-- The end of a recovery decides what is reported. -/
theorem step_recoveryEnded {sup sup' : Supervisor} {o : RecoveryOutcome} {sent : List Update}
    (h : sup.step (.recoveryEnded o) = some (sup', sent)) : sent = [] ∧
      ((∃ r, sup.stage = .recovering r ∧ sup'.stage = .reporting (Supervisor.afterRecovery r o)) ∨
        sup.stage = .crashed ∧ sup'.stage = .crashed) := by
  cases hstage : sup.stage with
  | recovering r =>
    simp only [Supervisor.step, hstage, Option.some.injEq, Prod.mk.injEq] at h
    obtain ⟨rfl, rfl⟩ := h
    exact ⟨rfl, .inl ⟨r, rfl, rfl⟩⟩
  | crashed =>
    simp only [Supervisor.step, hstage] at h
    split_ifs at h
    obtain ⟨rfl, rfl⟩ := Prod.mk.inj (Option.some.inj h)
    exact ⟨rfl, .inr ⟨rfl, rfl⟩⟩
  | relaying stopping terminal => simp [Supervisor.step, hstage, Supervisor.relay] at h
  | launching | handoff | settling | ended | reporting | returned =>
    simp [Supervisor.step, hstage] at h

/-- Another step of the supervisor. -/
theorem grown_of_step {a : Attempt Peer} {e : SupervisorEvent} {sup : Supervisor}
    {sent : List Update} (he : ∀ o, e ≠ .recoveryEnded o)
    (h : a.supervisor.step e = some (sup, sent)) :
    Grown a { a with supervisor := sup, updates := a.updates ++ sent } := by
  -- only the end of a recovery leads from `recovering` to `reporting`
  have hrecovering : ∀ r r', a.supervisor.stage = .recovering r → sup.stage ≠ .reporting r' := by
    intro r r' hstage hreporting
    cases e with
    | crash =>
      simp only [Supervisor.step, Supervisor.running, hstage, if_true, Option.some.injEq,
        Prod.mk.injEq] at h
      rw [← h.1] at hreporting
      cases hreporting
    | recoveryEnded o => exact he o rfl
    | _ => simp [Supervisor.step, hstage] at h
  refine ⟨rfl, fun r hr => ?_, fun r q hmem => ?_⟩
  · change sup.stage = .reporting r at hr
    cases Supervisor.shape_of_step h with
    | recovered r₁ r₂ hstage => exact absurd hr (hrecovering r₁ r hstage)
    | walk stage sent hs hs' =>
      change stage = .reporting r at hr
      subst hr
      cases hs'
    | outlived => exact hr
    | spawn | quiet | recover | uncertain | report | crash => cases hr
  · rcases List.mem_append.1 hmem with hold | hnew
    · exact .inl hold
    refine .inr ?_
    clear hmem
    cases Supervisor.shape_of_step h with
    | walk stage sent hs hs' hsent => cases hsent _ hnew
    | uncertain =>
      obtain ⟨rfl, rfl⟩ := Update.finished.inj (List.mem_singleton.1 hnew)
      exact .inr ⟨rfl, _, rfl, rfl⟩
    | report r₁ hstage =>
      obtain ⟨rfl, rfl⟩ := Update.finished.inj (List.mem_singleton.1 hnew)
      exact .inl ⟨rfl, hstage⟩
    | spawn | quiet | recover | recovered | outlived | crash => cases hnew

/-! ### Journals are accounted for -/

section Accounted

variable {instanceId : Uuid} {q q' : Session Peer} {as as' : List (Attempt Peer)}
  {root root' : Root} {a b : Attempt Peer} {k : ℕ}

/-- What accounts for a journal goes on doing so. -/
theorem Accounted.keep (h : Accounted instanceId q as root)
    (hq : q'.stopping = false → q'.recoveryBlocked = false →
      q.stopping = false ∧ q.recoveryBlocked = false)
    (hroot : ∀ t, root'.find (path t) ≠ none → root.find (path t) ≠ none)
    (has : q'.recoveryBlocked = false → ∀ (j : ℕ) (x : Attempt Peer), as[j]? = some x →
      x.Unresolved → Outstanding x →
      root'.find (path { serviceInstanceId := instanceId, attemptId := x.id }) ≠ none →
      ∃ x', as'[j]? = some x' ∧ x'.id = x.id ∧ x'.Unresolved ∧ Outstanding x') :
    Accounted instanceId q' as' root' := by
  intro hstop hblocked t ht
  obtain ⟨hstop₀, hblocked₀⟩ := hq hstop hblocked
  obtain ⟨j, x, hx, hun, hout, hpath⟩ := h hstop₀ hblocked₀ t (hroot t ht)
  obtain ⟨x', hx', hid, hun', hout'⟩ := has hblocked j x hx hun hout (hpath ▸ ht)
  exact ⟨j, x', hx', hun', hout', by rw [hid, hpath]⟩

/-- Replacing an attempt by one that accounts for as much. -/
theorem accounts_set {R : Attempt Peer → Prop} (ha : as[k]? = some a) (hid : b.id = a.id)
    (hb : a.Unresolved → Outstanding a → R a → b.Unresolved ∧ Outstanding b) (j : ℕ)
    (x : Attempt Peer) (hx : as[j]? = some x) (hun : x.Unresolved) (hout : Outstanding x)
    (hr : R x) :
    ∃ x', (as.set k b)[j]? = some x' ∧ x'.id = x.id ∧ x'.Unresolved ∧ Outstanding x' := by
  by_cases hjk : j = k
  · subst hjk
    obtain rfl := Option.some.inj (ha.symm.trans hx)
    have hlt := (List.getElem?_eq_some_iff.1 ha).1
    exact ⟨b, by simp [hlt], hid, hb hun hout hr⟩
  · exact ⟨x, by rw [List.getElem?_set_ne (Ne.symm hjk)]; exact hx, rfl, hun, hout⟩

/-- The moves of the daemon, the end of a recovery apart. -/
theorem Accounted.move {s : System Peer Handoff} {input : Daemon.Input Peer Handoff}
    {v : Service Peer} {issued : List Uuid} (hinv : s.Inv)
    (h : Accounted instanceId s.service.state s.attempts root)
    (hm : Move s input v as issued) (hi : ∀ k o, input ≠ .supervise k (.recoveryEnded o)) :
    Accounted instanceId v.state as root := by
  have same : ∀ (j : ℕ) (x : Attempt Peer), s.attempts[j]? = some x → x.Unresolved →
      Outstanding x → ∃ x', s.attempts[j]? = some x' ∧ x'.id = x.id ∧ x'.Unresolved ∧
        Outstanding x' := fun j x hx hun hout => ⟨x, hx, rfl, hun, hout⟩
  cases hm with
  | still => exact h
  | reserve =>
    exact h.keep (fun h₁ h₂ => by simpa [Service.reserved] using And.intro h₁ h₂) (fun _ => id)
      fun _ j x hx hun hout _ => same j x hx hun hout
  | start m slot fresh hslot =>
    refine h.keep (fun h₁ h₂ => by simpa [Service.started] using And.intro h₁ h₂) (fun _ => id)
      fun _ j x hx hun hout _ => ⟨x, ?_, rfl, hun, hout⟩
    rw [List.getElem?_append_left (List.getElem?_eq_some_iff.1 hx).1]
    exact hx
  | renew =>
    exact h.keep (fun h₁ h₂ => ⟨h₁, h₂⟩) (fun _ => id) fun _ j x hx hun hout _ =>
      same j x hx hun hout
  | cancel =>
    exact h.keep (fun h₁ h₂ => by simpa using And.intro h₁ h₂) (fun _ => id)
      fun _ j x hx hun hout _ => same j x hx hun hout
  | stop =>
    intro hstop
    simp at hstop
  | unblock c hquiet =>
    intro hstop
    cases hquiet.1.symm.trans hstop
  | supervise k a event supervisor sent ha hstep =>
    have hgrown := grown_of_step (fun o ho => hi k o (by rw [ho])) hstep
    refine h.keep (fun h₁ h₂ => ⟨h₁, h₂⟩) (fun _ => id) fun _ => accounts_set ha rfl
      fun hun hout _ => ⟨?_, hout.grown hgrown⟩
    exact (Attempt.unresolved_supervise (hinv.core.sound a (List.mem_of_getElem? ha)) hstep).2 hun
  | update k a u rest session wall ha hw hu hh =>
    cases hfin : u.isFinished with
    | true =>
      cases u with
      | finished r quiescent =>
        refine h.keep (fun h₁ h₂ => ?_) (fun _ => id) fun hb => accounts_set ha rfl
          fun _ hout _ => ?_
        · obtain ⟨slot, hslot, -⟩ := Service.holds_iff.1 hh
          exact ⟨by simpa using h₁, (hinv.core.clear (by simp [hslot])).1⟩
        · -- a final update of an outstanding attempt blocks
          obtain ⟨e, rfl, he⟩ := hout.updates r quiescent (hu ▸ List.mem_cons_self)
          simp [Service.update, Service.finished, he] at hb
      | connected | reconnecting | traffic => cases hfin
    | false =>
      obtain ⟨-, hblocked, -⟩ := Service.update_frame s.service session wall hfin
      refine h.keep (fun h₁ h₂ => ⟨by simpa using h₁, hblocked ▸ h₂⟩) (fun _ => id) fun _ =>
        accounts_set ha rfl fun _ hout _ => ⟨.inl (by simp), fun r quiescent hmem => ?_,
          hout.reporting⟩
      exact hout.updates r quiescent (hu ▸ List.mem_cons_of_mem _ hmem)
  | stale k a rest session wall ha hw hh =>
    refine h.keep (fun h₁ h₂ => ⟨h₁, h₂⟩) (fun _ => id) fun _ => accounts_set ha rfl
      fun hun _ _ => ?_
    rw [(hinv.core.holds_iff_unresolved ha).2 hun] at hh
    cases hh
  | drained k a ha hw hu hrun =>
    refine h.keep (fun h₁ h₂ => ⟨h₁, h₂⟩) (fun _ => id) fun _ => accounts_set ha rfl
      fun _ hout _ => ⟨.inr ⟨rfl, ?_⟩, hout.updates, hout.reporting⟩
    rcases Attempt.stage_of_not_running hrun with hret | hcrash
    · have hsound := hinv.core.sound a (List.mem_of_getElem? ha)
      obtain ⟨r, quiescent, hmem⟩ := hsound.pending hw hret
      rw [hu] at hmem
      cases hmem
    · exact hcrash
  | join k a wall ha hw hrun hh =>
    refine h.keep (fun h₁ h₂ => ⟨h₁, h₂⟩) (fun _ => id) fun _ => accounts_set ha rfl
      fun hun _ _ => ?_
    rw [(hinv.core.holds_iff_unresolved ha).2 hun] at hh
    cases hh
  | fail =>
    intro _ hblocked
    simp [Service.supervisorFailed] at hblocked

end Accounted

/-! ### The journals after each step -/

section Steps

variable {P : Platform H} {s s' : Host Peer Handoff H} {w : World H} {cuts : List (Cut Error)}

theorem outcome_eq_clean {r : Outcome Error (List Error)} :
    outcome r = .warnings [] ↔ r = .ok [] := by
  cases r <;> simp [outcome]

/-- A recovery creates no journal. -/
theorem find_of_recovered {J : Journal → Prop} {w₀ : World H} (h : Recovered P J w₀ w)
    (t : TransactionId) (ht : w.root.find (path t) ≠ none) : w₀.root.find (path t) ≠ none := by
  rcases h.find_eq (path t) with hnone | hsame
  · exact absurd hnone ht
  · exact hsame ▸ ht

theorem run_recover (P : Platform H) (w : World H) (cuts : List (Cut Error))
    (t : TransactionId) :
    (∀ t', (run (recover P t) w cuts).2.root.find (path t') ≠ none →
      w.root.find (path t') ≠ none) ∧
    (outcome (run (recover P t) w cuts).1 = .warnings [] →
      (run (recover P t) w cuts).2.root.find (path t) = none) := by
  refine ⟨fun t' => ?_, fun hclean => ?_⟩
  · let w₀ : World H := { w with memory := none }
    have hrun : Recovered P (Stored w₀.root) w₀ (recover P t ⟨w₀, cuts⟩).2.world :=
      ((recover_recovered t).mono (fun _ => id) (fun _ _ hw => hw.1) (fun _ _ => id)
        fun _ => id).world (.inl trivial) rfl
    exact find_of_recovered hrun t'
  · exact ((recover_recovered t).of_ok (.inl trivial) rfl (outcome_eq_clean.1 hclean)).2 rfl

theorem run_recoverAll (t : TransactionId) :
    (run (recoverAll P) w cuts).2.root.find (path t) ≠ none → w.root.find (path t) ≠ none := by
  let w₀ : World H := { w with memory := none }
  have hrun : Recovered P (Stored w₀.root) w₀ (recoverAll P ⟨w₀, cuts⟩).2.world :=
    (recoverAll_recovered.mono (fun _ => id) (fun _ _ hw => hw.1) (fun _ _ => id)
      fun _ => id).world (.inl trivial) rfl
  exact find_of_recovered hrun t

/-- A `lifecycle` creates no journal, or its own is the only one. -/
theorem run_lifecycle (t : TransactionId) (input : LifecycleInput) :
    (∀ t', (run (lifecycle P t input) w cuts).2.root.find (path t') ≠ none →
      w.root.find (path t') ≠ none) ∨
    ∀ t', (run (lifecycle P t input) w cuts).2.root.find (path t') ≠ none → t' = t := by
  have hrun : NoSecondJournal t { w with memory := none } (run (lifecycle P t input) w cuts).2 :=
    (lifecycle_noSecondJournal input).world (.inl trivial) rfl
  rcases hrun with h | h
  · refine .inl fun t' ht' => ?_
    rcases h (path t') (path_isJson t') with hnone | hsame
    · exact absurd hnone ht'
    · exact hsame ▸ ht'
  · exact .inr fun t' ht' => path_injective (h _ (Root.mem_names.2 ht') (path_isJson t'))

/-- A step of a supervisor is a step of its attempt. -/
theorem step_supervise [DecidableEq Peer] {setup : Service.Setup Peer Handoff}
    {d d' : System Peer Handoff} {k : ℕ} {e : SupervisorEvent} {out : List (Output Peer)}
    {a : Attempt Peer} (ha : d.attempts[k]? = some a)
    (h : System.step setup d (.supervise k e) = some (d', out)) :
    ∃ sup sent, a.supervisor.step e = some (sup, sent) ∧ d'.service = d.service ∧
      d'.attempts = d.attempts.set k
        { a with supervisor := sup, updates := a.updates ++ sent } := by
  unfold System.step at h
  by_cases hmain : d.main = .exited
  · rw [if_pos hmain] at h
    cases h
  rw [if_neg hmain] at h
  simp only [System.attempt, ha, Option.map_eq_some_iff, Prod.mk.injEq] at h
  obtain ⟨d'', hd, rfl, -⟩ := h
  split_ifs at hd
  obtain ⟨⟨sup, sent⟩, hstep, rfl⟩ := Option.map_eq_some_iff.1 hd
  exact ⟨sup, sent, hstep, rfl, rfl⟩

/-- The invariant of a host. -/
structure Sound (s : Host Peer Handoff H) : Prop where
  daemon : s.daemon.Inv
  accounted : Accounted s.daemon.service.state.snapshot.serviceInstanceId
    s.daemon.service.state s.daemon.attempts s.world.root

/-- While a worker may run, its attempt accounts for its journal. -/
theorem Sound.spawned (h : s.Sound) {k : ℕ} {a : Attempt Peer}
    (ha : s.daemon.attempts[k]? = some a) (htree : a.supervisor.tree = .spawned)
    (hblocked : s.daemon.service.state.recoveryBlocked = false) :
    a.Unresolved ∧ Outstanding a := by
  have hsound := h.daemon.core.sound a (List.mem_of_getElem? ha)
  have hq : a.supervisor.quiescent = false := by
    rw [Bool.eq_false_iff]
    exact fun hq => hsound.supervisor.quiescent.1 hq htree
  refine ⟨?_, fun r q hmem => ?_, fun r hr => ?_⟩
  · have hset : ¬ a.supervisor.Settled := fun hset => by
      rw [hset.2] at hq
      cases hq
    rcases (h.daemon.core.settled k a ha hset).2 with hun | hb
    · exact hun
    · rw [h.daemon.coherent.blocked hb] at hblocked
      cases hblocked
  · obtain ⟨-, hqs, hreq⟩ := hsound.final r q hmem
    exact hreq (hqs.trans hq)
  · rw [hsound.supervisor.reporting r hr] at hq
    cases hq

/-- A program of a worker's process tree. -/
theorem Sound.worker (h : s.Sound) {α : Type} {k : ℕ} {x : Attempt Peer → Prog H α}
    (hx : ∀ a, s.daemon.attempts[k]? = some a →
      (∀ t, (run (x a) s.world cuts).2.root.find (path t) ≠ none →
        s.world.root.find (path t) ≠ none) ∨
      ∀ t, (run (x a) s.world cuts).2.root.find (path t) ≠ none → t = s.transaction a)
    (hst : s.worker k x cuts = some s') : s'.Sound := by
  unfold Host.worker at hst
  cases ha : s.daemon.attempts[k]? with
  | none => simp [ha] at hst
  | some a =>
    simp only [ha] at hst
    split_ifs at hst with htree
    obtain rfl := Option.some.inj hst
    refine ⟨h.daemon, ?_⟩
    rcases hx a ha with hkeep | honly
    · exact h.accounted.keep (fun h₁ h₂ => ⟨h₁, h₂⟩) hkeep fun _ j y hy hun hout _ =>
        ⟨y, hy, rfl, hun, hout⟩
    · intro _ hblocked t ht
      obtain ⟨hun, hout⟩ := h.spawned ha htree hblocked
      exact ⟨k, a, ha, hun, hout, by rw [honly t ht, transaction]⟩

variable [DecidableEq Peer] {setup : Service.Setup Peer Handoff} {out : List (Output Peer)}

/-- The recovery of an attempt: a journal that it left asks for repair. -/
theorem Sound.recovered (h : s.Sound) {k : ℕ}
    (hst : Host.step setup P s (.recovered k cuts) = some (s', out)) : s'.Sound := by
  unfold Host.step at hst
  cases ha : s.daemon.attempts[k]? with
  | none => simp [ha] at hst
  | some a =>
    simp only [ha, Option.map_eq_some_iff, Prod.mk.injEq] at hst
    obtain ⟨⟨d, out'⟩, hd, rfl, -⟩ := hst
    refine ⟨h.daemon.step hd, ?_⟩
    obtain ⟨sup, sent, hstep, hservice, hattempts⟩ := step_supervise ha hd
    obtain ⟨hkeep, hgone⟩ := run_recover P s.world cuts (s.transaction a)
    simp only [hservice, hattempts]
    refine h.accounted.keep (fun h₁ h₂ => ⟨h₁, h₂⟩) hkeep fun _ => accounts_set ha rfl
      fun hun hout hfind => ⟨?_, ?_⟩
    · exact (Attempt.unresolved_supervise (h.daemon.core.sound a (List.mem_of_getElem? ha)) hstep).2
        hun
    · obtain ⟨rfl, hstage⟩ := step_recoveryEnded hstep
      have hne : outcome (run (recover P (s.transaction a)) s.world cuts).1 ≠ .warnings [] :=
        fun hclean => hfind (hgone hclean)
      refine ⟨fun r q hmem => hout.updates r q (by simpa using hmem), fun r hr => ?_⟩
      change sup.stage = .reporting r at hr
      rcases hstage with ⟨r', -, hstage⟩ | ⟨-, hstage⟩
      · obtain rfl := Stage.reporting.inj (hstage.symm.trans hr)
        exact required_afterRecovery hne
      · rw [hstage] at hr
        cases hr

/-- Every step keeps the invariant. -/
theorem Sound.step (h : s.Sound) {input : Input Peer Handoff H}
    (hst : Host.step setup P s input = some (s', out)) : s'.Sound := by
  have daemon : ∀ {i : Daemon.Input Peer Handoff} {d : System Peer Handoff}
      {o : List (Output Peer)}, System.step setup s.daemon i = some (d, o) →
      (∀ k o, i ≠ .supervise k (.recoveryEnded o)) → d.Inv ∧
        Accounted d.service.state.snapshot.serviceInstanceId d.service.state d.attempts
          s.world.root := by
    intro i d o hd hi
    have hm := System.move_of_step h.daemon.admin hd
    refine ⟨h.daemon.step hd, ?_⟩
    rw [hm.publishes.serviceInstanceId]
    exact h.accounted.move h.daemon hm hi
  cases input with
  | daemon input =>
    simp only [Host.step] at hst
    split_ifs at hst with hends
    simp only [Option.map_eq_some_iff, Prod.mk.injEq] at hst
    obtain ⟨⟨d, out'⟩, hd, rfl, -⟩ := hst
    obtain ⟨hinv, hacc⟩ := daemon hd fun k o ho => hends (by rw [ho]; rfl)
    exact ⟨hinv, hacc⟩
  | work k input cuts =>
    simp only [Host.step, Option.map_eq_some_iff, Prod.mk.injEq] at hst
    obtain ⟨s'', hw, rfl, -⟩ := hst
    exact h.worker (fun a _ => run_lifecycle (s.transaction a) input) hw
  | undelivered k cuts =>
    simp only [Host.step, Option.map_eq_some_iff, Prod.mk.injEq] at hst
    obtain ⟨s'', hw, rfl, -⟩ := hst
    exact h.worker (fun a _ => .inl (run_recover P s.world cuts (s.transaction a)).1) hw
  | recovered k cuts => exact h.recovered hst
  | adminRecovered cuts =>
    simp only [Host.step, Option.map_eq_some_iff, Prod.mk.injEq] at hst
    obtain ⟨⟨d, out'⟩, hd, rfl, -⟩ := hst
    obtain ⟨hinv, hacc⟩ := daemon hd (by simp)
    exact ⟨hinv, hacc.keep (fun h₁ h₂ => ⟨h₁, h₂⟩) run_recoverAll fun _ j y hy hun hout _ =>
      ⟨y, hy, rfl, hun, hout⟩⟩
  | elapse host transcripts =>
    simp only [Host.step, Option.some.injEq, Prod.mk.injEq] at hst
    obtain ⟨rfl, -⟩ := hst
    exact ⟨h.daemon, h.accounted⟩

/-- The recovery at the start leaves no journal, or blocks the service. -/
theorem Sound.initial (hinit : (host setup P).init s) : s.Sound := by
  obtain ⟨instanceId, world, cuts, hne, rfl⟩ := hinit
  refine ⟨System.Inv.initial _ _, fun _ hblocked t ht => absurd ?_ ht⟩
  have hclean : (recoverAll P ⟨world, cuts⟩).1 = .ok [] := by
    revert hblocked hne
    cases (recoverAll P ⟨world, cuts⟩).1 with
    | ok warnings => cases warnings <;> simp [System.start, outcome, startupError]
    | err e => simp [System.start, outcome, startupError]
    | stop => simp
  exact (recoverAll_recovered.of_ok (.inl trivial) rfl hclean).2 rfl t

/-! ### Reports -/

/-- No recovery ends without warnings under a supervisor that is about to report that one is
required. -/
def Timely (P : Platform H) (s : Host Peer Handoff H) : Input Peer Handoff H → Prop
  | .recovered k cuts => ∀ a r, s.daemon.attempts[k]? = some a →
    a.supervisor.stage = .recovering r → Required r →
      (run (recover P (s.transaction a)) s.world cuts).1 ≠ .ok []
  | _ => True

/-- Every final report tells how its recovery ended. -/
def Reporting (s : Host Peer Handoff H) : Prop :=
  ∀ (k : ℕ) (a : Attempt Peer), s.daemon.attempts[k]? = some a → Reports (s.recoveries k) a

omit [DecidableEq Peer] in
/-- A move of the daemon starts an attempt or lets one go on. -/
theorem grown_of_move {d : System Peer Handoff} {i : Daemon.Input Peer Handoff} {v : Service Peer}
    {as : List (Attempt Peer)} {issued : List Uuid} {j : ℕ} {x : Attempt Peer} (hinv : d.Inv)
    (hm : Move d i v as issued) (hi : ∀ k o, i ≠ .supervise k (.recoveryEnded o))
    (hx : as[j]? = some x) :
    (∃ a, d.attempts[j]? = some a ∧ Grown a x) ∨ x.supervisor = .new ∧ x.updates = [] := by
  have set : ∀ {k : ℕ} {a b : Attempt Peer}, d.attempts[k]? = some a → Grown a b →
      (d.attempts.set k b)[j]? = some x → ∃ a, d.attempts[j]? = some a ∧ Grown a x := by
    intro k a b ha hg hx
    rcases System.Core.getElem?_set_cases hx with ⟨rfl, rfl⟩ | ⟨-, hx⟩
    · exact ⟨a, ha, hg⟩
    · exact ⟨x, hx, .refl x⟩
  cases hm with
  | still | reserve | renew | cancel | stop | unblock => exact .inl ⟨x, hx, .refl x⟩
  | start m slot fresh =>
    rcases Nat.lt_or_ge j d.attempts.length with hlt | hge
    · rw [List.getElem?_append_left hlt] at hx
      exact .inl ⟨x, hx, .refl x⟩
    · rw [List.getElem?_append_right hge, List.getElem?_singleton] at hx
      split_ifs at hx
      obtain rfl := Option.some.inj hx
      exact .inr ⟨rfl, rfl⟩
  | supervise k a event supervisor sent ha hstep =>
    exact .inl (set ha (grown_of_step (fun o ho => hi k o (by rw [ho])) hstep) hx)
  | update k a u rest session wall ha hw hu =>
    refine .inl (set ha ?_ hx)
    exact ⟨rfl, fun _ h => h, fun r q hmem => .inl (hu ▸ List.mem_cons_of_mem _ hmem)⟩
  | stale k a rest session wall ha hw hh =>
    rw [(hinv.core.holds_iff_unresolved ha).2 (.inl hw)] at hh
    cases hh
  | drained k a ha | join k a wall ha | fail k a wall ha =>
    refine .inl (set ha ?_ hx)
    exact ⟨rfl, fun _ h => h, fun _ _ h => .inl h⟩

theorem Reporting.move {d : System Peer Handoff} {i : Daemon.Input Peer Handoff}
    {o : List (Output Peer)} (h : s.Reporting) (hinv : s.daemon.Inv)
    (hd : System.step setup s.daemon i = some (d, o))
    (hi : ∀ k o, i ≠ .supervise k (.recoveryEnded o)) (k : ℕ) (a : Attempt Peer)
    (ha : d.attempts[k]? = some a) : Reports (s.recoveries k) a := by
  rcases grown_of_move hinv (System.move_of_step hinv.admin hd) hi ha with ⟨a₀, ha₀, hg⟩ |
    ⟨hsup, hupdates⟩
  · exact (h k a₀ ha₀).grown hg
  · rintro r (hr | hmem)
    · rw [hsup] at hr
      cases hr
    · rw [hupdates] at hmem
      cases hmem

/-- The end of a recovery decides what will be reported. -/
theorem Reporting.recovered (h : s.Reporting) (hinv : s.daemon.Inv) {k : ℕ}
    (ht : Timely P s (.recovered k cuts))
    (hst : Host.step setup P s (.recovered k cuts) = some (s', out)) : s'.Reporting := by
  unfold Host.step at hst
  cases ha : s.daemon.attempts[k]? with
  | none => simp [ha] at hst
  | some a =>
    simp only [ha, Option.map_eq_some_iff, Prod.mk.injEq] at hst
    obtain ⟨⟨d, out'⟩, hd, rfl, -⟩ := hst
    obtain ⟨sup, sent, hstep, -, hattempts⟩ := step_supervise ha hd
    obtain ⟨rfl, hstage⟩ := step_recoveryEnded hstep
    intro j x hx
    rw [hattempts] at hx
    rcases System.Core.getElem?_set_cases hx with ⟨rfl, rfl⟩ | ⟨hjk, hx⟩
    swap
    · simpa [hjk] using h j x hx
    intro r hr
    refine ⟨_, if_pos rfl, ?_⟩
    rcases hr with hr | hmem
    · change sup.stage = .reporting r at hr
      rcases hstage with ⟨r', hrec, hstage⟩ | ⟨-, hstage⟩
      · obtain rfl := Stage.reporting.inj (hstage.symm.trans hr)
        refine ⟨fun hreq hclean => ?_, required_afterRecovery⟩
        rw [hclean] at hreq
        exact ht a r' ha hrec hreq (outcome_eq_clean.1 hclean)
      · rw [hstage] at hr
        cases hr
    · -- a supervisor that has reported does not recover
      have hreturned := ((hinv.core.sound a (List.mem_of_getElem? ha)).final r true
        (by simpa using hmem)).1
      rcases hstage with ⟨r', hrec, -⟩ | ⟨hcrash, -⟩
      · rw [hreturned] at hrec
        cases hrec
      · rw [hreturned] at hcrash
        cases hcrash

/-- Every step that is timely keeps the reports true. -/
theorem Reporting.step (h : s.Reporting) (hinv : s.daemon.Inv) {input : Input Peer Handoff H}
    (ht : Timely P s input) (hst : Host.step setup P s input = some (s', out)) :
    s'.Reporting := by
  have worker : ∀ {α : Type} {k : ℕ} {x : Attempt Peer → Prog H α} {cuts : List (Cut Error)}
      {s'' : Host Peer Handoff H}, s.worker k x cuts = some s'' → s''.Reporting := by
    intro α k x cuts s'' hw
    unfold Host.worker at hw
    split at hw
    · split_ifs at hw
      rw [← Option.some.inj hw]
      exact h
    · cases hw
  cases input with
  | daemon input =>
    simp only [Host.step] at hst
    split_ifs at hst with hends
    simp only [Option.map_eq_some_iff, Prod.mk.injEq] at hst
    obtain ⟨⟨d, out'⟩, hd, rfl, -⟩ := hst
    exact h.move hinv hd fun k o ho => hends (by rw [ho]; rfl)
  | work k input cuts =>
    simp only [Host.step, Option.map_eq_some_iff, Prod.mk.injEq] at hst
    obtain ⟨s'', hw, rfl, -⟩ := hst
    exact worker hw
  | undelivered k cuts =>
    simp only [Host.step, Option.map_eq_some_iff, Prod.mk.injEq] at hst
    obtain ⟨s'', hw, rfl, -⟩ := hst
    exact worker hw
  | recovered k cuts => exact h.recovered hinv ht hst
  | adminRecovered cuts =>
    simp only [Host.step, Option.map_eq_some_iff, Prod.mk.injEq] at hst
    obtain ⟨⟨d, out'⟩, hd, rfl, -⟩ := hst
    exact h.move hinv hd (by simp)
  | elapse host transcripts =>
    simp only [Host.step, Option.some.injEq, Prod.mk.injEq] at hst
    obtain ⟨rfl, -⟩ := hst
    exact h

/-! ### The block -/

/-- What a quiescent final update does to the block. -/
theorem blocked_iff_required {d d' : System Peer Handoff} {k : ℕ} {session : Uuid} {wall : ℤ}
    {r : Except Error Unit} {q : Bool} (hinv : d.Inv) (hu : d.nextUpdate k = some (.finished r q))
    (hst : System.step setup d (.update k session wall) = some (d', out)) :
    (∃ a, d.attempts[k]? = some a ∧ Update.finished r q ∈ a.updates) ∧
      (d'.service.state.recoveryBlocked = true ↔ Required r) := by
  unfold System.step at hst
  by_cases hmain : d.main = .exited
  · rw [if_pos hmain] at hst
    cases hst
  rw [if_neg hmain] at hst
  simp only [Option.map_eq_some_iff, Prod.mk.injEq] at hst
  obtain ⟨d'', hd, rfl, -⟩ := hst
  obtain ⟨a, ha, hhead⟩ := Option.bind_eq_some_iff.1 hu
  obtain ⟨rest, hupdates⟩ := List.head?_eq_some_iff.1 hhead
  refine ⟨⟨a, ha, hupdates ▸ List.mem_cons_self⟩, ?_⟩
  simp only [System.attempt, ha, hupdates] at hd
  cases hw : a.watch with
  | joining | done => simp [hw] at hd
  | looping =>
    have hholds : d.service.holds a.id = true :=
      (hinv.core.holds_iff_unresolved ha).2 (.inl hw)
    simp only [hw, hholds, if_true] at hd
    rw [← Option.some.inj hd]
    cases r with
    | ok u =>
      -- a result without an error leaves the block alone; the attempt held the slot unblocked
      obtain ⟨slot, hslot, -⟩ := Service.holds_iff.1 hholds
      simp [Service.update, Service.finished, Required, (hinv.core.clear (by simp [hslot])).1]
    | error e => simp [Service.update, Service.finished, Required]

/-- A granted reservation finds the service free. -/
theorem free_of_reserves {d d' : System Peer Handoff} {c : ℕ} {A fresh : Uuid} {wall : ℤ}
    (hst : System.step setup d (.dispatch c fresh wall) = some (d', out))
    (hout : System.Reserves c A out) :
    d.service.state.stopping = false ∧ d.service.state.recoveryBlocked = false ∧
      d.service.state.slot = none := by
  obtain ⟨peer, cursor, request, -, -, hreq⟩ := System.step_dispatch hst
  obtain ⟨peer', id', hmem⟩ := hout
  unfold System.dispatchRequest System.answer at hreq
  cases hd : Daemon.dispatch setup d.service ⟨d.clock, wall, fresh, d.attempts.length⟩ peer c
      request.method with
  | error e =>
    simp only [hd, Prod.mk.injEq] at hreq
    simp [← hreq.2] at hmem
  | ok granted =>
    obtain ⟨payload, service⟩ := granted
    simp only [hd, Prod.mk.injEq] at hreq
    obtain ⟨rfl, rfl⟩ := hreq
    obtain rfl : payload = .reserved A := by
      simp only [List.mem_singleton, Output.mk.injEq, Message.response.injEq,
        Response.mk.injEq, Except.ok.injEq] at hmem
      exact hmem.2.2.2.symm
    rcases dispatch_eq_ok hd with ⟨-, ⟨hnr, -⟩ | ⟨id, name, protocol, -, hr⟩ | ⟨id, handoff, -, hs⟩⟩
    · obtain ⟨id, name, protocol, hmethod, -⟩ := System.dispatch_reserved hd
      exact absurd hmethod (hnr id name protocol)
    · obtain ⟨hstop, hblocked, hslot, -⟩ := Service.reserve_eq_ok hr
      exact ⟨hstop, hblocked, hslot⟩
    · obtain ⟨slot, -, -, -, -, -, hpay, -⟩ := Service.start_eq_ok hs
      cases hpay

/-- **Reservations are blocked while recovery is outstanding.**  In every run, whatever the workers,
the recoveries and the interruptions, a granted reservation finds no journal.  If the run is timely,
a quiescent final update comes after the recovery of its attempt, and blocks the service exactly
when that one failed or warned. -/
theorem blocked_iff_outstanding (setup : Service.Setup Peer Handoff) (P : Platform H)
    {s₀ s : Host Peer Handoff H} (h₀ : (host setup P).init s₀)
    (h : (host setup P).Reaches s₀ s) :
    ((host setup P).ReachesBy (Timely P) s₀ s → ∀ k session wall r s' out,
      s.daemon.nextUpdate k = some (.finished r true) →
      Host.step setup P s (.daemon (.update k session wall)) = some (s', out) →
      ∃ o, s.recoveries k = some o ∧
        (s'.daemon.service.state.recoveryBlocked = true ↔ o ≠ .warnings [])) ∧
    ∀ c A fresh wall s' out,
      Host.step setup P s (.daemon (.dispatch c fresh wall)) = some (s', out) →
      System.Reserves c A out → ∀ t, s.world.root.find (path t) = none := by
  have hsound : s.Sound := h.preserves (.initial h₀) fun s i s' o hs hst => hs.step hst
  refine ⟨fun htimely k session wall r s' out hu hst => ?_,
    fun c A fresh wall s' out hst hout t => ?_⟩
  · have hreporting : s.Reporting := by
      refine (htimely.preserves (P := fun s => s.Sound ∧ s.Reporting) ⟨.initial h₀, ?_⟩
        fun s i s' o hs hp hst => ⟨hs.1.step hst, hs.2.step hs.1.daemon hp hst⟩).2
      obtain ⟨instanceId, world, cuts, -, rfl⟩ := h₀
      intro k a ha
      simp [System.start] at ha
    simp only [Host.step, endsRecovery, Bool.false_eq_true, if_false, Option.map_eq_some_iff,
      Prod.mk.injEq] at hst
    obtain ⟨⟨d, out'⟩, hd, rfl, -⟩ := hst
    obtain ⟨⟨a, ha, hmem⟩, hblocked⟩ := blocked_iff_required hsound.daemon hu hd
    obtain ⟨o, ho, hreq⟩ := hreporting k a ha r (.inr hmem)
    exact ⟨o, ho, hblocked.trans hreq⟩
  · simp only [Host.step, endsRecovery, Bool.false_eq_true, if_false, Option.map_eq_some_iff,
      Prod.mk.injEq] at hst
    obtain ⟨⟨d, out'⟩, hd, rfl, rfl⟩ := hst
    obtain ⟨hstop, hblocked, hslot⟩ := free_of_reserves hd hout
    by_contra hne
    -- only an attempt that is not over has a journal, and it would hold the slot
    obtain ⟨k, a, ha, hun, -⟩ := hsound.accounted hstop hblocked t hne
    refine hsound.daemon.core.not_unresolved ha (fun slot hs => ?_) hun
    rw [hslot] at hs
    cases hs

end Steps

/-! ### A run -/

/-- The platform of the example. -/
def samplePlatform := Unix.platform (.exact (fun _ _ _ _ => false) 500) fun _ => 100

/-- A host without journals, as it starts. -/
def sampleStart : Host ℕ String (Unix.UnixHost (.exact (fun _ _ _ _ => false) 500)) where
  daemon := System.start 1 none
  world := { Unix.twiceWorld with root := [], transcripts := [] }
  recoveries := fun _ => none

theorem sampleStart_init : (host System.sampleSetup samplePlatform).init sampleStart :=
  ⟨1, sampleStart.world, [], by decide, rfl⟩

/-- The worker of an attempt ends with a result, and its recovery is due. -/
def endedHost (r : Except Error Unit) :
    Host ℕ String (Unix.UnixHost (.exact (fun _ _ _ _ => false) 500)) :=
  (host System.sampleSetup samplePlatform).perform sampleStart
    [.daemon (.accept 7), .daemon (.read 0 ⟨1, .reserve 2 "work" "anyconnect"⟩),
      .daemon (.dispatch 0 3 100), .daemon (.read 0 ⟨4, .start 3 "anyconnect"⟩),
      .daemon (.dispatch 0 5 101), .daemon (.supervise 0 .spawned),
      .daemon (.supervise 0 .handoffWritten),
      .daemon (.supervise 0 (.worker (some (.finished r false)))),
      .daemon (.supervise 0 (.exited true none)), .daemon (.supervise 0 (.quiet (.ok ()))),
      .daemon (.supervise 0 .proceed)]

/-- The recovery ran and its end was reported. -/
def reportedHost (r : Except Error Unit) :
    Host ℕ String (Unix.UnixHost (.exact (fun _ _ _ _ => false) 500)) :=
  (host System.sampleSetup samplePlatform).perform (endedHost r)
    [.recovered 0 [], .daemon (.supervise 0 .report)]

theorem endedHost_reached (r : Except Error Unit) :
    (host System.sampleSetup samplePlatform).ReachesBy (Timely samplePlatform) sampleStart
      (endedHost r) := by
  refine Machine.reachesBy_perform _ _ fun i hi s => ?_
  simp only [List.mem_cons, List.not_mem_nil, or_false] at hi
  rcases hi with rfl | rfl | rfl | rfl | rfl | rfl | rfl | rfl | rfl | rfl | rfl <;> trivial

/-- A tunnel that ends without an error. -/
theorem blocked_iff_outstanding_ok :
    (∀ k session wall r s' out,
      (reportedHost (.ok ())).daemon.nextUpdate k = some (.finished r true) →
      Host.step System.sampleSetup samplePlatform (reportedHost (.ok ()))
        (.daemon (.update k session wall)) = some (s', out) →
      ∃ o, (reportedHost (.ok ())).recoveries k = some o ∧
        (s'.daemon.service.state.recoveryBlocked = true ↔ o ≠ .warnings [])) ∧
    ∀ c A fresh wall s' out,
      Host.step System.sampleSetup samplePlatform (reportedHost (.ok ()))
        (.daemon (.dispatch c fresh wall)) = some (s', out) →
      System.Reserves c A out → ∀ t, (reportedHost (.ok ())).world.root.find (path t) = none := by
  -- the result of the worker is no error
  have htimely : Timely samplePlatform (endedHost (.ok ())) (.recovered 0 []) := by
    rintro a r ha hstage ⟨e, rfl, -⟩
    obtain rfl := Option.some.inj ha
    cases hstage
  have hlast : (host System.sampleSetup samplePlatform).ReachesBy (Timely samplePlatform)
      (endedHost (.ok ())) (reportedHost (.ok ())) :=
    .head (i := .recovered 0 []) rfl htimely <|
      .head (i := .daemon (.supervise 0 .report)) rfl trivial .refl
  have hrun := (endedHost_reached (.ok ())).trans hlast
  have hboth := blocked_iff_outstanding System.sampleSetup samplePlatform sampleStart_init
    (Machine.ReachesBy.reaches hrun)
  exact ⟨hboth.1 hrun, hboth.2⟩

/-- A worker whose `lifecycle` asked for a recovery ends, and its recovery finds nothing to do:
the service is blocked all the same. -/
theorem blocked_after_recovery :
    ¬ ∀ (s₀ s : Host ℕ String (Unix.UnixHost (.exact (fun _ _ _ _ => false) 500))),
      (host System.sampleSetup samplePlatform).init s₀ →
      (host System.sampleSetup samplePlatform).Reaches s₀ s →
      ∀ k session wall r s' out, s.daemon.nextUpdate k = some (.finished r true) →
        Host.step System.sampleSetup samplePlatform s (.daemon (.update k session wall)) =
          some (s', out) →
        ∃ o, s.recoveries k = some o ∧
          (s'.daemon.service.state.recoveryBlocked = true ↔ o ≠ .warnings []) := by
  intro h
  have hreach : (host System.sampleSetup samplePlatform).Reaches sampleStart
      (reportedHost (.error Net.error)) :=
    (Machine.reaches_perform _ _).trans (Machine.reaches_perform _ _)
  obtain ⟨s', out, hst, hblocked⟩ : ∃ s' out, Host.step System.sampleSetup samplePlatform
      (reportedHost (.error Net.error)) (.daemon (.update 0 6 103)) = some (s', out) ∧
        s'.daemon.service.state.recoveryBlocked = true := ⟨_, _, rfl, by decide⟩
  obtain ⟨o, ho, hiff⟩ := h _ _ sampleStart_init hreach 0 6 103 _ s' out rfl hst
  have hclean : (reportedHost (.error Net.error)).recoveries 0 = some (.warnings []) := rfl
  rw [hclean] at ho
  exact hiff.1 hblocked (Option.some.inj ho).symm

end Host

end Ocvpn.Daemon
