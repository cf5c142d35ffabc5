import Ocvpn.Daemon.Orphans
import Ocvpn.Daemon.Turns

/-!
# Who holds an attempt

An attempt identifier is generated once, for the peer of the connection that reserves.  From then
on the slot of the attempt is that peer's, and once the slot has gone to something else it never
comes back.

## Main results

* `System.Free.step`, `System.Granted.step` : both facts are kept by every step.
* `System.granted_of_turn` : a peer that reads `Reserved` has the grant.
* `System.free_of_busy` : what a peer that has the grant concludes when its snapshot is refused.
-/

namespace Ocvpn.Daemon.System

variable {Peer Handoff : Type} {s s' : System Peer Handoff} {peer : Peer} {A : Uuid}

/-- The slot does not belong to attempt `A`. -/
def Free (A : Uuid) (s : System Peer Handoff) : Prop :=
  ∀ slot, s.service.state.slot = some slot → slot.attempt ≠ A

/-- Attempt `A` was reserved for the peer. -/
structure Granted (peer : Peer) (A : Uuid) (s : System Peer Handoff) : Prop where
  issued : A ∈ s.issued
  owner : ∀ slot, s.service.state.slot = some slot → slot.attempt = A → slot.owner = peer

variable [DecidableEq Peer] {setup : Service.Setup Peer Handoff} {input : Input Peer Handoff}
  {out : List (Output Peer)}

/-- The identifiers stay issued. -/
theorem issued_of_step (hinv : s.Inv) (hst : step setup s input = some (s', out)) :
    s.issued ⊆ s'.issued := by
  have hm := move_of_step hinv.admin hst
  generalize s'.service = v at hm
  generalize s'.attempts = attempts at hm
  generalize s'.issued = issued at hm ⊢
  cases hm with
  | reserve => exact List.subset_append_left _ _
  | _ => exact List.Subset.refl _

/-- A slot keeps its owner and its attempt, and a new one gets a new identifier. -/
theorem slot_of_step (hinv : s.Inv) (hst : step setup s input = some (s', out)) {slot : Slot Peer}
    (hslot : s'.service.state.slot = some slot) :
    (∃ slot₀, s.service.state.slot = some slot₀ ∧ slot.owner = slot₀.owner ∧
      slot.attempt = slot₀.attempt) ∨ slot.attempt ∉ s.issued := by
  have hm := move_of_step hinv.admin hst
  generalize s'.service = v at hm hslot
  generalize s'.attempts = attempts at hm
  generalize s'.issued = issued at hm
  cases hm with
  | still | supervise | stale | drained | join => exact .inl ⟨slot, hslot, rfl, rfl⟩
  | reserve m peer c id name protocol _ _ _ hfresh =>
    rw [Service.reserved, Service.publish_slot] at hslot
    obtain rfl := Option.some.inj hslot
    exact .inr hfresh
  | start m slot₀ fresh hslot₀ =>
    rw [Service.started, Service.publish_slot] at hslot
    obtain rfl := Option.some.inj hslot
    exact .inl ⟨slot₀, hslot₀, rfl, rfl⟩
  | renew _ slot₀ clock hslot₀ =>
    obtain rfl := Option.some.inj hslot
    exact .inl ⟨slot₀, hslot₀, rfl, rfl⟩
  | cancel _ wall => exact .inl ⟨slot, (cancel_dead hslot).1, rfl, rfl⟩
  | stop _ wall => exact .inl ⟨slot, (cancel_dead hslot).1, rfl, rfl⟩
  | unblock c hquiet =>
    change s.service.state.slot = some slot at hslot
    rw [hquiet.2.1] at hslot
    cases hslot
  | update k a u rest session wall =>
    cases hfin : u.isFinished with
    | true =>
      cases u with
      | finished r q =>
        rw [Service.update, Service.finished_slot] at hslot
        cases hslot
      | connected | reconnecting | traffic => cases hfin
    | false =>
      rw [(Service.update_frame _ session wall hfin).1] at hslot
      exact .inl ⟨slot, hslot, rfl, rfl⟩
  | fail k a wall => simp [Service.supervisorFailed] at hslot

/-- An attempt that lost the slot does not get it again. -/
theorem Free.step (h : Free A s) (hissued : A ∈ s.issued) (hinv : s.Inv)
    (hst : System.step setup s input = some (s', out)) : Free A s' := by
  intro slot hslot hA
  rcases slot_of_step hinv hst hslot with ⟨slot₀, hslot₀, -, heq⟩ | hfresh
  · exact h slot₀ hslot₀ (heq.symm.trans hA)
  · exact hfresh (hA ▸ hissued)

theorem Granted.step (h : Granted peer A s) (hinv : s.Inv)
    (hst : System.step setup s input = some (s', out)) : Granted peer A s' := by
  refine ⟨issued_of_step hinv hst h.issued, fun slot hslot hA => ?_⟩
  rcases slot_of_step hinv hst hslot with ⟨slot₀, hslot₀, howner, heq⟩ | hfresh
  · exact howner.trans (h.owner slot₀ hslot₀ (heq.symm.trans hA))
  · exact absurd (hA ▸ h.issued) hfresh

/-! ### What the answers tell -/

/-- `Reserved` is answered to the peer that has the grant. -/
theorem granted_of_turn {c : ℕ} {phase phase' : Phase Peer Handoff}
    (ht : Turn setup s s' c peer input phase phase' out) :
    ∀ o ∈ out, ∀ id, o.message = .response ⟨id, .ok (.reserved A)⟩ → Granted peer A s' := by
  intro o ho id hmsg
  cases ht with
  | read | admin | received | dropped | cleaned => cases ho
  | refused | delivered =>
    rw [List.mem_singleton.1 ho] at hmsg
    cases hmsg
  | adminAnswer _ _ _ result _ hr =>
    rw [List.mem_singleton.1 ho] at hmsg
    simp only [Message.response.injEq, Response.mk.injEq] at hmsg
    cases hr _ hmsg.2
  | granted cursor request m payload hd hfresh hissued =>
    rw [List.mem_singleton.1 ho] at hmsg
    simp only [Message.response.injEq, Response.mk.injEq, Except.ok.injEq] at hmsg
    obtain ⟨-, rfl⟩ := hmsg
    obtain ⟨pid, name, protocol, hmethod, rfl, hv'⟩ := dispatch_reserved hd
    refine ⟨?_, fun slot hslot _ => ?_⟩
    · rw [hissued, hmethod]
      exact List.mem_append_right _ (List.mem_singleton_self _)
    · rw [hv', Service.reserved, Service.publish_slot] at hslot
      exact (Option.some.inj hslot) ▸ rfl

/-- Only the answer `Busy` to a snapshot request tells that the slot belongs to somebody else. -/
theorem free_of_busy {m : Service.Moment} {c : ℕ} {e : Error} (hgrant : Granted peer A s)
    (hd : dispatch setup s.service m peer c .snapshot = .error e) : Free A s := by
  intro slot hslot hA
  have hauth : s.service.state.authorize peer = .ok () := authorize_eq_ok.2 fun slot' hslot' => by
    obtain rfl := Option.some.inj (hslot.symm.trans hslot')
    exact hgrant.owner slot hslot hA
  rw [dispatch, hauth] at hd
  cases hd

/-- The attempt holds the slot: then its peer sees it, in an active state. -/
theorem visible_of_slot (hinv : s.Inv) {slot : Slot Peer} (hslot : s.service.state.slot = some slot) :
    (s.service.state.visible peer).attemptId = some slot.attempt ∧
      ¬ idle (s.service.state.visible peer).state := by
  have hvisible : s.service.state.visible peer = s.service.state.snapshot := by
    simp [Session.visible, hslot]
  rw [hvisible]
  refine ⟨(hinv.coherent.owner slot hslot).2, fun hidle => ?_⟩
  rw [hinv.coherent.slot.2 hidle] at hslot
  cases hslot

end Ocvpn.Daemon.System
