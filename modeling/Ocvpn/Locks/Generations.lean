import Ocvpn.Locks.Threads

/-!
# Generations of mutators

What the leases of `Ocvpn.Locks.Lifetime` promise in every reachable state, and so for every order
of the steps, crashes included.

## Main results

* `generations_apart` : the trees of two services that got past `DaemonLease::acquire` are not alive
  together.
* `workers_apart` : neither are those of two workers; after `wait_quiet` nothing of the worker is
  left.
* `recoveries_apart` : neither are two operations of `recover`, nor their tools, and no worker of
  another generation is alive while one runs.
* `leases_apart` : all of this.
-/

namespace Ocvpn.Lifetime

open Locks Locks.Kernel

/-! ### The steps keep the invariant -/

section Steps

variable {s s' : System} {k : Kernel LockFile} {role : ℕ → Role} {t : ℕ} {th : Thread}
  {st' : Stage} {d e p : ℕ} {f : LockFile} {notes : List Note}

theorem Past.goto (h : Past k role th) : Past k role { th with stage := st' } :=
  ⟨h.born, h.service, h.orphan, h.worker, h.quiescent, h.tools⟩

theorem Thread.Claims.goto {n : ℕ} (h : ({ th with stage := st' } : Thread).Claims d)
    (ho : ∀ d f, (d, f) ∈ st'.owned → (d, f) ∈ th.stage.owned ∨ n ≤ d) : th.Claims d ∨ n ≤ d := by
  obtain ⟨f, hf⟩ | hw | hc := h
  · exact (ho d f hf).imp_left fun hd => .inl ⟨f, hd⟩
  · exact .inl (.inr (.inl hw))
  · exact .inl (.inr (.inr hc))

/-- The stages that a thread goes to from another one. -/
structure Stage.Follows (st st' : Stage) : Prop where
  stay : ∀ d, st ≠ .leased d
  ended : st ≠ .ended
  main : st'.main = true → st.main = true
  begun : st'.main = false → st.main = false ∨ st' = .ended
  early : st'.early = true → st.early = true
  settled : st'.settled = true → st.settled = true

theorem Stage.Follows.same {st st' : Stage} (h : st'.phase = st.phase) (hstay : ∀ d, st ≠ .leased d)
    (hended : st ≠ .ended) : st.Follows st' where
  stay := hstay
  ended := hended
  main := fun hm => by rwa [Stage.main, h] at hm
  begun := fun hm => .inl (by rwa [Stage.main, h] at hm)
  early := fun he => by rwa [Stage.early, h] at he
  settled := fun hs => by rwa [Stage.settled, h] at hs

theorem Stage.Follows.end {st : Stage} (hstay : ∀ d, st ≠ .leased d) (hended : st ≠ .ended) :
    st.Follows .ended where
  stay := hstay
  ended := hended
  main := fun hm => by cases hm
  begun := fun _ => .inr rfl
  early := fun he => by cases he
  settled := fun hs => by cases hs

theorem of_tryExclusive {α : Type} {g : System → α} {r : α}
    (h : (s.tryExclusive d).map g = some r) : s.kernel.Free d ∧ g (s.lock d) = r := by
  rw [System.tryExclusive] at h
  split_ifs at h with hfree
  · exact ⟨hfree, by simpa using h⟩
  · cases h

namespace Inv

variable (h : Inv s)

include h

/-- A thread goes to another stage. -/
theorem goto {C : ℕ → ℕ → Prop} (ht : s.thread t = some th)
    (hmoves : Moves s.kernel k s.role role none C) (hsound : k.Sound)
    (hC : ∀ q d, C q d → ∃ f, (d, f) ∈ th.stage.owned) (hpresent : Present k th.process st')
    (hfollows : th.stage.Follows st')
    (ho : ∀ d f, (d, f) ∈ st'.owned → (d, f) ∈ th.stage.owned ∨ s.kernel.opened ≤ d)
    (hlock : ∀ d, th.stage.lock = some d → st'.lock = some d ∨ ∀ f, (d, f) ∉ st'.owned)
    (hin : ∀ d, th.stage.inherited = some d → st'.inherited = some d ∨ ∀ f, (d, f) ∉ st'.owned) :
    Inv ⟨k, role, Function.update s.thread t (some { th with stage := st' })⟩ := by
  have hlinked := h.linked t th ht
  have hout : ∀ d, th.Claims d → (∀ f, (d, f) ∉ th.stage.owned) → ∀ f, (d, f) ∉ st'.owned := by
    intro d hd hnot f hf
    obtain hold | hfresh := ho d f hf
    · exact hnot f hold
    · exact absurd (h.lt_of_claims ht hd) (by omega)
  refine h.act ht hmoves hsound hC (fun r hr => by cases hr) rfl
    ((h.past t th ht).moves hmoves).goto hpresent
    ⟨fun he => hlinked.early (hfollows.early he), fun hm => hlinked.main (hfollows.main hm),
      fun hs => hlinked.settled (hfollows.settled hs), fun w d hw => ?_, fun c d hc => ?_⟩
    (fun d hd => hd.goto ho) hfollows.main hfollows.stay fun hm hl => ?_
  · obtain hd | hnot := hlinked.holder w d hw
    · exact hlock d hd
    · exact .inr (hout d (.inr (.inl ⟨w, hw⟩)) hnot)
  · obtain hd | hnot := hlinked.tools c d hc
    · exact hin d hd
    · exact .inr (hout d (.inr (.inr ⟨c, hc⟩)) hnot)
  · obtain hmain | hended := hfollows.begun hm
    · exact h.leased t th ht hmain (.inl hfollows.ended)
    · have hl' : th.worker ≠ none ∨ th.tools ≠ [] := hl.resolve_left fun hne => hne hended
      refine h.leased t th ht ?_ (.inr hl')
      by_contra hmain
      have hmain' : th.stage.main = true := by simpa using hmain
      obtain hw | hc := hl'
      · refine hw (hlinked.early ?_)
        simp only [Stage.main, Stage.early, decide_eq_true_eq] at hmain' ⊢
        exact .inl hmain'
      · exact hc (hlinked.main hmain')

/-- A thread opens a file. -/
theorem openFile (ht : s.thread t = some th) (ha : s.kernel.alive th.process = true)
    (hfollows : th.stage.Follows st')
    (ho : st'.owned = th.stage.owned ++ [(s.kernel.opened, f)]) (hl : st'.lock = th.stage.lock)
    (hi : st'.inherited = th.stage.inherited) (hleased : ∀ d, st' ≠ .leased d)
    (hun : st'.unleased = true → th.stage.unleased = true) :
    Inv ((s.openFile th.process f).goto t th st') := by
  have hpast := h.past t th ht
  refine h.goto ht (moves_openFile h.sound) (sound_openFile h.sound ha) (fun _ _ hc => hc.elim)
    ((h.present t th ht).openFile h.sound hpast.born ho hl hi hleased hun) hfollows
    (fun d f hd => ?_) (fun d hd => .inl (hl.trans hd)) fun d hd => .inl (hi.trans hd)
  rw [ho] at hd
  obtain hd | hd := List.mem_append.1 hd
  · exact .inl hd
  · right
    obtain ⟨rfl, -⟩ : d = s.kernel.opened ∧ _ := by simpa using hd
    exact Nat.le_refl _

/-- A thread takes a lock. -/
theorem take (ht : s.thread t = some th) (hfree : s.kernel.Free d) (hfollows : th.stage.Follows st')
    (ho : st'.owned = th.stage.owned) (hl : st'.lock = some d) (hi : st'.inherited = none)
    (hnone : th.stage.lock = none) (hnone' : th.stage.inherited = none)
    (hun : st'.unleased = true → th.stage.unleased = true) :
    Inv ((s.lock d).goto t th st') :=
  h.goto ht (moves_lock h.sound) (sound_lock h.sound hfree) (fun _ _ hc => hc.elim)
    ((h.present t th ht).lock' h.sound (h.past t th ht).born ho hl hi hun) hfollows
    (fun _ _ hd => .inl (ho ▸ hd)) (fun e he => absurd he (by simp [hnone]))
    fun e he => absurd he (by simp [hnone'])

/-- A thread clears the close-on-exec flag of its file. -/
theorem clear (ht : s.thread t = some th) (ha : s.kernel.alive th.process = true)
    (hfollows : th.stage.Follows st') (ho : st'.owned = th.stage.owned)
    (hl : st'.lock = th.stage.lock) (hd : th.stage.lock = some d) (hi : st'.inherited = some d)
    (hnone : th.stage.inherited = none) (hun : st'.unleased = false)
    (hleaf : ∀ e, st' = .leased e → th.stage.unleased = true) :
    Inv ((s.inherit th.process d).goto t th st') := by
  have hpresent := h.present t th ht
  obtain ⟨f, hf⟩ := Stage.owned_of_lock hd
  exact h.goto ht (moves_inherit h.sound) (sound_inherit h.sound ((hpresent.owned d f hf).2.2 ha))
    (fun _ _ hc => hc.elim) (hpresent.inherit h.sound (h.past t th ht).born ho hl hi hun
      fun e he => hpresent.leaf (hleaf e he)) hfollows (fun _ _ hd => .inl (ho ▸ hd))
    (fun e he => .inl (hl.trans he)) fun e he => absurd he (by simp [hnone])

/-- A thread drops the file with its lock. -/
theorem release (ht : s.thread t = some th) (hfollows : th.stage.Follows st')
    (hperm : th.stage.owned.map (·.1) = e :: st'.owned.map (·.1))
    (ho : ∀ x ∈ st'.owned, x ∈ th.stage.owned) (hl : st'.lock = none) (hi : st'.inherited = none)
    (hlock : th.stage.lock = some e) (hin : ∀ d, th.stage.inherited = some d → d = e)
    (hun : st'.unleased = false) : Inv ((s.close th.process [e]).goto t th st') := by
  have hpast := h.past t th ht
  have hpresent := h.present t th ht
  have hnot : ∀ f, (e, f) ∉ st'.owned := by
    intro f hf
    have hnodup := hpresent.nodup
    rw [hperm] at hnodup
    exact (List.nodup_cons.1 hnodup).1 (List.mem_map.2 ⟨_, hf, rfl⟩)
  refine h.goto ht (moves_close h.sound hpast.orphan hpast.service) (sound_close h.sound)
    (fun q d hc => ?_) (hpresent.close hperm ho hl hi hun) hfollows (fun d f hd => .inl (ho _ hd))
    (fun d hd => .inr ?_) fun d hd => .inr (hin d hd ▸ hnot)
  · rw [List.mem_singleton.1 hc.2]
    exact Stage.owned_of_lock hlock
  · rw [hlock, Option.some.injEq] at hd
    exact hd ▸ hnot

/-- A thread drops all its files. -/
theorem bare (ht : s.thread t = some th) (hfollows : th.stage.Follows st') (ho : st'.owned = [])
    (hun : st'.unleased = false) :
    Inv ((s.close th.process (th.stage.owned.map (·.1))).goto t th st') := by
  have hpast := h.past t th ht
  refine h.goto ht (moves_close h.sound hpast.orphan hpast.service) (sound_close h.sound)
    (fun q d hc => ?_) (.bare ho fun hu => by simp [hun] at hu) hfollows
    (fun d f hd => by simp [ho] at hd) (fun d _ => .inr fun f hd => by simp [ho] at hd)
    fun d _ => .inr fun f hd => by simp [ho] at hd
  obtain ⟨⟨d, f⟩, hmem, rfl⟩ := List.mem_map.1 hc.2
  exact ⟨f, hmem⟩

/-- A thread starts. -/
theorem enter (ht : s.thread t = none) {role' : ℕ → Role}
    (hmoves : Moves s.kernel k s.role role' none keepAll) (hsound : k.Sound)
    (hpast : Past k role' th) (hpresent : Present k th.process th.stage) (hlinked : th.Linked)
    (hclaims : ∀ d, ¬ th.Claims d)
    (hmain : th.stage.main = true → ∀ u uh, s.thread u = some uh → uh.process ≠ th.process)
    (hleased : th.stage.main = false → s.Leased th.process) :
    Inv ⟨k, role', Function.update s.thread t (some th)⟩ := by
  -- the threads are the new one and the old ones
  have hthread : ∀ u uh, Function.update s.thread t (some th) u = some uh →
      (u = t ∧ uh = th) ∨ (u ≠ t ∧ s.thread u = some uh) := by
    intro u uh hu
    by_cases hut : u = t
    · subst hut
      rw [Function.update_self, Option.some.injEq] at hu
      exact .inl ⟨rfl, hu.symm⟩
    · rw [Function.update_of_ne hut] at hu
      exact .inr ⟨hut, hu⟩
  -- no lease is lost
  have hkeep : ∀ p, s.Leased p →
      System.Leased ⟨k, role', Function.update s.thread t (some th)⟩ p := by
    rintro p ⟨m, main, d, hm, hmp, hms⟩
    refine ⟨m, main, d, ?_, hmp, hms⟩
    have hne : m ≠ t := by
      rintro rfl
      simp [ht] at hm
    show Function.update s.thread t (some th) m = some main
    rw [Function.update_of_ne hne, hm]
  refine ⟨hsound, fun u uh hu => ?_, fun u uh hu => ?_, fun u uh hu => ?_,
    fun u v uh vh d hu hv => ?_, fun u v uh vh hu hv => ?_, fun u uh hu => ?_⟩
  · obtain ⟨-, rfl⟩ | ⟨-, hu⟩ := hthread u uh hu
    · exact hpast
    · exact (h.past u uh hu).moves hmoves
  · obtain ⟨-, rfl⟩ | ⟨-, hu⟩ := hthread u uh hu
    · exact hpresent
    · exact (h.present u uh hu).moves hmoves (h.past u uh hu).born (fun _ _ hc => hc.elim)
        (fun _ => Stage.owned_of_inherited) (fun _ => Stage.owned_of_lock) fun _ => by simp
  · obtain ⟨-, rfl⟩ | ⟨-, hu⟩ := hthread u uh hu
    · exact hlinked
    · exact h.linked u uh hu
  · obtain ⟨rfl, rfl⟩ | ⟨-, hu⟩ := hthread u uh hu
    · exact fun hd => absurd hd (hclaims d)
    · obtain ⟨rfl, rfl⟩ | ⟨-, hv⟩ := hthread v vh hv
      · exact fun _ hd => absurd hd (hclaims d)
      · exact h.disjoint u v uh vh d hu hv
  · intro hm hm' hp
    obtain ⟨rfl, rfl⟩ | ⟨-, hu'⟩ := hthread u uh hu
    · obtain ⟨rfl, -⟩ | ⟨-, hv'⟩ := hthread v vh hv
      · rfl
      · exact absurd hp.symm (hmain hm v vh hv')
    · obtain ⟨rfl, rfl⟩ | ⟨-, hv'⟩ := hthread v vh hv
      · exact absurd hp (hmain hm' u uh hu')
      · exact h.main u v uh vh hu' hv' hm hm' hp
  · obtain ⟨-, rfl⟩ | ⟨-, hu⟩ := hthread u uh hu
    · exact fun hm _ => hkeep _ (hleased hm)
    · exact fun hm hl => hkeep _ (h.leased u uh hu hm hl)

/-- `spawn` forks the worker. -/
theorem spawn (ht : s.thread t = some th) (ha : s.kernel.alive th.process = true) {pr : ℕ}
    (hst : th.stage = .prepared d pr) :
    Inv ((s.forkAs th.process (.forked (some d))).setThread t
      { th with
        stage := .spawning d pr
        worker := some (s.kernel.born, d)
        quiescent := false }) := by
  have hpast := h.past t th ht
  have hpresent := h.present t th ht
  have hleased := h.leased t th ht (by rw [hst]; rfl) (.inl (by rw [hst]; simp))
  have hmoves := moves_fork (r := .forked (some d)) h.sound ha (.inr hpast.service)
  have hd : (d, LockFile.worker) ∈ th.stage.owned := by simp [hst, Stage.owned]
  have hleaf : (s.kernel.fork th.process).Leaf s.kernel.born := leaf_fork h.sound
  have hkept := hpast.moves hmoves
  have hnew : (s.kernel.fork th.process).parent s.kernel.born = some th.process := by
    rw [fork_parent, Function.update_self]
  show Inv ⟨s.kernel.fork th.process, Function.update s.role s.kernel.born (.forked (some d)), _⟩
  refine h.act ht hmoves (sound_fork h.sound ha) (fun _ _ hc => hc.elim) (fun r hr => ?_) rfl
    ⟨hkept.born, hkept.service, hkept.orphan, fun w e hw => ?_, fun w e _ hq => by simp at hq,
      hkept.tools⟩ ?_ ⟨by simp [Stage.early, Stage.phase],
      by simp [Stage.main, Stage.phase], by simp [Stage.settled, Stage.phase],
      fun w e hw => ?_, fun c e hc => ?_⟩ (fun e he => ?_) (by simp [Stage.main, Stage.phase])
    (by simp [hst]) fun _ _ => hleased
  · cases hr
    exact hleased
  · obtain ⟨rfl, rfl⟩ : s.kernel.born = w ∧ d = e := by simpa using hw
    refine ⟨⟨Nat.lt_succ_self _, .child hnew .self, by simp [hnew], ?_, ?_, ?_⟩, by simp,
      fun _ => hleaf, .inr ⟨by simp, fun _ => ?_⟩⟩
    · exact (hpresent.owned d _ hd).1
    · exact (hpresent.owned d _ hd).2.1
    · exact hpresent.lock d (by rw [hst]; rfl)
    · rw [fork_held, Function.update_self]
      exact (hpresent.owned d _ hd).2.2 ha
  · have hmoved := hpresent.moves hmoves hpast.born (fun _ _ hc => hc.elim)
      (fun _ => Stage.owned_of_inherited) (fun _ => Stage.owned_of_lock)
      fun hun => by simp [hst, Stage.unleased] at hun
    rw [hst] at hmoved
    exact ⟨hmoved.nodup, hmoved.owned, hmoved.lock, hmoved.inherited, by simp,
      by simp [Stage.unleased]⟩
  · obtain ⟨-, rfl⟩ : s.kernel.born = w ∧ d = e := by simpa using hw
    exact .inl rfl
  · obtain hin | hnot := (h.linked t th ht).tools c e hc
    · simp [hst, Stage.inherited] at hin
    · rw [hst] at hnot
      exact .inr hnot
  · obtain hown | ⟨w, hw⟩ | hc := he
    · rw [Thread.Claims, hst]
      exact .inl (.inl hown)
    · obtain ⟨-, rfl⟩ : s.kernel.born = w ∧ d = e := by simpa using hw
      exact .inl (.inl ⟨_, hd⟩)
    · exact .inl (.inr (.inr hc))

/-- The operation forks a tool. -/
theorem tool (ht : s.thread t = some th) (ha : s.kernel.alive th.process = true)
    (hst : th.stage = .operating d) :
    Inv ((s.forkAs th.process (.forked none)).setThread t
      { th with tools := (s.kernel.born, d) :: th.tools }) := by
  have hpast := h.past t th ht
  have hpresent := h.present t th ht
  have hlinked := h.linked t th ht
  have hleased := h.leased t th ht (by rw [hst]; rfl) (.inl (by rw [hst]; simp))
  have hmoves := moves_fork (r := .forked none) h.sound ha (.inr hpast.service)
  have hd : (d, LockFile.recovery) ∈ th.stage.owned := by simp [hst, Stage.owned]
  have hkept := hpast.moves hmoves
  have hnew : (s.kernel.fork th.process).parent s.kernel.born = some th.process := by
    rw [fork_parent, Function.update_self]
  show Inv ⟨s.kernel.fork th.process, Function.update s.role s.kernel.born (.forked none), _⟩
  refine h.act ht hmoves (sound_fork h.sound ha) (fun _ _ hc => hc.elim) (fun r hr => ?_) rfl
    ⟨hkept.born, hkept.service, hkept.orphan, hkept.worker, hkept.quiescent, fun c e hc => ?_⟩ ?_
    ⟨hlinked.early, fun hm => by simp [hst, Stage.main, Stage.phase] at hm, hlinked.settled,
      hlinked.holder, fun c e hc => ?_⟩ (fun e he => ?_) id (by simp [hst]) fun _ _ => hleased
  · cases hr
    exact hleased
  · obtain hc | hc := List.mem_cons.1 hc
    · obtain ⟨rfl, rfl⟩ : c = s.kernel.born ∧ e = d := by simpa using hc
      refine ⟨⟨Nat.lt_succ_self _, .child hnew .self, by simp [hnew], ?_, ?_, ?_⟩,
        (leaf_fork h.sound).tied ?_⟩
      · exact (hpresent.owned e _ hd).1
      · exact (hpresent.owned e _ hd).2.1
      · exact hpresent.lock e (by rw [hst]; rfl)
      · rw [fork_held, Function.update_self]
        exact hpresent.inherited e (by rw [hst]; rfl) ha
    · exact hkept.tools c e hc
  · exact hpresent.moves hmoves hpast.born (fun _ _ hc => hc.elim)
      (fun _ => Stage.owned_of_inherited) (fun _ => Stage.owned_of_lock)
      fun hun => by simp [hst, Stage.unleased] at hun
  · obtain hc | hc := List.mem_cons.1 hc
    · obtain ⟨-, rfl⟩ : c = s.kernel.born ∧ e = d := by simpa using hc
      exact .inl (by rw [hst]; rfl)
    · exact hlinked.tools c e hc
  · obtain hown | hw | ⟨c, hc⟩ := he
    · exact .inl (.inl hown)
    · exact .inl (.inr (.inl hw))
    · obtain hc | hc := List.mem_cons.1 hc
      · obtain ⟨-, rfl⟩ : c = s.kernel.born ∧ e = d := by simpa using hc
        exact .inl (.inl ⟨_, hd⟩)
      · exact .inl (.inr (.inr ⟨c, hc⟩))

/-- The worker of the thread is gone, and the thread knows. -/
theorem settle {C : ℕ → ℕ → Prop} (ht : s.thread t = some th)
    (hmoves : Moves s.kernel k s.role role none C) (hsound : k.Sound)
    (hC : ∀ q d, C q d → ∃ f, (d, f) ∈ th.stage.owned) (hpresent : Present k th.process st')
    (hgone : ∀ w d, th.worker = some (w, d) → k.Gone w) (ho : ∀ x ∈ st'.owned, x ∈ th.stage.owned)
    (hlock : ∀ d, th.stage.lock = some d → ∀ f, (d, f) ∉ st'.owned)
    (hin : th.stage.inherited = none) (hstay : th.stage.main = false) (hended : th.stage ≠ .ended)
    (hmain : st'.main = false) (hearly : st'.early = false) :
    Inv ⟨k, role, Function.update s.thread t
      (some { th with stage := st', quiescent := true })⟩ := by
  have hkept := (h.past t th ht).moves hmoves
  have hlinked := h.linked t th ht
  refine h.act ht hmoves hsound hC (fun r hr => by cases hr) rfl
    ⟨hkept.born, hkept.service, hkept.orphan, hkept.worker, fun w d hw _ => hgone w d hw,
      hkept.tools⟩ hpresent ⟨fun he => by simp [hearly] at he, fun hm => by simp [hmain] at hm,
      fun _ => .inr rfl, fun w d hw => .inr ?_, fun c d hc => .inr ?_⟩ (fun d hd => ?_)
    (fun hm => by simp [hmain] at hm) (fun d hd => by simp [hd, Stage.main, Stage.phase] at hstay)
    fun _ _ => h.leased t th ht hstay (.inl hended)
  · obtain hd | hnot := hlinked.holder w d hw
    · exact hlock d hd
    · exact fun f hf => hnot f (ho _ hf)
  · obtain hd | hnot := hlinked.tools c d hc
    · simp [hin] at hd
    · exact fun f hf => hnot f (ho _ hf)
  · obtain ⟨f, hf⟩ | hw | hc := hd
    · exact .inl (.inl ⟨f, ho _ hf⟩)
    · exact .inl (.inr (.inl hw))
    · exact .inl (.inr (.inr hc))

/-- A step of a thread. -/
theorem stepThread (ht : s.thread t = some th) (ha : s.kernel.alive th.process = true)
    (hst : s.stepThread t th = some (s', notes)) : Inv s' := by
  obtain ⟨p, stage, worker, quiescent, tools⟩ := th
  have hpresent := h.present t _ ht
  have hpast := h.past t _ ht
  cases stage with
  | starting =>
    cases hst
    exact h.openFile ht ha (.same rfl (by simp) (by simp)) rfl rfl rfl (by simp) id
  | leasing d =>
    obtain ⟨hfree, hst⟩ := of_tryExclusive hst
    cases hst
    exact h.take ht hfree (.same rfl (by simp) (by simp)) rfl rfl rfl rfl rfl id
  | leaseLocked d =>
    cases hst
    exact h.clear ht ha (.same rfl (by simp) (by simp)) rfl rfl rfl rfl rfl rfl fun _ _ => rfl
  | leased d => cases hst
  | preparing =>
    cases hst
    exact h.openFile ht ha (.same rfl (by simp) (by simp)) rfl rfl rfl (by simp) id
  | holding d =>
    cases hst
    exact h.openFile ht ha (.same rfl (by simp) (by simp)) rfl rfl rfl (by simp) id
  | probed d pr =>
    obtain ⟨hfree, hst⟩ := of_tryExclusive hst
    cases hst
    exact h.take ht hfree (.same rfl (by simp) (by simp)) rfl rfl rfl rfl rfl id
  | prepared d pr =>
    cases hst
    exact h.spawn ht ha rfl
  | spawning d pr =>
    simp only [System.stepThread] at hst
    split_ifs at hst
    cases hst
    exact h.release ht (.same rfl (by simp) (by simp)) rfl (by simp [Stage.owned]) rfl rfl rfl
      (by simp [Stage.inherited]) rfl
  | watching pr =>
    obtain ⟨hfree, hst⟩ := of_tryExclusive hst
    cases hst
    have hfile := hpresent.owned pr .worker (by simp [Stage.owned])
    refine h.settle ht (moves_lock h.sound) (sound_lock h.sound hfree) (fun _ _ hc => hc.elim)
      (hpresent.lock' h.sound hpast.born rfl rfl rfl id) (fun w d hw => ?_) (by simp [Stage.owned])
      (by simp [Stage.lock]) rfl rfl (by simp) rfl rfl
    -- nothing of the worker has the lock any more
    have hkept := (hpast.moves (moves_lock (d := pr) h.sound)).worker w d hw
    refine hkept.gone (sound_lock h.sound hfree) hfile.2.1 (by simp) (hfile.2.2 ha) ?_
    rintro rfl
    obtain hd | hnot := (h.linked t _ ht).holder w d hw
    · cases hd
    · exact hnot .worker (by simp [Stage.owned])
  | quiet pr =>
    cases hst
    exact h.bare ht (.same rfl (by simp) (by simp)) rfl rfl
  | recovering =>
    cases hst
    exact h.openFile ht ha (.same rfl (by simp) (by simp)) rfl rfl rfl (by simp) id
  | waiting d =>
    obtain ⟨hfree, hst⟩ := of_tryExclusive hst
    cases hst
    exact h.take ht hfree (.same rfl (by simp) (by simp)) rfl rfl rfl rfl rfl id
  | locked d =>
    cases hst
    exact h.clear ht ha (.same rfl (by simp) (by simp)) rfl rfl rfl rfl rfl rfl
      fun _ he => by cases he
  | operating d =>
    cases hst
    exact h.openFile ht ha (.same rfl (by simp) (by simp)) rfl rfl rfl (by simp) id
  | ending d pr =>
    cases hst
    exact h.release ht (.same rfl (by simp) (by simp)) rfl (by simp [Stage.owned]) rfl rfl rfl
      (by simp [Stage.inherited]) rfl
  | testing pr =>
    obtain ⟨hfree, hst⟩ := of_tryExclusive hst
    cases hst
    exact h.take ht hfree (.same rfl (by simp) (by simp)) rfl rfl rfl rfl rfl id
  | recovered pr =>
    cases hst
    exact h.bare ht (.end (by simp) (by simp)) rfl rfl
  | ended => cases hst

/-- A supervisor fails before its worker runs. -/
theorem failThread (ht : s.thread t = some th) (hst : s.failThread t th = some s') : Inv s' := by
  have hpast := h.past t th ht
  have hlinked := h.linked t th ht
  have hfails : ∀ _ : ∀ w d, th.worker = some (w, d) → s.kernel.Gone w,
      th.stage.inherited = none → th.stage.main = false → th.stage ≠ .ended →
      Inv ((s.close th.process (th.stage.owned.map (·.1))).setThread t
        { th with stage := .recovering, quiescent := true }) := by
    intro hgone hin hmain hended
    have hmoves : Moves s.kernel (s.kernel.close th.process (th.stage.owned.map (·.1))) s.role s.role
        none _ := moves_close h.sound hpast.orphan hpast.service
    refine h.settle ht hmoves (sound_close h.sound) (fun q d hc => ?_)
      (.bare rfl fun hu => by cases hu) (fun w d hw => ?_) (by simp [Stage.owned])
      (by simp [Stage.owned]) hin hmain hended rfl rfl
    · obtain ⟨⟨d, f⟩, hmem, rfl⟩ := List.mem_map.1 hc.2
      exact ⟨f, hmem⟩
    · exact hmoves.toFrame.gone (hgone w d hw) (hpast.worker w d hw).born
  obtain ⟨p, stage, worker, quiescent, tools⟩ := th
  cases stage with
  | preparing | holding d | probed d pr | prepared d pr =>
    cases hst
    have hnone : worker = none := hlinked.early rfl
    exact hfails (fun w d hw => by simp [hnone] at hw) rfl rfl (by simp)
  | spawning d pr =>
    obtain _ | ⟨c, e⟩ := worker
    · cases hst
    · simp only [System.failThread] at hst
      split_ifs at hst with hdead
      cases hst
      refine hfails (fun w d hw q hq => ?_) rfl rfl (by simp)
      obtain ⟨rfl, rfl⟩ : c = w ∧ e = d := by simpa using hw
      -- a child that has not executed has no children
      rw [(hpast.worker c e rfl).leaf hdead.2 q hq]
      exact hdead.1
  | _ => cases hst

/-- A thread ends early. -/
theorem dropThread (ht : s.thread t = some th) (hst : s.dropThread t th = some s') : Inv s' := by
  have hdrops : (∀ d, th.stage ≠ .leased d) → th.stage ≠ .ended →
      Inv ((s.close th.process (th.stage.owned.map (·.1))).goto t th .ended) :=
    fun hstay hended => h.bare ht (.end hstay hended) rfl rfl
  obtain ⟨p, stage, worker, quiescent, tools⟩ := th
  cases stage with
  | leased d => cases hst
  | ended => cases hst
  | _ =>
    cases hst
    exact hdrops (by simp) (by simp)

omit h in
theorem of_live (hlive : s.live t = some th) :
    s.thread t = some th ∧ s.kernel.alive th.process = true := by
  simpa [System.live, Option.filter_eq_some_iff] using hlive

/-- A thread starts in a leased service. -/
theorem begin {m : ℕ} {main : Thread} {st : Stage} (hm : s.thread m = some main)
    (hstage : main.stage = .leased d) (ht : s.thread t = none) (ho : st.owned = [])
    (hst : st = .preparing ∨ st = .recovering) :
    Inv (s.setThread t ⟨main.process, st, none, true, []⟩) := by
  have hpast := h.past m main hm
  have hmoves : Moves s.kernel s.kernel s.role s.role none keepAll :=
    .of_frame (.inside h.sound rfl rfl rfl rfl (fun _ => id) (fun _ => id)
      fun q d b hb _ _ => ⟨b, hb, id⟩) rfl none_closed
  have hphase : st.main = false ∧ st.unleased = false := by
    obtain rfl | rfl := hst <;> exact ⟨rfl, rfl⟩
  refine h.enter ht hmoves h.sound
    ⟨hpast.born, hpast.service, hpast.orphan, by simp, by simp, by simp⟩
    (.bare ho fun hu => by simp [hphase.2] at hu)
    ⟨fun _ => rfl, fun _ => rfl, fun _ => .inl rfl, by simp, by simp⟩ (by simp [Thread.Claims, ho])
    (fun hm => by simp [hphase.1] at hm) fun _ => ⟨m, main, d, hm, rfl, hstage⟩

/-- **Every step keeps the invariant.** -/
theorem step {i : Input} (hst : machine.step s i = some (s', notes)) : Inv s' := by
  cases i with
  | boot t =>
    simp only [machine] at hst
    rcases ht : s.thread t with _ | th
    · rw [ht] at hst
      cases hst
      refine h.enter ht (moves_boot h.sound) (sound_boot h.sound)
        ⟨Nat.lt_succ_self _, by simp, (h.sound.unborn _ (Nat.le_refl _)).2, by simp, by simp,
          by simp⟩
        (.bare rfl fun _ => leaf_boot h.sound)
        ⟨fun _ => rfl, fun _ => rfl, fun hs => (by cases hs), by simp, by simp⟩
        (by simp [Thread.Claims, Stage.owned]) (fun _ u uh hu hp => ?_) fun hm => by cases hm
      exact absurd (h.past u uh hu).born (by simp [hp])
    · rw [ht] at hst
      cases hst
  | begin m t supervise =>
    simp only [machine] at hst
    rcases ht : s.thread t with _ | th
    · rcases hm : s.live m with _ | main
      · simp [ht, hm] at hst
      · simp only [ht, hm] at hst
        have hmt := (of_live hm).1
        obtain ⟨p, stage, worker, quiescent, tools⟩ := main
        cases stage with
        | leased d =>
          cases hst
          cases supervise with
          | false => exact h.begin hmt rfl ht rfl (.inr rfl)
          | true => exact h.begin hmt rfl ht rfl (.inl rfl)
        | _ => cases hst
    · simp [ht] at hst
  | step t =>
    obtain ⟨th, hlive, hst⟩ := Option.bind_eq_some_iff.1 hst
    exact h.stepThread (of_live hlive).1 (of_live hlive).2 hst
  | tool t =>
    obtain ⟨⟨p, stage, worker, quiescent, tools⟩, hlive, hst⟩ := Option.bind_eq_some_iff.1 hst
    cases stage with
    | operating d =>
      cases hst
      exact h.tool (of_live hlive).1 (of_live hlive).2 rfl
    | _ => cases hst
  | fail t =>
    obtain ⟨th, hlive, hst⟩ := Option.bind_eq_some_iff.1 hst
    obtain ⟨s₁, hfail, hs₁⟩ := Option.map_eq_some_iff.1 hst
    cases hs₁
    exact h.failThread (of_live hlive).1 hfail
  | drop t =>
    obtain ⟨th, hlive, hst⟩ := Option.bind_eq_some_iff.1 hst
    obtain ⟨s₁, hdrop, hs₁⟩ := Option.map_eq_some_iff.1 hst
    cases hs₁
    exact h.dropThread (of_live hlive).1 hdrop
  | child c =>
    simp only [machine] at hst
    split_ifs at hst with ha
    rcases hrole : s.role c with _ | (_ | d) | _
    all_goals simp only [hrole] at hst
    · cases hst
    · cases hst
      exact h.outside (moves_exec h.sound (.inl hrole)) (sound_exec h.sound)
        (fun q d hc => by simp [hc.1, hrole]) fun r hr => by cases hr
    · split_ifs at hst with hheld
      cases hst
      exact h.outside (moves_clear h.sound hrole) (sound_inherit h.sound hheld)
        (fun _ _ hc => hc.elim) fun r hr => by cases hr
    · cases hst
  | fork p =>
    simp only [machine] at hst
    split_ifs at hst with hp
    cases hst
    exact h.outside (moves_fork h.sound hp.1 (.inl hp.2)) (sound_fork h.sound hp.1)
      (fun _ _ hc => hc.elim) fun r hr => by
        cases hr
        simp [hp.2]
  | exec p =>
    simp only [machine] at hst
    split_ifs at hst with hp
    cases hst
    -- an image stays an image
    have hmoves := moves_exec h.sound (.inr hp.2)
    rw [← hp.2, Function.update_eq_self] at hmoves
    exact h.outside hmoves (sound_exec h.sound) (fun q d hc => by simp [hc.1, hp.2])
      fun r hr => by cases hr
  | exit p =>
    simp only [machine] at hst
    split_ifs at hst with hp
    cases hst
    exact h.outside (moves_exit h.sound) (sound_exit h.sound) (fun _ _ hc => hc.elim)
      fun r hr => by cases hr

end Inv

theorem Inv.of_reachable (h : machine.Reachable s) : Inv s := by
  refine h.invariant ?_ fun s i s' o hs hst => hs.step hst
  rintro s rfl
  refine ⟨⟨?_, ?_, ?_, ?_, ?_⟩, ?_, ?_, ?_, ?_, ?_, ?_⟩ <;> simp [Kernel.empty]

end Steps

/-! ### What the leases promise -/

section Promises

variable {s s' : System} {t t' : ℕ} {th th' : Thread} {d d' p p' q q' : ℕ} {notes : List Note}

/-- Locked descriptions of one file that are held are one description. -/
theorem Inv.one (h : Inv s) {f : LockFile} (hf : s.kernel.file d = some f)
    (hf' : s.kernel.file d' = some f) (hl : s.kernel.locked d = true)
    (hl' : s.kernel.locked d' = true) (hd : ∃ q, s.kernel.held q d ≠ none)
    (hd' : ∃ q, s.kernel.held q d' ≠ none) : d = d' :=
  h.sound.exclusive d d' (hf.trans hf'.symm) hl hl' hd hd'

/-- A thread of a live process holds what it has open. -/
theorem Inv.held_of_owned (h : Inv s) (ht : s.thread t = some th) {f : LockFile}
    (hd : (d, f) ∈ th.stage.owned) (ha : s.kernel.alive th.process = true) :
    s.kernel.file d = some f ∧ ∃ q, s.kernel.held q d ≠ none :=
  ⟨((h.present t th ht).owned d f hd).2.1, _, ((h.present t th ht).owned d f hd).2.2 ha⟩

/-- Which thread emits what. -/
theorem stepThread_note {n : Note} (hst : s.stepThread t th = some (s', notes)) (hn : n ∈ notes) :
    (n = .leased th.process ∧ ∃ d, th.stage = .leaseLocked d) ∨
    (n = .prepared t ∧ ∃ d pr, th.stage = .probed d pr ∧ s.kernel.Free d ∧
      s' = (s.lock d).goto t th (.prepared d pr)) ∨
    (n = .quiet t ∧ ∃ pr, th.stage = .watching pr ∧
      s' = (s.lock pr).setThread t { th with stage := .quiet pr, quiescent := true }) ∨
    (n = .operating t ∧ ∃ d, th.stage = .locked d) ∨
    n = .recovered t ∧ ∃ pr, th.stage = .testing pr ∧
      s' = (s.lock pr).goto t th (.recovered pr) := by
  obtain ⟨p, stage, worker, quiescent, tools⟩ := th
  cases stage with
  | leaseLocked d =>
    cases hst
    exact .inl ⟨List.mem_singleton.1 hn, d, rfl⟩
  | probed d pr =>
    obtain ⟨hfree, hst⟩ := of_tryExclusive hst
    cases hst
    exact .inr (.inl ⟨List.mem_singleton.1 hn, d, pr, rfl, hfree, rfl⟩)
  | watching pr =>
    obtain ⟨hfree, hst⟩ := of_tryExclusive hst
    cases hst
    exact .inr (.inr (.inl ⟨List.mem_singleton.1 hn, pr, rfl, rfl⟩))
  | locked d =>
    cases hst
    exact .inr (.inr (.inr (.inl ⟨List.mem_singleton.1 hn, d, rfl⟩)))
  | testing pr =>
    obtain ⟨hfree, hst⟩ := of_tryExclusive hst
    cases hst
    exact .inr (.inr (.inr (.inr ⟨List.mem_singleton.1 hn, pr, rfl, rfl⟩)))
  | leasing d | waiting d =>
    obtain ⟨hfree, hst⟩ := of_tryExclusive hst
    cases hst
    cases hn
  | spawning d pr =>
    simp only [System.stepThread] at hst
    split_ifs at hst
    cases hst
    cases hn
  | _ =>
    cases hst <;> cases hn

/-- Only a step of a thread emits something. -/
theorem step_note {i : Input} {n : Note} (hst : machine.step s i = some (s', notes))
    (hn : n ∈ notes) : ∃ t th, s.thread t = some th ∧ s.kernel.alive th.process = true ∧
      s.stepThread t th = some (s', notes) := by
  cases i with
  | step t =>
    obtain ⟨th, hlive, hst⟩ := Option.bind_eq_some_iff.1 hst
    exact ⟨t, th, (Inv.of_live hlive).1, (Inv.of_live hlive).2, hst⟩
  | boot t =>
    simp only [machine] at hst
    rcases ht : s.thread t with _ | th <;> simp only [ht] at hst <;> cases hst
    cases hn
  | begin m t supervise =>
    simp only [machine] at hst
    split at hst
    · split at hst <;> cases hst
      cases hn
    · cases hst
  | tool t =>
    obtain ⟨th, -, hst⟩ := Option.bind_eq_some_iff.1 hst
    split at hst <;> cases hst
    cases hn
  | fail t | drop t =>
    obtain ⟨th, -, hst⟩ := Option.bind_eq_some_iff.1 hst
    obtain ⟨s₁, -, hs₁⟩ := Option.map_eq_some_iff.1 hst
    cases hs₁
    cases hn
  | child c =>
    simp only [machine] at hst
    split_ifs at hst
    split at hst
    · split_ifs at hst
      cases hst
      cases hn
    · cases hst
      cases hn
    · cases hst
  | fork p | exec p | exit p =>
    simp only [machine] at hst
    split_ifs at hst
    cases hst
    cases hn

/-- The trees of two services that got past `DaemonLease::acquire` are not alive together, and a
service gets past it only when those of all the earlier ones are gone. -/
structure GenerationsApart (s : System) : Prop where
  alive : ∀ p p' q q', s.Leased p → s.Leased p' → s.kernel.Descends p q → s.kernel.Descends p' q' →
    s.kernel.alive q = true → s.kernel.alive q' = true → p = p'
  acquired : ∀ i s' notes p, machine.step s i = some (s', notes) → .leased p ∈ notes →
    ∀ p', s.Leased p' → s.kernel.Gone p'

/-- **Generations.** -/
theorem generations_apart (h : machine.Reachable s) : GenerationsApart s := by
  have hinv := Inv.of_reachable h
  have hlease : ∀ {p}, s.Leased p → ∃ m main d, s.thread m = some main ∧ main.process = p ∧
      main.stage = .leased d ∧ s.kernel.Tied p d ∧ s.kernel.file d = some .mutator ∧
      s.kernel.locked d = true := by
    rintro p ⟨m, main, d, hm, rfl, hms⟩
    have hpresent := hinv.present m main hm
    refine ⟨m, main, d, hm, rfl, hms, hpresent.leased d hms, ?_, hpresent.lock d (by rw [hms]; rfl)⟩
    exact (hpresent.owned d .mutator (by simp [hms, Stage.owned])).2.1
  have hclaims : ∀ {th : Thread} {d}, th.stage = .leased d ∨ th.stage = .leaseLocked d →
      th.Claims d := by
    rintro th d (hst | hst) <;> exact .inl ⟨.mutator, by simp [hst, Stage.owned]⟩
  refine ⟨fun p p' q q' hp hp' hq hq' ha ha' => ?_, fun i s' notes p hst hnote p' hp' => ?_⟩
  · obtain ⟨m, main, d, hm, rfl, hms, htied, hfile, hlocked⟩ := hlease hp
    obtain ⟨m', main', d', hm', rfl, hms', htied', hfile', hlocked'⟩ := hlease hp'
    obtain rfl := hinv.sound.alone htied htied' (hfile.trans hfile'.symm) hlocked hlocked' hq hq' ha
      ha'
    obtain rfl := hinv.disjoint m m' main main' d hm hm' (hclaims (.inl hms)) (hclaims (.inl hms'))
    rw [hm, Option.some.injEq] at hm'
    rw [hm']
  · -- the thread has the lock already
    obtain ⟨t, th, ht, ha, hthread⟩ := step_note hst hnote
    obtain ⟨-, e, hstage⟩ := (stepThread_note hthread hnote).resolve_right (by simp)
    obtain ⟨m, main, d, hm, rfl, hms, htied, hfile, hlocked⟩ := hlease hp'
    have hpresent := hinv.present t th ht
    have hown := hpresent.owned e .mutator (by simp [hstage, Stage.owned])
    refine hinv.sound.gone htied (hfile.trans hown.2.1.symm) hlocked
      (hpresent.lock e (by rw [hstage]; rfl)) (hown.2.2 ha) ?_
    rintro rfl
    obtain rfl := hinv.disjoint m t main th d hm ht (hclaims (.inl hms)) (hclaims (.inr hstage))
    rw [hm, Option.some.injEq] at ht
    rw [← ht, hms] at hstage
    cases hstage

/-- A run from the start. -/
def sample (is : List Input) : System := machine.perform ⟨.empty, fun _ => .image, fun _ => none⟩ is

theorem sample_reachable (is : List Input) : machine.Reachable (sample is) :=
  ⟨_, rfl, machine.reaches_perform _ is⟩

/-- A service whose worker runs and has forked something. -/
def sampleWorker : List Input :=
  [ .boot 0, .step 0, .step 0, .step 0, .begin 0 1 true, .step 1, .step 1, .step 1, .step 1,
    .child 1, .child 1, .step 1, .fork 1 ]

/-- The service and its worker crash; the next service waits for what the worker has forked. -/
def sampleCrash : List Input :=
  sampleWorker ++ [.exit 1, .exit 0, .boot 2, .step 2, .step 2, .exit 2, .step 2, .step 2]

/-- The trees of two workers are not alive together.  `WorkerLease::prepare` succeeds only when those
of all the earlier ones are gone, and `wait_quiet` only when its own one is; a supervisor goes on to
its recovery only when nothing of its worker is alive. -/
structure WorkersApart (s : System) : Prop where
  alive : ∀ t t' th th' w w' d d' q q', s.thread t = some th → s.thread t' = some th' →
    th.worker = some (w, d) → th'.worker = some (w', d') → s.kernel.Descends w q →
    s.kernel.Descends w' q' → s.kernel.alive q = true → s.kernel.alive q' = true → w = w'
  prepared : ∀ i s' notes t, machine.step s i = some (s', notes) → .prepared t ∈ notes →
    ∀ t' th' w d, s'.thread t' = some th' → th'.worker = some (w, d) → s'.kernel.Gone w
  quiet : ∀ i s' notes t, machine.step s i = some (s', notes) → .quiet t ∈ notes →
    ∀ th w d, s'.thread t = some th → th.worker = some (w, d) → s'.kernel.Gone w
  settled : ∀ t th w d, s.thread t = some th → th.stage.settled = true → th.worker = some (w, d) →
    s.kernel.Gone w

/-- **Workers.** -/
theorem workers_apart (h : machine.Reachable s) : WorkersApart s := by
  have hinv := Inv.of_reachable h
  refine ⟨fun t t' th th' w w' d d' q q' ht ht' hw hw' hq hq' ha ha' => ?_,
    fun i s' notes t hst hnote t' th' w d ht' hw => ?_,
    fun i s' notes t hst hnote th w d ht hw => ?_, fun t th w d ht hsettled hw => ?_⟩
  · have hhired := (hinv.past t th ht).worker w d hw
    have hhired' := (hinv.past t' th' ht').worker w' d' hw'
    obtain rfl := hinv.one hhired.file hhired'.file hhired.locked hhired'.locked (hhired.held hq ha)
      (hhired'.held hq' ha')
    obtain rfl := hinv.disjoint t t' th th' d ht ht' (.inr (.inl ⟨w, hw⟩)) (.inr (.inl ⟨w', hw'⟩))
    rw [ht, Option.some.injEq] at ht'
    rw [ht', hw', Option.some.injEq, Prod.mk.injEq] at hw
    exact hw.1.symm
  · obtain ⟨u, th, hu, ha, hthread⟩ := step_note hst hnote
    have hinv' := hinv.step hst
    obtain ⟨hn, e, pr, hstage, -, rfl⟩ :=
      ((stepThread_note hthread hnote).resolve_left (by simp)).resolve_right (by simp)
    obtain rfl : t = u := by simpa using hn
    have ht : ((s.lock e).goto t th (.prepared e pr)).thread t =
        some { th with stage := .prepared e pr } := Function.update_self _ _ _
    have hpresent := hinv'.present t _ ht
    have hown := hpresent.owned e .worker (by simp [Stage.owned])
    refine ((hinv'.past t' th' ht').worker w d hw).gone hinv'.sound hown.2.1
      (hpresent.lock e rfl) (hown.2.2 ha) ?_
    rintro rfl
    obtain rfl := hinv'.disjoint t' t th' _ d ht' ht (.inr (.inl ⟨w, hw⟩))
      (.inl ⟨.worker, by simp [Stage.owned]⟩)
    rw [ht, Option.some.injEq] at ht'
    subst ht'
    -- the thread has not forked its worker yet
    have hnone : th.worker = none := (hinv'.linked t' _ ht).early rfl
    simp [hnone] at hw
  · obtain ⟨u, uh, hu, -, hthread⟩ := step_note hst hnote
    have hinv' := hinv.step hst
    obtain ⟨hn, pr, hstage, rfl⟩ := (((stepThread_note hthread hnote).resolve_left
      (by simp)).resolve_left (by simp)).resolve_right (by simp)
    obtain rfl : t = u := by simpa using hn
    refine (hinv'.past t th ht).quiescent w d hw ?_
    rw [show ((s.lock pr).setThread t _).thread t = some _ from Function.update_self _ _ _,
      Option.some.injEq] at ht
    rw [← ht]
  · obtain hnone | hquiescent := (hinv.linked t th ht).settled hsettled
    · simp [hw] at hnone
    · exact (hinv.past t th ht).quiescent w d hw hquiescent

/-- The worker and what it has forked exit, and the recovery starts. -/
def sampleQuiet : List Input :=
  sampleWorker ++ [.exit 1, .step 1, .exit 2, .step 1, .step 1, .step 1, .step 1, .step 1]

/-- The operation of the thread runs, or something that it has started does. -/
def System.Recovers (s : System) (t d : ℕ) : Prop := ∃ th, s.thread t = some th ∧
  ((th.stage = .operating d ∧ s.kernel.alive th.process = true) ∨
    ∃ c q, (c, d) ∈ th.tools ∧ s.kernel.Descends c q ∧ s.kernel.alive q = true)

theorem Inv.recovers (h : Inv s) (hr : s.Recovers t d) :
    (∃ th, s.thread t = some th ∧ th.Claims d) ∧ s.kernel.file d = some .recovery ∧
      s.kernel.locked d = true ∧ ∃ q, s.kernel.held q d ≠ none := by
  obtain ⟨th, ht, ⟨hstage, ha⟩ | ⟨c, q, hc, hq, ha⟩⟩ := hr
  · have hown : (d, LockFile.recovery) ∈ th.stage.owned := by simp [hstage, Stage.owned]
    obtain ⟨hfile, hheld⟩ := h.held_of_owned ht hown ha
    exact ⟨⟨th, ht, .inl ⟨_, hown⟩⟩, hfile, (h.present t th ht).lock d (by rw [hstage]; rfl), hheld⟩
  · obtain ⟨hbound, htied⟩ := (h.past t th ht).tools c d hc
    exact ⟨⟨th, ht, .inr (.inr ⟨c, hc⟩)⟩, hbound.file, hbound.locked, q, by simp [htied q hq ha]⟩

/-- Two operations of `recover` never run together, nor with a tool that the other one has started
or with anything that was forked there; `recover` succeeds only when nothing of its tools is left;
and while an operation runs, every worker that is alive is of its own service. -/
structure RecoveriesApart (s : System) : Prop where
  alive : ∀ t t' d d', s.Recovers t d → s.Recovers t' d' → t = t' ∧ d = d'
  recovered : ∀ i s' notes t, machine.step s i = some (s', notes) → .recovered t ∈ notes →
    ∀ th c d, s'.thread t = some th → (c, d) ∈ th.tools → s'.kernel.Gone c
  operating : ∀ t th d, s.thread t = some th → th.stage = .operating d →
    s.kernel.alive th.process = true → ∀ t' th' w d' q, s.thread t' = some th' →
      th'.worker = some (w, d') → s.kernel.Descends w q → s.kernel.alive q = true →
        s.kernel.Descends th.process q

/-- **Recoveries.** -/
theorem recoveries_apart (h : machine.Reachable s) : RecoveriesApart s := by
  have hinv := Inv.of_reachable h
  refine ⟨fun t t' d d' hr hr' => ?_, fun i s' notes t hst hnote th c d ht hc => ?_,
    fun t th d ht hstage ha t' th' w d' q ht' hw hq hqa => ?_⟩
  · obtain ⟨⟨th, ht, hclaims⟩, hfile, hlocked, hheld⟩ := hinv.recovers hr
    obtain ⟨⟨th', ht', hclaims'⟩, hfile', hlocked', hheld'⟩ := hinv.recovers hr'
    obtain rfl := hinv.one hfile hfile' hlocked hlocked' hheld hheld'
    exact ⟨hinv.disjoint t t' th th' d ht ht' hclaims hclaims', rfl⟩
  · obtain ⟨u, uh, hu, ha, hthread⟩ := step_note hst hnote
    have hinv' := hinv.step hst
    obtain ⟨hn, pr, hstage, rfl⟩ := ((((stepThread_note hthread hnote).resolve_left
      (by simp)).resolve_left (by simp)).resolve_left (by simp)).resolve_left (by simp)
    obtain rfl : t = u := by simpa using hn
    have hpresent := hinv'.present t th ht
    have hpast := hinv'.past t th ht
    obtain rfl : { uh with stage := .recovered pr } = th := by
      rw [show ((s.lock pr).goto t uh _).thread t = some _ from Function.update_self _ _ _,
        Option.some.injEq] at ht
      exact ht
    have hown := hpresent.owned pr .recovery (by simp [Stage.owned])
    obtain ⟨hbound, htied⟩ := hpast.tools c d hc
    refine hinv'.sound.gone htied (hbound.file.trans hown.2.1.symm) hbound.locked
      (hpresent.lock pr rfl) (hown.2.2 ha) ?_
    rintro rfl
    obtain hin | hnot := (hinv'.linked t _ ht).tools c d hc
    · cases hin
    · exact hnot .recovery (by simp [Stage.owned])
  · have hleased := hinv.leased t th ht (by rw [hstage]; rfl) (.inl (by simp [hstage]))
    have hmain : th'.stage.main = false := by
      by_contra hmain
      exact absurd ((hinv.linked t' th' ht').early (by
        simp only [Stage.main, Stage.early, decide_eq_true_eq, Bool.not_eq_false] at hmain ⊢
        exact .inl hmain)) (by simp [hw])
    have hleased' := hinv.leased t' th' ht' hmain (.inr (.inl (by simp [hw])))
    have hdescends : s.kernel.Descends th'.process q :=
      ((hinv.past t' th' ht').worker w d' hw).descends.trans hq
    have hsame := (generations_apart h).alive th.process th'.process th.process q hleased hleased'
      .self hdescends ha hqa
    rwa [hsame]

/-- **The leases keep the mutators apart**, in every reachable state: those of two generations, two
workers, and two recoveries. -/
theorem leases_apart (h : machine.Reachable s) :
    GenerationsApart s ∧ WorkersApart s ∧ RecoveriesApart s :=
  ⟨generations_apart h, workers_apart h, recoveries_apart h⟩

/-- The operation fails and leaves something that a tool has forked; the next call waits. -/
def sampleTools : List Input :=
  sampleQuiet ++ [.tool 1, .child 3, .fork 3, .exit 3, .drop 1, .begin 0 2 false, .step 2, .step 2]

theorem leases_apart_sample :
    (∀ q, (sample sampleCrash).kernel.Descends 0 q → (sample sampleCrash).kernel.alive q = false) ∧
      (sample sampleQuiet).kernel.Gone 1 ∧
      (sample sampleTools).Recovers 1 3 ∧ ∀ t d, (sample sampleTools).Recovers t d → t = 1 := by
  -- the service that has crashed, and the one that got past the lease after it
  have hold : (sample sampleCrash).Leased 0 :=
    ⟨0, ⟨0, .leased 0, none, true, []⟩, 0, by decide +kernel, rfl, rfl⟩
  have hnew : (sample sampleCrash).Leased 3 :=
    ⟨2, ⟨3, .leased 3, none, true, []⟩, 3, by decide +kernel, rfl, rfl⟩
  have halive : (sample sampleCrash).kernel.alive 3 = true := by decide +kernel
  have hquiet : (sample sampleQuiet).thread 1 = some ⟨0, .operating 3, some (1, 1), true, []⟩ := by
    decide +kernel
  have hthread : (sample sampleTools).thread 1 = some ⟨0, .ended, some (1, 1), true, [(3, 3)]⟩ := by
    decide +kernel
  have hfork : (sample sampleTools).kernel.Descends 3 4 := .child (r := 3) (by decide +kernel) .self
  have hrecovers : (sample sampleTools).Recovers 1 3 :=
    ⟨_, hthread, .inr ⟨3, 4, by simp, hfork, by decide +kernel⟩⟩
  refine ⟨fun q hq => ?_,
    (leases_apart (sample_reachable sampleQuiet)).2.1.settled 1 _ 1 1 hquiet rfl rfl, hrecovers,
    fun t d hr => ((leases_apart (sample_reachable sampleTools)).2.2.alive t 1 d 3 hr hrecovers).1⟩
  by_contra ha
  exact absurd ((leases_apart (sample_reachable sampleCrash)).1.alive 0 3 q 3 hold hnew hq .self
    (by simpa using ha) halive) (by decide)

end Promises

end Ocvpn.Lifetime
