import Ocvpn.Locks.Lifetime

/-!
# The threads of the services

What holds of every thread, whatever the others do.  A thread has a past, the processes that it has
forked (`Past`), and a stage, with its descriptors and its lock (`Present`); `Linked` says how they
fit.  `Moves` is what a step of somebody else can do to both.

## Main results

* `Inv` : the invariant of the system.
* `Inv.outside` : it survives a step that is not a thread's.
* `Inv.act` : it survives a step of a thread that closes nothing but its own.
-/

namespace Ocvpn.Lifetime

open Locks Locks.Kernel

/-! ### What holds of a thread -/

/-- A process that was forked by `p`, with a locked description. -/
structure Bound (k : Kernel LockFile) (p : ℕ) (f : LockFile) (c d : ℕ) : Prop where
  born : c < k.born
  descends : k.Descends p c
  parent : k.parent c ≠ none
  opened : d < k.opened
  file : k.file d = some f
  locked : k.locked d = true

/-- A worker; until `pre_exec` has cleared the flag of the holder, it is one process. -/
structure Hired (k : Kernel LockFile) (role : ℕ → Role) (p w d : ℕ) : Prop
    extends Bound k p .worker w d where
  other : role w ≠ .service
  leaf : role w ≠ .image → k.Leaf w
  tied : k.Tied w d ∨ (role w = .forked (some d) ∧ (k.alive w = true → k.held w d ≠ none))

/-- What a thread has forked. -/
structure Past (k : Kernel LockFile) (role : ℕ → Role) (th : Thread) : Prop where
  born : th.process < k.born
  service : role th.process = .service
  orphan : k.parent th.process = none
  worker : ∀ w d, th.worker = some (w, d) → Hired k role th.process w d
  quiescent : ∀ w d, th.worker = some (w, d) → th.quiescent = true → k.Gone w
  tools : ∀ c d, (c, d) ∈ th.tools → Bound k th.process .recovery c d ∧ k.Tied c d

/-- Before `DaemonLease::acquire` has returned. -/
def Stage.unleased : Stage → Bool
  | starting | leasing _ | leaseLocked _ => true
  | _ => false

/-- What a thread of the process `p` has open. -/
structure Present (k : Kernel LockFile) (p : ℕ) (st : Stage) : Prop where
  nodup : (st.owned.map (·.1)).Nodup
  owned : ∀ d f, (d, f) ∈ st.owned →
    d < k.opened ∧ k.file d = some f ∧ (k.alive p = true → k.held p d ≠ none)
  lock : ∀ d, st.lock = some d → k.locked d = true
  inherited : ∀ d, st.inherited = some d → k.alive p = true → k.held p d = some false
  leased : ∀ d, st = .leased d → k.Tied p d
  leaf : st.unleased = true → k.Leaf p

/-- What a step may do to the past of a thread and to the stage of another one. -/
structure Moves (k k' : Kernel LockFile) (role role' : ℕ → Role) (forker : Option ℕ)
    (C : ℕ → ℕ → Prop) : Prop extends Frame k k' forker C where
  parent : ∀ q r, k.parent q = some r → k'.parent q = some r
  orphan : ∀ q < k.born, k.parent q = none → k'.parent q = none
  service : ∀ q < k.born, role' q = .service ↔ role q = .service
  image : ∀ q < k.born, role q = .image → role' q = .image
  forked : ∀ q < k.born, ∀ d, role q = .forked (some d) →
    role' q = .forked (some d) ∨ k'.held q d = some false
  forks : ∀ r, forker = some r → role r = .image ∨ role r = .service
  apart : ∀ q d, C q d → k.held q d ≠ some false ∨ k.parent q = none
  spared : ∀ q d e, C q d → role q ≠ .forked (some e)

section Keeping

variable {k k' : Kernel LockFile} {role role' : ℕ → Role} {th : Thread} {st st' : Stage}
  {forker : Option ℕ} {C : ℕ → ℕ → Prop} {p q r c d w : ℕ} {f : LockFile}

theorem Hired.held (h : Hired k role p w d) (hq : k.Descends w q) (ha : k.alive q = true) :
    ∃ r, k.held r d ≠ none := by
  obtain htied | ⟨hrole, hheld⟩ := h.tied
  · exact ⟨q, by simp [htied q hq ha]⟩
  · obtain rfl := h.leaf (by simp [hrole]) q hq
    exact ⟨q, hheld ha⟩

/-- When the lock is taken through another description, the worker is gone. -/
theorem Hired.gone (h : Hired k role p w d) (hk : k.Sound) {e : ℕ} (hfile : k.file e = some .worker)
    (hlocked : k.locked e = true) (hheld : k.held r e ≠ none) (hne : d ≠ e) : k.Gone w := by
  intro q hq
  by_contra ha
  have hd := h.held hq (by simpa using ha)
  exact hne (hk.exclusive d e (by rw [h.file, hfile]) h.locked hlocked hd ⟨r, hheld⟩)

theorem Moves.descends (h : Moves k k' role role' forker C) (hq : k.Descends p q) :
    k'.Descends p q := by
  induction hq with
  | self => exact .self
  | child hparent _ ih => exact .child (h.parent _ _ hparent) ih

theorem Bound.moves (hb : Bound k p f c d) (h : Moves k k' role role' forker C) :
    Bound k' p f c d where
  born := hb.born.trans_le h.born
  descends := h.descends hb.descends
  parent := fun hnone => by
    obtain ⟨r, hr⟩ := Option.ne_none_iff_exists'.1 hb.parent
    exact absurd (h.parent c r hr) (by simp [hnone])
  opened := hb.opened.trans_le h.opened
  file := by rw [h.file d hb.opened, hb.file]
  locked := h.locked d hb.opened hb.locked

/-- The tree of a child stays tied: what a service closes, and what a program loses when it executes
another one, is not what the tree is tied to. -/
theorem Bound.tied (hb : Bound k p f c d) (h : Moves k k' role role' forker C)
    (ht : k.Tied c d) : k'.Tied c d := by
  refine h.toFrame.tied ht hb.born fun q hq hC hheld => ?_
  obtain hne | hnone := h.apart q d hC
  · exact hne hheld
  · obtain _ | ⟨hparent, -⟩ := hq
    · exact hb.parent hnone
    · exact absurd hparent (by simp [hnone])

theorem Hired.moves (hw : Hired k role p w d) (h : Moves k k' role role' forker C) :
    Hired k' role' p w d := by
  have hleaf : role w ≠ .image → k'.Leaf w := by
    intro hrole
    refine h.toFrame.leaf (hw.leaf hrole) hw.born fun hf => ?_
    obtain himage | hservice := h.forks w hf
    · exact hrole himage
    · exact hw.other hservice
  refine ⟨hw.toBound.moves h, fun hs => hw.other ((h.service w hw.born).1 hs),
    fun hne => hleaf fun himage => hne (h.image w hw.born himage), ?_⟩
  obtain htied | ⟨hrole, hheld⟩ := hw.tied
  · exact .inl (hw.toBound.tied h htied)
  · obtain hsame | hclear := h.forked w hw.born d hrole
    · refine .inr ⟨hsame, fun ha => ?_⟩
      obtain ⟨b, hb⟩ := Option.ne_none_iff_exists'.1 (hheld (h.alive w hw.born ha))
      obtain ⟨b', hb', -⟩ := h.hold hb ha hw.born fun hC => h.spared w d d hC hrole
      simp [hb']
    · exact .inl ((hleaf (by simp [hrole])).tied hclear)

theorem Past.moves (hp : Past k role th) (h : Moves k k' role role' forker C) :
    Past k' role' th where
  born := hp.born.trans_le h.born
  service := (h.service _ hp.born).2 hp.service
  orphan := h.orphan _ hp.born hp.orphan
  worker := fun w d hw => (hp.worker w d hw).moves h
  quiescent := fun w d hw hq => h.toFrame.gone (hp.quiescent w d hw hq) (hp.worker w d hw).born
  tools := fun c d hc => by
    obtain ⟨hbound, htied⟩ := hp.tools c d hc
    exact ⟨hbound.moves h, hbound.tied h htied⟩

/-- A thread keeps what nobody closes for it. -/
theorem Present.moves (hst : Present k p st) (h : Moves k k' role role' forker C) (hp : p < k.born)
    (hC : ∀ d f, C p d → (d, f) ∉ st.owned)
    (hin : ∀ d, st.inherited = some d → ∃ f, (d, f) ∈ st.owned)
    (hlock : ∀ d, st.lock = some d → ∃ f, (d, f) ∈ st.owned)
    (hf : st.unleased = true → forker ≠ some p) : Present k' p st where
  nodup := hst.nodup
  owned := fun d f hd => by
    obtain ⟨hlt, hfile, hheld⟩ := hst.owned d f hd
    refine ⟨hlt.trans_le h.opened, by rw [h.file d hlt, hfile], fun ha => ?_⟩
    obtain ⟨b, hb⟩ := Option.ne_none_iff_exists'.1 (hheld (h.alive p hp ha))
    obtain ⟨b', hb', -⟩ := h.hold hb ha hp fun hc => hC d f hc hd
    simp [hb']
  lock := fun d hd => by
    obtain ⟨f, hf⟩ := hlock d hd
    exact h.locked d (hst.owned d f hf).1 (hst.lock d hd)
  inherited := fun d hd ha => by
    obtain ⟨f, hf⟩ := hin d hd
    obtain ⟨b', hb', himp⟩ := h.hold (hst.inherited d hd (h.alive p hp ha)) ha hp
      fun hc => hC d f hc hf
    rw [hb', himp rfl]
  leased := fun d hd => by
    refine h.toFrame.tied (hst.leased d hd) hp fun q hq hc hheld => ?_
    obtain hne | hnone := h.apart q d hc
    · exact hne hheld
    · obtain ⟨f, hf⟩ := hin d (by rw [hd]; rfl)
      obtain _ | ⟨hparent, -⟩ := hq
      · exact hC d f hc hf
      · exact absurd hparent (by simp [hnone])
  leaf := fun hun => h.toFrame.leaf (hst.leaf hun) hp (hf hun)

theorem Stage.owned_of_lock (h : st.lock = some d) : ∃ f, (d, f) ∈ st.owned := by
  rcases st with _ | _ <;> simp_all [Stage.lock, Stage.owned]

theorem Stage.owned_of_inherited (h : st.inherited = some d) : ∃ f, (d, f) ∈ st.owned := by
  rcases st with _ | _ <;> simp_all [Stage.inherited, Stage.owned]

end Keeping

/-! ### What the operations do -/

section Operations

variable {k k' : Kernel LockFile} {role : ℕ → Role} {th : Thread} {st st' : Stage} {p c d e : ℕ}
  {f : LockFile} (hk : k.Sound)

/-- A step of a service that forks nothing; it closes its own descriptors only. -/
theorem Moves.of_frame {C : ℕ → ℕ → Prop} (h : Frame k k' none C) (hparent : k'.parent = k.parent)
    (hC : ∀ q d, C q d → k.parent q = none ∧ role q = .service) : Moves k k' role role none C where
  toFrame := h
  parent := fun q r hq => hparent ▸ hq
  orphan := fun q _ hq => hparent ▸ hq
  service := fun _ _ => Iff.rfl
  image := fun _ _ => id
  forked := fun _ _ _ => .inl
  forks := fun r hr => by cases hr
  apart := fun q d hc => .inr (hC q d hc).1
  spared := fun q d e hc => by simp [(hC q d hc).2]

theorem none_closed {P : ℕ → ℕ → Prop} (q d : ℕ) (h : keepAll q d) : P q d := h.elim

include hk

theorem moves_openFile : Moves k (k.openFile p f) role role none keepAll :=
  .of_frame (frame_openFile hk) rfl none_closed

theorem moves_lock : Moves k (k.lock d) role role none keepAll :=
  .of_frame (frame_lock hk) rfl none_closed

theorem moves_inherit : Moves k (k.inherit p d) role role none keepAll :=
  .of_frame (frame_inherit hk) rfl none_closed

theorem moves_exit : Moves k (k.exit p) role role none keepAll :=
  .of_frame (frame_exit hk) rfl none_closed

theorem moves_close {ds : List ℕ} (hp : k.parent p = none) (hrole : role p = .service) :
    Moves k (k.close p ds) role role none fun q d => q = p ∧ d ∈ ds :=
  .of_frame (frame_close hk) rfl fun _ _ hc => hc.1 ▸ ⟨hp, hrole⟩

theorem moves_boot : Moves k k.boot role (Function.update role k.born .service) none keepAll where
  toFrame := frame_boot hk
  parent := fun _ _ => id
  orphan := fun _ _ => id
  service := fun q hq => by rw [Function.update_of_ne hq.ne]
  image := fun q hq hr => by rwa [Function.update_of_ne hq.ne]
  forked := fun q hq d hr => .inl (by rwa [Function.update_of_ne hq.ne])
  forks := fun r hr => by cases hr
  apart := fun _ _ hc => hc.elim
  spared := fun _ _ _ hc => hc.elim

theorem moves_fork {r : Role} (hp : k.alive p = true)
    (hrole : role p = .image ∨ role p = .service) :
    Moves k (k.fork p) role (Function.update role k.born r) (some p) keepAll where
  toFrame := frame_fork hk hp
  parent := fun q r hq => by
    have hne : q ≠ k.born := by
      rintro rfl
      exact absurd hq (by simp [(hk.unborn _ (Nat.le_refl _)).2])
    rw [fork_parent, Function.update_of_ne hne, hq]
  orphan := fun q hq hnone => by rw [fork_parent, Function.update_of_ne hq.ne, hnone]
  service := fun q hq => by rw [Function.update_of_ne hq.ne]
  image := fun q hq hr => by rwa [Function.update_of_ne hq.ne]
  forked := fun q hq d hr => .inl (by rwa [Function.update_of_ne hq.ne])
  forks := fun r hr => by
    cases hr
    exact hrole
  apart := fun _ _ hc => hc.elim
  spared := fun _ _ _ hc => hc.elim

/-- `pre_exec` clears the flag of the holder. -/
theorem moves_clear (hrole : role c = .forked (some d)) :
    Moves k (k.inherit c d) role (Function.update role c (.forked none)) none keepAll where
  toFrame := frame_inherit hk
  parent := fun _ _ => id
  orphan := fun _ _ => id
  service := fun q _ => by
    by_cases hq : q = c
    · subst hq
      simp [hrole]
    · rw [Function.update_of_ne hq]
  image := fun q _ hr => by
    have hq : q ≠ c := by
      rintro rfl
      simp [hrole] at hr
    rwa [Function.update_of_ne hq]
  forked := fun q _ e hr => by
    by_cases hq : q = c
    · subst hq
      rw [hrole, Role.forked.injEq, Option.some.injEq] at hr
      subst hr
      right
      rw [inherit_held, change_apply, if_pos ⟨rfl, rfl⟩]
    · exact .inl (by rwa [Function.update_of_ne hq])
  forks := fun r hr => by cases hr
  apart := fun _ _ hc => hc.elim
  spared := fun _ _ _ hc => hc.elim

/-- A program is executed. -/
theorem moves_exec (hrole : role c = .forked none ∨ role c = .image) :
    Moves k (k.exec c) role (Function.update role c .image) none
      fun q d => q = c ∧ k.held q d = some true where
  toFrame := frame_exec hk
  parent := fun _ _ => id
  orphan := fun _ _ => id
  service := fun q _ => by
    by_cases hq : q = c
    · subst hq
      obtain hrole | hrole := hrole <;> simp [hrole]
    · rw [Function.update_of_ne hq]
  image := fun q _ hr => by
    by_cases hq : q = c
    · subst hq
      rw [Function.update_self]
    · rwa [Function.update_of_ne hq]
  forked := fun q _ e hr => by
    have hq : q ≠ c := by
      rintro rfl
      obtain hrole | hrole := hrole <;> simp [hrole] at hr
    exact .inl (by rwa [Function.update_of_ne hq])
  forks := fun r hr => by cases hr
  apart := fun q d hc => .inl (by simp [hc.2])
  spared := fun q d e hc => by
    obtain ⟨rfl, -⟩ := hc
    obtain hrole | hrole := hrole <;> simp [hrole]

omit hk in
/-- Nothing is open. -/
theorem Present.bare (ho : st.owned = []) (hl : st.unleased = true → k.Leaf p) :
    Present k p st where
  nodup := by simp [ho]
  owned := fun d f hd => by simp [ho] at hd
  lock := fun d hd => by
    obtain ⟨f, hf⟩ := Stage.owned_of_lock hd
    simp [ho] at hf
  inherited := fun d hd => by
    obtain ⟨f, hf⟩ := Stage.owned_of_inherited hd
    simp [ho] at hf
  leased := fun d hd => by
    subst hd
    cases ho
  leaf := hl

/-- A file is opened. -/
theorem Present.openFile (h : Present k p st) (hp : p < k.born)
    (ho : st'.owned = st.owned ++ [(k.opened, f)]) (hl : st'.lock = st.lock)
    (hi : st'.inherited = st.inherited) (hleased : ∀ d, st' ≠ .leased d)
    (hun : st'.unleased = true → st.unleased = true) : Present (k.openFile p f) p st' := by
  have hmoves : Moves k (k.openFile p f) (fun _ => .image) (fun _ => .image) none keepAll :=
    moves_openFile hk
  have hold := h.moves hmoves hp
    (fun _ _ hc => hc.elim) (fun _ => Stage.owned_of_inherited) (fun _ => Stage.owned_of_lock)
    fun _ => by simp
  refine ⟨?_, fun d f' hd => ?_, fun d hd => hold.lock d (hl ▸ hd),
    fun d hd => hold.inherited d (hi ▸ hd), fun d hd => absurd hd (hleased d),
    fun h => hold.leaf (hun h)⟩
  · rw [ho, List.map_append, List.nodup_append]
    refine ⟨h.nodup, by simp, ?_⟩
    rintro d hd e he rfl
    obtain ⟨⟨d, f'⟩, hmem, rfl⟩ := List.mem_map.1 hd
    have hlt := (h.owned d f' hmem).1
    simp at he
    omega
  · rw [ho] at hd
    obtain hd | hd := List.mem_append.1 hd
    · exact hold.owned d f' hd
    · obtain ⟨rfl, rfl⟩ : d = k.opened ∧ f' = f := by simpa using hd
      refine ⟨Nat.lt_succ_self _, by simp, fun _ => ?_⟩
      rw [openFile_held, change_apply, if_pos ⟨rfl, rfl⟩]
      simp

/-- The lock is taken. -/
theorem Present.lock' (h : Present k p st) (hp : p < k.born) (ho : st'.owned = st.owned)
    (hl : st'.lock = some d) (hi : st'.inherited = none)
    (hun : st'.unleased = true → st.unleased = true) : Present (k.lock d) p st' := by
  have hmoves : Moves k (k.lock d) (fun _ => .image) (fun _ => .image) none keepAll := moves_lock hk
  have hold := h.moves hmoves hp
    (fun _ _ hc => hc.elim) (fun _ => Stage.owned_of_inherited) (fun _ => Stage.owned_of_lock)
    fun _ => by simp
  refine ⟨ho ▸ h.nodup, fun e f he => hold.owned e f (ho ▸ he), fun e he => ?_,
    fun e he => absurd he (by simp [hi]), fun e he => ?_, fun h => hold.leaf (hun h)⟩
  · rw [hl, Option.some.injEq] at he
    subst he
    simp
  · subst he
    cases hi

/-- The flag is cleared. -/
theorem Present.inherit (h : Present k p st) (hp : p < k.born) (ho : st'.owned = st.owned)
    (hl : st'.lock = st.lock) (hi : st'.inherited = some d) (hun : st'.unleased = false)
    (hleaf : ∀ e, st' = .leased e → k.Leaf p) : Present (k.inherit p d) p st' := by
  have hmoves : Moves k (k.inherit p d) (fun _ => .image) (fun _ => .image) none keepAll :=
    moves_inherit hk
  have hold := h.moves hmoves hp (fun _ _ hc => hc.elim) (fun _ => Stage.owned_of_inherited)
    (fun _ => Stage.owned_of_lock) fun _ => by simp
  have hheld : (k.inherit p d).held p d = some false := by
    rw [inherit_held, change_apply, if_pos ⟨rfl, rfl⟩]
  refine ⟨ho ▸ h.nodup, fun e f he => hold.owned e f (ho ▸ he), fun e he => hold.lock e (hl ▸ he),
    fun e he _ => ?_, fun e he => ?_, fun h => by simp [hun] at h⟩
  · obtain rfl : d = e := Option.some.inj (hi.symm.trans he)
    exact hheld
  · obtain rfl : d = e := by
      subst he
      exact (Option.some.inj hi).symm
    exact (hmoves.toFrame.leaf (hleaf d he) hp (by simp)).tied hheld

omit hk in
/-- Something is dropped, and with it the lock. -/
theorem Present.close (h : Present k p st)
    (hperm : st.owned.map (·.1) = e :: st'.owned.map (·.1))
    (ho : ∀ x ∈ st'.owned, x ∈ st.owned) (hl : st'.lock = none) (hi : st'.inherited = none)
    (hun : st'.unleased = false) : Present (k.close p [e]) p st' where
  nodup := (List.nodup_cons.1 (hperm ▸ h.nodup)).2
  owned := fun d f hd => by
    obtain ⟨hlt, hfile, hheld⟩ := h.owned d f (ho _ hd)
    refine ⟨hlt, hfile, fun ha => ?_⟩
    have hne : d ≠ e := by
      rintro rfl
      have hnodup := h.nodup
      rw [hperm] at hnodup
      exact (List.nodup_cons.1 hnodup).1 (List.mem_map.2 ⟨_, hd, rfl⟩)
    rw [close_held, if_neg (by simp [hne])]
    exact hheld ha
  lock := fun d hd => by simp [hl] at hd
  inherited := fun d hd => by simp [hi] at hd
  leased := fun d hd => by
    subst hd
    cases hi
  leaf := fun hu => by simp [hun] at hu

end Operations

/-! ### The system -/

/-- What a thread is at: its lease, the preparation of a worker, the worker, and the recovery. -/
inductive Phase where
  | lease | prepare | watch | settled | ended
  deriving DecidableEq

def Stage.phase : Stage → Phase
  | starting | leasing _ | leaseLocked _ | leased _ => .lease
  | preparing | holding _ | probed .. | prepared .. => .prepare
  | spawning .. | watching _ => .watch
  | quiet _ | recovering | waiting _ | locked _ => .settled
  | operating _ | ending .. | testing _ | recovered _ => .settled
  | ended => .ended

/-- The stages of `DaemonLease::acquire`. -/
def Stage.main (st : Stage) : Bool := st.phase = .lease

/-- The stages before a worker is forked. -/
def Stage.early (st : Stage) : Bool := st.phase = .lease ∨ st.phase = .prepare

/-- The stages after `wait_quiet`. -/
def Stage.settled (st : Stage) : Bool := st.phase = .settled

/-- How the stage of a thread fits its past. -/
structure Thread.Linked (th : Thread) : Prop where
  early : th.stage.early = true → th.worker = none
  main : th.stage.main = true → th.tools = []
  settled : th.stage.settled = true → th.worker = none ∨ th.quiescent = true
  holder : ∀ w d, th.worker = some (w, d) →
    th.stage.lock = some d ∨ ∀ f, (d, f) ∉ th.stage.owned
  tools : ∀ c d, (c, d) ∈ th.tools →
    th.stage.inherited = some d ∨ ∀ f, (d, f) ∉ th.stage.owned

/-- The descriptions that a thread has opened and that matter. -/
def Thread.Claims (th : Thread) (d : ℕ) : Prop :=
  (∃ f, (d, f) ∈ th.stage.owned) ∨ (∃ w, th.worker = some (w, d)) ∨ ∃ c, (c, d) ∈ th.tools

/-- The service got past `DaemonLease::acquire`. -/
def System.Leased (s : System) (p : ℕ) : Prop :=
  ∃ m main d, s.thread m = some main ∧ main.process = p ∧ main.stage = .leased d

structure Inv (s : System) : Prop where
  sound : s.kernel.Sound
  past : ∀ t th, s.thread t = some th → Past s.kernel s.role th
  present : ∀ t th, s.thread t = some th → Present s.kernel th.process th.stage
  linked : ∀ t th, s.thread t = some th → th.Linked
  disjoint : ∀ t t' th th' d, s.thread t = some th → s.thread t' = some th' → th.Claims d →
    th'.Claims d → t = t'
  main : ∀ t t' th th', s.thread t = some th → s.thread t' = some th' → th.stage.main = true →
    th'.stage.main = true → th.process = th'.process → t = t'
  leased : ∀ t th, s.thread t = some th → th.stage.main = false →
    th.stage ≠ .ended ∨ th.worker ≠ none ∨ th.tools ≠ [] → s.Leased th.process

namespace Inv

variable {s : System} (h : Inv s) {k' : Kernel LockFile} {role' : ℕ → Role} {forker : Option ℕ}
  {C : ℕ → ℕ → Prop} {t : ℕ} {th th' : Thread} {st' : Stage} {d e p : ℕ} {f : LockFile}

include h

theorem lt_of_claims (ht : s.thread t = some th) (hd : th.Claims d) : d < s.kernel.opened := by
  obtain ⟨f, hf⟩ | ⟨w, hw⟩ | ⟨c, hc⟩ := hd
  · exact ((h.present t th ht).owned d f hf).1
  · exact ((h.past t th ht).worker w d hw).opened
  · exact ((h.past t th ht).tools c d hc).1.opened

/-- A step that is not a thread's. -/
theorem outside (hmoves : Moves s.kernel k' s.role role' forker C) (hsound : k'.Sound)
    (hC : ∀ q d, C q d → s.role q ≠ .service) (hfork : ∀ r, forker = some r → s.role r ≠ .service) :
    Inv ⟨k', role', s.thread⟩ where
  sound := hsound
  past := fun t th ht => (h.past t th ht).moves hmoves
  present := fun t th ht => by
    have hpast := h.past t th ht
    refine (h.present t th ht).moves hmoves hpast.born (fun d f hc => ?_)
      (fun _ => Stage.owned_of_inherited) (fun _ => Stage.owned_of_lock) fun _ hf => ?_
    · exact absurd hpast.service (hC _ _ hc)
    · exact hfork _ hf hpast.service
  linked := h.linked
  disjoint := h.disjoint
  main := h.main
  leased := h.leased

/-- A step of a thread: it closes what it has open, and forks when the service is leased. -/
theorem act (ht : s.thread t = some th) (hmoves : Moves s.kernel k' s.role role' forker C)
    (hsound : k'.Sound) (hC : ∀ q d, C q d → ∃ f, (d, f) ∈ th.stage.owned)
    (hfork : ∀ r, forker = some r → s.Leased r) (hprocess : th'.process = th.process)
    (hpast : Past k' role' th') (hpresent : Present k' th'.process th'.stage) (hlinked : th'.Linked)
    (hclaims : ∀ d, th'.Claims d → th.Claims d ∨ s.kernel.opened ≤ d)
    (hmain : th'.stage.main = true → th.stage.main = true)
    (hstay : ∀ d, th.stage ≠ .leased d)
    (hleased : th'.stage.main = false →
      th'.stage ≠ .ended ∨ th'.worker ≠ none ∨ th'.tools ≠ [] → s.Leased th.process) :
    Inv ⟨k', role', Function.update s.thread t (some th')⟩ := by
  have hthread : ∀ {P : ℕ → Thread → Prop}, P t th' →
      (∀ u uh, u ≠ t → s.thread u = some uh → P u uh) →
      ∀ u uh, Function.update s.thread t (some th') u = some uh → P u uh := by
    intro P hself hother u uh hu
    by_cases hut : u = t
    · subst hut
      rw [Function.update_self, Option.some.injEq] at hu
      exact hu ▸ hself
    · rw [Function.update_of_ne hut] at hu
      exact hother u uh hut hu
  have hkeep : ∀ p, s.Leased p →
      System.Leased ⟨k', role', Function.update s.thread t (some th')⟩ p := by
    rintro p ⟨m, main, d, hm, hmp, hms⟩
    refine ⟨m, main, d, ?_, hmp, hms⟩
    have hne : m ≠ t := by
      rintro rfl
      rw [ht, Option.some.injEq] at hm
      exact hstay d (hm ▸ hms)
    show Function.update s.thread t (some th') m = some main
    rw [Function.update_of_ne hne, hm]
  have hnew : ∀ u uh d, u ≠ t → s.thread u = some uh → uh.Claims d → ¬ th'.Claims d := by
    intro u uh d hne hu hd hd'
    obtain hold | hfresh := hclaims d hd'
    · exact hne (h.disjoint u t uh th d hu ht hd hold)
    · exact absurd (h.lt_of_claims hu hd) (by omega)
  refine ⟨hsound, hthread hpast fun u uh _ hu => (h.past u uh hu).moves hmoves,
    hthread hpresent fun u uh hut hu => ?_, hthread hlinked fun u uh _ hu => h.linked u uh hu,
    fun u v uh vh d hu hv => ?_, fun u v uh vh hu hv => ?_,
    hthread (fun hm hl => ?_) fun u uh _ hu hm hl => hkeep _ (h.leased u uh hu hm hl)⟩
  · refine (h.present u uh hu).moves hmoves (h.past u uh hu).born (fun d f hc hd => ?_)
      (fun _ => Stage.owned_of_inherited) (fun _ => Stage.owned_of_lock) fun hun hf => ?_
    · obtain ⟨f', hf'⟩ := hC _ d hc
      exact hut (h.disjoint u t uh th d hu ht (.inl ⟨f, hd⟩) (.inl ⟨f', hf'⟩))
    · -- only a leased service forks, and it has one thread that acquires
      obtain ⟨m, main, d, hm, hmp, hms⟩ := hfork _ hf
      have hmu : m = u := by
        refine h.main m u main uh hm hu (by rw [hms]; rfl) ?_ hmp
        generalize uh.stage = st at hun
        cases st <;> simp_all [Stage.unleased, Stage.main, Stage.phase]
      subst hmu
      rw [hm, Option.some.injEq] at hu
      subst hu
      simp [hms, Stage.unleased] at hun
  · revert v vh
    refine hthread (P := fun u uh => ∀ v vh, Function.update s.thread t (some th') v = some vh →
      uh.Claims d → vh.Claims d → u = v) ?_ ?_ u uh hu
    · refine hthread (fun _ _ => rfl) fun v vh hvt hv hd hd' => ?_
      exact absurd hd (hnew v vh d hvt hv hd')
    · intro u uh hut hu
      refine hthread (fun hd hd' => ?_) fun v vh _ hv => h.disjoint u v uh vh d hu hv
      exact absurd hd' (hnew u uh d hut hu hd)
  · revert v vh
    refine hthread (P := fun u uh => ∀ v vh, Function.update s.thread t (some th') v = some vh →
      uh.stage.main = true → vh.stage.main = true → uh.process = vh.process → u = v) ?_ ?_ u uh hu
    · refine hthread (fun _ _ _ => rfl) fun v vh _ hv hm hm' hp => ?_
      exact h.main t v th vh ht hv (hmain hm) hm' (hprocess ▸ hp)
    · intro u uh hut hu
      refine hthread (fun hm hm' hp => ?_) fun v vh _ hv => h.main u v uh vh hu hv
      exact h.main u t uh th hu ht hm (hmain hm') (hp.trans hprocess)
  · rw [hprocess]
    exact hkeep _ (hleased hm hl)

end Inv

end Ocvpn.Lifetime
