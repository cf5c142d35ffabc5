import Mathlib

/-!
# Processes that share open files

A `Kernel` is what the system knows of processes, of the files they have open and of exclusive
locks.  A file that is opened gets a *description*; processes hold descriptions, each with a
close-on-exec flag, and a process that is forked holds what its parent holds.  A lock belongs to the
description and is gone when no process holds that any more.

Nothing is ever used twice: the numbers of processes and descriptions only grow.

## Main results

* `Kernel.Sound.exclusive` and its preservation: of one file, at most one description that is held
  has the lock.
* `Frame` : what an operation can change of a tree of processes, with one lemma for each operation.
* `Frame.tied`, `Frame.gone` : a tree that is tied to a description stays tied to it, and a tree
  that is gone stays gone.
* `Sound.alone` : trees that are tied to locked descriptions of one file are not alive together.
-/

namespace Ocvpn.Locks

/-- Processes and open files. -/
structure Kernel (F : Type*) where
  /-- The number of processes so far. -/
  born : ℕ
  parent : ℕ → Option ℕ
  alive : ℕ → Bool
  /-- The descriptions that a process holds, and whether `exec` closes them. -/
  held : ℕ → ℕ → Option Bool
  /-- The number of descriptions so far. -/
  opened : ℕ
  file : ℕ → Option F
  locked : ℕ → Bool

namespace Kernel

variable {F : Type*}

def empty : Kernel F where
  born := 0
  parent := fun _ => none
  alive := fun _ => false
  held := fun _ _ => none
  opened := 0
  file := fun _ => none
  locked := fun _ => false

variable (k : Kernel F)

/-! ### Operations -/

/-- The descriptors after one has changed. -/
def change (p d : ℕ) (f : Option Bool) : ℕ → ℕ → Option Bool :=
  Function.update k.held p (Function.update (k.held p) d f)

theorem change_apply (p d q e : ℕ) (f : Option Bool) :
    k.change p d f q e = if q = p ∧ e = d then f else k.held q e := by
  by_cases hq : q = p
  · subst hq
    rw [change, Function.update_self, Function.update_apply]
    simp
  · rw [change, Function.update_of_ne hq, if_neg fun hc => hq hc.1]

/-- A process without a parent here. -/
def boot : Kernel F :=
  { k with
    born := k.born + 1
    alive := Function.update k.alive k.born true }

def fork (p : ℕ) : Kernel F :=
  { k with
    born := k.born + 1
    parent := Function.update k.parent k.born (some p)
    alive := Function.update k.alive k.born true
    held := Function.update k.held k.born (k.held p) }

def exec (p : ℕ) : Kernel F :=
  { k with held := Function.update k.held p fun d => (k.held p d).filter (!·) }

def exit (p : ℕ) : Kernel F :=
  { k with
    alive := Function.update k.alive p false
    held := Function.update k.held p fun _ => none }

/-- `open`, with close-on-exec; the description is number `k.opened`. -/
def openFile (p : ℕ) (f : F) : Kernel F :=
  { k with
    opened := k.opened + 1
    file := Function.update k.file k.opened (some f)
    locked := Function.update k.locked k.opened false
    held := k.change p k.opened (some true) }

/-- Clear the close-on-exec flag. -/
def inherit (p d : ℕ) : Kernel F :=
  { k with held := k.change p d (some false) }

def close (p : ℕ) (ds : List ℕ) : Kernel F :=
  { k with held := fun q d => if q = p ∧ d ∈ ds then none else k.held q d }

def lock (d : ℕ) : Kernel F := { k with locked := Function.update k.locked d true }

/-- No other description of the file that is held has the lock. -/
def Free (d : ℕ) : Prop :=
  ∀ q < k.born, ∀ e < k.opened, e ≠ d ∧ k.file e = k.file d ∧ k.locked e = true → k.held q e = none

instance [DecidableEq F] (d : ℕ) : Decidable (k.Free d) :=
  inferInstanceAs (Decidable (∀ q < k.born, ∀ e < k.opened, _ → k.held q e = none))

/-! What each of them changes. -/

@[simp] theorem boot_born : k.boot.born = k.born + 1 := rfl
@[simp] theorem boot_alive : k.boot.alive = Function.update k.alive k.born true := rfl
@[simp] theorem fork_born (p : ℕ) : (k.fork p).born = k.born + 1 := rfl
@[simp] theorem fork_parent (p : ℕ) :
    (k.fork p).parent = Function.update k.parent k.born (some p) := rfl
@[simp] theorem fork_alive (p : ℕ) : (k.fork p).alive = Function.update k.alive k.born true := rfl
@[simp] theorem fork_held (p : ℕ) :
    (k.fork p).held = Function.update k.held k.born (k.held p) := rfl
@[simp] theorem exec_held (p : ℕ) :
    (k.exec p).held = Function.update k.held p fun d => (k.held p d).filter (!·) := rfl
@[simp] theorem exit_alive (p : ℕ) : (k.exit p).alive = Function.update k.alive p false := rfl
@[simp] theorem exit_held (p : ℕ) : (k.exit p).held = Function.update k.held p fun _ => none := rfl
@[simp] theorem openFile_held (p : ℕ) (f : F) :
    (k.openFile p f).held = k.change p k.opened (some true) := rfl
@[simp] theorem openFile_opened (p : ℕ) (f : F) : (k.openFile p f).opened = k.opened + 1 := rfl
@[simp] theorem openFile_file (p : ℕ) (f : F) :
    (k.openFile p f).file = Function.update k.file k.opened (some f) := rfl
@[simp] theorem openFile_locked (p : ℕ) (f : F) :
    (k.openFile p f).locked = Function.update k.locked k.opened false := rfl
@[simp] theorem inherit_held (p d : ℕ) : (k.inherit p d).held = k.change p d (some false) := rfl
@[simp] theorem close_held (p q d : ℕ) (ds : List ℕ) :
    (k.close p ds).held q d = if q = p ∧ d ∈ ds then none else k.held q d := rfl
@[simp] theorem lock_locked (d : ℕ) : (k.lock d).locked = Function.update k.locked d true := rfl

/-! ### Trees -/

/-- `q` is `p`, or was forked in the tree of `p`. -/
inductive Descends (p : ℕ) : ℕ → Prop
  | self : Descends p p
  | child {q r : ℕ} (hparent : k.parent q = some r) (h : Descends p r) : Descends p q

/-- Every live process of the tree holds the description, and so will what it executes. -/
def Tied (p d : ℕ) : Prop := ∀ q, k.Descends p q → k.alive q = true → k.held q d = some false

/-- No process of the tree is alive. -/
def Gone (p : ℕ) : Prop := ∀ q, k.Descends p q → k.alive q = false

/-- The tree has one process. -/
def Leaf (p : ℕ) : Prop := ∀ q, k.Descends p q → q = p

/-- What the numbers and the locks promise. -/
structure Sound : Prop where
  unborn : ∀ q, k.born ≤ q → k.alive q = false ∧ k.parent q = none
  older : ∀ q p, k.parent q = some p → p < q
  exited : ∀ q d, k.alive q = false → k.held q d = none
  unopened : ∀ q d, k.opened ≤ d → k.held q d = none
  exclusive : ∀ d e, k.file d = k.file e → k.locked d = true → k.locked e = true →
    (∃ q, k.held q d ≠ none) → (∃ q, k.held q e ≠ none) → d = e

end Kernel

open Kernel

variable {F : Type*} {k k' : Kernel F} {p q r d e : ℕ}

namespace Kernel.Sound

variable (h : k.Sound)

include h

theorem alive_of_held (hd : k.held q d ≠ none) : k.alive q = true := by
  by_contra hq
  exact hd (h.exited q d (by simpa using hq))

theorem lt_of_alive (hq : k.alive q = true) : q < k.born := by
  by_contra hlt
  exact absurd hq (by simp [(h.unborn q (by omega)).1])

theorem lt_of_held (hd : k.held q d ≠ none) : d < k.opened := by
  by_contra hlt
  exact hd (h.unopened q d (by omega))

theorem lt_of_child (hq : k.parent q = some p) : p < k.born := by
  have hlt := h.older q p hq
  by_contra hp
  exact absurd hq (by simp [(h.unborn q (by omega)).2])

/-- A process that is not born is nobody's child. -/
theorem descends_unborn (hq : k.born ≤ q) (hd : k.Descends p q) : q = p := by
  obtain _ | ⟨hparent, -⟩ := hd
  · rfl
  · exact absurd hparent (by simp [(h.unborn q hq).2])

/-- **Trees that are tied to locked descriptions of one file** are not alive together. -/
theorem alone (hd : k.Tied p d) (he : k.Tied q e) (hfile : k.file d = k.file e)
    (hlocked : k.locked d = true) (hlocked' : k.locked e = true) {a b : ℕ} (ha : k.Descends p a)
    (hb : k.Descends q b) (halive : k.alive a = true) (halive' : k.alive b = true) : d = e :=
  h.exclusive d e hfile hlocked hlocked' ⟨a, by simp [hd a ha halive]⟩
    ⟨b, by simp [he b hb halive']⟩

/-- A description with the lock that nothing of a tied tree has: the tree is gone. -/
theorem gone (hd : k.Tied p d) (hfile : k.file d = k.file e) (hlocked : k.locked d = true)
    (hlocked' : k.locked e = true) (he : k.held r e ≠ none) (hne : d ≠ e) : k.Gone p := by
  intro q hq
  by_contra halive
  have hq' := hd q hq (by simpa using halive)
  exact hne (h.exclusive d e hfile hlocked hlocked' ⟨q, by simp [hq']⟩ ⟨r, he⟩)

end Kernel.Sound

/-! ### Frames -/

/-- What may change from `k` to `k'`: only the descriptors in `C` are closed, and only the process
`forker` is forked. -/
structure Frame (k k' : Kernel F) (forker : Option ℕ) (C : ℕ → ℕ → Prop) : Prop where
  born : k.born ≤ k'.born
  opened : k.opened ≤ k'.opened
  file : ∀ d < k.opened, k'.file d = k.file d
  locked : ∀ d < k.opened, k.locked d = true → k'.locked d = true
  alive : ∀ q < k.born, k'.alive q = true → k.alive q = true
  held : ∀ q < k.born, ∀ d b, k.held q d = some b → k'.alive q = true → ¬ C q d →
    ∃ b', k'.held q d = some b' ∧ (b = false → b' = false)
  tree : ∀ p < k.born, ∀ q, k'.Descends p q → (q < k.born ∧ k.Descends p q) ∨
    ∃ r, forker = some r ∧ k.Descends p r ∧ k.alive r = true ∧ k'.held q = k.held r

namespace Frame

variable {forker : Option ℕ} {C : ℕ → ℕ → Prop} (h : Frame k k' forker C)

include h

theorem mono {C' : ℕ → ℕ → Prop} (hC : ∀ q d, C q d → C' q d) : Frame k k' forker C' :=
  { h with held := fun q hq d b hb ha hC' => h.held q hq d b hb ha fun hc => hC' (hC q d hc) }

/-- **A tied tree stays tied**, unless one of its descriptors of the description is closed. -/
theorem tied (ht : k.Tied p d) (hp : p < k.born)
    (hC : ∀ q, k.Descends p q → C q d → k.held q d ≠ some false) : k'.Tied p d := by
  intro q hq ha
  obtain ⟨hlt, hq⟩ | ⟨r, -, hr, har, hsame⟩ := h.tree p hp q hq
  · have hheld := ht q hq (h.alive q hlt ha)
    obtain ⟨b', hb', himp⟩ := h.held q hlt d false hheld ha fun hc => hC q hq hc hheld
    rw [hb', himp rfl]
  · rw [hsame]
    exact ht r hr har

/-- **A tree that is gone stays gone.** -/
theorem gone (hg : k.Gone p) (hp : p < k.born) : k'.Gone p := by
  intro q hq
  by_contra ha
  obtain ⟨hlt, hq⟩ | ⟨r, -, hr, har, -⟩ := h.tree p hp q hq
  · exact absurd (h.alive q hlt (by simpa using ha)) (by simp [hg q hq])
  · exact absurd har (by simp [hg r hr])

theorem leaf (hl : k.Leaf p) (hp : p < k.born) (hf : forker ≠ some p) : k'.Leaf p := by
  intro q hq
  obtain ⟨-, hq⟩ | ⟨r, hr, hpr, -⟩ := h.tree p hp q hq
  · exact hl q hq
  · exact absurd (hr.trans (congrArg some (hl r hpr))) hf

theorem hold {b : Bool} (hd : k.held q d = some b) (ha : k'.alive q = true) (hq : q < k.born)
    (hC : ¬ C q d) : ∃ b', k'.held q d = some b' ∧ (b = false → b' = false) :=
  h.held q hq d b hd ha hC

end Frame

/-- The trees are the same. -/
theorem Kernel.Descends.of_parent (h : k'.Descends p q) (hparent : k'.parent = k.parent) :
    k.Descends p q := by
  induction h with
  | self => exact .self
  | child hp _ ih => exact .child (hparent ▸ hp) ih

theorem Kernel.Descends.trans (h : k.Descends p q) (h' : k.Descends q r) : k.Descends p r := by
  induction h' with
  | self => exact h
  | child hparent _ ih => exact .child hparent ih

/-- Nothing is born and nothing is opened. -/
theorem Frame.inside {C : ℕ → ℕ → Prop} (h : k.Sound) (hborn : k'.born = k.born)
    (hparent : k'.parent = k.parent) (hopened : k'.opened = k.opened) (hfile : k'.file = k.file)
    (hlocked : ∀ d, k.locked d = true → k'.locked d = true)
    (halive : ∀ q, k'.alive q = true → k.alive q = true)
    (hheld : ∀ q d b, k.held q d = some b → k'.alive q = true → ¬ C q d →
      ∃ b', k'.held q d = some b' ∧ (b = false → b' = false)) : Frame k k' none C where
  born := hborn.ge
  opened := hopened.ge
  file := fun d _ => by rw [hfile]
  locked := fun d _ => hlocked d
  alive := fun q _ => halive q
  held := fun q _ => hheld q
  tree := fun p hp q hq => by
    replace hq := hq.of_parent hparent
    refine .inl ⟨?_, hq⟩
    by_contra hlt
    exact hlt (h.descends_unborn (by omega) hq ▸ hp)

/-! ### Operations, one by one -/

namespace Kernel

/-- Nothing is closed. -/
def keepAll : ℕ → ℕ → Prop := fun _ _ => False

variable (h : k.Sound)

theorem Leaf.tied (hl : k.Leaf p) (hd : k.held p d = some false) : k.Tied p d := by
  intro q hq _
  rw [hl q hq, hd]

section Births

include h

theorem frame_boot : Frame k k.boot none keepAll where
  born := Nat.le_succ _
  opened := Nat.le_refl _
  file := fun _ _ => rfl
  locked := fun _ _ => id
  alive := fun q hq ha => by
    rwa [boot_alive, Function.update_of_ne hq.ne] at ha
  held := fun q _ d b hb _ _ => ⟨b, hb, id⟩
  tree := fun p hp q hq => by
    replace hq : k.Descends p q := hq.of_parent rfl
    refine .inl ⟨?_, hq⟩
    by_contra hlt
    exact hlt (h.descends_unborn (by omega) hq ▸ hp)

theorem sound_boot : k.boot.Sound where
  unborn := fun q hq => by
    have hlt : k.born < q := hq
    refine ⟨?_, (h.unborn q hlt.le).2⟩
    rw [boot_alive, Function.update_of_ne hlt.ne']
    exact (h.unborn q hlt.le).1
  older := h.older
  exited := fun q d ha => by
    by_cases hq : q = k.born
    · subst hq
      simp at ha
    · rw [boot_alive, Function.update_of_ne hq] at ha
      exact h.exited q d ha
  unopened := h.unopened
  exclusive := h.exclusive

theorem leaf_born {q : ℕ} (hq : k.Descends k.born q) : q = k.born := by
  induction hq with
  | self => rfl
  | child hparent _ ih =>
    subst ih
    exact absurd (h.lt_of_child hparent) (Nat.lt_irrefl _)

theorem leaf_boot : k.boot.Leaf k.born :=
  fun _ hq => leaf_born h (hq.of_parent rfl)

theorem descends_fork (hp : p < k.born) (hr : r < k.born) (hq : (k.fork r).Descends p q) :
    (q < k.born ∧ k.Descends p q) ∨ (q = k.born ∧ k.Descends p r) := by
  induction hq with
  | self => exact .inl ⟨hp, .self⟩
  | @child q s hparent _ ih =>
    by_cases hqb : q = k.born
    · subst hqb
      rw [fork_parent, Function.update_self, Option.some.injEq] at hparent
      subst hparent
      obtain ⟨-, hs⟩ | ⟨rfl, -⟩ := ih
      · exact .inr ⟨rfl, hs⟩
      · exact absurd hr (Nat.lt_irrefl _)
    · rw [fork_parent, Function.update_of_ne hqb] at hparent
      have hlt : q < k.born := by
        by_contra hlt
        exact absurd hparent (by simp [(h.unborn q (by omega)).2])
      obtain ⟨-, hs⟩ | ⟨rfl, -⟩ := ih
      · exact .inl ⟨hlt, .child hparent hs⟩
      · exact absurd (h.lt_of_child hparent) (Nat.lt_irrefl _)

theorem frame_fork (hr : k.alive r = true) : Frame k (k.fork r) (some r) keepAll where
  born := Nat.le_succ _
  opened := Nat.le_refl _
  file := fun _ _ => rfl
  locked := fun _ _ => id
  alive := fun q hq ha => by
    rwa [fork_alive, Function.update_of_ne hq.ne] at ha
  held := fun q hq d b hb _ _ => by
    refine ⟨b, ?_, id⟩
    rw [fork_held, Function.update_of_ne hq.ne]
    exact hb
  tree := fun p hp q hq => by
    obtain hq | ⟨rfl, hr'⟩ := descends_fork h hp (h.lt_of_alive hr) hq
    · exact .inl hq
    · exact .inr ⟨r, rfl, hr', hr, Function.update_self _ _ _⟩

theorem leaf_fork : (k.fork r).Leaf k.born := by
  intro q hq
  induction hq with
  | self => rfl
  | @child q s hparent _ ih =>
    subst ih
    by_cases hqb : q = k.born
    · exact hqb
    · rw [fork_parent, Function.update_of_ne hqb] at hparent
      exact absurd (h.lt_of_child hparent) (Nat.lt_irrefl _)

theorem sound_fork (hr : k.alive r = true) : (k.fork r).Sound where
  unborn := fun q hq => by
    have hlt : k.born < q := hq
    rw [fork_alive, fork_parent, Function.update_of_ne hlt.ne', Function.update_of_ne hlt.ne']
    exact h.unborn q hlt.le
  older := fun q p hparent => by
    by_cases hq : q = k.born
    · subst hq
      rw [fork_parent, Function.update_self, Option.some.injEq] at hparent
      exact hparent ▸ h.lt_of_alive hr
    · rw [fork_parent, Function.update_of_ne hq] at hparent
      exact h.older q p hparent
  exited := fun q d ha => by
    by_cases hq : q = k.born
    · subst hq
      simp at ha
    · rw [fork_alive, Function.update_of_ne hq] at ha
      rw [fork_held, Function.update_of_ne hq]
      exact h.exited q d ha
  unopened := fun q d hd => by
    by_cases hq : q = k.born
    · subst hq
      rw [fork_held, Function.update_self]
      exact h.unopened r d hd
    · rw [fork_held, Function.update_of_ne hq]
      exact h.unopened q d hd
  exclusive := fun d e hfile hd he hheld hheld' => by
    -- the child holds what its parent holds
    have hold : ∀ d, (∃ q, (k.fork r).held q d ≠ none) → ∃ q, k.held q d ≠ none := by
      rintro d ⟨q, hq⟩
      by_cases hqb : q = k.born
      · subst hqb
        rw [fork_held, Function.update_self] at hq
        exact ⟨r, hq⟩
      · rw [fork_held, Function.update_of_ne hqb] at hq
        exact ⟨q, hq⟩
    exact h.exclusive d e hfile hd he (hold d hheld) (hold e hheld')

end Births

section Descriptors

include h

/-- An operation that gives nobody a description. -/
theorem Sound.fewer (hborn : k'.born = k.born) (hparent : k'.parent = k.parent)
    (hopened : k'.opened = k.opened) (hfile : k'.file = k.file) (hlocked : k'.locked = k.locked)
    (halive : ∀ q, k'.alive q = true → k.alive q = true)
    (hexit : ∀ q d, k'.alive q = false → k'.held q d = none)
    (hheld : ∀ q d, k'.held q d ≠ none → k.held q d ≠ none) : k'.Sound where
  unborn := fun q hq => by
    rw [hborn] at hq
    refine ⟨?_, by rw [hparent, (h.unborn q hq).2]⟩
    by_contra ha
    exact absurd (halive q (by simpa using ha)) (by simp [(h.unborn q hq).1])
  older := hparent ▸ h.older
  exited := hexit
  unopened := fun q d hd => by
    by_contra hne
    exact hheld q d hne (h.unopened q d (hopened ▸ hd))
  exclusive := fun d e hf hd he hheld' hheld'' => by
    rw [hfile] at hf
    rw [hlocked] at hd he
    obtain ⟨a, ha⟩ := hheld'
    obtain ⟨b, hb⟩ := hheld''
    exact h.exclusive d e hf hd he ⟨a, hheld a d ha⟩ ⟨b, hheld b e hb⟩

theorem frame_exec : Frame k (k.exec p) none fun q d => q = p ∧ k.held q d = some true := by
  refine .inside h rfl rfl rfl rfl (fun _ => id) (fun _ => id) fun q d b hb _ hC => ?_
  by_cases hq : q = p
  · subst hq
    have hb' : b = false := by
      by_contra hb'
      exact hC ⟨rfl, by rw [hb, Bool.eq_true_of_not_eq_false hb']⟩
    subst hb'
    refine ⟨false, ?_, id⟩
    rw [exec_held, Function.update_self, hb]
    rfl
  · refine ⟨b, ?_, id⟩
    rw [exec_held, Function.update_of_ne hq]
    exact hb

theorem sound_exec : (k.exec p).Sound := by
  refine h.fewer rfl rfl rfl rfl rfl (fun _ => id) (fun q d ha => ?_) fun q d hd => ?_
  · have hnone := h.exited q d ha
    by_cases hq : q = p
    · subst hq
      rw [exec_held, Function.update_self, hnone]
      rfl
    · rw [exec_held, Function.update_of_ne hq]
      exact hnone
  · by_cases hq : q = p
    · subst hq
      rintro hnone
      rw [exec_held, Function.update_self, hnone] at hd
      exact hd rfl
    · rwa [exec_held, Function.update_of_ne hq] at hd

theorem frame_exit : Frame k (k.exit p) none keepAll := by
  have hne : ∀ q, (k.exit p).alive q = true → q ≠ p := by
    rintro q ha rfl
    simp at ha
  refine .inside h rfl rfl rfl rfl (fun _ => id) (fun q ha => ?_) fun q d b hb ha _ => ?_
  · rwa [exit_alive, Function.update_of_ne (hne q ha)] at ha
  · refine ⟨b, ?_, id⟩
    rw [exit_held, Function.update_of_ne (hne q ha)]
    exact hb

theorem sound_exit : (k.exit p).Sound := by
  refine h.fewer rfl rfl rfl rfl rfl (fun q ha => ?_) (fun q d ha => ?_) fun q d hd => ?_
  · by_cases hq : q = p
    · subst hq
      simp at ha
    · rwa [exit_alive, Function.update_of_ne hq] at ha
  · by_cases hq : q = p
    · subst hq
      simp
    · rw [exit_alive, Function.update_of_ne hq] at ha
      rw [exit_held, Function.update_of_ne hq]
      exact h.exited q d ha
  · by_cases hq : q = p
    · subst hq
      simp at hd
    · rwa [exit_held, Function.update_of_ne hq] at hd

theorem frame_inherit : Frame k (k.inherit p d) none keepAll := by
  refine .inside h rfl rfl rfl rfl (fun _ => id) (fun _ => id) fun q e b hb _ _ => ?_
  rw [inherit_held, change_apply]
  split_ifs
  · exact ⟨false, rfl, fun _ => rfl⟩
  · exact ⟨b, hb, id⟩

theorem sound_inherit (hd : k.held p d ≠ none) : (k.inherit p d).Sound := by
  refine h.fewer rfl rfl rfl rfl rfl (fun _ => id) (fun q e ha => ?_) fun q e he => ?_
  · rw [inherit_held, change_apply]
    split_ifs with hq
    · exact absurd (hq.1 ▸ h.alive_of_held hd) (by simp [show k.alive q = false from ha])
    · exact h.exited q e ha
  · rw [inherit_held, change_apply] at he
    split_ifs at he with hq
    · exact hq.1 ▸ hq.2 ▸ hd
    · exact he

theorem frame_close {ds : List ℕ} : Frame k (k.close p ds) none fun q e => q = p ∧ e ∈ ds := by
  refine .inside h rfl rfl rfl rfl (fun _ => id) (fun _ => id) fun q e b hb _ hC => ?_
  rw [close_held, if_neg hC]
  exact ⟨b, hb, id⟩

theorem sound_close {ds : List ℕ} : (k.close p ds).Sound := by
  refine h.fewer rfl rfl rfl rfl rfl (fun _ => id) (fun q e ha => ?_) fun q e he => ?_
  · rw [close_held]
    split_ifs
    · rfl
    · exact h.exited q e ha
  · rw [close_held] at he
    split_ifs at he
    · exact absurd rfl he
    · exact he

theorem frame_openFile {f : F} : Frame k (k.openFile p f) none keepAll where
  born := Nat.le_refl _
  opened := Nat.le_succ _
  file := fun d hd => Function.update_of_ne hd.ne _ _
  locked := fun d hd hl => by
    rw [openFile_locked, Function.update_of_ne hd.ne]
    exact hl
  alive := fun _ _ => id
  held := fun q _ d b hb _ _ => by
    have hne : d ≠ k.opened := (h.lt_of_held (q := q) (by simp [hb])).ne
    rw [openFile_held, change_apply, if_neg fun hc => hne hc.2]
    exact ⟨b, hb, id⟩
  tree := fun p' hp' q hq => by
    replace hq : k.Descends p' q := hq.of_parent rfl
    refine .inl ⟨?_, hq⟩
    by_contra hlt
    exact hlt (h.descends_unborn (by omega) hq ▸ hp')

theorem sound_openFile {f : F} (hp : k.alive p = true) : (k.openFile p f).Sound where
  unborn := h.unborn
  older := h.older
  exited := fun q d ha => by
    rw [openFile_held, change_apply]
    split_ifs with hq
    · exact absurd (hq.1 ▸ hp) (by simp [show k.alive q = false from ha])
    · exact h.exited q d ha
  unopened := fun q d hd => by
    have hlt : k.opened < d := hd
    rw [openFile_held, change_apply, if_neg fun hc => hlt.ne' hc.2]
    exact h.unopened q d hlt.le
  exclusive := fun d e hfile hd he hheld hheld' => by
    -- the new description has no lock
    have hne : ∀ d, (k.openFile p f).locked d = true → d ≠ k.opened := by
      rintro d hd rfl
      simp at hd
    have hold : ∀ d, d ≠ k.opened → (∃ q, (k.openFile p f).held q d ≠ none) →
        ∃ q, k.held q d ≠ none := by
      rintro d hd ⟨q, hq⟩
      rw [openFile_held, change_apply, if_neg fun hc => hd hc.2] at hq
      exact ⟨q, hq⟩
    have hd' := hne d hd
    have he' := hne e he
    rw [openFile_locked, Function.update_of_ne hd'] at hd
    rw [openFile_locked, Function.update_of_ne he'] at he
    rw [openFile_file, Function.update_of_ne hd', Function.update_of_ne he'] at hfile
    exact h.exclusive d e hfile hd he (hold d hd' hheld) (hold e he' hheld')

theorem frame_lock : Frame k (k.lock d) none keepAll := by
  refine .inside h rfl rfl rfl rfl (fun e he => ?_) (fun _ => id) fun q e b hb _ _ => ⟨b, hb, id⟩
  rw [lock_locked, Function.update_apply]
  split_ifs
  · rfl
  · exact he

/-- **A lock that is free can be taken.** -/
theorem sound_lock (hd : k.Free d) : (k.lock d).Sound where
  unborn := h.unborn
  older := h.older
  exited := h.exited
  unopened := h.unopened
  exclusive := fun a b hfile ha hb hheld hheld' => by
    have hfree : ∀ e, e ≠ d → k.file e = k.file d → (k.lock d).locked e = true →
        (∃ q, k.held q e ≠ none) → False := by
      rintro e hne hfile hl ⟨q, hq⟩
      rw [lock_locked, Function.update_of_ne hne] at hl
      exact hq (hd q (h.lt_of_alive (h.alive_of_held hq)) e (h.lt_of_held hq) ⟨hne, hfile, hl⟩)
    by_contra hne
    by_cases had : a = d
    · subst had
      exact hfree b (Ne.symm hne) hfile.symm hb hheld'
    · by_cases hbd : b = d
      · subst hbd
        exact hfree a hne hfile ha hheld
      · rw [lock_locked, Function.update_of_ne had] at ha
        rw [lock_locked, Function.update_of_ne hbd] at hb
        exact hne (h.exclusive a b hfile ha hb hheld hheld')

end Descriptors

end Kernel

end Ocvpn.Locks
