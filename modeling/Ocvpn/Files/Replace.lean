import Ocvpn.Files.Basic

/-!
# Replacing a file

The usual way to replace a file: write a temporary one, sync it, give it the name, and sync the
directory.  `Staged` is the time before the file has the name, `Replaced` the time after; up to the
end a power failure leaves the old file or the new one (`Partly`).

## Main results

* `Staged.append`, `Staged.sync` : writing the temporary file.
* `Staged.rename`, `Staged.link` : it gets the name.
* `Replaced.syncDir` : the new file is all that is left.
* `Alone.staged` : a temporary file that is left over can be used again.
* `Within.partly`, `Within.replaced`, `Within.lose` : what is left after many such operations.
-/

namespace Ocvpn.Files

variable {N β : Type*} {d₀ d : Dir N β} {a b n : N} {i : ℕ} {x : Inode β} {data : List β}

/-- The name has what it had, as far as anybody can tell. -/
structure Same (d₀ d : Dir N β) (n : N) : Prop where
  read : d.read n = d₀.read n
  may : ∀ c, d.May n c → d₀.May n c

theorem Same.refl (d : Dir N β) (n : N) : Same d d n := ⟨rfl, fun _ => id⟩

theorem Same.trans {d₁ : Dir N β} (h : Same d₀ d₁ n) (h' : Same d₁ d n) : Same d₀ d n :=
  ⟨h'.read.trans h.read, fun c hc => h.may c (h'.may c hc)⟩

/-- The file `x` is under the name `a` and was under no other name. -/
structure Staged (d₀ d : Dir N β) (a : N) (i : ℕ) (x : Inode β) : Prop where
  others : ∀ n, n ≠ a → Same d₀ d n
  apart : ∀ n, n ≠ a → d.Apart n i
  entry : d.entries a = some i
  inode : d.inodes[i]? = some x

/-- The name `b` has the new file, whose data are synced; the directory may not be. -/
structure Replaced (d₀ d : Dir N β) (a b : N) (data : List β) : Prop where
  others : ∀ n, n ≠ a → n ≠ b → Same d₀ d n
  read : d.read b = some data
  may : ∀ c, d.May b c → d₀.May b c ∨ c = some data
  synced : ∀ (i : ℕ) (x : Inode β), d.entries b = some i → d.inodes[i]? = some x → x.synced = true

/-- The name `b` has the old file or the new one, now and after a power failure. -/
structure Partly (d₀ d : Dir N β) (a b : N) (data : List β) : Prop where
  others : ∀ n, n ≠ a → n ≠ b → Same d₀ d n
  read : d.read b = d₀.read b ∨ d.read b = some data
  may : ∀ c, d.May b c → d₀.May b c ∨ c = some data

theorem Partly.refl (d : Dir N β) (a b : N) (data : List β) : Partly d d a b data :=
  ⟨fun n _ _ => .refl d n, .inl rfl, fun _ => .inl⟩

/-- Only the name `a` has changed. -/
theorem Partly.of_same (h : ∀ n, n ≠ a → Same d₀ d n) (hne : a ≠ b) : Partly d₀ d a b data :=
  ⟨fun n ha _ => h n ha, .inl (h b hne.symm).read, fun c hc => .inl ((h b hne.symm).may c hc)⟩

theorem Replaced.partly (h : Replaced d₀ d a b data) : Partly d₀ d a b data :=
  ⟨h.others, .inr h.read, h.may⟩

namespace Staged

variable (h : Staged d₀ d a i x)

include h

theorem partly (hne : a ≠ b) : Partly d₀ d a b data := .of_same h.others hne

/-- The temporary file changes. -/
theorem changeFile (f : Inode β → Inode β) : Staged d₀ (d.changeFile i f) a i (f x) where
  others := by
    intro n hn
    refine (h.others n hn).trans ⟨Dir.read_changeFile ?_, fun c hc => Dir.may_changeFile hc ?_⟩
    · exact h.apart n hn d.entries List.mem_cons_self
    · exact h.apart n hn
  apart := h.apart
  entry := h.entry
  inode := by
    rw [Dir.changeFile_inodes, List.getElem?_modify_eq, h.inode]
    rfl

theorem append (bs : List β) : Staged d₀ (d.append i bs) a i ⟨x.data ++ bs, false⟩ :=
  h.changeFile _

theorem truncate : Staged d₀ (d.truncate i) a i ⟨[], false⟩ := h.changeFile _

theorem sync : Staged d₀ (d.sync i) a i ⟨x.data, true⟩ := h.changeFile _

theorem read : d.read a = some x.data := by
  rw [Dir.read, h.entry, Option.bind_some, h.inode]
  rfl

end Staged

section

variable [DecidableEq N]

/-- A new temporary file. -/
theorem Staged.create (d : Dir N β) (a : N) :
    Staged d (d.create a) a d.inodes.length ⟨[], false⟩ where
  others := fun n hn => ⟨Dir.read_create hn, fun c hc => Dir.may_create hc hn⟩
  apart := fun n hn => Dir.apart_create hn
  entry := by rw [Dir.create_entries, Function.update_self]
  inode := by
    rw [Dir.create_inodes, List.getElem?_append_right (Nat.le_refl _), Nat.sub_self]
    rfl

theorem Same.unlink (hn : n ≠ a) : Same d (d.unlink a) n :=
  ⟨Dir.read_unlink hn, fun _ hc => Dir.may_unlink_of_ne hc hn⟩

/-- A temporary file is removed. -/
theorem Partly.unlink (h : Partly d₀ d a b data) (hne : a ≠ b) :
    Partly d₀ (d.unlink a) a b data where
  others := fun n ha hb => (h.others n ha hb).trans (.unlink ha)
  read := by
    rw [Dir.read_unlink hne.symm]
    exact h.read
  may := fun c hc => h.may c (Dir.may_unlink_of_ne hc hne.symm)

/-- **The synced file gets the name** by moving it there. -/
theorem Staged.rename (h : Staged d₀ d a i ⟨data, true⟩) (hne : a ≠ b) :
    Replaced d₀ (d.rename a b) a b data where
  others := fun n ha hb => (h.others n ha).trans
    ⟨Dir.read_rename ha hb, fun c hc => Dir.may_rename_of_ne hc ha hb⟩
  read := by rw [Dir.read_rename_self, h.read]
  may := fun c hc => (Dir.may_rename hc h.entry h.inode rfl).imp_left
    ((h.others b hne.symm).may c)
  synced := by
    intro j y hj hy
    have hij : i = j := by
      rw [Dir.rename, Dir.changeEntries_entries, if_pos rfl, h.entry, Option.some.injEq] at hj
      exact hj
    subst hij
    obtain rfl : (⟨data, true⟩ : Inode β) = y := Option.some.inj (h.inode.symm.trans hy)
    rfl

/-- **The synced file gets the name** as a second one. -/
theorem Staged.link (h : Staged d₀ d a i ⟨data, true⟩) (hne : a ≠ b) :
    Replaced d₀ (d.link a b) a b data where
  others := fun n ha hb => (h.others n ha).trans
    ⟨Dir.read_link hb, fun c hc => Dir.may_link_of_ne hc hb⟩
  read := by rw [Dir.read_link_self, h.read]
  may := fun c hc => (Dir.may_link hc h.entry h.inode rfl).imp_left ((h.others b hne.symm).may c)
  synced := by
    intro j y hj hy
    have hij : i = j := by
      rw [Dir.link, Dir.changeEntries_entries, if_pos rfl, h.entry, Option.some.injEq] at hj
      exact hj
    subst hij
    obtain rfl : (⟨data, true⟩ : Inode β) = y := Option.some.inj (h.inode.symm.trans hy)
    rfl

namespace Replaced

theorem unlink (h : Replaced d₀ d a b data) (hne : a ≠ b) :
    Replaced d₀ (d.unlink a) a b data where
  others := fun n ha hb => (h.others n ha hb).trans (.unlink ha)
  read := by rw [Dir.read_unlink hne.symm, h.read]
  may := fun c hc => h.may c (Dir.may_unlink_of_ne hc hne.symm)
  synced := by
    intro j y hj hy
    rw [Dir.unlink, Dir.changeEntries_entries, if_neg hne.symm] at hj
    exact h.synced j y hj hy

end Replaced

end

/-- **The directory is synced**: the new file is all that is left. -/
theorem Replaced.syncDir (h : Replaced d₀ d a b data) :
    Replaced d₀ d.syncDir a b data ∧ ∀ c, d.syncDir.May b c → c = some data :=
  ⟨⟨fun n ha hb => (h.others n ha hb).trans ⟨rfl, fun _ => Dir.may_of_syncDir⟩, h.read,
    fun c hc => h.may c (Dir.may_of_syncDir hc), h.synced⟩,
    fun _ hc => (Dir.may_syncDir hc h.synced).trans h.read⟩

/-! ### A temporary file that is left over -/

/-- No other name has the file that the name has, in any of the entries, nor had it since the
directory was last synced. -/
structure Alone (d : Dir N β) (a : N) : Prop where
  entries : ∀ e ∈ d.entries :: d.past, ∀ i, e a = some i → ∀ n, n ≠ a → e n ≠ some i
  apart : ∀ i, d.entries a = some i → ∀ n, n ≠ a → d.Apart n i

theorem Alone.of_none (h : ∀ e ∈ d.entries :: d.past, e a = none) : Alone d a where
  entries := fun e he i hi => by
    rw [h e he] at hi
    cases hi
  apart := fun i hi => by
    rw [h _ List.mem_cons_self] at hi
    cases hi

/-- **A temporary file that is left over** can be used again. -/
theorem Alone.staged (h : Alone d a) (hi : d.entries a = some i) (hx : d.inodes[i]? = some x) :
    Staged d d a i x :=
  ⟨fun n _ => .refl d n, h.apart i hi, hi, hx⟩

theorem Alone.changeFile (h : Alone d a) (i : ℕ) (f : Inode β → Inode β) :
    Alone (d.changeFile i f) a := ⟨h.entries, h.apart⟩

theorem Alone.syncDir (h : Alone d a) : Alone d.syncDir a where
  entries := fun e he => by
    obtain rfl := List.mem_singleton.1 he
    exact h.entries _ List.mem_cons_self
  apart := fun i hi n hn e he => by
    obtain rfl := List.mem_singleton.1 he
    exact h.entries _ List.mem_cons_self i hi n hn

theorem Alone.lose (h : Alone d a) (k : ℕ) (fill : ℕ → List β) : Alone (d.lose k fill) a := by
  have hone : ∀ e ∈ (d.lose k fill).entries :: (d.lose k fill).past, e ∈ d.entries :: d.past := by
    intro e he
    obtain rfl := List.mem_singleton.1 he
    exact d.lose_entries_mem k fill
  refine ⟨fun e he => h.entries e (hone e he), fun i hi n hn e he => ?_⟩
  obtain rfl := List.mem_singleton.1 he
  exact h.entries _ (d.lose_entries_mem k fill) i hi n hn

section

variable [DecidableEq N]

theorem Alone.create (h : Alone d a) : Alone (d.create a) a where
  entries := by
    intro e he i hi n hn
    obtain rfl | he := List.mem_cons.1 he
    · rw [Dir.create_entries, Function.update_self, Option.some.injEq] at hi
      exact hi ▸ Dir.apart_create hn _ List.mem_cons_self
    · exact h.entries e he i hi n hn
  apart := by
    intro i hi n hn
    rw [Dir.create_entries, Function.update_self, Option.some.injEq] at hi
    exact hi ▸ Dir.apart_create hn

theorem Alone.rename (h : Alone d a) (hne : a ≠ b) : Alone (d.rename a b) a := by
  have hnone : (d.rename a b).entries a = none := by
    rw [Dir.rename, Dir.changeEntries_entries, if_neg hne, if_pos rfl]
  refine ⟨fun e he i hi => ?_, fun i hi => ?_⟩
  · obtain rfl | he := List.mem_cons.1 he
    · exact absurd (hnone.symm.trans hi) (by simp)
    · exact h.entries e he i hi
  · exact absurd (hnone.symm.trans hi) (by simp)

theorem Alone.unlink (h : Alone d a) (hne : b ≠ a) : Alone (d.unlink b) a := by
  have hsame : (d.unlink b).entries a = d.entries a := by
    rw [Dir.unlink, Dir.changeEntries_entries, if_neg hne.symm]
  have hnew : ∀ i n, d.entries a = some i → n ≠ a → (d.unlink b).entries n ≠ some i := by
    intro i n hi hn hni
    rw [Dir.unlink, Dir.changeEntries_entries] at hni
    split_ifs at hni
    exact h.apart i hi n hn _ List.mem_cons_self hni
  refine ⟨fun e he i hi n hn => ?_, fun i hi n hn e he => ?_⟩
  · obtain rfl | he := List.mem_cons.1 he
    · exact hnew i n (hsame.symm.trans hi) hn
    · exact h.entries e he i hi n hn
  · obtain rfl | he := List.mem_cons.1 he
    · exact hnew i n (hsame.symm.trans hi) hn
    · exact h.apart i (hsame.symm.trans hi) n hn e he

end

/-! ### Many operations -/

/-- The name has one of the contents, now and after a power failure. -/
structure Within (S : Set (Option (List β))) (d : Dir N β) (n : N) : Prop where
  read : d.read n ∈ S
  may : ∀ c, d.May n c → c ∈ S

/-- What is left of a file after an operation that was to leave `new`, if one of `S` was there. -/
def settle {α : Type*} (S : Set α) (new : α) (done : Bool) : Set α :=
  if done then {new} else insert new S

variable {S : Set (Option (List β))}

theorem Within.start (d : Dir N β) (n : N) : Within {c | c = d.read n ∨ d.May n c} d n :=
  ⟨.inl rfl, fun _ => .inr⟩

theorem Within.weaken {new : Option (List β)} (h : Within S d n) :
    Within (settle S new false) d n := ⟨.inr h.read, fun c hc => .inr (h.may c hc)⟩

theorem Within.partly (h : Within S d₀ b) (hd : Partly d₀ d a b data) :
    Within (settle S (some data) false) d b where
  read := by
    obtain hread | hread := hd.read
    · exact .inr (hread ▸ h.read)
    · exact .inl hread
  may := fun c hc => (hd.may c hc).elim (fun hc => .inr (h.may c hc)) .inl

theorem Within.replaced (hd : Replaced d₀ d a b data) (hmay : ∀ c, d.May b c → c = some data) :
    Within (settle S (some data) true) d b := ⟨hd.read, hmay⟩

/-- The name is removed. -/
theorem Within.unlink [DecidableEq N] (h : Within S d n) :
    Within (settle S none false) (d.unlink n) n where
  read := .inl (by rw [Dir.read, Dir.unlink_entries_self]; rfl)
  may := fun c hc => (Dir.may_unlink hc).imp_right (h.may c)

/-- **A removal that is synced** leaves nothing. -/
theorem Within.syncDir_none (hn : d.entries n = none) :
    Within (settle S none true) d.syncDir n := by
  have hread : d.read n = none := by
    rw [Dir.read, hn]
    rfl
  refine ⟨hread, fun c hc => (Dir.may_syncDir hc fun i x hi => ?_).trans hread⟩
  exact absurd (hn.symm.trans hi) (by simp)

/-- **A power failure** leaves one of the contents. -/
theorem Within.lose (h : Within S d n) (k : ℕ) (fill : ℕ → List β) : Within S (d.lose k fill) n :=
  ⟨h.may _ ⟨k, fill, rfl⟩, fun c hc => h.may c hc.of_lose⟩

end Ocvpn.Files
