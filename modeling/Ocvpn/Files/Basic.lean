import Mathlib

/-!
# A directory that can lose power

What programs see of a directory is not what the disk has of it.  `Dir` is one directory with the
files in it: the entries that programs see now, and every set of entries since the directory was
last synced; the data that programs see of a file, and whether the disk is known to have them.

After a power failure (`Dir.lose`) the entries are one of those sets, and a file that was not synced
may hold anything.  `Dir.May d n c` says that the name `n` may then have the contents `c`, where
`none` stands for no file.

## Main results

* `Dir.may_iff` : what a name may have after a power failure.
* `Dir.May.of_frame` : an operation that does not touch a name adds nothing to what it may have.
* `Dir.may_rename`, `Dir.may_link` : a synced file under another name is all that they add.
* `Dir.may_syncDir` : once the directory is synced, a name has what it is seen to have.
-/

namespace Ocvpn.Files

variable {N β : Type*}

/-- A file: its data, and whether the disk is known to have them. -/
structure Inode (β : Type*) where
  data : List β
  synced : Bool

/-- The entries of a directory. -/
abbrev Entries (N : Type*) := N → Option ℕ

/-- A directory and its files. -/
structure Dir (N β : Type*) where
  inodes : List (Inode β)
  entries : Entries N
  /-- The entries before, back to those that the disk is known to have. -/
  past : List (Entries N)
  bounded : ∀ e ∈ entries :: past, ∀ n i, e n = some i → i < inodes.length

namespace Dir

/-- No file yet. -/
def empty : Dir N β where
  inodes := []
  entries := fun _ => none
  past := []
  bounded := by simp

variable (d : Dir N β)

/-- What a program reads under the name. -/
def read (n : N) : Option (List β) := (d.entries n).bind fun i => d.inodes[i]?.map (·.data)

/-- A power failure: the disk has the entries number `k`, and `fill i` of a file that it was not
known to have. -/
def lose (k : ℕ) (fill : ℕ → List β) : Dir N β where
  inodes := d.inodes.mapIdx fun i x => if x.synced then x else ⟨fill i, true⟩
  entries := (d.entries :: d.past)[k]?.getD d.entries
  past := []
  bounded := by
    intro e he n i hi
    rw [List.length_mapIdx]
    refine d.bounded e ?_ n i hi
    rw [List.mem_singleton] at he
    rw [he]
    rcases hk : (d.entries :: d.past)[k]? with _ | e'
    · exact List.mem_cons_self
    · exact List.mem_of_getElem? hk

/-- What the name may have after a power failure. -/
def May (n : N) (c : Option (List β)) : Prop := ∃ k fill, (d.lose k fill).read n = c

/-! ### Operations -/

/-- Change a file. -/
def changeFile (i : ℕ) (f : Inode β → Inode β) : Dir N β :=
  { d with inodes := d.inodes.modify i f, bounded := by simpa using d.bounded }

@[simp] theorem changeFile_entries (i : ℕ) (f : Inode β → Inode β) :
    (d.changeFile i f).entries = d.entries := rfl

@[simp] theorem changeFile_inodes (i : ℕ) (f : Inode β → Inode β) :
    (d.changeFile i f).inodes = d.inodes.modify i f := rfl

/-- Write at the end of a file. -/
def append (i : ℕ) (bs : List β) : Dir N β := d.changeFile i fun x => ⟨x.data ++ bs, false⟩

def truncate (i : ℕ) : Dir N β := d.changeFile i fun _ => ⟨[], false⟩

/-- `fsync` of a file. -/
def sync (i : ℕ) : Dir N β := d.changeFile i fun x => { x with synced := true }

/-- Change the entries; a name gets an inode that some name had. -/
def changeEntries (e : Entries N) (he : ∀ n i, e n = some i → ∃ m, d.entries m = some i) :
    Dir N β where
  inodes := d.inodes
  entries := e
  past := d.entries :: d.past
  bounded := by
    intro e' he' n i hi
    obtain rfl | he' := List.mem_cons.1 he'
    · obtain ⟨m, hm⟩ := he n i hi
      exact d.bounded d.entries List.mem_cons_self m i hm
    · exact d.bounded e' he' n i hi

@[simp] theorem changeEntries_entries (e : Entries N) (he) :
    (d.changeEntries e he).entries = e := rfl

@[simp] theorem changeEntries_inodes (e : Entries N) (he) :
    (d.changeEntries e he).inodes = d.inodes := rfl

variable [DecidableEq N]

/-- Create an empty file; the name has none yet. -/
def create (a : N) : Dir N β where
  inodes := d.inodes ++ [⟨[], false⟩]
  entries := Function.update d.entries a (some d.inodes.length)
  past := d.entries :: d.past
  bounded := by
    intro e he n i hi
    rw [List.length_append, List.length_singleton]
    obtain rfl | he := List.mem_cons.1 he
    · by_cases hn : n = a
      · rw [hn, Function.update_self, Option.some.injEq] at hi
        omega
      · rw [Function.update_of_ne hn] at hi
        exact Nat.lt_succ_of_lt (d.bounded _ List.mem_cons_self n i hi)
    · exact Nat.lt_succ_of_lt (d.bounded e he n i hi)

@[simp] theorem create_entries (a : N) :
    (d.create a).entries = Function.update d.entries a (some d.inodes.length) := rfl

@[simp] theorem create_inodes (a : N) : (d.create a).inodes = d.inodes ++ [⟨[], false⟩] := rfl

/-- Give a file another name, and take that from the file that has it. -/
def rename (a b : N) : Dir N β :=
  d.changeEntries (fun n => if n = b then d.entries a else if n = a then none else d.entries n) <| by
    intro n i hi
    split_ifs at hi
    · exact ⟨a, hi⟩
    · exact ⟨n, hi⟩

/-- Give a file a second name, which has none yet. -/
def link (a b : N) : Dir N β :=
  d.changeEntries (fun n => if n = b then d.entries a else d.entries n) <| by
    intro n i hi
    split_ifs at hi
    · exact ⟨a, hi⟩
    · exact ⟨n, hi⟩

def unlink (a : N) : Dir N β :=
  d.changeEntries (fun n => if n = a then none else d.entries n) <| by
    intro n i hi
    split_ifs at hi
    exact ⟨n, hi⟩

omit [DecidableEq N] in
/-- `fsync` of the directory. -/
def syncDir : Dir N β where
  inodes := d.inodes
  entries := d.entries
  past := []
  bounded := fun e he => d.bounded e (by
    rw [List.mem_singleton] at he
    rw [he]
    exact List.mem_cons_self)

end Dir

/-! ### What a name may have -/

variable {d d' : Dir N β} {n : N} {c : Option (List β)} {i : ℕ}

/-- The file `i` was not under the name since the directory was last synced. -/
def Dir.Apart (d : Dir N β) (n : N) (i : ℕ) : Prop := ∀ e ∈ d.entries :: d.past, e n ≠ some i

theorem Dir.exists_inode {e : Entries N} (he : e ∈ d.entries :: d.past) (hi : e n = some i) :
    ∃ x, d.inodes[i]? = some x :=
  ⟨_, List.getElem?_eq_getElem (d.bounded e he n i hi)⟩

theorem Dir.lose_entries_mem (d : Dir N β) (k : ℕ) (fill : ℕ → List β) :
    (d.lose k fill).entries ∈ d.entries :: d.past := by
  show (d.entries :: d.past)[k]?.getD d.entries ∈ _
  rcases hk : (d.entries :: d.past)[k]? with _ | e
  · exact List.mem_cons_self
  · exact List.mem_of_getElem? hk

theorem Dir.lose_inode {k : ℕ} {fill : ℕ → List β} {x : Inode β} (hx : d.inodes[i]? = some x) :
    (d.lose k fill).inodes[i]? = some (if x.synced then x else ⟨fill i, true⟩) := by
  show (d.inodes.mapIdx _)[i]? = _
  rw [List.getElem?_mapIdx, hx]
  rfl

/-- **What a name may have**: nothing, or the contents of a file that was under it; any contents, if
the file was not synced. -/
theorem Dir.may_iff : d.May n c ↔ ∃ e ∈ d.entries :: d.past,
    (e n = none ∧ c = none) ∨ ∃ i x, e n = some i ∧ d.inodes[i]? = some x ∧
      ∃ data, c = some data ∧ (x.synced = true → data = x.data) := by
  constructor
  · rintro ⟨k, fill, rfl⟩
    refine ⟨_, d.lose_entries_mem k fill, ?_⟩
    rcases hn : (d.lose k fill).entries n with _ | i
    · exact .inl ⟨rfl, by rw [Dir.read, hn]; rfl⟩
    · obtain ⟨x, hx⟩ := d.exists_inode (d.lose_entries_mem k fill) hn
      refine .inr ⟨i, x, rfl, hx, (if x.synced then x else ⟨fill i, true⟩ : Inode β).data, ?_, ?_⟩
      · rw [Dir.read, hn, Option.bind_some, Dir.lose_inode hx]
        rfl
      · intro hsynced
        rw [if_pos hsynced]
  · rintro ⟨e, he, h⟩
    obtain ⟨k, hk⟩ := List.mem_iff_getElem?.1 he
    have hentries : ∀ fill, (d.lose k fill).entries = e := by
      intro fill
      show (d.entries :: d.past)[k]?.getD d.entries = e
      rw [hk, Option.getD_some]
    rcases h with ⟨hnone, rfl⟩ | ⟨i, x, hi, hx, data, rfl, hdata⟩
    · exact ⟨k, fun _ => [], by rw [Dir.read, hentries, hnone]; rfl⟩
    · -- of a file that is not synced the disk has what is asked for
      refine ⟨k, fun _ => data, ?_⟩
      rw [Dir.read, hentries, hi, Option.bind_some, Dir.lose_inode hx]
      split_ifs with hsynced
      · rw [hdata hsynced]
        rfl
      · rfl

/-- A second power failure leaves nothing that the first might not have left. -/
theorem Dir.May.of_lose {k : ℕ} {fill : ℕ → List β} (h : (d.lose k fill).May n c) : d.May n c := by
  rw [Dir.may_iff] at h ⊢
  obtain ⟨e, he, h⟩ := h
  obtain rfl := List.mem_singleton.1 he
  refine ⟨_, d.lose_entries_mem k fill, h.imp_right ?_⟩
  rintro ⟨i, x', hi, hx', data, hc, hdata⟩
  obtain ⟨x, hx⟩ := d.exists_inode (d.lose_entries_mem k fill) hi
  refine ⟨i, x, hi, hx, data, hc, fun hsynced => ?_⟩
  rw [Dir.lose_inode hx, if_pos hsynced, Option.some.injEq] at hx'
  subst hx'
  exact hdata hsynced

/-- **A frame**: an operation that leaves the name and its files alone adds nothing to what it may
have. -/
theorem Dir.May.of_frame (h : d'.May n c)
    (hentries : ∀ e' ∈ d'.entries :: d'.past, ∃ e ∈ d.entries :: d.past, e' n = e n)
    (hfiles : ∀ (i : ℕ) (x : Inode β), ¬ d.Apart n i → d.inodes[i]? = some x →
      ∃ x', d'.inodes[i]? = some x' ∧
      (x.synced = true → x'.synced = true ∧ x'.data = x.data)) : d.May n c := by
  rw [Dir.may_iff] at h ⊢
  obtain ⟨e', he', h⟩ := h
  obtain ⟨e, he, hsame⟩ := hentries e' he'
  refine ⟨e, he, ?_⟩
  rw [hsame] at h
  refine h.imp_right ?_
  rintro ⟨i, x', hi, hx', data, hc, hdata⟩
  obtain ⟨x, hx⟩ := d.exists_inode he hi
  obtain ⟨x'', hx'', hkeep⟩ := hfiles i x (fun hapart => hapart e he hi) hx
  rw [hx', Option.some.injEq] at hx''
  subst hx''
  refine ⟨i, x, hi, hx, data, hc, fun hsynced => ?_⟩
  obtain ⟨hsynced', hsame'⟩ := hkeep hsynced
  rw [hdata hsynced', hsame']

namespace Dir

theorem read_changeFile {f : Inode β → Inode β} (h : d.entries n ≠ some i) :
    (d.changeFile i f).read n = d.read n := by
  rw [read, read, changeFile_entries, changeFile_inodes]
  rcases hn : d.entries n with _ | j
  · rfl
  · have hij : i ≠ j := by
      rintro rfl
      exact h hn
    rw [Option.bind_some, Option.bind_some, List.getElem?_modify_ne _ _ hij]

theorem may_changeFile {f : Inode β → Inode β} (h : (d.changeFile i f).May n c)
    (hapart : d.Apart n i) : d.May n c := by
  refine h.of_frame (fun e he => ⟨e, he, rfl⟩) fun j x hj hx => ?_
  have hij : i ≠ j := by
    rintro rfl
    exact hj hapart
  refine ⟨x, ?_, fun hsynced => ⟨hsynced, rfl⟩⟩
  rw [changeFile_inodes, List.getElem?_modify_ne _ _ hij, hx]

theorem read_changeEntries {e : Entries N} {he} (h : e n = d.entries n) :
    (d.changeEntries e he).read n = d.read n := by
  rw [read, read, changeEntries_entries, changeEntries_inodes, h]

theorem may_changeEntries {e : Entries N} {he} (h : (d.changeEntries e he).May n c)
    (hsame : e n = d.entries n) : d.May n c := by
  refine h.of_frame (fun e' he' => ?_) fun j x _ hx => ⟨x, hx, fun hsynced => ⟨hsynced, rfl⟩⟩
  obtain rfl | he' := List.mem_cons.1 he'
  · exact ⟨d.entries, List.mem_cons_self, hsame⟩
  · exact ⟨e', he', rfl⟩

/-- A name that gets a synced file may have that file, and what it might have before. -/
theorem may_changeEntries_synced {e : Entries N} {he} {x : Inode β}
    (h : (d.changeEntries e he).May n c) (hi : e n = some i) (hx : d.inodes[i]? = some x)
    (hsynced : x.synced = true) : d.May n c ∨ c = some x.data := by
  rw [Dir.may_iff] at h ⊢
  obtain ⟨e', he', h⟩ := h
  obtain rfl | he' := List.mem_cons.1 he'
  · right
    obtain ⟨hnone, -⟩ | ⟨j, x', hj, hx', data, hc, hdata⟩ := h
    · exact absurd (hi.symm.trans hnone) (by simp)
    · obtain rfl : i = j := Option.some.inj (hi.symm.trans hj)
      obtain rfl : x = x' := Option.some.inj (hx.symm.trans hx')
      rw [hc, hdata hsynced]
  · exact .inl ⟨e', he', h⟩

/-- **Once the directory is synced**, a name has what it is seen to have, if its file is synced. -/
theorem may_syncDir (h : d.syncDir.May n c)
    (hfile : ∀ (i : ℕ) (x : Inode β), d.entries n = some i → d.inodes[i]? = some x →
      x.synced = true) :
    c = d.read n := by
  rw [may_iff] at h
  obtain ⟨e, he, h⟩ := h
  obtain rfl := List.mem_singleton.1 he
  obtain ⟨hnone, hc⟩ | ⟨i, x, hi, hx, data, hc, hdata⟩ := h
  · rw [hc, read, show d.entries n = none from hnone]
    rfl
  · rw [hc, read, show d.entries n = some i from hi, Option.bind_some,
      show d.inodes[i]? = some x from hx, hdata (hfile i x hi hx)]
    rfl

theorem may_of_syncDir (h : d.syncDir.May n c) : d.May n c := by
  refine h.of_frame (fun e he => ?_) fun j x _ hx => ⟨x, hx, fun hsynced => ⟨hsynced, rfl⟩⟩
  obtain rfl := List.mem_singleton.1 he
  exact ⟨d.entries, List.mem_cons_self, rfl⟩

section

variable [DecidableEq N] {a b : N}

theorem read_create (h : n ≠ a) : (d.create a).read n = d.read n := by
  rw [read, read, create_entries, create_inodes, Function.update_of_ne h]
  rcases hn : d.entries n with _ | j
  · rfl
  · rw [Option.bind_some, Option.bind_some,
      List.getElem?_append_left (d.bounded d.entries List.mem_cons_self n j hn)]

theorem may_create (h : (d.create a).May n c) (hne : n ≠ a) : d.May n c := by
  refine h.of_frame (fun e he => ?_) fun j x hj hx => ⟨x, ?_, fun hsynced => ⟨hsynced, rfl⟩⟩
  · obtain rfl | he := List.mem_cons.1 he
    · exact ⟨d.entries, List.mem_cons_self, Function.update_of_ne hne _ _⟩
    · exact ⟨e, he, rfl⟩
  · exact List.getElem?_append_left (List.getElem?_eq_some_iff.1 hx).1 ▸ hx

/-- The file that was created is not under another name. -/
theorem apart_create (h : n ≠ a) : (d.create a).Apart n d.inodes.length := by
  intro e he hi
  obtain rfl | he := List.mem_cons.1 he
  · have hlt := d.bounded d.entries List.mem_cons_self n d.inodes.length
      (by rwa [create_entries, Function.update_of_ne h] at hi)
    omega
  · have hlt := d.bounded e he n d.inodes.length hi
    omega

theorem read_rename (ha : n ≠ a) (hb : n ≠ b) : (d.rename a b).read n = d.read n :=
  read_changeEntries (by rw [if_neg hb, if_neg ha])

theorem read_rename_self : (d.rename a b).read b = d.read a := by
  rw [read, read, rename, changeEntries_entries, changeEntries_inodes, if_pos rfl]

theorem may_rename_of_ne (h : (d.rename a b).May n c) (ha : n ≠ a) (hb : n ≠ b) : d.May n c :=
  may_changeEntries h (by rw [if_neg hb, if_neg ha])

/-- **Moving a synced file over another one**: the name has one of them. -/
theorem may_rename {x : Inode β} (h : (d.rename a b).May b c) (hi : d.entries a = some i)
    (hx : d.inodes[i]? = some x) (hsynced : x.synced = true) : d.May b c ∨ c = some x.data :=
  may_changeEntries_synced h (by rw [if_pos rfl, hi]) hx hsynced

theorem read_link (hb : n ≠ b) : (d.link a b).read n = d.read n :=
  read_changeEntries (by rw [if_neg hb])

theorem read_link_self : (d.link a b).read b = d.read a := by
  rw [read, read, link, changeEntries_entries, changeEntries_inodes, if_pos rfl]

theorem may_link_of_ne (h : (d.link a b).May n c) (hb : n ≠ b) : d.May n c :=
  may_changeEntries h (by rw [if_neg hb])

/-- A synced file with a second name. -/
theorem may_link {x : Inode β} (h : (d.link a b).May b c) (hi : d.entries a = some i)
    (hx : d.inodes[i]? = some x) (hsynced : x.synced = true) : d.May b c ∨ c = some x.data :=
  may_changeEntries_synced h (by rw [if_pos rfl, hi]) hx hsynced

theorem read_unlink (h : n ≠ a) : (d.unlink a).read n = d.read n :=
  read_changeEntries (by rw [if_neg h])

theorem may_unlink_of_ne (h : (d.unlink a).May n c) (hne : n ≠ a) : d.May n c :=
  may_changeEntries h (by rw [if_neg hne])

theorem unlink_entries_self : (d.unlink a).entries a = none := by
  rw [unlink, changeEntries_entries, if_pos rfl]

/-- A file that is removed may come back. -/
theorem may_unlink (h : (d.unlink a).May a c) : c = none ∨ d.May a c := by
  rw [may_iff] at h
  obtain ⟨e, he, h⟩ := h
  obtain rfl | he := List.mem_cons.1 he
  · obtain ⟨-, hc⟩ | ⟨i, x, hi, -⟩ := h
    · exact .inl hc
    · exact absurd (unlink_entries_self.symm.trans hi) (by simp)
  · exact .inr (may_iff.2 ⟨e, he, h⟩)

end

end Dir

end Ocvpn.Files
