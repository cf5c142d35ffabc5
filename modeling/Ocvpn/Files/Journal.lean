import Ocvpn.Files.Replace
import Ocvpn.Journal.Basic
import Ocvpn.LTS.Basic

/-!
# The file of a journal

`save` of `crates/net/src/journal.rs`, and the removal at the end of `restore`, over a directory
that can lose power.  A save that is interrupted leaves its pending file, which the next one uses
again.

The journal is its text here, which the serializer writes in as many pieces as it likes.
`Ocvpn.Journal.Basic` has the same programs over a directory that keeps what it is told.

## Main results

* `save_spec`, `remove_spec` : what is left of the file, however the calls go.
* `journal_file_durable` : the same after any number of saves, removals and power failures.
-/

namespace Ocvpn.Files.Journal

open Crash Net

variable {N : Type} [DecidableEq N]

/-- A program on the directory. -/
abbrev Prog (N α : Type) := Io (Dir N UInt8) Error α

section Programs

/-- `secure::open`, which may create the file; returns the open file. -/
def openOrCreate (name : N) : Prog N ℕ := do
  match ← Io.get (·.entries name) with
  | some file => do
    (Io.query fun _ => .ok ()).orFail denied
    pure file
  | none => do
    let file ← Io.get (·.inodes.length)
    (Io.act fun d => .ok (d.create name)).orFail denied
    (Io.query fun _ => .ok ()).orFail denied
    pure file

/-- `secure::sync_directory`. -/
def syncDirectory : Prog N Unit :=
  (Io.act fun d => .ok d.syncDir).orFail (failure "Cannot durably commit network journal")

/-- `save`, of a journal whose text comes in pieces. -/
def save (path pending : N) (pieces : List (List UInt8)) : Prog N Unit := do
  let file ← openOrCreate pending
  (Io.act fun d => .ok (d.truncate file)).orFail error
  (Io.query fun _ => .ok ()).orFail error
  (Io.forEach pieces fun bs => Io.act fun d => .ok (d.append file bs)).orFail error
  (Io.query fun _ => .ok ()).orFail error
  ofRun (Exec.rejectIf (pieces.flatten.length > maxJournalBytes) error)
  (Io.act fun d => .ok (d.sync file)).orFail error
  (Io.act fun d => if (d.entries pending).isSome then .ok (d.rename pending path)
    else .error error).orFail error
  syncDirectory

/-- The removal at the end of `restore`. -/
def remove (path : N) : Prog N Unit := do
  (Io.act fun d => if (d.entries path).isSome then .ok (d.unlink path) else .error error).orFail
    error
  syncDirectory

end Programs

/-! ### What is left of the file -/

section Specs

variable {d₀ : Dir N UInt8} {path pending : N} {file : ℕ} {text : List UInt8}

/-- The journal is the old one or the new one, and the pending file can be used again. -/
def Safe (d₀ : Dir N UInt8) (path pending : N) (text : List UInt8) (d : Dir N UInt8) : Prop :=
  Partly d₀ d pending path text ∧ Alone d pending

/-- The pending file is being written. -/
def Pending (d₀ : Dir N UInt8) (pending : N) (file : ℕ) (x : Inode UInt8)
    (d : Dir N UInt8) : Prop :=
  Staged d₀ d pending file x ∧ Alone d pending

omit [DecidableEq N] in
theorem Pending.safe {x : Inode UInt8} {d : Dir N UInt8} (h : Pending d₀ pending file x d)
    (hne : pending ≠ path) : Safe d₀ path pending text d :=
  ⟨h.1.partly hne, h.2⟩

theorem openOrCreate_spec (hne : pending ≠ path) (halone : Alone d₀ pending) :
    Spec True (· = d₀) (openOrCreate pending) (fun file d => ∃ x, Pending d₀ pending file x d)
      (fun _ d => Safe d₀ path pending text d) (Safe d₀ path pending text) := by
  have hstart : ∀ d, d = d₀ → Safe d₀ path pending text d := by
    rintro d rfl
    exact ⟨.refl d _ _ _, halone⟩
  refine Spec.bind (R := fun found d => d = d₀ ∧ found = d₀.entries pending)
    (Spec.get fun d hd => ⟨hd, by rw [hd]⟩) fun found => ?_
  refine Spec.intro (fun _ hd => hd.2) ?_
  rintro rfl
  rcases hfound : d₀.entries pending with _ | file
  · refine Spec.bind (R := fun file d => d = d₀ ∧ file = d₀.inodes.length)
      (Spec.get fun d hd => ⟨hd.1, by rw [hd.1]⟩) fun file => ?_
    refine Spec.intro (fun _ hd => hd.2) ?_
    rintro rfl
    have hcreated : Pending d₀ pending d₀.inodes.length ⟨[], false⟩ (d₀.create pending) :=
      ⟨.create d₀ pending, halone.create⟩
    refine Spec.bind (R := fun _ => Pending d₀ pending d₀.inodes.length ⟨[], false⟩)
      (Spec.change (fun d hd => hstart d hd.1) ?_) fun _ => ?_
    · rintro d d' ⟨rfl, -⟩ h
      cases h
      exact ⟨hcreated, hcreated.safe hne⟩
    · refine Spec.bind (R := fun _ => Pending d₀ pending d₀.inodes.length ⟨[], false⟩) ?_
        fun _ => Spec.pure fun _ hd => ⟨_, hd⟩
      exact Spec.look.mono (fun _ => id) (fun _ _ => id) (fun _ _ hd => hd.safe hne)
        fun _ hd => hd.safe hne
  · -- a pending file that was left over
    obtain ⟨x, hx⟩ := d₀.exists_inode List.mem_cons_self hfound
    refine Spec.bind (R := fun _ => (· = d₀)) ?_ fun _ => Spec.pure ?_
    · exact Spec.look.mono (fun _ hd => hd.1) (fun _ _ => id) (fun _ => hstart) hstart
    · rintro d rfl
      exact ⟨x, halone.staged hfound hx, halone⟩

omit [DecidableEq N] in
/-- The text is written piece by piece. -/
theorem write_spec (hne : pending ≠ path) (pieces : List (List UInt8)) :
    Spec True (Pending d₀ pending file ⟨[], false⟩)
      ((Io.forEach pieces fun bs => Io.act fun d => .ok (d.append file bs)).orFail error :
        Prog N Unit)
      (fun _ => Pending d₀ pending file ⟨pieces.flatten, false⟩)
      (fun _ d => Safe d₀ path pending text d) (Safe d₀ path pending text) := by
  have hloop := Spec.forEach (f := True)
    (g := fun bs => (Io.act fun d => .ok (d.append file bs) : Prog N Unit))
    (I := fun done => Pending d₀ pending file ⟨done.flatten, false⟩)
    (E := fun _ => Safe d₀ path pending text) (C := Safe d₀ path pending text)
    (fun done bs (_ : bs ∈ pieces) => ?_) []
  · exact Spec.orFail hloop
  · have happend : ∀ d, Pending d₀ pending file ⟨done.flatten, false⟩ d →
        Pending d₀ pending file ⟨(done ++ [bs]).flatten, false⟩ (d.append file bs) := by
      intro d hd
      rw [List.flatten_append, List.flatten_singleton]
      exact ⟨hd.1.append bs, hd.2.changeFile _ _⟩
    refine Spec.act (fun d d' hd h => ?_) (fun _ _ _ h => nomatch h) fun _ d hd => ?_
    · cases h
      exact happend d hd
    · refine ⟨fun _ => hd.safe hne, hd.safe hne, fun d' h => ?_⟩
      cases h
      exact ⟨fun _ => (happend d hd).safe hne, (happend d hd).safe hne⟩

/-- **A save** leaves the new journal if it returns, else the old one or the new one. -/
theorem save_spec (hne : pending ≠ path) (pieces : List (List UInt8)) (halone : Alone d₀ pending) :
    Spec True (· = d₀) (save path pending pieces)
      (fun _ d => (Replaced d₀ d pending path pieces.flatten ∧ Alone d pending) ∧
        ∀ c, d.May path c → c = some pieces.flatten)
      (fun _ => Safe d₀ path pending pieces.flatten) (Safe d₀ path pending pieces.flatten) := by
  refine Spec.bind (openOrCreate_spec hne halone) fun file => ?_
  refine Spec.bind (R := fun _ => Pending d₀ pending file ⟨[], false⟩)
    (Spec.change (fun d ⟨x, hd⟩ => hd.safe hne) ?_) fun _ => ?_
  · rintro d d' ⟨x, hd⟩ h
    cases h
    have hpending : Pending d₀ pending file ⟨[], false⟩ (d.truncate file) :=
      ⟨hd.1.truncate, hd.2.changeFile _ _⟩
    exact ⟨hpending, hpending.safe hne⟩
  have hlook : ∀ x, Spec True (Pending d₀ pending file x)
      ((Io.query fun _ => .ok ()).orFail error : Prog N Unit) (fun _ => Pending d₀ pending file x)
      (fun _ => Safe d₀ path pending pieces.flatten) (Safe d₀ path pending pieces.flatten) :=
    fun x => Spec.look.mono (fun _ => id) (fun _ _ => id) (fun _ _ hd => hd.safe hne)
      fun _ hd => hd.safe hne
  refine Spec.bind (hlook _) fun _ => ?_
  refine Spec.bind (write_spec hne pieces) fun _ => ?_
  refine Spec.bind (hlook _) fun _ => ?_
  refine spec_ofRun_bind (fun _ _ => ?_) (fun _ _ hd _ => hd.safe hne) fun _ hd _ =>
    ⟨trivial, hd.safe hne⟩
  refine Spec.bind (R := fun _ => Pending d₀ pending file ⟨pieces.flatten, true⟩)
    (Spec.change (fun _ hd => hd.safe hne) fun d d' hd h => ?_) fun _ => ?_
  · cases h
    have hpending : Pending d₀ pending file ⟨pieces.flatten, true⟩ (d.sync file) :=
      ⟨hd.1.sync, hd.2.changeFile _ _⟩
    exact ⟨hpending, hpending.safe hne⟩
  refine Spec.bind (R := fun _ d => Replaced d₀ d pending path pieces.flatten ∧ Alone d pending)
    (Spec.change (fun _ hd => hd.safe hne) fun d d' hd h => ?_) fun _ => ?_
  · split_ifs at h
    cases h
    have hreplaced := hd.1.rename hne
    exact ⟨⟨hreplaced, hd.2.rename hne⟩, hreplaced.partly, hd.2.rename hne⟩
  · refine Spec.change (fun d hd => ⟨hd.1.partly, hd.2⟩) fun d d' hd h => ?_
    cases h
    obtain ⟨hreplaced, hmay⟩ := hd.1.syncDir
    exact ⟨⟨⟨hreplaced, hd.2.syncDir⟩, hmay⟩, hreplaced.partly, hd.2.syncDir⟩

/-- **A removal** leaves no journal if it returns, else the old one or none. -/
theorem remove_spec (hne : pending ≠ path) {S : Set (Option (List UInt8))} :
    Spec True (fun d => Within S d path ∧ Alone d pending) (remove path)
      (fun _ d => Within (settle S none true) d path ∧ Alone d pending)
      (fun _ d => Within (settle S none false) d path ∧ Alone d pending)
      fun d => Within (settle S none false) d path ∧ Alone d pending := by
  refine Spec.bind (R := fun _ d => d.entries path = none ∧
      Within (settle S none false) d path ∧ Alone d pending)
    (Spec.change (fun d hd => ⟨hd.1.weaken, hd.2⟩) fun d d' hd h => ?_) fun _ => ?_
  · split_ifs at h
    cases h
    exact ⟨⟨Dir.unlink_entries_self, hd.1.unlink, hd.2.unlink hne.symm⟩, hd.1.unlink,
      hd.2.unlink hne.symm⟩
  · refine Spec.change (fun d hd => hd.2) fun d d' hd h => ?_
    cases h
    have hgone : Within (settle S none true) d.syncDir path := .syncDir_none hd.1
    refine ⟨⟨hgone, hd.2.2.syncDir⟩, ⟨.inl hgone.read, fun c hc => .inl (hgone.may c hc)⟩,
      hd.2.2.syncDir⟩

end Specs

/-! ### The life of a journal -/

inductive Input where
  | save (pieces : List (List UInt8)) (cuts : List (Cut Error))
  | remove (cuts : List (Cut Error))
  | powerFailure (k : ℕ) (fill : ℕ → List UInt8)

/-- What a call was to leave, and whether it returned. -/
structure Kept where
  contents : Option (List UInt8)
  done : Bool

def Outcome.returned {ε α : Type} : Outcome ε α → Bool
  | .ok _ => true
  | _ => false

/-- The directory with the journal of one transaction. -/
def machine (path pending : N) : Machine (Dir N UInt8) Input Kept where
  init _ := True
  step d
    | .save pieces cuts =>
      let (outcome, s) := save path pending pieces ⟨d, cuts⟩
      some (s.world, [⟨some pieces.flatten, Outcome.returned outcome⟩])
    | .remove cuts =>
      let (outcome, s) := remove path ⟨d, cuts⟩
      some (s.world, [⟨none, Outcome.returned outcome⟩])
    | .powerFailure k fill => some (d.lose k fill, [])

/-- What may be left of the journal after the calls. -/
def left (S : Set (Option (List UInt8))) (os : List Kept) : Set (Option (List UInt8)) :=
  os.foldl (fun S n => settle S n.contents n.done) S

variable {path pending : N} {d₀ d : Dir N UInt8} {os : List Kept}

/-- **A journal survives a power failure.**  Whatever happened during the saves and the removals, it
is what the last of them that returned has left, or a later one; the pending file that an
interrupted save has left is never taken for it. -/
theorem journal_file_durable (hne : pending ≠ path) (halone : Alone d₀ pending)
    (h : (machine path pending).Run (fun _ _ => True) d₀ os d) :
    Within (left {c | c = d₀.read path ∨ d₀.May path c} os) d path := by
  refine (h.invariant (P := fun os d =>
    Within (left {c | c = d₀.read path ∨ d₀.May path c} os) d path ∧ Alone d pending)
    ⟨.start d₀ path, halone⟩ ?_).1
  rintro os d i d' o ⟨hwithin, halone⟩ - hst
  rcases i with ⟨pieces, cuts⟩ | ⟨cuts⟩ | ⟨k, fill⟩
  · simp only [machine, Option.some.injEq, Prod.mk.injEq] at hst
    obtain ⟨rfl, rfl⟩ := hst
    have hends := save_spec hne pieces halone d cuts (.inl trivial) rfl
    rw [left, List.foldl_append, List.foldl_cons, List.foldl_nil]
    generalize save path pending pieces ⟨d, cuts⟩ = r at hends ⊢
    rcases r with ⟨_ | e | _, s⟩
    · exact ⟨.replaced hends.2.1.1 hends.2.2, hends.2.1.2⟩
    · exact ⟨hwithin.partly hends.2.1, hends.2.2⟩
    · exact ⟨hwithin.partly hends.2.1, hends.2.2⟩
  · simp only [machine, Option.some.injEq, Prod.mk.injEq] at hst
    obtain ⟨rfl, rfl⟩ := hst
    have hends := remove_spec hne d cuts (.inl trivial) ⟨hwithin, halone⟩
    rw [left, List.foldl_append, List.foldl_cons, List.foldl_nil]
    generalize remove path ⟨d, cuts⟩ = r at hends ⊢
    rcases r with ⟨_ | e | _, s⟩
    · exact hends.2
    · exact hends.2
    · exact hends.2
  · simp only [machine, Option.some.injEq, Prod.mk.injEq] at hst
    obtain ⟨rfl, rfl⟩ := hst
    rw [List.append_nil]
    exact ⟨hwithin.lose k fill, halone.lose k fill⟩

/-- A save, one that is stopped before its rename, another that uses its pending file, and a power
failure. -/
def sampleInputs : List Input :=
  [ .save [[1], [2]] [], .save [[3]] (List.replicate 8 .performed ++ [.stopBefore]), .save [[4]] [],
    .powerFailure 1 fun _ => [9] ]

theorem journal_file_durable_sample :
    ((machine 0 1).perform (.empty : Dir ℕ UInt8) sampleInputs).read 0 = some [4] ∧
      Within (left {c | c = Dir.empty.read 0 ∨ Dir.empty.May 0 c}
        ((machine 0 1).emitted (.empty : Dir ℕ UInt8) sampleInputs))
        ((machine 0 1).perform (.empty : Dir ℕ UInt8) sampleInputs) 0 := by
  have hany : ∀ i ∈ sampleInputs, ∀ _ : Dir ℕ UInt8, True := by simp
  have hrun := (Machine.Run.refl : (machine 0 1).Run (fun _ _ => True) (.empty : Dir ℕ UInt8) []
    .empty).perform hany
  have halone : Alone (.empty : Dir ℕ UInt8) 1 := .of_none (by simp [Dir.empty])
  exact ⟨by decide +kernel, journal_file_durable (by decide) halone hrun⟩

end Ocvpn.Files.Journal
