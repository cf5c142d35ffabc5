import Ocvpn.Crash.Basic
import Ocvpn.Files.Replace
import Ocvpn.LTS.Basic
import Ocvpn.Model.Basic

/-!
# Private files

`atomic_write` of `crates/client/src/private_fs.rs`, on Unix, over a directory that can lose power.
The file is written in as many pieces as the system likes.  What the source checks of paths, owners
and permissions is a look at the directory that may fail.

## Main results

* `atomicWrite_spec` : what is left of the file, however the calls go.
* `atomicWrite_refines` : for a program that sees the file alone, it is one operation.
* `private_file_durable` : what is left of a file after any number of writes and power failures.
-/

namespace Ocvpn.Files

open Crash

/-- How the errors show the files of a directory, and the directory. -/
structure Paths (N : Type) where
  display : N → String
  parent : String

/-- `error`. -/
def fileError (path message : String) : Error :=
  { code := .runtimeFailure, message, details := some path }

def alreadyExists : Error := .new .conflict "Destination already exists"

variable {N β : Type} [DecidableEq N]

/-- A program on the directory. -/
abbrev DirProg (N β α : Type) := Io (Dir N β) Error α

section Programs

variable (P : Paths N)

/-- `std::fs::remove_file`. -/
def removeFile (name : N) (e : Error) : DirProg N β Unit :=
  (Io.act fun d => if (d.entries name).isSome then .ok (d.unlink name) else .error e).orFail e

/-- `platform::open` of a file that must not exist; returns the open file. -/
def createNew (name : N) : DirProg N β ℕ := do
  let file ← Io.get (·.inodes.length)
  (Io.act fun d => if (d.entries name).isSome then
      .error (fileError (P.display name) "Cannot open private metadata file")
    else .ok (d.create name)).orFail
      (fileError (P.display name) "Cannot open private metadata file")
  (Io.query fun _ => .ok ()).orFail (fileError (P.display name)
    "Metadata must be owned exclusively by this user with private permissions")
  pure file

/-- `write_all`, piece by piece, and `sync_all`. -/
def writeDurably (file : ℕ) (pieces : List (List β)) (e : Error) : DirProg N β Unit := do
  (Io.forEach pieces fun bs => Io.act fun d => .ok (d.append file bs)).orFail e
  (Io.act fun d => .ok (d.sync file)).orFail e

/-- `platform::replace`. -/
def replace (source destination : N) (overwrite : Bool) : DirProg N β Unit := do
  if overwrite then
    let e := fileError (P.display destination) "Cannot atomically replace metadata"
    (Io.act fun d => if (d.entries source).isSome then .ok (d.rename source destination)
      else .error e).orFail e
  else
    let e := fileError (P.display destination) "Cannot atomically publish metadata"
    if ← Io.get fun d => (d.entries destination).isSome then Io.fail alreadyExists
    else
      (Io.act fun d => if (d.entries source).isSome then .ok (d.link source destination)
        else .error e).orFail e
      removeFile source (fileError (P.display source) "Cannot remove temporary metadata link")

/-- `platform::sync_directory`. -/
def syncDirectory : DirProg N β Unit :=
  (Io.act fun d => .ok d.syncDir).orFail
    (fileError P.parent "Cannot durably sync metadata directory")

/-- `atomic_write`; `temporary` is the name with the fresh UUID. -/
def atomicWrite (path temporary : N) (pieces : List (List β)) (overwrite : Bool) :
    DirProg N β Unit := do
  Io.query fun _ => .ok ()
  let existing ← Io.query fun d => .ok (d.entries path)
  if existing.isSome ∧ !overwrite then Io.fail alreadyExists
  else
    let file ← createNew P temporary
    match ← Io.attempt (do
        writeDurably file pieces (fileError (P.display temporary) "Cannot durably write metadata")
        replace P temporary path overwrite
        syncDirectory P : DirProg N β Unit) with
    | .ok () => pure ()
    | .error e => do
      let _ ← Io.attempt (removeFile temporary e)
      Io.fail e

end Programs

/-! ### What is left of the file -/

section Specs

variable {P : Paths N} {d₀ : Dir N β} {path temporary : N} {file : ℕ} {data : List β}

theorem createNew_spec (hne : temporary ≠ path) :
    Spec True (· = d₀) (createNew P temporary)
      (fun file d => Staged d₀ d temporary file ⟨[], false⟩)
      (fun _ d => Partly d₀ d temporary path data) fun d => Partly d₀ d temporary path data := by
  have hstart : ∀ d, d = d₀ → Partly d₀ d temporary path data := by
    rintro d rfl
    exact .refl d _ _ _
  refine Spec.bind (R := fun file d => d = d₀ ∧ file = d₀.inodes.length)
    (Spec.get fun d hd => ⟨hd, by rw [hd]⟩) fun file => ?_
  refine Spec.intro (fun _ hd => hd.2) ?_
  rintro rfl
  have hcreated := Staged.create d₀ temporary
  refine Spec.bind (R := fun _ d => Staged d₀ d temporary d₀.inodes.length ⟨[], false⟩)
    (Spec.change (fun d hd => hstart d hd.1) ?_) fun _ => ?_
  · rintro d d' ⟨rfl, -⟩ h
    split_ifs at h
    cases h
    exact ⟨hcreated, hcreated.partly hne⟩
  · refine Spec.bind (R := fun _ d => Staged d₀ d temporary d₀.inodes.length ⟨[], false⟩) ?_
      fun _ => Spec.pure fun _ hd => hd
    exact Spec.look.mono (fun _ => id) (fun _ _ => id) (fun _ _ hd => hd.partly hne)
      fun _ hd => hd.partly hne

omit [DecidableEq N] in
theorem writeDurably_spec (hne : temporary ≠ path) (pieces : List (List β)) (e : Error) :
    Spec True (Staged d₀ · temporary file ⟨[], false⟩) (writeDurably file pieces e)
      (fun _ d => Staged d₀ d temporary file ⟨pieces.flatten, true⟩)
      (fun _ d => Partly d₀ d temporary path data) fun d => Partly d₀ d temporary path data := by
  refine Spec.bind (R := fun _ d => Staged d₀ d temporary file ⟨pieces.flatten, false⟩) ?_
    fun _ => Spec.change (fun _ hd => hd.partly hne) ?_
  · -- the file holds the pieces written so far
    have hloop := Spec.forEach (f := True)
      (g := fun bs => (Io.act fun d => .ok (d.append file bs) : DirProg N β Unit))
      (I := fun done d => Staged d₀ d temporary file ⟨done.flatten, false⟩)
      (E := fun _ d => Partly d₀ d temporary path data) (C := (Partly d₀ · temporary path data))
      (fun done bs (_ : bs ∈ pieces) => ?_) []
    · exact Spec.orFail hloop
    · have happend : ∀ d, Staged d₀ d temporary file ⟨done.flatten, false⟩ →
          Staged d₀ (d.append file bs) temporary file ⟨(done ++ [bs]).flatten, false⟩ := by
        intro d hd
        rw [List.flatten_append, List.flatten_singleton]
        exact hd.append bs
      refine Spec.act (fun d d' hd h => ?_) (fun _ _ _ h => nomatch h) fun _ d hd => ?_
      · cases h
        exact happend d hd
      · refine ⟨fun _ => hd.partly hne, hd.partly hne, fun d' h => ?_⟩
        cases h
        exact ⟨fun _ => (happend d hd).partly hne, (happend d hd).partly hne⟩
  · intro d d' hd h
    cases h
    exact ⟨hd.sync, hd.sync.partly hne⟩

theorem removeFile_spec {I : Dir N β → Prop} {name : N} {e : Error}
    (hI : ∀ d, I d → I (d.unlink name)) :
    Spec True I (removeFile name e) (fun _ => I) (fun _ => I) I := by
  refine Spec.change (fun _ => id) fun d d' hd h => ?_
  split_ifs at h
  cases h
  exact ⟨hI d hd, hI d hd⟩

theorem replace_spec (hne : temporary ≠ path) (overwrite : Bool) :
    Spec True (Staged d₀ · temporary file ⟨data, true⟩) (replace P temporary path overwrite)
      (fun _ d => Replaced d₀ d temporary path data)
      (fun _ d => Partly d₀ d temporary path data) fun d => Partly d₀ d temporary path data := by
  unfold replace
  rcases overwrite with _ | _
  · refine Spec.bind (R := fun _ d => Staged d₀ d temporary file ⟨data, true⟩)
      (Spec.get fun _ => id) fun existing => ?_
    split_ifs
    · exact Spec.fail fun _ hd => hd.partly hne
    · refine Spec.bind (R := fun _ d => Replaced d₀ d temporary path data)
        (Spec.change (fun _ hd => hd.partly hne) fun d d' hd h => ?_) fun _ => ?_
      · split_ifs at h
        cases h
        exact ⟨hd.link hne, (hd.link hne).partly⟩
      · exact (removeFile_spec fun d hd => hd.unlink hne).mono (fun _ => id) (fun _ _ => id)
          (fun _ _ hd => hd.partly) fun _ hd => hd.partly
  · refine Spec.change (fun _ hd => hd.partly hne) fun d d' hd h => ?_
    split_ifs at h
    cases h
    exact ⟨hd.rename hne, (hd.rename hne).partly⟩

/-- **What is left of the file**, however the calls go. -/
theorem atomicWrite_spec (hne : temporary ≠ path) (pieces : List (List β)) (overwrite : Bool)
    (d₀ : Dir N β) :
    Spec True (· = d₀) (atomicWrite P path temporary pieces overwrite)
      (fun _ d => Replaced d₀ d temporary path pieces.flatten ∧
        ∀ c, d.May path c → c = some pieces.flatten)
      (fun _ d => Partly d₀ d temporary path pieces.flatten)
      fun d => Partly d₀ d temporary path pieces.flatten := by
  have hstart : ∀ d, d = d₀ → Partly d₀ d temporary path pieces.flatten := by
    rintro d rfl
    exact .refl d _ _ _
  refine Spec.bind (R := fun _ => (· = d₀)) (Spec.query (fun _ _ hd _ => hd)
    (fun d _ hd _ => hstart d hd) fun _ d hd => ⟨fun _ => hstart d hd, hstart d hd⟩) fun _ => ?_
  refine Spec.bind (R := fun _ => (· = d₀)) (Spec.query (fun _ _ hd _ => hd)
    (fun d _ hd _ => hstart d hd) fun _ d hd => ⟨fun _ => hstart d hd, hstart d hd⟩)
    fun existing => ?_
  split_ifs
  · exact Spec.fail hstart
  refine Spec.bind (createNew_spec hne) fun file => ?_
  have hbody : Spec True (Staged d₀ · temporary file ⟨[], false⟩) (do
      writeDurably file pieces (fileError (P.display temporary) "Cannot durably write metadata")
      replace P temporary path overwrite
      syncDirectory P : DirProg N β Unit)
      (fun _ d => Replaced d₀ d temporary path pieces.flatten ∧
        ∀ c, d.May path c → c = some pieces.flatten)
      (fun _ d => Partly d₀ d temporary path pieces.flatten)
      fun d => Partly d₀ d temporary path pieces.flatten := by
    refine Spec.bind (writeDurably_spec hne pieces _) fun _ => ?_
    refine Spec.bind (replace_spec hne overwrite) fun _ => ?_
    refine Spec.change (fun _ hd => hd.partly) fun d d' hd h => ?_
    cases h
    exact ⟨hd.syncDir, hd.syncDir.1.partly⟩
  refine Spec.bind (R := fun r d => match r with
    | .ok _ => Replaced d₀ d temporary path pieces.flatten ∧
        ∀ c, d.May path c → c = some pieces.flatten
    | .error _ => Partly d₀ d temporary path pieces.flatten)
    (Spec.attempt hbody (fun _ _ => id) fun _ _ => id) fun r => ?_
  rcases r with e | _
  · refine Spec.bind (R := fun _ d => Partly d₀ d temporary path pieces.flatten) ?_
      fun _ => Spec.fail fun _ => id
    exact Spec.attempt (removeFile_spec fun d hd => hd.unlink hne) (fun _ _ => id) fun _ _ => id
  · exact Spec.pure fun _ => id

/-- The write of a new file leaves a file that exists alone. -/
theorem atomicWrite_new {d : Dir N β} (cuts : List (Cut Error)) (pieces : List (List β))
    (h : (d.entries path).isSome = true) :
    (atomicWrite P path temporary pieces false ⟨d, cuts⟩).2.world = d ∧
      (atomicWrite P path temporary pieces false ⟨d, cuts⟩).1 ≠ .ok () := by
  have hspec : Spec True (· = d) (atomicWrite P path temporary pieces false)
      (fun _ _ => False) (fun _ => (· = d)) (· = d) := by
    refine Spec.bind (R := fun _ => (· = d)) (Spec.query (fun _ _ hd _ => hd)
      (fun _ _ hd _ => hd) fun _ _ hd => ⟨fun _ => hd, hd⟩) fun _ => ?_
    refine Spec.bind (R := fun existing w => w = d ∧ existing = d.entries path)
      (Spec.query ?_ (fun _ _ hd _ => hd) fun _ _ hd => ⟨fun _ => hd, hd⟩) fun existing => ?_
    · rintro w e rfl he
      cases he
      exact ⟨rfl, rfl⟩
    · refine Spec.intro (fun _ hd => hd.2) ?_
      rintro rfl
      rw [if_pos ⟨h, by rfl⟩]
      exact Spec.fail fun _ hd => hd.1
  have hends := hspec d cuts (.inl trivial) rfl
  generalize atomicWrite P path temporary pieces false ⟨d, cuts⟩ = r at hends ⊢
  rcases r with ⟨_ | e | _, s⟩
  · exact hends.2.elim
  · exact ⟨hends.2, by simp⟩
  · exact ⟨hends.2, by simp⟩

/-- **For a program that sees the file alone**, the write is one operation. -/
theorem atomicWrite_refines (hne : temporary ≠ path) (d : Dir N β) (cuts : List (Cut Error))
    (pieces : List (List β)) (overwrite : Bool) :
    let r := atomicWrite P path temporary pieces overwrite ⟨d, cuts⟩
    ∃ cuts', (Io.act fun _ => .ok (some pieces.flatten) : Io (Option (List β)) Error Unit)
      ⟨d.read path, cuts'⟩ = (r.1, ⟨r.2.world.read path, []⟩) := by
  intro r
  have hends : Ends True _ _ _ r :=
    atomicWrite_spec hne pieces overwrite d d cuts (.inl trivial) rfl
  generalize r = r' at hends ⊢
  rcases r' with ⟨_ | e | _, s⟩
  · exact ⟨[], by rw [hends.2.1.read]; rfl⟩
  · obtain hread | hread := hends.2.read
    · exact ⟨[.refused e], by rw [hread]; rfl⟩
    · exact ⟨[.lost e], by rw [hread]; rfl⟩
  · obtain hread | hread := hends.2.read
    · exact ⟨[.stopBefore], by rw [hread]; rfl⟩
    · exact ⟨[.stopAfter], by rw [hread]; rfl⟩

end Specs

/-! ### Many writes -/

inductive Input (N β : Type) where
  | write (path temporary : N) (pieces : List (List β)) (overwrite : Bool) (cuts : List (Cut Error))
  | powerFailure (k : ℕ) (fill : ℕ → List β)

/-- A write, with the contents it was to leave and whether it returned. -/
structure Wrote (N β : Type) where
  path : N
  bytes : List β
  done : Bool

/-- A directory with private files. -/
def machine (β : Type) (P : Paths N) : Machine (Dir N β) (Input N β) (Wrote N β) where
  init _ := True
  step d
    | .write path temporary pieces overwrite cuts =>
      let (outcome, s) := atomicWrite P path temporary pieces overwrite ⟨d, cuts⟩
      some (s.world, [⟨path, pieces.flatten, match outcome with
        | .ok _ => true
        | _ => false⟩])
    | .powerFailure k fill => some (d.lose k fill, [])

/-- No temporary file of the write has the name, or that of its own target. -/
def Input.Fresh (path : N) : Input N β → Prop
  | .write target temporary .. => temporary ≠ target ∧ temporary ≠ path
  | .powerFailure .. => True

/-- What may be left of a file after the writes. -/
def left (path : N) (S : Set (Option (List β))) (os : List (Wrote N β)) : Set (Option (List β)) :=
  os.foldl (fun S n => if n.path = path then settle S (some n.bytes) n.done else S) S

variable {P : Paths N} {path : N} {d₀ d : Dir N β} {os : List (Wrote N β)}

/-- **A private file is never left half written.**  Now and after a power failure it has the
contents of the last write that returned, or of a later one; nothing else changes it. -/
theorem private_file_durable (h : (machine β P).Run (fun _ i => i.Fresh path) d₀ os d) :
    Within (left path {c | c = d₀.read path ∨ d₀.May path c} os) d path := by
  refine h.invariant (P := fun os d =>
    Within (left path {c | c = d₀.read path ∨ d₀.May path c} os) d path) (.start d₀ path) ?_
  intro os d i d' o hwithin hfresh hst
  rcases i with ⟨target, temporary, pieces, overwrite, cuts⟩ | ⟨k, fill⟩
  · simp only [machine, Option.some.injEq, Prod.mk.injEq] at hst
    obtain ⟨rfl, rfl⟩ := hst
    have hends := atomicWrite_spec (P := P) hfresh.1 pieces overwrite d d cuts (.inl trivial) rfl
    rw [left, List.foldl_append, List.foldl_cons, List.foldl_nil]
    generalize atomicWrite P target temporary pieces overwrite ⟨d, cuts⟩ = r at hends ⊢
    by_cases htarget : target = path
    · subst htarget
      rw [if_pos rfl]
      rcases r with ⟨_ | e | _, s⟩
      · exact .replaced hends.2.1 hends.2.2
      · exact hwithin.partly hends.2
      · exact hwithin.partly hends.2
    · rw [if_neg htarget]
      -- the write of another file
      have hsame : Same d r.2.world path := by
        rcases r with ⟨_ | e | _, s⟩
        · exact hends.2.1.others path hfresh.2.symm (Ne.symm htarget)
        · exact hends.2.others path hfresh.2.symm (Ne.symm htarget)
        · exact hends.2.others path hfresh.2.symm (Ne.symm htarget)
      exact ⟨hsame.read ▸ hwithin.read, fun c hc => hwithin.may c (hsame.may c hc)⟩
  · simp only [machine, Option.some.injEq, Prod.mk.injEq] at hst
    obtain ⟨rfl, rfl⟩ := hst
    rw [List.append_nil]
    exact hwithin.lose k fill

/-- Two writes, and a power failure before the directory is synced for the second one. -/
def sampleInputs : List (Input ℕ ℕ) :=
  [ .write 0 1 [[1], [2]] true [],
    .write 0 2 [[3]] true (List.replicate 7 .performed ++ [.stopBefore]),
    .powerFailure 1 fun _ => [9] ]

def samplePaths : Paths ℕ := ⟨fun _ => "settings.json", "data"⟩

theorem private_file_durable_sample :
    ((machine ℕ samplePaths).perform .empty sampleInputs).read 0 = some [1, 2] ∧
      Within (left 0 {c | c = Dir.empty.read 0 ∨ Dir.empty.May 0 c}
        ((machine ℕ samplePaths).emitted .empty sampleInputs))
        ((machine ℕ samplePaths).perform .empty sampleInputs) 0 := by
  have hfresh : ∀ i ∈ sampleInputs, ∀ _ : Dir ℕ ℕ, i.Fresh 0 := by simp [sampleInputs, Input.Fresh]
  have hrun := (Machine.Run.refl : (machine ℕ samplePaths).Run (fun _ i => i.Fresh 0) .empty []
    .empty).perform hfresh
  exact ⟨by decide +kernel, private_file_durable hrun⟩

end Ocvpn.Files
