import Ocvpn.Crash.Basic
import Ocvpn.Model.Uuid
import Ocvpn.Model.Value

/-!
# The network journal on disk

The data of `crates/net/src/journal.rs`, `load` and `save`, as interruptible programs over a
`World`.

`Platform` is the module that the source calls `platform`: what it can tell about a key of the
operating system, and how a transaction is planned and applied.  `H` is the state of the operating
system it works on.  `Ocvpn.Unix.Basic` defines the Unix platforms.

`World.attempts` lists every write that a restoration attempted and `World.removals` every file that
was removed, with the state they met; nothing reads them.  `World.memory` is the journal a running
`lifecycle` holds; a stopped process loses it.
-/

namespace Ocvpn.Net

open Crash

/-! ### The journal -/

/-- Names one piece of state of the operating system. -/
structure Key where
  kind : String
  name : String
  deriving DecidableEq, Repr

/-- One planned change of a key. -/
structure Mutation where
  key : Key
  before : Option Value
  intended : Option Value
  applied : Option Value
  deriving DecidableEq

structure TransactionId where
  serviceInstanceId : Uuid
  attemptId : Uuid
  deriving DecidableEq, Repr

structure Journal where
  version : ℕ
  transaction : TransactionId
  bootId : String
  config : NetworkConfig
  mutations : List Mutation
  pendingOperation : Option ℕ
  deriving DecidableEq

/-- The journal's general error. -/
def error : Error := .new .recoveryRequired "Network transaction journal requires recovery"

/-- `failure` of `lib.rs`. -/
def failure (message : String) : Error := .new .networkFailure message

/-- `denied` of `secure.rs`. -/
def denied : Error :=
  .new .authorizationDenied "Network operation requires protected administrator-owned resources"

/-! ### The journal directory -/

/-- The name of a directory entry; a name that is not Unicode keeps whether its extension is
`json`. -/
inductive FileName where
  | text (name : List Char)
  | raw (json : Bool)
  deriving DecidableEq, Repr

/-- What a file of the directory holds, and its length when it can be parsed. -/
inductive Contents where
  | journal (j : Journal) (length : ℕ)
  | garbage
  deriving DecidableEq

/-- The directory, in the order `read_dir` lists it. -/
abbrev Root := List (FileName × Contents)

namespace Root

def find (root : Root) (name : FileName) : Option Contents := root.lookup name

/-- Create or overwrite a file. -/
def put : Root → FileName → Contents → Root
  | [], name, contents => [(name, contents)]
  | (n, c) :: root, name, contents =>
    if name = n then (n, contents) :: root else (n, c) :: put root name contents

def remove (root : Root) (name : FileName) : Root := root.filter (·.1 ≠ name)

/-- The names of the entries. -/
def names (root : Root) : List FileName := root.map Prod.fst

theorem find_cons (name n : FileName) (c : Contents) (root : Root) :
    find ((n, c) :: root) name = if name = n then some c else root.find name := by
  unfold find
  rw [List.lookup_cons]
  by_cases h : name = n
  · simp [h]
  · have hbeq : (name == n) = false := by simpa using h
    simp [h, hbeq]

theorem find_put (root : Root) (name other : FileName) (contents : Contents) :
    (root.put name contents).find other = if other = name then some contents
      else root.find other := by
  induction root with
  | nil => rw [put, find_cons]
  | cons entry root ih =>
    obtain ⟨n, c⟩ := entry
    rw [put, find_cons]
    by_cases hn : name = n
    · rw [if_pos hn, find_cons, hn]
      split <;> rfl
    · rw [if_neg hn, find_cons, ih]
      by_cases ho : other = n
      · rw [if_pos ho, if_neg (ho ▸ Ne.symm hn), if_pos ho]
      · rw [if_neg ho, if_neg ho]

theorem find_remove (root : Root) (name other : FileName) :
    (root.remove name).find other = if other = name then none else root.find other := by
  induction root with
  | nil => by_cases h : other = name <;> simp [remove, find, h]
  | cons entry root ih =>
    obtain ⟨n, c⟩ := entry
    by_cases hn : n = name
    · have hskip : remove ((n, c) :: root) name = remove root name := by simp [remove, hn]
      rw [hskip, ih, find_cons, hn]
      split <;> rfl
    · have hkeep : remove ((n, c) :: root) name = (n, c) :: remove root name := by simp [remove, hn]
      rw [hkeep, find_cons, ih, find_cons]
      by_cases ho : other = n
      · rw [if_pos ho, if_neg (ho ▸ hn), if_pos ho]
      · rw [if_neg ho, if_neg ho]

theorem mem_names {root : Root} {name : FileName} :
    name ∈ root.names ↔ root.find name ≠ none := by
  simp only [names, find, ne_eq, List.lookup_eq_none_iff, List.mem_map]
  grind

theorem mem_names_put {root : Root} {name other : FileName} {contents : Contents} :
    other ∈ (root.put name contents).names ↔ other = name ∨ other ∈ root.names := by
  rw [mem_names, mem_names, find_put]
  by_cases h : other = name <;> simp [h]

theorem mem_names_remove {root : Root} {name other : FileName} :
    other ∈ (root.remove name).names ↔ other ≠ name ∧ other ∈ root.names := by
  rw [mem_names, mem_names, find_remove]
  by_cases h : other = name <;> simp [h]

end Root

/-- The extension of the name is `json`. -/
def FileName.isJson : FileName → Bool
  | text name => ".json".toList.isSuffixOf name && name.length > 5
  | raw json => json

/-- The file name of a transaction, without its extension. -/
def stem (t : TransactionId) : List Char := t.serviceInstanceId.text ++ '-' :: t.attemptId.text

/-- `path`. -/
def path (t : TransactionId) : FileName := .text (stem t ++ ".json".toList)

/-- `path` with the extension `pending`. -/
def pendingPath (t : TransactionId) : FileName := .text (stem t ++ ".pending".toList)

/-- Journals above this length are refused. -/
def maxJournalBytes : ℕ := 16 * 1024 * 1024

/-- The mutations of a journal. -/
def maxMutations : ℕ := 8192

/-! ### The world -/

/-- A write that a restoration attempted, and the operating system it met. -/
structure Attempt (H : Type) where
  key : Key
  value : Option Value
  host : H

/-- A file that was removed, and the operating system at that moment. -/
structure Removal (H : Type) where
  name : FileName
  host : H

/-- What the executed script sends over its pipe. -/
inductive Request where
  /-- A line, without its end. -/
  | line (text : String)
  | malformed
  /-- Nothing, until the deadline. -/
  | late
  deriving DecidableEq, Repr

/-- How the executed script ends. -/
inductive Exit where
  | success | failure | late
  deriving DecidableEq, Repr

/-- One execution of the script, as its parent sees it. -/
structure Transcript where
  requests : List Request
  exit : Exit
  deriving DecidableEq, Repr

structure World (H : Type) where
  host : H
  bootId : String
  root : Root
  /-- The executions of the script to come. -/
  transcripts : List Transcript
  memory : Option Journal
  attempts : List (Attempt H)
  removals : List (Removal H)

/-- A program of the network helper. -/
abbrev Prog (H α : Type) := Io (World H) Error α

/-- A program of the platform: it works on the operating system alone. -/
abbrev HostProg (H α : Type) := Io H Error α

/-- Run a program of the platform. -/
def onHost {H α : Type} (x : HostProg H α) : Prog H α :=
  Io.zoom (·.host) (fun host w => { w with host }) x

/-- `ocvpn_model::Result` inside a program. -/
def ofRun {W α : Type} : Run α → Io W Error α
  | .ok a => pure a
  | .error (.error e) => Io.fail e
  | .error .panic => Io.panic

theorem ofRun_eq_ok {W α : Type} {r : Run α} {a : α} {s s' : State W Error} :
    ofRun r s = (.ok a, s') ↔ r = .ok a ∧ s' = s := by
  cases r with
  | ok b =>
    show ((Outcome.ok b, s) : Outcome Error α × _) = _ ↔ _
    simp [eq_comm]
  | error e => cases e <;> exact iff_of_false nofun fun h => by cases h.1

/-- A check that must pass before the program goes on. -/
theorem spec_ofRun_bind {W α β : Type} {f : Prop} {P : W → Prop} {Q : β → W → Prop}
    {E : Error → W → Prop} {C : W → Prop} {r : Run α} {x : α → Io W Error β}
    (hx : ∀ a, r = .ok a → Spec f P (x a) Q E C)
    (herr : ∀ e w, P w → r = .error (.error e) → E e w)
    (hpanic : ∀ w, P w → r = .error .panic → f ∧ C w) : Spec f P (ofRun r >>= x) Q E C := by
  cases r with
  | ok a => exact hx a rfl
  | error e =>
    cases e with
    | error e => exact fun w cuts hf hw => ⟨hf, herr e w hw rfl⟩
    | panic => exact fun w cuts _ hw => hpanic w hw rfl

/-- What only the Unix platforms have. -/
structure UnixOps (H : Type) where
  /-- `interface::resolve`. -/
  resolve : H → String → Except Error InterfaceIdentity
  /-- `apply_one`. -/
  applyOne : NetworkConfig → Mutation → HostProg H (Option Value)

/-- How a platform applies a plan: the code under `cfg(unix)` or the code under `cfg(windows)`. -/
inductive Adapter (H : Type) where
  | unix (ops : UnixOps H)
  | windows (applyPlanned : List Mutation → HostProg H Unit)

/-- The module `platform`. -/
structure Platform (H : Type) where
  vanished : H → Key → Except Error Bool
  read : H → Key → Except Error (Option Value)
  /-- Put a key back to its value before, given the current one: `write` on Unix, `restore` on
  Windows. -/
  restore : Key → Option Value → Option Value → H → Except Error H
  equivalent : Key → Option Value → Option Value → Bool
  plan : NetworkConfig → TransactionId → HostProg H (List Mutation)
  adapter : Adapter H
  observe : NetworkConfig → HostProg H NetworkObservation
  /-- The length of a journal's text. -/
  length : Journal → ℕ
  uuid : UuidCrate

section Programs

variable {H : Type} (P : Platform H)

/-! ### Files -/

/-- `secure::privileged`. -/
def privileged : Prog H Unit := (Io.query fun _ => .ok ()).orFail denied

/-- `lock`: the directory is safe, and the lock file was opened and locked. -/
def lock : Prog H Unit := Io.query fun _ => .ok ()

/-- `secure::boot_id`. -/
def bootId : Prog H String := Io.query fun w => .ok w.bootId

/-- `secure::sync_directory`. -/
def syncDirectory : Prog H Unit :=
  (Io.query fun _ => .ok ()).orFail (failure "Cannot durably commit network journal")

/-- `std::fs::read_dir`. -/
def readDir : Prog H (List FileName) :=
  (Io.query fun w => .ok w.root.names).orFail error

/-- Open a file that exists. -/
def openFile (name : FileName) : Prog H Contents :=
  (Io.query fun w => match w.root.find name with
    | some contents => .ok contents
    | none => .error denied).orFail denied

/-- Create or overwrite a file. -/
def writeFile (name : FileName) (contents : Contents) (e : Error) : Prog H Unit :=
  (Io.act fun w => .ok { w with root := w.root.put name contents }).orFail e

/-- Move a file over another one. -/
def rename (source target : FileName) : Prog H Unit :=
  (Io.act fun w => match w.root.find source with
    | some contents => .ok { w with root := (w.root.remove source).put target contents }
    | none => .error error).orFail error

/-- `std::fs::remove_file`. -/
def removeFile (name : FileName) : Prog H Unit :=
  (Io.act fun w => match w.root.find name with
    | some _ => .ok
      { w with root := w.root.remove name, removals := ⟨name, w.host⟩ :: w.removals }
    | none => .error error).orFail error

/-- What `load` checks of a parsed journal. -/
def accepted (t : TransactionId) (j : Journal) : Bool :=
  j.version = 1 && j.transaction = t && j.mutations.length ≤ maxMutations &&
    j.pendingOperation.all (· < j.mutations.length)

/-- `load`. -/
def load (t : TransactionId) : Prog H (Option Journal) := do
  let found ← (Io.query fun w => .ok (w.root.find (path t)).isSome).orFail error
  if !found then pure none
  else do
    match ← openFile (path t) with
    | .garbage => Io.fail error
    | .journal j length =>
      if length > maxJournalBytes then Io.fail error
      else if !accepted t j then Io.fail error
      else do
        ofRun j.config.validate
        pure (some j)

/-- `save`. -/
def save (j : Journal) : Prog H Unit := do
  let tmp := pendingPath j.transaction
  writeFile tmp .garbage denied
  writeFile tmp (.journal j (P.length j)) error
  if P.length j > maxJournalBytes then Io.fail error
  else do
    (Io.query fun _ => .ok ()).orFail error
    rename tmp (path j.transaction)
    syncDirectory

/-! ### Keys -/

/-- `platform::read`. -/
def readKey (key : Key) : Prog H (Option Value) := Io.query fun w => P.read w.host key

/-- Change the operating system, noting the attempt. -/
def writeHost (key : Key) (value : Option Value) (write : H → Except Error H) : Prog H Unit := do
  Io.modify fun w => { w with attempts := ⟨key, value, w.host⟩ :: w.attempts }
  Io.act fun w => (write w.host).map fun host => { w with host }

end Programs

end Ocvpn.Net
