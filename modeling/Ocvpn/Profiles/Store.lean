import Ocvpn.Journal.Basic
import Ocvpn.LTS.Basic
import Ocvpn.Model.Profile

/-!
# The profile store

`crates/client/src/profiles.rs`, as far as it is about profiles.  The store is a file,
`profiles.json`, that every operation reads and writes under an exclusive lock, so that the
operations of any number of clients happen one after another.  An operation is a program on that
file: taking the lock, opening, reading and replacing the file and deleting credentials may fail or
may be where the program is stopped.

`serde_json` is a parameter: a type of texts and a type of parsed values (`Serde`), and for each
kind of document the text it is written as and the values it is read from (`Codec`).
-/

namespace Ocvpn

open Crash

open Net (ofRun)

/-- `serde_json`, as far as `decode` uses it. -/
class Serde (Text : Type) (Value : outParam Type) where
  /-- The number of bytes. -/
  len : Text → ℕ
  /-- `from_slice::<Value>`. -/
  fromSlice : Text → Option Value
  get : Value → String → Option Value
  asU64 : Value → Option UInt64

/-- The generated code that writes and reads one kind of document. -/
class Codec (Text : Type) (Value : outParam Type) (α : Type) where
  toVecPretty : α → Text
  fromValue : Value → Option α

export Serde (len fromSlice asU64)
export Serialize (serialize)
export Codec (toVecPretty fromValue)

/-- `LIMIT`. -/
def metadataLimit : ℕ := 8 * 1024 * 1024

def failure (path : String) (code : ErrorCode) (message : String) : Error :=
  { code, message, details := some path }

def increment (value : UInt64) : Run UInt64 :=
  if value.toNat + 1 = 2 ^ 64 then Exec.fail (.new .conflict "Metadata revision exhausted")
  else pure (value + 1)

def stale (actual expected : UInt64) : Run Unit :=
  Exec.rejectIf (actual != expected) (.new .conflict "Metadata changed; reload before saving")

section

variable {Url : Type} [UrlCrate Url]

def select (uuid : UuidCrate) (profiles : List (Profile Url)) (selector : String) :
    Run (Profile Url) :=
  let found := match uuid.parseStr selector.toList with
    | some id => profiles.find? (·.id == id)
    | none => profiles.find? (·.name == selector)
  match found with
  | some p => pure p
  | none => Exec.fail (.new .notFound "Profile does not exist")

/-- The loop of `validate_profiles`, with the IDs and names it met. -/
def validateProfilesFrom (ids : List Uuid) (names : List String) : List (Profile Url) → Run Unit
  | [] => pure ()
  | p :: ps => do
    p.validate
    Exec.rejectIf (ids.contains p.id || names.contains p.name)
      (.new .conflict "Duplicate profile ID or name")
    validateProfilesFrom (p.id :: ids) (p.name :: names) ps

def validateProfiles (profiles : List (Profile Url)) : Run Unit := validateProfilesFrom [] [] profiles

/-- The error of an import whose profiles conflict with stored ones or with each other. -/
def importError (conflicts : List String) : Error :=
  { code := .conflict
    message := "Import conflicts; no profiles were imported"
    details := some ("; ".intercalate conflicts) }

/-- What `import_json` finds in the way of the profiles. -/
def importConflicts (ids : List Uuid) (names : List String) : List (Profile Url) → List String
  | [] => []
  | p :: ps =>
    (if ids.contains p.id then ["duplicate ID " ++ String.ofList p.id.text] else []) ++
      (if names.contains p.name then ["duplicate name " ++ p.name] else []) ++
      importConflicts (p.id :: ids) (p.name :: names) ps

end

variable {Text Value : Type} [Serde Text Value]

def decode {α : Type} [Codec Text Value α] (bytes : Text) (path : String) : Run α := do
  Exec.rejectIf (len bytes > metadataLimit)
    (failure path .corruptStorage "Metadata exceeds size limit")
  match fromSlice bytes with
  | none => Exec.fail (failure path .corruptStorage
      "Malformed metadata; repair or restore this file")
  | some value => do
    match (Serde.get Text value "schema_version").bind (asU64 Text) with
    | none => Exec.fail (failure path .corruptStorage "Invalid metadata schema version")
    | some v => do
      Exec.rejectIf (v > 1) (failure path .newerSchema
        "Metadata requires a newer application version")
      Exec.rejectIf (v == 0) (failure path .corruptStorage "Invalid metadata schema version")
    Exec.rejectIf ((Serde.get Text value "revision").any fun v => (asU64 Text v).all (· == 0))
      (failure path .corruptStorage "Invalid metadata revision")
    match fromValue Text value with
    | none => Exec.fail (failure path .corruptStorage
        "Invalid metadata document; repair or restore this file")
    | some a => pure a

/-- The store; errors show the path of its file, and the `uuid` crate reads selectors. -/
structure ProfileStore where
  profilesPath : String
  uuid : UuidCrate

/-- A program on the file, `none` while there is none. -/
abbrev StoreProg (Text α : Type) := Io (Option Text) Error α

namespace ProfileStore

variable {Url : Type} [UrlCrate Url] [Codec Text Value (ProfileDocument Url)]
  [Codec Text Value (ProfileExport Url)] (S : ProfileStore)

def lock : StoreProg Text Unit := Io.query fun _ => .ok ()

/-- Read the file.  Of a file beyond the limit the source reads a byte more than the limit, which
`decode` rejects as it does the whole file. -/
def read : StoreProg Text (Option (ProfileDocument Url)) := do
  match ← Io.query fun file => .ok file with
  | none => pure none
  | some bytes => do
    (Io.query fun _ => .ok ()).orFail
      (failure S.profilesPath .runtimeFailure "Cannot read metadata")
    let document ← ofRun (decode bytes S.profilesPath)
    pure (some document)

/-- `private_fs::atomic_write`: a write that reports an error did not replace the file. -/
def atomicWrite (bytes : Text) : StoreProg Text Unit := Io.atomic (Io.act fun _ => .ok (some bytes))

def write (document : ProfileDocument Url) : StoreProg Text Unit := do
  let bytes : Text := toVecPretty document
  ofRun (Exec.rejectIf (len bytes > metadataLimit)
    (failure S.profilesPath .invalidInput "Metadata exceeds size limit"))
  atomicWrite bytes

def profilesUnlocked : StoreProg Text (ProfileDocument Url) := do
  let document := (← S.read).getD ⟨1, 0, []⟩
  (ofRun (validateProfiles document.profiles)).orFail (failure S.profilesPath .corruptStorage
    "Invalid stored profiles; repair or restore this file")
  pure document

def commit (document : ProfileDocument Url) : StoreProg Text Unit := do
  let revision ← ofRun (increment document.revision)
  S.write { document with revision }

def list : StoreProg Text (ProfileDocument Url) := do
  lock
  S.profilesUnlocked

def create (profile : Profile Url) : StoreProg Text (Profile Url) := do
  lock
  let document ← S.profilesUnlocked
  let profile := { profile with revision := 1 }
  ofRun profile.validate
  let profiles := document.profiles ++ [profile]
  ofRun (validateProfiles profiles)
  S.commit { document with profiles }
  pure profile

def update (profile : Profile Url) : StoreProg Text (Profile Url) := do
  lock
  let document ← S.profilesUnlocked
  ofRun profile.validate
  match document.profiles.find? (·.id == profile.id) with
  | none => Io.fail (.new .notFound "Profile does not exist")
  | some stored => do
    ofRun (stale stored.revision profile.revision)
    let revision ← ofRun (increment profile.revision)
    let profile := { profile with revision }
    let index := document.profiles.findIdx (·.id == profile.id)
    let profiles := document.profiles.set index profile
    ofRun (validateProfiles profiles)
    S.commit { document with profiles }
    pure profile

/-- Duplicate a profile; `fresh` is what `Uuid::new_v4` returns. -/
def duplicate (fresh : Uuid) (selector name : String) : StoreProg Text (Profile Url) := do
  lock
  let document ← S.profilesUnlocked
  let source ← ofRun (select S.uuid document.profiles selector)
  let profile := { source with id := fresh, revision := 1, name }
  let profiles := document.profiles ++ [profile]
  ofRun (validateProfiles profiles)
  S.commit { document with profiles }
  pure profile

/-- `credentials::delete_profile_blocking`. -/
def deleteCredentials : StoreProg Text Unit := Io.query fun _ => .ok ()

def remove (Url : Type) [UrlCrate Url] [Codec Text Value (ProfileDocument Url)] (id : Uuid)
    (expectedRevision : UInt64) (guarded : List Uuid) : StoreProg Text Unit := do
  lock
  ofRun (Exec.rejectIf (guarded.contains id)
    (.new .busy "Cannot remove an active or pending profile"))
  let document : ProfileDocument Url ← S.profilesUnlocked
  match document.profiles.find? (·.id == id) with
  | none => Io.fail (.new .notFound "Profile does not exist")
  | some stored => do
    ofRun (stale stored.revision expectedRevision)
    let _ ← ofRun (increment document.revision)
    deleteCredentials
    let index := document.profiles.findIdx (·.id == id)
    S.commit { document with profiles := document.profiles.eraseIdx index }

def importJson (bytes : Text) : StoreProg Text (List (Profile Url)) := do
  let imported : ProfileExport Url ← ofRun (decode bytes "<profile import>")
  let profiles := imported.profiles.map Profile.renumbered
  ofRun (profiles.forM Profile.validate)
  lock
  let document ← S.profilesUnlocked
  let conflicts := importConflicts (document.profiles.map (·.id)) (document.profiles.map (·.name))
    profiles
  ofRun (Exec.rejectIf (!conflicts.isEmpty) (importError conflicts))
  S.commit { document with profiles := document.profiles ++ profiles }
  pure profiles

def exportJson (Url : Type) [UrlCrate Url] [Codec Text Value (ProfileDocument Url)]
    [Codec Text Value (ProfileExport Url)] (selector : Option String) : StoreProg Text Text := do
  let document : ProfileDocument Url ← S.list
  let profiles ← match selector with
    | some s => do
      let p ← ofRun (select S.uuid document.profiles s)
      pure [p]
    | none => pure document.profiles
  pure (toVecPretty (⟨1, profiles⟩ : ProfileExport Url))

end ProfileStore

/-- What a client asks of the store. -/
inductive StoreOp (Text Url : Type) where
  | list
  | create (profile : Profile Url)
  | update (profile : Profile Url)
  | duplicate (fresh : Uuid) (selector name : String)
  | remove (id : Uuid) (expectedRevision : UInt64) (guarded : List Uuid)
  | importJson (bytes : Text)
  | exportJson (selector : Option String)

namespace StoreOp

variable {Url : Type} [UrlCrate Url] [Codec Text Value (ProfileDocument Url)]
  [Codec Text Value (ProfileExport Url)]

/-- The operation changes profiles. -/
def mutates : StoreOp Text Url → Bool
  | list | exportJson _ => false
  | _ => true

/-- The operation without what it returns. -/
def run (S : ProfileStore) : StoreOp Text Url → StoreProg Text Unit
  | list => do
    let _ : ProfileDocument Url ← S.list
    pure ()
  | create profile => do
    let _ ← S.create profile
    pure ()
  | update profile => do
    let _ ← S.update profile
    pure ()
  | duplicate fresh selector name => do
    let _ : Profile Url ← S.duplicate fresh selector name
    pure ()
  | remove id expectedRevision guarded => S.remove Url id expectedRevision guarded
  | importJson bytes => do
    let _ : List (Profile Url) ← S.importJson bytes
    pure ()
  | exportJson selector => do
    let _ ← S.exportJson Url selector
    pure ()

end StoreOp

/-- The store on its own: the operations of all clients in the order of the lock, each with the
cuts it meets, from the day there is no file. -/
def ProfileStore.machine (S : ProfileStore) (Text Url : Type) {Value : Type} [Serde Text Value]
    [UrlCrate Url] [Codec Text Value (ProfileDocument Url)] [Codec Text Value (ProfileExport Url)] :
    Machine (Option Text) (StoreOp Text Url × List (Cut Error)) (Outcome Error Unit) where
  init file := file = none
  step file input :=
    let (outcome, s) := input.1.run S ⟨file, input.2⟩
    some (s.world, [outcome])

end Ocvpn
