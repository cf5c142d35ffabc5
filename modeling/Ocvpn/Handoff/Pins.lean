import Ocvpn.Auth.Control
import Ocvpn.Profiles.Store

/-!
# Certificate pins

`CertificatePin::new` (`crates/model/src/profile.rs`), and `pins` and `save_pin` of the store
(`crates/client/src/profiles.rs`).  The file is taken as the document it holds; how a document
becomes text is as it is for profiles, and a file that cannot be read is a look that fails.

## Main results

* `savePin_spec` : a save puts the pin into the document or leaves it alone, and puts it there if it
  succeeds.
-/

namespace Ocvpn.Handoff

open Auth Crash Net

/-- The store's file, whose path its errors show, and what `CertificatePin::new` uses. -/
structure PinStore where
  pinsPath : String
  /-- `url::Host::parse`, as text. -/
  parseHost : String → Option String
  /-- Base64 of 32 bytes. -/
  decodes : String → Bool

variable (S : PinStore)

/-- A text after its prefix. -/
def afterPrefix (start text : String) : Option String :=
  if start.toList.isPrefixOf text.toList then
    some (String.ofList (text.toList.drop start.toList.length))
  else none

def isHexDigit (c : Char) : Bool :=
  ('0' ≤ c && c ≤ '9') || ('a' ≤ c && c ≤ 'f') || ('A' ≤ c && c ≤ 'F')

/-- `validate_fingerprint`. -/
def validateFingerprint (fingerprint : String) : Run Unit :=
  let valid := match afterPrefix "pin-sha256:" fingerprint with
    | some value => value.utf8ByteSize == 44 && S.decodes value
    | none =>
      let (value, length) := match afterPrefix "sha256:" fingerprint with
        | some value => (value, 64)
        | none => ((afterPrefix "sha1:" fingerprint).getD fingerprint, 40)
      value.utf8ByteSize == length && value.toList.all isHexDigit
  Exec.rejectIf (!valid)
    (.invalid "Certificate fingerprints require a complete supported hash")

/-- `CertificatePin::new`. -/
def certificatePin (host : String) (port : UInt16) (fingerprint : String) : Run CertificatePin := do
  validateFingerprint S fingerprint
  Exec.rejectIf (port == 0) (.invalid "Invalid certificate pin")
  match S.parseHost host with
  | none => Exec.fail (.invalid "Invalid pin host")
  | some host => pure { host, port, fingerprint }

/-- `PinsDocument`. -/
structure PinsDocument where
  schemaVersion : UInt32 := 1
  revision : UInt64 := 0
  pins : List CertificatePin := []
  deriving DecidableEq

/-- A program on the file. -/
abbrev PinsProg (α : Type) := Io PinsDocument Error α

/-- The loop of `pins_unlocked`, with the hosts and ports it met. -/
def checkPins (hosts : List (String × UInt16)) : List CertificatePin → Run Unit
  | [] => pure ()
  | pin :: pins => do
    match certificatePin S pin.host pin.port pin.fingerprint with
    | .error _ => Exec.fail (failure S.pinsPath .corruptStorage
        "Invalid stored certificate pin")
    | .ok normalized => do
      Exec.rejectIf (normalized != pin || hosts.contains (pin.host, pin.port))
        (failure S.pinsPath .corruptStorage
          "Invalid or duplicate stored certificate pin")
      checkPins ((pin.host, pin.port) :: hosts) pins

/-- `pins_unlocked`. -/
def pinsUnlocked : PinsProg PinsDocument := do
  let document ← Io.query .ok
  ofRun (checkPins S [] document.pins)
  pure document

/-- Take the lock of the store. -/
def lockStore : PinsProg Unit := Io.query fun _ => .ok ()

/-- `pins`. -/
def pins : PinsProg PinsDocument := do
  lockStore
  pinsUnlocked S

/-- The pins with a new one, in the place of that for its host and port. -/
def put (pin : CertificatePin) : List CertificatePin → List CertificatePin
  | [] => [pin]
  | p :: ps => if p.host = pin.host ∧ p.port = pin.port then pin :: ps else p :: put pin ps

/-- `save_pin`. -/
def savePin (pin : CertificatePin) (expectedRevision : UInt64) : PinsProg PinsDocument := do
  let pin ← ofRun (certificatePin S pin.host pin.port pin.fingerprint)
  lockStore
  let document ← pinsUnlocked S
  ofRun (stale document.revision expectedRevision)
  let revision ← ofRun (increment document.revision)
  let document := { document with revision, pins := put pin document.pins }
  -- `atomic_write` may also fail after it has replaced the file, when it syncs the directory
  Io.act fun _ => .ok document
  pure document

theorem mem_put (pin : CertificatePin) (ps : List CertificatePin) : pin ∈ put pin ps := by
  induction ps with
  | nil => simp [put]
  | cons p ps ih =>
    unfold put
    split_ifs
    · exact List.mem_cons_self
    · exact List.mem_cons_of_mem _ ih

/-- What a save does to the document. -/
def Saves (pin : CertificatePin) (d d' : PinsDocument) : Prop :=
  ∃ pin', certificatePin S pin.host pin.port pin.fingerprint = .ok pin' ∧ d'.pins = put pin' d.pins

/-- **A save** puts the pin into the document; if it fails or stops, it may have left it alone. -/
theorem savePin_spec (pin : CertificatePin) (expectedRevision : UInt64) (d : PinsDocument) :
    Spec True (· = d) (savePin S pin expectedRevision) (fun d' w => w = d' ∧ Saves S pin d d')
      (fun _ w => w = d ∨ Saves S pin d w) fun w => w = d ∨ Saves S pin d w := by
  unfold savePin
  refine spec_ofRun_bind (fun pin' hpin => ?_) (fun _ _ hw _ => .inl hw) fun _ hw _ => ⟨⟨⟩, .inl hw⟩
  refine Spec.bind (R := fun _ => (· = d)) (Spec.query (fun _ _ hw _ => hw)
    (fun _ _ hw _ => .inl hw) fun _ _ hw => ⟨fun _ => .inl hw, .inl hw⟩) fun _ => ?_
  refine Spec.bind (R := fun d' w => d' = d ∧ w = d) ?_ fun d' => ?_
  · refine Spec.bind (R := fun d' w => d' = d ∧ w = d) (Spec.query ?_ (fun _ _ hw _ => .inl hw)
      fun _ _ hw => ⟨fun _ => .inl hw, .inl hw⟩) fun d' => ?_
    · rintro _ _ rfl hd'
      cases hd'
      exact ⟨rfl, rfl⟩
    · exact spec_ofRun_bind (fun _ _ => Spec.pure fun _ => id) (fun _ _ hw _ => .inl hw.2)
        fun _ hw _ => ⟨⟨⟩, .inl hw.2⟩
  refine Spec.intro (p := d' = d) (fun _ => And.left) ?_
  rintro rfl
  refine spec_ofRun_bind (fun _ _ => ?_) (fun _ _ hw _ => .inl hw.2) fun _ hw _ => ⟨⟨⟩, .inl hw.2⟩
  refine spec_ofRun_bind (fun revision _ => ?_) (fun _ _ hw _ => .inl hw.2)
    fun _ hw _ => ⟨⟨⟩, .inl hw.2⟩
  have hsaves : Saves S pin d' { d' with revision, pins := put pin' d'.pins } := ⟨pin', hpin, rfl⟩
  refine Spec.bind (R := fun _ w => w = { d' with revision, pins := put pin' d'.pins }) ?_
    fun _ => Spec.pure fun w hw => ⟨hw, hsaves⟩
  refine Spec.act ?_ (fun _ _ _ h => nomatch h) fun _ w hw => ?_
  · rintro _ _ - h
    cases h
    rfl
  · refine ⟨fun _ => .inl hw.2, .inl hw.2, ?_⟩
    rintro _ ⟨rfl⟩
    exact ⟨fun _ => .inr hsaves, .inr hsaves⟩

end Ocvpn.Handoff
