import Ocvpn.Json.Basic
import Ocvpn.Model.Uuid

/-!
# Profiles and their documents

`crates/model/src/profile.rs` and the documents of `crates/model/src/storage.rs` that hold
profiles.  The `url` crate is a parameter: a type of URLs with the accessors the checks read.

## Main results

* `Profile.validate_revision` : a valid profile stays valid under every revision but zero.
* `ProfileDocument.renumbered_length_le`, `ProfileExport.length_le` : numbering the profiles of a
  document anew, or exporting them, does not take more space than the document.
-/

namespace Ocvpn

/-- The `url` crate, as far as profiles use it. -/
class UrlCrate (Url : Type) where
  asStr : Url → String
  scheme : Url → String
  host : Url → Option String
  cannotBeABase : Url → Bool
  username : Url → String
  password : Url → Option String
  port : Url → Option UInt16
  path : Url → String
  query : Url → Option String
  fragment : Url → Option String
  /-- `url::Host::parse`. -/
  parseHost : String → Option String

inductive BrowserMode where
  | auto | system | embedded | manual
  deriving DecidableEq, Repr

inductive TokenMode where
  | none | totp | hotp | stoken | yubioath | oidc
  deriving DecidableEq, Repr

/-- A connection profile. -/
structure Profile (Url : Type) where
  id : Uuid
  revision : UInt64
  name : String
  protocol : String
  server : Url
  username : Option String := none
  authGroup : Option String := none
  gateway : Option String := none
  caFile : Option String := none
  clientCertificate : Option String := none
  clientKey : Option String := none
  secondaryCertificate : Option String := none
  secondaryKey : Option String := none
  proxy : Option Url := none
  userAgent : Option String := none
  reportedOs : Option String := none
  mtu : Option UInt16 := none
  sni : Option String := none
  directGateway : Bool := false
  disableDtls : Bool := false
  disableIpv6 : Bool := false
  browserMode : BrowserMode := .auto
  tokenMode : TokenMode := .none
  reconnectTimeoutSecs : UInt32 := 300
  rememberPassword : Bool := false
  deriving DecidableEq

/-- The stored profiles. -/
structure ProfileDocument (Url : Type) where
  schemaVersion : UInt32
  revision : UInt64
  profiles : List (Profile Url)
  deriving DecidableEq

/-- Profiles on their way to another store. -/
structure ProfileExport (Url : Type) where
  schemaVersion : UInt32
  profiles : List (Profile Url)
  deriving DecidableEq

/-! ### Checks -/

/-- `char::is_whitespace`. -/
def isWhitespace (c : Char) : Bool :=
  (0x09 ≤ c.toNat && c.toNat ≤ 0x0d) || (0x2000 ≤ c.toNat && c.toNat ≤ 0x200a) ||
    [0x20, 0x85, 0xa0, 0x1680, 0x2028, 0x2029, 0x202f, 0x205f, 0x3000].contains c.toNat

/-- `is_ascii_alphanumeric`, `-` and `_`. -/
def isIdentifier (c : Char) : Bool := c.isAlphanum || c == '-' || c == '_'

/-- `split_once`. -/
def splitOnce (separator : Char) : List Char → Option (List Char × List Char)
  | [] => none
  | c :: cs => if c = separator then some ([], cs) else
    (splitOnce separator cs).map fun (before, after) => (c :: before, after)

/-- `eq_ignore_ascii_case`. -/
def eqIgnoreAsciiCase (a b : List Char) : Bool := a.map Char.toLower == b.map Char.toLower

/-- One attribute of a PKCS#11 reference. -/
def validateAttribute (part : List Char) : Run Unit :=
  match splitOnce '=' part with
  | none => Exec.fail (.invalid "Invalid PKCS#11 attribute")
  | some (name, _) => do
    Exec.rejectIf (name.isEmpty || !name.all isIdentifier) (.invalid
      "Invalid PKCS#11 attribute name; percent encoding is only allowed in values")
    Exec.rejectIf (["pin-value", "pin-source", "pinfile"].any (eqIgnoreAsciiCase name ·.toList)) (.invalid
      "PKCS#11 PIN values and sources cannot be saved in profile metadata; use the credential prompt")

def validateCertificateReference (value : String) : Run Unit :=
  match splitOnce ':' value.toList with
  | none => pure ()
  | some (scheme, attributes) =>
    if !eqIgnoreAsciiCase (scheme.filter (· ≠ ' ')) "pkcs11".toList then .ok ()
    else
      let attributes := attributes.filter (· ≠ ' ')
      let (path, query) := (splitOnce '?' attributes).getD (attributes, [])
      ((splitOn ';' path ++ splitOn '&' query).filter (!·.isEmpty)).forM validateAttribute

section

variable {Url : Type} [UrlCrate Url]

open UrlCrate

def validateHttps (url : Url) : Run Unit :=
  Exec.rejectIf (scheme url != "https" || (host url).isNone || cannotBeABase url || username url != "" ||
    (password url).isSome || (fragment url).isSome || port url == some 0) (.invalid
    "Server must be an absolute HTTPS URL without credentials or fragment and with a valid port")

def validateProxy (proxy : Url) : Run Unit :=
  Exec.rejectIf (!(["http", "socks", "socks5"].contains (scheme proxy)) || (host proxy).isNone ||
    username proxy != "" || (password proxy).isSome || (fragment proxy).isSome ||
    (query proxy).isSome || !(["", "/"].contains (path proxy)) || port proxy == some 0) (.invalid
    "Proxy must be an HTTP/SOCKS endpoint without credentials, path, query or fragment")

/-- `validate`. -/
def Profile.validate (p : Profile Url) : Run Unit := do
  Exec.rejectIf (p.id == 0 || p.revision == 0) (.invalid "Profile ID and revision must be nonzero")
  Exec.rejectIf (p.name.toList.all isWhitespace || p.name.toList.any isControl) (.invalid
    "Profile name must be nonempty and contain no control characters")
  validateHttps p.server
  Exec.rejectIf (p.protocol.isEmpty || !p.protocol.toList.all isIdentifier)
    (.invalid "Invalid protocol identifier")
  p.mtu.forM fun mtu => do
    let minimum : UInt16 := if p.disableIpv6 then 576 else 1280
    Exec.rejectIf (!(minimum ≤ mtu && mtu ≤ 9000)) (.invalid s!"MTU must be {minimum}..9000")
  p.reportedOs.forM fun os =>
    Exec.rejectIf (!(["linux", "linux-64", "win", "mac-intel", "android", "apple-ios"].contains os))
      (.invalid "Unsupported reported OS")
  p.proxy.forM validateProxy
  [p.username, p.authGroup, p.gateway, p.caFile, p.clientCertificate, p.clientKey,
    p.secondaryCertificate, p.secondaryKey, p.userAgent, p.reportedOs,
    p.sni].reduceOption.forM fun value =>
      Exec.rejectIf (value.toList.any isControl) (.invalid
        "Profile options cannot contain control characters")
  [p.caFile, p.clientCertificate, p.clientKey, p.secondaryCertificate,
    p.secondaryKey].reduceOption.forM validateCertificateReference
  p.sni.forM fun sni =>
    Exec.rejectIf (sni.isEmpty || (parseHost Url sni).isNone) (.invalid "SNI must be a valid hostname")

/-- Nothing but its being zero is checked of a revision. -/
theorem Profile.validate_revision {p : Profile Url} {r : UInt64} (h : p.validate = .ok ())
    (hr : r ≠ 0) : Profile.validate { p with revision := r } = .ok () := by
  unfold Profile.validate at h ⊢
  obtain ⟨_, hid, hrest⟩ := Exec.bind_eq_ok.1 h
  refine Exec.bind_eq_ok.2 ⟨(), ?_, hrest⟩
  simp only [Exec.rejectIf_eq_ok, Bool.or_eq_false_iff, beq_eq_false_iff_ne] at hid ⊢
  exact ⟨hid.1, hr⟩

/-! ### Serialization -/

/-- The tree a value is written as. -/
class Serialize (α : Type) where
  serialize : α → Json

/-- `snake_case`. -/
def BrowserMode.serialize : BrowserMode → Json
  | .auto => .string "auto"
  | .system => .string "system"
  | .embedded => .string "embedded"
  | .manual => .string "manual"

def TokenMode.serialize : TokenMode → Json
  | .none => .string "none"
  | .totp => .string "totp"
  | .hotp => .string "hotp"
  | .stoken => .string "stoken"
  | .yubioath => .string "yubioath"
  | .oidc => .string "oidc"

/-- A value that may be missing is written as `null` then. -/
def serializeOption {α : Type} (f : α → Json) : Option α → Json
  | none => .null
  | some a => f a

def Profile.serialize (p : Profile Url) : Json := .object [
  ("id", .string (String.ofList p.id.text)),
  ("revision", .number p.revision.toNat),
  ("name", .string p.name),
  ("protocol", .string p.protocol),
  ("server", .string (asStr p.server)),
  ("username", serializeOption .string p.username),
  ("auth_group", serializeOption .string p.authGroup),
  ("gateway", serializeOption .string p.gateway),
  ("ca_file", serializeOption .string p.caFile),
  ("client_certificate", serializeOption .string p.clientCertificate),
  ("client_key", serializeOption .string p.clientKey),
  ("secondary_certificate", serializeOption .string p.secondaryCertificate),
  ("secondary_key", serializeOption .string p.secondaryKey),
  ("proxy", serializeOption (.string <| asStr ·) p.proxy),
  ("user_agent", serializeOption .string p.userAgent),
  ("reported_os", serializeOption .string p.reportedOs),
  ("mtu", serializeOption (.number ·.toNat) p.mtu),
  ("sni", serializeOption .string p.sni),
  ("direct_gateway", .bool p.directGateway),
  ("disable_dtls", .bool p.disableDtls),
  ("disable_ipv6", .bool p.disableIpv6),
  ("browser_mode", p.browserMode.serialize),
  ("token_mode", p.tokenMode.serialize),
  ("reconnect_timeout_secs", .number p.reconnectTimeoutSecs.toNat),
  ("remember_password", .bool p.rememberPassword)]

def ProfileDocument.serialize (d : ProfileDocument Url) : Json := .object [
  ("schema_version", .number d.schemaVersion.toNat),
  ("revision", .number d.revision.toNat),
  ("profiles", .array (d.profiles.map Profile.serialize))]

def ProfileExport.serialize (e : ProfileExport Url) : Json := .object [
  ("schema_version", .number e.schemaVersion.toNat),
  ("profiles", .array (e.profiles.map Profile.serialize))]

instance : Serialize (ProfileDocument Url) := ⟨ProfileDocument.serialize⟩

instance : Serialize (ProfileExport Url) := ⟨ProfileExport.serialize⟩

/-- The profile under the revision `1`. -/
def Profile.renumbered (p : Profile Url) : Profile Url := { p with revision := 1 }

omit [UrlCrate Url] in
@[simp] theorem Profile.renumbered_id (p : Profile Url) : p.renumbered.id = p.id := rfl

omit [UrlCrate Url] in
@[simp] theorem Profile.renumbered_name (p : Profile Url) : p.renumbered.name = p.name := rfl

theorem Profile.renumbered_length_le (p : Profile Url) (depth : ℕ) :
    p.renumbered.serialize.prettyLength depth ≤ p.serialize.prettyLength depth :=
  Json.prettyLength_object_le [_] _ _ (Json.prettyLength_number_le _ _ _)

/-- Profiles at revision `1` in a document at revision `1` take the least space. -/
theorem ProfileDocument.renumbered_length_le (d : ProfileDocument Url) :
    (ProfileDocument.serialize ⟨d.schemaVersion, 1, d.profiles.map Profile.renumbered⟩).prettyLength
      0 ≤ d.serialize.prettyLength 0 := by
  have hprofiles := Json.prettyLength_array_le (d := 1) (l := d.profiles)
    fun p _ => p.renumbered_length_le 2
  calc (ProfileDocument.serialize ⟨d.schemaVersion, 1,
        d.profiles.map Profile.renumbered⟩).prettyLength 0
      ≤ (ProfileDocument.serialize ⟨d.schemaVersion, d.revision,
          d.profiles.map Profile.renumbered⟩).prettyLength 0 :=
        Json.prettyLength_object_le [_] _ _ (Json.prettyLength_number_le _ _ _)
    _ ≤ d.serialize.prettyLength 0 := by
        refine Json.prettyLength_object_le [_, _] _ [] ?_
        simpa only [List.map_map, Function.comp_def] using hprofiles

/-- An export is a document without its revision. -/
theorem ProfileExport.length_le (d : ProfileDocument Url) :
    (ProfileExport.serialize ⟨d.schemaVersion, d.profiles⟩).prettyLength 0 ≤
      d.serialize.prettyLength 0 :=
  Json.prettyLength_object_remove_le [_] _ [_]

end

end Ocvpn
