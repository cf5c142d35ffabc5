import Ocvpn.Ipc.Frame
import Ocvpn.Json.Compact
import Ocvpn.Model.Network
import Ocvpn.Model.Uuid

/-!
# Browser messages

What the authentication window sends to the client (`crates/model/src/browser.rs`): the page it
captured, and the certificate chain of a server whose certificate it does not trust.  Pages are
checked by `BrowserPage::validate`, chains are collected within a limit of their own
(`auth_window/linux.rs`), and both go through `write_frame`.

The limits count the bytes of the data; a frame counts those of its JSON.  The `url` crate is a
parameter: its parser and the text of a URL.

## Main results

* `length_compact_page`, `length_compact_certificate` : the space of a message in a frame.
* `browser_messages_delivered` : a message arrives exactly when its space is there.
-/

namespace Ocvpn.Ipc

open Json

/-- `MAX_BROWSER_BYTES`. -/
def maxBrowserBytes : ℕ := 1024 * 1024

/-- `BrowserPage`. -/
structure BrowserPage where
  uri : String
  cookies : List (String × String)
  headers : List (String × String)
  document : Option String
  deriving DecidableEq

/-- `BrowserCertificateChallenge`. -/
structure BrowserCertificateChallenge (Url : Type) where
  transactionId : Uuid
  challengeId : Uuid
  origin : Url
  chain : List (List UInt8)
  deriving DecidableEq

/-- `BrowserClientMessage`. -/
inductive BrowserClientMessage (Url : Type) where
  | callback (uri : String)
  | ready (transactionId : Uuid)
  | page (transactionId : Uuid) (page : BrowserPage)
  | certificate (challenge : BrowserCertificateChallenge Url)
  | closed (transactionId : Uuid)
  | failed (transactionId : Uuid) (error : Error)
  deriving DecidableEq

/-! ### Checks -/

section Checks

variable {Url : Type} [DecidableEq Url] (parse : String → Option Url)

/-- `https_origin`. -/
def httpsOrigin (uri : String) : Run Url :=
  let chars := uri.toList
  if (chars.take 8).map Char.toLower ≠ "https://".toList ∨ uri.utf8ByteSize > maxBrowserBytes ∨
      chars.any isControl then
    Exec.fail (.invalid "Browser navigation requires an absolute HTTPS URL")
  else
    let authority := (chars.drop 8).takeWhile fun c => !(['/', '?', '#'].contains c)
    if authority.isEmpty ∨ authority.contains '@' then
      Exec.fail (.invalid "Browser origin cannot contain credentials")
    else
      match parse (String.ofList ("https://".toList ++ authority ++ ['/'])) with
      | none => Exec.fail (.invalid "Invalid browser HTTPS origin")
      | some origin => .ok origin

namespace BrowserPage

variable (p : BrowserPage)

/-- The names and values of the page, and its document. -/
def values : List String := (p.cookies ++ p.headers).flatMap (fun (n, v) => [n, v]) ++ p.document.toList

/-- One value in the count of `validate`. -/
def count (bytes : ℕ) (value : String) : Run ℕ :=
  if bytes + value.utf8ByteSize ≥ 2 ^ 64 then
    Exec.fail (.invalid "Browser response exceeds limit")
  else if value.toList.contains (.ofNat 0) then
    Exec.fail (.invalid "Invalid browser response encoding")
  else .ok (bytes + value.utf8ByteSize)

/-- `BrowserPage::validate`. -/
def validate (expectedOrigin : Url) : Run Unit := do
  let unexpected := Error.invalid "Browser completion came from an unexpected origin"
  Exec.rejectIf (p.cookies.length > 128 || p.headers.length > 128) unexpected
  let origin ← httpsOrigin parse p.uri
  Exec.rejectIf (origin ≠ expectedOrigin) unexpected
  let bytes ← p.values.foldlM count p.uri.utf8ByteSize
  Exec.rejectIf (bytes > maxBrowserBytes) (.invalid "Browser response exceeds limit")

end BrowserPage

end Checks

/-- The loop of `load-failed-with-tls-errors`: the certificates up to the root, unless one has no
DER form or the chain exceeds the limit. -/
def collectChain (chain : List (List UInt8)) (bytes : ℕ) :
    List (Option (List UInt8)) → Option (List (List UInt8))
  | [] => some chain
  | none :: _ => none
  | some der :: cursor =>
    let bytes := min (bytes + der.length) (2 ^ 64 - 1)
    if chain.length ≥ 16 ∨ bytes > maxBrowserBytes / 4 then none
    else collectChain (chain ++ [der]) bytes cursor

/-! ### The wire -/

/-- The name of an error code. -/
def codeName : ErrorCode → String
  | .invalidInput => "invalid_input"
  | .unsupportedProtocol => "unsupported_protocol"
  | .unsupportedAuthentication => "unsupported_authentication"
  | .engineUnavailable => "engine_unavailable"
  | .runtimeFailure => "runtime_failure"
  | .authenticationRequired => "authentication_required"
  | .authenticationRejected => "authentication_rejected"
  | .serviceUnavailable => "service_unavailable"
  | .authorizationDenied => "authorization_denied"
  | .busy => "busy"
  | .conflict => "conflict"
  | .notFound => "not_found"
  | .corruptStorage => "corrupt_storage"
  | .newerSchema => "newer_schema"
  | .keyringUnavailable => "keyring_unavailable"
  | .certificateRejected => "certificate_rejected"
  | .cancelled => "cancelled"
  | .protocolViolation => "protocol_violation"
  | .networkFailure => "network_failure"
  | .recoveryRequired => "recovery_required"

/-- `Serialize` of an error. -/
def errorJson (e : Error) : Json :=
  .object ([("code", .string (codeName e.code)), ("message", .string e.message)] ++
    e.details.toList.map fun d => ("details", .string d))

/-- `Serialize` of a `Uuid`. -/
def uuidJson (u : Uuid) : Json := .string (String.ofList u.text)

/-- `Serialize` of pairs of texts. -/
def pairsJson (pairs : List (String × String)) : Json :=
  .array (pairs.map fun (name, value) => .array [.string name, .string value])

/-- `Serialize` of `BrowserPage`. -/
def BrowserPage.toJson (p : BrowserPage) : Json :=
  .object [("uri", .string p.uri), ("cookies", pairsJson p.cookies),
    ("headers", pairsJson p.headers), ("document", p.document.elim .null .string)]

/-- `Serialize` of a byte string. -/
def bytesJson (bytes : List UInt8) : Json := .array (bytes.map fun b => .number b.toNat)

section Wire

variable {Url : Type} (asStr : Url → String)

/-- `Serialize` of `BrowserCertificateChallenge`. -/
def BrowserCertificateChallenge.toJson (c : BrowserCertificateChallenge Url) : Json :=
  .object [("transaction_id", uuidJson c.transactionId), ("challenge_id", uuidJson c.challengeId),
    ("origin", .string (asStr c.origin)), ("chain", .array (c.chain.map bytesJson))]

/-- `Serialize` of `BrowserClientMessage`: the kind stands before the fields of the variant. -/
def BrowserClientMessage.toJson : BrowserClientMessage Url → Json
  | .callback uri => .object [("kind", .string "callback"), ("uri", .string uri)]
  | .ready id => .object [("kind", .string "ready"), ("transaction_id", uuidJson id)]
  | .page id p =>
    .object [("kind", .string "page"), ("transaction_id", uuidJson id), ("page", p.toJson)]
  | .certificate c => .object [("kind", .string "certificate"), ("challenge", c.toJson asStr)]
  | .closed id => .object [("kind", .string "closed"), ("transaction_id", uuidJson id)]
  | .failed id e =>
    .object [("kind", .string "failed"), ("transaction_id", uuidJson id), ("error", errorJson e)]

/-- `serde_json` at browser messages: in whatever chunks, the text is the compact one. -/
structure MessageSerde where
  chunks : BrowserClientMessage Url → List (List UInt8)
  fromSlice : List UInt8 → Option (BrowserClientMessage Url)
  fromSlice_nil : fromSlice [] = none
  flatten_chunks : ∀ m, (chunks m).flatten = (m.toJson asStr).compact

variable {asStr}

/-- Browser messages on the connection. -/
def MessageSerde.serde (s : MessageSerde asStr) : Serde where
  Value := BrowserClientMessage Url
  chunks := s.chunks
  fromSlice := s.fromSlice
  fromSlice_nil := s.fromSlice_nil

/-- `write_frame` sends the message, and `read_frame` gives it back. -/
def Delivered (s : Serde) (value : s.Value) : Prop :=
  ∃ sent, writeFrame s value {} = (.ok (), { sent }) ∧
    ∀ rest, readFrame s (sent ++ rest) = (.ok value, rest)

theorem delivered_iff {s : Serde} {value : s.Value} (h : s.RoundTrips value) :
    Delivered s value ↔ Fits s value := by
  constructor
  · rintro ⟨sent, hsent, _⟩
    by_contra hfits
    rw [writeFrame_oversize hfits] at hsent
    cases congrArg Prod.fst hsent
  · intro hfits
    exact ⟨frame (s.text value), writeFrame_working rfl hfits, readFrame_frame hfits h⟩

end Wire

/-! ### The space of a message -/

/-- The bytes of a text in a frame, without its quotes. -/
def textSpace (s : String) : ℕ := (s.toList.map escapedLength).sum

/-- The bytes of pairs of texts: four quotes, two brackets and a comma for each, and what stands
around and between them. -/
def pairsSpace (pairs : List (String × String)) : ℕ :=
  2 + (pairs.map fun (name, value) => 7 + textSpace name + textSpace value).sum + (pairs.length - 1)

/-- The bytes of a page in a frame. -/
def BrowserPage.space (p : BrowserPage) : ℕ :=
  123 + textSpace p.uri + pairsSpace p.cookies + pairsSpace p.headers +
    p.document.elim 4 fun d => 2 + textSpace d

/-- The digits of a byte. -/
def digits (b : UInt8) : ℕ := if b < 10 then 1 else if b < 100 then 2 else 3

/-- The bytes of a certificate: a number for each byte of it, and a comma between each two. -/
def derSpace (der : List UInt8) : ℕ := 2 + (der.map digits).sum + (der.length - 1)

/-- The bytes of a chain under an origin in a frame. -/
def chainSpace (origin : String) (chain : List (List UInt8)) : ℕ :=
  169 + textSpace origin + (chain.map derSpace).sum + (chain.length - 1)

@[simp] theorem stringLength_eq (s : String) : stringLength s = 2 + textSpace s := rfl

theorem textSpace_key :
    textSpace "kind" = 4 ∧ textSpace "transaction_id" = 14 ∧ textSpace "page" = 4 ∧
    textSpace "uri" = 3 ∧ textSpace "cookies" = 7 ∧ textSpace "headers" = 7 ∧
    textSpace "document" = 8 ∧ textSpace "certificate" = 11 ∧ textSpace "challenge" = 9 ∧
    textSpace "challenge_id" = 12 ∧ textSpace "origin" = 6 ∧ textSpace "chain" = 5 := by
  decide

theorem escapedLength_hexDigit (n : ℕ) : escapedLength (Uuid.hexDigit n) = 1 := by
  by_cases h : n < 16
  · have : ∀ n < 16, escapedLength (Uuid.hexDigit n) = 1 := by decide
    exact this n h
  · rw [Uuid.hexDigit, List.getD_eq_getElem?_getD, List.getElem?_eq_none (by simpa using h)]
    decide

theorem escapedLength_hexDigits (n v : ℕ) : ∀ c ∈ Uuid.hexDigits n v, escapedLength c = 1 := by
  induction n generalizing v with
  | zero => simp [Uuid.hexDigits]
  | succ n ih =>
    intro c hc
    rw [Uuid.hexDigits, List.mem_append, List.mem_singleton] at hc
    obtain hc | rfl := hc
    · exact ih _ c hc
    · exact escapedLength_hexDigit _

/-- A UUID needs no escapes. -/
theorem textSpace_uuid (u : Uuid) : textSpace (String.ofList u.text) = 36 := by
  have hone : ∀ c ∈ u.text, escapedLength c = 1 := by
    intro c hc
    have hdash : escapedLength '-' = 1 := by decide
    simp only [Uuid.text, Uuid.grouped, List.mem_append, List.mem_cons] at hc
    have hdigits := escapedLength_hexDigits 32 u.toNat
    grind [List.mem_of_mem_take, List.mem_of_mem_drop]
  rw [textSpace, String.toList_ofList, List.map_congr_left hone]
  simp

theorem length_compact_uuid (u : Uuid) : (uuidJson u).compact.length = 38 := by
  rw [uuidJson, length_compact_string, stringLength_eq, textSpace_uuid]

theorem length_compact_byte (b : UInt8) : (compact (.number b.toNat)).length = digits b := by
  have hall : ∀ n < 256, (Nat.toDigits 10 n).length =
      if n < 10 then 1 else if n < 100 then 2 else 3 := by
    decide +kernel
  rw [length_compact_number, hall _ b.toNat_lt]
  rfl

theorem length_compact_bytes (der : List UInt8) : (bytesJson der).compact.length = derSpace der := by
  simp only [bytesJson, length_compact_array, List.map_map, List.length_map, derSpace]
  rw [show ((fun item => (compact item).length) ∘ fun b : UInt8 => Json.number b.toNat) = digits from
    funext length_compact_byte]

theorem length_compact_pairs (pairs : List (String × String)) :
    (pairsJson pairs).compact.length = pairsSpace pairs := by
  simp only [pairsJson, length_compact_array, List.map_map, List.length_map, pairsSpace]
  congr 4
  funext ⟨name, value⟩
  simp only [Function.comp, length_compact_array, List.map_cons, List.map_nil, List.sum_cons,
    List.sum_nil, List.length_cons, List.length_nil, length_compact_string, stringLength_eq]
  omega

/-- The space of a page message. -/
theorem length_compact_page {Url : Type} (asStr : Url → String) (id : Uuid) (p : BrowserPage) :
    ((BrowserClientMessage.page id p).toJson asStr).compact.length = p.space := by
  obtain ⟨hkind, hid, hpage, huri, hcookies, hheaders, hdocument, -⟩ := textSpace_key
  have hdoc : (p.document.elim Json.null .string).compact.length =
      p.document.elim 4 fun d => 2 + textSpace d := by
    cases p.document with
    | none => rfl
    | some d => exact length_compact_string d
  simp only [BrowserClientMessage.toJson, BrowserPage.toJson, length_compact_object,
    List.map_cons, List.map_nil, List.sum_cons, List.sum_nil, List.length_cons, List.length_nil,
    length_compact_string, length_compact_uuid, length_compact_pairs, hdoc, stringLength_eq,
    hkind, hid, hpage, huri, hcookies, hheaders, hdocument, BrowserPage.space]
  omega

/-- The space of a certificate message. -/
theorem length_compact_certificate {Url : Type} (asStr : Url → String)
    (c : BrowserCertificateChallenge Url) :
    ((BrowserClientMessage.certificate c).toJson asStr).compact.length =
      chainSpace (asStr c.origin) c.chain := by
  obtain ⟨hkind, hid, -, -, -, -, -, hcertificate, hchallenge, hchallengeId, horigin, hchain⟩ :=
    textSpace_key
  have hders : (Json.array (c.chain.map bytesJson)).compact.length =
      2 + (c.chain.map derSpace).sum + (c.chain.length - 1) := by
    rw [length_compact_array, List.map_map, List.length_map]
    rw [show ((fun item => (compact item).length) ∘ bytesJson) = derSpace from
      funext length_compact_bytes]
  simp only [BrowserClientMessage.toJson, BrowserCertificateChallenge.toJson, length_compact_object,
    List.map_cons, List.map_nil, List.sum_cons, List.sum_nil, List.length_cons, List.length_nil,
    length_compact_string, length_compact_uuid, hders, stringLength_eq,
    hkind, hid, hcertificate, hchallenge, hchallengeId, horigin, hchain, chainSpace]
  omega

/-! ### Which messages arrive -/

section Arrival

variable {Url : Type} {asStr : Url → String}

theorem MessageSerde.text_length (s : MessageSerde asStr) (m : BrowserClientMessage Url) :
    (s.serde.text m).length = (m.toJson asStr).compact.length :=
  congrArg List.length (s.flatten_chunks m)

theorem MessageSerde.fits_iff (s : MessageSerde asStr) (m : BrowserClientMessage Url) :
    Fits s.serde m ↔ (m.toJson asStr).compact.length ≤ maxFrameBytes := by
  change (s.serde.text m).length ≤ maxFrameBytes ↔ _
  rw [s.text_length]

theorem page_delivered_iff {s : MessageSerde asStr} {id : Uuid} {p : BrowserPage}
    (h : s.serde.RoundTrips (.page id p)) :
    Delivered s.serde (.page id p) ↔ p.space ≤ maxFrameBytes := by
  rw [delivered_iff h, s.fits_iff, length_compact_page]

theorem certificate_delivered_iff {s : MessageSerde asStr} {c : BrowserCertificateChallenge Url}
    (h : s.serde.RoundTrips (.certificate c)) :
    Delivered s.serde (.certificate c) ↔ chainSpace (asStr c.origin) c.chain ≤ maxFrameBytes := by
  rw [delivered_iff h, s.fits_iff, length_compact_certificate]

end Arrival

/-! ### Samples -/

/-- `serde_json` at URLs that are their text, reading back one message. -/
def sampleSerde (m : BrowserClientMessage String) : MessageSerde (id : String → String) where
  chunks m := [(m.toJson id).compact]
  fromSlice text := if text ≠ [] ∧ text = (m.toJson id).compact then some m else none
  fromSlice_nil := by simp
  flatten_chunks m := by simp

theorem compact_object_ne_nil (fields : List (String × Json)) : (Json.object fields).compact ≠ [] := by
  rw [compact]
  simp

theorem sampleSerde_roundTrips (m : BrowserClientMessage String) :
    (sampleSerde m).serde.RoundTrips m := by
  have hobject : (m.toJson id).compact ≠ [] := by
    cases m <;> exact compact_object_ne_nil _
  change (sampleSerde m).fromSlice ((sampleSerde m).serde.text m) = some m
  rw [show (sampleSerde m).serde.text m = _ from (sampleSerde m).flatten_chunks m]
  exact if_pos ⟨hobject, rfl⟩

/-- `Url::parse` at the origin of the samples. -/
def sampleParse (text : String) : Option String := if text = "https://a/" then some text else none

/-- A page with a document of so many letters. -/
def samplePage (letters : ℕ) : BrowserPage where
  uri := "https://a/"
  cookies := []
  headers := []
  document := some (String.ofList (List.replicate letters 'a'))

theorem utf8ByteSize_letters (n : ℕ) :
    (String.ofList (List.replicate n 'a')).utf8ByteSize = n := by
  induction n with
  | zero => rfl
  | succ n ih =>
    rw [List.replicate_succ, String.ofList_cons, String.utf8ByteSize_append, ih,
      String.utf8ByteSize_singleton, Nat.add_comm]
    rfl

theorem textSpace_letters (n : ℕ) : textSpace (String.ofList (List.replicate n 'a')) = n := by
  rw [textSpace, String.toList_ofList, List.map_replicate, List.sum_replicate_nat,
    show escapedLength 'a' = 1 by decide, Nat.mul_one]

theorem samplePage_validate {n : ℕ} (h : n + 10 ≤ maxBrowserBytes) :
    (samplePage n).validate sampleParse "https://a/" = .ok () := by
  have horigin : httpsOrigin sampleParse "https://a/" = .ok "https://a/" := by decide
  have hcount : BrowserPage.count 10 (String.ofList (List.replicate n 'a')) = .ok (10 + n) := by
    have hzero : (List.replicate n 'a').contains (.ofNat 0) = false := by
      rw [List.contains_eq_any_beq, List.any_replicate]
      simp
    have : maxBrowserBytes < 2 ^ 64 := by decide
    simp only [BrowserPage.count, utf8ByteSize_letters, String.toList_ofList, hzero]
    rw [if_neg (by omega), if_neg (by simp)]
  have hbytes : (samplePage n).values.foldlM BrowserPage.count (samplePage n).uri.utf8ByteSize =
      .ok (10 + n) := by
    change ([String.ofList (List.replicate n 'a')].foldlM BrowserPage.count
      "https://a/".utf8ByteSize) = _
    rw [show "https://a/".utf8ByteSize = 10 by decide, List.foldlM_cons, hcount]
    rfl
  simp only [BrowserPage.validate, Exec.bind_eq_ok, Exec.rejectIf_eq_ok]
  refine ⟨(), rfl, "https://a/", horigin, (), by decide, 10 + n, hbytes, ?_⟩
  simp only [gt_iff_lt, decide_eq_false_iff_not]
  omega

theorem samplePage_space (n : ℕ) : (samplePage n).space = n + 139 := by
  have huri : textSpace "https://a/" = 10 := by decide
  have hdocument : (samplePage n).document.elim 4 (fun d => 2 + textSpace d) = 2 + n := by
    change 2 + textSpace _ = _
    rw [textSpace_letters]
  rw [BrowserPage.space, hdocument]
  change 123 + textSpace "https://a/" + pairsSpace [] + pairsSpace [] + (2 + n) = _
  rw [huri]
  change 123 + 10 + 2 + 2 + (2 + n) = _
  omega

/-- A certificate of so many bytes, each `0xff`. -/
def sampleDer (n : ℕ) : List UInt8 := List.replicate n 255

theorem derSpace_sampleDer {n : ℕ} (h : 0 < n) : derSpace (sampleDer n) = 4 * n + 1 := by
  rw [derSpace, sampleDer, List.map_replicate, List.sum_replicate_nat, List.length_replicate,
    show digits 255 = 3 by decide]
  omega

theorem collectChain_sampleDer {n : ℕ} (h : n ≤ maxBrowserBytes / 4) :
    collectChain [] 0 [some (sampleDer n)] = some [sampleDer n] := by
  have : maxBrowserBytes / 4 < 2 ^ 64 - 1 := by decide
  simp only [collectChain, sampleDer, List.length_replicate, Nat.zero_add, List.length_nil,
    List.nil_append]
  rw [if_neg (by omega)]

theorem page_not_delivered {n : ℕ} (h : maxFrameBytes < n + 139) (id' : Uuid) :
    ¬Delivered (sampleSerde (.page id' (samplePage n))).serde (.page id' (samplePage n)) := by
  rw [page_delivered_iff (sampleSerde_roundTrips _), samplePage_space]
  omega

theorem certificate_not_delivered {n : ℕ} (hpos : 0 < n) (h : maxFrameBytes < 4 * n + 180)
    (u v : Uuid) :
    ¬Delivered (sampleSerde (.certificate ⟨u, v, "https://a/", [sampleDer n]⟩)).serde
      (.certificate ⟨u, v, "https://a/", [sampleDer n]⟩) := by
  have horigin : textSpace "https://a/" = 10 := by decide
  rw [certificate_delivered_iff (sampleSerde_roundTrips _)]
  simp only [chainSpace, id, horigin, List.map_cons, List.map_nil, List.sum_cons, List.sum_nil,
    List.length_cons, List.length_nil, derSpace_sampleDer hpos]
  omega

/-! ### Limits and frames -/

/-- A page that passed its check, or a chain that was collected, arrives exactly when its JSON, as
counted in the page or the chain itself, has room in a frame. -/
theorem browser_messages_delivered {Url : Type} [DecidableEq Url] {asStr : Url → String}
    (parse : String → Option Url) (s : MessageSerde asStr) :
    (∀ id p origin, p.validate parse origin = .ok () → s.serde.RoundTrips (.page id p) →
      (Delivered s.serde (.page id p) ↔ p.space ≤ maxFrameBytes)) ∧
    (∀ transaction challenge origin ders chain, collectChain [] 0 ders = some chain →
      s.serde.RoundTrips (.certificate ⟨transaction, challenge, origin, chain⟩) →
      (Delivered s.serde (.certificate ⟨transaction, challenge, origin, chain⟩) ↔
        chainSpace (asStr origin) chain ≤ maxFrameBytes)) :=
  ⟨fun _ _ _ _ htrips => page_delivered_iff htrips,
    fun _ _ _ _ _ _ htrips => certificate_delivered_iff htrips⟩

/-- A short page and a short chain arrive. -/
theorem browser_messages_delivered_sample :
    Delivered (sampleSerde (.page 1 (samplePage 3))).serde (.page 1 (samplePage 3)) ∧
    Delivered (sampleSerde (.certificate ⟨1, 2, "https://a/", [sampleDer 3]⟩)).serde
      (.certificate ⟨1, 2, "https://a/", [sampleDer 3]⟩) :=
  ⟨((browser_messages_delivered sampleParse (sampleSerde (.page 1 (samplePage 3)))).1
      1 (samplePage 3) "https://a/" (samplePage_validate (by decide))
      (sampleSerde_roundTrips _)).2 (by rw [samplePage_space]; decide),
    ((browser_messages_delivered sampleParse
      (sampleSerde (.certificate ⟨1, 2, "https://a/", [sampleDer 3]⟩))).2 1 2 "https://a/"
      [some (sampleDer 3)] [sampleDer 3] (collectChain_sampleDer (by decide))
      (sampleSerde_roundTrips _)).2 (by decide)⟩

/-- A page of exactly the permitted size, and a single certificate of exactly the permitted size,
are accepted and cannot be sent. -/
theorem browser_messages_too_large :
    ((samplePage 1048566).validate sampleParse "https://a/" = .ok () ∧
      ¬Delivered (sampleSerde (.page 1 (samplePage 1048566))).serde
        (.page 1 (samplePage 1048566))) ∧
    collectChain [] 0 [some (sampleDer 262144)] = some [sampleDer 262144] ∧
    ¬Delivered (sampleSerde (.certificate ⟨1, 2, "https://a/", [sampleDer 262144]⟩)).serde
      (.certificate ⟨1, 2, "https://a/", [sampleDer 262144]⟩) :=
  ⟨⟨samplePage_validate (by decide), page_not_delivered (by decide) 1⟩,
    collectChain_sampleDer (by decide), certificate_not_delivered (by decide) (by decide) 1 2⟩

end Ocvpn.Ipc
