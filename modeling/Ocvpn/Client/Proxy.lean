import Ocvpn.Auth.Choices
import Ocvpn.Model.Split
import Ocvpn.Text.Gap

/-!
# Proxy credentials

`parse_proxy` of `crates/client/src/proxy.rs` takes the userinfo out of a proxy URL and keeps it as
a private payload.  The authentication (`Worker::configure` in `crates/engine/src/auth.rs`) and the
tunnel (`Engine::tunnel` and `Owner::run` in `crates/engine/src/tunnel.rs`) put it back into the
text of the endpoint, under checks of their own.

The `url` crate and the JSON text of a pair of strings are parameters.

## Main results

* `splitProxy_rebuilt` : the text that is rebuilt splits into what was taken apart.
* `credentials_usable_iff` : which accepted credentials both sides accept.
-/

namespace Ocvpn

namespace Client

open Auth (cstring nativeBytes)

/-- `serde_json` on a pair of strings. -/
structure PairJson where
  write : List Char → List Char → String
  read : String → Option (List Char × List Char)

/-- A pair without control characters is read back; its text has the length of its escaped
strings, and no NUL. -/
structure PairJson.Lossless (J : PairJson) : Prop where
  readBack : ∀ u p, (∀ c ∈ u ++ p, isControl c = false) → J.read (J.write u p) = some (u, p)
  length : ∀ u p, (∀ c ∈ u ++ p, isControl c = false) → (J.write u p).utf8ByteSize =
    Json.stringLength (String.ofList u) + Json.stringLength (String.ofList p) + 3
  nulFree : ∀ u p, (∀ c ∈ u ++ p, isControl c = false) →
    (J.write u p).toList.contains (.ofNat 0) = false

/-- A proxy URL taken apart by hand. -/
structure ProxyParts where
  scheme : List Char
  /-- Username and password. -/
  userinfo : Option (List Char × List Char)
  /-- The host and what is behind it. -/
  rest : List Char
  deriving DecidableEq, Repr

/-- What ends an authority. -/
def endsAuthority (c : Char) : Bool := ['/', '?', '#'].contains c

/-- The splitting of what is behind `://`. -/
def splitRemainder (scheme remainder : List Char) : ProxyParts :=
  match rsplitOnce '@' (remainder.takeWhile (!endsAuthority ·)) with
  | some (userinfo, host) =>
    { scheme, userinfo := some ((splitOnce ':' userinfo).getD (userinfo, []))
      rest := host ++ remainder.dropWhile (!endsAuthority ·) }
  | none => { scheme, userinfo := none, rest := remainder }

/-- The splitting in `parse_proxy`. -/
def splitProxy (input : List Char) : Option ProxyParts :=
  (splitOnceOn "://".toList input).map fun p => splitRemainder p.1 p.2

section

variable {Url : Type} [UrlCrate Url]

open UrlCrate

/-- `parse_proxy`, with `Url::parse`. -/
def parseProxy (J : PairJson) (parse : List Char → Option Url) (input : String) :
    Run (Url × Option String) := do
  Exec.rejectIf (input.utf8ByteSize > 65536 || input.toList.any isControl)
    (.invalid "Proxy URL exceeds its limit or contains control characters")
  match splitProxy input.toList with
  | none => Exec.fail (.invalid "Proxy requires an explicit URL scheme")
  | some parts =>
    match parse (parts.scheme ++ "://".toList ++ parts.rest) with
    | none => Exec.fail (.invalid "Invalid proxy URL")
    | some endpoint => do
      validateProxy endpoint
      return (endpoint, parts.userinfo.map fun (username, password) => J.write username password)

/-- A character no part of the credentials may have. -/
def badPart (c : Char) : Bool := ['@', '/', '?', '#', '\\'].contains c || isControl c

/-- Put the credentials into the text of the endpoint; `unreadable` is the error of a payload that
is no pair. -/
def insertCredentials (J : PairJson) (unreadable : String) (proxy : Url) (credentials : String) :
    Run String :=
  match J.read credentials with
  | none => Exec.fail (.invalid unreadable)
  | some (user, password) => do
    Exec.rejectIf (user.any badPart || password.any badPart)
      (.invalid "Invalid encoded proxy credentials")
    match splitOnceOn "://".toList (asStr proxy).toList with
    | none => Exec.fail (.invalid "Invalid proxy URL")
    | some (scheme, rest) =>
      return String.ofList (scheme ++ "://".toList ++ user ++ ':' :: password ++ '@' :: rest)

/-- The proxy in `Worker::configure`: the text native gets. -/
def configureProxy (J : PairJson) (proxy : Url) (credentials : String) : Run String := do
  cstring (← insertCredentials J "Invalid stored proxy credentials" proxy credentials)

/-- The limit on the private credentials in `AuthHandoff::validate`. -/
def validateCredentials (credentials : String) : Run Unit :=
  Exec.rejectIf (credentials.utf8ByteSize > 65536 || credentials.toList.contains (.ofNat 0))
    (.invalid "Invalid private proxy credentials")

/-- The proxy in `Engine::tunnel` and `Owner::run`: the text native gets. -/
def tunnelProxy (J : PairJson) (proxy : Url) (credentials : String) : Run String := do
  validateCredentials credentials
  let value ← insertCredentials J "Invalid private proxy credentials" proxy credentials
  Exec.rejectIf (value.utf8ByteSize > 65536 || value.toList.contains (.ofNat 0))
    (.invalid "Invalid native tunnel input")
  return value

/-- The text of a URL that is only an endpoint. -/
def EndpointText (Url : Type) [UrlCrate Url] : Prop :=
  ∀ u : Url, validateProxy u = .ok () → ∃ host : List Char,
    (asStr u).toList = (scheme u).toList ++ "://".toList ++ host ++ (path u).toList ∧
      ∀ c ∈ host, endsAuthority c = false ∧ c ≠ '@' ∧ c ≠ .ofNat 0

/-- The userinfo of a proxy URL. -/
def proxyUserinfo (input : String) : Option (List Char × List Char) :=
  (splitProxy input.toList).bind ProxyParts.userinfo

/-- Both sides accept the payload and give native the endpoint with the userinfo of the input. -/
def Usable (J : PairJson) (endpoint : Url) (credentials input : String) : Prop :=
  ∃ value parts, configureProxy J endpoint credentials = .ok value ∧
    tunnelProxy J endpoint credentials = .ok value ∧
    splitProxy (asStr endpoint).toList = some parts ∧ parts.userinfo = none ∧
    splitProxy value.toList = some { parts with userinfo := proxyUserinfo input }

/-- Nothing in the credentials needs an encoding, and the texts fit. -/
structure CredentialsFit (endpoint : Url) (user password : List Char) : Prop where
  plain : ∀ c ∈ user ++ password, c ≠ '@' ∧ c ≠ '\\'
  payload : Json.stringLength (String.ofList user) + Json.stringLength (String.ofList password) + 3 ≤
    65536
  text : (asStr endpoint).utf8ByteSize + utf8Len user + utf8Len password + 2 ≤ 65536

end

/-! ### Taking apart and putting together -/

theorem splitProxy_userinfo {input : List Char} {parts : ProxyParts} {user password : List Char}
    (h : splitProxy input = some parts) (hu : parts.userinfo = some (user, password)) :
    (∀ c ∈ user ++ password, c ∈ input ∧ endsAuthority c = false) ∧ ':' ∉ user := by
  obtain ⟨⟨scheme, remainder⟩, hs, rfl⟩ := Option.map_eq_some_iff.1 h
  have hinput := of_splitOnceOn hs
  unfold splitRemainder at hu
  split at hu
  next userinfo host hsplit =>
    obtain ⟨hauthority, -⟩ := of_rsplitOnce hsplit
    have hmem : ∀ c ∈ userinfo, c ∈ input ∧ endsAuthority c = false := by
      intro c hc
      have hc : c ∈ remainder.takeWhile (!endsAuthority ·) := by
        rw [hauthority]
        simp [hc]
      refine ⟨?_, by simpa using List.mem_takeWhile_imp hc⟩
      rw [hinput]
      exact List.mem_append_right _ (List.takeWhile_subset _ hc)
    have hu := Option.some.inj hu
    cases hcolon : splitOnce ':' userinfo with
    | none =>
      rw [hcolon] at hu
      obtain ⟨rfl, rfl⟩ := Prod.mk.inj hu
      exact ⟨by simpa using hmem, splitOnce_eq_none.1 hcolon⟩
    | some p =>
      rw [hcolon] at hu
      obtain rfl : p = (user, password) := hu
      obtain ⟨rfl, hnot⟩ := of_splitOnce hcolon
      refine ⟨fun c hc => hmem c ?_, hnot⟩
      rcases List.mem_append.1 hc with hc | hc
      · exact List.mem_append_left _ hc
      · exact List.mem_append_right _ (List.mem_cons_of_mem _ hc)
  next => cases hu

/-- An authority ends where the path of an endpoint starts. -/
theorem authority_path {authority path : List Char}
    (h : ∀ c ∈ authority, endsAuthority c = false) (hpath : path = [] ∨ path = ['/']) :
    (authority ++ path).takeWhile (!endsAuthority ·) = authority ∧
      (authority ++ path).dropWhile (!endsAuthority ·) = path := by
  have hgood : ∀ c ∈ authority, (!endsAuthority c) = true := fun c hc => by simp [h c hc]
  rw [List.takeWhile_append_of_pos hgood, List.dropWhile_append_of_pos hgood]
  rcases hpath with rfl | rfl
  · simp
  · simp [endsAuthority]

/-- The parts of a text without userinfo. -/
theorem splitProxy_endpoint {scheme host path : List Char} (hscheme : ':' ∉ scheme)
    (hhost : ∀ c ∈ host, endsAuthority c = false ∧ c ≠ '@') (hpath : path = [] ∨ path = ['/']) :
    splitProxy (scheme ++ "://".toList ++ (host ++ path)) =
      some { scheme, userinfo := none, rest := host ++ path } := by
  have hsplit : splitOnceOn "://".toList (scheme ++ "://".toList ++ (host ++ path)) =
      some (scheme, host ++ path) := splitOnceOn_append hscheme
  obtain ⟨htake, -⟩ := authority_path (fun c hc => (hhost c hc).1) hpath
  rw [splitProxy, hsplit, Option.map_some, splitRemainder, htake,
    rsplitOnce_eq_none fun hat => (hhost _ hat).2 rfl]

/-- The text that is put together again splits into the credentials and the endpoint. -/
theorem splitProxy_rebuilt {scheme user password host path : List Char} (hscheme : ':' ∉ scheme)
    (huser : ':' ∉ user) (hparts : ∀ c ∈ user ++ password, endsAuthority c = false)
    (hhost : ∀ c ∈ host, endsAuthority c = false ∧ c ≠ '@') (hpath : path = [] ∨ path = ['/']) :
    splitProxy (scheme ++ "://".toList ++ user ++ ':' :: password ++ '@' :: (host ++ path)) =
      some { scheme, userinfo := some (user, password), rest := host ++ path } := by
  have hshape : scheme ++ "://".toList ++ user ++ ':' :: password ++ '@' :: (host ++ path) =
      scheme ++ "://".toList ++ ((user ++ ':' :: password) ++ '@' :: host ++ path) := by simp
  have hsplit : splitOnceOn "://".toList
      (scheme ++ "://".toList ++ ((user ++ ':' :: password) ++ '@' :: host ++ path)) =
        some (scheme, (user ++ ':' :: password) ++ '@' :: host ++ path) := splitOnceOn_append hscheme
  have hends : ∀ c ∈ (user ++ ':' :: password) ++ '@' :: host, endsAuthority c = false := by
    intro c hc
    simp only [List.mem_append, List.mem_cons] at hc
    rcases hc with (hc | rfl | hc) | rfl | hc
    · exact hparts c (List.mem_append_left _ hc)
    · rfl
    · exact hparts c (List.mem_append_right _ hc)
    · rfl
    · exact (hhost c hc).1
  obtain ⟨htake, hdrop⟩ := authority_path hends hpath
  rw [hshape, splitProxy, hsplit, Option.map_some, splitRemainder, htake, hdrop,
    rsplitOnce_append fun hat => (hhost _ hat).2 rfl]
  simp only [splitOnce_append huser, Option.getD_some]

section

variable {Url : Type} [UrlCrate Url] {J : PairJson} {endpoint : Url}
  {scheme user password host path : List Char}

open UrlCrate

theorem insertCredentials_eq_ok (hJ : J.Lossless)
    (hcontrol : ∀ c ∈ user ++ password, isControl c = false) (hscheme : ':' ∉ scheme)
    (htext : (asStr endpoint).toList = scheme ++ "://".toList ++ (host ++ path))
    {unreadable value : String} :
    insertCredentials J unreadable endpoint (J.write user password) = .ok value ↔
      (∀ c ∈ user ++ password, badPart c = false) ∧ String.ofList (scheme ++ "://".toList ++ user ++
        ':' :: password ++ '@' :: (host ++ path)) = value := by
  have hsplit : splitOnceOn "://".toList (scheme ++ "://".toList ++ (host ++ path)) =
      some (scheme, host ++ path) := splitOnceOn_append hscheme
  simp only [insertCredentials, hJ.readBack _ _ hcontrol, htext, hsplit]
  rw [Exec.bind_eq_ok]
  simp only [Exec.rejectIf_eq_ok, Bool.or_eq_false_iff, List.any_eq_false, Exec.pure_eq_ok,
    Except.ok.injEq, List.mem_append]
  constructor
  · rintro ⟨-, ⟨hu, hp⟩, rfl⟩
    refine ⟨fun c hc => ?_, rfl⟩
    rcases hc with hc | hc
    · simpa using hu c hc
    · simpa using hp c hc
  · rintro ⟨h, rfl⟩
    exact ⟨(), ⟨fun c hc => by simp [h c (.inl hc)], fun c hc => by simp [h c (.inr hc)]⟩, rfl⟩

/-- An endpoint in its parts. -/
theorem endpoint_parts (hU : EndpointText Url) (h : validateProxy endpoint = .ok ()) :
    ∃ scheme host path : List Char,
      (asStr endpoint).toList = scheme ++ "://".toList ++ (host ++ path) ∧
      (scheme = "http".toList ∨ scheme = "socks".toList ∨ scheme = "socks5".toList) ∧
      (path = [] ∨ path = ['/']) ∧
      ∀ c ∈ host, endsAuthority c = false ∧ c ≠ '@' ∧ c ≠ .ofNat 0 := by
  obtain ⟨host, htext, hhost⟩ := hU endpoint h
  rw [validateProxy, Exec.rejectIf_eq_ok] at h
  simp only [Bool.or_eq_false_iff, Bool.not_eq_false', List.contains_eq_mem, List.mem_cons,
    List.not_mem_nil, or_false, decide_eq_true_eq] at h
  obtain ⟨⟨⟨⟨⟨⟨⟨hscheme, -⟩, -⟩, -⟩, -⟩, -⟩, hpath⟩, -⟩ := h
  refine ⟨_, host, _, by rw [htext, List.append_assoc], ?_, ?_, hhost⟩
  · exact hscheme.imp (congrArg _) (.imp (congrArg _) (congrArg _))
  · rcases hpath with hpath | hpath
    · exact .inl (by rw [hpath]; rfl)
    · exact .inr (by rw [hpath]; rfl)

/-- What was parsed with credentials. -/
theorem of_parseProxy {parse : List Char → Option Url} {input credentials : String}
    (h : parseProxy J parse input = .ok (endpoint, some credentials)) :
    ∃ parts user password, splitProxy input.toList = some parts ∧
      parts.userinfo = some (user, password) ∧ credentials = J.write user password ∧
      validateProxy endpoint = .ok () ∧ ∀ c ∈ input.toList, isControl c = false := by
  rw [parseProxy] at h
  obtain ⟨_, hcheck, h⟩ := Exec.bind_eq_ok.1 h
  rw [Exec.rejectIf_eq_ok, Bool.or_eq_false_iff, List.any_eq_false] at hcheck
  cases hsplit : splitProxy input.toList with
  | none =>
    rw [hsplit] at h
    exact absurd h (Exec.fail_ne_ok _ _)
  | some parts =>
    simp only [hsplit] at h
    cases hparse : parse (parts.scheme ++ "://".toList ++ parts.rest) with
    | none =>
      rw [hparse] at h
      exact absurd h (Exec.fail_ne_ok _ _)
    | some url =>
      simp only [hparse] at h
      obtain ⟨_, hvalid, h⟩ := Exec.bind_eq_ok.1 h
      obtain ⟨rfl, huserinfo⟩ := Prod.mk.inj (Except.ok.inj h)
      obtain ⟨⟨user, password⟩, hu, rfl⟩ := Option.map_eq_some_iff.1 huserinfo
      exact ⟨parts, user, password, rfl, hu, rfl, hvalid, fun c hc => by simpa using hcheck.2 c hc⟩

/-- The text native gets is as long as its parts and has no NUL. -/
theorem rebuilt_text (htext : (asStr endpoint).toList = scheme ++ "://".toList ++ (host ++ path))
    (hclean : ∀ c ∈ scheme ++ (host ++ path), c ≠ .ofNat 0)
    (hcontrol : ∀ c ∈ user ++ password, isControl c = false) :
    (String.ofList (scheme ++ "://".toList ++ user ++ ':' :: password ++ '@' ::
      (host ++ path))).utf8ByteSize =
        (asStr endpoint).utf8ByteSize + utf8Len user + utf8Len password + 2 ∧
    (String.ofList (scheme ++ "://".toList ++ user ++ ':' :: password ++ '@' ::
      (host ++ path))).toList.contains (.ofNat 0) = false := by
  constructor
  · have hsize : (asStr endpoint).utf8ByteSize =
        utf8Len (scheme ++ "://".toList ++ (host ++ path)) := by
      rw [← htext, ← utf8ByteSize_ofList, String.ofList_toList]
    have hcolon : (':' : Char).utf8Size = 1 := by decide
    have hat : ('@' : Char).utf8Size = 1 := by decide
    rw [utf8ByteSize_ofList, hsize]
    simp only [utf8Len_append, utf8Len_cons, hcolon, hat]
    omega
  · have hzero : isControl (.ofNat 0) = true := by decide
    have hslashes : ∀ c ∈ "://".toList, c ≠ .ofNat 0 := List.forall_mem_ne'.2 (by decide +kernel)
    rw [String.toList_ofList, List.contains_eq_mem, decide_eq_false_iff_not]
    intro hmem
    simp only [List.mem_append, List.mem_cons] at hmem hclean hcontrol
    rcases hmem with ((((hmem | hmem) | hmem) | hmem | hmem) | hmem | hmem)
    · exact hclean _ (.inl hmem) rfl
    · exact hslashes _ hmem rfl
    · simp [hcontrol _ (.inl hmem)] at hzero
    · exact absurd hmem (by decide)
    · simp [hcontrol _ (.inr hmem)] at hzero
    · exact absurd hmem (by decide)
    · exact hclean _ (.inr hmem) rfl

/-- **Accepted proxy credentials.**  The authentication and the tunnel both accept the payload, and
give native the accepted endpoint with exactly the username and password of the input, if and only
if these have no `@` and no backslash and the texts are short enough. -/
theorem credentials_usable_iff (hJ : J.Lossless) (hU : EndpointText Url)
    {parse : List Char → Option Url} {input credentials : String}
    (h : parseProxy J parse input = .ok (endpoint, some credentials)) :
    Usable J endpoint credentials input ↔
      ∀ user password, proxyUserinfo input = some (user, password) →
        CredentialsFit endpoint user password := by
  obtain ⟨parts, user, password, hparts, hu, rfl, hvalid, hinput⟩ := of_parseProxy h
  have huserinfo : proxyUserinfo input = some (user, password) := by
    rw [proxyUserinfo, hparts, Option.bind_some, hu]
  obtain ⟨scheme, host, path, htext, hscheme, hpath, hhost⟩ := endpoint_parts hU hvalid
  obtain ⟨hmem, hcolon⟩ := splitProxy_userinfo hparts hu
  -- the input has no control characters, so the parts have none
  have hcontrol : ∀ c ∈ user ++ password, isControl c = false := fun c hc =>
    hinput c (hmem c hc).1
  have hplain : ':' ∉ scheme := by
    rcases hscheme with rfl | rfl | rfl <;> decide +kernel
  -- the endpoint has no NUL
  have hclean : ∀ c ∈ scheme ++ (host ++ path), c ≠ .ofNat 0 := by
    have hscheme0 : ∀ c ∈ scheme, c ≠ .ofNat 0 := by
      rcases hscheme with rfl | rfl | rfl <;> exact List.forall_mem_ne'.2 (by decide +kernel)
    have hpath0 : ∀ c ∈ path, c ≠ .ofNat 0 := by
      rcases hpath with rfl | rfl <;> exact List.forall_mem_ne'.2 (by decide)
    intro c hc
    rcases List.mem_append.1 hc with hc | hc
    · exact hscheme0 c hc
    · rcases List.mem_append.1 hc with hc | hc
      · exact (hhost c hc).2.2
      · exact hpath0 c hc
  have hinsert : ∀ unreadable value, insertCredentials J unreadable endpoint
      (J.write user password) = .ok value ↔ (∀ c ∈ user ++ password, badPart c = false) ∧
        String.ofList (scheme ++ "://".toList ++ user ++ ':' :: password ++ '@' ::
          (host ++ path)) = value := fun _ _ =>
      insertCredentials_eq_ok hJ hcontrol hplain htext
  obtain ⟨hlen, hnul⟩ := rebuilt_text htext hclean hcontrol
  constructor
  · rintro ⟨value, parts', hconfigure, htunnel, -⟩ user' password' heq
    obtain ⟨rfl, rfl⟩ := Prod.mk.inj (Option.some.inj (huserinfo.symm.trans heq))
    obtain ⟨_, hvalue, hcstring⟩ := Exec.bind_eq_ok.1 hconfigure
    obtain ⟨hgood, rfl⟩ := (hinsert _ _).1 hvalue
    obtain ⟨_, hshort, -⟩ := Exec.bind_eq_ok.1 hcstring
    obtain ⟨_, hpayload, -⟩ := Exec.bind_eq_ok.1 htunnel
    rw [validateCredentials, Exec.rejectIf_eq_ok, Bool.or_eq_false_iff, decide_eq_false_iff_not,
      hJ.length _ _ hcontrol] at hpayload
    rw [Exec.rejectIf_eq_ok, Bool.or_eq_false_iff, decide_eq_false_iff_not, hlen] at hshort
    refine ⟨fun c hc => ?_, by omega, by simp only [nativeBytes] at hshort; omega⟩
    have hc := hgood c hc
    simp only [badPart, Bool.or_eq_false_iff, List.contains_eq_mem, List.mem_cons, List.not_mem_nil,
      or_false, decide_eq_false_iff_not, not_or] at hc
    exact ⟨hc.1.1, hc.1.2.2.2.2⟩
  · intro hfit
    obtain ⟨hgood, hpayload, htextFits⟩ := hfit user password huserinfo
    have hok : ∀ c ∈ user ++ password, badPart c = false := by
      intro c hc
      have hends := (hmem c hc).2
      simp only [endsAuthority, List.contains_eq_mem, List.mem_cons, List.not_mem_nil, or_false,
        decide_eq_false_iff_not, not_or] at hends
      simp [badPart, hgood c hc, hends, hcontrol c hc]
    refine ⟨String.ofList (scheme ++ "://".toList ++ user ++ ':' :: password ++ '@' ::
      (host ++ path)), { scheme, userinfo := none, rest := host ++ path }, ?_, ?_, ?_, rfl, ?_⟩
    · rw [configureProxy, (hinsert _ _).2 ⟨hok, rfl⟩, Exec.ok_bind, Auth.cstring, hnul, hlen]
      simp [nativeBytes, Exec.rejectIf, Nat.not_lt.2 htextFits]
    · have hcredentials : validateCredentials (J.write user password) = .ok () := by
        rw [validateCredentials, Exec.rejectIf_eq_ok, Bool.or_eq_false_iff,
          hJ.length _ _ hcontrol, hJ.nulFree _ _ hcontrol, decide_eq_false_iff_not]
        exact ⟨by omega, rfl⟩
      rw [tunnelProxy, hcredentials, Exec.ok_bind, (hinsert _ _).2 ⟨hok, rfl⟩, Exec.ok_bind, hnul,
        hlen]
      simp [Exec.rejectIf, Nat.not_lt.2 htextFits]
    · rw [htext]
      exact splitProxy_endpoint hplain (fun c hc => ⟨(hhost c hc).1, (hhost c hc).2.1⟩) hpath
    · rw [String.toList_ofList, huserinfo]
      exact splitProxy_rebuilt hplain hcolon (fun c hc => (hmem c hc).2)
        (fun c hc => ⟨(hhost c hc).1, (hhost c hc).2.1⟩) hpath

end

/-! ### A sample of the outside code -/

/-- A character inside a JSON string, if it is no control character. -/
def escapeChar (c : Char) : List Char := if c = '"' ∨ c = '\\' then ['\\', c] else [c]

/-- A JSON string. -/
def quotePart (s : List Char) : List Char := '"' :: s.flatMap escapeChar ++ ['"']

/-- The rest of a JSON string, up to its quote. -/
def unquotePart : List Char → Option (List Char × List Char)
  | [] => none
  | '"' :: rest => some ([], rest)
  | '\\' :: c :: rest => (unquotePart rest).map fun p => (c :: p.1, p.2)
  | c :: rest => (unquotePart rest).map fun p => (c :: p.1, p.2)

theorem unquotePart_quote (s rest : List Char) :
    unquotePart (s.flatMap escapeChar ++ '"' :: rest) = some (s, rest) := by
  induction s with
  | nil => rfl
  | cons c s ih =>
    rw [List.flatMap_cons, List.append_assoc]
    by_cases hc : c = '"' ∨ c = '\\'
    · rw [escapeChar, if_pos hc]
      change (unquotePart (s.flatMap escapeChar ++ '"' :: rest)).map _ = _
      rw [ih]
      rfl
    · push Not at hc
      rw [escapeChar, if_neg (by push Not; exact hc), List.cons_append, List.nil_append,
        unquotePart.eq_4 _ _ (by simpa using hc.1) (by simp [hc.2]), ih]
      rfl

/-- The JSON of pairs without control characters. -/
def sampleJson : PairJson where
  write u p := String.ofList ('[' :: quotePart u ++ ',' :: quotePart p ++ [']'])
  read text := match text.toList with
    | '[' :: '"' :: rest => match unquotePart rest with
      | some (u, ',' :: '"' :: rest) => (unquotePart rest).bind fun p =>
        if p.2 = [']'] then some (u, p.1) else none
      | _ => none
    | _ => none

theorem utf8Len_quotePart {s : List Char} (h : ∀ c ∈ s, isControl c = false) :
    utf8Len (quotePart s) = Json.stringLength (String.ofList s) := by
  have hquote : ('"' : Char).utf8Size = 1 := by decide
  have hsum : utf8Len (s.flatMap escapeChar) = (s.map Json.escapedLength).sum := by
    induction s with
    | nil => rfl
    | cons c s ih =>
      have hcontrol := h c (by simp)
      rw [List.flatMap_cons, utf8Len_append, ih fun c hc => h c (by simp [hc]), List.map_cons,
        List.sum_cons]
      congr 1
      by_cases hc : c = '"' ∨ c = '\\'
      · rcases hc with rfl | rfl <;> decide
      · push Not at hc
        have hne : c.toNat ≠ 0x22 ∧ c.toNat ≠ 0x5c := by
          constructor
          · intro heq
            exact hc.1 (Char.toNat_inj.1 heq)
          · intro heq
            exact hc.2 (Char.toNat_inj.1 heq)
        have hlow : ¬c.toNat < 0x20 := fun hlt => by simp [isControl, hlt] at hcontrol
        rw [escapeChar, if_neg (by push Not; exact hc), Json.escapedLength, if_neg ?_, if_neg hlow]
        · simp
        · simp only [List.mem_cons, List.not_mem_nil, or_false, hne, false_or]
          omega
  rw [quotePart, Json.stringLength, String.toList_ofList, ← hsum]
  simp only [List.cons_append, utf8Len_cons, utf8Len_append, hquote, utf8Len_nil]
  omega

theorem sampleJson_lossless : sampleJson.Lossless where
  readBack u p _ := by
    have hshape : (sampleJson.write u p).toList = '[' :: '"' :: (u.flatMap escapeChar ++ '"' ::
        ',' :: '"' :: (p.flatMap escapeChar ++ '"' :: [']'])) := by
      simp [sampleJson, quotePart]
    simp only [sampleJson] at hshape ⊢
    rw [hshape]
    simp only [unquotePart_quote, Option.bind_some, if_true]
  length u p h := by
    have hu : ∀ c ∈ u, isControl c = false := fun c hc => h c (List.mem_append_left _ hc)
    have hp : ∀ c ∈ p, isControl c = false := fun c hc => h c (List.mem_append_right _ hc)
    have hopen : ('[' : Char).utf8Size = 1 := by decide
    have hcomma : (',' : Char).utf8Size = 1 := by decide
    have hclose : (']' : Char).utf8Size = 1 := by decide
    rw [sampleJson, utf8ByteSize_ofList]
    simp only [List.cons_append, utf8Len_cons, utf8Len_append, utf8Len_quotePart hu,
      utf8Len_quotePart hp, hopen, hcomma, hclose, utf8Len_nil]
    omega
  nulFree u p h := by
    have hzero : isControl (.ofNat 0) = true := by decide
    have hescape : ∀ s : List Char, (∀ c ∈ s, isControl c = false) → Char.ofNat 0 ∉ quotePart s := by
      intro s hs hmem
      simp only [quotePart, List.mem_append, List.mem_cons, List.mem_flatMap, List.not_mem_nil,
        or_false] at hmem
      rcases hmem with (hmem | ⟨c, hc, hmem⟩) | hmem
      · exact absurd hmem (by decide)
      · have hcontrol := hs c hc
        have hcases : Char.ofNat 0 = '\\' ∨ Char.ofNat 0 = c := by
          unfold escapeChar at hmem
          split at hmem
          · simpa using hmem
          · exact .inr (by simpa using hmem)
        rcases hcases with heq | heq
        · exact absurd heq (by decide)
        · rw [← heq, hzero] at hcontrol
          cases hcontrol
      · exact absurd hmem (by decide)
    have hu := hescape u fun c hc => h c (List.mem_append_left _ hc)
    have hp := hescape p fun c hc => h c (List.mem_append_right _ hc)
    rw [sampleJson, String.toList_ofList, List.contains_eq_mem, decide_eq_false_iff_not]
    simp only [List.cons_append, List.mem_append, List.mem_cons, List.not_mem_nil, hu, hp, or_false,
      false_or]
    decide

/-- One proxy. -/
structure SampleProxy where
  deriving DecidableEq

instance : UrlCrate SampleProxy where
  asStr _ := "http://proxy.test:8080/"
  scheme _ := "http"
  host _ := some "proxy.test"
  cannotBeABase _ := false
  username _ := ""
  password _ := none
  port _ := some 8080
  path _ := "/"
  query _ := none
  fragment _ := none
  parseHost := some

/-- The parser on the text of that proxy. -/
def sampleParse (text : List Char) : Option SampleProxy :=
  if text = "http://proxy.test:8080".toList then some {} else none

theorem sample_endpointText : EndpointText SampleProxy := by
  have htext : "http://proxy.test:8080/".toList = "http".toList ++ "://".toList ++
      "proxy.test:8080".toList ++ "/".toList := by decide +kernel
  have hhost : ("proxy.test:8080".toList.all fun c =>
      !endsAuthority c && c != '@' && c != .ofNat 0) = true := by decide +kernel
  refine fun _ _ => ⟨"proxy.test:8080".toList, htext, fun c hc => ?_⟩
  simpa [and_assoc] using List.all_eq_true.1 hhost c hc

/-- `credentials_usable_iff` of encoded credentials. -/
theorem credentials_usable_encoded : Usable sampleJson ({} : SampleProxy)
    (sampleJson.write "us%40er".toList "pw".toList) "http://us%40er:pw@proxy.test:8080" := by
  have h : parseProxy sampleJson sampleParse "http://us%40er:pw@proxy.test:8080" =
      .ok ({}, some (sampleJson.write "us%40er".toList "pw".toList)) := by decide +kernel
  refine (credentials_usable_iff sampleJson_lossless sample_endpointText h).2 ?_
  have huserinfo : proxyUserinfo "http://us%40er:pw@proxy.test:8080" =
      some ("us%40er".toList, "pw".toList) := by decide +kernel
  intro user password heq
  rw [huserinfo] at heq
  obtain ⟨rfl, rfl⟩ := Prod.mk.inj (Option.some.inj heq)
  have hplain : ("us%40er".toList ++ "pw".toList).all (fun c => c != '@' && c != '\\') = true := by
    decide +kernel
  refine ⟨fun c hc => ?_, by decide +kernel, by decide +kernel⟩
  simpa using List.all_eq_true.1 hplain c hc

/-- A username with an `@` is accepted, and refused by the authentication and by the tunnel. -/
theorem credentials_unusable : ∃ credentials,
    parseProxy sampleJson sampleParse "http://us@er:pw@proxy.test:8080" =
      .ok ({}, some credentials) ∧
    configureProxy sampleJson ({} : SampleProxy) credentials =
      Exec.fail (.invalid "Invalid encoded proxy credentials") ∧
    tunnelProxy sampleJson ({} : SampleProxy) credentials =
      Exec.fail (.invalid "Invalid encoded proxy credentials") :=
  ⟨sampleJson.write "us@er".toList "pw".toList, by decide +kernel, by decide +kernel,
    by decide +kernel⟩

end Client

end Ocvpn
