import Ocvpn.Auth.Control
import Ocvpn.Model.Profile

/-!
# GlobalProtect completions

What an identity provider reports at the end of a login, in the headers of a page
(`page_completion` of `crates/client/src/browser.rs`), in its document, or in a callback of the
system's browser (`crates/client/src/globalprotect.rs`).

Base64 and the walk through the markup are parameters.
-/

namespace Ocvpn.Browser

open Ipc

/-- `GpCompletion`. -/
structure GpCompletion where
  username : String
  cookieName : String
  cookie : String
  deriving DecidableEq, Repr

/-- The four fields of a completion. -/
abbrev Fields := Fin 4 → Option String

/-- The names of the fields. -/
def fieldNames : Fin 4 → String :=
  ![ "saml-auth-status", "saml-username", "prelogin-cookie", "portal-userauthcookie" ]

/-- `MAX_INPUT`. -/
def maxInput : ℕ := 1024 * 1024

def malformed : Error := .invalid "Invalid or excessive GlobalProtect completion data"

def unsupportedCas : Error := .new .unsupportedAuthentication
  "GlobalProtect CAS token completion is not supported by the pinned OpenConnect SSO detector; use embedded authentication"

def notAuthenticated : Error := .new .authenticationRejected
  "GlobalProtect did not report successful SAML authentication"

/-- `value.trim().is_empty()`. -/
def isBlank (value : String) : Bool := value.toList.all isWhitespace

/-- `eq_ignore_ascii_case`. -/
def eqIgnoreAsciiCase (a b : String) : Bool := a.toList.map Char.toLower == b.toList.map Char.toLower

/-- The account that the fields name. -/
def Fields.username (values : Fields) (account : Error) : Run String :=
  match values 1 with
  | some value => if isBlank value then Exec.fail account else pure value
  | none => Exec.fail account

/-- The name of the cookie and the cookie. -/
def Fields.cookie (values : Fields) (credential : Error) : Run (String × String) :=
  match values 2, values 3 with
  | some value, none => pure (fieldNames 2, value)
  | none, some value => pure (fieldNames 3, value)
  | _, _ => Exec.fail credential

/-- What the fields amount to, with the errors for a bad account, credential and character. -/
def Fields.completion (values : Fields) (account credential character : Error) :
    Run (Option GpCompletion) := do
  if (List.finRange 4).all (values · |>.isNone) then pure none
  else
    Exec.rejectIf (values 0 != some "1") notAuthenticated
    let username ← values.username account
    let (name, cookie) ← values.cookie credential
    Exec.rejectIf (isBlank cookie || (username.toList ++ cookie.toList).any isControl) character
    pure (some ⟨username, name, cookie⟩)

/-! ### Documents and callbacks -/

/-- The libraries underneath. -/
structure Markup where
  /-- Base64 and UTF-8. -/
  decode : String → Option String
  /-- `parse_fragment` on a whole document. -/
  fragment : String → Run Fields

/-- `xml_char`. -/
def xmlChar (c : Char) : Bool :=
  let n := c.toNat
  n == 0x9 || n == 0xa || n == 0xd || (0x20 ≤ n && n ≤ 0xd7ff) || (0xe000 ≤ n && n ≤ 0xfffd) ||
    (0x10000 ≤ n && n ≤ 0x10ffff)

def casPrefix : List Char := "cas-as".toList

namespace Markup

variable (m : Markup)

/-- `decode_callback`. -/
def decodeCallback (input : String) : Run String := do
  let scheme := "globalprotectcallback:".toList
  Exec.rejectIf (input.utf8ByteSize > maxInput) malformed
  Exec.rejectIf (!scheme.isPrefixOf input.toList) malformed
  let payload := (input.toList.drop scheme.length).dropWhile (· == '/')
  Exec.rejectIf (casPrefix.isPrefixOf payload) unsupportedCas
  Exec.rejectIf payload.isEmpty malformed
  match m.decode (String.ofList payload) with
  | some text => pure text
  | none => Exec.fail malformed

/-- `parse_completion_if_present`. -/
def parseCompletionIfPresent (input : String) : Run (Option GpCompletion) := do
  Exec.rejectIf (input.isEmpty || input.utf8ByteSize > maxInput || !input.toList.all xmlChar)
    malformed
  Exec.rejectIf (casPrefix.isPrefixOf (input.toList.dropWhile isWhitespace)) unsupportedCas
  let values ← m.fragment input
  values.completion malformed malformed malformed

/-- `parse_completion`. -/
def parseCompletion (input : String) : Run GpCompletion := do
  match ← m.parseCompletionIfPresent input with
  | some completion => pure completion
  | none => Exec.fail notAuthenticated

/-- The completion in a callback. -/
def callbackCompletion (uri : String) : Run GpCompletion := do
  m.parseCompletion (← m.decodeCallback uri)

end Markup

/-! ### Pages -/

/-- The loop of `page_completion` over the headers. -/
def headerFields (values : Fields) : List (String × String) → Run Fields
  | [] => pure values
  | (name, value) :: headers =>
    match (List.finRange 4).find? fun i => eqIgnoreAsciiCase (fieldNames i) name with
    | none => headerFields values headers
    | some i => do
      Exec.rejectIf (values i).isSome (.invalid "Duplicate browser completion field")
      headerFields (Function.update values i (some value)) headers

/-- `page_completion`. -/
def Markup.pageCompletion (m : Markup) (page : BrowserPage) : Run (Option GpCompletion) := do
  let values ← headerFields (fun _ => none) page.headers
  match ← values.completion (.invalid "Missing browser completion account")
      (.invalid "Missing or conflicting browser completion credential")
      (.invalid "Invalid browser completion field") with
  | some completion => pure (some completion)
  | none => match page.document with
    | none => pure none
    | some document => m.parseCompletionIfPresent document

end Ocvpn.Browser
