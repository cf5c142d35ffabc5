import Ocvpn.Journal.Basic
import Ocvpn.Model.AddressText

/-!
# The executed script

`execute` of `crates/net/src/unix/lifecycle.rs`: the inventory of operations that the reviewed shell
script may request, the environment it runs in, and the loop that serves its requests.  What the
script sends is a `Transcript` of the world, so a claim about every transcript holds whatever the
script does.
-/

namespace Ocvpn.Net

open Crash

/-! ### Text -/

/-- `hay.contains(needle)`. -/
def hasInfix (needle : String) (hay : String) : Bool :=
  hay.toList.tails.any (needle.toList.isPrefixOf ·)

/-- `hay.starts_with(needle)`. -/
def startsWith (needle hay : String) : Bool := needle.toList.isPrefixOf hay.toList

/-- `text.split_once(sep)`. -/
def splitOnce (sep : Char) : List Char → Option (List Char × List Char)
  | [] => none
  | c :: cs =>
    if c = sep then some ([], cs) else (splitOnce sep cs).map fun (a, b) => (c :: a, b)

/-- `text.rsplit(sep).next()`. -/
def lastPiece (sep : Char) (text : String) : String :=
  String.ofList ((splitOn sep text.toList).getLast?.getD [])

/-- `text.strip_suffix(" -").unwrap_or(text)`. -/
def stripDash (text : String) : String :=
  if " -".toList.isSuffixOf text.toList then String.ofList (text.toList.take (text.length - 2))
  else text

/-! ### The inventory -/

/-- What a planned mutation is to the script. -/
inductive Role where
  | interface
  | gateway
  | excluded (cidr : String)
  | included (cidr : String)
  | resolver (name : String)
  deriving DecidableEq, Repr

/-- The name of the operation that covers a mutation. -/
def Role.group : Role → String
  | interface => "interface"
  | gateway => "gateway"
  | excluded cidr | included cidr => "route " ++ cidr
  | resolver name => name

/-- The host route of the transport peer. -/
def peerText (config : NetworkConfig) : String :=
  config.transportPeer.text ++ "/" ++ if config.transportPeer.isIpv4 then "32" else "128"

/-- The first mutation of the interface itself. -/
def firstInterface (mutations : List Mutation) : ℕ :=
  mutations.findIdx fun m => hasInfix "-mtu@" m.key.kind

/-- A route the kernel adds together with an address. -/
def automaticRoute (config : NetworkConfig) (m : Mutation) : Bool :=
  m.key.kind = "linux-route" &&
    (m.intended.bind Value.asArray).any fun routes => routes.any fun r =>
      r.get "protocol" = some (.str "kernel") && r.get "dev" = some (.str config.interface.name)

/-- The kinds of keys that belong to the interface itself. -/
def interfaceKinds : List String := ["-mtu@", "-up@", "-address@", "-addrgen@", "-auto-route@"]

/-- The operation that covers mutation number `i`. -/
def role (config : NetworkConfig) (first i : ℕ) (m : Mutation) : Except Error Role :=
  let kind := m.key.kind
  if interfaceKinds.any (hasInfix · kind) || (first ≤ i && automaticRoute config m) then
    .ok .interface
  else if kind = "linux-route" || kind = "mac-route" then
    let cidr := lastPiece '|' m.key.name
    if i < first && cidr = peerText config then .ok .gateway
    else if i < first then .ok (.excluded cidr)
    else .ok (.included cidr)
  else if startsWith "linux-resolvconf" kind then .ok (.resolver "resolvconf")
  else if startsWith "linux-dns@" kind || startsWith "linux-domains@" kind ||
      startsWith "linux-default-dns@" kind then .ok (.resolver "resolved")
  else if kind = "mac-store" then .ok (.resolver "darwin")
  else .error (failure "Unclassified journal mutation")

/-- The roles of all mutations, in their order. -/
def roles (config : NetworkConfig) (mutations : List Mutation) : Except Error (List Role) :=
  (mutations.zipIdx).mapM fun (m, i) => role config (firstInterface mutations) i m

/-! ### The environment -/

/-- The variables of the script. -/
abbrev Env := List (String × String)

/-- The excluded destinations of the inventory. -/
def excludes (roles : List Role) : List String := roles.filterMap fun
  | .excluded cidr => some cidr
  | _ => none

/-- The included destinations of the inventory. -/
def includes (roles : List Role) : List String := roles.filterMap fun
  | .included cidr => some cidr
  | _ => none

/-- The resolver of the last mutation that has one. -/
def resolver (roles : List Role) : String := roles.foldl (fun name r => match r with
  | .resolver name => name
  | _ => name) "none"

/-- The counted variables of one family of routes. -/
def splitVariables (suffix : String) (routes : List String) (v6 : Bool) : Except Error Env := do
  let base := (if v6 then "CISCO_IPV6_" else "CISCO_") ++ "SPLIT_" ++ suffix
  let routes := routes.filter fun p => hasInfix ":" p = v6
  let entries ← routes.zipIdx.mapM fun (route, i) => match splitOnce '/' route.toList with
    | none => .error (failure "Invalid route inventory")
    | some (address, length) =>
      let entry := base ++ "_" ++ toString i
      .ok [(entry ++ "_ADDR", String.ofList address), (entry ++ "_MASKLEN", String.ofList length),
        (entry ++ "_MASK", "")]
  pure ((base, toString routes.length) :: entries.flatten)

/-- The text of a reason that runs the script. -/
def reasonText : NetworkReason → Except Error String
  | .connect => .ok "connect"
  | .reconnect => .ok "reconnect"
  | .disconnect => .ok "disconnect"
  | _ => .error (failure "Unexpected configuring lifecycle")

/-- The environment of the script. -/
def environment (config : NetworkConfig) (reason : NetworkReason) (roles : List Role) :
    Except Error Env := do
  let reason ← reasonText reason
  let fixed : Env :=
    [("PATH", "/usr/sbin:/usr/bin:/sbin:/bin"), ("LC_ALL", "C"), ("reason", reason),
      ("OCGUI_RESOLVER", resolver roles), ("VPNGATEWAY", config.transportPeer.text),
      ("TUNDEV", config.interface.name), ("CISCO_BANNER", ""), ("INTERNAL_IP4_ADDRESS", ""),
      ("INTERNAL_IP6_ADDRESS", ""), ("INTERNAL_IP6_NETMASK", ""),
      ("INTERNAL_IP4_DNS", if config.dnsServers.isEmpty then "" else "planned"),
      ("INTERNAL_IP6_DNS", "")]
  let exc4 ← splitVariables "EXC" (excludes roles) false
  let exc6 ← splitVariables "EXC" (excludes roles) true
  let inc4 ← splitVariables "INC" (includes roles) false
  let inc6 ← splitVariables "INC" (includes roles) true
  pure (fixed ++ exc4 ++ exc6 ++ inc4 ++ inc6)

/-! ### Serving the script -/

section Serve

variable {H : Type}

/-- The mutations that an operation covers. -/
def covered (groups : List String) (operation : String) : List ℕ :=
  (List.range groups.length).filter fun i => groups[i]? = some operation

def replayed : Error := failure "Replayed vpnc lifecycle operation"

/-- Perform the mutations of one operation; the result is what was visited so far. -/
def visit (operation : ℕ → Prog H Unit) : List ℕ → List ℕ → Prog H (List ℕ)
  | visited, [] => pure visited
  | visited, i :: is =>
    if i ∈ visited then Io.fail replayed
    else do
      operation i
      visit operation (i :: visited) is

/-- The acknowledgement of a request. -/
def acknowledge : Prog H Unit :=
  (Io.query fun _ => .ok ()).orFail (failure "Lifecycle acknowledgement failed")

/-- The loop over the requests of the script. -/
def serve (groups : List String) (loopback : Bool) (reason : NetworkReason)
    (operation : ℕ → Prog H Unit) : List ℕ → List Request → Prog H (List ℕ)
  | visited, [] => pure visited
  | _, .malformed :: _ => Io.fail (failure "Malformed lifecycle operation")
  | _, .late :: _ => Io.fail (failure "vpnc lifecycle exceeded deadline")
  | visited, .line text :: requests => do
    let key := stripDash text
    let indices := covered groups key
    -- the script asks for the gateway on disconnect even when connect skipped loopback
    if key = "gateway" ∧ indices = [] ∧ loopback then do
      acknowledge
      serve groups loopback reason operation visited requests
    else if indices = [] then Io.fail (failure "Unplanned vpnc lifecycle operation")
    else do
      let visited ← visit operation visited
        (if reason = .disconnect then indices.reverse else indices)
      acknowledge
      serve groups loopback reason operation visited requests

/-- The next execution of the script. -/
def nextTranscript : Prog H Transcript := do
  let transcript ← Io.get fun w : World H => w.transcripts.headD ⟨[], .failure⟩
  Io.modify fun w => { w with transcripts := w.transcripts.tail }
  pure transcript

/-- `execute`. -/
def execute (config : NetworkConfig) (reason : NetworkReason) (mutations : List Mutation)
    (operation : ℕ → Prog H Unit) : Prog H Unit := do
  let roles ← Io.ofExcept (roles config mutations)
  Io.query fun _ => .ok ()
  let _ ← Io.ofExcept (environment config reason roles)
  Io.query fun _ => .ok ()
  let transcript ← nextTranscript
  let visited ← serve (roles.map Role.group) config.transportPeer.isLoopback reason operation []
    transcript.requests
  match transcript.exit with
  | .failure => Io.fail (failure "vpnc lifecycle failed")
  | .late => Io.fail (failure "vpnc lifecycle exceeded deadline")
  | .success =>
    if (List.range mutations.length).all (· ∈ visited) then pure ()
    else Io.fail (failure "vpnc lifecycle omitted a planned mutation")

/-- `apply_script`. -/
def applyScript (ops : UnixOps H) (config : NetworkConfig) (reason : NetworkReason)
    (mutations : List Mutation) (operation : ℕ → Prog H Unit) : Prog H Unit := do
  ofRun config.validate
  if reason ≠ .disconnect then do
    let identity ← Io.query fun w => ops.resolve w.host config.interface.name
    if identity = config.interface then execute config reason mutations operation
    else Io.fail (failure "Tunnel interface identity changed")
  else execute config reason mutations operation

end Serve

end Ocvpn.Net
