import Ocvpn.Environment.Text
import Ocvpn.Model.Network

/-!
# The environment of the lifecycle script

`parse_environment` of `crates/net/src/lib.rs`: the variables that are recognised go into a map,
and every step of the parser takes what it needs out of the map; what is left at the end is an
error.  Resolving the name of the interface is a parameter.

A map is the list of its entries.  Nothing in the source depends on their order.
-/

namespace Ocvpn.Environment

open Text

/-- `MAX_INPUT_BYTES`. -/
def maxInputBytes : ℕ := 1024 * 1024

/-- `MAX_ENV_ENTRIES`. -/
def maxEnvEntries : ℕ := 4096

/-- `MAX_VALUE_BYTES`. -/
def maxValueBytes : ℕ := 65536

/-- The input of one run of the lifecycle. -/
structure LifecycleInput where
  reason : NetworkReason
  config : Option NetworkConfig
  deriving DecidableEq

/-- The variables with names of their own. -/
def plainNames : List String :=
  ["reason", "TUNDEV", "VPNGATEWAY", "INTERNAL_IP4_MTU", "INTERNAL_IP4_ADDRESS",
    "INTERNAL_IP4_NETMASK", "INTERNAL_IP4_NETMASKLEN", "INTERNAL_IP4_NETADDR",
    "INTERNAL_IP6_ADDRESS", "INTERNAL_IP6_NETMASK", "INTERNAL_IP4_DNS", "INTERNAL_IP6_DNS",
    "CISCO_DEF_DOMAIN", "CISCO_SPLIT_DNS", "INTERNAL_IP4_NBNS", "CISCO_PROXY_PAC"]

/-- The first parts of the names of the split routes. -/
def splitBases : List String :=
  ["CISCO_SPLIT_INC", "CISCO_SPLIT_EXC", "CISCO_IPV6_SPLIT_INC", "CISCO_IPV6_SPLIT_EXC"]

/-- `recognized`. -/
def recognized (key : String) : Bool :=
  plainNames.contains key || splitBases.any fun base => base.toList.isPrefixOf key.toList

/-! ### The map -/

/-- The recognised variables that have not been taken. -/
abbrev Fields := List (String × String)

namespace Fields

/-- `contains_key`. -/
def containsKey (env : Fields) (key : String) : Bool := env.any fun e => e.1 == key

/-- `take`: the variable leaves the map; an empty value counts as none. -/
def take (env : Fields) (key : String) : Option String × Fields :=
  ((env.lookup key).filter (· ≠ ""), env.filter fun e => e.1 ≠ key)

/-- `required`. -/
def required (env : Fields) (key : String) : Run (String × Fields) :=
  match env.take key with
  | (some value, env) => .ok (value, env)
  | (none, _) => Exec.fail (.invalid "Missing required network configuration field")

end Fields

/-! ### Values -/

/-- `number`, at the parser of a type. -/
def number {α : Type} (parse : String → Option α) (value : String) : Run α :=
  match parse value with
  | some n => .ok n
  | none => Exec.fail (.invalid "Invalid network address or numeric value")

/-- `mask_bits`. -/
def maskBits (length : ℕ) : Run (BitVec 32) :=
  if length = 0 then .ok 0 else do Exec.shl (BitVec.allOnes 32) (← Exec.sub 32 length)

/-- `leading_ones`. -/
def leadingOnes (a : BitVec 32) : ℕ := ((List.range 32).takeWhile fun i => a.getMsbD i).length

/-- The prefix length of a netmask. -/
def maskPrefix (mask : String) : Run ℕ := do
  let bits ← number parseIpv4 mask
  let expected ← maskBits (leadingOnes bits)
  Exec.rejectIf (bits ≠ expected) (.invalid "Noncontiguous IPv4 netmask")
  .ok (leadingOnes bits)

/-- `ipv4_prefix`. -/
def ipv4Prefix (mask len : Option String) : Run ℕ := do
  let fromMask ← mask.mapM maskPrefix
  let fromLen ← len.mapM (number (parseUnsigned 8))
  match fromLen.or fromMask with
  | none => Exec.fail (.invalid "Missing IPv4 route prefix")
  | some length =>
    Exec.rejectIf (length > 32 || fromMask.any (· ≠ length))
      (.invalid "Invalid or inconsistent IPv4 prefix")
    .ok length

/-- `ip_list`: the servers from index `i` on. -/
def ipListFrom (i : ℕ) : List String → Run (List IpAddr)
  | [] => .ok []
  | value :: values => do
    Exec.rejectIf (i ≥ maxNetworkItems) (.invalid "Too many DNS servers")
    let ip ← number parseIpAddr value
    let ips ← ipListFrom (i + 1) values
    .ok (ip :: ips)

/-- `ip_list`. -/
def ipList (value : Option String) : Run (List IpAddr) :=
  ipListFrom 0 (pieces isAsciiWhitespace (value.getD ""))

/-- `domains`: the domains after the first `i`. -/
def domainsFrom (i : ℕ) : List String → Run (List String)
  | [] => .ok []
  | domain :: rest => do
    Exec.rejectIf (i ≥ maxNetworkItems) (.invalid "Too many DNS domains")
    validateDomain domain
    let domains ← domainsFrom (i + 1) rest
    .ok (domain :: domains)

/-- `domains`. -/
def domains (value : Option String) (comma : Bool) : Run (List String) :=
  match value with
  | none => .ok []
  | some value => domainsFrom 0 (pieces (fun c => isAsciiWhitespace c || (comma && c == ',')) value)

/-! ### Split routes -/

/-- The name of a variable of one split route. -/
def entryName (base : String) (i : ℕ) (suffix : String) : String :=
  base ++ "_" ++ toString i ++ "_" ++ suffix

/-- The constraints a route cannot represent: absent or zero. -/
def unconstrained (env : Fields) (base : String) (i : ℕ) : List String → Run Fields
  | [] => .ok env
  | suffix :: suffixes => do
    let (value, env) := env.take (entryName base i suffix)
    let value ← value.mapM (number (parseUnsigned 16))
    Exec.rejectIf (value.any (· ≠ 0))
      (.invalid "Port or protocol constrained split routes are unsupported")
    unconstrained env base i suffixes

/-- The prefix length of one split route. -/
def routePrefix (env : Fields) (base : String) (ipv6 : Bool) (i : ℕ) (len : Option String) :
    Run (ℕ × Fields) :=
  if ipv6 then
    match len with
    | none => Exec.fail (.invalid "Missing IPv6 route prefix")
    | some len => do
      let length ← number (parseUnsigned 8) len
      .ok (length, env)
  else do
    let (mask, env) := env.take (entryName base i "MASK")
    let length ← ipv4Prefix mask len
    .ok (length, env)

/-- One split route. -/
def route (env : Fields) (base : String) (ipv6 : Bool) (i : ℕ) : Run (IpPrefix × Fields) := do
  let (value, env) ← env.required (entryName base i "ADDR")
  let address ← number parseIpAddr value
  Exec.rejectIf (address.isIpv6 != ipv6) (.invalid "Split route has wrong address family")
  let (len, env) := env.take (entryName base i "MASKLEN")
  let (length, env) ← routePrefix env base ipv6 i len
  let env ← unconstrained env base i ["PROTOCOL", "SPORT", "DPORT"]
  IpPrefix.validate ⟨address, length⟩
  .ok (⟨address, length⟩, env)

/-- So many split routes from index `i` on. -/
def routesFrom (env : Fields) (base : String) (ipv6 : Bool) (i : ℕ) :
    ℕ → Run (List IpPrefix × Fields)
  | 0 => .ok ([], env)
  | left + 1 => do
    let (p, env) ← route env base ipv6 i
    let (ps, env) ← routesFrom env base ipv6 (i + 1) left
    .ok (p :: ps, env)

/-- `routes`. -/
def routes (env : Fields) (base : String) (ipv6 : Bool) : Run (List IpPrefix × Fields) := do
  let (value, env) := env.take base
  let count ← value.mapM (number (parseUnsigned 64))
  let count := count.getD 0
  Exec.rejectIf (count > maxNetworkItems) (.invalid "Too many split routes")
  routesFrom env base ipv6 0 count

/-! ### Addresses of the interface -/

/-- The IPv4 address, as a host prefix, and the legacy subnet. -/
def ipv4Address (v4 mask len net : Option String) : Run (List IpPrefix × Option IpPrefix) :=
  let hasSubnet := mask.isSome || len.isSome || net.isSome
  match v4 with
  | some value => do
    let address ← number parseIpv4 value
    if hasSubnet then
      let length ← ipv4Prefix mask len
      let bits ← maskBits length
      let network := address &&& bits
      let announced ← net.mapM (number parseIpv4)
      Exec.rejectIf (announced.any (· ≠ network))
        (.invalid "Inconsistent negotiated IPv4 network")
      .ok ([⟨.v4 address, 32⟩], some ⟨.v4 network, length⟩)
    else .ok ([⟨.v4 address, 32⟩], none)
  | none => do
    Exec.rejectIf hasSubnet (.invalid "IPv4 subnet is missing its interface address")
    .ok ([], none)

/-- The IPv6 address. -/
def ipv6Address (v6 net : Option String) : Run (List IpPrefix) :=
  match net with
  | some net =>
    match splitOnce '/' net with
    | none => Exec.fail (.invalid "IPv6 netmask must contain address and prefix")
    | some (ip, length) => do
      let address ← number parseIpv6 ip
      let announced ← v6.mapM (number parseIpv6)
      Exec.rejectIf (announced.any (· ≠ address))
        (.invalid "Inconsistent negotiated IPv6 address")
      let length ← number (parseUnsigned 8) length
      .ok [⟨.v6 address, length⟩]
  | none =>
    match v6 with
    | some ip => do
      let address ← number parseIpv6 ip
      .ok [⟨.v6 address, 128⟩]
    | none => .ok []

/-! ### The parser -/

/-- The values of `reason`. -/
def reasonOf : String → Option NetworkReason
  | "pre-init" => some .preInit
  | "connect" => some .connect
  | "reconnect" => some .reconnect
  | "attempt-reconnect" => some .attemptReconnect
  | "disconnect" => some .disconnect
  | _ => none

/-- The reason asks for a configuration. -/
def negotiated : NetworkReason → Bool
  | .connect | .reconnect => true
  | .preInit | .attemptReconnect | .disconnect => false

/-- The configuration, from the fields without the reason. -/
def parseConfig (resolve : String → Run InterfaceIdentity) (env : Fields) : Run NetworkConfig := do
  let (name, env) ← env.required "TUNDEV"
  let (mtu, env) ← env.required "INTERNAL_IP4_MTU"
  let mtu ← number (parseUnsigned 16) mtu
  let (peer, env) ← env.required "VPNGATEWAY"
  let transportPeer ← number parseIpAddr peer
  let (v4, env) := env.take "INTERNAL_IP4_ADDRESS"
  let (mask, env) := env.take "INTERNAL_IP4_NETMASK"
  let (len, env) := env.take "INTERNAL_IP4_NETMASKLEN"
  let (net, env) := env.take "INTERNAL_IP4_NETADDR"
  let (addresses4, ipv4Subnet) ← ipv4Address v4 mask len net
  let (v6, env) := env.take "INTERNAL_IP6_ADDRESS"
  let (v6Net, env) := env.take "INTERNAL_IP6_NETMASK"
  let addresses6 ← ipv6Address v6 v6Net
  let addresses := addresses4 ++ addresses6
  let (dns4, env) := env.take "INTERNAL_IP4_DNS"
  let dns4 ← ipList dns4
  let (dns6, env) := env.take "INTERNAL_IP6_DNS"
  let dns6 ← ipList dns6
  let (search, env) := env.take "CISCO_DEF_DOMAIN"
  let searchDomains ← domains search false
  let (split, env) := env.take "CISCO_SPLIT_DNS"
  let splitDns ← domains split true
  let fullTunnelIpv4 := addresses.any (·.address.isIpv4) && !env.containsKey "CISCO_SPLIT_INC"
  let fullTunnelIpv6 := addresses.any (·.address.isIpv6) && !env.containsKey "CISCO_IPV6_SPLIT_INC"
  let (includes4, env) ← routes env "CISCO_SPLIT_INC" false
  let (includes6, env) ← routes env "CISCO_IPV6_SPLIT_INC" true
  let (excludes4, env) ← routes env "CISCO_SPLIT_EXC" false
  let (excludes6, env) ← routes env "CISCO_IPV6_SPLIT_EXC" true
  let (nbns, env) := env.take "INTERNAL_IP4_NBNS"
  -- the second one is not taken when the first one is there, but then the parser fails
  let (pac, env) := env.take "CISCO_PROXY_PAC"
  Exec.rejectIf (nbns.isSome || pac.isSome)
    (.invalid "Negotiated WINS or proxy PAC configuration is not supported")
  Exec.rejectIf (!env.isEmpty) (.invalid "Unexpected or unconsumed network configuration field")
  let interface ← resolve name
  let config : NetworkConfig :=
    { interface, mtu, addresses, dnsServers := dns4 ++ dns6, ipv4Subnet, fullTunnelIpv4,
      fullTunnelIpv6, searchDomains, splitDns, splitIncludes := includes4 ++ includes6,
      splitExcludes := excludes4 ++ excludes6, transportPeer }
  config.validate
  .ok config

/-- The recognised entries, within the limits; `n` entries of so many bytes have been read. -/
def collect (n bytes : ℕ) (fields : Fields) : List (String × String) → Run Fields
  | [] => .ok fields
  | (key, value) :: entries =>
    let bytes := bytes + key.utf8ByteSize + value.utf8ByteSize
    if bytes ≥ 2 ^ 64 then Exec.fail (.invalid "Network environment exceeds limits")
    else if n ≥ maxEnvEntries ∨ bytes > maxInputBytes ∨ key.utf8ByteSize > 256 ∨
        value.utf8ByteSize > maxValueBytes then
      Exec.fail (.invalid "Network environment exceeds limits")
    else if recognized key then
      if value.toList.contains (.ofNat 0) ∨ fields.containsKey key then
        Exec.fail (.invalid "Invalid or duplicate network environment field")
      else collect (n + 1) bytes (fields ++ [(key, value)]) entries
    else collect (n + 1) bytes fields entries

/-- `parse_environment`. -/
def parseEnvironment (resolve : String → Run InterfaceIdentity) (input : List (String × String)) :
    Run LifecycleInput := do
  let env ← collect 0 0 [] input
  let (reason, env) ← env.required "reason"
  match reasonOf reason with
  | none => Exec.fail (.invalid "Unsupported network lifecycle reason")
  | some reason =>
    if negotiated reason then do
      let config ← parseConfig resolve env
      .ok ⟨reason, some config⟩
    else .ok ⟨reason, none⟩

end Ocvpn.Environment
