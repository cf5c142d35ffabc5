import Ocvpn.Model.Network

/-!
# The route policy computation

`crates/net/src/routes.rs`: the tunnel routes and the physical bypass routes every platform plans.
Subtractions, shifts and the bound on the number of routes are kept as the source has them; that
none of them can go wrong on a validated configuration is proved in `Ocvpn.Routes.Policy`.
-/

namespace Ocvpn

/-- `MAX_POLICY_ROUTES`. -/
def maxPolicyRoutes : ℕ := 4096

namespace Routes

/-- An address of the family of `a` from a `u128` (`Ipv4Addr::from(n as u32)` or
`Ipv6Addr::from(n)`). -/
def ofBits (a : IpAddr) (n : BitVec 128) : IpAddr :=
  if a.isIpv4 then .v4 (n.setWidth 32) else .v6 n

/-- Clear the lowest `host` bits; a shift by the whole width of `u128` would panic. -/
def clearHost (bits : BitVec 128) (host : ℕ) : Run (BitVec 128) :=
  if host = 128 then pure 0 else do Exec.shl (← Exec.shr bits host) host

/-- Clear the host bits of a prefix. -/
def normalize (p : IpPrefix) : Run IpPrefix := do
  let host ← Exec.sub p.width p.prefixLen
  let network ← clearHost p.address.bits host
  pure { address := ofBits p.address network, prefixLen := p.prefixLen }

/-- `inner` lies inside the network `outer`. -/
def contains (outer inner : IpPrefix) : Run Bool :=
  if outer.address.isIpv4 = inner.address.isIpv4 ∧ outer.prefixLen ≤ inner.prefixLen then do
    let p ← normalize { address := inner.address, prefixLen := outer.prefixLen }
    pure (p.address == outer.address)
  else pure false

/-- Push a route, within the bound. -/
def append (output : List IpPrefix) (p : IpPrefix) : Run (List IpPrefix) :=
  if output.length ≥ maxPolicyRoutes then
    Exec.fail (.invalid "VPN route policy exceeds the bounded native route expansion")
  else pure (output ++ [p])

/-- The order of the two sorts: family, bits, length. -/
def keyLe (p q : IpPrefix) : Bool :=
  if p.address.isIpv6 ≠ q.address.isIpv6 then !p.address.isIpv6
  else if p.address.bits ≠ q.address.bits then p.address.bits < q.address.bits
  else p.prefixLen ≤ q.prefixLen

/-- `Vec::dedup`: of consecutive equal elements the first stays. -/
def dedup : List IpPrefix → List IpPrefix
  | [] => []
  | p :: ps => match dedup ps with
    | [] => [p]
    | q :: qs => if p = q then q :: qs else p :: q :: qs

/-- Sort by key and drop repetitions. -/
def sortDedup (l : List IpPrefix) : List IpPrefix := dedup (l.insertionSort fun p q => keyLe p q)

/-- The whole address space of the family of `a`. -/
def everything (a : IpAddr) : IpPrefix := { address := a, prefixLen := 0 }

/-- `0.0.0.0`. -/
def unspecified4 : IpAddr := .v4 0

/-- `::`. -/
def unspecified6 : IpAddr := .v6 0

/-- The host route of the transport peer. -/
def peerRoute (c : NetworkConfig) : IpPrefix :=
  { address := c.transportPeer, prefixLen := if c.transportPeer.isIpv4 then 32 else 128 }

/-! ### Tunnel routes -/

/-- A default route is replaced by its two halves. -/
def halves (p : IpPrefix) : List IpPrefix :=
  if p.prefixLen = 0 then
    let high := if p.address.isIpv4 then IpAddr.v4 (128#32 <<< 24) else IpAddr.v6 (1#128 <<< 127)
    [{ address := p.address, prefixLen := 1 }, { address := high, prefixLen := 1 }]
  else [p]

/-- Add one include unless an earlier one contains it; drop the earlier ones it contains. -/
def insertInclude (normalized : List IpPrefix) (p : IpPrefix) : Run (List IpPrefix) := do
  if ← normalized.anyM fun existing => contains existing p then pure normalized
  else do
    let kept ← normalized.filterM fun existing => do pure !(← contains p existing)
    append kept p

/-- The negotiated includes: split includes, the legacy subnet and the full-tunnel flags. -/
def includes (c : NetworkConfig) : Run (List IpPrefix) := do
  let split ← c.splitIncludes.mapM normalize
  let subnet ← c.ipv4Subnet.toList.mapM normalize
  pure (split ++ subnet ++ (if c.fullTunnelIpv4 then [everything unspecified4] else []) ++
    (if c.fullTunnelIpv6 then [everything unspecified6] else []))

/-- The routes that lead into the tunnel. -/
def tunnelRoutes (c : NetworkConfig) : Run (List IpPrefix) := do
  c.validate
  let includes ← includes c
  let normalized ← (includes.flatMap halves).foldlM insertInclude []
  let excludes ← c.splitExcludes.mapM normalize
  let excludes := excludes ++ [peerRoute c]
  -- only includes covered by an equal or broader exclusion go; a narrower bypass already wins
  let kept ← normalized.filterM fun include_ => do
    pure !(← excludes.anyM fun exclude => contains exclude include_)
  pure (sortDedup kept)

/-! ### Bypass routes -/

/-- The two child routes that outrank the kernel-connected route of an excluded address. -/
def addChildren (c : NetworkConfig) (bypass : List IpPrefix) (address : IpPrefix) :
    Run (List IpPrefix) := do
  if address.prefixLen = address.width then pure bypass
  else do
    let connected ← normalize address
    if ← c.splitExcludes.anyM fun exclude => do contains (← normalize exclude) connected then do
      let length := connected.prefixLen + 1
      let upper ← Exec.shl 1#128 (← Exec.sub connected.width length)
      let bypass ← append bypass { address := connected.address, prefixLen := length }
      append bypass
        { address := ofBits connected.address (connected.address.bits ||| upper)
          prefixLen := length }
    else pure bypass

/-- A route to one of the interface's own addresses. -/
def isLocal (c : NetworkConfig) (route : IpPrefix) : Bool :=
  route.prefixLen == route.width && c.addresses.any fun a => a.address == route.address

/-- The routes that stay on the physical network. -/
def bypassRoutes (c : NetworkConfig) : Run (List IpPrefix) := do
  c.validate
  let excludes ← c.splitExcludes.mapM normalize
  let bypass ← c.addresses.foldlM (addChildren c) excludes
  -- a local address remains local even when its surrounding range is excluded
  pure (sortDedup (bypass.filter fun route => !isLocal c route))

end Routes

end Ocvpn
