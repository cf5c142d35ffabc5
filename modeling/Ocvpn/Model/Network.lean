import Ocvpn.Model.Basic

/-!
# The negotiated network configuration

`NetworkConfig` and `NetworkConfig.validate` of `crates/model/src/network.rs`.  Validation is the
only gate every platform passes before it plans a mutation; `NetworkConfig.Valid` collects what
the later modules use of it.
-/

namespace Ocvpn

/-- `MAX_NETWORK_ITEMS`. -/
def maxNetworkItems : ℕ := 256

/-- The tunnel interface as the OS names and numbers it. -/
structure InterfaceIdentity where
  name : String
  index : ℕ
  deriving DecidableEq, Repr

/-- The configuration the gateway announced. -/
structure NetworkConfig where
  interface : InterfaceIdentity
  mtu : ℕ
  addresses : List IpPrefix
  /-- Legacy negotiated interface subnet; it does not select split-tunnel mode. -/
  ipv4Subnet : Option IpPrefix := none
  dnsServers : List IpAddr := []
  searchDomains : List String := []
  splitDns : List String := []
  fullTunnelIpv4 : Bool := false
  fullTunnelIpv6 : Bool := false
  splitIncludes : List IpPrefix := []
  splitExcludes : List IpPrefix := []
  transportPeer : IpAddr
  deriving DecidableEq, Repr

/-- Why the lifecycle script is called. -/
inductive NetworkReason where
  | preInit | connect | reconnect | attemptReconnect | disconnect
  deriving DecidableEq, Repr

/-- What a platform observed after it applied a configuration. -/
structure NetworkObservation where
  interface : String
  addresses : List String
  dnsServers : List String
  searchDomains : List String
  routes : List String
  transport : String
  deriving DecidableEq, Repr

/-- `char::is_control`: the Unicode category `Cc`. -/
def isControl (c : Char) : Bool := c.toNat < 0x20 || (0x7f ≤ c.toNat && c.toNat < 0xa0)

/-- `str::split` on one character: the pieces between the separators, at least one. -/
def splitOn (sep : Char) : List Char → List (List Char)
  | [] => [[]]
  | c :: cs =>
    if c = sep then [] :: splitOn sep cs
    else match splitOn sep cs with
      | [] => [[c]]
      | piece :: pieces => (c :: piece) :: pieces

/-- `strip_suffix('.').unwrap_or(domain)`. -/
def stripDot (cs : List Char) : List Char := if cs.getLast? = some '.' then cs.dropLast else cs

/-- One label of a domain is rejected. -/
def badLabel (label : List Char) : Bool :=
  label.isEmpty || label.length > 63 || label.head? == some '-' || label.getLast? == some '-' ||
    !label.all fun c => c.isAlphanum || c == '-'

/-- Accept an ASCII domain name or its IDNA A-label form.  Lengths are taken after the ASCII
check, where characters and bytes agree. -/
def validateDomain (domain : String) : Run Unit :=
  let value := stripDot domain.toList
  Exec.rejectIf
    (value.isEmpty || (String.ofList value).utf8ByteSize > 253 ||
      !value.all (fun c => c.toNat < 128) || (splitOn '.' value).any badLabel)
    (.invalid "Invalid DNS domain; use ASCII or IDNA A-label form")

namespace NetworkConfig

/-- The interface name cannot be used. -/
def badInterface (i : InterfaceIdentity) : Bool :=
  i.index == 0 || i.name.isEmpty || i.name.utf8ByteSize > 256 ||
    i.name.toList.any fun c => isControl c || c == '/' || c == '\\'

/-- Some list of the configuration is over the limit, or no address was announced. -/
def badCounts (c : NetworkConfig) : Bool :=
  c.addresses.isEmpty || c.addresses.length > maxNetworkItems ||
    c.dnsServers.length > maxNetworkItems || c.searchDomains.length > maxNetworkItems ||
    c.splitDns.length > maxNetworkItems || c.splitIncludes.length > maxNetworkItems ||
    c.splitExcludes.length > maxNetworkItems

/-- The netmask of an IPv4 prefix length: `u32::MAX << (32 - prefix)`, and `0` for length `0`. -/
def ipv4Mask (prefixLen : ℕ) : Run (BitVec 32) :=
  if prefixLen = 0 then pure 0 else do Exec.shl (BitVec.allOnes 32) (← Exec.sub 32 prefixLen)

/-- Some announced IPv4 address lies in the network `address` under `mask`. -/
def subnetHolds (c : NetworkConfig) (mask address : BitVec 32) : Bool :=
  c.addresses.any fun value => match value.address with
    | .v4 ip => ip &&& mask == address
    | .v6 _ => false

/-- Check the legacy interface subnet. -/
def validateSubnet (c : NetworkConfig) (subnet : IpPrefix) : Run Unit := do
  subnet.validate
  match subnet.address with
  | .v6 _ => Exec.fail (.invalid "IPv4 subnet has wrong address family")
  | .v4 address =>
    let mask ← ipv4Mask subnet.prefixLen
    Exec.rejectIf (address &&& ~~~mask != 0) (.invalid "IPv4 subnet is not a network address")
    Exec.rejectIf (!c.subnetHolds mask address)
      (.invalid "IPv4 subnet does not contain the tunnel address")

/-- The address cannot be a unicast endpoint. -/
def notUnicast (ip : IpAddr) : Bool := ip.isUnspecified || ip.isMulticast || ip.isBroadcast

/-- Check a negotiated configuration. -/
def validate (c : NetworkConfig) : Run Unit := do
  Exec.rejectIf (badInterface c.interface) (.invalid "Invalid tunnel interface identity")
  Exec.rejectIf c.badCounts
    (.invalid "Network configuration has missing addresses or too many entries")
  let ipv6 := c.addresses.any (·.address.isIpv6)
  Exec.rejectIf (!((if ipv6 then 1280 else 576) ≤ c.mtu && c.mtu ≤ 9000))
    (.invalid "Invalid negotiated MTU")
  Exec.rejectIf
    ((c.fullTunnelIpv4 && !c.addresses.any (·.address.isIpv4)) || (c.fullTunnelIpv6 && !ipv6))
    (.invalid "Full tunnel requires a negotiated address in that family")
  (c.addresses ++ c.splitIncludes ++ c.splitExcludes).forM IpPrefix.validate
  c.ipv4Subnet.toList.forM c.validateSubnet
  (c.searchDomains ++ c.splitDns).forM validateDomain
  Exec.rejectIf
    ((c.transportPeer :: (c.dnsServers ++ c.addresses.map (·.address))).any notUnicast)
    (.invalid "Tunnel, transport peer and DNS addresses must be unicast")
  Exec.rejectIf (c.addresses.any fun a => a.address == c.transportPeer)
    (.invalid "Tunnel address cannot equal its transport peer")

/-- What the planning modules use of an accepted configuration. -/
structure Valid (c : NetworkConfig) : Prop where
  counts : c.badCounts = false
  addresses : ∀ p ∈ c.addresses, p.Valid
  includes : ∀ p ∈ c.splitIncludes, p.Valid
  excludes : ∀ p ∈ c.splitExcludes, p.Valid
  subnet : ∀ p, c.ipv4Subnet = some p → p.Valid
  peer : ∀ p ∈ c.addresses, p.address ≠ c.transportPeer

theorem Valid.length_le {c : NetworkConfig} (h : c.Valid) : c.addresses.length ≤ 256 ∧
    c.splitIncludes.length ≤ 256 ∧ c.splitExcludes.length ≤ 256 := by
  have := h.counts
  simp only [badCounts, maxNetworkItems, Bool.or_eq_false_iff, decide_eq_false_iff_not,
    gt_iff_lt, Nat.not_lt] at this
  exact ⟨this.1.1.1.1.1.2, this.1.2, this.2⟩

theorem valid_of_validateSubnet {c : NetworkConfig} {p : IpPrefix}
    (h : c.validateSubnet p = .ok ()) : p.Valid := by
  rw [validateSubnet, Exec.bind_eq_ok] at h
  obtain ⟨⟨⟩, hp, -⟩ := h
  exact IpPrefix.validate_eq_ok.1 hp

theorem valid_of_validate {c : NetworkConfig} (h : c.validate = .ok ()) : c.Valid := by
  simp only [validate, Exec.bind_eq_ok, Exec.rejectIf_eq_ok] at h
  obtain ⟨-, -, -, hcounts, -, -, -, -, ⟨⟩, hpre, ⟨⟩, hsub, -, -, -, -, hpeer⟩ := h
  simp only [Exec.forM_eq_ok, List.mem_append, IpPrefix.validate_eq_ok] at hpre
  rw [Exec.forM_eq_ok] at hsub
  refine ⟨hcounts, fun p hp => hpre p (.inl (.inl hp)), fun p hp => hpre p (.inl (.inr hp)),
    fun p hp => hpre p (.inr hp), fun p hp => ?_, fun p hp => ?_⟩
  · exact valid_of_validateSubnet (hsub p (by simp [hp]))
  · simp only [List.any_eq_false, beq_iff_eq] at hpeer
    exact hpeer p hp

theorem validateSubnet_safe (c : NetworkConfig) (p : IpPrefix) : (c.validateSubnet p).Safe := by
  refine Exec.Safe.bind (Exec.Safe.rejectIf _ _) fun _ hp => ?_
  have hle : p.prefixLen ≤ p.width := IpPrefix.validate_eq_ok.1 hp
  unfold IpPrefix.width at hle
  cases haddr : p.address with
  | v6 a => exact Exec.Safe.fail _
  | v4 a =>
    rw [haddr, IpAddr.width_v4] at hle
    refine Exec.Safe.bind ?_ fun _ _ =>
      Exec.Safe.bind (Exec.Safe.rejectIf _ _) fun _ _ => Exec.Safe.rejectIf _ _
    unfold ipv4Mask
    by_cases hzero : p.prefixLen = 0
    · rw [if_pos hzero]
      exact Exec.Safe.pure _
    · rw [if_neg hzero, Exec.sub_eq_ok hle, Exec.ok_bind, Exec.shl_eq_ok _ (by omega)]
      exact Exec.Safe.pure _

/-- The check of a configuration does not panic, whatever the configuration. -/
theorem validate_safe (c : NetworkConfig) : c.validate.Safe := by
  refine Exec.Safe.bind (Exec.Safe.rejectIf _ _) fun _ _ => ?_
  refine Exec.Safe.bind (Exec.Safe.rejectIf _ _) fun _ _ => ?_
  refine Exec.Safe.bind (Exec.Safe.rejectIf _ _) fun _ _ => ?_
  refine Exec.Safe.bind (Exec.Safe.rejectIf _ _) fun _ _ => ?_
  refine Exec.Safe.bind (Exec.Safe.forM fun _ _ => Exec.Safe.rejectIf _ _) fun _ _ => ?_
  refine Exec.Safe.bind (Exec.Safe.forM fun p _ => c.validateSubnet_safe p) fun _ _ => ?_
  refine Exec.Safe.bind (Exec.Safe.forM fun _ _ => Exec.Safe.rejectIf _ _) fun _ _ => ?_
  exact Exec.Safe.bind (Exec.Safe.rejectIf _ _) fun _ _ => Exec.Safe.rejectIf _ _

end NetworkConfig

end Ocvpn
