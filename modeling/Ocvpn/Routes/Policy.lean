import Ocvpn.Routes.Network

/-!
# Split-tunnel routing realises the negotiated policy

The routing table of a connected machine holds the tunnel routes and the kernel-connected
prefixes (through the tunnel) and the bypass routes and the host route of the transport peer
(through the physical network).  `routes_realise_policy` : for every destination other than the
interface's own addresses the longest match is the tunnel exactly when the policy selects the
destination, and no longest match is tied.

The two computations are first reduced to lists: `tunnelRoutes_eq_ok` and `bypassRoutes_eq_ok`
say that neither can fail on a validated configuration and what it returns.  The rest compares
prefix lengths: an excluded destination has a physical entry longer than every tunnel entry
(`exists_longer_physical`), any other destination has no physical entry at all
(`not_excluded_of_physical`).
-/

namespace Ocvpn

namespace Routes

open IpPrefix

variable {c : NetworkConfig} {p q : IpPrefix} {d : IpAddr}

/-- Every prefix of the list is a network of its family. -/
def Networks (l : List IpPrefix) : Prop := ∀ p ∈ l, p.Valid ∧ p.IsNetwork

theorem contains_networks {l : List IpPrefix} (hl : Networks l) (hp : p ∈ l) :
    contains p q = .ok (decide (q.Within p)) :=
  contains_eq_ok (hl p hp).1 (hl p hp).2

theorem networks_map_network {l : List IpPrefix} (hl : ∀ p ∈ l, p.Valid) :
    Networks (l.map network) := by
  intro p hp
  obtain ⟨q, hq, rfl⟩ := List.mem_map.1 hp
  exact ⟨network_valid.2 (hl q hq), isNetwork_network q⟩

theorem mapM_normalize {l : List IpPrefix} (hl : ∀ p ∈ l, p.Valid) :
    l.mapM normalize = .ok (l.map network) :=
  Exec.mapM_eq fun p hp => normalize_eq_ok (hl p hp)

theorem exists_covers_map_network {l : List IpPrefix} :
    (∃ p ∈ l.map network, p.Covers d) ↔ ∃ p ∈ l, p.Covers d := by
  simp

/-! ### Collecting the includes -/

/-- `insertInclude` on networks. -/
def inserted (ns : List IpPrefix) (p : IpPrefix) : List IpPrefix :=
  if ns.any fun e => decide (p.Within e) then ns
  else ns.filter (fun e => !decide (e.Within p)) ++ [p]

theorem insertInclude_eq_ok {ns : List IpPrefix} (hns : Networks ns) (hp : p.Valid)
    (hn : p.IsNetwork) (hlen : ns.length < maxPolicyRoutes) :
    insertInclude ns p = .ok (inserted ns p) := by
  have hany : ns.anyM (fun e => contains e p) = .ok (ns.any fun e => decide (p.Within e)) :=
    Exec.anyM_eq fun e he => contains_networks hns he
  have hkeep : ns.filterM (fun e => do pure !(← contains p e)) =
      .ok (ns.filter fun e => !decide (e.Within p)) :=
    Exec.filterM_eq fun e _ => by rw [contains_eq_ok hp hn]; rfl
  rw [insertInclude, hany, Exec.ok_bind, inserted]
  split_ifs
  · rfl
  · rw [hkeep, Exec.ok_bind, append_eq_ok]
    exact Nat.lt_of_le_of_lt (List.length_filter_le _ _) hlen

theorem length_inserted_le (ns : List IpPrefix) (p : IpPrefix) :
    (inserted ns p).length ≤ ns.length + 1 := by
  unfold inserted
  split_ifs
  · omega
  · have := List.length_filter_le (fun e => !decide (e.Within p)) ns
    simp only [List.length_append, List.length_cons, List.length_nil]
    omega

theorem networks_inserted {ns : List IpPrefix} (hns : Networks ns) (hp : p.Valid ∧ p.IsNetwork) :
    Networks (inserted ns p) := by
  intro e he
  unfold inserted at he
  split_ifs at he
  · exact hns e he
  · rcases List.mem_append.1 he with he | he
    · exact hns e (List.mem_filter.1 he).1
    · rwa [List.mem_singleton.1 he]

/-- Containment pruning does not change what the list covers. -/
theorem covers_inserted {ns : List IpPrefix} :
    (∃ e ∈ inserted ns p, e.Covers d) ↔ (∃ e ∈ ns, e.Covers d) ∨ p.Covers d := by
  unfold inserted
  split_ifs with hany
  · refine ⟨.inl, fun h => h.elim id fun hd => ?_⟩
    obtain ⟨e, he, hpe⟩ := List.any_eq_true.1 hany
    exact ⟨e, he, (of_decide_eq_true hpe).covers hd⟩
  · constructor
    · rintro ⟨e, he, hd⟩
      rcases List.mem_append.1 he with he | he
      · exact .inl ⟨e, (List.mem_filter.1 he).1, hd⟩
      · exact .inr (List.mem_singleton.1 he ▸ hd)
    · rintro (⟨e, he, hd⟩ | hd)
      · by_cases hw : e.Within p
        · exact ⟨p, by simp, hw.covers hd⟩
        · exact ⟨e, by simp [he, hw], hd⟩
      · exact ⟨p, by simp, hd⟩

/-- The loop over the includes succeeds within the bound, and covers what they cover. -/
theorem foldlM_insertInclude (l : List IpPrefix) (hl : Networks l) (ns : List IpPrefix)
    (hns : Networks ns) (hlen : ns.length + l.length ≤ maxPolicyRoutes) :
    ∃ rs, l.foldlM insertInclude ns = .ok rs ∧ Networks rs ∧
      ∀ d, (∃ r ∈ rs, r.Covers d) ↔ (∃ e ∈ ns, e.Covers d) ∨ ∃ p ∈ l, p.Covers d := by
  induction l generalizing ns with
  | nil => exact ⟨ns, rfl, hns, by simp⟩
  | cons p l ih =>
    have hp := hl p List.mem_cons_self
    rw [List.length_cons] at hlen
    have hle := length_inserted_le ns p
    obtain ⟨rs, hrs, hnet, hcov⟩ := ih (fun q hq => hl q (List.mem_cons_of_mem _ hq))
      (inserted ns p) (networks_inserted hns hp) (by omega)
    refine ⟨rs, ?_, hnet, fun d => ?_⟩
    · rw [List.foldlM_cons, insertInclude_eq_ok hns hp.1 hp.2 (by omega), Exec.ok_bind, hrs]
    · rw [hcov, covers_inserted]
      simp only [List.exists_mem_cons_iff, or_assoc]

/-! ### Default routes -/

theorem isNetwork_everything {a : IpAddr} (ha : a.bits = 0) : (everything a).IsNetwork := by
  simp [IsNetwork, everything, ha, blockStart]

theorem everything_covers {a : IpAddr} : (everything a).Covers d ↔ a.isIpv4 = d.isIpv4 := by
  refine ⟨And.left, fun h => ⟨h, ?_⟩⟩
  have hw : (everything a).host = a.width := rfl
  have ha := a.bits_lt
  have hd := d.bits_lt
  rw [← IpAddr.width_eq_of_family h] at hd
  change SameBlock (everything a).host a.bits.toNat _
  rw [hw, SameBlock, Nat.div_eq_of_lt ha, Nat.div_eq_of_lt hd]

theorem bits_eq_zero_of_default (hn : p.IsNetwork) (h0 : p.prefixLen = 0) :
    p.address.bits.toNat = 0 := by
  have hw : p.host = p.address.width := by simp [host, h0, IpPrefix.width]
  rw [bits_eq_mul hn, hw, Nat.div_eq_of_lt p.address.bits_lt, Nat.mul_zero]

/-- `halves` replaces a default route by the two halves of the network. -/
theorem halves_eq (hn : p.IsNetwork) :
    halves p = if p.prefixLen = 0 then [lowerHalf p, upperHalf p] else [p] := by
  by_cases h0 : p.prefixLen = 0
  · have hb : p.address.bits = 0 := BitVec.eq_of_toNat_eq (bits_eq_zero_of_default hn h0)
    rw [halves, if_pos h0, if_pos h0]
    obtain ⟨a | a, n⟩ := p
    · obtain rfl : n = 0 := h0
      change BitVec.setWidth 128 a = 0 at hb
      simp only [lowerHalf, upperHalf, ofBits, IpAddr.isIpv4_v4, ↓reduceIte, IpAddr.bits, hb,
        IpPrefix.width, IpAddr.width_v4]
      rfl
    · obtain rfl : n = 0 := h0
      obtain rfl : a = 0 := hb
      rfl
  · rw [halves, if_neg h0, if_neg h0]

theorem prefixLen_lt_of_default (h0 : p.prefixLen = 0) : p.prefixLen < p.width := by
  have : 0 < p.width := by cases h : p.address <;> simp [IpPrefix.width, h]
  omega

theorem networks_halves (hp : p.Valid) (hn : p.IsNetwork) : Networks (halves p) := by
  rw [halves_eq hn]
  split_ifs with h0
  · have hlt := prefixLen_lt_of_default h0
    have hlo : (lowerHalf p).Valid := hlt
    have hup : (upperHalf p).Valid := by rw [Valid, upperHalf_width]; exact hlt
    rintro q hq
    simp only [List.mem_cons, List.not_mem_nil, or_false] at hq
    rcases hq with rfl | rfl
    · exact ⟨hlo, lowerHalf_isNetwork hlt hn⟩
    · exact ⟨hup, upperHalf_isNetwork hlt hn⟩
  · intro q hq
    rw [List.mem_singleton.1 hq]
    exact ⟨hp, hn⟩

theorem exists_halves_covers (hn : p.IsNetwork) :
    (∃ q ∈ halves p, q.Covers d) ↔ p.Covers d := by
  rw [halves_eq hn]
  split_ifs with h0
  · have hlt := prefixLen_lt_of_default h0
    constructor
    · rintro ⟨q, hq, hd⟩
      simp only [List.mem_cons, List.not_mem_nil, or_false] at hq
      rcases hq with rfl | rfl
      · exact (lowerHalf_within p).covers hd
      · exact (upperHalf_within hlt hn).covers hd
    · intro hd
      rcases covers_half hlt hn hd with h | h
      · exact ⟨_, by simp, h⟩
      · exact ⟨_, by simp, h⟩
  · simp

theorem length_halves_le (p : IpPrefix) : (halves p).length ≤ 2 := by
  unfold halves; split_ifs <;> simp

theorem networks_flatMap_halves {l : List IpPrefix} (hl : Networks l) :
    Networks (l.flatMap halves) := by
  intro q hq
  obtain ⟨p, hp, hq⟩ := List.mem_flatMap.1 hq
  exact networks_halves (hl p hp).1 (hl p hp).2 q hq

theorem exists_flatMap_halves_covers {l : List IpPrefix} (hl : Networks l) :
    (∃ q ∈ l.flatMap halves, q.Covers d) ↔ ∃ p ∈ l, p.Covers d := by
  simp only [List.mem_flatMap]
  constructor
  · rintro ⟨q, ⟨p, hp, hq⟩, hd⟩
    exact ⟨p, hp, (exists_halves_covers (hl p hp).2).1 ⟨q, hq, hd⟩⟩
  · rintro ⟨p, hp, hd⟩
    obtain ⟨q, hq, hd⟩ := (exists_halves_covers (hl p hp).2).2 hd
    exact ⟨q, ⟨p, hp, hq⟩, hd⟩

theorem length_flatMap_halves_le (l : List IpPrefix) : (l.flatMap halves).length ≤ 2 * l.length := by
  induction l with
  | nil => simp
  | cons p l ih =>
    have := length_halves_le p
    rw [List.flatMap_cons, List.length_append, List.length_cons]
    omega

/-! ### The tunnel routes -/

/-- The negotiated includes of a validated configuration. -/
def includeList (c : NetworkConfig) : List IpPrefix :=
  c.splitIncludes.map network ++ c.ipv4Subnet.toList.map network ++
    (if c.fullTunnelIpv4 then [everything unspecified4] else []) ++
    (if c.fullTunnelIpv6 then [everything unspecified6] else [])

theorem includes_eq_ok (hc : c.Valid) : includes c = .ok (includeList c) := by
  have hsub : ∀ p ∈ c.ipv4Subnet.toList, p.Valid := fun p hp =>
    hc.subnet p (Option.mem_toList.1 hp)
  rw [includes, mapM_normalize hc.includes, Exec.ok_bind, mapM_normalize hsub]
  rfl

theorem networks_includeList (hc : c.Valid) : Networks (includeList c) := by
  have hsub : ∀ p ∈ c.ipv4Subnet.toList, p.Valid := fun p hp =>
    hc.subnet p (Option.mem_toList.1 hp)
  intro p hp
  simp only [includeList, List.mem_append, or_assoc] at hp
  rcases hp with hp | hp | hp | hp
  · exact networks_map_network hc.includes p hp
  · exact networks_map_network hsub p hp
  · split_ifs at hp
    · rw [List.mem_singleton.1 hp]
      exact ⟨Nat.zero_le _, isNetwork_everything rfl⟩
    · cases hp
  · split_ifs at hp
    · rw [List.mem_singleton.1 hp]
      exact ⟨Nat.zero_le _, isNetwork_everything rfl⟩
    · cases hp

theorem length_includeList_le (hc : c.Valid) : (includeList c).length ≤ 260 := by
  obtain ⟨-, hinc, -⟩ := hc.length_le
  have hsub : c.ipv4Subnet.toList.length ≤ 1 := by cases c.ipv4Subnet <;> simp
  have h4 : (if c.fullTunnelIpv4 then [everything unspecified4] else []).length ≤ 1 := by
    split_ifs <;> simp
  have h6 : (if c.fullTunnelIpv6 then [everything unspecified6] else []).length ≤ 1 := by
    split_ifs <;> simp
  simp only [includeList, List.length_append, List.length_map]
  omega

/-- Some negotiated include matches the destination. -/
def Included (c : NetworkConfig) (d : IpAddr) : Prop :=
  (∃ p ∈ c.splitIncludes, p.Covers d) ∨ (∃ p, c.ipv4Subnet = some p ∧ p.Covers d) ∨
    (c.fullTunnelIpv4 = true ∧ d.isIpv4 = true) ∨ (c.fullTunnelIpv6 = true ∧ d.isIpv6 = true)

theorem exists_includeList_covers :
    (∃ p ∈ includeList c, p.Covers d) ↔ Included c d := by
  have h4 : (everything unspecified4).Covers d ↔ d.isIpv4 = true := by
    rw [everything_covers]; exact eq_comm
  have h6 : (everything unspecified6).Covers d ↔ d.isIpv6 = true := by
    rw [everything_covers]; cases d <;> simp [unspecified6]
  simp only [includeList, Included, List.mem_append, or_and_right, exists_or,
    exists_covers_map_network, or_assoc]
  refine or_congr_right (or_congr ?_ (or_congr ?_ ?_))
  · simp
  · split_ifs with h <;> simp [h, h4]
  · split_ifs with h <;> simp [h, h6]

/-- The exclusions with the host route of the transport peer. -/
def exclusions (c : NetworkConfig) : List IpPrefix := c.splitExcludes.map network ++ [peerRoute c]

theorem peerRoute_host (c : NetworkConfig) : (peerRoute c).host = 0 := by
  cases h : c.transportPeer <;> simp [host, peerRoute, IpPrefix.width, h]

theorem peerRoute_prefixLen (c : NetworkConfig) : (peerRoute c).prefixLen = (peerRoute c).width := by
  cases h : c.transportPeer <;> simp [peerRoute, IpPrefix.width, h]

theorem peerRoute_covers : (peerRoute c).Covers d ↔ d = c.transportPeer := by
  constructor
  · exact fun h => (eq_of_covers (peerRoute_host c) h).symm
  · rintro rfl
    exact (peerRoute c).covers_address

theorem networks_exclusions (hc : c.Valid) : Networks (exclusions c) := by
  intro p hp
  rcases List.mem_append.1 hp with hp | hp
  · exact networks_map_network hc.excludes p hp
  · rw [List.mem_singleton.1 hp]
    exact ⟨(peerRoute_prefixLen c).le, isNetwork_of_host_eq_zero (peerRoute_host c)⟩

/-- The tunnel routes are computed without failure; no exclusion contains one of them, and
outside the exclusions they cover what the includes cover. -/
theorem tunnelRoutes_eq_ok (h : c.validate = .ok ()) :
    ∃ rs, tunnelRoutes c = .ok rs ∧
      (∀ r ∈ rs, ∀ e ∈ exclusions c, ¬ r.Within e) ∧
      (∀ d, (∃ r ∈ rs, r.Covers d) → Included c d) ∧
      ∀ d, Included c d → (∀ e ∈ exclusions c, ¬ e.Covers d) → ∃ r ∈ rs, r.Covers d := by
  have hc := NetworkConfig.valid_of_validate h
  have hlen : ([] : List IpPrefix).length + ((includeList c).flatMap halves).length ≤
      maxPolicyRoutes := by
    have h1 := length_flatMap_halves_le (includeList c)
    have h2 := length_includeList_le hc
    rw [maxPolicyRoutes, List.length_nil]
    omega
  obtain ⟨ns, hns, hnet, hcov⟩ := foldlM_insertInclude _
    (networks_flatMap_halves (networks_includeList hc)) [] (by simp [Networks]) hlen
  have hcov' : ∀ d, (∃ r ∈ ns, r.Covers d) ↔ Included c d := fun d => by
    rw [hcov, exists_flatMap_halves_covers (networks_includeList hc), exists_includeList_covers]
    simp
  have hkeep : ns.filterM (fun r => do
      pure !(← (exclusions c).anyM fun e => contains e r)) =
      .ok (ns.filter fun r => !(exclusions c).any fun e => decide (r.Within e)) :=
    Exec.filterM_eq fun r _ => by
      rw [Exec.anyM_eq fun e he => contains_networks (networks_exclusions hc) he]
      rfl
  refine ⟨sortDedup (ns.filter fun r => !(exclusions c).any fun e => decide (r.Within e)), ?_,
    fun r hr e he hw => ?_, fun d => ?_, fun d hd hex => ?_⟩
  · rw [tunnelRoutes, h, Exec.ok_bind, includes_eq_ok hc, Exec.ok_bind, hns, Exec.ok_bind,
      mapM_normalize hc.excludes, Exec.ok_bind]
    change (_ >>= fun kept => _) = _
    exact (congrArg (· >>= _) hkeep).trans rfl
  · rw [mem_sortDedup, List.mem_filter, Bool.not_eq_true', List.any_eq_false] at hr
    exact hr.2 e he (decide_eq_true hw)
  · rintro ⟨r, hr, hd⟩
    rw [mem_sortDedup] at hr
    exact (hcov' d).1 ⟨r, (List.mem_filter.1 hr).1, hd⟩
  · obtain ⟨r, hr, hrd⟩ := (hcov' d).2 hd
    refine ⟨r, mem_sortDedup.2 (List.mem_filter.2 ⟨hr, ?_⟩), hrd⟩
    rw [Bool.not_eq_true', List.any_eq_false]
    exact fun e he hw => hex e he ((of_decide_eq_true hw).covers hrd)

/-! ### The bypass routes -/

/-- Some exclusion contains the kernel-connected prefix of `a`. -/
def ExcludedConnected (c : NetworkConfig) (a : IpPrefix) : Prop :=
  ∃ e ∈ c.splitExcludes, a.network.Within e.network

instance (c : NetworkConfig) (a : IpPrefix) : Decidable (ExcludedConnected c a) :=
  inferInstanceAs (Decidable (∃ _ ∈ _, _))

/-- The child routes of an address: present when an exclusion contains its connected prefix. -/
def childrenOf (c : NetworkConfig) (a : IpPrefix) : List IpPrefix :=
  if a.prefixLen ≠ a.width ∧ ExcludedConnected c a then
    [lowerHalf a.network, upperHalf a.network]
  else []

theorem length_childrenOf_le (c : NetworkConfig) (a : IpPrefix) :
    (childrenOf c a).length ≤ 2 := by
  unfold childrenOf; split_ifs <;> simp

theorem excludes_anyM {a : IpPrefix} (hc : c.Valid) :
    (c.splitExcludes.anyM fun e => do contains (← normalize e) a.network) =
      .ok (decide (ExcludedConnected c a)) := by
  have hall : ∀ e ∈ c.splitExcludes, (do contains (← normalize e) a.network : Run Bool) =
      .ok (decide (a.network.Within e.network)) := fun e he => by
    have hv := hc.excludes e he
    rw [normalize_eq_ok hv, Exec.ok_bind,
      contains_eq_ok (network_valid.2 hv) (isNetwork_network e)]
  rw [Exec.anyM_eq hall]
  refine congrArg _ (Bool.eq_iff_iff.2 ?_)
  rw [List.any_eq_true, decide_eq_true_iff]
  simp only [decide_eq_true_eq, ExcludedConnected]

theorem addChildren_eq_ok {bypass : List IpPrefix} {a : IpPrefix} (hc : c.Valid) (ha : a.Valid)
    (hlen : bypass.length + 2 ≤ maxPolicyRoutes) :
    addChildren c bypass a = .ok (bypass ++ childrenOf c a) := by
  rw [addChildren, childrenOf]
  by_cases hw : a.prefixLen = a.width
  · simp [hw]
  rw [if_neg hw, normalize_eq_ok ha, Exec.ok_bind, excludes_anyM hc, Exec.ok_bind]
  by_cases hex : ExcludedConnected c a
  · have hlt : a.network.prefixLen < a.network.width := by
      have : a.prefixLen ≤ a.width := ha
      simp only [network_prefixLen, network_width]; omega
    have hsub : a.network.width - (a.network.prefixLen + 1) < 128 := by
      have : a.network.width ≤ 128 := a.network.address.width_le
      omega
    have h1 : bypass.length < maxPolicyRoutes := by omega
    have h2 : (bypass ++ [lowerHalf a.network]).length < maxPolicyRoutes := by
      rw [List.length_append, List.length_singleton]; omega
    have hle : a.network.prefixLen + 1 ≤ a.network.width := hlt
    simp only [if_pos (decide_eq_true hex), if_pos (And.intro hw hex), Exec.sub_eq_ok hle,
      Exec.ok_bind, Exec.shl_eq_ok _ hsub]
    change (append bypass (lowerHalf a.network) >>= fun l => append l (upperHalf a.network)) = _
    rw [append_eq_ok h1, Exec.ok_bind, append_eq_ok h2, List.append_assoc]
    rfl
  · rw [decide_eq_false hex, if_neg Bool.false_ne_true, if_neg fun h => hex h.2]
    simp

theorem foldlM_addChildren (hc : c.Valid) (l : List IpPrefix) (hl : ∀ a ∈ l, a.Valid)
    (bypass : List IpPrefix) (hlen : bypass.length + 2 * l.length ≤ maxPolicyRoutes) :
    l.foldlM (addChildren c) bypass = .ok (bypass ++ l.flatMap (childrenOf c)) := by
  induction l generalizing bypass with
  | nil => simp
  | cons a l ih =>
    rw [List.length_cons] at hlen
    have h2 := length_childrenOf_le c a
    rw [List.foldlM_cons, addChildren_eq_ok hc (hl a List.mem_cons_self) (by omega),
      Exec.ok_bind, ih (fun b hb => hl b (List.mem_cons_of_mem _ hb)), List.flatMap_cons,
      List.append_assoc]
    rw [List.length_append]
    omega

/-- The bypass routes are computed without failure: the exclusions and the child routes, less
the routes to the interface's own addresses. -/
theorem bypassRoutes_eq_ok (h : c.validate = .ok ()) :
    ∃ bs, bypassRoutes c = .ok bs ∧ ∀ b, b ∈ bs ↔
      (b ∈ c.splitExcludes.map network ∨ ∃ a ∈ c.addresses, b ∈ childrenOf c a) ∧
        isLocal c b = false := by
  have hc := NetworkConfig.valid_of_validate h
  obtain ⟨haddr, -, hexc⟩ := hc.length_le
  have hlen : (c.splitExcludes.map network).length + 2 * c.addresses.length ≤ maxPolicyRoutes := by
    rw [List.length_map, maxPolicyRoutes]
    omega
  refine ⟨sortDedup ((c.splitExcludes.map network ++
    c.addresses.flatMap (childrenOf c)).filter fun route => !isLocal c route), ?_, fun b => ?_⟩
  · rw [bypassRoutes, h, Exec.ok_bind, mapM_normalize hc.excludes, Exec.ok_bind,
      foldlM_addChildren hc _ hc.addresses _ hlen, Exec.ok_bind]
    rfl
  · rw [mem_sortDedup, List.mem_filter, List.mem_append, List.mem_flatMap, Bool.not_eq_true']

/-! ### The routing table -/

/-- Where a routing-table entry leads. -/
inductive Device where
  | tunnel | physical
  deriving DecidableEq, Repr

/-- The table of a connected machine: tunnel routes and kernel-connected prefixes through the
tunnel, bypass routes and the host route of the transport peer through the physical network. -/
def table (c : NetworkConfig) (tunnel connected bypass : List IpPrefix) :
    List (IpPrefix × Device) :=
  tunnel.map (·, .tunnel) ++ connected.map (·, .tunnel) ++ bypass.map (·, .physical) ++
    [(peerRoute c, .physical)]

/-- The negotiated policy sends the destination through the tunnel. -/
def Selected (c : NetworkConfig) (d : IpAddr) : Prop :=
  Included c d ∨ ∃ a ∈ c.addresses, a.Covers d

/-- The negotiated policy keeps the destination on the physical network. -/
def Excluded (c : NetworkConfig) (d : IpAddr) : Prop :=
  (∃ p ∈ c.splitExcludes, p.Covers d) ∨ d = c.transportPeer

theorem exists_exclusions_covers : (∃ e ∈ exclusions c, e.Covers d) ↔ Excluded c d := by
  simp only [exclusions, List.mem_append, List.mem_singleton, or_and_right, exists_or,
    exists_eq_left, exists_covers_map_network, peerRoute_covers, Excluded]

section Table

variable {tunnel bypass : List IpPrefix}

theorem mem_table {e : IpPrefix × Device} {connected : List IpPrefix} :
    e ∈ table c tunnel connected bypass ↔
      (e.2 = .tunnel ∧ (e.1 ∈ tunnel ∨ e.1 ∈ connected)) ∨
        (e.2 = .physical ∧ (e.1 ∈ bypass ∨ e.1 = peerRoute c)) := by
  obtain ⟨p, v⟩ := e
  cases v <;> simp [table]

/-- A route to one of the interface's own addresses matches no other destination. -/
theorem not_isLocal_of_covers (hd : ∀ a ∈ c.addresses, a.address ≠ d) (hp : p.Covers d) :
    isLocal c p = false := by
  by_contra hloc
  simp only [isLocal, Bool.not_eq_false, Bool.and_eq_true, beq_iff_eq, List.any_eq_true] at hloc
  obtain ⟨hw, a, ha, hap⟩ := hloc
  exact hd a ha (hap.trans (eq_of_covers (host_eq_zero hw) hp))

variable (hc : c.Valid) (hd : ∀ a ∈ c.addresses, a.address ≠ d)
  (hout : ∀ r ∈ tunnel, ∀ e ∈ exclusions c, ¬ r.Within e)
  (hby : ∀ b, b ∈ bypass ↔
    (b ∈ c.splitExcludes.map network ∨ ∃ a ∈ c.addresses, b ∈ childrenOf c a) ∧
      isLocal c b = false)

include hd in
/-- Only own addresses are matched by a connected prefix without host bits. -/
theorem connected_lt_width {a : IpPrefix} (hv : c.Valid) (ha : a ∈ c.addresses)
    (had : a.Covers d) : a.prefixLen < a.width := by
  have hle : a.prefixLen ≤ a.width := hv.addresses a ha
  refine lt_of_le_of_ne hle fun heq => hd a ha (eq_of_covers (host_eq_zero heq) had)

include hc hd hout hby in
/-- **An excluded destination stays physical**: every tunnel entry that matches it is outranked
by a longer physical entry. -/
theorem exists_longer_physical (hex : Excluded c d)
    (hp : p ∈ tunnel ∨ p ∈ c.addresses.map network) (hpd : p.Covers d) :
    ∃ q, (q ∈ bypass ∨ q = peerRoute c) ∧ q.Covers d ∧ p.prefixLen < q.prefixLen := by
  obtain ⟨e, he, hed⟩ := exists_exclusions_covers.2 hex
  have hphys : e ∈ bypass ∨ e = peerRoute c := by
    rcases List.mem_append.1 he with he | he
    · exact .inl ((hby e).2 ⟨.inl he, not_isLocal_of_covers hd hed⟩)
    · exact .inr (List.mem_singleton.1 he)
  rcases Nat.lt_or_ge p.prefixLen e.prefixLen with hlt | hge
  · exact ⟨e, hphys, hed, hlt⟩
  -- the entry lies inside the exclusion, so it is the connected prefix of an address
  have hw : p.Within e := within_of_covers hed hpd hge
  rcases hp with hp | hp
  · exact absurd hw (hout p hp e he)
  obtain ⟨a, ha, rfl⟩ := List.mem_map.1 hp
  have had : a.Covers d := network_covers.1 hpd
  have hlt := connected_lt_width hd hc ha had
  have hexa : ExcludedConnected c a := by
    rcases List.mem_append.1 he with he | he
    · obtain ⟨x, hx, rfl⟩ := List.mem_map.1 he
      exact ⟨x, hx, hw⟩
    · obtain rfl := List.mem_singleton.1 he
      have hlen := hw.1
      rw [peerRoute_prefixLen, network_prefixLen] at hlen
      rw [width_eq_of_covers had, ← width_eq_of_covers hed] at hlt
      omega
  have hchild : childrenOf c a = [lowerHalf a.network, upperHalf a.network] :=
    if_pos ⟨hlt.ne, hexa⟩
  have hlt' : a.network.prefixLen < a.network.width := by simpa using hlt
  have key : ∀ q ∈ childrenOf c a, q.Covers d → q.prefixLen = a.network.prefixLen + 1 →
      ∃ q, (q ∈ bypass ∨ q = peerRoute c) ∧ q.Covers d ∧ a.network.prefixLen < q.prefixLen :=
    fun q hq hqd hlen => ⟨q, .inl ((hby q).2 ⟨.inr ⟨a, ha, hq⟩, not_isLocal_of_covers hd hqd⟩),
      hqd, by omega⟩
  rcases covers_half hlt' (isNetwork_network a) hpd with h | h
  · exact key _ (by simp [hchild]) h rfl
  · exact key _ (by simp [hchild]) h rfl

include hc hby in
/-- Every physical entry lies in an exclusion. -/
theorem excluded_of_physical (hp : p ∈ bypass ∨ p = peerRoute c) (hpd : p.Covers d) :
    Excluded c d := by
  rcases hp with hp | rfl
  · rcases ((hby p).1 hp).1 with hp | ⟨a, ha, hp⟩
    · obtain ⟨e, he, rfl⟩ := List.mem_map.1 hp
      exact .inl ⟨e, he, network_covers.1 hpd⟩
    · unfold childrenOf at hp
      split_ifs at hp with h
      · obtain ⟨hne, e, he, hw⟩ := h
        have hle : a.prefixLen ≤ a.width := hc.addresses a ha
        have hlt : a.network.prefixLen < a.network.width := by
          simpa using lt_of_le_of_ne hle hne
        have had : a.network.Covers d := by
          simp only [List.mem_cons, List.not_mem_nil, or_false] at hp
          rcases hp with rfl | rfl
          · exact (lowerHalf_within _).covers hpd
          · exact (upperHalf_within hlt (isNetwork_network a)).covers hpd
        exact .inl ⟨e, he, network_covers.1 (hw.covers had)⟩
      · cases hp
  · exact .inr (peerRoute_covers.1 hpd)

end Table

/-- A split tunnel whose connected prefix lies inside an exclusion. -/
def splitExample : NetworkConfig where
  interface := { name := "tun0", index := 1 }
  mtu := 1400
  addresses := [{ address := .v4 0x0a4e0002, prefixLen := 24 }]
  splitIncludes := [{ address := .v4 0x0a000000, prefixLen := 8 }]
  splitExcludes := [{ address := .v4 0x0a4e0000, prefixLen := 16 }]
  transportPeer := .v4 0x0a080001

/-- **Split-tunnel routing is the negotiated policy.**  On a validated configuration both route
computations succeed; for every destination that is not an address of the interface, the longest
match is the tunnel iff the policy selects the destination and does not exclude it, and all
longest matches agree. -/
theorem routes_realise_policy (c : NetworkConfig) (h : c.validate = .ok ()) :
    ∃ tunnel connected bypass, tunnelRoutes c = .ok tunnel ∧
      c.addresses.mapM normalize = .ok connected ∧ bypassRoutes c = .ok bypass ∧
      ∀ d : IpAddr, (∀ a ∈ c.addresses, a.address ≠ d) →
        ((∃ e, space.Longest (table c tunnel connected bypass) d e ∧ e.2 = .tunnel) ↔
          Selected c d ∧ ¬ Excluded c d) ∧
        ∀ e e', space.Longest (table c tunnel connected bypass) d e →
          space.Longest (table c tunnel connected bypass) d e' → e.2 = e'.2 := by
  have hc := NetworkConfig.valid_of_validate h
  obtain ⟨tunnel, htun, hout, hincl, hcov⟩ := tunnelRoutes_eq_ok h
  obtain ⟨bypass, hbyp, hby⟩ := bypassRoutes_eq_ok h
  refine ⟨tunnel, c.addresses.map network, bypass, htun, mapM_normalize hc.addresses, hbyp,
    fun d hd => ?_⟩
  set t := table c tunnel (c.addresses.map network) bypass with ht
  have hsel : (∃ p, (p ∈ tunnel ∨ p ∈ c.addresses.map network) ∧ p.Covers d) → Selected c d := by
    rintro ⟨p, hp | hp, hpd⟩
    · exact .inl (hincl d ⟨p, hp, hpd⟩)
    · exact .inr (exists_covers_map_network.1 ⟨p, hp, hpd⟩)
  by_cases hex : Excluded c d
  -- an excluded destination: a longer physical entry beats each tunnel entry
  · have hphys : ∀ e, space.Longest t d e → e.2 = .physical := fun e he => by
      have hne : e.2 ≠ .tunnel := he.ne_of_dominated fun e he hv hed => by
        rcases mem_table.1 he with ⟨-, hp⟩ | ⟨hv', -⟩
        · obtain ⟨q, hq, hqd, hlt⟩ := exists_longer_physical hc hd hout hby hex hp hed
          exact ⟨(q, .physical), mem_table.2 (.inr ⟨rfl, hq⟩), hqd, hlt⟩
        · rw [hv] at hv'; cases hv'
      cases hv : e.2 with
      | tunnel => exact absurd hv hne
      | physical => rfl
    refine ⟨⟨fun ⟨e, he, hv⟩ => ?_, fun h => absurd hex h.2⟩, fun e e' he he' => ?_⟩
    · rw [hphys e he] at hv; cases hv
    · rw [hphys e he, hphys e' he']
  -- a physical entry that covers the destination would exclude it
  · have htunnel : ∀ e, space.Longest t d e → e.2 = .tunnel := fun e he =>
      he.eq_of_unopposed fun e he hed => by
        rcases mem_table.1 he with ⟨hv, -⟩ | ⟨-, hp⟩
        · exact hv
        · exact absurd (excluded_of_physical hc hby hp hed) hex
    refine ⟨⟨fun ⟨e, he, hv⟩ => ⟨hsel ?_, hex⟩, fun ⟨hs, _⟩ => ?_⟩, fun e e' he he' => ?_⟩
    · rcases mem_table.1 he.1 with ⟨-, hp⟩ | ⟨hv', -⟩
      · exact ⟨e.1, hp, he.2.1⟩
      · rw [hv] at hv'; cases hv'
    · have hex' : ∀ x ∈ exclusions c, ¬ x.Covers d := fun x hx hxd =>
        hex (exists_exclusions_covers.1 ⟨x, hx, hxd⟩)
      have hentry : ∃ e ∈ t, space.covers e.1 d := by
        rcases hs with hs | hs
        · obtain ⟨r, hr, hrd⟩ := hcov d hs hex'
          exact ⟨(r, .tunnel), mem_table.2 (.inl ⟨rfl, .inl hr⟩), hrd⟩
        · obtain ⟨p, hp, hpd⟩ := exists_covers_map_network.2 hs
          exact ⟨(p, .tunnel), mem_table.2 (.inl ⟨rfl, .inr hp⟩), hpd⟩
      obtain ⟨e, he⟩ := BlockSpace.exists_longest hentry
      exact ⟨e, he, htunnel e he⟩
    · rw [htunnel e he, htunnel e' he']

/-- A split tunnel with an exclusion around the connected prefix. -/
theorem routes_realise_policy_split :
    ∃ tunnel connected bypass,
      tunnelRoutes splitExample = .ok tunnel ∧
      splitExample.addresses.mapM normalize = .ok connected ∧
      bypassRoutes splitExample = .ok bypass ∧
      ∀ d : IpAddr, (∀ a ∈ splitExample.addresses, a.address ≠ d) →
        ((∃ e, space.Longest (table splitExample tunnel connected bypass) d e ∧
            e.2 = .tunnel) ↔ Selected splitExample d ∧ ¬ Excluded splitExample d) ∧
        ∀ e e', space.Longest (table splitExample tunnel connected bypass) d e →
          space.Longest (table splitExample tunnel connected bypass) d e' → e.2 = e'.2 :=
  routes_realise_policy splitExample (by decide)

end Routes

end Ocvpn
