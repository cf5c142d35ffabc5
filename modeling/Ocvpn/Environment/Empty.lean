import Ocvpn.Environment.Grammar

/-!
# Empty variables

What a recognised variable with an empty value does to `parse_environment`.  Where its value is
asked for it counts as absent.  It counts as present among the entries the limits are about, when
the parser asks whether a split-include counter is there, and among the variables left over in the
end.

## Main results

* `Announced.transfer` : environments with the same values announce the same configurations, up to
  the full-tunnel flags and the variables left over.
* `parse_without_empty_iff` : when the variable can be removed.
-/

namespace Ocvpn.Environment

open Text

variable {resolve : String → Run InterfaceIdentity}

/-! ### The same values -/

/-- Whether an IPv4 address is announced. -/
def announces4 (env : Fields) : Bool := (value env "INTERNAL_IP4_ADDRESS").isSome

/-- Whether an IPv6 address is announced. -/
def announces6 (env : Fields) : Bool :=
  (value env "INTERNAL_IP6_ADDRESS").isSome || (value env "INTERNAL_IP6_NETMASK").isSome

theorem Announced4.any {v4 mask len net : Option String} {addresses : List IpPrefix}
    {subnet : Option IpPrefix} (h : Announced4 v4 mask len net addresses subnet) :
    addresses.any (·.address.isIpv4) = v4.isSome ∧ addresses.any (·.address.isIpv6) = false := by
  obtain ⟨rfl, -, -, -, rfl, -⟩ | ⟨a, ⟨t, rfl, -⟩, rfl, -⟩ := h
  · exact ⟨rfl, rfl⟩
  · exact ⟨rfl, rfl⟩

theorem Announced6.any {v6 net : Option String} {addresses : List IpPrefix}
    (h : Announced6 v6 net addresses) :
    addresses.any (·.address.isIpv4) = false ∧
      addresses.any (·.address.isIpv6) = (v6.isSome || net.isSome) := by
  obtain ⟨rfl, rfl, rfl⟩ | ⟨a, ⟨t, rfl, -⟩, -, rfl⟩ | ⟨ip, length, a, n, hnet, -, -, -, rfl⟩ := h
  · exact ⟨rfl, rfl⟩
  · exact ⟨rfl, by simp⟩
  · cases net with
    | none => cases hnet
    | some net => exact ⟨rfl, by simp⟩

variable {env env' : Fields} {c : NetworkConfig} {f : Families}

/-- The families of the addresses are those that are announced. -/
theorem Announced.any (h : Announced resolve env c f) :
    c.addresses.any (·.address.isIpv4) = announces4 env ∧
      c.addresses.any (·.address.isIpv6) = announces6 env := by
  obtain ⟨addresses4, addresses6, haddresses, h4, h6⟩ := h.addresses
  rw [haddresses, List.any_append, List.any_append, h4.any.1, h4.any.2, h6.any.1, h6.any.2]
  exact ⟨Bool.or_false _, Bool.false_or _⟩

/-- The full-tunnel flags an environment gives to a configuration. -/
def withFlags (env : Fields) (c : NetworkConfig) : NetworkConfig :=
  { c with
    fullTunnelIpv4 := c.addresses.any (·.address.isIpv4) && !env.containsKey "CISCO_SPLIT_INC"
    fullTunnelIpv6 := c.addresses.any (·.address.isIpv6) && !env.containsKey "CISCO_IPV6_SPLIT_INC" }

/-- No such flag makes a configuration invalid. -/
theorem validate_withFlags (h : c.validate = .ok ()) : (withFlags env c).validate = .ok () := by
  simp only [NetworkConfig.validate, Exec.bind_eq_ok, Exec.rejectIf_eq_ok] at h ⊢
  obtain ⟨_, hinterface, _, hcounts, _, hmtu, _, -, hrest⟩ := h
  refine ⟨(), hinterface, (), hcounts, (), hmtu, (), ?_, hrest⟩
  simp only [withFlags]
  cases c.addresses.any (·.address.isIpv4) <;> cases c.addresses.any (·.address.isIpv6) <;> simp

/-- Environments with the same values announce the same configurations, up to the flags, as long as
no variable is left over. -/
theorem Announced.transfer (h : Announced resolve env c f) (hvalue : value env' = value env)
    (hused : ∀ e ∈ env', e.1 ∈ f.names) : Announced resolve env' (withFlags env' c) f where
  interface := by
    rw [hvalue]
    exact h.interface
  mtu := by
    rw [hvalue]
    exact h.mtu
  transportPeer := by
    rw [hvalue]
    exact h.transportPeer
  addresses := by
    rw [hvalue]
    exact h.addresses
  dnsServers := by
    rw [hvalue]
    exact h.dnsServers
  searchDomains := by
    rw [hvalue]
    exact h.searchDomains
  splitDns := by
    rw [hvalue]
    exact h.splitDns
  fullTunnelIpv4 := rfl
  fullTunnelIpv6 := rfl
  includes4 := by
    rw [hvalue]
    exact h.includes4
  includes6 := by
    rw [hvalue]
    exact h.includes6
  excludes4 := by
    rw [hvalue]
    exact h.excludes4
  excludes6 := by
    rw [hvalue]
    exact h.excludes6
  splitIncludes := h.splitIncludes
  splitExcludes := h.splitExcludes
  supported := by
    rw [hvalue]
    exact h.supported
  used := hused
  valid := validate_withFlags h.valid

/-! ### What a variable may be -/

/-- The variable has a fixed name, or belongs to a split route below the counter of its family. -/
def Listed (env : Fields) (key : String) : Prop :=
  key ∈ fixedNames ∨
  ∃ base ipv6, (base, ipv6) ∈ [("CISCO_SPLIT_INC", false), ("CISCO_IPV6_SPLIT_INC", true),
      ("CISCO_SPLIT_EXC", false), ("CISCO_IPV6_SPLIT_EXC", true)] ∧
    ∃ n, Stands (parseUnsigned 64) (value env base) n ∧ key ∈ routeNames base ipv6 0 n

theorem Routes.mem_iff {get : String → Option String} {base key : String} {ipv6 : Bool}
    {ps : List IpPrefix} (h : Routes get base ipv6 ps) :
    key ∈ routeNames base ipv6 0 ps.length ↔
      ∃ n, Stands (parseUnsigned 64) (get base) n ∧ key ∈ routeNames base ipv6 0 n := by
  obtain ⟨hnone, rfl⟩ | ⟨t, ht, hn⟩ := h.count
  · simp [routeNames, Stands, hnone]
  · simp [Stands, ht, hn]

/-- An announced configuration leaves no variable over but those that are listed. -/
theorem Announced.mem_names (h : Announced resolve env c f) (key : String) :
    key ∈ f.names ↔ Listed env key := by
  simp only [Families.names, usedNames, List.mem_append, h.includes4.mem_iff, h.includes6.mem_iff,
    h.excludes4.mem_iff, h.excludes6.mem_iff, Listed]
  constructor
  · rintro ((((hfixed | hroute) | hroute) | hroute) | hroute)
    · exact .inl hfixed
    · exact .inr ⟨_, _, by simp, hroute⟩
    · exact .inr ⟨_, _, by simp, hroute⟩
    · exact .inr ⟨_, _, by simp, hroute⟩
    · exact .inr ⟨_, _, by simp, hroute⟩
  · rintro (hfixed | ⟨base, ipv6, hmem, hroute⟩)
    · exact .inl (.inl (.inl (.inl hfixed)))
    · simp only [List.mem_cons, Prod.mk.injEq, List.not_mem_nil, or_false] at hmem
      obtain ⟨rfl, rfl⟩ | ⟨rfl, rfl⟩ | ⟨rfl, rfl⟩ | ⟨rfl, rfl⟩ := hmem
      · exact .inl (.inl (.inl (.inr hroute)))
      · exact .inl (.inl (.inr hroute))
      · exact .inl (.inr hroute)
      · exact .inr hroute

/-- The variable is the split-include counter of a family whose address is announced. -/
def Decides (env : Fields) (key : String) : Prop :=
  (key = "CISCO_SPLIT_INC" ∧ announces4 env = true) ∨
  (key = "CISCO_IPV6_SPLIT_INC" ∧ announces6 env = true)

/-! ### One empty variable -/

/-- The parser returns what is accepted within the limits. -/
theorem parse_eq_ok_iff {input : List (String × String)} {r : LifecycleInput} :
    parseEnvironment resolve input = .ok r ↔
      WithinLimits input ∧ Accepts resolve (fields input) r := by
  constructor
  · intro h
    have hlimits : WithinLimits input := by
      rw [parseEnvironment, Exec.bind_eq_ok] at h
      obtain ⟨env, henv, -⟩ := h
      have := limits_of_collect henv (Nat.zero_le _) (Nat.zero_le _)
      simpa only [WithinLimits, Nat.zero_add] using this
    exact ⟨hlimits, ((parse_environment_grammar resolve input hlimits).2 r).1 h⟩
  · rintro ⟨hlimits, h⟩
    exact ((parse_environment_grammar resolve input hlimits).2 r).2 h

section Insert

variable {before after : Fields} {key : String}

theorem lookup_absent {env : Fields} (h : ∀ e ∈ env, e.1 ≠ key) : env.lookup key = none := by
  rw [List.lookup_eq_none_iff]
  intro e he
  simpa [bne_iff_ne] using (h e he).symm

/-- An empty variable has no value. -/
theorem value_insert (habsent : ∀ e ∈ before ++ after, e.1 ≠ key) :
    value (before ++ (key, "") :: after) = value (before ++ after) := by
  funext k
  rw [value, value, List.lookup_append, List.lookup_append, List.lookup_cons]
  by_cases hk : k = key
  · subst hk
    rw [lookup_absent fun e he => habsent e (List.mem_append_left _ he),
      lookup_absent fun e he => habsent e (List.mem_append_right _ he)]
    simp
  · rw [beq_false_of_ne hk]

theorem containsKey_insert (k : String) :
    Fields.containsKey (before ++ (key, "") :: after) k =
      (Fields.containsKey (before ++ after) k || key == k) := by
  simp only [Fields.containsKey, List.any_append, List.any_cons]
  cases key == k <;> simp

theorem clean_insert (habsent : ∀ e ∈ before ++ after, e.1 ≠ key) :
    Clean (before ++ (key, "") :: after) ↔ Clean (before ++ after) := by
  have hperm : (before ++ (key, "") :: after).Perm ((key, "") :: (before ++ after)) :=
    List.perm_middle
  have hnew : key ∉ (before ++ after).map Prod.fst := by
    intro h
    obtain ⟨e, he, rfl⟩ := List.mem_map.1 h
    exact habsent e he rfl
  simp only [Clean, (hperm.map Prod.fst).nodup_iff, hperm.mem_iff, List.map_cons, List.nodup_cons,
    List.mem_cons, forall_eq_or_imp]
  exact ⟨fun h => ⟨h.1.2, h.2.2⟩, fun h => ⟨⟨hnew, h.1⟩, by simp, h.2⟩⟩

theorem Announced.withFlags_eq (h : Announced resolve env c f) : withFlags env c = c := by
  rw [withFlags, ← h.fullTunnelIpv4, ← h.fullTunnelIpv6]

/-- An empty variable that decides nothing leaves the flags as they are. -/
theorem withFlags_insert {env : Fields}
    (h4 : c.addresses.any (·.address.isIpv4) = announces4 (before ++ after))
    (h6 : c.addresses.any (·.address.isIpv6) = announces6 (before ++ after))
    (henv : env = before ++ (key, "") :: after) (hdecides : ¬Decides (before ++ after) key) :
    withFlags env c = withFlags (before ++ after) c := by
  subst henv
  simp only [Decides, not_or, not_and, Bool.not_eq_true] at hdecides
  have hinc4 : (announces4 (before ++ after) &&
      !Fields.containsKey (before ++ (key, "") :: after) "CISCO_SPLIT_INC") =
      (announces4 (before ++ after) && !Fields.containsKey (before ++ after) "CISCO_SPLIT_INC") := by
    by_cases hkey : key = "CISCO_SPLIT_INC"
    · rw [hdecides.1 hkey, Bool.false_and, Bool.false_and]
    · rw [containsKey_insert, beq_false_of_ne hkey, Bool.or_false]
  have hinc6 : (announces6 (before ++ after) &&
      !Fields.containsKey (before ++ (key, "") :: after) "CISCO_IPV6_SPLIT_INC") =
      (announces6 (before ++ after) &&
        !Fields.containsKey (before ++ after) "CISCO_IPV6_SPLIT_INC") := by
    by_cases hkey : key = "CISCO_IPV6_SPLIT_INC"
    · rw [hdecides.2 hkey, Bool.false_and, Bool.false_and]
    · rw [containsKey_insert, beq_false_of_ne hkey, Bool.or_false]
  rw [withFlags, withFlags, h4, h6, hinc4, hinc6]

/-- Without the empty variable the same configuration is announced, up to the flags. -/
theorem Announced.remove (habsent : ∀ e ∈ before ++ after, e.1 ≠ key)
    (h : Announced resolve (before ++ (key, "") :: after) c f) :
    Announced resolve (before ++ after) (withFlags (before ++ after) c) f := by
  refine h.transfer (value_insert habsent).symm fun e he => h.used e ?_
  rw [List.mem_append, List.mem_cons]
  exact (List.mem_append.1 he).imp id .inr

/-- With an empty variable that is listed the same configuration is announced, up to the flags. -/
theorem Announced.insert (habsent : ∀ e ∈ before ++ after, e.1 ≠ key)
    (h : Announced resolve (before ++ after) c f) (hlisted : Listed (before ++ after) key) :
    Announced resolve (before ++ (key, "") :: after)
      (withFlags (before ++ (key, "") :: after) c) f := by
  refine h.transfer (value_insert habsent) fun e he => ?_
  rw [List.mem_append, List.mem_cons] at he
  obtain he | rfl | he := he
  · exact h.used e (List.mem_append_left _ he)
  · exact (h.mem_names key).2 hlisted
  · exact h.used e (List.mem_append_right _ he)

/-- An empty counter that decides makes another configuration. -/
theorem Announced.not_both {f' : Families} (h : Announced resolve (before ++ (key, "") :: after) c f)
    (h' : Announced resolve (before ++ after) c f') (habsent : ∀ e ∈ before ++ after, e.1 ≠ key) :
    ¬Decides (before ++ after) key := by
  have hcontains : Fields.containsKey (before ++ after) key = false := by
    rw [Fields.containsKey, List.any_eq_false]
    intro e he
    simpa using habsent e he
  have hwith : Fields.containsKey (before ++ (key, "") :: after) key = true := by
    rw [containsKey_insert, beq_self_eq_true, Bool.or_true]
  rintro (⟨rfl, hannounced⟩ | ⟨rfl, hannounced⟩)
  · have hflag := h.fullTunnelIpv4
    rw [h'.fullTunnelIpv4, h'.any.1, hannounced, hwith, hcontains] at hflag
    cases hflag
  · have hflag := h.fullTunnelIpv6
    rw [h'.fullTunnelIpv6, h'.any.2, hannounced, hwith, hcontains] at hflag
    cases hflag

end Insert

/-- When an empty variable, which occurs once, counts as an absent one: when the list without it is
accepted, the list with it must be within the limits too, and where a configuration is asked for
the variable must be listed and decide nothing. -/
theorem parse_without_empty_iff (resolve : String → Run InterfaceIdentity)
    (before after : List (String × String)) (key : String) (hkey : recognized key = true)
    (honce : ∀ e ∈ before ++ after, e.1 ≠ key) :
    (∀ r, parseEnvironment resolve (before ++ (key, "") :: after) = .ok r ↔
      parseEnvironment resolve (before ++ after) = .ok r) ↔
    ∀ r, WithinLimits (before ++ after) → Accepts resolve (fields (before ++ after)) r →
      WithinLimits (before ++ (key, "") :: after) ∧
        (negotiated r.reason = true →
          Listed (fields (before ++ after)) key ∧ ¬Decides (fields (before ++ after)) key) := by
  have hwith : fields (before ++ (key, "") :: after) =
      fields before ++ (key, "") :: fields after := by
    simp [fields, hkey]
  have hwithout : fields (before ++ after) = fields before ++ fields after := by
    simp [fields]
  have habsent : ∀ e ∈ fields before ++ fields after, e.1 ≠ key := by
    intro e he
    rw [← hwithout] at he
    exact honce e (List.mem_of_mem_filter he)
  have hlimits : WithinLimits (before ++ (key, "") :: after) → WithinLimits (before ++ after) := by
    rintro ⟨hlength, hsize, hsizes⟩
    refine ⟨?_, ?_, fun e he => hsizes e ?_⟩
    · simp only [List.length_append, List.length_cons] at hlength ⊢
      omega
    · simp only [size, List.map_append, List.map_cons, List.sum_append, List.sum_cons] at hsize ⊢
      omega
    · rw [List.mem_append, List.mem_cons]
      exact (List.mem_append.1 he).imp id .inr
  have hvalue := value_insert habsent
  simp only [parse_eq_ok_iff, hwith, hwithout]
  constructor
  · intro hsame r hlim haccepts
    obtain ⟨hlim', -, -, hconfig'⟩ := (hsame r).2 ⟨hlim, haccepts⟩
    refine ⟨hlim', fun hnegotiated => ?_⟩
    obtain ⟨-, -, hconfig⟩ := haccepts
    obtain ⟨reason, config⟩ := r
    cases config with
    | none =>
      rw [hconfig] at hnegotiated
      cases hnegotiated
    | some c =>
      obtain ⟨-, f, h⟩ := hconfig
      obtain ⟨-, f', h'⟩ := hconfig'
      refine ⟨?_, h'.not_both h habsent⟩
      have hlisted := (h'.mem_names key).1 (h'.used (key, "") (by simp))
      simpa only [Listed, hvalue] using hlisted
  · intro hcond r
    constructor
    · rintro ⟨hlim, hclean, hreason, hconfig⟩
      have hclean' := (clean_insert habsent).1 hclean
      rw [hvalue] at hreason
      refine ⟨hlimits hlim, hclean', hreason, ?_⟩
      obtain ⟨reason, config⟩ := r
      cases config with
      | none => exact hconfig
      | some c =>
        obtain ⟨hnegotiated, f, h⟩ := hconfig
        have hremoved := h.remove habsent
        -- without the variable some configuration is accepted, so the condition speaks of it
        have haccepts : Accepts resolve (fields before ++ fields after)
            ⟨reason, some (withFlags (fields before ++ fields after) c)⟩ :=
          ⟨hclean', hreason, hnegotiated, f, hremoved⟩
        have hdecides := ((hcond _ (hlimits hlim) haccepts).2 hnegotiated).2
        have hany := h.any
        simp only [announces4, announces6, hvalue] at hany
        have hflags := withFlags_insert hany.1 hany.2 rfl hdecides
        rw [← hflags, h.withFlags_eq] at hremoved
        exact ⟨hnegotiated, f, hremoved⟩
    · rintro ⟨hlim, haccepts⟩
      obtain ⟨hlim', hlisted⟩ := hcond r hlim haccepts
      obtain ⟨hclean, hreason, hconfig⟩ := haccepts
      refine ⟨hlim', (clean_insert habsent).2 hclean, by rw [hvalue]; exact hreason, ?_⟩
      obtain ⟨reason, config⟩ := r
      cases config with
      | none => exact hconfig
      | some c =>
        obtain ⟨hnegotiated, f, h⟩ := hconfig
        obtain ⟨hlisted, hdecides⟩ := hlisted hnegotiated
        have hinserted := h.insert habsent hlisted
        rw [withFlags_insert h.any.1 h.any.2 rfl hdecides, h.withFlags_eq] at hinserted
        exact ⟨hnegotiated, f, hinserted⟩

/-- An empty netmask of the one split route of the sample. -/
theorem parse_without_empty_iff_sample :
    parseEnvironment sampleResolve (("CISCO_SPLIT_INC_0_MASK", "") :: sampleInput) =
        .ok ⟨.connect, some sampleConfig⟩ ↔
      parseEnvironment sampleResolve sampleInput = .ok ⟨.connect, some sampleConfig⟩ := by
  refine (parse_without_empty_iff sampleResolve [] sampleInput "CISCO_SPLIT_INC_0_MASK" (by decide)
    (by decide)).2 (fun _ _ _ => ⟨by decide, fun _ => ⟨?_, ?_⟩⟩) ⟨.connect, some sampleConfig⟩
  · exact .inr ⟨"CISCO_SPLIT_INC", false, by decide, 1, ⟨"1", by decide, by decide⟩, by decide⟩
  · rintro (⟨h, -⟩ | ⟨h, -⟩) <;> exact absurd h (by decide)

/-- A tunnel for all IPv4 addresses. -/
def sampleFullInput : List (String × String) :=
  [("reason", "connect"), ("TUNDEV", "tun0"), ("INTERNAL_IP4_MTU", "1400"),
    ("VPNGATEWAY", "192.0.2.1"), ("INTERNAL_IP4_ADDRESS", "10.0.0.2")]

/-- The configuration of that tunnel. -/
def sampleFullConfig : NetworkConfig where
  interface := ⟨"tun0", 7⟩
  mtu := 1400
  addresses := [⟨.v4 0x0a000002, 32⟩]
  fullTunnelIpv4 := true
  transportPeer := .v4 0xc0000201

/-- An empty counter turns the full tunnel off, and an empty variable of a route that is not
announced makes the parser fail. -/
theorem empty_variable_counts :
    parseEnvironment sampleResolve sampleFullInput = .ok ⟨.connect, some sampleFullConfig⟩ ∧
    parseEnvironment sampleResolve (("CISCO_SPLIT_INC", "") :: sampleFullInput) =
      .ok ⟨.connect, some { sampleFullConfig with fullTunnelIpv4 := false }⟩ ∧
    parseEnvironment sampleResolve (("CISCO_SPLIT_INC_0_ADDR", "") :: sampleFullInput) =
      Exec.fail (.invalid "Unexpected or unconsumed network configuration field") := by
  decide +kernel

end Ocvpn.Environment
