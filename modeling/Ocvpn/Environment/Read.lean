import Ocvpn.Environment.Parse

/-!
# Taking and looking up

The parser takes each variable out of the map once, so what it takes is what a lookup in the whole
map gives, and the map is empty at the end exactly when every variable of the map was looked up.
This module states the parser as lookups (`readConfig`) and proves the two equal
(`parseConfig_eq`).

## Main results

* `entryName_inj` : the variables of the split routes have different names.
* `parseConfig_eq` : the parser that takes is the parser that looks up.
-/

namespace Ocvpn.Environment

open Text

/-! ### Names -/

/-- What stands before the first separator is determined. -/
theorem append_cons_inj {α : Type} {sep : α} {u v s t : List α} (hu : sep ∉ u) (hv : sep ∉ v)
    (h : u ++ sep :: s = v ++ sep :: t) : u = v ∧ s = t := by
  induction u generalizing v with
  | nil =>
    cases v with
    | nil => exact ⟨rfl, by simpa using h⟩
    | cons a v =>
      simp only [List.nil_append, List.cons_append, List.cons.injEq] at h
      exact absurd (by simp [h.1]) hv
  | cons a u ih =>
    cases v with
    | nil =>
      simp only [List.nil_append, List.cons_append, List.cons.injEq] at h
      exact absurd (by simp [h.1]) hu
    | cons b v =>
      simp only [List.cons_append, List.cons.injEq] at h
      simp only [List.mem_cons, not_or] at hu hv
      obtain ⟨rfl, rfl⟩ := ih hu.2 hv.2 h.2
      exact ⟨by rw [h.1], rfl⟩

theorem entryName_toList (base : String) (i : ℕ) (suffix : String) :
    (entryName base i suffix).toList =
      base.toList ++ '_' :: (Nat.toDigits 10 i ++ '_' :: suffix.toList) := by
  simp [entryName, toString, String.toList_append]

/-- No base begins with another. -/
theorem splitBases_not_nested : ∀ b ∈ splitBases, ∀ c ∈ splitBases, b.toList <+: c.toList → b = c := by
  decide

/-- The names of the split routes are different. -/
theorem entryName_inj {b c : String} {i j : ℕ} {s t : String} (hb : b ∈ splitBases)
    (hc : c ∈ splitBases) (h : entryName b i s = entryName c j t) : b = c ∧ i = j ∧ s = t := by
  have hlist := congrArg String.toList h
  rw [entryName_toList, entryName_toList] at hlist
  have hbase : b = c := by
    obtain hp | hp := List.prefix_or_prefix_of_prefix (List.prefix_append b.toList _)
      (hlist ▸ List.prefix_append c.toList _)
    · exact splitBases_not_nested b hb c hc hp
    · exact (splitBases_not_nested c hc b hb hp).symm
  subst hbase
  have hrest := List.append_cancel_left hlist
  simp only [List.cons.injEq, true_and] at hrest
  obtain ⟨hdigits, hsuffix⟩ :=
    append_cons_inj Nat.underscore_not_in_toDigits Nat.underscore_not_in_toDigits hrest
  refine ⟨rfl, ?_, String.toList_inj.1 hsuffix⟩
  rw [← Nat.ofDigitChars_ten_toDigits (n := i), hdigits, Nat.ofDigitChars_ten_toDigits]

/-- The names that are not those of split routes. -/
def fixedNames : List String := plainNames ++ splitBases

theorem entryName_not_fixed {b : String} (hb : b ∈ splitBases) (i : ℕ) (s : String) :
    entryName b i s ∉ fixedNames := by
  have hall : ∀ b ∈ splitBases, ∀ n ∈ fixedNames, ¬(b.toList ++ ['_']) <+: n.toList := by decide
  intro h
  apply hall b hb _ h
  rw [entryName_toList]
  exact ⟨Nat.toDigits 10 i ++ '_' :: s.toList, by simp⟩

/-- The last parts of the names of a split route. -/
def suffixes (ipv6 : Bool) : List String :=
  (if ipv6 then ["ADDR", "MASKLEN"] else ["ADDR", "MASKLEN", "MASK"]) ++ ["PROTOCOL", "SPORT", "DPORT"]

/-- The variables of the split routes from index `i` on. -/
def routeNames (base : String) (ipv6 : Bool) (i count : ℕ) : List String :=
  (List.range' i count).flatMap fun j => (suffixes ipv6).map (entryName base j)

theorem mem_routeNames {base : String} {ipv6 : Bool} {i count : ℕ} {key : String} :
    key ∈ routeNames base ipv6 i count ↔
      ∃ j, i ≤ j ∧ j < i + count ∧ ∃ s ∈ suffixes ipv6, key = entryName base j s := by
  simp only [routeNames, List.mem_flatMap, List.mem_range'_1, List.mem_map]
  constructor
  · rintro ⟨j, ⟨hi, hj⟩, s, hs, rfl⟩
    exact ⟨j, hi, hj, s, hs, rfl⟩
  · rintro ⟨j, hi, hj, s, hs, rfl⟩
    exact ⟨j, ⟨hi, hj⟩, s, hs, rfl⟩

theorem fixed_not_route {base key : String} (hb : base ∈ splitBases) (hkey : key ∈ fixedNames)
    (ipv6 : Bool) (i count : ℕ) : key ∉ routeNames base ipv6 i count := by
  intro h
  obtain ⟨j, -, -, s, -, rfl⟩ := mem_routeNames.1 h
  exact entryName_not_fixed hb j s hkey

/-! ### Taking from what is left -/

/-- A variable that is there and not empty. -/
def value (env : Fields) (key : String) : Option String := (env.lookup key).filter (· ≠ "")

/-- What is left when variables have been taken. -/
def without (env : Fields) (used : List String) : Fields := env.filter fun e => e.1 ∉ used

theorem lookup_without {env : Fields} {used : List String} {key : String} (h : key ∉ used) :
    (without env used).lookup key = env.lookup key := by
  induction env with
  | nil => rfl
  | cons e env ih =>
    obtain ⟨k, v⟩ := e
    rw [without, List.filter_cons]
    by_cases hk : k ∈ used
    · have hne : key ≠ k := by
        rintro rfl
        exact h hk
      simp only [hk, not_true_eq_false, decide_false, Bool.false_eq_true, if_false,
        List.lookup_cons, beq_false_of_ne hne]
      exact ih
    · simp only [hk, not_false_eq_true, decide_true, if_true, List.lookup_cons]
      cases key == k <;> first | rfl | exact ih

/-- A variable that was not taken before is taken as it stands in the whole map. -/
theorem take_without {env : Fields} {used : List String} {key : String} (h : key ∉ used) :
    (without env used).take key = (value env key, without env (key :: used)) := by
  rw [Fields.take, lookup_without h, value, without, without, List.filter_filter]
  congr 2
  funext e
  by_cases he : e.1 = key <;> simp [he]

/-- `required`, as a lookup. -/
def require (get : String → Option String) (key : String) : Run String :=
  match get key with
  | some value => .ok value
  | none => Exec.fail (.invalid "Missing required network configuration field")

theorem required_without {env : Fields} {used : List String} {key : String} (h : key ∉ used) :
    (without env used).required key =
      (require (value env) key).map fun v => (v, without env (key :: used)) := by
  rw [Fields.required, take_without h, require]
  cases value env key <;> rfl

/-- Only which variables were taken matters. -/
theorem without_congr {env : Fields} {used used' : List String} (h : ∀ k, k ∈ used ↔ k ∈ used') :
    without env used = without env used' := by
  simp only [without, h]

theorem without_isEmpty {env : Fields} {used : List String} :
    (without env used).isEmpty = env.all fun e => e.1 ∈ used := by
  rw [Bool.eq_iff_iff, List.isEmpty_iff, without, List.filter_eq_nil_iff]
  simp

theorem containsKey_without {env : Fields} {used : List String} {key : String} (h : key ∉ used) :
    (without env used).containsKey key = env.containsKey key := by
  rw [Bool.eq_iff_iff]
  simp only [Fields.containsKey, List.any_eq_true, without, List.mem_filter, beq_iff_eq]
  constructor
  · rintro ⟨e, he, rfl⟩
    exact ⟨e, he.1, rfl⟩
  · rintro ⟨e, he, rfl⟩
    exact ⟨e, ⟨he, by simpa using h⟩, rfl⟩

/-! ### Split routes -/

section Routes

variable (get : String → Option String)

/-- `unconstrained`, as lookups. -/
def readUnconstrained (base : String) (i : ℕ) : List String → Run Unit
  | [] => .ok ()
  | suffix :: suffixes => do
    let value ← (get (entryName base i suffix)).mapM (number (parseUnsigned 16))
    Exec.rejectIf (value.any (· ≠ 0))
      (.invalid "Port or protocol constrained split routes are unsupported")
    readUnconstrained base i suffixes

/-- `routePrefix`, as lookups. -/
def readPrefix (base : String) (ipv6 : Bool) (i : ℕ) : Run ℕ :=
  if ipv6 then
    match get (entryName base i "MASKLEN") with
    | none => Exec.fail (.invalid "Missing IPv6 route prefix")
    | some len => number (parseUnsigned 8) len
  else ipv4Prefix (get (entryName base i "MASK")) (get (entryName base i "MASKLEN"))

/-- `route`, as lookups. -/
def readRoute (base : String) (ipv6 : Bool) (i : ℕ) : Run IpPrefix := do
  let value ← require get (entryName base i "ADDR")
  let address ← number parseIpAddr value
  Exec.rejectIf (address.isIpv6 != ipv6) (.invalid "Split route has wrong address family")
  let length ← readPrefix get base ipv6 i
  readUnconstrained get base i ["PROTOCOL", "SPORT", "DPORT"]
  IpPrefix.validate ⟨address, length⟩
  .ok ⟨address, length⟩

/-- `routesFrom`, as lookups. -/
def readRoutesFrom (base : String) (ipv6 : Bool) (i : ℕ) : ℕ → Run (List IpPrefix)
  | 0 => .ok []
  | left + 1 => do
    let p ← readRoute get base ipv6 i
    let ps ← readRoutesFrom base ipv6 (i + 1) left
    .ok (p :: ps)

/-- `routes`, as lookups. -/
def readRoutes (base : String) (ipv6 : Bool) : Run (List IpPrefix) := do
  let count ← (get base).mapM (number (parseUnsigned 64))
  let count := count.getD 0
  Exec.rejectIf (count > maxNetworkItems) (.invalid "Too many split routes")
  readRoutesFrom get base ipv6 0 count

end Routes

theorem map_bind {α β γ : Type} (x : Run α) (f : α → β) (g : β → Run γ) :
    (x.map f >>= g) = x >>= fun a => g (f a) := by
  cases x <;> rfl

theorem bind_map {α β γ : Type} (x : Run α) (f : α → Run β) (g : β → γ) :
    (x >>= f).map g = x >>= fun a => (f a).map g := by
  cases x <;> rfl

theorem map_ok {α β : Type} (a : α) (f : α → β) : (Except.ok a : Run α).map f = .ok (f a) := rfl

/-- Two names of one route are equal when their last parts are. -/
theorem entryName_suffix {base : String} {i : ℕ} {s t : String} :
    entryName base i s = entryName base i t ↔ s = t := by
  constructor
  · intro h
    have hlist := congrArg String.toList h
    rw [entryName_toList, entryName_toList] at hlist
    have hrest := List.append_cancel_left hlist
    simp only [List.cons.injEq, true_and] at hrest
    have hsuffix := List.append_cancel_left hrest
    simp only [List.cons.injEq, true_and] at hsuffix
    exact String.toList_inj.1 hsuffix
  · rintro rfl
    rfl

theorem unconstrained_without {env : Fields} {base : String} {i : ℕ} (suffixes used : List String)
    (hfresh : ∀ s ∈ suffixes, entryName base i s ∉ used) (hnodup : suffixes.Nodup) :
    unconstrained (without env used) base i suffixes =
      (readUnconstrained (value env) base i suffixes).map fun _ =>
        without env (suffixes.map (entryName base i) ++ used) := by
  induction suffixes generalizing used with
  | nil => rfl
  | cons s suffixes ih =>
    rw [List.nodup_cons] at hnodup
    have htake : (without env used).take (entryName base i s) =
        (value env (entryName base i s), without env (entryName base i s :: used)) :=
      take_without (hfresh s List.mem_cons_self)
    have hrest : ∀ t ∈ suffixes, entryName base i t ∉ entryName base i s :: used := by
      intro t ht
      rw [List.mem_cons, not_or, entryName_suffix]
      refine ⟨?_, hfresh t (List.mem_cons_of_mem _ ht)⟩
      rintro rfl
      exact hnodup.1 ht
    simp only [unconstrained, htake, readUnconstrained, bind_map, ih _ hrest hnodup.2]
    have hcongr : without env (suffixes.map (entryName base i) ++ entryName base i s :: used) =
        without env ((s :: suffixes).map (entryName base i) ++ used) :=
      without_congr fun k => by simp [or_left_comm]
    rw [hcongr]

theorem routePrefix_without {env : Fields} {base : String} {ipv6 : Bool} {i : ℕ}
    {used : List String} (hfresh : entryName base i "MASK" ∉ used) :
    routePrefix (without env used) base ipv6 i (value env (entryName base i "MASKLEN")) =
      (readPrefix (value env) base ipv6 i).map fun length =>
        (length, without env ((if ipv6 then [] else [entryName base i "MASK"]) ++ used)) := by
  cases ipv6 with
  | true =>
    simp only [routePrefix, readPrefix, if_true, List.nil_append]
    cases value env (entryName base i "MASKLEN") with
    | none => rfl
    | some len =>
      change (number (parseUnsigned 8) len >>= fun length => .ok (length, without env used)) =
        (number (parseUnsigned 8) len).map fun length => (length, without env used)
      cases number (parseUnsigned 8) len <;> rfl
  | false =>
    simp only [routePrefix, readPrefix, Bool.false_eq_true, if_false, take_without hfresh]
    cases ipv4Prefix (value env (entryName base i "MASK")) (value env (entryName base i "MASKLEN"))
      <;> rfl

theorem route_without {env : Fields} {base : String} {ipv6 : Bool} {i : ℕ} {used : List String}
    (hfresh : ∀ s, entryName base i s ∉ used) :
    route (without env used) base ipv6 i =
      (readRoute (value env) base ipv6 i).map fun p =>
        (p, without env ((suffixes ipv6).map (entryName base i) ++ used)) := by
  have hlen : entryName base i "MASKLEN" ∉ entryName base i "ADDR" :: used := by
    simp [entryName_suffix, hfresh]
  have hmask : entryName base i "MASK" ∉
      entryName base i "MASKLEN" :: entryName base i "ADDR" :: used := by
    simp [entryName_suffix, hfresh]
  have hrest : ∀ s ∈ ["PROTOCOL", "SPORT", "DPORT"], entryName base i s ∉
      (if ipv6 then [] else [entryName base i "MASK"]) ++
        entryName base i "MASKLEN" :: entryName base i "ADDR" :: used := by
    intro s hs
    have hne : s ≠ "MASK" ∧ s ≠ "MASKLEN" ∧ s ≠ "ADDR" := by
      simp only [List.mem_cons, List.not_mem_nil, or_false] at hs
      obtain rfl | rfl | rfl := hs <;> decide
    cases ipv6 <;> simp [entryName_suffix, hfresh, hne]
  have hused : without env (["PROTOCOL", "SPORT", "DPORT"].map (entryName base i) ++
      ((if ipv6 then [] else [entryName base i "MASK"]) ++
        entryName base i "MASKLEN" :: entryName base i "ADDR" :: used)) =
      without env ((suffixes ipv6).map (entryName base i) ++ used) := by
    apply without_congr
    intro k
    cases ipv6 <;> simp [suffixes] <;> tauto
  simp only [route, required_without (hfresh "ADDR"), map_bind, take_without hlen,
    routePrefix_without hmask, unconstrained_without _ _ hrest (by decide), hused, readRoute, bind_map]
  rfl

theorem routesFrom_without {env : Fields} {base : String} {ipv6 : Bool} (hb : base ∈ splitBases)
    {i left : ℕ} {used : List String} (hfresh : ∀ j, i ≤ j → ∀ s, entryName base j s ∉ used) :
    routesFrom (without env used) base ipv6 i left =
      (readRoutesFrom (value env) base ipv6 i left).map fun ps =>
        (ps, without env (routeNames base ipv6 i left ++ used)) := by
  induction left generalizing i used with
  | zero => rfl
  | succ left ih =>
    have hnext : ∀ j, i + 1 ≤ j → ∀ s,
        entryName base j s ∉ (suffixes ipv6).map (entryName base i) ++ used := by
      intro j hj s
      rw [List.mem_append, not_or]
      refine ⟨fun h => ?_, hfresh j (by omega) s⟩
      obtain ⟨t, -, ht⟩ := List.mem_map.1 h
      have := (entryName_inj hb hb ht).2.1
      omega
    have hused : without env (routeNames base ipv6 (i + 1) left ++
        ((suffixes ipv6).map (entryName base i) ++ used)) =
        without env (routeNames base ipv6 i (left + 1) ++ used) := by
      apply without_congr
      intro k
      simp only [routeNames, List.range'_succ, List.flatMap_cons, List.mem_append]
      tauto
    simp only [routesFrom, route_without (hfresh i (Nat.le_refl i)), map_bind, ih hnext, hused,
      readRoutesFrom, bind_map]
    rfl

/-- The number of routes read is the one announced. -/
theorem length_readRoutesFrom {get : String → Option String} {base : String} {ipv6 : Bool}
    {i left : ℕ} {ps : List IpPrefix} (h : readRoutesFrom get base ipv6 i left = .ok ps) :
    ps.length = left := by
  induction left generalizing i ps with
  | zero =>
    cases h
    rfl
  | succ left ih =>
    simp only [readRoutesFrom, Exec.bind_eq_ok] at h
    obtain ⟨p, -, qs, hqs, h⟩ := h
    cases h
    rw [List.length_cons, ih hqs]

/-- No variable of the split routes under `base` has been taken. -/
structure Fresh (base : String) (used : List String) : Prop where
  own : base ∉ used
  entry : ∀ j s, entryName base j s ∉ used

/-- What has been taken after so many routes under `base`. -/
def afterRoutes (base : String) (ipv6 : Bool) (count : ℕ) (used : List String) : List String :=
  routeNames base ipv6 0 count ++ base :: used

theorem Fresh.of_fixed {base : String} {used : List String} (hb : base ∈ splitBases)
    (hbase : base ∉ used) (hused : used ⊆ fixedNames) : Fresh base used :=
  ⟨hbase, fun j s h => entryName_not_fixed hb j s (hused h)⟩

/-- The routes under another base take none of them. -/
theorem Fresh.routes {base other : String} {used : List String} (h : Fresh base used)
    (hb : base ∈ splitBases) (ho : other ∈ splitBases) (hne : base ≠ other) (ipv6 : Bool)
    (count : ℕ) : Fresh base (afterRoutes other ipv6 count used) := by
  constructor
  · simp only [afterRoutes, List.mem_append, List.mem_cons, not_or]
    exact ⟨fixed_not_route ho (List.mem_append_right _ hb) _ _ _, hne, h.own⟩
  · intro j s
    simp only [afterRoutes, List.mem_append, List.mem_cons, not_or]
    refine ⟨fun hmem => ?_, fun heq => ?_, h.entry j s⟩
    · obtain ⟨k, -, -, t, -, ht⟩ := mem_routeNames.1 hmem
      exact hne (entryName_inj hb ho ht).1
    · exact entryName_not_fixed hb j s (heq ▸ List.mem_append_right _ ho)

theorem routes_without {env : Fields} {base : String} (ipv6 : Bool) {used : List String}
    (hb : base ∈ splitBases) (hfresh : Fresh base used) :
    routes (without env used) base ipv6 =
      (readRoutes (value env) base ipv6).map fun ps =>
        (ps, without env (afterRoutes base ipv6 ps.length used)) := by
  have hnames : ∀ j, 0 ≤ j → ∀ s, entryName base j s ∉ base :: used := by
    intro j _ s
    rw [List.mem_cons, not_or]
    refine ⟨fun h => entryName_not_fixed hb j s ?_, hfresh.entry j s⟩
    rw [h]
    exact List.mem_append_right _ hb
  simp only [routes, take_without hfresh.own, readRoutes, bind_map, routesFrom_without hb hnames]
  congr 1
  funext count
  congr 1
  funext _
  -- the number announced is the number read
  cases hread : readRoutesFrom (value env) base ipv6 0 (count.getD 0) with
  | error e => rfl
  | ok ps =>
    rw [map_ok, map_ok, length_readRoutesFrom hread, afterRoutes]

/-! ### The parser -/

/-- The variables a parser looks up when the families have so many routes. -/
def usedNames (includes4 includes6 excludes4 excludes6 : ℕ) : List String :=
  fixedNames ++ routeNames "CISCO_SPLIT_INC" false 0 includes4 ++
    routeNames "CISCO_IPV6_SPLIT_INC" true 0 includes6 ++
    routeNames "CISCO_SPLIT_EXC" false 0 excludes4 ++
    routeNames "CISCO_IPV6_SPLIT_EXC" true 0 excludes6

/-- `parseConfig`, as lookups in all the fields. -/
def readConfig (resolve : String → Run InterfaceIdentity) (env : Fields) : Run NetworkConfig := do
  let get := value env
  let name ← require get "TUNDEV"
  let mtu ← require get "INTERNAL_IP4_MTU"
  let mtu ← number (parseUnsigned 16) mtu
  let peer ← require get "VPNGATEWAY"
  let transportPeer ← number parseIpAddr peer
  let (addresses4, ipv4Subnet) ← ipv4Address (get "INTERNAL_IP4_ADDRESS")
    (get "INTERNAL_IP4_NETMASK") (get "INTERNAL_IP4_NETMASKLEN") (get "INTERNAL_IP4_NETADDR")
  let addresses6 ← ipv6Address (get "INTERNAL_IP6_ADDRESS") (get "INTERNAL_IP6_NETMASK")
  let addresses := addresses4 ++ addresses6
  let dns4 ← ipList (get "INTERNAL_IP4_DNS")
  let dns6 ← ipList (get "INTERNAL_IP6_DNS")
  let searchDomains ← domains (get "CISCO_DEF_DOMAIN") false
  let splitDns ← domains (get "CISCO_SPLIT_DNS") true
  let fullTunnelIpv4 := addresses.any (·.address.isIpv4) && !env.containsKey "CISCO_SPLIT_INC"
  let fullTunnelIpv6 := addresses.any (·.address.isIpv6) && !env.containsKey "CISCO_IPV6_SPLIT_INC"
  let includes4 ← readRoutes get "CISCO_SPLIT_INC" false
  let includes6 ← readRoutes get "CISCO_IPV6_SPLIT_INC" true
  let excludes4 ← readRoutes get "CISCO_SPLIT_EXC" false
  let excludes6 ← readRoutes get "CISCO_IPV6_SPLIT_EXC" true
  Exec.rejectIf ((get "INTERNAL_IP4_NBNS").isSome || (get "CISCO_PROXY_PAC").isSome)
    (.invalid "Negotiated WINS or proxy PAC configuration is not supported")
  let used := usedNames includes4.length includes6.length excludes4.length excludes6.length
  Exec.rejectIf (!env.all fun e => e.1 ∈ used)
    (.invalid "Unexpected or unconsumed network configuration field")
  let interface ← resolve name
  let config : NetworkConfig :=
    { interface, mtu, addresses, dnsServers := dns4 ++ dns6, ipv4Subnet, fullTunnelIpv4,
      fullTunnelIpv6, searchDomains, splitDns, splitIncludes := includes4 ++ includes6,
      splitExcludes := excludes4 ++ excludes6, transportPeer }
  config.validate
  .ok config

/-- The variables taken before the split routes. -/
def takenBefore : List String :=
  ["CISCO_SPLIT_DNS", "CISCO_DEF_DOMAIN", "INTERNAL_IP6_DNS", "INTERNAL_IP4_DNS",
    "INTERNAL_IP6_NETMASK", "INTERNAL_IP6_ADDRESS", "INTERNAL_IP4_NETADDR",
    "INTERNAL_IP4_NETMASKLEN", "INTERNAL_IP4_NETMASK", "INTERNAL_IP4_ADDRESS", "VPNGATEWAY",
    "INTERNAL_IP4_MTU", "TUNDEV", "reason"]

/-- The variables taken when the split routes have been. -/
def takenRoutes (includes4 includes6 excludes4 excludes6 : ℕ) : List String :=
  afterRoutes "CISCO_IPV6_SPLIT_EXC" true excludes6 <|
    afterRoutes "CISCO_SPLIT_EXC" false excludes4 <|
      afterRoutes "CISCO_IPV6_SPLIT_INC" true includes6 <|
        afterRoutes "CISCO_SPLIT_INC" false includes4 takenBefore

/-- A variable with a name of its own that is not yet taken before the routes is not taken by them. -/
theorem not_mem_takenRoutes {key : String} (hfixed : key ∈ plainNames) (hbefore : key ∉ takenBefore)
    (n₁ n₂ n₃ n₄ : ℕ) : key ∉ takenRoutes n₁ n₂ n₃ n₄ := by
  have hmem : key ∈ fixedNames := List.mem_append_left _ hfixed
  have hbases : ∀ n ∈ plainNames, n ∉ splitBases := by decide
  have hne := hbases key hfixed
  simp only [splitBases, List.mem_cons, List.not_mem_nil, or_false, not_or] at hne
  simp only [takenRoutes, afterRoutes, List.mem_append, List.mem_cons, not_or]
  exact ⟨fixed_not_route (by decide) hmem _ _ _, hne.2.2.2,
    fixed_not_route (by decide) hmem _ _ _, hne.2.1,
    fixed_not_route (by decide) hmem _ _ _, hne.2.2.1,
    fixed_not_route (by decide) hmem _ _ _, hne.1, hbefore⟩

/-- In the end every variable of the list has been taken. -/
theorem mem_usedNames (n₁ n₂ n₃ n₄ : ℕ) (key : String) :
    key ∈ "CISCO_PROXY_PAC" :: "INTERNAL_IP4_NBNS" :: takenRoutes n₁ n₂ n₃ n₄ ↔
      key ∈ usedNames n₁ n₂ n₃ n₄ := by
  have hfixed : key ∈ fixedNames ↔ key ∈ "CISCO_PROXY_PAC" :: "INTERNAL_IP4_NBNS" ::
      "CISCO_IPV6_SPLIT_EXC" :: "CISCO_SPLIT_EXC" :: "CISCO_IPV6_SPLIT_INC" :: "CISCO_SPLIT_INC" ::
        takenBefore := by
    have hsub : ∀ k ∈ fixedNames, k ∈ "CISCO_PROXY_PAC" :: "INTERNAL_IP4_NBNS" ::
      "CISCO_IPV6_SPLIT_EXC" :: "CISCO_SPLIT_EXC" :: "CISCO_IPV6_SPLIT_INC" :: "CISCO_SPLIT_INC" ::
        takenBefore := by decide
    have hsup : ∀ k ∈ "CISCO_PROXY_PAC" :: "INTERNAL_IP4_NBNS" ::
      "CISCO_IPV6_SPLIT_EXC" :: "CISCO_SPLIT_EXC" :: "CISCO_IPV6_SPLIT_INC" :: "CISCO_SPLIT_INC" ::
        takenBefore, k ∈ fixedNames := by decide
    exact ⟨hsub key, hsup key⟩
  simp only [usedNames, takenRoutes, afterRoutes, List.mem_append, List.mem_cons, hfixed]
  simp only [or_assoc, or_comm, or_left_comm]

/-- The parser that takes its variables out of the map looks them up in the whole of it. -/
theorem parseConfig_eq (resolve : String → Run InterfaceIdentity) (env : Fields) :
    parseConfig resolve (without env ["reason"]) = readConfig resolve env := by
  have hfixed : takenBefore ⊆ fixedNames := by decide
  have hinc4 : Fresh "CISCO_SPLIT_INC" takenBefore := .of_fixed (by decide) (by decide) hfixed
  have hinc6 (n₁ : ℕ) : Fresh "CISCO_IPV6_SPLIT_INC"
      (afterRoutes "CISCO_SPLIT_INC" false n₁ takenBefore) :=
    (Fresh.of_fixed (by decide) (by decide) hfixed).routes (by decide) (by decide) (by decide) _ _
  have hexc4 (n₁ n₂ : ℕ) : Fresh "CISCO_SPLIT_EXC" (afterRoutes "CISCO_IPV6_SPLIT_INC" true n₂
      (afterRoutes "CISCO_SPLIT_INC" false n₁ takenBefore)) :=
    ((Fresh.of_fixed (by decide) (by decide) hfixed).routes (by decide) (by decide) (by decide) _
      _).routes (by decide) (by decide) (by decide) _ _
  have hexc6 (n₁ n₂ n₃ : ℕ) : Fresh "CISCO_IPV6_SPLIT_EXC" (afterRoutes "CISCO_SPLIT_EXC" false n₃
      (afterRoutes "CISCO_IPV6_SPLIT_INC" true n₂
        (afterRoutes "CISCO_SPLIT_INC" false n₁ takenBefore))) :=
    (((Fresh.of_fixed (by decide) (by decide) hfixed).routes (by decide) (by decide) (by decide) _
      _).routes (by decide) (by decide) (by decide) _ _).routes (by decide) (by decide) (by decide) _ _
  have hnbns (n₁ n₂ n₃ n₄ : ℕ) : "INTERNAL_IP4_NBNS" ∉ takenRoutes n₁ n₂ n₃ n₄ :=
    not_mem_takenRoutes (by decide) (by decide) n₁ n₂ n₃ n₄
  have hpac (n₁ n₂ n₃ n₄ : ℕ) :
      "CISCO_PROXY_PAC" ∉ "INTERNAL_IP4_NBNS" :: takenRoutes n₁ n₂ n₃ n₄ := by
    rw [List.mem_cons, not_or]
    exact ⟨by decide, not_mem_takenRoutes (by decide) (by decide) n₁ n₂ n₃ n₄⟩
  simp (disch := decide) only [parseConfig, required_without, take_without, map_bind,
    containsKey_without]
  rw [show ["CISCO_SPLIT_DNS", "CISCO_DEF_DOMAIN", "INTERNAL_IP6_DNS", "INTERNAL_IP4_DNS",
    "INTERNAL_IP6_NETMASK", "INTERNAL_IP6_ADDRESS", "INTERNAL_IP4_NETADDR",
    "INTERNAL_IP4_NETMASKLEN", "INTERNAL_IP4_NETMASK", "INTERNAL_IP4_ADDRESS", "VPNGATEWAY",
    "INTERNAL_IP4_MTU", "TUNDEV", "reason"] = takenBefore from rfl]
  simp only [routes_without false (by decide) hinc4, map_bind,
    routes_without true (by decide) (hinc6 _), routes_without false (by decide) (hexc4 _ _),
    routes_without true (by decide) (hexc6 _ _ _)]
  have htake (n₁ n₂ n₃ n₄ : ℕ) : (without env (takenRoutes n₁ n₂ n₃ n₄)).take "INTERNAL_IP4_NBNS" =
      (value env "INTERNAL_IP4_NBNS",
        without env ("INTERNAL_IP4_NBNS" :: takenRoutes n₁ n₂ n₃ n₄)) :=
    take_without (hnbns n₁ n₂ n₃ n₄)
  have hused := mem_usedNames
  simp only [takenRoutes] at htake hpac hused
  simp only [htake, take_without (hpac _ _ _ _), without_isEmpty, hused]
  rfl

end Ocvpn.Environment
