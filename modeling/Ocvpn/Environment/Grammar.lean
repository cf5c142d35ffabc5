import Ocvpn.Environment.Read

/-!
# The grammar of the environment

Which environments `parse_environment` accepts for connect and reconnect, and what it makes of
them: `Announced` says in the terms of the variables what a configuration has to be, without an
order and without a map that shrinks.

## Main results

* `parse_eq_of_perm` : neither the order of the entries nor variables that are not recognised matter.
* `parse_environment_grammar` : the parser returns a configuration exactly when the environment
  announces it.
-/

namespace Ocvpn.Environment

open Text

/-! ### What is collected -/

/-- The recognised entries. -/
def fields (input : List (String × String)) : Fields := input.filter fun e => recognized e.1

theorem fields_cons (e : String × String) (input : List (String × String)) :
    fields (e :: input) = if recognized e.1 then e :: fields input else fields input :=
  List.filter_cons

/-- The bytes of the entries. -/
def size (input : List (String × String)) : ℕ :=
  (input.map fun e => e.1.utf8ByteSize + e.2.utf8ByteSize).sum

theorem size_cons (key value : String) (input : List (String × String)) :
    size ((key, value) :: input) = key.utf8ByteSize + value.utf8ByteSize + size input := rfl

/-- The entries are within the limits. -/
def WithinLimits (input : List (String × String)) : Prop :=
  input.length ≤ maxEnvEntries ∧ size input ≤ maxInputBytes ∧
    ∀ e ∈ input, e.1.utf8ByteSize ≤ 256 ∧ e.2.utf8ByteSize ≤ maxValueBytes

instance (input : List (String × String)) : Decidable (WithinLimits input) :=
  inferInstanceAs (Decidable (_ ∧ _ ∧ _))

/-- No recognised variable occurs twice or holds a zero character. -/
def Clean (env : Fields) : Prop :=
  (env.map Prod.fst).Nodup ∧ ∀ e ∈ env, e.2.toList.contains (.ofNat 0) = false

instance (env : Fields) : Decidable (Clean env) := inferInstanceAs (Decidable (_ ∧ _))

theorem Clean.snoc_iff {env : Fields} (h : Clean env) (key value : String) :
    Clean (env ++ [(key, value)]) ↔
      value.toList.contains (.ofNat 0) = false ∧ env.containsKey key = false := by
  have hkey : env.containsKey key = false ↔ key ∉ env.map Prod.fst := by
    simp only [Fields.containsKey, List.any_eq_false, beq_iff_eq, List.mem_map, not_exists, not_and]
  rw [hkey, Clean, List.map_append, List.map_cons, List.map_nil, List.nodup_append]
  constructor
  · rintro ⟨⟨-, -, hnodup⟩, hzero⟩
    exact ⟨hzero (key, value) (by simp), fun hmem => hnodup key hmem key (by simp) rfl⟩
  · rintro ⟨hzero, hnew⟩
    refine ⟨⟨h.1, by simp, ?_⟩, ?_⟩
    · rintro a ha b hb rfl
      rw [List.mem_singleton] at hb
      rw [hb] at ha
      exact hnew ha
    · intro e he
      obtain he | he := List.mem_append.1 he
      · exact h.2 e he
      · rw [List.mem_singleton.1 he]
        exact hzero

theorem Clean.of_append {env env' : Fields} (h : Clean (env ++ env')) : Clean env := by
  refine ⟨?_, fun e he => h.2 e (List.mem_append_left _ he)⟩
  have hnodup := h.1
  rw [List.map_append] at hnodup
  exact (List.nodup_append.1 hnodup).1

/-- Within the limits all that counts is whether the recognised entries are clean. -/
theorem collect_eq (input : List (String × String)) {n bytes : ℕ} {env : Fields}
    (hn : n + input.length ≤ maxEnvEntries) (hbytes : bytes + size input ≤ maxInputBytes)
    (hsizes : ∀ e ∈ input, e.1.utf8ByteSize ≤ 256 ∧ e.2.utf8ByteSize ≤ maxValueBytes)
    (henv : Clean env) :
    collect n bytes env input =
      if Clean (env ++ fields input) then .ok (env ++ fields input)
      else Exec.fail (.invalid "Invalid or duplicate network environment field") := by
  induction input generalizing n bytes env with
  | nil => simp [collect, fields, henv]
  | cons e input ih =>
    obtain ⟨key, value⟩ := e
    have hmax : maxInputBytes < 2 ^ 64 := by decide
    have hsize : key.utf8ByteSize ≤ 256 ∧ value.utf8ByteSize ≤ maxValueBytes :=
      hsizes (key, value) List.mem_cons_self
    rw [size_cons] at hbytes
    rw [List.length_cons] at hn
    have hnext : (n + 1) + input.length ≤ maxEnvEntries := by omega
    have hnextBytes : (bytes + key.utf8ByteSize + value.utf8ByteSize) + size input ≤
        maxInputBytes := by
      omega
    have hrest : ∀ e ∈ input, e.1.utf8ByteSize ≤ 256 ∧ e.2.utf8ByteSize ≤ maxValueBytes :=
      fun e he => hsizes e (List.mem_cons_of_mem _ he)
    simp only [collect]
    rw [if_neg (by omega), if_neg (by simp only [not_or]; omega)]
    by_cases hkey : recognized key
    swap
    · rw [if_neg hkey, ih hnext hnextBytes hrest henv, fields_cons, if_neg hkey]
    have happend : env ++ fields ((key, value) :: input) = (env ++ [(key, value)]) ++ fields input := by
      rw [fields_cons, if_pos hkey, List.append_assoc]
      rfl
    rw [if_pos hkey, happend]
    by_cases hclean : Clean (env ++ [(key, value)])
    · have hnew := henv.snoc_iff key value |>.1 hclean
      rw [if_neg (by rw [hnew.1, hnew.2]; simp), ih hnext hnextBytes hrest hclean]
    · have hbad : value.toList.contains (.ofNat 0) = true ∨ env.containsKey key = true := by
        rw [henv.snoc_iff, not_and_or] at hclean
        simpa using hclean
      rw [if_pos hbad, if_neg fun h => hclean h.of_append]

/-- What is accepted is within the limits. -/
theorem limits_of_collect {input : List (String × String)} {n bytes : ℕ} {env result : Fields}
    (h : collect n bytes env input = .ok result) (hn : n ≤ maxEnvEntries)
    (hbytes : bytes ≤ maxInputBytes) :
    n + input.length ≤ maxEnvEntries ∧ bytes + size input ≤ maxInputBytes ∧
      ∀ e ∈ input, e.1.utf8ByteSize ≤ 256 ∧ e.2.utf8ByteSize ≤ maxValueBytes := by
  induction input generalizing n bytes env with
  | nil => exact ⟨by simpa using hn, by simpa [size] using hbytes, by simp⟩
  | cons e input ih =>
    obtain ⟨key, value⟩ := e
    simp only [collect] at h
    split at h
    · cases h
    split at h
    · cases h
    · rename_i hlimit
      simp only [not_or] at hlimit
      have hrec : ∃ env', collect (n + 1) (bytes + key.utf8ByteSize + value.utf8ByteSize) env'
          input = .ok result := by
        split at h
        · split at h
          · cases h
          · exact ⟨_, h⟩
        · exact ⟨_, h⟩
      obtain ⟨env', henv'⟩ := hrec
      obtain ⟨hcount, htotal, hrest⟩ := ih henv' (by omega) (by omega)
      rw [size_cons, List.length_cons]
      refine ⟨by omega, by omega, fun e he => ?_⟩
      obtain rfl | he := List.mem_cons.1 he
      · exact ⟨by simpa using hlimit.2.2.1, by simpa using hlimit.2.2.2⟩
      · exact hrest e he

/-! ### The parser within the limits -/

/-- What follows on the collected entries. -/
def readInput (resolve : String → Run InterfaceIdentity) (env : Fields) : Run LifecycleInput := do
  let reason ← require (value env) "reason"
  match reasonOf reason with
  | none => Exec.fail (.invalid "Unsupported network lifecycle reason")
  | some reason =>
    if negotiated reason then do
      let config ← readConfig resolve env
      .ok ⟨reason, some config⟩
    else .ok ⟨reason, none⟩

theorem without_nil (env : Fields) : without env [] = env := by
  simp [without]

/-- Within the limits the parser is a function of the clean recognised entries. -/
theorem parse_eq {resolve : String → Run InterfaceIdentity} {input : List (String × String)}
    (h : WithinLimits input) :
    parseEnvironment resolve input =
      if Clean (fields input) then readInput resolve (fields input)
      else Exec.fail (.invalid "Invalid or duplicate network environment field") := by
  obtain ⟨hlength, hsize, hsizes⟩ := h
  have hclean : Clean [] := ⟨by simp, by simp⟩
  have hcollect : collect 0 0 [] input =
      if Clean (fields input) then .ok (fields input)
      else Exec.fail (.invalid "Invalid or duplicate network environment field") :=
    collect_eq input (by omega) (by omega) hsizes hclean
  rw [parseEnvironment, hcollect]
  by_cases h : Clean (fields input)
  · rw [if_pos h, if_pos h, Exec.ok_bind]
    rw [← without_nil (fields input), required_without (by simp), map_bind, without_nil]
    simp only [parseConfig_eq]
    rfl
  · simp only [if_neg h, Exec.fail, bind, Except.bind]

/-! ### Order -/

theorem mem_of_lookup {env : Fields} {key v : String} (h : env.lookup key = some v) :
    (key, v) ∈ env := by
  obtain ⟨before, after, rfl, -⟩ := List.lookup_eq_some_iff.1 h
  simp

/-- Among variables that are all different the one that is there is found. -/
theorem lookup_eq_some_iff {env : Fields} (h : (env.map Prod.fst).Nodup) (key v : String) :
    env.lookup key = some v ↔ (key, v) ∈ env := by
  refine ⟨mem_of_lookup, fun hmem => ?_⟩
  cases hlookup : env.lookup key with
  | none =>
    rw [List.lookup_eq_none_iff] at hlookup
    have := hlookup _ hmem
    simp at this
  | some w =>
    have heq := List.inj_on_of_nodup_map h (mem_of_lookup hlookup) hmem rfl
    rw [Prod.mk.injEq] at heq
    rw [heq.2]

theorem value_of_perm {env env' : Fields} (h : env.Perm env') (hnodup : (env.map Prod.fst).Nodup) :
    value env = value env' := by
  have hnodup' : (env'.map Prod.fst).Nodup := (h.map Prod.fst).nodup_iff.1 hnodup
  funext key
  have hlookup : env.lookup key = env'.lookup key := by
    apply Option.ext
    intro v
    rw [lookup_eq_some_iff hnodup, lookup_eq_some_iff hnodup', h.mem_iff]
  rw [value, value, hlookup]

theorem containsKey_iff {env : Fields} {key : String} :
    env.containsKey key = true ↔ ∃ v, (key, v) ∈ env := by
  simp only [Fields.containsKey, List.any_eq_true, beq_iff_eq]
  constructor
  · rintro ⟨⟨k, v⟩, he, rfl⟩
    exact ⟨v, he⟩
  · rintro ⟨v, he⟩
    exact ⟨(key, v), he, rfl⟩

/-- The parser reads the values of the variables and which of them are there. -/
theorem readInput_congr (resolve : String → Run InterfaceIdentity) {env env' : Fields}
    (hvalue : value env = value env') (hkeys : env.containsKey = env'.containsKey) :
    readInput resolve env = readInput resolve env' := by
  have hall (used : List String) : (env.all fun e => e.1 ∈ used) = env'.all fun e => e.1 ∈ used := by
    have hiff (env : Fields) : (env.all fun e => e.1 ∈ used) = true ↔
        ∀ key, env.containsKey key = true → key ∈ used := by
      simp only [List.all_eq_true, decide_eq_true_eq, containsKey_iff]
      exact ⟨fun h key ⟨v, hv⟩ => h (key, v) hv, fun h e he => h e.1 ⟨e.2, he⟩⟩
    rw [Bool.eq_iff_iff, hiff, hiff, hkeys]
  simp only [readInput, readConfig, hvalue, hkeys, hall]

/-- Neither the order of the entries matters nor the variables that are not recognised. -/
theorem parse_eq_of_perm (resolve : String → Run InterfaceIdentity)
    {input input' : List (String × String)} (h : WithinLimits input) (h' : WithinLimits input')
    (hperm : (fields input).Perm (fields input')) :
    parseEnvironment resolve input = parseEnvironment resolve input' := by
  have hclean : Clean (fields input) ↔ Clean (fields input') := by
    simp only [Clean, (hperm.map Prod.fst).nodup_iff, hperm.mem_iff]
  rw [parse_eq h, parse_eq h']
  by_cases hc : Clean (fields input)
  swap
  · rw [if_neg hc, if_neg fun hc' => hc (hclean.2 hc')]
  rw [if_pos hc, if_pos (hclean.1 hc)]
  apply readInput_congr resolve (value_of_perm hperm hc.1)
  funext key
  rw [Bool.eq_iff_iff, containsKey_iff, containsKey_iff]
  simp only [hperm.mem_iff]

/-! ### Values -/

/-- The variable is there, and its text stands for `a`. -/
def Stands {α : Type} (parse : String → Option α) (text : Option String) (a : α) : Prop :=
  ∃ t, text = some t ∧ parse t = some a

theorem number_eq_ok {α : Type} {parse : String → Option α} {text : String} {a : α} :
    number parse text = .ok a ↔ parse text = some a := by
  rw [number]
  cases parse text <;> simp

theorem mapM_eq_ok {α : Type} {f : String → Run α} {text : Option String} {a : Option α} :
    text.mapM f = .ok a ↔
      (text = none ∧ a = none) ∨ ∃ t b, text = some t ∧ f t = .ok b ∧ a = some b := by
  cases text with
  | none =>
    change Except.ok none = Except.ok a ↔ _
    simp [eq_comm]
  | some t =>
    change (some <$> f t) = Except.ok a ↔ _
    cases hf : f t with
    | error e => simp [Functor.map, Except.map, hf]
    | ok b => simp [Functor.map, Except.map, hf, eq_comm]

theorem require_eq_ok {get : String → Option String} {key v : String} :
    require get key = .ok v ↔ get key = some v := by
  rw [require]
  cases get key <;> simp

/-! ### Prefix lengths -/

/-- The netmask of a prefix length. -/
def netmask (n : ℕ) : BitVec 32 := BitVec.allOnes 32 <<< (32 - n)

theorem maskBits_eq {n : ℕ} (h : n ≤ 32) : maskBits n = .ok (netmask n) := by
  rw [maskBits]
  by_cases hzero : n = 0
  · subst hzero
    rfl
  · rw [if_neg hzero, Exec.sub_eq_ok h, Exec.ok_bind, Exec.shl_eq_ok _ (by omega), netmask]

theorem leadingOnes_le (a : BitVec 32) : leadingOnes a ≤ 32 := by
  have h := (List.takeWhile_sublist (fun i => a.getMsbD i) (l := List.range 32)).length_le
  simpa [leadingOnes] using h

theorem leadingOnes_netmask : ∀ n ≤ 32, leadingOnes (netmask n) = n := by decide

theorem maskPrefix_eq_ok {mask : String} {n : ℕ} :
    maskPrefix mask = .ok n ↔ n ≤ 32 ∧ parseIpv4 mask = some (netmask n) := by
  simp only [maskPrefix, Exec.bind_eq_ok, number_eq_ok, maskBits_eq (leadingOnes_le _),
    Exec.rejectIf_eq_ok, Except.ok.injEq]
  constructor
  · rintro ⟨bits, hbits, _, rfl, _, heq, rfl⟩
    simp only [ne_eq, decide_not, Bool.not_eq_false', decide_eq_true_eq] at heq
    exact ⟨leadingOnes_le bits, by rw [hbits, ← heq]⟩
  · rintro ⟨hle, hbits⟩
    refine ⟨netmask n, hbits, netmask n, ?_, (), ?_, leadingOnes_netmask n hle⟩
    · rw [leadingOnes_netmask n hle]
    · simp

/-- The mask and the length stand for a prefix length: one of them is there, and each that is there
agrees with it. -/
structure PrefixLength (mask len : Option String) (n : ℕ) : Prop where
  le : n ≤ 32
  given : mask.isSome ∨ len.isSome
  mask : ∀ m, mask = some m → parseIpv4 m = some (netmask n)
  len : ∀ l, len = some l → parseUnsigned 8 l = some n

theorem ipv4Prefix_eq_ok {mask len : Option String} {n : ℕ} :
    ipv4Prefix mask len = .ok n ↔ PrefixLength mask len n := by
  simp only [ipv4Prefix, Exec.bind_eq_ok, mapM_eq_ok, number_eq_ok, maskPrefix_eq_ok]
  constructor
  · rintro ⟨fromMask, hmask, fromLen, hlen, h⟩
    cases hor : fromLen.or fromMask with
    | none =>
      rw [hor] at h
      cases h
    | some length =>
      simp only [hor, Exec.bind_eq_ok, Exec.rejectIf_eq_ok, Except.ok.injEq] at h
      obtain ⟨-, hbad, rfl⟩ := h
      simp only [Bool.or_eq_false_iff, decide_eq_false_iff_not, Nat.not_lt, gt_iff_lt] at hbad
      obtain ⟨rfl, rfl⟩ | ⟨m, p, rfl, ⟨-, hm⟩, rfl⟩ := hmask <;>
        obtain ⟨rfl, rfl⟩ | ⟨l, q, rfl, hl, rfl⟩ := hlen
      · cases hor
      · cases hor
        exact ⟨hbad.1, .inr rfl, by simp, by simpa using hl⟩
      · cases hor
        exact ⟨hbad.1, .inl rfl, by simpa using hm, by simp⟩
      · cases hor
        have hpq : p = length := by simpa using hbad.2
        subst hpq
        exact ⟨hbad.1, .inl rfl, by simpa using hm, by simpa using hl⟩
  · intro h
    refine ⟨mask.map fun _ => n, ?_, len.map fun _ => n, ?_, ?_⟩
    · cases hmask : mask with
      | none => exact .inl ⟨rfl, rfl⟩
      | some m => exact .inr ⟨m, n, rfl, ⟨h.le, h.mask m hmask⟩, rfl⟩
    · cases hlen : len with
      | none => exact .inl ⟨rfl, rfl⟩
      | some l => exact .inr ⟨l, n, rfl, h.len l hlen, rfl⟩
    · have hle := h.le
      have hgiven := h.given
      cases mask <;> cases len <;> simp_all [Exec.rejectIf, Exec.bind_eq_ok]

/-! ### Addresses of the interface -/

/-- What the IPv4 variables announce: nothing, an address, or an address in a legacy subnet, whose
network is the address under the mask and the announced one. -/
def Announced4 (v4 mask len net : Option String) (addresses : List IpPrefix)
    (subnet : Option IpPrefix) : Prop :=
  (v4 = none ∧ mask = none ∧ len = none ∧ net = none ∧ addresses = [] ∧ subnet = none) ∨
  ∃ a, Stands parseIpv4 v4 a ∧ addresses = [⟨.v4 a, 32⟩] ∧
    ((mask = none ∧ len = none ∧ net = none ∧ subnet = none) ∨
      ∃ n, PrefixLength mask len n ∧ subnet = some ⟨.v4 (a &&& netmask n), n⟩ ∧
        ∀ t, net = some t → parseIpv4 t = some (a &&& netmask n))

theorem ipv4Address_eq_ok {v4 mask len net : Option String} {addresses : List IpPrefix}
    {subnet : Option IpPrefix} :
    ipv4Address v4 mask len net = .ok (addresses, subnet) ↔
      Announced4 v4 mask len net addresses subnet := by
  have hgiven : (mask.isSome || len.isSome || net.isSome) = false ↔
      mask = none ∧ len = none ∧ net = none := by
    simp [and_assoc]
  cases v4 with
  | none =>
    simp only [ipv4Address, Exec.bind_eq_ok, Exec.rejectIf_eq_ok, hgiven, Except.ok.injEq,
      Prod.mk.injEq, Announced4, Stands]
    constructor
    · rintro ⟨-, ⟨hm, hl, hn⟩, rfl, rfl⟩
      exact .inl ⟨trivial, hm, hl, hn, rfl, rfl⟩
    · rintro (⟨-, hm, hl, hn, rfl, rfl⟩ | ⟨a, ⟨t, ht, -⟩, -⟩)
      · exact ⟨(), ⟨hm, hl, hn⟩, rfl, rfl⟩
      · cases ht
  | some text =>
    have hstands (a : BitVec 32) : Stands parseIpv4 (some text) a ↔ parseIpv4 text = some a := by
      simp [Stands]
    simp only [ipv4Address, Exec.bind_eq_ok, number_eq_ok, Announced4, hstands]
    by_cases hsubnet : (mask.isSome || len.isSome || net.isSome) = true
    swap
    · rw [Bool.not_eq_true] at hsubnet
      obtain ⟨rfl, rfl, rfl⟩ := hgiven.1 hsubnet
      simp only [hsubnet, Bool.false_eq_true, if_false, Except.ok.injEq, Prod.mk.injEq]
      constructor
      · rintro ⟨a, ha, rfl, rfl⟩
        exact .inr ⟨a, ha, rfl, .inl ⟨trivial, trivial, trivial, rfl⟩⟩
      · rintro (⟨h, -⟩ | ⟨a, ha, rfl, ⟨-, -, -, rfl⟩ | ⟨n, hn, -⟩⟩)
        · cases h
        · exact ⟨a, ha, rfl, rfl⟩
        · exact absurd hn.given (by simp)
    · simp only [hsubnet, if_true, Exec.bind_eq_ok, ipv4Prefix_eq_ok, mapM_eq_ok, number_eq_ok,
        Exec.rejectIf_eq_ok, Except.ok.injEq, Prod.mk.injEq]
      have hnot : ¬(mask = none ∧ len = none ∧ net = none) := by
        rw [← hgiven, hsubnet]
        simp
      constructor
      · rintro ⟨a, ha, n, hn, bits, hbits, announced, hannounced, -, hsame, rfl, rfl⟩
        rw [maskBits_eq hn.le, Except.ok.injEq] at hbits
        subst hbits
        refine .inr ⟨a, ha, rfl, .inr ⟨n, hn, rfl, fun t ht => ?_⟩⟩
        obtain ⟨hnone, -⟩ | ⟨u, b, hu, hb, rfl⟩ := hannounced
        · rw [hnone] at ht
          cases ht
        · rw [ht] at hu
          cases hu
          rw [hb]
          simpa using hsame
      · rintro (⟨h, -⟩ | ⟨a, ha, rfl, ⟨hm, hl, hn, -⟩ | ⟨n, hn, rfl, hnet⟩⟩)
        · cases h
        · exact absurd ⟨hm, hl, hn⟩ hnot
        · refine ⟨a, ha, n, hn, netmask n, maskBits_eq hn.le, net.map fun _ => a &&& netmask n, ?_,
            (), ?_, rfl, rfl⟩
          · cases net with
            | none => exact .inl ⟨rfl, rfl⟩
            | some t => exact .inr ⟨t, _, rfl, hnet t rfl, rfl⟩
          · cases net <;> simp

/-- What the IPv6 variables announce: nothing, an address, or an address with its prefix length. -/
def Announced6 (v6 net : Option String) (addresses : List IpPrefix) : Prop :=
  (v6 = none ∧ net = none ∧ addresses = []) ∨
  (∃ a, Stands parseIpv6 v6 a ∧ net = none ∧ addresses = [⟨.v6 a, 128⟩]) ∨
  ∃ ip length a n, net.bind (splitOnce '/') = some (ip, length) ∧ parseIpv6 ip = some a ∧
    parseUnsigned 8 length = some n ∧ (∀ t, v6 = some t → parseIpv6 t = some a) ∧
    addresses = [⟨.v6 a, n⟩]

theorem ipv6Address_eq_ok {v6 net : Option String} {addresses : List IpPrefix} :
    ipv6Address v6 net = .ok addresses ↔ Announced6 v6 net addresses := by
  cases net with
  | none =>
    cases v6 with
    | none => simp [ipv6Address, Announced6, Stands, eq_comm]
    | some t =>
      simp only [ipv6Address, Exec.bind_eq_ok, number_eq_ok, Except.ok.injEq, Announced6, Stands]
      simp [eq_comm]
  | some net =>
    simp only [ipv6Address, Announced6, Option.bind_some]
    cases hsplit : splitOnce '/' net with
    | none => simp
    | some parts =>
      obtain ⟨ip, length⟩ := parts
      simp only [Exec.bind_eq_ok, number_eq_ok, mapM_eq_ok, Exec.rejectIf_eq_ok, Except.ok.injEq]
      constructor
      · rintro ⟨a, ha, announced, hannounced, -, hsame, n, hn, rfl⟩
        refine .inr (.inr ⟨ip, length, a, n, rfl, ha, hn, fun t ht => ?_, rfl⟩)
        obtain ⟨hnone, -⟩ | ⟨u, b, hu, hb, rfl⟩ := hannounced
        · rw [hnone] at ht
          cases ht
        · rw [ht] at hu
          cases hu
          rw [hb]
          simpa using hsame
      · rintro (⟨-, h, -⟩ | ⟨a, -, h, -⟩ | ⟨_, _, a, n, hparts, ha, hn, hsame, rfl⟩)
        · cases h
        · cases h
        · cases hparts
          refine ⟨a, ha, v6.map fun _ => a, ?_, (), ?_, n, hn, rfl⟩
          · cases v6 with
            | none => exact .inl ⟨rfl, rfl⟩
            | some t => exact .inr ⟨t, a, rfl, hsame t rfl, rfl⟩
          · cases v6 <;> simp

/-! ### Lists -/

theorem ipListFrom_eq_ok {values : List String} {i : ℕ} {ips : List IpAddr} :
    ipListFrom i values = .ok ips ↔
      values.map parseIpAddr = ips.map some ∧ (values ≠ [] → i + values.length ≤ maxNetworkItems) := by
  induction values generalizing i ips with
  | nil => cases ips <;> simp [ipListFrom]
  | cons v values ih =>
    simp only [ipListFrom, Exec.bind_eq_ok, Exec.rejectIf_eq_ok, number_eq_ok, ih, Except.ok.injEq,
      decide_eq_false_iff_not]
    constructor
    · rintro ⟨-, hi, ip, hip, ips, ⟨hmap, hlength⟩, rfl⟩
      refine ⟨by rw [List.map_cons, List.map_cons, hip, hmap], fun _ => ?_⟩
      cases values with
      | nil => simp only [List.length_cons, List.length_nil]; omega
      | cons w values =>
        have := hlength (by simp)
        simp only [List.length_cons] at this ⊢
        omega
    · rintro ⟨hmap, hlength⟩
      have hle := hlength (by simp)
      rw [List.length_cons] at hle
      cases ips with
      | nil => simp at hmap
      | cons ip ips =>
        simp only [List.map_cons, List.cons.injEq] at hmap
        exact ⟨(), by omega, ip, hmap.1, ips, ⟨hmap.2, fun _ => by omega⟩, rfl⟩

theorem domainsFrom_eq_ok {values : List String} {i : ℕ} {ds : List String} :
    domainsFrom i values = .ok ds ↔
      ds = values ∧ (∀ d ∈ values, validateDomain d = .ok ()) ∧
        (values ≠ [] → i + values.length ≤ maxNetworkItems) := by
  induction values generalizing i ds with
  | nil => simp [domainsFrom, eq_comm]
  | cons v values ih =>
    simp only [domainsFrom, Exec.bind_eq_ok, Exec.rejectIf_eq_ok, ih, Except.ok.injEq,
      decide_eq_false_iff_not, List.forall_mem_cons]
    constructor
    · rintro ⟨-, hi, ⟨⟩, hv, ds, ⟨rfl, hds, hlength⟩, rfl⟩
      refine ⟨rfl, ⟨hv, hds⟩, fun _ => ?_⟩
      cases ds with
      | nil => simp only [List.length_cons, List.length_nil]; omega
      | cons w values =>
        have := hlength (by simp)
        simp only [List.length_cons] at this ⊢
        omega
    · rintro ⟨rfl, ⟨hv, hds⟩, hlength⟩
      have hle := hlength (by simp)
      rw [List.length_cons] at hle
      exact ⟨(), by omega, (), hv, values, ⟨rfl, hds, fun _ => by omega⟩, rfl⟩

/-! ### Split routes -/

section Routes

variable (get : String → Option String)

/-- The variables of one split route announce `p`. -/
structure RouteAt (base : String) (ipv6 : Bool) (i : ℕ) (p : IpPrefix) : Prop where
  address : Stands parseIpAddr (get (entryName base i "ADDR")) p.address
  family : p.address.isIpv6 = ipv6
  length : if ipv6 then Stands (parseUnsigned 8) (get (entryName base i "MASKLEN")) p.prefixLen
    else PrefixLength (get (entryName base i "MASK")) (get (entryName base i "MASKLEN")) p.prefixLen
  unconstrained : ∀ s ∈ ["PROTOCOL", "SPORT", "DPORT"], ∀ v, get (entryName base i s) = some v →
    parseUnsigned 16 v = some 0
  valid : p.Valid

/-- The variables of one family announce the routes `ps`, no more than are permitted. -/
structure Routes (base : String) (ipv6 : Bool) (ps : List IpPrefix) : Prop where
  count : (get base = none ∧ ps = []) ∨ Stands (parseUnsigned 64) (get base) ps.length
  le : ps.length ≤ maxNetworkItems
  route : ∀ i (h : i < ps.length), RouteAt get base ipv6 i ps[i]

variable {get} {base : String} {ipv6 : Bool}

theorem readUnconstrained_eq_ok {i : ℕ} {suffixes : List String} :
    readUnconstrained get base i suffixes = .ok () ↔
      ∀ s ∈ suffixes, ∀ v, get (entryName base i s) = some v → parseUnsigned 16 v = some 0 := by
  induction suffixes with
  | nil => simp [readUnconstrained]
  | cons s suffixes ih =>
    simp only [readUnconstrained, Exec.bind_eq_ok, mapM_eq_ok, number_eq_ok, Exec.rejectIf_eq_ok, ih,
      List.forall_mem_cons]
    constructor
    · rintro ⟨value, hvalue, -, hzero, hrest⟩
      refine ⟨fun v hv => ?_, hrest⟩
      obtain ⟨hnone, -⟩ | ⟨u, n, hu, hn, rfl⟩ := hvalue
      · rw [hnone] at hv
        cases hv
      · rw [hv] at hu
        cases hu
        rw [hn]
        simpa using hzero
    · rintro ⟨hfirst, hrest⟩
      refine ⟨(get (entryName base i s)).map fun _ => 0, ?_, (), ?_, hrest⟩
      · cases hv : get (entryName base i s) with
        | none => exact .inl ⟨rfl, rfl⟩
        | some v => exact .inr ⟨v, 0, rfl, hfirst v hv, rfl⟩
      · cases get (entryName base i s) <;> simp

theorem readPrefix_eq_ok {i n : ℕ} :
    readPrefix get base ipv6 i = .ok n ↔
      if ipv6 then Stands (parseUnsigned 8) (get (entryName base i "MASKLEN")) n
      else PrefixLength (get (entryName base i "MASK")) (get (entryName base i "MASKLEN")) n := by
  cases ipv6 with
  | true =>
    simp only [readPrefix, if_true, Stands]
    cases get (entryName base i "MASKLEN") with
    | none => simp
    | some len => simp [number_eq_ok]
  | false =>
    simp only [readPrefix, Bool.false_eq_true, if_false]
    exact ipv4Prefix_eq_ok

theorem readRoute_eq_ok {i : ℕ} {p : IpPrefix} :
    readRoute get base ipv6 i = .ok p ↔ RouteAt get base ipv6 i p := by
  simp only [readRoute, Exec.bind_eq_ok, require_eq_ok, number_eq_ok, Exec.rejectIf_eq_ok,
    readPrefix_eq_ok, Except.ok.injEq]
  constructor
  · rintro ⟨v, hv, a, ha, -, hfamily, n, hn, ⟨⟩, hfree, ⟨⟩, hvalid, rfl⟩
    rw [bne_eq_false_iff_eq] at hfamily
    exact ⟨⟨v, hv, ha⟩, hfamily, hn, readUnconstrained_eq_ok.1 hfree, IpPrefix.validate_eq_ok.1 hvalid⟩
  · rintro ⟨⟨v, hv, ha⟩, hfamily, hn, hfree, hvalid⟩
    rw [← bne_eq_false_iff_eq] at hfamily
    exact ⟨v, hv, p.address, ha, (), hfamily, p.prefixLen, hn, (), readUnconstrained_eq_ok.2 hfree,
      (), IpPrefix.validate_eq_ok.2 hvalid, rfl⟩

theorem readRoutesFrom_eq_ok {i left : ℕ} {ps : List IpPrefix} :
    readRoutesFrom get base ipv6 i left = .ok ps ↔
      ps.length = left ∧ ∀ j (h : j < ps.length), RouteAt get base ipv6 (i + j) ps[j] := by
  induction left generalizing i ps with
  | zero =>
    rw [readRoutesFrom, List.length_eq_zero_iff]
    constructor
    · intro h
      cases h
      exact ⟨rfl, fun j hj => absurd hj (Nat.not_lt_zero j)⟩
    · rintro ⟨rfl, -⟩
      rfl
  | succ left ih =>
    simp only [readRoutesFrom, Exec.bind_eq_ok, readRoute_eq_ok, ih, Except.ok.injEq]
    constructor
    · rintro ⟨p, hp, ps, ⟨hlength, hps⟩, rfl⟩
      refine ⟨by rw [List.length_cons, hlength], fun j hj => ?_⟩
      cases j with
      | zero => exact hp
      | succ j =>
        have := hps j (by simpa using hj)
        rwa [Nat.add_right_comm, Nat.add_assoc] at this
    · rintro ⟨hlength, hps⟩
      cases ps with
      | nil => cases hlength
      | cons p ps =>
        refine ⟨p, hps 0 (by simp), ps, ⟨by simpa using hlength, fun j hj => ?_⟩, rfl⟩
        have := hps (j + 1) (by simpa using hj)
        rwa [← Nat.add_assoc, Nat.add_right_comm] at this

theorem readRoutes_eq_ok {ps : List IpPrefix} :
    readRoutes get base ipv6 = .ok ps ↔ Routes get base ipv6 ps := by
  simp only [readRoutes, Exec.bind_eq_ok, mapM_eq_ok, number_eq_ok, Exec.rejectIf_eq_ok,
    readRoutesFrom_eq_ok, decide_eq_false_iff_not, Nat.not_lt, gt_iff_lt]
  constructor
  · rintro ⟨count, hcount, -, hle, hlength, hroutes⟩
    simp only [Nat.zero_add] at hroutes
    obtain ⟨hnone, rfl⟩ | ⟨v, n, hv, hn, rfl⟩ := hcount
    · exact ⟨.inl ⟨hnone, List.length_eq_zero_iff.1 hlength⟩, hlength ▸ hle, hroutes⟩
    · rw [Option.getD_some] at hlength hle
      rw [← hlength] at hn hle
      exact ⟨.inr ⟨v, hv, hn⟩, hle, hroutes⟩
  · rintro ⟨⟨hnone, rfl⟩ | ⟨v, hv, hn⟩, hle, hroutes⟩
    · exact ⟨none, .inl ⟨hnone, rfl⟩, (), hle, rfl, by simp⟩
    · exact ⟨some ps.length, .inr ⟨v, ps.length, hv, hn, rfl⟩, (), hle, rfl, by simpa using hroutes⟩

end Routes

/-! ### The whole environment -/

/-- The routes of the four families. -/
structure Families where
  includes4 : List IpPrefix
  includes6 : List IpPrefix
  excludes4 : List IpPrefix
  excludes6 : List IpPrefix

/-- The variables there are: those with fixed names, and of each family those of its routes. -/
def Families.names (f : Families) : List String :=
  usedNames f.includes4.length f.includes6.length f.excludes4.length f.excludes6.length

/-- The environment announces the configuration `c` with these split routes. -/
structure Announced (resolve : String → Run InterfaceIdentity) (env : Fields) (c : NetworkConfig)
    (f : Families) : Prop where
  interface : ∃ name, value env "TUNDEV" = some name ∧ resolve name = .ok c.interface
  mtu : Stands (parseUnsigned 16) (value env "INTERNAL_IP4_MTU") c.mtu
  transportPeer : Stands parseIpAddr (value env "VPNGATEWAY") c.transportPeer
  addresses : ∃ addresses4 addresses6, c.addresses = addresses4 ++ addresses6 ∧
    Announced4 (value env "INTERNAL_IP4_ADDRESS") (value env "INTERNAL_IP4_NETMASK")
      (value env "INTERNAL_IP4_NETMASKLEN") (value env "INTERNAL_IP4_NETADDR") addresses4
      c.ipv4Subnet ∧
    Announced6 (value env "INTERNAL_IP6_ADDRESS") (value env "INTERNAL_IP6_NETMASK") addresses6
  dnsServers : (pieces isAsciiWhitespace ((value env "INTERNAL_IP4_DNS").getD "") ++
    pieces isAsciiWhitespace ((value env "INTERNAL_IP6_DNS").getD "")).map parseIpAddr =
      c.dnsServers.map some
  searchDomains : c.searchDomains =
    (value env "CISCO_DEF_DOMAIN").elim [] (pieces isAsciiWhitespace)
  splitDns : c.splitDns =
    (value env "CISCO_SPLIT_DNS").elim [] (pieces fun c => isAsciiWhitespace c || c == ',')
  fullTunnelIpv4 : c.fullTunnelIpv4 =
    (c.addresses.any (·.address.isIpv4) && !env.containsKey "CISCO_SPLIT_INC")
  fullTunnelIpv6 : c.fullTunnelIpv6 =
    (c.addresses.any (·.address.isIpv6) && !env.containsKey "CISCO_IPV6_SPLIT_INC")
  includes4 : Routes (value env) "CISCO_SPLIT_INC" false f.includes4
  includes6 : Routes (value env) "CISCO_IPV6_SPLIT_INC" true f.includes6
  excludes4 : Routes (value env) "CISCO_SPLIT_EXC" false f.excludes4
  excludes6 : Routes (value env) "CISCO_IPV6_SPLIT_EXC" true f.excludes6
  splitIncludes : c.splitIncludes = f.includes4 ++ f.includes6
  splitExcludes : c.splitExcludes = f.excludes4 ++ f.excludes6
  supported : value env "INTERNAL_IP4_NBNS" = none ∧ value env "CISCO_PROXY_PAC" = none
  used : ∀ e ∈ env, e.1 ∈ f.names
  valid : c.validate = .ok ()

theorem domains_eq_ok {v : Option String} {comma : Bool} {ds : List String} :
    domains v comma = .ok ds ↔
      ds = v.elim [] (pieces fun c => isAsciiWhitespace c || (comma && c == ',')) ∧
        (∀ d ∈ ds, validateDomain d = .ok ()) ∧ ds.length ≤ maxNetworkItems := by
  cases v with
  | none =>
    simp only [domains, Except.ok.injEq, Option.elim_none]
    constructor
    · rintro rfl
      exact ⟨rfl, by simp, by decide⟩
    · rintro ⟨rfl, -⟩
      rfl
  | some v =>
    simp only [domains, domainsFrom_eq_ok, Option.elim_some, Nat.zero_add]
    constructor
    · rintro ⟨rfl, hds, hlength⟩
      refine ⟨rfl, hds, ?_⟩
      by_cases hnil : pieces (fun c => isAsciiWhitespace c || (comma && c == ',')) v = []
      · rw [hnil]
        decide
      · exact hlength hnil
    · rintro ⟨rfl, hds, hlength⟩
      exact ⟨rfl, hds, fun _ => hlength⟩

theorem ipList_eq_ok {v : Option String} {ips : List IpAddr} :
    ipList v = .ok ips ↔
      (pieces isAsciiWhitespace (v.getD "")).map parseIpAddr = ips.map some ∧
        ips.length ≤ maxNetworkItems := by
  rw [ipList, ipListFrom_eq_ok]
  have hlength (h : (pieces isAsciiWhitespace (v.getD "")).map parseIpAddr = ips.map some) :
      (pieces isAsciiWhitespace (v.getD "")).length = ips.length := by
    simpa using congrArg List.length h
  constructor
  · rintro ⟨hmap, hle⟩
    refine ⟨hmap, ?_⟩
    rw [← hlength hmap]
    by_cases hnil : pieces isAsciiWhitespace (v.getD "") = []
    · rw [hnil]
      decide
    · simpa using hle hnil
  · rintro ⟨hmap, hle⟩
    refine ⟨hmap, fun _ => ?_⟩
    rw [hlength hmap]
    omega

/-- What a checked configuration says of its lists of names. -/
theorem lists_of_validate {c : NetworkConfig} (h : c.validate = .ok ()) :
    c.dnsServers.length ≤ maxNetworkItems ∧ c.searchDomains.length ≤ maxNetworkItems ∧
      c.splitDns.length ≤ maxNetworkItems ∧
        ∀ d ∈ c.searchDomains ++ c.splitDns, validateDomain d = .ok () := by
  have hcounts := (NetworkConfig.valid_of_validate h).counts
  simp only [NetworkConfig.badCounts, Bool.or_eq_false_iff, decide_eq_false_iff_not, gt_iff_lt,
    Nat.not_lt] at hcounts
  simp only [NetworkConfig.validate, Exec.bind_eq_ok] at h
  obtain ⟨-, -, -, -, -, -, -, -, -, -, -, -, ⟨⟩, hdomains, -⟩ := h
  exact ⟨hcounts.1.1.1.1.2, hcounts.1.1.1.2, hcounts.1.1.2, Exec.forM_eq_ok.1 hdomains⟩

/-- The parser returns a configuration exactly when the variables announce it. -/
theorem readConfig_eq_ok {resolve : String → Run InterfaceIdentity} {env : Fields}
    {c : NetworkConfig} :
    readConfig resolve env = .ok c ↔ ∃ f, Announced resolve env c f := by
  simp only [readConfig, Exec.bind_eq_ok, require_eq_ok, number_eq_ok, Prod.exists,
    ipv4Address_eq_ok, ipv6Address_eq_ok, ipList_eq_ok, domains_eq_ok, readRoutes_eq_ok,
    Exec.rejectIf_eq_ok, Except.ok.injEq]
  constructor
  · rintro ⟨name, hname, t, ht, mtu, hmtu, u, hu, peer, hpeer, addresses4, subnet, h4, addresses6, h6,
      dns4, hdns4, dns6, hdns6, search, hsearch, split, hsplit, inc4, hinc4, inc6, hinc6,
      exc4, hexc4, exc6, hexc6, -, hsupported, -, hused, interface, hinterface, ⟨⟩, hvalid, rfl⟩
    simp only [Bool.or_eq_false_iff, Option.isSome_eq_false_iff, Option.isNone_iff_eq_none]
      at hsupported
    simp only [Bool.not_eq_false', List.all_eq_true, decide_eq_true_eq] at hused
    exact ⟨⟨inc4, inc6, exc4, exc6⟩,
      { interface := ⟨name, hname, hinterface⟩
        mtu := ⟨t, ht, hmtu⟩
        transportPeer := ⟨u, hu, hpeer⟩
        addresses := ⟨addresses4, addresses6, rfl, h4, h6⟩
        dnsServers := by rw [List.map_append, hdns4.1, hdns6.1, List.map_append]
        searchDomains := by simpa using hsearch.1
        splitDns := by simpa using hsplit.1
        fullTunnelIpv4 := rfl
        fullTunnelIpv6 := rfl
        includes4 := hinc4
        includes6 := hinc6
        excludes4 := hexc4
        excludes6 := hexc6
        splitIncludes := rfl
        splitExcludes := rfl
        supported := hsupported
        used := hused
        valid := hvalid }⟩
  · rintro ⟨f, h⟩
    obtain ⟨name, hname, hinterface⟩ := h.interface
    obtain ⟨t, ht, hmtu⟩ := h.mtu
    obtain ⟨u, hu, hpeer⟩ := h.transportPeer
    obtain ⟨addresses4, addresses6, haddresses, h4, h6⟩ := h.addresses
    obtain ⟨hdnsCount, hsearchCount, hsplitCount, hdomains⟩ := lists_of_validate h.valid
    have hdns := h.dnsServers
    rw [List.map_append] at hdns
    obtain ⟨dns4, dns6, hsplit, hdns4, hdns6⟩ := List.append_eq_map_iff.1 hdns
    rw [hsplit, List.length_append] at hdnsCount
    have hsearch : c.searchDomains = (value env "CISCO_DEF_DOMAIN").elim []
        (pieces fun c => isAsciiWhitespace c || (false && c == ',')) := by
      simpa using h.searchDomains
    have hsplitDns : c.splitDns = (value env "CISCO_SPLIT_DNS").elim []
        (pieces fun c => isAsciiWhitespace c || (true && c == ',')) := by
      simpa using h.splitDns
    refine ⟨name, hname, t, ht, c.mtu, hmtu, u, hu, c.transportPeer, hpeer, addresses4, c.ipv4Subnet,
      h4, addresses6, h6, dns4, ⟨hdns4.symm, by omega⟩, dns6, ⟨hdns6.symm, by omega⟩,
      c.searchDomains, ⟨hsearch, fun d hd => hdomains d (List.mem_append_left _ hd), hsearchCount⟩,
      c.splitDns, ⟨hsplitDns, fun d hd => hdomains d (List.mem_append_right _ hd), hsplitCount⟩,
      f.includes4, h.includes4, f.includes6, h.includes6, f.excludes4, h.excludes4,
      f.excludes6, h.excludes6, (), ?_, (), ?_, c.interface, hinterface, (), ?_⟩
    · rw [h.supported.1, h.supported.2]
      rfl
    · simp only [Bool.not_eq_false', List.all_eq_true, decide_eq_true_eq]
      exact h.used
    · rw [← haddresses, ← hsplit, ← h.fullTunnelIpv4, ← h.fullTunnelIpv6, ← h.splitIncludes,
        ← h.splitExcludes]
      exact ⟨h.valid, rfl⟩

/-- What the recognised entries make the parser return. -/
def Accepts (resolve : String → Run InterfaceIdentity) (env : Fields) (r : LifecycleInput) : Prop :=
  Clean env ∧ Stands reasonOf (value env "reason") r.reason ∧
    match r.config with
    | none => negotiated r.reason = false
    | some c => negotiated r.reason = true ∧ ∃ f, Announced resolve env c f

theorem readInput_eq_ok {resolve : String → Run InterfaceIdentity} {env : Fields}
    {r : LifecycleInput} (hclean : Clean env) :
    readInput resolve env = .ok r ↔ Accepts resolve env r := by
  simp only [readInput, Exec.bind_eq_ok, require_eq_ok, Accepts, Stands, hclean, true_and]
  constructor
  · rintro ⟨t, ht, h⟩
    cases hreason : reasonOf t with
    | none =>
      rw [hreason] at h
      cases h
    | some reason =>
      simp only [hreason] at h
      by_cases hnegotiated : negotiated reason = true
      · rw [if_pos hnegotiated, Exec.bind_eq_ok] at h
        obtain ⟨c, hc, h⟩ := h
        cases h
        exact ⟨⟨t, ht, hreason⟩, hnegotiated, readConfig_eq_ok.1 hc⟩
      · rw [if_neg hnegotiated] at h
        cases h
        exact ⟨⟨t, ht, hreason⟩, Bool.eq_false_iff.2 hnegotiated⟩
  · rintro ⟨⟨t, ht, hreason⟩, h⟩
    refine ⟨t, ht, ?_⟩
    obtain ⟨reason, config⟩ := r
    simp only [hreason]
    cases config with
    | none =>
      rw [if_neg (by rw [h]; simp)]
    | some c =>
      rw [if_pos h.1, Exec.bind_eq_ok]
      exact ⟨c, readConfig_eq_ok.2 h.2, rfl⟩

/-- Within the limits the parser depends on the recognised entries only, in any order, and returns
exactly what they announce. -/
theorem parse_environment_grammar (resolve : String → Run InterfaceIdentity)
    (input : List (String × String)) (hlimits : WithinLimits input) :
    (∀ input', WithinLimits input' → (fields input).Perm (fields input') →
      parseEnvironment resolve input' = parseEnvironment resolve input) ∧
    ∀ r, parseEnvironment resolve input = .ok r ↔ Accepts resolve (fields input) r := by
  refine ⟨fun input' hlimits' hperm => (parse_eq_of_perm resolve hlimits hlimits' hperm).symm,
    fun r => ?_⟩
  rw [parse_eq hlimits]
  by_cases hclean : Clean (fields input)
  · rw [if_pos hclean, readInput_eq_ok hclean]
  · rw [if_neg hclean]
    exact ⟨fun h => absurd h (Exec.fail_ne_ok _ _), fun h => absurd h.1 hclean⟩

/-- A tunnel with one split route. -/
def sampleInput : List (String × String) :=
  [("HOME", "/root"), ("reason", "connect"), ("TUNDEV", "tun0"), ("INTERNAL_IP4_MTU", "1400"),
    ("VPNGATEWAY", "192.0.2.1"), ("INTERNAL_IP4_ADDRESS", "10.0.0.2"), ("CISCO_SPLIT_INC", "1"),
    ("CISCO_SPLIT_INC_0_ADDR", "10.1.0.0"), ("CISCO_SPLIT_INC_0_MASKLEN", "16")]

/-- An interface for every name. -/
def sampleResolve (name : String) : Run InterfaceIdentity := .ok ⟨name, 7⟩

/-- The configuration of the tunnel. -/
def sampleConfig : NetworkConfig where
  interface := ⟨"tun0", 7⟩
  mtu := 1400
  addresses := [⟨.v4 0x0a000002, 32⟩]
  splitIncludes := [⟨.v4 0x0a010000, 16⟩]
  transportPeer := .v4 0xc0000201

theorem parse_environment_grammar_sample :
    parseEnvironment sampleResolve sampleInput.reverse = parseEnvironment sampleResolve sampleInput ∧
    Accepts sampleResolve (fields sampleInput) ⟨.connect, some sampleConfig⟩ :=
  have h := parse_environment_grammar sampleResolve sampleInput (by decide)
  ⟨h.1 sampleInput.reverse (by decide)
      (List.Perm.filter (fun e : String × String => recognized e.1)
        (List.reverse_perm sampleInput).symm),
    (h.2 ⟨.connect, some sampleConfig⟩).1 (by decide +kernel)⟩

end Ocvpn.Environment
