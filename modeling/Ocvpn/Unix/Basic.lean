import Ocvpn.Journal.Execute

/-!
# The Unix platform

`crates/net/src/unix.rs`: the keys that name an interface by its index, reading and writing a key,
`plan` and `apply_one`.

`Native` is the module `native`, `linux.rs` or `macos.rs`, for a system in which a key is read and
written at once and no write changes another key.  It carries what the source relies on: a write is
found again by `equivalent`, and nothing but the value itself is equivalent to a value that was
read.  `Native.exact` is the instance where a key holds exactly what was written, as on Linux.

## Main results

* `distinct_nodup` : the keys of a plan are pairwise distinct.
-/

namespace Ocvpn.Net.Unix

open Crash

/-! ### The system -/

/-- A key as the module `native` names it. -/
abbrev NativeKey := Key

/-- The native name of a key: its kind without the index of an interface. -/
def bareKey (key : Key) : NativeKey :=
  match splitOnce '@' key.kind.toList with
  | none => key
  | some (kind, _) => { kind := String.ofList kind, name := key.name }

/-- The module `native`. -/
structure Native where
  /-- The values a read can return. -/
  Genuine : NativeKey → Option Value → Prop
  /-- What is read after a value was written. -/
  observed : NativeKey → Option Value → Option Value
  equivalent : Key → Option Value → Option Value → Bool
  implicitAddressRoute : NetworkConfig → Key → Option Value → Option Value → Bool
  /-- How often a new address is read until the deadline. -/
  polls : ℕ
  uuid : UuidCrate
  observed_genuine : ∀ k v, Genuine k (observed k v)
  observed_of_genuine : ∀ k v, Genuine k v → observed k v = v
  observed_some : ∀ k v, observed k (some v) ≠ none
  equivalent_refl : ∀ k v, equivalent k v v = true
  equivalent_observed : ∀ k v, equivalent k (observed (bareKey k) v) v = true
  eq_of_equivalent : ∀ k a v, Genuine (bareKey k) v → equivalent k a v = true → a = v

/-- A system in which a key holds what was written and nothing else is equivalent to it. -/
def Native.exact (implicitAddressRoute : NetworkConfig → Key → Option Value → Option Value → Bool)
    (polls : ℕ) : Native where
  Genuine _ _ := True
  observed _ v := v
  equivalent _ a b := a = b
  implicitAddressRoute
  polls
  uuid := .plain
  observed_genuine _ _ := trivial
  observed_of_genuine _ _ _ := rfl
  observed_some _ _ := by simp
  equivalent_refl _ _ := by simp
  equivalent_observed _ _ := by simp
  eq_of_equivalent _ _ _ _ h := by simpa using h

/-- A change that `native::plan` asks for. -/
structure Planned where
  kind : String
  name : String
  intended : Option Value

/-- A Unix host. -/
structure UnixHost (N : Native) where
  os : NativeKey → Option Value
  genuine : ∀ k, N.Genuine k (os k)
  /-- `if_nametoindex`: `0` when there is no such interface. -/
  ifIndex : String → ℕ
  /-- What `native::plan` asks for. -/
  requests : NetworkConfig → List Planned
  /-- What `native::observe` reports. -/
  observation : NetworkConfig → NetworkObservation

/-! ### Values -/

theorem bind_eq_ok {ε α β : Type} {x : Except ε α} {g : α → Except ε β} {b : β} :
    (x >>= g) = .ok b ↔ ∃ a, x = .ok a ∧ g a = .ok b := by
  cases x with
  | error e => simp [bind, Except.bind]
  | ok a => simp [bind, Except.bind]

theorem exists_bind_eq_ok {ε α β : Type} {x : Except ε α} {g : α → Except ε β} :
    (∃ b, (x >>= g) = .ok b) ↔ ∃ a, x = .ok a ∧ ∃ b, g a = .ok b := by
  simp only [bind_eq_ok]
  rw [exists_comm]
  simp only [exists_and_left]

/-- `text`. -/
def text : Value → Except Error String
  | .str s => .ok s
  | _ => .error (failure "Invalid Unix journal string")

/-- `strings`. -/
def strings : Value → Except Error (List String)
  | .arr items => items.mapM text
  | _ => .error (failure "Invalid Unix journal list")

/-! ### Names -/

/-- `safe_name`. -/
def safeName (name : String) : Except Error Unit :=
  if name.isEmpty || name.utf8ByteSize > 255 ||
      !name.toList.all (fun c => c.isAlphanum || "_.:-".toList.contains c) ||
      startsWith "-" name then
    .error (.invalid "Unsafe native network identifier")
  else .ok ()

/-- `text.parse::<u32>()`. -/
def parseU32 (text : List Char) : Option ℕ :=
  let digits := if text.head? = some '+' then text.tail else text
  if digits.isEmpty || !digits.all Char.isDigit then none
  else
    let value := Nat.ofDigitChars 10 digits 0
    if value < 2 ^ 32 then some value else none

/-- `text.split(sep).next()`. -/
def firstPiece (sep : Char) (text : String) : String :=
  String.ofList ((splitOn sep text.toList).head?.getD [])

/-- The kinds whose keys name an interface. -/
def interfaceBound : List String :=
  ["linux-mtu", "linux-up", "linux-address", "linux-addrgen", "linux-dns", "linux-domains",
    "linux-default-dns", "mac-mtu", "mac-up", "mac-address", "mac-auto-route"]

/-- `interface::resolve`. -/
def resolve (ifIndex : String → ℕ) (name : String) : Except Error InterfaceIdentity :=
  if name.isEmpty || name.utf8ByteSize > 256 ||
      name.toList.any (fun c => isControl c || c == '/' || c == '\\') then
    .error (.invalid "Invalid tunnel interface name")
  else if ifIndex name = 0 then .error (.invalid "Tunnel interface does not exist")
  else .ok { name, index := ifIndex name }

/-- `native_key`, and whether the interface of the key is missing. -/
def nativeKey (ifIndex : String → ℕ) (key : Key) : Except Error (NativeKey × Bool) :=
  match splitOnce '@' key.kind.toList with
  | none => .ok (key, false)
  | some (kind, index) => do
    if !interfaceBound.contains (String.ofList kind) then
      .error (failure "Invalid interface-bound journal kind")
    else match parseU32 index with
      | none => .error (failure "Invalid journal interface index")
      | some index => do
        let name := firstPiece '|' key.name
        safeName name
        let current := ifIndex name
        .ok ({ kind := String.ofList kind, name := key.name }, current = 0 || current ≠ index)

/-- A key is named without the index of its interface. -/
theorem nativeKey_eq {ifIndex : String → ℕ} {key : Key} {n : NativeKey} {missing : Bool}
    (h : nativeKey ifIndex key = .ok (n, missing)) : n = bareKey key := by
  rw [nativeKey] at h
  rw [bareKey]
  cases hsplit : splitOnce '@' key.kind.toList with
  | none =>
    rw [hsplit] at h
    cases h
    rfl
  | some parts =>
    rw [hsplit] at h
    dsimp only at h
    split_ifs at h
    split at h
    · cases h
    · obtain ⟨-, -, h⟩ := bind_eq_ok.1 h
      cases h
      rfl

/-! ### Keys -/

section Host

variable {N : Native}

namespace UnixHost

/-- `vanished`. -/
def vanished (h : UnixHost N) (key : Key) : Except Error Bool := do
  let (key, missing) ← nativeKey h.ifIndex key
  .ok (missing && key.kind ≠ "linux-resolvconf" && key.kind ≠ "mac-store")

/-- `read`. -/
def read (h : UnixHost N) (key : Key) : Except Error (Option Value) := do
  let (key, missing) ← nativeKey h.ifIndex key
  if missing then .ok none else .ok (h.os key)

/-- The host after a native key was written. -/
def put (h : UnixHost N) (key : NativeKey) (value : Option Value) : UnixHost N :=
  { h with
    os := fun k => if k = key then N.observed k value else h.os k
    genuine := fun k => by
      split
      · exact N.observed_genuine k value
      · exact h.genuine k }

/-- `write`. -/
def write (h : UnixHost N) (key : Key) (value : Option Value) : Except Error (UnixHost N) := do
  let (key, missing) ← nativeKey h.ifIndex key
  if missing then .error (failure "Journaled interface no longer exists")
  else .ok (h.put key value)

@[simp] theorem put_ifIndex (h : UnixHost N) (key : NativeKey) (value : Option Value) :
    (h.put key value).ifIndex = h.ifIndex := rfl

theorem put_os (h : UnixHost N) (key k : NativeKey) (value : Option Value) :
    (h.put key value).os k = if k = key then N.observed k value else h.os k := rfl

end UnixHost

/-! ### Planning -/

/-- The key of a planned change. -/
def keyOf (ifIndex : String → ℕ) (kind name : String) : Except Error Key :=
  if interfaceBound.contains kind then do
    let identity ← resolve ifIndex (firstPiece '|' name)
    .ok { kind := kind ++ "@" ++ toString identity.index, name }
  else .ok { kind, name }

/-- `mutation`. -/
def mutation (h : UnixHost N) (item : Planned) : Except Error Mutation := do
  let key ← keyOf h.ifIndex item.kind item.name
  let before ← h.read key
  .ok { key, before, intended := item.intended, applied := none }

/-- The mutations of a plan, each with the value of its key. -/
def mutations : List Planned → HostProg (UnixHost N) (List Mutation)
  | [] => pure []
  | item :: items => do
    let m ← Io.query fun h => mutation h item
    let ms ← mutations items
    pure (m :: ms)

/-- The loop of `plan`: a change planned twice is kept once. -/
def distinct (plan : List Mutation) : List Mutation → Except Error (List Mutation)
  | [] => .ok plan
  | item :: items => match plan.find? (·.key = item.key) with
    | some previous =>
      if previous.before ≠ item.before ∨ previous.intended ≠ item.intended then
        .error (failure "Conflicting negotiated network mutations")
      else distinct plan items
    | none => distinct (plan ++ [item]) items

/-- Keys are planned once. -/
theorem distinct_nodup {plan items ms : List Mutation} (h : distinct plan items = .ok ms)
    (hplan : (plan.map (·.key)).Nodup) : (ms.map (·.key)).Nodup := by
  induction items generalizing plan with
  | nil =>
    cases h
    exact hplan
  | cons item items ih =>
    unfold distinct at h
    cases hfind : plan.find? (·.key = item.key) with
    | some previous =>
      rw [hfind] at h
      dsimp only at h
      split at h
      · cases h
      · exact ih h hplan
    | none =>
      rw [hfind] at h
      refine ih h ?_
      rw [List.map_append, List.nodup_append]
      refine ⟨hplan, by simp, fun key hkey key' hkey' => ?_⟩
      obtain ⟨m, hm, rfl⟩ := List.mem_map.1 hkey
      obtain rfl : key' = item.key := by simpa using hkey'
      simpa using List.find?_eq_none.1 hfind m hm

/-- `plan`. -/
def plan (config : NetworkConfig) (_transaction : TransactionId) :
    HostProg (UnixHost N) (List Mutation) := do
  ofRun config.validate
  if config.transportPeer.isUnicastLinkLocal then
    Io.fail (failure "Link-local IPv6 transport peers require an explicit native scope")
  else do
    Io.ofExcept (safeName config.interface.name)
    let identity ← Io.query fun h : UnixHost N => resolve h.ifIndex config.interface.name
    if identity ≠ config.interface then Io.fail (failure "Tunnel interface identity changed")
    else do
      Io.query fun _ => .ok ()
      let items ← Io.query fun h : UnixHost N => .ok (h.requests config)
      let items ← mutations items
      Io.ofExcept (distinct [] items)

/-! ### Applying -/

/-- An address whose duplicate detection has not ended. -/
def pendingAddress (item : Mutation) (actual : Option Value) : Bool :=
  hasInfix "-address@" item.key.kind &&
    actual.any fun value => value.get "unusable" = some (.bool true)

def notProduced : Error := failure "Native network mutation did not produce the journaled state"

/-- The loop of `apply_one`. -/
def await (item : Mutation) : ℕ → HostProg (UnixHost N) (Option Value)
  | 0 => do
    let actual ← Io.query fun h : UnixHost N => h.read item.key
    if N.equivalent item.key actual item.intended then pure actual else Io.fail notProduced
  | polls + 1 => do
    let actual ← Io.query fun h : UnixHost N => h.read item.key
    if N.equivalent item.key actual item.intended then pure actual
    else if pendingAddress item actual then await item polls
    else Io.fail notProduced

/-- `apply_one`. -/
def applyOne (config : NetworkConfig) (item : Mutation) :
    HostProg (UnixHost N) (Option Value) := do
  let current ← Io.query fun h : UnixHost N => h.read item.key
  if current ≠ item.before ∧ !N.equivalent item.key current item.intended ∧
      !N.implicitAddressRoute config item.key current item.before then
    Io.fail (.new .conflict "Network state changed during transaction application")
  else if N.equivalent item.key current item.intended then await item N.polls
  else do
    Io.act fun h : UnixHost N => h.write item.key item.intended
    await item N.polls

/-- `observe`. -/
def observe (config : NetworkConfig) : HostProg (UnixHost N) NetworkObservation := do
  ofRun config.validate
  let identity ← Io.query fun h : UnixHost N => resolve h.ifIndex config.interface.name
  if identity ≠ config.interface then Io.fail (failure "Tunnel interface identity changed")
  else Io.query fun h => .ok (h.observation config)

end Host

/-- The module `platform` on Unix. -/
def platform (N : Native) (length : Journal → ℕ) : Platform (UnixHost N) where
  vanished h key := h.vanished key
  read h key := h.read key
  restore key before _ h := h.write key before
  equivalent := N.equivalent
  plan := plan
  adapter := .unix { resolve := fun h => resolve h.ifIndex, applyOne }
  observe := observe
  length
  uuid := N.uuid

end Ocvpn.Net.Unix
