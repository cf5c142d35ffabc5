import Ocvpn.Environment.Text
import Ocvpn.Model.Profile
import Ocvpn.Slots.Basic
import Ocvpn.Unix.Basic

/-!
# The routes of a prefix

A key `linux-route` of `crates/net/src/unix/linux.rs`: reading it, planning a route for it with
`add_route` and writing it, one command of iproute2 after the other.

A `Row` is what iproute2 shows for a route together with the form in which the journal keeps it, so
that a list of rows is one that `route_state` accepts.  `Iproute` is what belongs to iproute2 and to
`serde_json`; a command that it refuses is one that is cut.
-/

namespace Ocvpn.Net.Linux

open Crash Unix

/-! ### Names -/

/-- `prefix.contains(':')`. -/
def hasColon (pre : String) : Bool := pre.toList.contains ':'

/-- `family`. -/
def family (pre : String) : String := if hasColon pre then "-6" else "-4"

/-- `validate_prefix`. -/
def validatePrefix (value : String) : Run Unit :=
  match Net.splitOnce '/' value.toList with
  | none => Exec.fail (failure "Invalid native prefix")
  | some (address, length) =>
    match Text.parseIpAddr (String.ofList address), Text.parseUnsigned 8 (String.ofList length) with
    | none, _ => Exec.fail (failure "Invalid native address")
    | some _, none => Exec.fail (failure "Invalid native prefix")
    | some address, some length => IpPrefix.validate { address, prefixLen := length }

/-- `route_parts`. -/
def routeParts (name : String) : Run (String × String) :=
  match Net.splitOnce '|' name.toList with
  | none => Exec.fail (failure "Invalid route journal key")
  | some (table, pre) => do
    Exec.rejectIf (!(["main", "local"].contains (String.ofList table)))
      (failure "Unsupported route table")
    validatePrefix (String.ofList pre)
    pure (String.ofList table, String.ofList pre)

/-- The name of the key. -/
def routeName (table pre : String) : String := table ++ "|" ++ pre

/-! ### Reading -/

/-- The attributes that the journal keeps. -/
def keptAttributes : List String :=
  ["dev", "gateway", "prefsrc", "protocol", "scope", "type", "metric", "pref"]

/-- The loop of `canonical_route`. -/
def canonicalFields (out : List (String × Value)) :
    List (String × Value) → Except Error (List (String × Value))
  | [] => .ok out
  | (key, value) :: source =>
    if key = "dst" ∨ key = "table" ∨ (key = "flags" ∧ value = .arr []) then
      canonicalFields out source
    else if keptAttributes.contains key then
      canonicalFields (Value.setField key value out) source
    else .error (failure "Route attributes cannot be safely journaled by this adapter")

/-- `entry(name).or_insert(value)`. -/
def orInsert (name : String) (value : Value) (fields : List (String × Value)) :
    List (String × Value) :=
  if (fields.lookup name).isSome then fields else Value.setField name value fields

/-- The metric of a route without one. -/
def defaultMetric (pre : String) : ℕ := if hasColon pre then 1024 else 0

/-- `canonical_route`. -/
def canonicalRoute (ifIndex : String → ℕ) (pre : String) : Value → Except Error Value
  | .obj source => do
    let out ← canonicalFields [] source
    let out := orInsert "type" (.str "unicast") out
    let out := orInsert "protocol" (.str "boot") out
    let out := orInsert "scope" (.str "global") out
    let out := orInsert "metric" (.num (defaultMetric pre)) out
    let out := if hasColon pre then orInsert "pref" (.str "medium") out else out
    match (source.lookup "dev").bind Value.asStr with
    | none => .ok (.obj out)
    | some device => do
      let identity ← resolve ifIndex device
      .ok (.obj (Value.setField "interface_index" (.num identity.index) out))
  | _ => .error (failure "Invalid route state")

/-- A route as iproute2 shows it, and as the journal keeps it. -/
structure Row (ifIndex : String → ℕ) (pre : String) where
  shown : Value
  route : Value
  canonical : canonicalRoute ifIndex pre shown = .ok route

/-- The programs and libraries that are not part of the repository. -/
structure Iproute (pre : String) where
  /-- `if_nametoindex`. -/
  ifIndex : String → ℕ
  /-- `Value::to_string`. -/
  toText : Value → String
  /-- The row of the route that the arguments of a command describe. -/
  row : List String → Row ifIndex pre
  /-- Where a new route is listed. -/
  add : Row ifIndex pre → List (Row ifIndex pre) → List (Row ifIndex pre)
  add_perm : ∀ row rows, (add row rows).Perm (row :: rows)

/-- The slot of a route. -/
def metric (route : Value) : Option Value := route.get "metric"

variable {pre : String} (S : Iproute pre) (table : String)

/-- The routes of the prefix in one table, as iproute2 lists them. -/
abbrev Rows (S : Iproute pre) := List (Row S.ifIndex pre)

/-- `values.sort_by_cached_key(Value::to_string)`. -/
def sortByText (values : List Value) : List Value :=
  values.insertionSort fun a b => S.toText a ≤ S.toText b

/-- `route_state`, when iproute2 lists the given rows. -/
def routeState (rows : Rows S) : Except Error (List Value) := do
  let values ← rows.mapM fun row => canonicalRoute S.ifIndex pre row.shown
  .ok (sortByText S values)

/-! ### Planning -/

/-- `intended_route`. -/
def intendedRoute (ifIndex : String → ℕ) (pre device : String) (gateway : Option String)
    (metric : Option ℕ) : Except Error Value := do
  let value := Value.object
    [("type", .str "unicast"), ("protocol", .str "boot"),
      ("scope", .str (if gateway.isSome ∨ hasColon pre then "global" else "link")),
      ("dev", .str device), ("metric", .num (metric.getD (defaultMetric pre)))]
  let identity ← resolve ifIndex device
  let value := value.set "interface_index" (.num identity.index)
  let value := match gateway with
    | some gateway => value.set "gateway" (.str gateway)
    | none => value
  .ok (if hasColon pre then value.set "pref" (.str "medium") else value)

/-- `Ipv4Addr::to_string`. -/
def ipv4Text (a : BitVec 32) : String :=
  let octet := fun shift : ℕ => ((a >>> shift) &&& 255).toNat.repr
  octet 24 ++ "." ++ octet 16 ++ "." ++ octet 8 ++ "." ++ octet 0

/-- The route that comes with an address of the tunnel. -/
def connectedRoute (ifIndex : String → ℕ) (pre device : String) (address : IpAddr) :
    Except Error Value := do
  let connected ← intendedRoute ifIndex pre device none (some (if address.isIpv6 then 256 else 0))
  let connected := connected.set "protocol" (.str "kernel")
  .ok (match address with
    | .v4 a => connected.set "prefsrc" (.str (ipv4Text a))
    | .v6 _ => connected)

/-- The local route that comes with an address of the tunnel. -/
def localRoute (ifIndex : String → ℕ) (pre device : String) (address : IpAddr) :
    Except Error Value := do
  let route ← intendedRoute ifIndex pre device none (some 0)
  let route := route.set "protocol" (.str "kernel")
  let route := route.set "type" (.str "local")
  let route := route.set "scope" (.str (if address.isIpv6 then "global" else "host"))
  .ok (match address with
    | .v4 a => route.set "prefsrc" (.str (ipv4Text a))
    | .v6 _ => route)

/-- A route into the tunnel. -/
def tunnelRoute (ifIndex : String → ℕ) (pre device : String) : Except Error Value :=
  intendedRoute ifIndex pre device none none

/-- The routes that `plan` gives to `add_route`. -/
inductive PlannedRoute (ifIndex : String → ℕ) (pre device : String) : Value → Prop
  | ofConnected {address v} (h : connectedRoute ifIndex pre device address = .ok v) :
    PlannedRoute ifIndex pre device v
  | ofLocal {address v} (h : localRoute ifIndex pre device address = .ok v) :
    PlannedRoute ifIndex pre device v
  | ofTunnel {v} (h : tunnelRoute ifIndex pre device = .ok v) : PlannedRoute ifIndex pre device v

/-- The change of a planned list of routes. -/
def slotted (route : Value) (values : List Value) : List Value :=
  sortByText S (Slots.assign metric route values)

/-- The key of the routes. -/
def routeKey (table pre : String) : Key := { kind := "linux-route", name := routeName table pre }

/-- `add_route`, when iproute2 lists the given rows. -/
def addRoute (rows : Rows S) (plan : List Mutation) (route : Value) : Run (List Mutation) :=
  match plan.findIdx? (·.key = routeKey table pre) with
  | some i =>
    match (plan[i]?.bind (·.intended)).bind Value.asArray with
    | none => Exec.fail (failure "Invalid planned route state")
    | some values =>
      pure (plan.modify i fun m => { m with intended := some (.arr (slotted S route values)) })
  | none => do
    let _ ← routeParts (routeName table pre)
    match routeState S rows with
    | .error e => Exec.fail e
    | .ok state =>
      pure (plan ++ [{ key := routeKey table pre, before := some (.arr state),
                       intended := some (.arr (slotted S route state)), applied := none }])

/-! ### Writing -/

/-- The attributes of a command, and their names there. -/
def routeAttributes : List (String × String) :=
  [("gateway", "via"), ("dev", "dev"), ("prefsrc", "src"), ("protocol", "proto"),
    ("scope", "scope"), ("metric", "metric"), ("pref", "pref")]

/-- The text of an attribute: a string, or a number as `as_u64` takes it. -/
def attributeText : Value → Option String
  | .str s => some s
  | .num n => if 0 ≤ n ∧ n < 2 ^ 64 then some n.toNat.repr else none
  | _ => none

/-- An attribute in a command. -/
def routeArgument (value : Value) : Except Error String :=
  match attributeText value with
  | none => .error (failure "Invalid route journal attribute")
  | some text =>
    if startsWith "-" text ∨ text.toList.any isWhitespace then
      .error (failure "Invalid route journal argument")
    else .ok text

/-- The interface of the route still has its index. -/
def checkIdentity (route : Value) : Except Error Unit :=
  match (route.get "dev").bind Value.asStr with
  | none => .ok ()
  | some device => do
    let identity ← resolve S.ifIndex device
    if route.get "interface_index" = some (.num identity.index) then .ok ()
    else .error (failure "Journaled route interface identity changed")

/-- `text(&route["type"])`. -/
def routeType (route : Value) : Except Error String :=
  match route.get "type" with
  | some type => text type
  | none => .error (failure "Invalid Unix journal string")

/-- One round of the loop of `route_args`. -/
def attributeArgs (route : Value) (names : String × String) : Except Error (List String) :=
  match route.get names.1 with
  | none => .ok []
  | some value => (routeArgument value).map fun value => [names.2, value]

/-- `route_args`. -/
def routeArgs (action : String) (route : Value) : Except Error (List String) := do
  checkIdentity S route
  let type ← routeType route
  let attributes ← routeAttributes.mapM (attributeArgs route)
  .ok ([family pre, "route", action, type, pre, "table", table] ++ attributes.flatten)

/-- `ip route replace`. -/
def ipReplace (args : List String) (rows : Rows S) : Rows S :=
  (Slots.substitute (metric ∘ Row.route) (S.row args) rows).getD (S.add (S.row args) rows)

/-- `ip route del`. -/
def ipDel (args : List String) (rows : Rows S) : Rows S :=
  rows.eraseP fun row => row.route = (S.row args).route

/-- The first loop of `write`. -/
def writeRoutes (current : List Value) (target : List Value) : Io (Rows S) Error Unit :=
  Io.forEach target fun route =>
    if current.contains route then pure ()
    else do
      let args ← Io.ofExcept (routeArgs S table "replace" route)
      Io.act fun rows => .ok (ipReplace S args rows)

/-- The second loop of `write`. -/
def removeRoutes (target : List Value) (current : List Value) : Io (Rows S) Error Unit :=
  Io.forEach current fun route =>
    if target.any fun v => metric v = metric route then pure ()
    else do
      let args ← Io.ofExcept (routeArgs S table "del" route)
      Io.act fun rows => .ok (ipDel S args rows)

/-- `write`, of routes. -/
def write (value : Option Value) : Io (Rows S) Error Unit := do
  let _ ← ofRun (routeParts (routeName table pre))
  let current ← Io.query (routeState S)
  match value.bind Value.asArray with
  | none => Io.fail (failure "Route journal requires an array")
  | some target => do
    writeRoutes S table current target
    removeRoutes S table target current

/-! ### Arguments -/

/-- What `route_args` accepts. -/
structure Acceptable (route : Value) : Prop where
  identity : ∀ device, (route.get "dev").bind Value.asStr = some device →
    ∃ i, resolve S.ifIndex device = .ok i ∧ route.get "interface_index" = some (.num i.index)
  type : ∃ t, route.get "type" = some (.str t)
  attributes : ∀ names ∈ routeAttributes, ∀ value, route.get names.1 = some value →
    ∃ t, attributeText value = some t ∧ startsWith "-" t = false ∧ t.toList.any isWhitespace = false

theorem exists_mapM_eq_ok {ε α β : Type} {l : List α} {g : α → Except ε β} :
    (∃ bs, l.mapM g = .ok bs) ↔ ∀ a ∈ l, ∃ b, g a = .ok b := by
  induction l with
  | nil => simp [pure, Except.pure]
  | cons a l ih =>
    rw [List.mapM_cons, List.forall_mem_cons, exists_bind_eq_ok, ← ih]
    constructor
    · rintro ⟨b, hb, h⟩
      obtain ⟨bs, hbs, -⟩ := exists_bind_eq_ok.1 h
      exact ⟨⟨b, hb⟩, bs, hbs⟩
    · rintro ⟨⟨b, hb⟩, bs, hbs⟩
      exact ⟨b, hb, exists_bind_eq_ok.2 ⟨bs, hbs, b :: bs, rfl⟩⟩

theorem routeArgument_ok {value : Value} : (∃ a, routeArgument value = .ok a) ↔
    ∃ t, attributeText value = some t ∧ startsWith "-" t = false ∧
      t.toList.any isWhitespace = false := by
  rw [routeArgument]
  cases attributeText value with
  | none => simp
  | some t =>
    dsimp only
    by_cases h : startsWith "-" t = true ∨ t.toList.any isWhitespace = true
    · rw [if_pos h]
      refine iff_of_false (fun ⟨_, h⟩ => by cases h) ?_
      rintro ⟨t', ht, hdash, hspace⟩
      cases ht
      rw [hdash, hspace] at h
      simp at h
    · rw [if_neg h]
      rw [not_or, Bool.not_eq_true, Bool.not_eq_true] at h
      exact iff_of_true ⟨t, rfl⟩ ⟨t, rfl, h⟩

theorem checkIdentity_ok {route : Value} : checkIdentity S route = .ok () ↔
    ∀ device, (route.get "dev").bind Value.asStr = some device →
      ∃ i, resolve S.ifIndex device = .ok i ∧
        route.get "interface_index" = some (.num i.index) := by
  rw [checkIdentity]
  cases (route.get "dev").bind Value.asStr with
  | none => simp
  | some device =>
    dsimp only
    cases hresolve : resolve S.ifIndex device with
    | error e =>
      refine iff_of_false nofun fun h => ?_
      obtain ⟨i, hi, -⟩ := h device rfl
      cases hresolve.symm.trans hi
    | ok i =>
      show (if _ then _ else _) = _ ↔ _
      split_ifs with h
      · refine iff_of_true rfl fun device hdevice => ?_
        cases hdevice
        exact ⟨i, hresolve, h⟩
      · refine iff_of_false nofun fun hall => ?_
        obtain ⟨i', hi', hindex⟩ := hall device rfl
        cases hresolve.symm.trans hi'
        exact h hindex

theorem routeType_ok {route : Value} : (∃ t, routeType route = .ok t) ↔
    ∃ t, route.get "type" = some (.str t) := by
  rw [routeType]
  cases route.get "type" with
  | none => simp
  | some type => cases type <;> simp [text]

theorem attributeArgs_ok {route : Value} {names : String × String} :
    (∃ args, attributeArgs route names = .ok args) ↔ ∀ value, route.get names.1 = some value →
      ∃ a, routeArgument value = .ok a := by
  rw [attributeArgs]
  cases route.get names.1 with
  | none => simp
  | some value =>
    simp only [Option.some.injEq, forall_eq']
    cases routeArgument value with
    | error e => simp [Except.map]
    | ok a => simp [Except.map]

/-- Whether the arguments of a command can be written does not depend on the command. -/
theorem routeArgs_ok {action : String} {route : Value} :
    (∃ args, routeArgs S table action route = .ok args) ↔ Acceptable S route := by
  have hattributes : (∃ bs, routeAttributes.mapM (attributeArgs route) = .ok bs) ↔
      ∀ names ∈ routeAttributes, ∀ value, route.get names.1 = some value →
        ∃ t, attributeText value = some t ∧ startsWith "-" t = false ∧
          t.toList.any isWhitespace = false := by
    simp only [exists_mapM_eq_ok, attributeArgs_ok, routeArgument_ok]
  simp only [routeArgs, exists_bind_eq_ok]
  constructor
  · rintro ⟨⟨⟩, hidentity, t, htype, bs, hbs, -⟩
    exact ⟨(checkIdentity_ok S).1 hidentity, routeType_ok.1 ⟨t, htype⟩,
      hattributes.1 ⟨bs, hbs⟩⟩
  · rintro ⟨hidentity, htype, hrest⟩
    obtain ⟨t, ht⟩ := routeType_ok.2 htype
    obtain ⟨bs, hbs⟩ := hattributes.2 hrest
    exact ⟨(), (checkIdentity_ok S).2 hidentity, t, ht, bs, hbs, _, rfl⟩

/-! ### Planned routes -/

theorem isWhitespace_eq_false {c : Char} (h : c.isAlphanum ∨ c ∈ "_.:-".toList) :
    isWhitespace c = false := by
  obtain h | h := h
  · simp only [Char.isAlphanum, Char.isAlpha, Char.isUpper, Char.isLower, Char.isDigit,
      Bool.or_eq_true, Bool.and_eq_true, decide_eq_true_eq, UInt32.le_iff_toNat_le] at h
    have hn : 48 ≤ c.toNat ∧ c.toNat ≤ 122 := by
      have hbounds : 'A'.val.toNat = 65 ∧ 'Z'.val.toNat = 90 ∧ 'a'.val.toNat = 97 ∧
          'z'.val.toNat = 122 ∧ '0'.val.toNat = 48 ∧ '9'.val.toNat = 57 := by decide
      rw [Char.toNat]
      omega
    simp only [isWhitespace, Bool.or_eq_false_iff, Bool.and_eq_false_iff,
      decide_eq_false_iff_not, List.contains_eq_mem, List.mem_cons, List.not_mem_nil, or_false]
    omega
  · have hall : ∀ c ∈ "_.:-".toList, (!isWhitespace c) = true :=
      List.all_eq_true.1 (by decide +kernel)
    simpa using hall c h

/-- A text that is safe in a command. -/
abbrev SafeText (t : String) : Prop := startsWith "-" t = false ∧ t.toList.any isWhitespace = false

theorem safeText_of_safeName {name : String} (h : safeName name = .ok ()) : SafeText name := by
  rw [safeName] at h
  split_ifs at h with hbad
  simp only [Bool.not_eq_true, Bool.or_eq_false_iff, Bool.not_eq_eq_eq_not, Bool.not_false] at hbad
  refine ⟨hbad.2, List.any_eq_false.2 fun c hc => ?_⟩
  have hchar := List.all_eq_true.1 hbad.1.2 c hc
  rw [Bool.or_eq_true, List.contains_iff_mem] at hchar
  rw [isWhitespace_eq_false hchar]
  simp

/-- Digits and points are safe. -/
theorem safeText_of_digits {t : String} (hchars : ∀ c ∈ t.toList, c.isDigit ∨ c = '.') : SafeText t := by
  constructor
  · rw [startsWith, Bool.eq_false_iff]
    intro hdash
    obtain ⟨rest, hrest⟩ := List.isPrefixOf_iff_prefix.1 hdash
    have hmem : '-' ∈ t.toList := by
      rw [← hrest]
      exact List.mem_append_left _ (by decide)
    exact absurd (hchars _ hmem) (by decide)
  · refine List.any_eq_false.2 fun c hc => ?_
    obtain h | rfl := hchars c hc
    · rw [isWhitespace_eq_false (.inl (by simp [Char.isAlphanum, h]))]
      simp
    · decide

/-- A metric is safe. -/
theorem safeText_repr (n : ℕ) : SafeText n.repr := by
  refine safeText_of_digits fun c hc => .inl ?_
  rw [Nat.toList_repr] at hc
  exact Nat.isDigit_of_mem_toDigits (by decide) (by decide) hc

theorem safeText_ipv4Text (a : BitVec 32) : SafeText (ipv4Text a) := by
  refine safeText_of_digits ?_
  have hchars : ∀ c ∈ (ipv4Text a).toList, c.isDigit ∨ c = '.' := by
    intro c hc
    have hdot : ".".toList = ['.'] := by decide
    simp only [ipv4Text, String.toList_append, hdot, Nat.toList_repr, List.mem_append,
      List.mem_singleton] at hc
    have hdigit : ∀ n, c ∈ Nat.toDigits 10 n → c.isDigit := fun n =>
      Nat.isDigit_of_mem_toDigits (by decide) (by decide)
    obtain (((((h | h) | h) | h) | h) | h) | h := hc
    · exact .inl (hdigit _ h)
    · exact .inr h
    · exact .inl (hdigit _ h)
    · exact .inr h
    · exact .inl (hdigit _ h)
    · exact .inr h
    · exact .inl (hdigit _ h)
  exact hchars

/-- A route through an interface, whose attributes are safe in a command. -/
structure Ready (ifIndex : String → ℕ) (device : String) (v : Value) : Prop where
  object : ∃ fields, v = .obj fields
  dev : v.get "dev" = some (.str device)
  identity : ∃ i, resolve ifIndex device = .ok i ∧ v.get "interface_index" = some (.num i.index)
  type : ∃ t, v.get "type" = some (.str t)
  attributes : ∀ names ∈ routeAttributes, ∀ value, v.get names.1 = some value →
    ∃ t, attributeText value = some t ∧ SafeText t

theorem get_obj_setField (name k : String) (x : Value) (fields : List (String × Value)) :
    (Value.obj (Value.setField name x fields)).get k =
      if k = name then some x else (Value.obj fields).get k :=
  Value.lookup_setField name k x fields

namespace Ready

variable {ifIndex : String → ℕ} {device : String} {v : Value}

theorem set (h : Ready ifIndex device v) {name t : String} (ht : SafeText t)
    (hname : name ∉ ["dev", "interface_index"]) : Ready ifIndex device (v.set name (.str t)) := by
  obtain ⟨⟨fields, rfl⟩, hdev, ⟨i, hi, hindex⟩, ⟨kind, hkind⟩, hattributes⟩ := h
  simp only [List.mem_cons, List.not_mem_nil, or_false, not_or] at hname
  refine ⟨⟨_, rfl⟩, ?_, ⟨i, hi, ?_⟩, ?_, ?_⟩
  · rw [Value.set, get_obj_setField, if_neg (Ne.symm hname.1), hdev]
  · rw [Value.set, get_obj_setField, if_neg (Ne.symm hname.2), hindex]
  · rw [Value.set, get_obj_setField]
    split_ifs
    · exact ⟨t, rfl⟩
    · exact ⟨kind, hkind⟩
  · intro names hnames value hvalue
    rw [Value.set, get_obj_setField] at hvalue
    split_ifs at hvalue
    · cases hvalue
      exact ⟨t, rfl, ht⟩
    · exact hattributes names hnames value hvalue

theorem acceptable (h : Ready S.ifIndex device v) : Acceptable S v := by
  refine ⟨fun device' hdevice => ?_, h.type, h.attributes⟩
  rw [h.dev] at hdevice
  cases hdevice
  exact h.identity

end Ready

theorem intendedRoute_ready {ifIndex : String → ℕ} {device : String} {metric : Option ℕ}
    {v : Value} (hdevice : SafeText device) (hmetric : ∀ n, metric = some n → n < 2 ^ 64)
    (h : intendedRoute ifIndex pre device none metric = .ok v) : Ready ifIndex device v := by
  have hbase : ∀ (scope : String) (n : ℕ) (i : InterfaceIdentity), SafeText scope → n < 2 ^ 64 →
      resolve ifIndex device = .ok i →
      Ready ifIndex device ((Value.object
        [("type", .str "unicast"), ("protocol", .str "boot"), ("scope", .str scope),
          ("dev", .str device), ("metric", .num n)]).set "interface_index" (.num i.index)) := by
    intro scope n i hscope hn hi
    simp only [Value.object, List.foldl_cons, List.foldl_nil, Value.set]
    refine ⟨⟨_, rfl⟩, ?_, ⟨i, hi, ?_⟩, ⟨"unicast", ?_⟩, ?_⟩
    · simp [get_obj_setField]
    · simp [get_obj_setField]
    · simp [get_obj_setField]
    · have hboot : SafeText "boot" := by decide +kernel
      have hnum : attributeText (.num n) = some n.repr := by
        rw [attributeText, if_pos ⟨by omega, by omega⟩, Int.toNat_natCast]
      have hstr : ∀ t, attributeText (.str t) = some t := fun _ => rfl
      have hmetric : SafeText n.repr := safeText_repr n
      simp only [routeAttributes, List.forall_mem_cons, get_obj_setField]
      simp [Value.get, hstr, hnum]
      exact ⟨hdevice, hboot, hscope, hmetric⟩
  rw [intendedRoute] at h
  cases hresolve : resolve ifIndex device with
  | error e =>
    rw [hresolve] at h
    cases h
  | ok i =>
    rw [hresolve] at h
    cases h
    have hn : metric.getD (defaultMetric pre) < 2 ^ 64 := by
      cases metric with
      | none =>
        rw [Option.getD_none, defaultMetric]
        split_ifs <;> omega
      | some n => exact hmetric n rfl
    have hscope : SafeText (if (none : Option String).isSome ∨ hasColon pre then "global"
        else "link") := by
      split_ifs <;> decide +kernel
    have hready := hbase _ _ i hscope hn hresolve
    by_cases hcolon : hasColon pre
    · rw [if_pos hcolon]
      exact hready.set (t := "medium") (by decide +kernel) (by decide)
    · rw [if_neg hcolon]
      exact hready

/-- Every planned route has its arguments. -/
theorem PlannedRoute.acceptable {device : String} {v : Value} (hdevice : safeName device = .ok ())
    (h : PlannedRoute S.ifIndex pre device v) : Acceptable S v := by
  have hsafe := safeText_of_safeName hdevice
  have hkernel : SafeText "kernel" := by decide +kernel
  cases h with
  | ofTunnel h => exact (intendedRoute_ready hsafe (fun _ h => by cases h) h).acceptable
  | @ofConnected address v h =>
    obtain ⟨route, hroute, hv⟩ := bind_eq_ok.1 h
    cases hv
    have hmetric : ∀ n, some (if address.isIpv6 then 256 else 0) = some n → n < 2 ^ 64 := by
      intro n hn
      rw [← Option.some.inj hn]
      split_ifs <;> omega
    have hready := intendedRoute_ready hsafe hmetric hroute
    have hset : Ready S.ifIndex device (route.set "protocol" (.str "kernel")) :=
      hready.set hkernel (by decide)
    cases address with
    | v4 a => exact (hset.set (safeText_ipv4Text a) (by decide)).acceptable
    | v6 a => exact hset.acceptable
  | @ofLocal address v h =>
    obtain ⟨route, hroute, hv⟩ := bind_eq_ok.1 h
    cases hv
    have hmetric : ∀ n, some 0 = some n → n < 2 ^ 64 := by
      intro n hn
      rw [← Option.some.inj hn]
      omega
    have hready := intendedRoute_ready hsafe hmetric hroute
    have hprotocol : Ready S.ifIndex device (route.set "protocol" (.str "kernel")) :=
      hready.set hkernel (by decide)
    have htype : Ready S.ifIndex device
        ((route.set "protocol" (.str "kernel")).set "type" (.str "local")) :=
      hprotocol.set (by decide +kernel) (by decide)
    cases address with
    | v4 a =>
      have hscope : SafeText "host" := by decide +kernel
      exact ((htype.set hscope (by decide)).set (safeText_ipv4Text a) (by decide)).acceptable
    | v6 a =>
      have hscope : SafeText "global" := by decide +kernel
      exact (htype.set hscope (by decide)).acceptable

end Ocvpn.Net.Linux
