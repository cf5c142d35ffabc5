import Ocvpn.Environment.Text
import Ocvpn.Model.Profile
import Ocvpn.Unix.Basic
import Ocvpn.Unix.Resolver

/-!
# What the resolver tells of an interface

`resolver_value` and `resolvconf_record` of `crates/net/src/unix/linux.rs`, and the last part of
`observe`, which has no guard for a configuration without DNS servers.  What the programs print is a
parameter of the host.

## Main results

* `observable_iff` : on which hosts the last part of `observe` succeeds.
-/

namespace Ocvpn.Net.Linux

open Unix

/-! ### Text -/

/-- `str::lines`. -/
def lines (text : List Char) : List (List Char) :=
  let parts := splitOn '\n' text
  (if parts.getLast? = some [] then parts.dropLast else parts).map fun line =>
    if line.getLast? = some '\r' then line.dropLast else line

/-- `strip_prefix`. -/
def stripStart (start line : List Char) : Option (List Char) :=
  if start.isPrefixOf line then some (line.drop start.length) else none

/-- `trim_end_matches`. -/
def trimEnd (p : Char → Bool) (text : List Char) : List Char :=
  (text.reverse.dropWhile p).reverse

/-! ### `resolvectl` -/

/-- What the programs of the resolver print of an interface. -/
structure ResolverTools where
  /-- `resolvectl`, with a verb. -/
  link : String → String → Except Error Output
  /-- `resolvconf --version`. -/
  version : Except Error Output
  /-- `resolvconf -f -l`. -/
  listing : String → Except Error Output

/-- A step that does not panic. -/
def settled {α : Type} : Except Error α → Run α
  | .ok a => pure a
  | .error e => Exec.fail e

@[simp] theorem settled_eq_ok {α : Type} {x : Except Error α} {a : α} :
    settled x = .ok a ↔ x = .ok a := by
  cases x <;> simp [settled, Exec.fail, pure, Except.pure]

/-- The verb for a kind of keys. -/
def resolverVerb : String → Except Error String
  | "linux-dns" => .ok "dns"
  | "linux-domains" => .ok "domain"
  | "linux-default-dns" => .ok "default-route"
  | _ => .error (failure "Invalid resolver key")

/-- The name of a domain, without the marks of a route. -/
def untilded (word : List Char) : String := String.ofList (word.dropWhile (· == '~'))

/-- The check of one word. -/
def checkWord (kind : String) (word : List Char) : Run Unit :=
  if kind = "linux-dns" then
    if (Text.parseIpAddr (String.ofList word)).isSome then pure ()
    else Exec.fail (failure "Unsupported scoped resolver address")
  else if word ≠ "~.".toList then validateDomain (untilded word)
  else pure ()

/-- What is kept of a word. -/
def keptWord (kind : String) (word : List Char) : String :=
  if kind = "linux-domains" ∧ word ≠ "~.".toList then
    String.ofList ((trimEnd (· == '.') word).map Char.toLower)
  else String.ofList word

/-- The value of the words behind the colon. -/
def wordsValue (kind : String) (values : List (List Char)) : Run Value :=
  if kind = "linux-default-dns" then
    if values = ["yes".toList] then pure (.bool true)
    else if values = ["no".toList] then pure (.bool false)
    else Exec.fail (failure "Invalid resolver default-route state")
  else do
    values.forM (checkWord kind)
    pure (.arr (values.map fun word => .str (keptWord kind word)))

/-- `resolver_value`. -/
def resolverValue (t : ResolverTools) (kind name : String) : Run Value := do
  settled (safeName name)
  let verb ← settled (resolverVerb kind)
  let output ← settled (run "/usr/bin/resolvectl" (t.link verb name))
  match splitOnce ':' output.toList with
  | none => Exec.fail (failure "Invalid per-link resolver response")
  | some (_, values) => wordsValue kind (words values)

/-! ### `resolvconf` -/

/-- A quiet end with status 1 or 2, which says that there is no record. -/
def Output.missing (o : Output) : Bool :=
  (o.status == .exited 1 || o.status == .exited 2) && o.stdout == some "" && o.quiet

/-- The first line of a record. -/
def recordHeader (name : String) : List Char := ("# resolv.conf from " ++ name).toList

/-- What follows the first line. -/
def recordBody (output : List Char) : List Char := ['\n'].intercalate (lines output).tail

/-- The record in the text of a listing. -/
def recordOf (name : String) (output : List Char) : Except Error (Option Value) :=
  if output.all isWhitespace then .ok none
  else if (lines output).head? ≠ some (recordHeader name) then
    .error (failure "resolvconf does not expose an unambiguous per-interface record")
  else if (lines (recordBody output)).any (recordHeader "").isPrefixOf then
    .error (failure "Ambiguous resolvconf record")
  else .ok (some (.str (String.ofList (trimEnd isWhitespace (recordBody output)) ++ "\n")))

/-- `resolvconf_record`. -/
def resolvconfRecord (t : ResolverTools) (name : String) : Except Error (Option Value) := do
  safeName name
  let version ← run "/sbin/resolvconf" t.version
  if !startsWith "openresolv " version then
    .error (failure "Transactional resolver records require openresolv")
  else do
    let result ← t.listing name
    if result.missing then .ok none
    else do
      let output ← checkedOutput "/sbin/resolvconf" result
      recordOf name output.toList

/-! ### The last part of `observe` -/

/-- The servers and domains of a record. -/
def parseRecord (record : String) : List String × List String :=
  ((lines record.toList).filterMap fun line =>
      (stripStart "nameserver ".toList line).map String.ofList,
    ((lines record.toList).filterMap (stripStart "search ".toList)).flatMap fun line =>
      (words line).map String.ofList)

/-- The last part of `observe`: the servers and search domains. -/
def observeResolver (h : ResolverHost) (t : ResolverTools) (name : String) :
    Run (List String × List String) := do
  match ← settled (resolverKind h) with
  | .resolved => do
    let servers ← settled (strings (← resolverValue t "linux-dns" name))
    let domains ← settled (strings (← resolverValue t "linux-domains" name))
    pure (servers, domains.filter fun s => !startsWith "~" s)
  | .resolvconf => do
    match ← settled (resolvconfRecord t name) with
    | none => pure (parseRecord "")
    | some record => do
      let record ← settled (text record)
      pure (parseRecord record)

/-! ### Which hosts can be observed -/

/-- `systemd-resolved` is the resolver: the first line of `hosts:` asks for it, or for DNS where the
link of `/etc/resolv.conf` is one of its own, and its program is there. -/
def ResolverHost.Managed (h : ResolverHost) : Prop :=
  (h.token "resolve" ∨ (h.token "dns" ∧ managedTarget h.resolvConf = true)) ∧
    h.resolvectl.isFile = true

/-- A program of openresolv, or another that is not a name for `resolvectl`. -/
def ResolverHost.Resolvconf (h : ResolverHost) : Prop :=
  h.resolvconf.isFile = true ∧ h.resolvconfLink.bind fileName ≠ some "resolvectl".toList

/-- The program ends well, and prints the text. -/
def Prints (result : Except Error Output) (text : String) : Prop :=
  ∃ o, result = .ok o ∧ o.status.success = true ∧ o.stdout = some text

/-- `resolvectl` prints words of a kind behind a colon. -/
def Answers (t : ResolverTools) (verb name : String) (good : List Char → Prop) : Prop :=
  ∃ text start values, Prints (t.link verb name) text ∧
    splitOnce ':' text.toList = some (start, values) ∧ ∀ word ∈ words values, good word

/-- An address without a scope. -/
def IsServer (word : List Char) : Prop := (Text.parseIpAddr (String.ofList word)).isSome = true

/-- The root, or the name of a domain. -/
def IsRouted (word : List Char) : Prop :=
  word = "~.".toList ∨ validateDomain (untilded word) = .ok ()

/-- The text of a listing is blank or has one header, that of the interface, at its beginning. -/
def IsRecord (name : String) (output : List Char) : Prop :=
  output.all isWhitespace = true ∨ (lines output).head? = some (recordHeader name) ∧
    ∀ line ∈ lines (recordBody output), (recordHeader "").isPrefixOf line = false

/-- `resolvconf` is openresolv, and has no record of the interface, or one. -/
structure Listed (t : ResolverTools) (name : String) : Prop where
  openresolv : ∃ version, Prints t.version version ∧ startsWith "openresolv " version = true
  record : ∃ o, t.listing name = .ok o ∧
    (o.missing = true ∨ ∃ text, Prints (.ok o) text ∧ IsRecord name text.toList)

/-- **What has to hold of a host** for the last part of `observe` to succeed. -/
structure Observable (h : ResolverHost) (t : ResolverTools) (name : String) : Prop where
  nsswitch : h.nsswitch ≠ none
  safe : safeName name = .ok ()
  resolved : h.Managed → (∃ text, Prints h.resolvectl.output text) ∧
    Answers t "dns" name IsServer ∧ Answers t "domain" name IsRouted
  resolvconf : ¬ h.Managed → h.Resolvconf ∧ Listed t name

theorem strings_str (l : List String) : strings (.arr (l.map .str)) = .ok l := by
  show (l.map Value.str).mapM text = .ok l
  induction l with
  | nil => rfl
  | cons s l ih =>
    rw [List.map_cons, List.mapM_cons, ih]
    rfl

/-- The words of a kind are read if each of them passes its check. -/
theorem wordsValue_eq_ok {kind : String} {values : List (List Char)} {v : Value}
    (hkind : kind ≠ "linux-default-dns") :
    wordsValue kind values = .ok v ↔ (∀ word ∈ values, checkWord kind word = .ok ()) ∧
      v = .arr ((values.map (keptWord kind)).map .str) := by
  rw [wordsValue, if_neg hkind, List.map_map, ← Exec.forM_eq_ok]
  cases hcheck : values.forM (checkWord kind) with
  | error e =>
    refine iff_of_false ?_ fun h => by cases h.1
    rintro ⟨⟩
  | ok u => exact ⟨fun h => ⟨rfl, (Except.ok.inj h).symm⟩, fun h => congrArg Except.ok h.2.symm⟩

theorem resolverValue_eq_ok {t : ResolverTools} {kind verb name : String} {v : Value}
    (hverb : resolverVerb kind = .ok verb) (hkind : kind ≠ "linux-default-dns") :
    resolverValue t kind name = .ok v ↔ safeName name = .ok () ∧
      ∃ text start values, Prints (t.link verb name) text ∧
        splitOnce ':' text.toList = some (start, values) ∧
        (∀ word ∈ words values, checkWord kind word = .ok ()) ∧
        v = .arr (((words values).map (keptWord kind)).map .str) := by
  simp only [resolverValue, hverb, Exec.bind_eq_ok, settled_eq_ok, run_eq_ok, Except.ok.injEq]
  constructor
  · rintro ⟨⟨⟩, hname, _, rfl, text, hprints, h⟩
    cases hsplit : splitOnce ':' text.toList with
    | none => simp [hsplit] at h
    | some parts =>
      rw [hsplit] at h
      obtain ⟨hcheck, hv⟩ := (wordsValue_eq_ok hkind).1 h
      exact ⟨hname, text, parts.1, parts.2, hprints, hsplit, hcheck, hv⟩
  · rintro ⟨hname, text, start, values, hprints, hsplit, hcheck, hv⟩
    refine ⟨(), hname, verb, rfl, text, hprints, ?_⟩
    rw [hsplit]
    exact (wordsValue_eq_ok hkind).2 ⟨hcheck, hv⟩

/-- The strings of a kind. -/
theorem readable_iff {t : ResolverTools} {kind verb name : String} {good : List Char → Prop}
    (hverb : resolverVerb kind = .ok verb) (hkind : kind ≠ "linux-default-dns")
    (hgood : ∀ word, checkWord kind word = .ok () ↔ good word) :
    (∃ v, resolverValue t kind name = .ok v ∧ ∃ l, settled (strings v) = .ok l) ↔
      safeName name = .ok () ∧ Answers t verb name good := by
  simp only [resolverValue_eq_ok hverb hkind, settled_eq_ok, hgood]
  constructor
  · rintro ⟨v, ⟨hname, text, start, values, hprints, hsplit, hall, -⟩, -⟩
    exact ⟨hname, text, start, values, hprints, hsplit, hall⟩
  · rintro ⟨hname, text, start, values, hprints, hsplit, hall⟩
    exact ⟨_, ⟨hname, text, start, values, hprints, hsplit, hall, rfl⟩, _, strings_str _⟩

theorem checkWord_dns (word : List Char) : checkWord "linux-dns" word = .ok () ↔ IsServer word := by
  rw [checkWord, if_pos rfl, IsServer]
  split_ifs with h
  · exact iff_of_true rfl h
  · exact iff_of_false (by simp) h

theorem checkWord_domains (word : List Char) :
    checkWord "linux-domains" word = .ok () ↔ IsRouted word := by
  rw [checkWord, if_neg (by decide), IsRouted]
  split_ifs with h
  · rw [or_iff_right h]
  · exact iff_of_true rfl (.inl (not_not.1 h))

theorem recordOf_iff {name : String} {output : List Char} :
    (∃ record, recordOf name output = .ok record) ↔ IsRecord name output := by
  simp only [recordOf, IsRecord]
  split_ifs with hblank hheader hbody
  · simp [hblank]
  · simp [hblank, hheader]
  · obtain ⟨line, hline, hstart⟩ := List.any_eq_true.1 hbody
    refine iff_of_false nofun ?_
    rintro (h | ⟨-, h⟩)
    · exact hblank h
    · exact absurd hstart (by simp [h line hline])
  · refine iff_of_true ⟨_, rfl⟩ (.inr ⟨not_not.1 hheader, fun line hline => ?_⟩)
    exact Bool.eq_false_of_not_eq_true
      (List.any_eq_false.1 (Bool.eq_false_of_not_eq_true hbody) line hline)

theorem resolvconfRecord_iff {t : ResolverTools} {name : String} :
    (∃ record, resolvconfRecord t name = .ok record) ↔
      safeName name = .ok () ∧ Listed t name := by
  have hlisting : ∀ o : Output,
      (∃ record, (if o.missing then .ok none else do
          let output ← checkedOutput "/sbin/resolvconf" o
          recordOf name output.toList) = .ok record) ↔
        (o.missing = true ∨ ∃ text, Prints (.ok o) text ∧ IsRecord name text.toList) := by
    intro o
    split_ifs with hmissing
    · simp [hmissing]
    · simp only [exists_bind_eq_ok, recordOf_iff, hmissing, false_or, Bool.false_eq_true]
      have hchecked : ∀ text, checkedOutput "/sbin/resolvconf" o = .ok text ↔ Prints (.ok o) text :=
        fun text => show run "/sbin/resolvconf" (.ok o) = _ ↔ _ from run_eq_ok
      simp only [hchecked]
  simp only [resolvconfRecord, exists_bind_eq_ok]
  constructor
  · rintro ⟨⟨⟩, hname, version, hversion, h⟩
    split_ifs at h with hopenresolv
    · simp at h
    · obtain ⟨o, ho, hrecord⟩ := exists_bind_eq_ok.1 h
      refine ⟨hname, ⟨version, run_eq_ok.1 hversion, by simpa using hopenresolv⟩, o, ho, ?_⟩
      exact (hlisting o).1 hrecord
  · rintro ⟨hname, ⟨version, hversion, hopenresolv⟩, o, ho, hrecord⟩
    refine ⟨(), hname, version, run_eq_ok.2 hversion, ?_⟩
    rw [hopenresolv, Bool.not_true, if_neg (by simp)]
    exact exists_bind_eq_ok.2 ⟨o, ho, (hlisting o).2 hrecord⟩

/-- A record is a text. -/
theorem resolvconfRecord_str {t : ResolverTools} {name : String} {v : Value}
    (h : resolvconfRecord t name = .ok (some v)) : ∃ text, v = .str text := by
  simp only [resolvconfRecord, bind_eq_ok] at h
  obtain ⟨⟨⟩, -, version, -, h⟩ := h
  split_ifs at h
  obtain ⟨o, -, h⟩ := bind_eq_ok.1 h
  split_ifs at h
  · cases h
  obtain ⟨output, -, h⟩ := bind_eq_ok.1 h
  unfold recordOf at h
  split_ifs at h
  · cases h
  · cases h
    exact ⟨_, rfl⟩

/-! ### The last part of `observe` -/

theorem managed_iff {h : ResolverHost} :
    (detectsResolved h h.nss && h.resolvectl.isFile) = true ↔ h.Managed := by
  rw [Bool.and_eq_true, detectsResolved_iff, ResolverHost.Managed]

/-- `resolver_kind` on a host that has its configuration. -/
theorem resolverKind_eq_ok {h : ResolverHost} {R : Resolver} :
    resolverKind h = .ok R ↔ h.nsswitch ≠ none ∧
      ((h.Managed ∧ R = .resolved ∧ ∃ text, Prints h.resolvectl.output text) ∨
        (¬ h.Managed ∧ R = .resolvconf ∧ h.Resolvconf)) := by
  unfold resolverKind
  cases hnss : h.nsswitch with
  | none => simp
  | some nss =>
    obtain rfl : h.nss = nss := by simp [ResolverHost.nss, hnss]
    dsimp only
    split_ifs with hmanaged hconf
    · have hyes := managed_iff.1 hmanaged
      rw [map_eq_ok]
      constructor
      · rintro ⟨text, htext, rfl⟩
        exact ⟨by simp, .inl ⟨hyes, rfl, text, run_eq_ok.1 htext⟩⟩
      · rintro ⟨-, ⟨-, rfl, text, htext⟩ | ⟨hno, -⟩⟩
        · exact ⟨text, run_eq_ok.2 htext, rfl⟩
        · exact absurd hyes hno
    · have hno := managed_iff.not.1 hmanaged
      have hconf' : h.Resolvconf := by simpa [ResolverHost.Resolvconf] using hconf
      simp [hno, hconf', eq_comm]
    · have hno := managed_iff.not.1 hmanaged
      have hconf' : ¬ h.Resolvconf := by simpa [ResolverHost.Resolvconf] using hconf
      simp [hno, hconf']

/-- What `observe` reads from `resolvectl`. -/
theorem resolved_iff {t : ResolverTools} {name : String} :
    (∃ v, resolverValue t "linux-dns" name = .ok v ∧ ∃ l, settled (strings v) = .ok l ∧
      ∃ v, resolverValue t "linux-domains" name = .ok v ∧ ∃ l, settled (strings v) = .ok l) ↔
      safeName name = .ok () ∧ Answers t "dns" name IsServer ∧ Answers t "domain" name IsRouted := by
  have hdns : (∃ v, resolverValue t "linux-dns" name = .ok v ∧ ∃ l, settled (strings v) = .ok l) ↔
      safeName name = .ok () ∧ Answers t "dns" name IsServer :=
    readable_iff rfl (by decide) checkWord_dns
  have hdomains : (∃ v, resolverValue t "linux-domains" name = .ok v ∧
      ∃ l, settled (strings v) = .ok l) ↔ safeName name = .ok () ∧ Answers t "domain" name IsRouted :=
    readable_iff rfl (by decide) checkWord_domains
  constructor
  · rintro ⟨v, hv, l, hl, hrest⟩
    obtain ⟨hname, hservers⟩ := hdns.1 ⟨v, hv, l, hl⟩
    exact ⟨hname, hservers, (hdomains.1 hrest).2⟩
  · rintro ⟨hname, hservers, hrouted⟩
    obtain ⟨v, hv, l, hl⟩ := hdns.2 ⟨hname, hservers⟩
    exact ⟨v, hv, l, hl, hdomains.2 ⟨hname, hrouted⟩⟩

/-- **The last part of `observe`** succeeds exactly on these hosts. -/
theorem observable_iff (h : ResolverHost) (t : ResolverTools) (name : String) :
    (∃ resolver, observeResolver h t name = .ok resolver) ↔ Observable h t name := by
  have hrecord : (∃ resolver, (do
      match ← settled (resolvconfRecord t name) with
      | none => pure (parseRecord "")
      | some record => do
        let record ← settled (text record)
        pure (parseRecord record) : Run (List String × List String)) = .ok resolver) ↔
      safeName name = .ok () ∧ Listed t name := by
    rw [← resolvconfRecord_iff, exists_bind_eq_ok]
    simp only [settled_eq_ok]
    refine exists_congr fun record => and_iff_left_of_imp fun hread => ?_
    cases record with
    | none => exact ⟨_, rfl⟩
    | some v =>
      obtain ⟨text, rfl⟩ := resolvconfRecord_str hread
      exact ⟨_, rfl⟩
  rw [observeResolver, exists_bind_eq_ok]
  simp only [settled_eq_ok, resolverKind_eq_ok]
  constructor
  · rintro ⟨R, ⟨hnss, ⟨hmanaged, rfl, hhealthy⟩ | ⟨hmanaged, rfl, hconf⟩⟩, hread⟩
    · simp only [exists_bind_eq_ok, Exec.pure_eq_ok, Except.ok.injEq, exists_eq', and_true] at hread
      obtain ⟨hname, hservers, hrouted⟩ := resolved_iff.1 hread
      exact ⟨hnss, hname, fun _ => ⟨hhealthy, hservers, hrouted⟩, fun hno => absurd hmanaged hno⟩
    · obtain ⟨hname, hlisted⟩ := hrecord.1 hread
      exact ⟨hnss, hname, fun hyes => absurd hyes hmanaged, fun _ => ⟨hconf, hlisted⟩⟩
  · rintro ⟨hnss, hname, hresolved, hresolvconf⟩
    by_cases hmanaged : h.Managed
    · obtain ⟨hhealthy, hservers, hrouted⟩ := hresolved hmanaged
      refine ⟨.resolved, ⟨hnss, .inl ⟨hmanaged, rfl, hhealthy⟩⟩, ?_⟩
      simp only [exists_bind_eq_ok, Exec.pure_eq_ok, Except.ok.injEq, exists_eq', and_true]
      exact resolved_iff.2 ⟨hname, hservers, hrouted⟩
    · obtain ⟨hconf, hlisted⟩ := hresolvconf hmanaged
      exact ⟨.resolvconf, ⟨hnss, .inr ⟨hmanaged, rfl, hconf⟩⟩, hrecord.2 ⟨hname, hlisted⟩⟩

end Ocvpn.Net.Linux
