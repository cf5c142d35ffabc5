import Ocvpn.Model.Network

/-!
# Which resolver a Linux host has

The decision is taken twice: by `resolver_kind` in `crates/net/src/unix/linux.rs`, and by the
reviewed script, `packaging/common/vpnc-script`, which refuses to go on when it comes to another
result.

Files and link targets are texts.  What `grep` prints for a text with a NUL, which it takes for a
binary file, is a parameter.

## Main results

* `hasWord_of_mem_words` : a token of a line is a word of it.
* `selection_agrees_iff` : when the script comes to the result of `resolver_kind`.
-/

namespace Ocvpn.Net.Linux

/-! ### Native tools -/

/-- How a process ended. -/
inductive ExitStatus where
  | exited (code : ℕ)
  /-- A signal ended it; what is printed of that. -/
  | signaled (shown : String)
  deriving DecidableEq

namespace ExitStatus

def success (s : ExitStatus) : Bool := s = exited 0

/-- `Display`. -/
def text : ExitStatus → String
  | exited code => "exit status: " ++ toString code
  | signaled shown => shown

end ExitStatus

/-- What `command` returns. -/
structure Output where
  status : ExitStatus
  /-- What was printed, if it is UTF-8. -/
  stdout : Option String
  /-- There were no diagnostics. -/
  quiet : Bool
  deriving DecidableEq

/-- `checked_output`. -/
def checkedOutput (program : String) (o : Output) : Except Error String :=
  if !o.status.success then
    .error (.new .networkFailure
      ("Native network tool " ++ program ++ " failed: " ++ o.status.text))
  else match o.stdout with
    | some text => .ok text
    | none => .error (.new .networkFailure "Native network command returned invalid text")

/-- `run`, with the result of `command`. -/
def run (program : String) (result : Except Error Output) : Except Error String :=
  result >>= checkedOutput program

theorem map_eq_ok {ε α β : Type} {f : α → β} {x : Except ε α} {b : β} :
    x.map f = .ok b ↔ ∃ a, x = .ok a ∧ f a = b := by
  cases x <;> simp [Except.map]

theorem run_eq_ok {program text : String} {result : Except Error Output} :
    run program result = .ok text ↔
      ∃ o, result = .ok o ∧ o.status.success = true ∧ o.stdout = some text := by
  cases result with
  | error e => simp [run, bind, Except.bind]
  | ok o =>
    rcases o with ⟨status, _ | out, quiet⟩ <;> cases hs : status.success <;>
      simp [run, bind, Except.bind, checkedOutput, hs]

/-! ### The host -/

/-- The file at a path, after its links were followed. -/
structure Tool where
  isFile : Bool
  /-- `test -x`. -/
  executable : Bool
  /-- Its command `status` ends with success. -/
  status : Bool
  /-- What `command` returns of that command, which has to end in time and within the limits. -/
  output : Except Error Output
  runs : status = true → isFile = true ∧ executable = true
  ends : ∀ o, output = .ok o → o.status.success = status

/-- Nothing is there. -/
def Tool.absent : Tool where
  isFile := false
  executable := false
  status := false
  output := .error (.new .networkFailure "Cannot launch installed native network tool")
  runs := nofun
  ends := nofun

/-- The resolver configuration. -/
structure ResolverHost where
  /-- `/etc/nsswitch.conf`, if it can be read as text. -/
  nsswitch : Option (List Char)
  /-- The target of the link `/etc/resolv.conf`. -/
  resolvConf : Option (List Char)
  /-- `/usr/bin/resolvectl`. -/
  resolvectl : Tool
  /-- `/sbin/resolvconf`. -/
  resolvconf : Tool
  /-- The target of the link `/sbin/resolvconf`. -/
  resolvconfLink : Option (List Char)

inductive Resolver where
  | resolved | resolvconf
  deriving DecidableEq, Repr

/-- The name of a resolver. -/
def Resolver.name : Resolver → String
  | resolved => "resolved"
  | resolvconf => "resolvconf"

/-! ### Paths -/

/-- `Path::components`: whether the path has a root, and what follows.  Only a first `.` counts. -/
def components (path : List Char) : Bool × List (List Char) :=
  let absolute := path.head? = some '/'
  match splitOn '/' path with
  | ['.'] :: rest => (absolute, ['.'] :: rest.filter fun c => !c.isEmpty && c != ['.'])
  | parts => (absolute, parts.filter fun c => !c.isEmpty && c != ['.'])

/-- `Path::file_name`. -/
def fileName (path : List Char) : Option (List Char) :=
  (components path).2.getLast?.filter fun c => c != ['.'] && c != ['.', '.']

/-! ### `resolver_kind` -/

/-- `is_ascii_whitespace`. -/
def isAsciiWhitespace (c : Char) : Bool := [' ', '\t', '\n', '\x0c', '\r'].contains c

/-- `split_ascii_whitespace`. -/
def words (line : List Char) : List (List Char) :=
  (line.splitOnP isAsciiWhitespace).filter (!·.isEmpty)

/-- The first line of `hosts:`, or nothing. -/
def hostsLine (nss : List Char) : List Char :=
  ((splitOn '\n' nss).find? ("hosts:".toList.isPrefixOf ·)).getD []

/-- The targets that `resolver_kind` knows. -/
def managedTargets : List String :=
  ["/run/systemd/resolve/stub-resolv.conf", "/usr/lib/systemd/resolv.conf",
    "/run/systemd/resolve/resolv.conf", "../run/systemd/resolve/stub-resolv.conf",
    "../run/systemd/resolve/resolv.conf"]

/-- The target of the link is one of these paths. -/
def managedTarget (target : Option (List Char)) : Bool :=
  target.any fun p => managedTargets.any fun s => components p == components s.toList

/-- `resolved` in `resolver_kind`. -/
def detectsResolved (h : ResolverHost) (nss : List Char) : Bool :=
  let hosts := words (hostsLine nss)
  hosts.contains "resolve".toList || (hosts.contains "dns".toList && managedTarget h.resolvConf)

def noResolver : Error := .new .networkFailure
  "Active resolver is not supported safely; systemd-resolved or resolvconf is required"

/-- `resolver_kind`. -/
def resolverKind (h : ResolverHost) : Except Error Resolver :=
  match h.nsswitch with
  | none => .error (.new .networkFailure "Cannot determine active Linux resolver")
  | some nss =>
    if detectsResolved h nss && h.resolvectl.isFile then
      (run "/usr/bin/resolvectl" h.resolvectl.output).map fun _ => .resolved
    else if h.resolvconf.isFile && h.resolvconfLink.bind fileName != some "resolvectl".toList then
      .ok .resolvconf
    else .error noResolver

/-! ### The script -/

/-- The lines of `grep '^hosts:'`. -/
def grepHosts (binary : List Char → List (List Char)) (nss : List Char) : List (List Char) :=
  if nss.contains (.ofNat 0) then binary nss
  else (splitOn '\n' nss).filter ("hosts:".toList.isPrefixOf ·)

/-- A letter, a digit or an underscore. -/
def isWordChar (c : Char) : Bool := c.isAlphanum || c == '_'

/-- The word stands at the beginning of a text that follows the given character. -/
def startsWord (word : List Char) (before : Option Char) (text : List Char) : Bool :=
  !before.any isWordChar && word.isPrefixOf text && !(text.drop word.length).head?.any isWordChar

/-- The word stands somewhere in a text that follows the given character. -/
def hasWordAfter (word : List Char) : Option Char → List Char → Bool
  | before, [] => startsWord word before []
  | before, c :: cs => startsWord word before (c :: cs) || hasWordAfter word (some c) cs

/-- `grep -w` finds the word in a line. -/
def hasWord (word : String) (line : List Char) : Bool := hasWordAfter word.toList none line

/-- The lines that the expression for `/etc/resolv.conf` matches. -/
def resolvPattern : List String :=
  ["", ".."].flatMap fun start =>
    [start ++ "/run/systemd/resolve/stub-resolv.conf", start ++ "/run/systemd/resolve/resolv.conf",
      start ++ "/usr/lib/systemd/resolv.conf"]

/-- `readlink /etc/resolv.conf | grep -E …`. -/
def resolvMatches (target : Option (List Char)) : Bool :=
  target.any fun p => (splitOn '\n' p).any fun line => resolvPattern.any (·.toList == line)

/-- `detect_resolved_nss_resolve` or `detect_resolved_nss_dns`. -/
def scriptDetects (binary : List Char → List (List Char)) (h : ResolverHost) : Bool :=
  let hosts := (h.nsswitch.map (grepHosts binary)).getD []
  hosts.any (hasWord "resolve") || (hosts.any (hasWord "dns") && resolvMatches h.resolvConf)

/-- What `$(…)` keeps of an output. -/
def substituted (output : List Char) : List Char :=
  (output.reverse.dropWhile (· == '\n')).reverse

/-- The output of `basename`; a leading `-` makes the operand an option, and no name is printed. -/
def basename (path : List Char) : List Char :=
  if path.head? = some '-' then []
  else
    let trimmed := (path.reverse.dropWhile (· == '/')).reverse
    if trimmed.isEmpty then (if path.isEmpty then [] else ['/'])
    else (splitOn '/' trimmed).getLast?.getD []

/-- `$(basename "$(readlink /sbin/resolvconf)")`. -/
def linkBasename (target : Option (List Char)) : List Char :=
  substituted (basename (substituted (target.getD [])))

/-- How the script goes on after its selection. -/
inductive Selection where
  | proceeds
  | exits (code : ℕ)
  deriving DecidableEq, Repr

/-- `selected_resolver` on Linux. -/
def scriptSelects (binary : List Char → List (List Char)) (h : ResolverHost) : Option Resolver :=
  if h.resolvectl.executable && (scriptDetects binary h && h.resolvectl.status) then some .resolved
  else if h.resolvconf.executable && linkBasename h.resolvconfLink != "resolvectl".toList then
    some .resolvconf
  else none

/-- The selection of the script for the resolver of the plan. -/
def select (binary : List Char → List (List Char)) (h : ResolverHost) (planned : Resolver) :
    Selection :=
  match scriptSelects binary h with
  | none => .exits 69
  | some selected => if selected = planned then .proceeds else .exits 75

/-! ### Tokens are words -/

/-- No letter, digit or underscore touches the text from that side. -/
def Bounded (c : Option Char) : Prop := c.any isWordChar = false

/-- The pieces of a line that was split: the first one begins it, and a separator stands before any
other. -/
theorem pieces_of_splitOnP {p : Char → Bool} {line first : List Char} {rest : List (List Char)}
    (h : line.splitOnP p = first :: rest) :
    (∃ post, line = first ++ post ∧ ∀ c, post.head? = some c → p c = true) ∧
      ∀ piece ∈ rest, ∃ pre sep post, line = pre ++ sep :: (piece ++ post) ∧ p sep = true ∧
        ∀ c, post.head? = some c → p c = true := by
  induction line generalizing first rest with
  | nil =>
    rw [List.splitOnP_nil] at h
    cases h
    exact ⟨⟨[], rfl, nofun⟩, nofun⟩
  | cons x line ih =>
    rw [List.splitOnP_cons_eq_if_modifyHead] at h
    obtain ⟨first', rest', h'⟩ := List.exists_cons_of_ne_nil (List.splitOnP_ne_nil p line)
    obtain ⟨⟨post, hline, hpost⟩, hrest⟩ := ih h'
    have hlater : ∀ piece ∈ rest', ∃ pre sep post, x :: line = pre ++ sep :: (piece ++ post) ∧
        p sep = true ∧ ∀ c, post.head? = some c → p c = true := by
      intro piece hpiece
      obtain ⟨pre, sep, post, hline, hsep, hpost⟩ := hrest piece hpiece
      exact ⟨x :: pre, sep, post, by rw [hline, List.cons_append], hsep, hpost⟩
    rw [h'] at h
    split_ifs at h with hx
    · cases h
      refine ⟨⟨x :: line, rfl, fun c hc => ?_⟩, List.forall_mem_cons.2 ⟨?_, hlater⟩⟩
      · obtain rfl := Option.some.inj hc
        exact hx
      · exact ⟨[], x, post, by rw [hline, List.nil_append], hx, hpost⟩
    · cases h
      exact ⟨⟨post, by rw [hline, List.cons_append], hpost⟩, hlater⟩

/-- A word that stands between two bounds is found. -/
theorem hasWordAfter_of_split {word pre post : List Char} {before : Option Char}
    (hpre : Bounded (pre.getLast?.or before)) (hpost : Bounded post.head?) :
    hasWordAfter word before (pre ++ (word ++ post)) = true := by
  induction pre generalizing before with
  | nil =>
    have hbefore : before.any isWordChar = false := by simpa [Bounded] using hpre
    have hafter : post.head?.any isWordChar = false := hpost
    have hstarts : startsWord word before (word ++ post) = true := by
      simp [startsWord, hbefore, hafter]
    rw [List.nil_append]
    generalize word ++ post = text at hstarts ⊢
    cases text with
    | nil => exact hstarts
    | cons c cs => rw [hasWordAfter, hstarts, Bool.true_or]
  | cons c pre ih =>
    have hnext : Bounded (pre.getLast?.or (some c)) := by
      cases pre <;> simpa [Bounded, List.getLast?_cons] using hpre
    rw [List.cons_append, hasWordAfter, ih hnext, Bool.or_true]

theorem hasWord_of_mem_words {word : String} {line : List Char} (h : word.toList ∈ words line) :
    hasWord word line = true := by
  have hspace : ∀ c, isAsciiWhitespace c = true → isWordChar c = false := by
    intro c hc
    have hmem : c ∈ [' ', '\t', '\n', '\x0c', '\r'] := by simpa [isAsciiWhitespace] using hc
    have hall : ([' ', '\t', '\n', '\x0c', '\r'].all (!isWordChar ·)) = true := by decide
    simpa using List.all_eq_true.1 hall c hmem
  have hbounded : ∀ o : Option Char, (∀ c, o = some c → isAsciiWhitespace c = true) →
      Bounded o := by
    intro o ho
    cases o with
    | none => rfl
    | some c => exact hspace c (ho c rfl)
  have hmem : word.toList ∈ line.splitOnP isAsciiWhitespace := (List.mem_filter.1 h).1
  obtain ⟨first, rest, hsplit⟩ :=
    List.exists_cons_of_ne_nil (List.splitOnP_ne_nil isAsciiWhitespace line)
  obtain ⟨⟨post, hline, hpost⟩, hrest⟩ := pieces_of_splitOnP hsplit
  rw [hsplit] at hmem
  obtain hfirst | hmem := List.mem_cons.1 hmem
  · rw [hasWord, hline, ← hfirst]
    rw [← List.nil_append (word.toList ++ post)]
    exact hasWordAfter_of_split rfl (hbounded _ hpost)
  · obtain ⟨pre, sep, post, hline, hsep, hpost⟩ := hrest _ hmem
    have hpre : Bounded ((pre ++ [sep]).getLast?.or none) := by
      rw [List.getLast?_append, List.getLast?_singleton]
      exact hspace sep hsep
    rw [hasWord, hline, ← List.singleton_append, ← List.append_assoc]
    exact hasWordAfter_of_split hpre (hbounded _ hpost)

/-! ### Agreement -/

/-- The text of `/etc/nsswitch.conf`. -/
def ResolverHost.nss (h : ResolverHost) : List Char := h.nsswitch.getD []

/-- The first line of `hosts:` has the token. -/
def ResolverHost.token (h : ResolverHost) (word : String) : Prop :=
  word.toList ∈ words (hostsLine h.nss)

/-- Some line of `hosts:` has the word. -/
def ResolverHost.word (h : ResolverHost) (word : String) : Prop :=
  ∃ line ∈ splitOn '\n' h.nss, "hosts:".toList.isPrefixOf line = true ∧ hasWord word line = true

theorem token_word {h : ResolverHost} {word : String} (htoken : h.token word) : h.word word := by
  rw [ResolverHost.token, hostsLine] at htoken
  cases hfind : (splitOn '\n' h.nss).find? ("hosts:".toList.isPrefixOf ·) with
  | none =>
    rw [hfind] at htoken
    simp [words] at htoken
  | some line =>
    rw [hfind] at htoken
    exact ⟨line, List.mem_of_find?_eq_some hfind, by simpa using List.find?_some hfind,
      hasWord_of_mem_words htoken⟩

/-- **What has to hold of a host** for both selections to agree.  The first four conditions are about
a `resolvectl` that works: for a text file they ask that a managed link is spelled as the script
expects it, or the script reads `resolve` in some line; and that a word the script reads is one
that `resolver_kind` acts on. -/
structure SelectionAgrees (binary : List Char → List (List Char)) (h : ResolverHost) : Prop where
  binary : h.resolvectl.status = true → h.nss.contains (.ofNat 0) = true →
    detectsResolved h h.nss = scriptDetects binary h
  link : h.resolvectl.status = true → h.nss.contains (.ofNat 0) = false → ¬ h.token "resolve" →
    h.token "dns" → managedTarget h.resolvConf = true →
    resolvMatches h.resolvConf = true ∨ h.word "resolve"
  resolve : h.resolvectl.status = true → h.nss.contains (.ofNat 0) = false → ¬ h.token "resolve" →
    h.word "resolve" → h.token "dns" ∧ managedTarget h.resolvConf = true
  dns : h.resolvectl.status = true → h.nss.contains (.ofNat 0) = false → ¬ h.token "resolve" →
    h.word "dns" → resolvMatches h.resolvConf = true →
    h.token "dns" ∧ managedTarget h.resolvConf = true
  /-- What `resolvconf` is to the script, when `resolved` is not chosen. -/
  fallback : detectsResolved h h.nss = false ∨ h.resolvectl.isFile = false →
    h.resolvconf.executable = true ∧ linkBasename h.resolvconfLink ≠ "resolvectl".toList

theorem detectsResolved_iff {h : ResolverHost} : detectsResolved h h.nss = true ↔
    h.token "resolve" ∨ (h.token "dns" ∧ managedTarget h.resolvConf = true) := by
  simp [detectsResolved, ResolverHost.token]

theorem scriptDetects_iff (binary : List Char → List (List Char)) {h : ResolverHost}
    {nss : List Char} (hnss : h.nsswitch = some nss) (htext : h.nss.contains (.ofNat 0) = false) :
    scriptDetects binary h = true ↔
      h.word "resolve" ∨ (h.word "dns" ∧ resolvMatches h.resolvConf = true) := by
  obtain rfl : h.nss = nss := by simp [ResolverHost.nss, hnss]
  have hgrep : (h.nsswitch.map (grepHosts binary)).getD [] =
      (splitOn '\n' h.nss).filter ("hosts:".toList.isPrefixOf ·) := by
    rw [hnss, Option.map_some, Option.getD_some, grepHosts, htext]
    rfl
  have hany : ∀ word, ((splitOn '\n' h.nss).filter ("hosts:".toList.isPrefixOf ·)).any
      (hasWord word) = true ↔ h.word word := fun word => by
    simp only [List.any_eq_true, List.mem_filter, ResolverHost.word, and_assoc]
  rw [scriptDetects, hgrep, Bool.or_eq_true, Bool.and_eq_true, hany, hany]

/-- With a `resolvectl` that works, the first four conditions say that both detect the same. -/
theorem detects_iff {binary : List Char → List (List Char)} {h : ResolverHost} {nss : List Char}
    (hnss : h.nsswitch = some nss)
    (hfallback : detectsResolved h h.nss = false ∨ h.resolvectl.isFile = false →
      h.resolvconf.executable = true ∧ linkBasename h.resolvconfLink ≠ "resolvectl".toList) :
    (h.resolvectl.status = true → detectsResolved h h.nss = scriptDetects binary h) ↔
      SelectionAgrees binary h := by
  constructor
  · intro hsame
    have htext : h.resolvectl.status = true → h.nss.contains (.ofNat 0) = false →
        (h.token "resolve" ∨ (h.token "dns" ∧ managedTarget h.resolvConf = true) ↔
          h.word "resolve" ∨ (h.word "dns" ∧ resolvMatches h.resolvConf = true)) := by
      intro hstatus htext
      rw [← detectsResolved_iff, ← scriptDetects_iff binary hnss htext, hsame hstatus]
    refine ⟨fun hstatus _ => hsame hstatus, ?_, ?_, ?_, hfallback⟩
    · intro hstatus ht _ hdns hmanaged
      exact ((htext hstatus ht).1 (.inr ⟨hdns, hmanaged⟩)).symm.imp_left (·.2)
    · intro hstatus ht hno hword
      exact ((htext hstatus ht).2 (.inl hword)).resolve_left hno
    · intro hstatus ht hno hword hmatches
      exact ((htext hstatus ht).2 (.inr ⟨hword, hmatches⟩)).resolve_left hno
  · intro h' hstatus
    cases ht : h.nss.contains (.ofNat 0) with
    | true => exact h'.binary hstatus ht
    | false =>
      rw [Bool.eq_iff_iff, detectsResolved_iff, scriptDetects_iff binary hnss ht]
      by_cases hresolve : h.token "resolve"
      · exact iff_of_true (.inl hresolve) (.inl (token_word hresolve))
      · constructor
        · rintro (htoken | ⟨hdns, hmanaged⟩)
          · exact absurd htoken hresolve
          · exact (h'.link hstatus ht hresolve hdns hmanaged).symm.imp_right
              fun hmatches => ⟨token_word hdns, hmatches⟩
        · rintro (hword | ⟨hdns, hmatches⟩)
          · exact .inr (h'.resolve hstatus ht hresolve hword)
          · exact .inr (h'.dns hstatus ht hresolve hdns hmatches)

/-- **Both selections**: whenever `resolver_kind` has a result, the script goes on with it exactly
on the hosts of `SelectionAgrees`. -/
theorem selection_agrees_iff (binary : List Char → List (List Char)) (h : ResolverHost)
    {R : Resolver} (hR : resolverKind h = .ok R) :
    select binary h R = .proceeds ↔ SelectionAgrees binary h := by
  rw [resolverKind] at hR
  split at hR
  · cases hR
  rename_i nss hnss
  obtain rfl : h.nss = nss := by simp [ResolverHost.nss, hnss]
  have hproceeds : select binary h R = .proceeds ↔ scriptSelects binary h = some R := by
    rw [select]
    cases scriptSelects binary h with
    | none => simp
    | some selected => by_cases hs : selected = R <;> simp [hs]
  rw [hproceeds, scriptSelects]
  split_ifs at hR with hresolved hconf
  · -- `resolved`: the script has to detect it as well
    rw [map_eq_ok] at hR
    obtain ⟨text, hrun, rfl⟩ := hR
    obtain ⟨o, houtput, hsuccess, -⟩ := run_eq_ok.1 hrun
    have hstatus : h.resolvectl.status = true := (h.resolvectl.ends o houtput).symm.trans hsuccess
    have hexec := (h.resolvectl.runs hstatus).2
    have hdetects : detectsResolved h h.nss = true := by simp_all
    rw [← detects_iff hnss (by simp_all), hdetects]
    simp only [hexec, hstatus, Bool.and_true, Bool.true_and, true_implies, eq_comm (a := true)]
    cases hs : scriptDetects binary h with
    | true => simp
    | false =>
      simp only [Bool.false_eq_true, ↓reduceIte]
      split_ifs <;> simp
  · -- `resolvconf`: the script must not detect `resolved`, and must see the program
    cases hR
    have hno : detectsResolved h h.nss = false ∨ h.resolvectl.isFile = false := by
      rwa [Bool.not_eq_true, Bool.and_eq_false_iff] at hresolved
    have hundetected : h.resolvectl.status = true → detectsResolved h h.nss = false := by
      intro hstatus
      have hfile := (h.resolvectl.runs hstatus).1
      exact hno.resolve_right (by simp [hfile])
    constructor
    · intro hselects
      split_ifs at hselects with hfirst hsecond
      · cases hselects
      have hconf : h.resolvconf.executable = true ∧
          linkBasename h.resolvconfLink ≠ "resolvectl".toList := by simpa using hsecond
      refine (detects_iff hnss fun _ => hconf).1 fun hstatus => ?_
      have hexec := (h.resolvectl.runs hstatus).2
      rw [hundetected hstatus]
      simpa [hexec, hstatus] using hfirst
    · intro h'
      have hconf := h'.fallback hno
      have hfirst : (h.resolvectl.executable && (scriptDetects binary h && h.resolvectl.status)) =
          false := by
        cases hstatus : h.resolvectl.status with
        | false => simp
        | true =>
          have hsame := (detects_iff hnss h'.fallback).2 h' hstatus
          rw [hundetected hstatus] at hsame
          simp [← hsame]
      rw [hfirst, if_neg (by simp), if_pos (by simpa using hconf)]

/-- A host that asks DNS, with programs of its own for both resolvers. -/
def dnsHost (target : String) : ResolverHost where
  nsswitch := some "passwd: files\nhosts: files dns\n".toList
  resolvConf := some target.toList
  resolvectl :=
    { isFile := true
      executable := true
      status := true
      output := .ok ⟨.exited 0, some "", true⟩
      runs := by simp
      ends := by simp [ExitStatus.success] }
  resolvconf :=
    { isFile := true
      executable := true
      status := false
      output := .ok ⟨.exited 1, some "", false⟩
      runs := by simp
      ends := by simp [ExitStatus.success] }
  resolvconfLink := none

theorem selection_agrees_stub :
    SelectionAgrees (fun _ => []) (dnsHost "../run/systemd/resolve/stub-resolv.conf") := by
  have hkind : resolverKind (dnsHost "../run/systemd/resolve/stub-resolv.conf") =
      .ok .resolved := by decide +kernel
  exact (selection_agrees_iff (fun _ => []) _ hkind).1 (by decide +kernel)

/-- A relative link to the file of the distribution is missing from the list of `resolver_kind`. -/
theorem selection_differs_relative :
    resolverKind (dnsHost "../usr/lib/systemd/resolv.conf") = .ok .resolvconf ∧
      select (fun _ => []) (dnsHost "../usr/lib/systemd/resolv.conf") .resolvconf = .exits 75 := by
  decide +kernel

end Ocvpn.Net.Linux
