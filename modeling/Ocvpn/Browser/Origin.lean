import Ocvpn.Ipc.Browser
import Ocvpn.Text.Gap

/-!
# Origins

`https_origin` of `crates/model/src/browser.rs` cuts the authority out of a text at `/`, `?` and `#`
and gives it to the `url` crate with a `/` after it.  For that crate a backslash ends an authority
too.  The crate is a parameter; `WebCrate.Standard` says what is known of its `https` URLs.

## Main results

* `origin_bare` : when the result is an origin, that is itself when parsed again.
-/

namespace Ocvpn.Ipc

/-! ### The `url` crate -/

/-- The crate: parsing, the parts of a URL and its text. -/
structure WebCrate (Url : Type) where
  parse : String → Option Url
  text : Url → String
  username : Url → String
  password : Url → Option String
  path : Url → String
  query : Url → Option String
  fragment : Url → Option String
  /-- The normal form of a host and port. -/
  host : List Char → Option (List Char)

/-- What ends a segment of an `https` URL. -/
def isSlash (c : Char) : Bool := c == '/' || c == '\\'

/-- The spellings of the segments `.` and `..`. -/
def dotSegments : List (List Char) :=
  [".", "%2e", "..", ".%2e", "%2e.", "%2e%2e"].map String.toList

/-- Some segment is taken for a step in the path. -/
def Dotted (text : List Char) : Prop :=
  ∃ segment ∈ text.splitOnP isSlash, segment.map Char.toLower ∈ dotSegments

/-- A text with an authority, and the path `/`. -/
def https (authority : List Char) : String :=
  String.ofList ("https://".toList ++ authority ++ ['/'])

theorem https_eq (authority : List Char) :
    https authority = String.ofList ("https://".toList ++ authority ++ ['/']) := rfl

/-- What `https_origin` takes for an authority. -/
structure Plain (authority : List Char) : Prop where
  delimiter : ∀ c ∈ authority, c ≠ '/' ∧ c ≠ '?' ∧ c ≠ '#' ∧ c ≠ '@'
  control : authority.any isControl = false

/-- The host and port of an authority: behind its backslashes at the start, up to the next one. -/
def hostPart (authority : List Char) : List Char :=
  (authority.dropWhile (· == '\\')).takeWhile (· != '\\')

/-- What is behind the host and port. -/
def tailPart (authority : List Char) : List Char :=
  (authority.dropWhile (· == '\\')).dropWhile (· != '\\')

namespace WebCrate

variable {Url : Type} (w : WebCrate Url)

/-- No credentials, no query and no fragment. -/
structure Open (o : Url) : Prop where
  username : w.username o = ""
  password : w.password o = none
  query : w.query o = none
  fragment : w.fragment o = none

/-- What the crate does to an `https` URL whose authority has no `@`. -/
structure Standard : Prop where
  /-- Backslashes in front of a host are skipped, and with none behind it the path is the slash. -/
  root : ∀ {a o}, Plain a → w.parse (https a) = some o → tailPart a = [] → w.path o = "/"
  /-- A backslash behind a host begins the path; all its segments are kept but dots. -/
  kept : ∀ {a o}, Plain a → w.parse (https a) = some o → tailPart a ≠ [] → ¬ Dotted (tailPart a) →
    w.path o ≠ "/"
  /-- There are no credentials, no query and no fragment. -/
  rest : ∀ {a o}, Plain a → w.parse (https a) = some o → w.Open o
  /-- The text of a URL without them. -/
  text_root : ∀ {a o}, Plain a → w.parse (https a) = some o → w.path o = "/" →
    ∃ n, w.host (hostPart a) = some n ∧ w.text o = https n
  /-- A normal form holds no delimiter and no control character. -/
  host_clean : ∀ {a n}, w.host a = some n → n ≠ [] ∧ Plain n
  /-- The text of a URL is parsed as the URL. -/
  parse_text : ∀ {s o}, w.parse s = some o → w.parse (w.text o) = some o

end WebCrate

/-! ### Origins -/

/-- The authority `https_origin` cuts out. -/
def originAuthority (uri : String) : List Char :=
  (uri.toList.drop 8).takeWhile fun c => !(['/', '?', '#'].contains c)

theorem httpsOrigin_eq_ok {Url : Type} [DecidableEq Url] {parse : String → Option Url}
    {uri : String} {o : Url} : httpsOrigin parse uri = .ok o ↔
      (uri.toList.take 8).map Char.toLower = "https://".toList ∧ uri.utf8ByteSize ≤ maxBrowserBytes ∧
      uri.toList.any isControl = false ∧ originAuthority uri ≠ [] ∧ '@' ∉ originAuthority uri ∧
      parse (https (originAuthority uri)) = some o := by
  rw [httpsOrigin, originAuthority, https_eq]
  simp only
  split
  next h =>
    refine iff_of_false (Exec.fail_ne_ok _ _) ?_
    rintro ⟨h8, hlen, hcontrol, -⟩
    rcases h with h | h | h
    · exact h h8
    · omega
    · rw [hcontrol] at h
      cases h
  next h =>
    push Not at h
    obtain ⟨h8, hlen, hcontrol⟩ := h
    have hcontrol : uri.toList.any isControl = false := by simpa using hcontrol
    split
    next h =>
      refine iff_of_false (Exec.fail_ne_ok _ _) ?_
      rintro ⟨-, -, -, hne, hat, -⟩
      rcases h with h | h
      · exact hne (List.isEmpty_iff.1 h)
      · exact hat (List.contains_iff_mem.1 h)
    next h =>
      push Not at h
      obtain ⟨hne, hat⟩ := h
      rw [ne_eq, List.isEmpty_iff] at hne
      rw [ne_eq, List.contains_iff_mem] at hat
      split
      next hparse =>
        refine iff_of_false (Exec.fail_ne_ok _ _) ?_
        rintro ⟨-, -, -, -, -, hsome⟩
        rw [hparse] at hsome
        cases hsome
      next origin hparse =>
        rw [hparse]
        constructor
        · intro ho
          exact ⟨h8, hlen, hcontrol, hne, hat, by rw [Except.ok.inj ho]⟩
        · rintro ⟨-, -, -, -, -, ho⟩
          rw [Option.some.inj ho]

theorem originAuthority_plain {uri : String} (hat : '@' ∉ originAuthority uri)
    (hcontrol : uri.toList.any isControl = false) : Plain (originAuthority uri) := by
  refine ⟨fun c hc => ?_, ?_⟩
  · have hstop := List.mem_takeWhile_imp hc
    simp only [List.contains_eq_mem, List.mem_cons, List.not_mem_nil, or_false, Bool.not_eq_true',
      decide_eq_false_iff_not, not_or] at hstop
    exact ⟨hstop.1, hstop.2.1, hstop.2.2, fun h => hat (h ▸ hc)⟩
  · rw [List.any_eq_false] at hcontrol ⊢
    exact fun c hc => hcontrol c (List.mem_of_mem_drop (List.takeWhile_subset _ hc))

/-- A text that is followed by what ends it. -/
theorem span_append_stop {p : Char → Bool} {l r : List Char} (h : ∀ c ∈ l, p c = true)
    (hr : ∀ c ∈ r.head?, p c = false) :
    (l ++ r).takeWhile p = l ∧ (l ++ r).dropWhile p = r := by
  rw [List.takeWhile_append_of_pos h, List.dropWhile_append_of_pos h]
  cases r with
  | nil => simp
  | cons c r => simp [hr c rfl]

/-- The authority of a text that consists of one is cut out again. -/
theorem originAuthority_https {a : List Char} (h : Plain a) : originAuthority (https a) = a := by
  have hrest : (https a).toList.drop 8 = a ++ ['/'] := by
    rw [https_eq, String.toList_ofList, List.append_assoc]
    rfl
  rw [originAuthority, hrest]
  refine (span_append_stop (fun c hc => ?_) (by simp)).1
  obtain ⟨h1, h2, h3, -⟩ := h.delimiter c hc
  simp [h1, h2, h3]

theorem utf8ByteSize_https (a : List Char) : (https a).utf8ByteSize = utf8Len a + 9 := by
  have hhttps : utf8Len "https://".toList = 8 := by decide +kernel
  rw [https_eq, utf8ByteSize_ofList, utf8Len_append, utf8Len_append, hhttps]
  change 8 + utf8Len a + 1 = _
  omega

/-- `https_origin` of a text that consists of an authority. -/
theorem httpsOrigin_https {Url : Type} [DecidableEq Url] {parse : String → Option Url}
    {a : List Char} (ha : a ≠ []) (h : Plain a) {o : Url} :
    httpsOrigin parse (https a) = .ok o ↔
      utf8Len a + 9 ≤ maxBrowserBytes ∧ parse (https a) = some o := by
  have h8 : ((https a).toList.take 8).map Char.toLower = "https://".toList := by
    rw [https_eq, String.toList_ofList, List.append_assoc, List.take_left' (by decide +kernel)]
    decide +kernel
  have hcontrol : (https a).toList.any isControl = false := by
    rw [https_eq, String.toList_ofList, List.any_append, List.any_append, h.control]
    decide +kernel
  have hat : '@' ∉ a := fun hat => (h.delimiter _ hat).2.2.2 rfl
  rw [httpsOrigin_eq_ok, originAuthority_https h, utf8ByteSize_https]
  exact ⟨fun ⟨_, hle, _, _, _, ho⟩ => ⟨hle, ho⟩, fun ⟨hle, ho⟩ => ⟨h8, hle, hcontrol, ha, hat, ho⟩⟩

namespace WebCrate

variable {Url : Type} [DecidableEq Url] {w : WebCrate Url}

/-- A bare origin, that `https_origin` returns for its own text. -/
structure IsOrigin (w : WebCrate Url) (o : Url) : Prop where
  path : w.path o = "/"
  rest : w.Open o
  again : httpsOrigin w.parse (w.text o) = .ok o

omit [DecidableEq Url] in
/-- There is no backslash behind the host, and the normal form of the host leaves space for
`https://` and a slash. -/
structure Bare (w : WebCrate Url) (uri : String) : Prop where
  noPath : tailPart (originAuthority uri) = []
  fits : ∀ host ∈ w.host (hostPart (originAuthority uri)), utf8Len host + 9 ≤ maxBrowserBytes

end WebCrate

open WebCrate

/-- **Origins.**  What `https_origin` returns is a bare origin, and returns itself, if no backslash
stands behind the host and the normal form is short enough.  In every other case it is none, unless
the path behind the backslash has a dot segment. -/
theorem origin_bare {Url : Type} [DecidableEq Url] {w : WebCrate Url} (hw : w.Standard)
    {uri : String} {o : Url} (h : httpsOrigin w.parse uri = .ok o) :
    (w.Bare uri → w.IsOrigin o) ∧
      (w.IsOrigin o → w.Bare uri ∨ Dotted (tailPart (originAuthority uri))) := by
  obtain ⟨-, -, hcontrol, -, hat, hparse⟩ := httpsOrigin_eq_ok.1 h
  have hplain := originAuthority_plain hat hcontrol
  -- with the path `/` it is parsed again if it is short enough
  have hagain : w.path o = "/" → (httpsOrigin w.parse (w.text o) = .ok o ↔
      ∀ host ∈ w.host (hostPart (originAuthority uri)), utf8Len host + 9 ≤ maxBrowserBytes) := by
    intro hpath
    obtain ⟨n, hn, htext⟩ := hw.text_root hplain hparse hpath
    obtain ⟨hne, hclean⟩ := hw.host_clean hn
    have hparse' : w.parse (https n) = some o := htext ▸ hw.parse_text hparse
    rw [htext, httpsOrigin_https hne hclean, hn]
    simp [hparse']
  constructor
  · rintro ⟨htail, hfits⟩
    have hpath := hw.root hplain hparse htail
    exact ⟨hpath, hw.rest hplain hparse, (hagain hpath).2 hfits⟩
  · rintro ⟨hpath, -, hself⟩
    by_cases htail : tailPart (originAuthority uri) = []
    · exact .inl ⟨htail, (hagain hpath).1 hself⟩
    · refine .inr (by_contra fun hdots => ?_)
      exact hw.kept hplain hparse htail hdots hpath

/-! ### A sample of the outside code -/

/-- The letters of plain names. -/
def nameLetters : List Char := "abcdefghijklmnopqrstuvwxyz0123456789-".toList

/-- The URL of plain names. -/
structure PlainUrl where
  host : List Char
  path : List Char
  deriving DecidableEq

def isName (a : List Char) : Bool := !a.isEmpty && a.all fun c => c == '.' || nameLetters.contains c

def isPath (text : List Char) : Bool := text.all fun c => isSlash c || nameLetters.contains c

/-- Backslashes become slashes. -/
def slashed (text : List Char) : List Char := text.map fun c => if c == '\\' then '/' else c

/-- The crate on plain names in lower case, and paths of these. -/
def sampleWeb : WebCrate PlainUrl where
  parse s :=
    let rest := (s.toList.drop 8).dropWhile isSlash
    let host := rest.takeWhile (!isSlash ·)
    let tail := rest.dropWhile (!isSlash ·)
    if s.toList.take 8 = "https://".toList ∧ isName host ∧ tail ≠ [] ∧ isPath tail then
      some ⟨host, slashed tail⟩
    else none
  text o := String.ofList ("https://".toList ++ o.host ++ o.path)
  username _ := ""
  password _ := none
  path o := String.ofList o.path
  query _ := none
  fragment _ := none
  host a := if isName a then some a else none

/-- What the sample parses: a name, and a path behind it. -/
theorem sample_eq_some {s : String} {o : PlainUrl} {host tail : List Char}
    (hrest : (s.toList.drop 8).dropWhile isSlash = host ++ tail)
    (hhost : ∀ c ∈ host, isSlash c = false) (htail : ∀ c ∈ tail.head?, isSlash c = true) :
    sampleWeb.parse s = some o ↔ s.toList.take 8 = "https://".toList ∧ isName host = true ∧
      tail ≠ [] ∧ isPath tail = true ∧ o = ⟨host, slashed tail⟩ := by
  obtain ⟨htake, hdrop⟩ := span_append_stop (p := (!isSlash ·)) (l := host) (r := tail)
    (fun c hc => by simp [hhost c hc]) fun c hc => by simp [htail c hc]
  simp only [sampleWeb, hrest, htake, hdrop, Option.ite_none_right_eq_some, Option.some.injEq,
    and_assoc, eq_comm (a := o)]

/-- What is not dropped begins with what is not. -/
theorem head_dropWhile {p : Char → Bool} {l : List Char} :
    ∀ c ∈ (l.dropWhile p).head?, p c = false := by
  intro c hc
  have hnot := List.head?_dropWhile_not p l
  rwa [show (l.dropWhile p).head? = some c from hc] at hnot

/-- The first character behind the backslashes, if there is a host. -/
theorem head_hostPart {a : List Char} (h : Plain a) :
    ∀ c ∈ (a.dropWhile (· == '\\')).head?, isSlash c = false := by
  intro c hc
  have hback : (c == '\\') = false := head_dropWhile c hc
  have hmem : c ∈ a := List.dropWhile_subset _ (List.mem_of_mem_head? hc)
  simp [isSlash, (h.delimiter c hmem).1, hback]

/-- What the sample makes of an authority. -/
theorem sample_https {a : List Char} {o : PlainUrl} (h : Plain a)
    (hparse : sampleWeb.parse (https a) = some o) :
    isName (hostPart a) = true ∧ o = ⟨hostPart a, slashed (tailPart a ++ ['/'])⟩ := by
  have hdrop : (https a).toList.drop 8 = a ++ ['/'] := by
    rw [https_eq, String.toList_ofList, List.append_assoc]
    rfl
  have hlead : (a ++ ['/']).dropWhile isSlash =
      (a.dropWhile (· == '\\') ++ ['/']).dropWhile isSlash := by
    conv_lhs => rw [← List.takeWhile_append_dropWhile (p := (· == '\\')) (l := a)]
    rw [List.append_assoc, List.dropWhile_append_of_pos]
    intro c hc
    have hback := List.mem_takeWhile_imp hc
    simp only [beq_iff_eq] at hback
    simp [isSlash, hback]
  have hpieces : a.dropWhile (· == '\\') = hostPart a ++ tailPart a :=
    List.takeWhile_append_dropWhile.symm
  have hhost : ∀ c ∈ hostPart a, isSlash c = false := by
    intro c hc
    have hmem : c ∈ a := List.dropWhile_subset _ (List.takeWhile_subset _ hc)
    have hback := List.mem_takeWhile_imp (show c ∈ (a.dropWhile _).takeWhile (· != '\\') from hc)
    simpa [isSlash, (h.delimiter c hmem).1] using hback
  have htail : ∀ c ∈ (tailPart a ++ ['/']).head?, isSlash c = true := by
    intro c hc
    cases ht : tailPart a with
    | nil =>
      rw [ht] at hc
      obtain rfl := Option.some.inj hc
      decide
    | cons d rest =>
      rw [ht] at hc
      obtain rfl := Option.some.inj hc
      have hback : (d != '\\') = false := head_dropWhile d (by rw [← tailPart, ht]; rfl)
      simp only [bne_eq_false_iff_eq] at hback
      simp [isSlash, hback]
  cases hb : a.dropWhile (· == '\\') with
  | nil =>
    -- nothing but slashes
    have hrest : ((https a).toList.drop 8).dropWhile isSlash = [] ++ [] := by
      rw [hdrop, hlead, hb]
      rfl
    exact absurd rfl ((sample_eq_some hrest (by simp) (by simp)).1 hparse).2.2.1
  | cons c rest =>
    have hrest : ((https a).toList.drop 8).dropWhile isSlash =
        hostPart a ++ (tailPart a ++ ['/']) := by
      have hfirst := head_hostPart h c (by rw [hb]; rfl)
      rw [hdrop, hlead, ← List.append_assoc, ← hpieces, hb, List.cons_append,
        List.dropWhile_cons_of_neg (by simp [hfirst])]
    obtain ⟨-, hname, -, -, ho⟩ := (sample_eq_some hrest hhost htail).1 hparse
    exact ⟨hname, ho⟩

theorem slashed_slashed (text : List Char) : slashed (slashed text) = slashed text := by
  rw [slashed, slashed, List.map_map]
  refine List.map_congr_left fun c _ => ?_
  by_cases hc : c = '\\' <;> simp [hc]

theorem isPath_slashed {text : List Char} (h : isPath text = true) :
    isPath (slashed text) = true := by
  rw [isPath, slashed, List.all_map, List.all_eq_true]
  intro c hc
  have hall := List.all_eq_true.1 h c hc
  by_cases hback : c = '\\'
  · simp [hback, isSlash]
  · simpa [hback] using hall

/-- The URL of a text is found again in its own text. -/
theorem sample_parse_text {s : String} {o : PlainUrl} (h : sampleWeb.parse s = some o) :
    sampleWeb.parse (sampleWeb.text o) = some o := by
  generalize hrest : (s.toList.drop 8).dropWhile isSlash = rest
  rw [← List.takeWhile_append_dropWhile (p := (!isSlash ·)) (l := rest)] at hrest
  have hhost : ∀ c ∈ rest.takeWhile (!isSlash ·), isSlash c = false := by
    intro c hc
    simpa using List.mem_takeWhile_imp hc
  have hhead : ∀ c ∈ (rest.dropWhile (!isSlash ·)).head?, isSlash c = true := by
    intro c hc
    simpa using head_dropWhile c hc
  obtain ⟨htake, hname, htail, hpath, rfl⟩ := (sample_eq_some hrest hhost hhead).1 h
  generalize rest.takeWhile (!isSlash ·) = host at *
  generalize rest.dropWhile (!isSlash ·) = tail at *
  have hagain : ((sampleWeb.text ⟨host, slashed tail⟩).toList.drop 8).dropWhile isSlash =
      host ++ slashed tail := by
    have hdrop : (sampleWeb.text ⟨host, slashed tail⟩).toList.drop 8 = host ++ slashed tail := by
      show (String.ofList ("https://".toList ++ host ++ slashed tail)).toList.drop 8 = _
      rw [String.toList_ofList, List.append_assoc]
      rfl
    rw [hdrop]
    cases host with
    | nil => simp [isName] at hname
    | cons c host =>
      rw [List.cons_append, List.dropWhile_cons_of_neg (by simp [hhost c List.mem_cons_self])]
  have hhead' : ∀ c ∈ (slashed tail).head?, isSlash c = true := by
    intro c hc
    rw [slashed, List.head?_map] at hc
    obtain ⟨d, hd, rfl⟩ := Option.map_eq_some_iff.1 hc
    split_ifs
    · rfl
    · exact hhead d hd
  refine (sample_eq_some hagain hhost hhead').2 ⟨?_, hname, ?_, isPath_slashed hpath, ?_⟩
  · show (String.ofList ("https://".toList ++ host ++ slashed tail)).toList.take 8 = _
    rw [String.toList_ofList, List.append_assoc]
    rfl
  · rwa [slashed, ne_eq, List.map_eq_nil_iff]
  · rw [slashed_slashed]

theorem plain_of_name {a : List Char} (h : isName a = true) : a ≠ [] ∧ Plain a := by
  have hletters : (('.' :: nameLetters).all fun c =>
      !(['/', '?', '#', '@'].contains c) && !isControl c) = true := by decide +kernel
  obtain ⟨hne, hall⟩ := Bool.and_eq_true_iff.1 h
  have hclean : ∀ c ∈ a, (c ≠ '/' ∧ c ≠ '?' ∧ c ≠ '#' ∧ c ≠ '@') ∧ isControl c = false := by
    intro c hc
    have hmem : c ∈ '.' :: nameLetters := by simpa using List.all_eq_true.1 hall c hc
    simpa using List.all_eq_true.1 hletters c hmem
  refine ⟨by simpa using hne, fun c hc => (hclean c hc).1, ?_⟩
  exact List.any_eq_false.2 fun c hc => by simp [(hclean c hc).2]

theorem sampleWeb_standard : sampleWeb.Standard where
  root hplain hparse htail := by
    obtain ⟨-, rfl⟩ := sample_https hplain hparse
    rw [htail]
    exact (by decide +kernel : String.ofList (slashed ['/']) = "/")
  kept hplain hparse htail _ := by
    obtain ⟨-, rfl⟩ := sample_https hplain hparse
    intro hroot
    have hlength := congrArg (·.toList.length) hroot
    simp only [sampleWeb, slashed, String.toList_ofList, List.length_map, List.length_append] at hlength
    exact htail (List.eq_nil_of_length_eq_zero (by simpa using hlength))
  rest _ _ := ⟨rfl, rfl, rfl, rfl⟩
  text_root hplain hparse hpath := by
    obtain ⟨hname, rfl⟩ := sample_https hplain hparse
    refine ⟨_, if_pos hname, ?_⟩
    have hslash : slashed (tailPart _ ++ ['/']) = ['/'] := String.ofList_injective hpath
    show String.ofList ("https://".toList ++ hostPart _ ++ slashed (tailPart _ ++ ['/'])) = _
    rw [hslash]
    rfl
  host_clean h := by
    obtain ⟨hname, hsome⟩ := Option.ite_none_right_eq_some.1 h
    obtain rfl := Option.some.inj hsome
    exact plain_of_name hname
  parse_text := sample_parse_text

/-- `origin_bare` of a login page. -/
theorem origin_bare_login : sampleWeb.IsOrigin ⟨"vpn.test".toList, ['/']⟩ := by
  have h : httpsOrigin sampleWeb.parse "https://vpn.test/login" =
      .ok ⟨"vpn.test".toList, ['/']⟩ := by
    decide +kernel
  refine (origin_bare sampleWeb_standard h).1 ⟨by decide +kernel, fun host hhost => ?_⟩
  have hpart : sampleWeb.host (hostPart (originAuthority "https://vpn.test/login")) =
      some "vpn.test".toList := by decide +kernel
  rw [hpart] at hhost
  obtain rfl := Option.some.inj hhost
  decide +kernel

/-- A backslash behind the host makes the rest of the authority a path of the origin. -/
theorem origin_not_bare : ∃ w : WebCrate PlainUrl, w.Standard ∧ ∃ uri o,
    httpsOrigin w.parse uri = .ok o ∧ w.path o ≠ "/" ∧ httpsOrigin w.parse (w.text o) ≠ .ok o :=
  ⟨sampleWeb, sampleWeb_standard, "https://vpn.test\\login",
    ⟨"vpn.test".toList, "/login/".toList⟩, by decide +kernel, by decide +kernel, by decide +kernel⟩

end Ocvpn.Ipc
