import Ocvpn.Auth.Control

/-!
# The choices of a form

How a native form becomes fields with public choices, and how answers are written back
(`choice_ids`, `saved_choice` and the two loops of `Worker::form` in `crates/engine/src/auth.rs`).
Native values may repeat; a public ID stands for one choice.

The library is input: what it holds in a form, and whether it takes a value.

## Main results

* `choiceIds_spec` : every list of choices gets pairwise distinct IDs.
* `choice_submitted` : the ID of a choice is written back as its native value.
-/

namespace Ocvpn.Auth

/-! ### Native text -/

/-- The limit of `text` and `cstring`. -/
def nativeBytes : ℕ := 65536

/-- There is no NUL in a string. -/
def NulFree (s : String) : Prop := Char.ofNat 0 ∉ s.toList

instance (s : String) : Decidable (NulFree s) := inferInstanceAs (Decidable (_ ∉ _))

/-- A C string that `text` accepts. -/
structure NativeText where
  text : String
  short : text.utf8ByteSize ≤ nativeBytes
  clean : NulFree text

/-- A pointer to a C string. -/
inductive TextPointer where
  | null
  /-- Not UTF-8, or too long. -/
  | unreadable (e : Error)
  | text (t : NativeText)

/-- `text`. -/
def TextPointer.read : TextPointer → Run NativeText
  | null => Exec.fail (.new .protocolViolation "Missing native authentication data")
  | unreadable e => Exec.fail e
  | text t => pure t

/-- `optional_text`. -/
def TextPointer.readOptional : TextPointer → Run (Option NativeText)
  | null => pure none
  | p => do
    let t ← p.read
    pure (some t)

/-- `cstring`. -/
def cstring (value : String) : Run String := do
  Exec.rejectIf (value.utf8ByteSize > nativeBytes || value.toList.contains (.ofNat 0))
    (.invalid "Native input is too long or contains a NUL")
  pure value

/-! ### Public IDs -/

/-- The search for an ID that is not taken, from a candidate and the ordinal of the next one, cut
off after `fuel` candidates. -/
def freeId (reserved : List String) (base : String) : ℕ → String → ℕ → Option String
  | 0, _, _ => none
  | fuel + 1, id, ordinal =>
    if reserved.contains id then
      freeId reserved base fuel (base ++ "#" ++ toString ordinal) (ordinal + 1)
    else some id

/-- The loop of `choice_ids`; a choice that is not reached yet has its native value as ID. -/
def assignIds (native reserved : List String) : List AuthChoice → Option (List AuthChoice)
  | [] => some []
  | c :: cs =>
    if native.count c.id = 1 then do
      let cs ← assignIds native reserved cs
      some (c :: cs)
    else do
      let base := c.id ++ "#" ++ c.label
      let id ← freeId reserved base (reserved.length + 1) base 1
      let cs ← assignIds native (id :: reserved) cs
      some ({ c with id } :: cs)

/-- `choice_ids`: the choices with their public IDs, and the native values. -/
def choiceIds (choices : List AuthChoice) : Option (List AuthChoice × List String) := do
  let native := choices.map (·.id)
  let choices ← assignIds native native choices
  some (choices, native)

/-- `saved_choice`. -/
def savedChoice (field : AuthField) (native : List String) (saved : String) : Run String :=
  match (field.choices.zip native).filter fun (choice, value) =>
      value == saved || choice.label == saved with
  | [] => Exec.fail (.new .authenticationRequired
      "The saved gateway or group is no longer available")
  | [first] => pure first.1.id
  | _ => Exec.fail (.new .authenticationRequired
      "The saved gateway or group is ambiguous; select it explicitly")

/-! ### IDs are distinct -/

/-- The candidates of the search. -/
def candidate (base : String) : ℕ → String
  | 0 => base
  | n + 1 => base ++ "#" ++ toString (n + 1)

theorem candidate_injective (base : String) : Function.Injective (candidate base) := by
  have hlength : ∀ n, (candidate base n).length = base.length ↔ n = 0 := by
    intro n
    cases n with
    | zero => simp [candidate]
    | succ n =>
      have hone : "#".length = 1 := rfl
      simp only [candidate, String.length_append]
      omega
  intro m n h
  cases m with
  | zero => exact ((hlength n).1 (by rw [← h]; rfl)).symm
  | succ m => cases n with
    | zero => exact (hlength (m + 1)).1 (by rw [h]; rfl)
    | succ n =>
      have hdigits : Nat.toDigits 10 (m + 1) = Nat.toDigits 10 (n + 1) := by
        have hlist := congrArg String.toList h
        simpa [candidate, Nat.repr] using hlist
      have hvalue := congrArg (Nat.ofDigitChars 10 · 0) hdigits
      simpa using hvalue

theorem NulFree.append {s t : String} (hs : NulFree s) (ht : NulFree t) : NulFree (s ++ t) := by
  intro hmem
  rw [String.toList_append, List.mem_append] at hmem
  exact hmem.elim hs ht

theorem nulFree_candidate {base : String} (h : NulFree base) (n : ℕ) :
    NulFree (candidate base n) := by
  cases n with
  | zero => exact h
  | succ n =>
    refine (h.append (by decide)).append fun hmem => ?_
    have hdigit := Nat.isDigit_of_mem_toDigits (by decide) (by decide) (show Char.ofNat 0 ∈
      Nat.toDigits 10 (n + 1) by simpa [Nat.repr] using hmem)
    exact absurd hdigit (by decide)

/-- Whatever is found is a candidate. -/
theorem freeId_eq_candidate {reserved : List String} {base found : String} {fuel k : ℕ}
    (h : freeId reserved base fuel (candidate base k) (k + 1) = some found) :
    ∃ i, found = candidate base i := by
  induction fuel generalizing k with
  | zero => cases h
  | succ fuel ih =>
    rw [freeId] at h
    split_ifs at h with hmem
    · exact ih (k := k + 1) h
    · cases h
      exact ⟨k, rfl⟩

/-- Whatever is found is free. -/
theorem freeId_not_mem {reserved : List String} {base id found : String} {fuel ordinal : ℕ}
    (h : freeId reserved base fuel id ordinal = some found) : found ∉ reserved := by
  induction fuel generalizing id ordinal with
  | zero => cases h
  | succ fuel ih =>
    rw [freeId] at h
    split_ifs at h with hmem
    · exact ih h
    · cases h
      simpa using hmem

/-- If nothing is found, all candidates are taken. -/
theorem candidate_mem {reserved : List String} {base : String} {fuel k : ℕ}
    (h : freeId reserved base fuel (candidate base k) (k + 1) = none) :
    ∀ i < fuel, candidate base (k + i) ∈ reserved := by
  induction fuel generalizing k with
  | zero => exact nofun
  | succ fuel ih =>
    rw [freeId] at h
    split_ifs at h with hmem
    intro i hi
    cases i with
    | zero => simpa using hmem
    | succ i =>
      have hnext := ih (k := k + 1) h i (by omega)
      rwa [show k + (i + 1) = k + 1 + i by omega]

/-- **The search ends**: there are more candidates than taken IDs. -/
theorem freeId_isSome (reserved : List String) (base : String) :
    ∃ id, freeId reserved base (reserved.length + 1) base 1 = some id := by
  cases h : freeId reserved base (reserved.length + 1) base 1 with
  | some id => exact ⟨id, rfl⟩
  | none =>
    have hmem := candidate_mem (k := 0) h
    have hnodup : ((List.range (reserved.length + 1)).map (candidate base)).Nodup :=
      List.nodup_range.map (candidate_injective base)
    have hsub : (List.range (reserved.length + 1)).map (candidate base) ⊆ reserved := by
      intro id hid
      obtain ⟨i, hi, rfl⟩ := List.mem_map.1 hid
      simpa using hmem i (List.mem_range.1 hi)
    have hle := (hnodup.subperm hsub).length_le
    simp at hle

/-- What `choice_ids` makes of a list of choices. -/
structure Assigned (native reserved : List String) (cs out : List AuthChoice) : Prop where
  length : out.length = cs.length
  labels : out.map (·.label) = cs.map (·.label)
  kept : ∀ (k : ℕ) (c : AuthChoice), cs[k]? = some c → native.count c.id = 1 → out[k]? = some c
  origin : ∀ id ∈ out.map AuthChoice.id,
    (id ∈ cs.map AuthChoice.id ∧ native.count id = 1) ∨ id ∉ reserved
  distinct : (out.map AuthChoice.id).Nodup
  clean : (∀ c ∈ cs, NulFree c.id ∧ NulFree c.label) → ∀ c ∈ out, NulFree c.id

theorem assignIds_spec (native reserved : List String) (cs : List AuthChoice)
    (hcs : (cs.map (·.id)).Sublist native) (hreserved : native ⊆ reserved) :
    ∃ out, assignIds native reserved cs = some out ∧ Assigned native reserved cs out := by
  induction cs generalizing reserved with
  | nil => exact ⟨[], rfl, rfl, rfl, nofun, nofun, List.nodup_nil, nofun⟩
  | cons c cs ih =>
    have htail : (cs.map (·.id)).Sublist native := (List.sublist_cons_self _ _).trans hcs
    have hid : c.id ∈ native := hcs.subset (by simp)
    by_cases hc : native.count c.id = 1
    · obtain ⟨out, hout, h⟩ := ih reserved htail hreserved
      refine ⟨c :: out, by simp [assignIds, hc, hout], ?_, ?_, ?_, ?_, ?_, ?_⟩
      · simp [h.length]
      · simp [h.labels]
      · intro k c' hk hc'
        cases k with
        | zero => exact hk
        | succ k => exact h.kept k c' hk hc'
      · intro id hmem
        obtain rfl | hmem := List.mem_cons.1 hmem
        · exact .inl ⟨by simp, hc⟩
        · exact (h.origin id hmem).imp_left fun ⟨hid, hone⟩ => ⟨List.mem_cons_of_mem _ hid, hone⟩
      · refine List.nodup_cons.2 ⟨fun hmem => ?_, h.distinct⟩
        obtain ⟨hagain, -⟩ | hnew := h.origin c.id hmem
        · -- the value occurs a second time
          have htwo : 1 < ((c :: cs).map (·.id)).count c.id := by
            simpa using List.count_pos_iff.2 hagain
          have hle := hcs.count_le c.id
          omega
        · exact hnew (hreserved hid)
      · intro hclean c' hc'
        obtain rfl | hc' := List.mem_cons.1 hc'
        · exact (hclean c' List.mem_cons_self).1
        · exact h.clean (fun c hc => hclean c (List.mem_cons_of_mem _ hc)) c' hc'
    · obtain ⟨id, hfound⟩ := freeId_isSome reserved (c.id ++ "#" ++ c.label)
      obtain ⟨out, hout, h⟩ := ih (id :: reserved) htail
        (List.Subset.trans hreserved (List.subset_cons_self _ _))
      have hfree := freeId_not_mem hfound
      refine ⟨{ c with id } :: out, by simp [assignIds, hc, hfound, hout],
        ?_, ?_, ?_, ?_, ?_, ?_⟩
      · simp [h.length]
      · simp [h.labels]
      · intro k c' hk hc'
        cases k with
        | zero =>
          cases hk
          exact absurd hc' hc
        | succ k => exact h.kept k c' hk hc'
      · intro id' hmem
        obtain rfl | hmem := List.mem_cons.1 hmem
        · exact .inr hfree
        · refine (h.origin id' hmem).imp (fun ⟨hid, hone⟩ => ⟨List.mem_cons_of_mem _ hid, hone⟩) ?_
          exact fun hnew hold => hnew (List.mem_cons_of_mem _ hold)
      · refine List.nodup_cons.2 ⟨fun hmem => ?_, h.distinct⟩
        obtain ⟨hagain, -⟩ | hnew := h.origin id hmem
        · exact hfree (hreserved (htail.subset hagain))
        · exact hnew List.mem_cons_self
      · intro hclean c' hc'
        obtain rfl | hc' := List.mem_cons.1 hc'
        · obtain ⟨i, rfl⟩ := freeId_eq_candidate (k := 0) hfound
          have hc := hclean c List.mem_cons_self
          exact nulFree_candidate ((hc.1.append (by decide)).append hc.2) i
        · exact h.clean (fun c hc => hclean c (List.mem_cons_of_mem _ hc)) c' hc'

/-- **The public IDs**: every list of choices gets pairwise distinct ones; a native value that
occurs once stays the ID of its choice. -/
theorem choiceIds_spec (choices : List AuthChoice) :
    ∃ out, choiceIds choices = some (out, choices.map (·.id)) ∧
      Assigned (choices.map (·.id)) (choices.map (·.id)) choices out := by
  obtain ⟨out, hout, h⟩ := assignIds_spec (choices.map (·.id)) (choices.map (·.id)) choices
    (List.Sublist.refl _) (List.Subset.refl _)
  exact ⟨out, by simp [choiceIds, hout], h⟩

/-! ### Reading a form -/

structure NativeChoice where
  name : TextPointer
  label : TextPointer

/-- One option of a native form; `choices` is null, or holds pointers that may be. -/
structure NativeOption where
  flags : ℕ
  kind : ℕ
  name : TextPointer
  label : TextPointer
  choices : Option (List (Option NativeChoice))

/-- A field, the option it stands for and the native values of its choices. -/
structure Bound where
  field : AuthField
  option : ℕ
  native : List String
  deriving DecidableEq

/-- The choices of a selection. -/
def readChoices : List (Option NativeChoice) → Run (List AuthChoice)
  | [] => pure []
  | none :: _ => Exec.fail (.new .protocolViolation "Missing authentication choice")
  | some c :: cs => do
    let name ← c.name.read
    let label ← c.label.readOptional
    let cs ← readChoices cs
    pure ({ id := name.text, label := (label.map (·.text)).getD "" } :: cs)

/-- The field of a selection. -/
def readSelection (choices : Option (List (Option NativeChoice))) :
    Run (List AuthChoice × List String) := do
  let choices := choices.getD []
  Exec.rejectIf (choices.isEmpty || choices.length > 256)
    (.new .protocolViolation "Invalid authentication choices")
  let choices ← readChoices choices
  match choiceIds choices with
  | some found => pure found
  | none => .error .panic

/-- What `opt.type_` means; the kinds 6 and 7 are the library's own. -/
def fieldKind : ℕ → Run AuthFieldKind
  | 1 => pure .text
  | 2 => pure .password
  | 3 => pure .select
  | 5 => pure .token
  | _ => Exec.fail (.new .unsupportedAuthentication "Unknown native authentication field kind")

/-- The choices of a field and their native values. -/
def NativeOption.choose (opt : NativeOption) (kind : AuthFieldKind) :
    Run (List AuthChoice × List String) :=
  if kind = .select then readSelection opt.choices else pure ([], [])

/-- The loop over the options of a form, from option number `i` on, with the fields so far. -/
def readOptions (token : Bool) (i : ℕ) (bound : List Bound) :
    List NativeOption → Run (List Bound)
  | [] => pure bound
  | opt :: opts => do
    Exec.rejectIf (i ≥ 256)
      (.new .protocolViolation "Authentication form is too large or cyclic")
    if opt.flags % 2 = 1 || opt.kind = 4 || opt.kind = 6 || opt.kind = 7 then
      readOptions token (i + 1) bound opts
    else do
      let kind ← fieldKind opt.kind
      if kind = .token && token then readOptions token (i + 1) bound opts
      else do
        let name ← opt.name.read
        Exec.rejectIf (bound.any fun b => b.field.name == name.text)
          (.new .protocolViolation "Duplicate authentication field name")
        let (choices, native) ← opt.choose kind
        let label ← opt.label.readOptional
        let field : AuthField :=
          { name := name.text, label := (label.map (·.text)).getD "", kind, required := true
            numeric := opt.flags / 2 % 2 = 1, choices }
        readOptions token (i + 1) (bound ++ [{ field, option := i, native }]) opts

/-- What a choice was before it got its public ID. -/
theorem readChoices_spec {l : List (Option NativeChoice)} {cs : List AuthChoice}
    (h : readChoices l = .ok cs) :
    (∀ (k : ℕ) (c : AuthChoice), cs[k]? = some c →
      ∃ (native : NativeChoice) (t : NativeText), l[k]? = some (some native) ∧
        native.name = .text t ∧ c.id = t.text) ∧
    ∀ c ∈ cs, NulFree c.id ∧ NulFree c.label := by
  induction l generalizing cs with
  | nil =>
    cases h
    exact ⟨nofun, nofun⟩
  | cons first l ih => cases first with
    | none => cases h
    | some native =>
      simp only [readChoices, Exec.bind_eq_ok] at h
      obtain ⟨name, hname, label, hlabel, cs, hcs, h⟩ := h
      obtain rfl := Except.ok.inj h
      have htext : native.name = .text name := by
        cases hn : native.name with
        | null => simp [hn, TextPointer.read] at hname
        | unreadable e => simp [hn, TextPointer.read] at hname
        | text t => simpa [hn, TextPointer.read] using hname
      refine ⟨?_, ?_⟩
      · intro k c hk
        cases k with
        | zero =>
          cases hk
          exact ⟨native, name, rfl, htext, rfl⟩
        | succ k => exact (ih hcs).1 k c hk
      · intro c hc
        obtain rfl | hc := List.mem_cons.1 hc
        · refine ⟨name.clean, ?_⟩
          cases label with
          | none => exact List.not_mem_nil
          | some t => exact t.clean
        · exact (ih hcs).2 c hc

/-- What a field says of the option it stands for. -/
structure Bound.Reads (opts : List NativeOption) (b : Bound) : Prop where
  required : b.field.required = true
  selects : b.field.kind = .select → ∃ opt natives cs, opts[b.option]? = some opt ∧
    opt.choices = some natives ∧ readChoices natives = .ok cs ∧
    choiceIds cs = some (b.field.choices, b.native)

/-- The fields of a form: every option has one at most. -/
structure Table (opts : List NativeOption) (i : ℕ) (bound : List Bound) : Prop where
  reads : ∀ b ∈ bound, b.Reads opts
  before : ∀ b ∈ bound, b.option < i
  distinct : (bound.map Bound.option).Nodup

theorem readSelection_spec {choices : Option (List (Option NativeChoice))}
    {found : List AuthChoice × List String} (h : readSelection choices = .ok found) :
    ∃ natives cs, choices = some natives ∧ readChoices natives = .ok cs ∧
      choiceIds cs = some found := by
  cases choices with
  | none => simp [readSelection, Exec.rejectIf, Exec.fail, bind, Except.bind] at h
  | some natives =>
    simp only [readSelection, Exec.bind_eq_ok, Option.getD_some] at h
    obtain ⟨-, -, cs, hcs, h⟩ := h
    split at h
    · rename_i found' hfound
      cases h
      exact ⟨natives, cs, rfl, hcs, hfound⟩
    · cases h

/-- One field more. -/
theorem Table.concat {opts : List NativeOption} {bound : List Bound} {b : Bound} {i : ℕ}
    (h : Table opts i bound) (hb : b.Reads opts) (hi : b.option = i) :
    Table opts (i + 1) (bound ++ [b]) where
  reads := by simpa [or_imp, forall_and] using ⟨h.reads, hb⟩
  before := by
    intro b' hb'
    obtain hb' | hb' := List.mem_append.1 hb'
    · exact Nat.lt_succ_of_lt (h.before b' hb')
    · simp [List.mem_singleton.1 hb', hi]
  distinct := by
    rw [List.map_append, List.nodup_append]
    refine ⟨h.distinct, List.nodup_singleton _, ?_⟩
    intro m hm n hn
    obtain ⟨b', hb', rfl⟩ := List.mem_map.1 hm
    have hn : n = b.option := by simpa using hn
    exact ((h.before b' hb').trans_eq (hi.symm.trans hn.symm)).ne

theorem Table.mono {opts : List NativeOption} {bound : List Bound} {i : ℕ}
    (h : Table opts i bound) : Table opts (i + 1) bound :=
  { h with before := fun b hb => Nat.lt_succ_of_lt (h.before b hb) }

theorem readOptions_spec {token : Bool} {opts rest : List NativeOption} {i : ℕ}
    {bound out : List Bound} (hrest : opts.drop i = rest) (hi : Table opts i bound)
    (h : readOptions token i bound rest = .ok out) : ∃ n, Table opts n out := by
  induction rest generalizing i bound with
  | nil =>
    cases h
    exact ⟨i, hi⟩
  | cons opt rest ih =>
    have hopt : opts[i]? = some opt := by
      have hhead := congrArg List.head? hrest
      rwa [List.head?_drop] at hhead
    have hnext : opts.drop (i + 1) = rest := by
      rw [← List.tail_drop, hrest, List.tail_cons]
    rw [readOptions, Exec.bind_eq_ok] at h
    obtain ⟨-, -, h⟩ := h
    split_ifs at h
    · exact ih hnext hi.mono h
    · rw [Exec.bind_eq_ok] at h
      obtain ⟨kind, -, h⟩ := h
      split_ifs at h
      · exact ih hnext hi.mono h
      · simp only [Exec.bind_eq_ok] at h
        obtain ⟨name, -, -, -, ⟨choices, native⟩, hfound, label, -, h⟩ := h
        refine ih hnext (hi.concat ⟨rfl, fun hkind => ?_⟩ rfl) h
        rw [NativeOption.choose, if_pos hkind] at hfound
        obtain ⟨natives, cs, hnatives, hcs, hids⟩ := readSelection_spec hfound
        exact ⟨opt, natives, cs, hopt, hnatives, hcs, hids⟩

/-! ### Writing the answers -/

/-- What the library was told. -/
structure Written where
  writes : List (ℕ × String) := []
  /-- `authgroup_selection`. -/
  selection : Option ℕ := none
  /-- `group_selected`. -/
  groupSelected : Option String := none
  deriving DecidableEq

/-- The choice that an answer selects. -/
def AuthField.selection (f : AuthField) (answer : String) : Run (Option ℕ) :=
  if f.kind = .select then
    match f.choices.findIdx? (·.id == answer) with
    | some k => pure (some k)
    | none => Exec.fail stale
  else pure none

/-- The native value of an answer. -/
def Bound.value (b : Bound) (answer : String) : Option ℕ → Run String
  | none => cstring answer
  | some k => match b.native[k]? with
    | some value => cstring value
    | none => .error .panic

/-- One field in the last loop of `form`; it goes on if there is no result. -/
def writeAnswer (accepts : ℕ → String → Bool) (group : Option ℕ)
    (answers : List (String × String)) (b : Bound) (w : Written) : Written × Option (Run ℕ) :=
  match answers.lookup b.field.name with
  | none => (w, some (Exec.fail (.invalid "Missing authentication answer")))
  | some answer => match b.field.selection answer with
    | .error e => (w, some (.error e))
    | .ok selection => match b.value answer selection with
      | .error e => (w, some (.error e))
      | .ok value =>
        if !accepts b.option value then
          (w, some (Exec.fail
            (.new .runtimeFailure "OpenConnect could not apply authentication answer")))
        else
          let w := { w with writes := w.writes ++ [(b.option, value)] }
          if group = some b.option then
            match selection with
            | none => (w, some (Exec.fail stale))
            | some k =>
              let w := { w with selection := some k }
              -- the library rebuilds the fields that depend on the group
              if w.groupSelected = some answer then (w, none)
              else ({ w with groupSelected := some answer }, some (pure 2))
          else (w, none)

/-- The last loop of `form`. -/
def writeAnswers (accepts : ℕ → String → Bool) (group : Option ℕ)
    (answers : List (String × String)) : List Bound → Written → Written × Run ℕ
  | [], w => (w, pure 0)
  | b :: bs, w => match writeAnswer accepts group answers b w with
    | (w, some result) => (w, result)
    | (w, none) => writeAnswers accepts group answers bs w

/-- The end of `form`: the reply is checked against the fields that were shown, then written. -/
def submit (accepts : ℕ → String → Bool) (group : Option ℕ) (prompt : AuthPrompt)
    (shown : List Bound) (reply : AuthReply) (w : Written) : Written × Run ℕ :=
  match { prompt with fields := shown.map Bound.field }.validateReply reply with
  | .error e => (w, .error e)
  | .ok () => match reply.answers with
    | none => (w, Exec.fail cancelled)
    | some answers => writeAnswers accepts group answers shown w

/-! ### What the answers do -/

theorem cstring_eq_ok {value : String} (hshort : value.utf8ByteSize ≤ nativeBytes)
    (hclean : NulFree value) : cstring value = .ok value := by
  have hnul : Char.ofNat 0 ∉ value.toList := hclean
  simp [cstring, hnul, Exec.rejectIf, Nat.not_lt.2 hshort]

/-- The answer is kept by the check of the form. -/
def AuthField.Admits (f : AuthField) (id : String) : Prop :=
  id ≠ "" ∧ id.utf8ByteSize ≤ nativeBytes ∧ (f.numeric = true → id.toList.all Char.isDigit = true)

/-- The check of a field that must be answered, for one of its own IDs. -/
theorem validateAnswer_iff {f : AuthField} {answers : List (String × String)} {c : AuthChoice}
    (hrequired : f.required = true) (hc : c ∈ f.choices) (hclean : NulFree c.id)
    (hanswer : answers.lookup f.name = some c.id) :
    f.validateAnswer answers = .ok () ↔ f.Admits c.id := by
  have hnul : Char.ofNat 0 ∉ c.id.toList := hclean
  have hany : f.choices.any (·.id == c.id) = true := List.any_eq_true.2 ⟨c, hc, by simp⟩
  have hempty : c.id.isEmpty = false ↔ c.id ≠ "" := by
    rw [← Bool.not_eq_true, String.isEmpty_iff]
  rw [AuthField.Admits, ← hempty]
  cases hid : c.id.isEmpty with
  | true =>
    simp [AuthField.validateAnswer, Exec.bind_eq_ok, hanswer, hrequired, hid, Exec.rejectIf,
      Exec.fail]
  | false =>
    simp [AuthField.validateAnswer, Exec.bind_eq_ok, hanswer, hnul, hany, hid, nativeBytes]

/-- A write for an option adds to what the library was told. -/
theorem writeAnswer_grows (accepts : ℕ → String → Bool) (group : Option ℕ)
    (answers : List (String × String)) (b : Bound) (w : Written) :
    w.writes <+: (writeAnswer accepts group answers b w).1.writes ∧
      (group ≠ some b.option →
        (writeAnswer accepts group answers b w).1.selection = w.selection) := by
  rw [writeAnswer]
  split
  · simp
  · split
    · simp
    · split
      · simp
      · split_ifs with haccepts hgroup
        · simp
        · split
          · simp [hgroup]
          · dsimp only
            split_ifs <;> simp [hgroup]
        · simp

theorem writeAnswers_grows (accepts : ℕ → String → Bool) (group : Option ℕ)
    (answers : List (String × String)) (bs : List Bound) (w : Written) :
    w.writes <+: (writeAnswers accepts group answers bs w).1.writes ∧
      ((∀ b ∈ bs, group ≠ some b.option) →
        (writeAnswers accepts group answers bs w).1.selection = w.selection) := by
  induction bs generalizing w with
  | nil => exact ⟨List.prefix_rfl, fun _ => rfl⟩
  | cons b bs ih =>
    have hb := writeAnswer_grows accepts group answers b w
    rw [writeAnswers]
    split
    · rename_i w' result h
      rw [h] at hb
      exact ⟨hb.1, fun hgroup => hb.2 (hgroup b List.mem_cons_self)⟩
    · rename_i w' h
      rw [h] at hb
      refine ⟨hb.1.trans (ih w').1, fun hgroup => ?_⟩
      rw [(ih w').2 fun b' hb' => hgroup b' (List.mem_cons_of_mem _ hb'),
        hb.2 (hgroup b List.mem_cons_self)]

/-- A field that ends the loop does not end it with success. -/
theorem writeAnswer_ne {accepts : ℕ → String → Bool} {group : Option ℕ}
    {answers : List (String × String)} {b : Bound} {w w' : Written} :
    writeAnswer accepts group answers b w ≠ (w', some (pure 0)) := by
  intro h
  rw [writeAnswer] at h
  split at h
  · cases h
  · split at h
    · cases h
    · split at h
      · cases h
      · split_ifs at h
        · cases h
        · split at h
          · cases h
          · dsimp only at h
            split_ifs at h <;> cases h
        · cases h

/-- The loop goes on after answers that did not end it. -/
theorem writeAnswers_append {accepts : ℕ → String → Bool} {group : Option ℕ}
    {answers : List (String × String)} {bs : List Bound} {w w' : Written}
    (h : writeAnswers accepts group answers bs w = (w', pure 0)) (rest : List Bound) :
    writeAnswers accepts group answers (bs ++ rest) w =
      writeAnswers accepts group answers rest w' := by
  induction bs generalizing w with
  | nil =>
    cases h
    rfl
  | cons b bs ih =>
    rw [writeAnswers] at h
    rw [List.cons_append, writeAnswers]
    split at h
    · rename_i w'' result hb
      cases h
      exact absurd hb writeAnswer_ne
    · exact ih h

/-- The ID of a choice is written as its native value. -/
theorem writeAnswer_spec {accepts : ℕ → String → Bool} {answers : List (String × String)}
    {b : Bound} {k : ℕ} {c : AuthChoice} {value : String}
    (hkind : b.field.kind = .select) (hids : (b.field.choices.map AuthChoice.id).Nodup)
    (hc : b.field.choices[k]? = some c) (hvalue : b.native[k]? = some value)
    (hstring : cstring value = .ok value) (hanswer : answers.lookup b.field.name = some c.id)
    (haccepts : accepts b.option value = true) (group : Option ℕ) (w : Written) :
    (writeAnswer accepts group answers b w).1.writes = w.writes ++ [(b.option, value)] ∧
      (group = some b.option → (writeAnswer accepts group answers b w).1.selection = some k) := by
  have hfind : b.field.choices.findIdx? (·.id == c.id) = some k := by
    obtain ⟨hk, hget⟩ := List.getElem?_eq_some_iff.1 hc
    refine List.findIdx?_eq_some_iff_getElem.2 ⟨hk, by simp [hget], fun j hj hsame => ?_⟩
    -- two places with one ID
    have heq : (b.field.choices.map AuthChoice.id)[j]? = some c.id := by
      simpa [List.getElem?_eq_getElem (hj.trans hk)] using hsame
    have hlast : (b.field.choices.map AuthChoice.id)[k]? = some c.id := by simp [hc]
    exact List.nodup_iff_getElem?_ne_getElem?.1 hids j k hj (by simpa using hk)
      (heq.trans hlast.symm)
  have hselection : b.field.selection c.id = .ok (some k) := by
    simp [AuthField.selection, hkind, hfind]
  have hstring : b.value c.id (some k) = .ok value := by
    simp [Bound.value, hvalue, hstring]
  simp only [writeAnswer, hanswer, hselection, hstring, haccepts, Bool.not_true]
  by_cases hgroup : group = some b.option
  · by_cases hchanged : w.groupSelected = some c.id <;> simp [hgroup, hchanged]
  · simp [hgroup]

/-! ### Saved choices -/

/-- A filter that keeps one element keeps it at one place. -/
theorem exists_place_of_filter {α : Type} {p : α → Bool} {l : List α} {a : α}
    (h : l.filter p = [a]) :
    ∃ k : ℕ, l[k]? = some a ∧ ∀ (j : ℕ) (b : α), l[j]? = some b → (p b = true ↔ j = k) := by
  induction l with
  | nil => cases h
  | cons first l ih =>
    by_cases hfirst : p first = true
    · rw [List.filter_cons_of_pos hfirst] at h
      obtain ⟨rfl, hrest⟩ := List.cons.inj h
      refine ⟨0, rfl, fun j b hb => ?_⟩
      cases j with
      | zero =>
        cases hb
        simpa using hfirst
      | succ j =>
        have hnot := List.filter_eq_nil_iff.1 hrest b (List.mem_of_getElem? hb)
        simpa using hnot
    · rw [List.filter_cons_of_neg hfirst] at h
      obtain ⟨k, hk, hall⟩ := ih h
      refine ⟨k + 1, hk, fun j b hb => ?_⟩
      cases j with
      | zero =>
        cases hb
        simpa using hfirst
      | succ j => simpa using hall j b hb

/-- A saved value that is found belongs to one choice. -/
theorem savedChoice_spec {cs out : List AuthChoice} {f : AuthField} {saved id : String}
    (hids : choiceIds cs = some (out, cs.map (·.id))) (hf : f.choices = out)
    (h : savedChoice f (cs.map (·.id)) saved = .ok id) :
    ∃ k : ℕ, (∃ c, out[k]? = some c ∧ c.id = id) ∧
      ∀ (j : ℕ) (c : AuthChoice), cs[j]? = some c → ((c.id = saved ∨ c.label = saved) ↔ j = k) := by
  obtain ⟨out', hids', hspec⟩ := choiceIds_spec cs
  obtain rfl : out = out' := by
    rw [hids] at hids'
    exact congrArg Prod.fst (Option.some.inj hids')
  rw [savedChoice, hf] at h
  split at h
  · cases h
  · rename_i first hfilter
    obtain ⟨k, hk, hall⟩ := exists_place_of_filter hfilter
    obtain ⟨hout, -⟩ := List.getElem?_zip_eq_some.1 hk
    refine ⟨k, ⟨first.1, hout, Except.ok.inj h⟩, fun j c hj => ?_⟩
    have hlabel : (out.map AuthChoice.label)[j]? = some c.label := by
      rw [hspec.labels, List.getElem?_map, hj, Option.map_some]
    rw [List.getElem?_map, Option.map_eq_some_iff] at hlabel
    obtain ⟨c', hc', hlabel⟩ := hlabel
    have hpair := hall j (c', c.id)
      (List.getElem?_zip_eq_some.2 ⟨hc', by rw [List.getElem?_map, hj, Option.map_some]⟩)
    rw [← hpair]
    simp [hlabel]
  · cases h

/-! ### Submitting a choice -/

/-- A reply that passes the check for every field but `b`. -/
structure AnswersOthers (prompt : AuthPrompt) (shown : List Bound) (b : Bound)
    (reply : AuthReply) (answers : List (String × String)) : Prop where
  current : reply.promptId = prompt.promptId ∧ reply.attemptId = prompt.attemptId
  answered : reply.answers = some answers
  known : ∀ x ∈ answers, ∃ b ∈ shown, b.field.name = x.1
  others : ∀ b' ∈ shown, b' ≠ b → b'.field.validateAnswer answers = .ok ()

/-- The check of a reply comes down to the answer for `b`. -/
theorem AnswersOthers.validate {prompt : AuthPrompt} {shown : List Bound} {b : Bound}
    {reply : AuthReply} {answers : List (String × String)}
    (h : AnswersOthers prompt shown b reply answers) (hb : b ∈ shown) :
    { prompt with fields := shown.map Bound.field }.validateReply reply = .ok () ↔
      b.field.validateAnswer answers = .ok () := by
  have hknown : (answers.any fun x => !(shown.map Bound.field).any (·.name == x.1)) = false := by
    rw [List.any_eq_false]
    intro x hx
    obtain ⟨b', hb', hname⟩ := h.known x hx
    simpa using ⟨b', hb', hname⟩
  simp only [AuthPrompt.validateReply, h.answered, h.current.1, h.current.2, bne_self_eq_false,
    Bool.or_self, Exec.bind_eq_ok, Exec.rejectIf_eq_ok, hknown, true_and, exists_const,
    Exec.forM_eq_ok, List.forall_mem_map]
  refine ⟨fun hall => hall b hb, fun hone b' hb' => ?_⟩
  by_cases hsame : b' = b
  · rwa [hsame]
  · exact h.others b' hb' hsame

/-- A choice of a field: its native value is the text that the library holds at its place. -/
structure Chosen (opts : List NativeOption) (b : Bound) (k : ℕ) (c : AuthChoice)
    (value : NativeText) : Prop where
  source : ∃ opt natives native, opts[b.option]? = some opt ∧ opt.choices = some natives ∧
    natives[k]? = some (some native) ∧ native.name = .text value
  value : b.native[k]? = some value.text
  ids : (b.field.choices.map AuthChoice.id).Nodup
  clean : NulFree c.id

theorem Bound.Reads.chosen {opts : List NativeOption} {b : Bound} (h : b.Reads opts)
    (hkind : b.field.kind = .select) {k : ℕ} {c : AuthChoice}
    (hc : b.field.choices[k]? = some c) : ∃ value, Chosen opts b k c value := by
  obtain ⟨opt, natives, cs, hopt, hnatives, hcs, hids⟩ := h.selects hkind
  obtain ⟨out, hids', hspec⟩ := choiceIds_spec cs
  have hpair : (b.field.choices, b.native) = (out, cs.map (·.id)) :=
    Option.some.inj (hids.symm.trans hids')
  obtain ⟨rfl, hnative⟩ := Prod.mk.inj hpair
  have hk : k < cs.length := by
    rw [← hspec.length]
    exact (List.getElem?_eq_some_iff.1 hc).1
  have hget : cs[k]? = some cs[k] := List.getElem?_eq_getElem hk
  obtain ⟨native, value, hsource, hname, hvalue⟩ := (readChoices_spec hcs).1 k cs[k] hget
  refine ⟨value, ⟨opt, natives, native, hopt, hnatives, hsource, hname⟩, ?_, hspec.distinct, ?_⟩
  · rw [hnative, List.getElem?_map, hget, Option.map_some, hvalue]
  · exact hspec.clean (readChoices_spec hcs).2 c (List.mem_of_getElem? hc)

/-- What `form` does with the ID of a choice. -/
theorem Chosen.submit {opts : List NativeOption} {b : Bound} {k : ℕ} {c : AuthChoice}
    {value : NativeText} (h : Chosen opts b k c value) (hkind : b.field.kind = .select)
    (hrequired : b.field.required = true) (hc : b.field.choices[k]? = some c)
    {accepts : ℕ → String → Bool} {group : Option ℕ} {prompt : AuthPrompt}
    {pre post : List Bound} {reply : AuthReply} {answers : List (String × String)} {w : Written}
    (hdistinct : ((pre ++ b :: post).map Bound.option).Nodup)
    (hothers : AnswersOthers prompt (pre ++ b :: post) b reply answers)
    (hanswer : answers.lookup b.field.name = some c.id) :
    (¬ b.field.Admits c.id →
      ∃ e, submit accepts group prompt (pre ++ b :: post) reply w = (w, .error e)) ∧
    (b.field.Admits c.id → ∀ w', writeAnswers accepts group answers pre w = (w', .ok 0) →
      accepts b.option value.text = true →
      ∃ w'' r, submit accepts group prompt (pre ++ b :: post) reply w = (w'', r) ∧
        w'.writes ++ [(b.option, value.text)] <+: w''.writes ∧
        (group = some b.option → w''.selection = some k)) := by
  have hvalidate := (hothers.validate (by simp)).trans
    (validateAnswer_iff hrequired (List.mem_of_getElem? hc) h.clean hanswer)
  rw [Auth.submit]
  refine ⟨fun hnot => ?_, fun hadmits w' hpre haccepts => ?_⟩
  · cases hresult : { prompt with fields := (pre ++ b :: post).map Bound.field }.validateReply
        reply with
    | error e => exact ⟨e, rfl⟩
    | ok u => exact absurd (hvalidate.1 hresult) hnot
  · have hstring := cstring_eq_ok value.short value.clean
    have hstep := writeAnswer_spec hkind h.ids hc h.value hstring hanswer haccepts group w'
    rw [hvalidate.2 hadmits, hothers.answered]
    dsimp only
    rw [writeAnswers_append hpre, writeAnswers]
    split
    · rename_i w'' r hb
      rw [hb] at hstep
      exact ⟨w'', r, rfl, hstep.1 ▸ List.prefix_rfl, hstep.2⟩
    · rename_i w'' hb
      rw [hb] at hstep
      have hgrows := writeAnswers_grows accepts group answers post w''
      refine ⟨_, _, rfl, hstep.1 ▸ hgrows.1, fun hgroup => ?_⟩
      rw [hgrows.2 ?_, hstep.2 hgroup]
      -- no later field stands for the same option
      intro b' hb' hsame
      have hoption : b.option = b'.option := Option.some.inj (hgroup.symm.trans hsame)
      rw [List.map_append, List.map_cons, List.nodup_append, List.nodup_cons] at hdistinct
      exact hdistinct.2.1.1 (hoption ▸ List.mem_map_of_mem hb')

/-- **A selected choice is the one submitted**, and its ID stands for it alone. -/
theorem choice_submitted (cs : List AuthChoice) {token : Bool} {opts : List NativeOption}
    {bound : List Bound} (hread : readOptions token 0 [] opts = .ok bound) {b : Bound}
    (hb : b ∈ bound) (hkind : b.field.kind = .select) {k : ℕ} {c : AuthChoice}
    (hc : b.field.choices[k]? = some c) :
    (∃ out, choiceIds cs = some (out, cs.map (·.id)) ∧ (out.map AuthChoice.id).Nodup ∧
      (∀ (j : ℕ) (c : AuthChoice), cs[j]? = some c → (cs.map (·.id)).count c.id = 1 →
        out[j]? = some c) ∧
      ∀ (f : AuthField) (saved id : String), f.choices = out →
        savedChoice f (cs.map (·.id)) saved = .ok id →
        ∃ k : ℕ, (∃ c, out[k]? = some c ∧ c.id = id) ∧
          ∀ (j : ℕ) (c : AuthChoice), cs[j]? = some c →
            ((c.id = saved ∨ c.label = saved) ↔ j = k)) ∧
    ∃ opt natives native value, opts[b.option]? = some opt ∧ opt.choices = some natives ∧
      natives[k]? = some (some native) ∧ native.name = .text value ∧
      ∀ (accepts : ℕ → String → Bool) (group : Option ℕ) (prompt : AuthPrompt)
        (pre post : List Bound) (reply : AuthReply) (answers : List (String × String))
        (w : Written), (pre ++ b :: post).Sublist bound →
        AnswersOthers prompt (pre ++ b :: post) b reply answers →
        answers.lookup b.field.name = some c.id →
        (¬ b.field.Admits c.id →
          ∃ e, submit accepts group prompt (pre ++ b :: post) reply w = (w, .error e)) ∧
        (b.field.Admits c.id → ∀ w', writeAnswers accepts group answers pre w = (w', .ok 0) →
          accepts b.option value.text = true →
          ∃ w'' r, submit accepts group prompt (pre ++ b :: post) reply w = (w'', r) ∧
            w'.writes ++ [(b.option, value.text)] <+: w''.writes ∧
            (group = some b.option → w''.selection = some k)) := by
  refine ⟨?_, ?_⟩
  · obtain ⟨out, hids, hspec⟩ := choiceIds_spec cs
    exact ⟨out, hids, hspec.distinct, hspec.kept, fun f saved id => savedChoice_spec hids⟩
  · have hempty : Table opts 0 [] := ⟨nofun, nofun, List.nodup_nil⟩
    obtain ⟨n, htable⟩ := readOptions_spec rfl hempty hread
    have hreads := htable.reads b hb
    obtain ⟨value, hchosen⟩ := hreads.chosen hkind hc
    obtain ⟨opt, natives, native, hopt, hnatives, hnative, hname⟩ := hchosen.source
    refine ⟨opt, natives, native, value, hopt, hnatives, hnative, hname, ?_⟩
    intro accepts group prompt pre post reply answers w hshown hothers hanswer
    have hdistinct := (hshown.map Bound.option).nodup htable.distinct
    exact hchosen.submit hkind hreads.required hc hdistinct hothers hanswer

/-- A form with one group, whose choices have the given native names. -/
def groupForm (names : List NativeText) : List NativeOption :=
  [{ flags := 0, kind := 3, name := .text ⟨"group", by decide, by decide⟩, label := .null
     choices := some (names.map fun name => some { name := .text name, label := .null }) }]

/-- What is read from such a form. -/
def groupBound (choices : List AuthChoice) (native : List String) : Bound where
  field := { name := "group", label := "", kind := .select, required := true, numeric := false
             choices }
  option := 0
  native := native

/-- A reply to such a form. -/
def groupReply (id : String) : AuthReply :=
  { promptId := 1, attemptId := 2, answers := some [("group", id)] }

def groupPrompt : AuthPrompt :=
  { promptId := 1, attemptId := 2, authId := "main", banner := none, message := none
    error := none, fields := [] }

/-- Two gateways at one address. -/
theorem choice_submitted_sample :
    ∃ w r, submit (fun _ _ => true) (some 0) groupPrompt
      [groupBound [⟨"gw#", ""⟩, ⟨"gw##1", ""⟩] ["gw", "gw"]] (groupReply "gw##1") {} = (w, r) ∧
      [(0, "gw")] <+: w.writes ∧ w.selection = some 1 := by
  have hread : readOptions false 0 []
      (groupForm [⟨"gw", by decide, by decide⟩, ⟨"gw", by decide, by decide⟩]) =
        .ok [groupBound [⟨"gw#", ""⟩, ⟨"gw##1", ""⟩] ["gw", "gw"]] := by decide +kernel
  have hc : (groupBound [⟨"gw#", ""⟩, ⟨"gw##1", ""⟩] ["gw", "gw"]).field.choices[1]? =
      some ⟨"gw##1", ""⟩ := rfl
  obtain ⟨opt, natives, native, value, hopt, hnatives, hnative, hname, hsubmit⟩ :=
    (choice_submitted [] hread List.mem_cons_self rfl hc).2
  cases hopt
  cases hnatives
  cases hnative
  cases hname
  have hothers : AnswersOthers groupPrompt
      [groupBound [⟨"gw#", ""⟩, ⟨"gw##1", ""⟩] ["gw", "gw"]]
      (groupBound [⟨"gw#", ""⟩, ⟨"gw##1", ""⟩] ["gw", "gw"]) (groupReply "gw##1")
      [("group", "gw##1")] :=
    ⟨⟨rfl, rfl⟩, rfl, by simp [groupBound], by simp⟩
  obtain ⟨w, r, hw, hwrites, hgroup⟩ := (hsubmit (fun _ _ => true) (some 0) groupPrompt [] []
    (groupReply "gw##1") [("group", "gw##1")] {} (List.Sublist.refl _) hothers rfl).2
    ⟨by decide, by decide, nofun⟩ {} rfl rfl
  exact ⟨w, r, hw, hwrites, hgroup rfl⟩

/-- A choice with an empty native name: its ID is not admitted. -/
theorem empty_choice_refused :
    readOptions false 0 [] (groupForm [⟨"", by decide, by decide⟩]) =
        .ok [groupBound [⟨"", ""⟩] [""]] ∧
      submit (fun _ _ => true) (some 0) groupPrompt [groupBound [⟨"", ""⟩] [""]]
          (groupReply "") {} =
        ({}, .error (.error (.invalid "Missing or invalid authentication answer"))) := by
  decide +kernel

end Ocvpn.Auth
