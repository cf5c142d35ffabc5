import Ocvpn.Browser.Completion

/-!
# Documents with a completion

`parse_fragment` of `crates/client/src/globalprotect.rs`: the walk through the markup of a document,
and through comments that hold markup.

`Reader` is the crate `quick_xml`, as it is set up here: the events of a text, where `bad` stands for
an error.  A comment is shorter than its text, so that the nested walks end.

## Main results

* `fragment_fuel` : the walk does not depend on the bound of its recursion.
* `fragment_length_le` : a document has at most as many events as allowed.
* `fragment_occurrences` : a field is read at most once, in a document and its comments together.
-/

namespace Ocvpn.Browser

open Ipc

/-! ### Markup -/

/-- A start tag or an empty element. -/
structure Tag where
  name : String
  /-- What follows the name. -/
  attributesRaw : String
  /-- The values of the attributes; `none` when they cannot be read. -/
  attributes : Option (List String)
  deriving DecidableEq, Repr

/-- `Event`, without `Eof`. -/
inductive Event where
  | start (tag : Tag)
  | empty (tag : Tag)
  | close (name : String)
  | text (value : String)
  | cData (value : String)
  | generalRef (name : String)
  | comment (value : String)
  | docType | decl | pi
  | bad
  deriving DecidableEq, Repr

/-- The crate `quick_xml`. -/
structure Reader where
  /-- What `read_event` returns, up to the end or an error. -/
  events : String → List Event
  /-- `resolve_char_ref`; `none` is an error. -/
  charRef : String → Option (Option Char)
  comment_length : ∀ s t, .comment t ∈ events s → t.length < s.length

/-- `MAX_EVENTS` and `MAX_DEPTH`. -/
structure Limits where
  events : ℕ
  depth : ℕ
  deriving DecidableEq, Repr

/-- The limits of the source. -/
def limits : Limits := { events := 32768, depth := 64 }

/-- The elements that have no end tag. -/
def voidNames : List String :=
  ["area", "base", "br", "col", "embed", "hr", "img", "input", "link", "meta", "param", "source",
    "track", "wbr"]

/-- `html_void`. -/
def htmlVoid (name : String) : Bool := voidNames.any (eqIgnoreAsciiCase name)

/-- The elements whose content is not read. -/
def inertNames : List String := ["script", "style", "template", "textarea"]

/-- The content of such an element is not read. -/
def inert (name : String) : Bool := inertNames.any (eqIgnoreAsciiCase name)

/-- `FIELDS.iter().position`. -/
def fieldIndex (name : String) : Option (Fin 4) := (List.finRange 4).find? (fieldNames · = name)

/-- The predefined entities. -/
def entity : String → Option Char
  | "amp" => some '&'
  | "lt" => some '<'
  | "gt" => some '>'
  | "apos" => some '\''
  | "quot" => some '"'
  | _ => none

section Walk

variable (R : Reader)

/-- What a reference stands for. -/
def resolveRef (name : String) : Run Char :=
  match R.charRef name with
  | none => Exec.fail malformed
  | some (some ch) => if xmlChar ch then pure ch else Exec.fail malformed
  | some none => match entity name with
    | some ch => pure ch
    | none => Exec.fail malformed

/-- The loop of `validate_attribute`; every round shortens the text. -/
def validateRefs : ℕ → List Char → Run Unit
  | 0, _ => Exec.fail malformed
  | k + 1, rest => match splitOnce '&' rest with
    | none => pure ()
    | some (_, rest) => match splitOnce ';' rest with
      | none => Exec.fail malformed
      | some (name, rest) => do
        let _ ← resolveRef R (String.ofList name)
        validateRefs k rest

/-- `validate_attribute`. -/
def validateAttribute (value : String) : Run Unit := do
  Exec.rejectIf (value.toList.contains '<') malformed
  validateRefs R (value.length + 1) value.toList

/-- The attributes of a tag. -/
def validateAttributes (tag : Tag) : Run Unit :=
  match tag.attributes with
  | none => Exec.fail malformed
  | some values => values.forM (validateAttribute R)

/-- Where a walk is. -/
structure Scan where
  fields : Fields
  stack : List String := []
  active : Option (Fin 4) := none
  suppressed : Option ℕ := none

variable (L : Limits)

/-- A tag that is read. -/
def readTag (isEmpty : Bool) (tag : Tag) (s : Scan) : Run Scan :=
  if s.suppressed.isSome then pure s
  else if inert tag.name then
    pure (if isEmpty then s else { s with suppressed := some (s.stack.length + 1) })
  else if tag.name = "cas-as" ∨ tag.name = "token" then Exec.fail unsupportedCas
  else match fieldIndex tag.name with
    | none => pure s
    | some i => do
      Exec.rejectIf ((s.fields i).isSome || tag.attributesRaw ≠ "") malformed
      pure { s with
        fields := Function.update s.fields i (some "")
        active := if isEmpty then s.active else some i }

/-- `Event::Start` and `Event::Empty`. -/
def openTag (outerDepth : ℕ) (isEmpty : Bool) (tag : Tag) (s : Scan) : Run Scan := do
  Exec.rejectIf (outerDepth + s.stack.length + 1 > L.depth || s.active.isSome) malformed
  validateAttributes R tag
  let s ← readTag isEmpty tag s
  pure (if !isEmpty && !htmlVoid tag.name then { s with stack := tag.name :: s.stack } else s)

/-- `Event::End`. -/
def closeTag (name : String) (s : Scan) : Run Scan :=
  match s.stack with
  | [] => Exec.fail malformed
  | top :: stack =>
    if top ≠ name then Exec.fail malformed
    else pure { s with
      stack
      active := none
      suppressed := if s.suppressed = some (stack.length + 1) then none else s.suppressed }

/-- Text of the active field. -/
def pushText (value : String) (s : Scan) : Run Scan :=
  match s.active with
  | none => pure s
  | some i => match s.fields i with
    | none => Exec.fail malformed
    | some old => pure { s with fields := Function.update s.fields i (some (old ++ value)) }

/-- A walk through a comment: its text, the fields, the events so far and the depth. -/
abbrev Nested := String → Fields → ℕ → ℕ → Run (Fields × ℕ)

/-- One event, and the number of events afterwards. -/
def step (nested : Nested) (outerDepth : ℕ) (s : Scan) (n : ℕ) : Event → Run (Scan × ℕ)
  | .start tag => do pure (← openTag R L outerDepth false tag s, n)
  | .empty tag => do pure (← openTag R L outerDepth true tag s, n)
  | .close name => do pure (← closeTag name s, n)
  | .text value => do pure (← pushText value s, n)
  | .cData value => do pure (← pushText value s, n)
  | .generalRef name => do
    let ch ← resolveRef R name
    pure (← pushText (String.singleton ch) s, n)
  | .comment value => do
    Exec.rejectIf s.active.isSome malformed
    if s.suppressed.isSome || !value.toList.contains '<' then pure (s, n)
    else do
      let (fields, n) ← nested value s.fields n (outerDepth + s.stack.length + 1)
      pure ({ s with fields }, n)
  | .docType | .decl | .pi | .bad => Exec.fail malformed

/-- One more event. -/
def tick (n : ℕ) : Run ℕ := do
  Exec.rejectIf (n + 1 > L.events) malformed
  pure (n + 1)

/-- The events of a text before its end. -/
def scan (nested : Nested) (outerDepth : ℕ) : List Event → Scan → ℕ → Run (Scan × ℕ)
  | [], s, n => pure (s, n)
  | ev :: evs, s, n => do
    let n ← tick L n
    let (s, n) ← step R L nested outerDepth s n ev
    scan nested outerDepth evs s n

/-- `parse_fragment`: so many levels of comments are walked through. -/
def fragment : ℕ → Nested
  | 0, _, _, _, _ => Exec.fail malformed
  | k + 1, input, fields, n, outerDepth => do
    let (s, n) ← scan R L (fragment k) outerDepth (R.events input) { fields } n
    let n ← tick L n
    Exec.rejectIf (!s.stack.isEmpty) malformed
    pure (s.fields, n)

/-- `parse_fragment` on a whole document. -/
def document (input : String) : Run Fields := do
  let (fields, _) ← fragment R L (input.length + 1) input (fun _ => none) 0 0
  pure fields

/-- The libraries underneath a completion. -/
def Reader.markup (decode : String → Option String) : Markup where
  decode
  fragment := document R L

end Walk

/-! ### One event after the other -/

section Rules

variable {R : Reader} {L : Limits} {nested : Nested} {outerDepth : ℕ}

theorem tick_eq_ok {n m : ℕ} : tick L n = .ok m ↔ n + 1 ≤ L.events ∧ m = n + 1 := by
  simp only [tick, Exec.bind_eq_ok, Exec.rejectIf_eq_ok, decide_eq_false_iff_not,
    Exec.pure_eq_ok, Except.ok.injEq]
  constructor
  · rintro ⟨⟨⟩, h, rfl⟩
    exact ⟨by omega, rfl⟩
  · rintro ⟨h, rfl⟩
    exact ⟨(), by omega, rfl⟩

theorem scan_cons_eq_ok {ev : Event} {evs : List Event} {s t : Scan} {n m : ℕ} :
    scan R L nested outerDepth (ev :: evs) s n = .ok (t, m) ↔ n + 1 ≤ L.events ∧ ∃ s₁ n₁,
      step R L nested outerDepth s (n + 1) ev = .ok (s₁, n₁) ∧
        scan R L nested outerDepth evs s₁ n₁ = .ok (t, m) := by
  simp only [scan, Exec.bind_eq_ok, tick_eq_ok, Prod.exists]
  constructor
  · rintro ⟨_, ⟨h, rfl⟩, s₁, n₁, hstep, hrest⟩
    exact ⟨h, s₁, n₁, hstep, hrest⟩
  · rintro ⟨h, s₁, n₁, hstep, hrest⟩
    exact ⟨_, ⟨h, rfl⟩, s₁, n₁, hstep, hrest⟩

theorem scan_append_eq_ok {as bs : List Event} {s t : Scan} {n m : ℕ} :
    scan R L nested outerDepth (as ++ bs) s n = .ok (t, m) ↔ ∃ s₁ n₁,
      scan R L nested outerDepth as s n = .ok (s₁, n₁) ∧
        scan R L nested outerDepth bs s₁ n₁ = .ok (t, m) := by
  induction as generalizing s n with
  | nil =>
    constructor
    · intro h
      exact ⟨s, n, rfl, h⟩
    · rintro ⟨s₁, n₁, h, hrest⟩
      cases h
      exact hrest
  | cons a as ih =>
    rw [List.cons_append, scan_cons_eq_ok]
    simp only [ih, scan_cons_eq_ok]
    constructor
    · rintro ⟨h, s₁, n₁, hstep, s₂, n₂, has, hbs⟩
      exact ⟨s₂, n₂, ⟨h, s₁, n₁, hstep, has⟩, hbs⟩
    · rintro ⟨s₂, n₂, ⟨h, s₁, n₁, hstep, has⟩, hbs⟩
      exact ⟨h, s₁, n₁, hstep, s₂, n₂, has, hbs⟩

theorem fragment_succ_eq_ok {k n m outerDepth : ℕ} {input : String} {fields out : Fields} :
    fragment R L (k + 1) input fields n outerDepth = .ok (out, m) ↔ ∃ s n₁,
      scan R L (fragment R L k) outerDepth (R.events input) { fields } n = .ok (s, n₁) ∧
        n₁ + 1 ≤ L.events ∧ s.stack = [] ∧ out = s.fields ∧ m = n₁ + 1 := by
  simp only [fragment, Exec.bind_eq_ok, tick_eq_ok, Exec.rejectIf_eq_ok, Prod.exists,
    Exec.pure_eq_ok, Except.ok.injEq, Prod.mk.injEq, Bool.not_eq_eq_eq_not, Bool.not_false,
    List.isEmpty_iff]
  constructor
  · rintro ⟨s, n₁, hscan, _, ⟨h, rfl⟩, ⟨⟩, hstack, rfl, rfl⟩
    exact ⟨s, n₁, hscan, h, hstack, rfl, rfl⟩
  · rintro ⟨s, n₁, hscan, h, hstack, rfl, rfl⟩
    exact ⟨s, n₁, hscan, _, ⟨h, rfl⟩, (), hstack, rfl, rfl⟩

theorem openTag_eq_ok {isEmpty : Bool} {tag : Tag} {s t : Scan} :
    openTag R L outerDepth isEmpty tag s = .ok t ↔
      outerDepth + s.stack.length + 1 ≤ L.depth ∧ s.active = none ∧
        validateAttributes R tag = .ok () ∧ ∃ s₁, readTag isEmpty tag s = .ok s₁ ∧
          t = if !isEmpty && !htmlVoid tag.name then { s₁ with stack := tag.name :: s₁.stack }
            else s₁ := by
  simp only [openTag, Exec.bind_eq_ok, Exec.rejectIf_eq_ok, Bool.or_eq_false_iff,
    decide_eq_false_iff_not, Option.isSome_eq_false_iff, Option.isNone_iff_eq_none,
    Exec.pure_eq_ok, Except.ok.injEq]
  constructor
  · rintro ⟨⟨⟩, ⟨hdepth, hactive⟩, ⟨⟩, hattributes, s₁, hread, rfl⟩
    exact ⟨by omega, hactive, hattributes, s₁, hread, rfl⟩
  · rintro ⟨hdepth, hactive, hattributes, s₁, hread, rfl⟩
    exact ⟨(), ⟨by omega, hactive⟩, (), hattributes, s₁, hread, rfl⟩

theorem step_comment_eq_ok {value : String} {s t : Scan} {n m : ℕ} :
    step R L nested outerDepth s n (.comment value) = .ok (t, m) ↔ s.active = none ∧
      if s.suppressed.isSome || !value.toList.contains '<' then t = s ∧ m = n
      else ∃ fields, nested value s.fields n (outerDepth + s.stack.length + 1) =
        .ok (fields, m) ∧ t = { s with fields } := by
  simp only [step, Exec.bind_eq_ok, Exec.rejectIf_eq_ok, Option.isSome_eq_false_iff,
    Option.isNone_iff_eq_none]
  split_ifs
  · simp only [Exec.pure_eq_ok, Except.ok.injEq, Prod.mk.injEq, exists_const, eq_comm]
  · simp only [Exec.bind_eq_ok, Prod.exists, Exec.pure_eq_ok, Except.ok.injEq, Prod.mk.injEq]
    constructor
    · rintro ⟨⟨⟩, hactive, fields, n₁, hnested, rfl, rfl⟩
      exact ⟨hactive, fields, hnested, rfl⟩
    · rintro ⟨hactive, fields, hnested, rfl⟩
      exact ⟨(), hactive, fields, m, hnested, rfl, rfl⟩

/-- What an event other than a comment does: it looks neither at the number of events nor into a
comment. -/
theorem step_of_not_comment {ev : Event} {s t : Scan} {n m : ℕ} (hev : ∀ value, ev ≠ .comment value)
    (h : step R L nested outerDepth s n ev = .ok (t, m)) : m = n ∧ ∀ L' nested' n',
      L.depth ≤ L'.depth → step R L' nested' outerDepth s n' ev = .ok (t, n') := by
  have hopen : ∀ isEmpty tag t, openTag R L outerDepth isEmpty tag s = .ok t →
      ∀ L' : Limits, L.depth ≤ L'.depth → openTag R L' outerDepth isEmpty tag s = .ok t := by
    intro isEmpty tag t h L' hle
    obtain ⟨hdepth, hrest⟩ := openTag_eq_ok.1 h
    exact openTag_eq_ok.2 ⟨hdepth.trans hle, hrest⟩
  cases ev with
  | comment value => exact absurd rfl (hev value)
  | start tag =>
    obtain ⟨t, ht, hpure⟩ := Exec.bind_eq_ok.1 h
    cases hpure
    exact ⟨rfl, fun L' _ n' hle => Exec.bind_eq_ok.2 ⟨t, hopen _ _ _ ht L' hle, rfl⟩⟩
  | empty tag =>
    obtain ⟨t, ht, hpure⟩ := Exec.bind_eq_ok.1 h
    cases hpure
    exact ⟨rfl, fun L' _ n' hle => Exec.bind_eq_ok.2 ⟨t, hopen _ _ _ ht L' hle, rfl⟩⟩
  | close name =>
    obtain ⟨t, ht, hpure⟩ := Exec.bind_eq_ok.1 h
    cases hpure
    exact ⟨rfl, fun _ _ _ _ => Exec.bind_eq_ok.2 ⟨t, ht, rfl⟩⟩
  | text value =>
    obtain ⟨t, ht, hpure⟩ := Exec.bind_eq_ok.1 h
    cases hpure
    exact ⟨rfl, fun _ _ _ _ => Exec.bind_eq_ok.2 ⟨t, ht, rfl⟩⟩
  | cData value =>
    obtain ⟨t, ht, hpure⟩ := Exec.bind_eq_ok.1 h
    cases hpure
    exact ⟨rfl, fun _ _ _ _ => Exec.bind_eq_ok.2 ⟨t, ht, rfl⟩⟩
  | generalRef name =>
    obtain ⟨ch, hch, h⟩ := Exec.bind_eq_ok.1 h
    obtain ⟨t, ht, hpure⟩ := Exec.bind_eq_ok.1 h
    cases hpure
    exact ⟨rfl, fun _ _ _ _ => Exec.bind_eq_ok.2 ⟨ch, hch, Exec.bind_eq_ok.2 ⟨t, ht, rfl⟩⟩⟩
  | docType => cases h
  | decl => cases h
  | pi => cases h
  | bad => cases h

/-! ### Levels of comments -/

/-- A walk depends on nested walks only for the comments it meets. -/
theorem scan_congr {nested' : Nested} {evs : List Event} {s : Scan} {n : ℕ}
    (h : ∀ value, .comment value ∈ evs → nested value = nested' value) :
    scan R L nested outerDepth evs s n = scan R L nested' outerDepth evs s n := by
  induction evs generalizing s n with
  | nil => rfl
  | cons ev evs ih =>
    have hstep : ∀ n, step R L nested outerDepth s n ev = step R L nested' outerDepth s n ev := by
      intro n
      cases ev with
      | comment value => simp only [step, h value List.mem_cons_self]
      | _ => rfl
    have hrest : ∀ s n, scan R L nested outerDepth evs s n = scan R L nested' outerDepth evs s n :=
      fun s n => ih fun value hvalue => h value (List.mem_cons_of_mem _ hvalue)
    simp only [scan, hstep, hrest]

/-- Every bound of the recursion is enough that exceeds the length of the text. -/
theorem fragment_fuel {k k' : ℕ} {input : String} (hk : input.length < k)
    (hk' : input.length < k') : fragment R L k input = fragment R L k' input := by
  induction k generalizing k' input with
  | zero => omega
  | succ k ih =>
    cases k' with
    | zero => omega
    | succ k' =>
      funext fields n outerDepth
      rw [fragment, fragment, scan_congr fun value hvalue => ?_]
      have hlength := R.comment_length input value hvalue
      exact ih (by omega) (by omega)

/-! ### The number of events -/

/-- A walk counts every event. -/
theorem scan_length_le {evs : List Event} {s t : Scan} {n m : ℕ}
    (hnested : ∀ value fields n depth out m, nested value fields n depth = .ok (out, m) → n ≤ m)
    (h : scan R L nested outerDepth evs s n = .ok (t, m)) : n + evs.length ≤ m := by
  induction evs generalizing s n with
  | nil =>
    cases h
    exact le_rfl
  | cons ev evs ih =>
    obtain ⟨-, s₁, n₁, hstep, hrest⟩ := scan_cons_eq_ok.1 h
    have hrest := ih hrest
    have hle : n + 1 ≤ n₁ := by
      by_cases hev : ∃ value, ev = .comment value
      · obtain ⟨value, rfl⟩ := hev
        obtain ⟨-, hcomment⟩ := step_comment_eq_ok.1 hstep
        split_ifs at hcomment
        · exact hcomment.2.ge
        · obtain ⟨fields, hok, -⟩ := hcomment
          exact hnested _ _ _ _ _ _ hok
      · exact (step_of_not_comment (fun value hvalue => hev ⟨value, hvalue⟩) hstep).1.ge
    rw [List.length_cons]
    omega

/-- A text that is accepted has no more events than allowed, with its end. -/
theorem fragment_length_le {k n m depth : ℕ} {input : String} {fields out : Fields}
    (h : fragment R L k input fields n depth = .ok (out, m)) :
    n + (R.events input).length + 1 ≤ m ∧ m ≤ L.events := by
  induction k generalizing input fields n depth out m with
  | zero => cases h
  | succ k ih =>
    obtain ⟨s, n₁, hscan, hlimit, -, -, rfl⟩ := fragment_succ_eq_ok.1 h
    have hnested : ∀ value fields n depth out m,
        fragment R L k value fields n depth = .ok (out, m) → n ≤ m := by
      intro value fields n depth out m h
      have hle := (ih h).1
      omega
    have hle := scan_length_le hnested hscan
    exact ⟨by omega, hlimit⟩

/-! ### What is read once -/

/-- The fields among the elements of a text, without those in inert elements, and with those in the
comments that hold markup: the height of the stack and the height of the inert element. -/
def fieldsOf (nested : String → List (Fin 4)) : List Event → ℕ → Option ℕ → List (Fin 4)
  | [], _, _ => []
  | .start tag :: evs, height, suppressed =>
    let next := if htmlVoid tag.name then height else height + 1
    if suppressed.isSome then fieldsOf nested evs next suppressed
    else if inert tag.name then fieldsOf nested evs next (some (height + 1))
    else (fieldIndex tag.name).toList ++ fieldsOf nested evs next none
  | .empty tag :: evs, height, suppressed =>
    if suppressed.isSome || inert tag.name then fieldsOf nested evs height suppressed
    else (fieldIndex tag.name).toList ++ fieldsOf nested evs height none
  | .close _ :: evs, height, suppressed =>
    fieldsOf nested evs (height - 1) (if suppressed = some height then none else suppressed)
  | .comment value :: evs, height, suppressed =>
    if suppressed.isSome || !value.toList.contains '<' then fieldsOf nested evs height suppressed
    else nested value ++ fieldsOf nested evs height none
  | _ :: evs, height, suppressed => fieldsOf nested evs height suppressed

variable (R) in
/-- The fields of a text and of so many levels of comments. -/
def occurrencesIn : ℕ → String → List (Fin 4)
  | 0, _ => []
  | k + 1, input => fieldsOf (occurrencesIn k) (R.events input) 0 none

variable (R) in
/-- The fields of a document and its comments. -/
def occurrences (input : String) : List (Fin 4) := occurrencesIn R (input.length + 1) input

/-- Fields were read once each: they were not there before, and they are there now. -/
structure ReadOnce (read : List (Fin 4)) (before after : Fields) : Prop where
  nodup : read.Nodup
  fresh : ∀ i ∈ read, before i = none
  isSome : ∀ i, (after i).isSome ↔ (before i).isSome ∨ i ∈ read

namespace ReadOnce

variable {before between after : Fields} {as bs : List (Fin 4)}

theorem refl (h : ∀ i, (after i).isSome ↔ (before i).isSome) : ReadOnce [] before after :=
  ⟨List.nodup_nil, nofun, fun i => by simp [h i]⟩

theorem append (h : ReadOnce as before between) (h' : ReadOnce bs between after) :
    ReadOnce (as ++ bs) before after := by
  have hfresh : ∀ i ∈ bs, before i = none ∧ i ∉ as := by
    intro i hi
    have hnone : ¬ (between i).isSome := by simp [h'.fresh i hi]
    rw [h.isSome, not_or] at hnone
    exact ⟨by simpa using hnone.1, hnone.2⟩
  refine ⟨List.nodup_append.2 ⟨h.nodup, h'.nodup, ?_⟩, ?_, fun i => ?_⟩
  · rintro i hi j hj rfl
    exact (hfresh i hj).2 hi
  · intro i hi
    obtain hi | hi := List.mem_append.1 hi
    · exact h.fresh i hi
    · exact (hfresh i hi).1
  · rw [h'.isSome, h.isSome, List.mem_append, or_assoc]

end ReadOnce

/-- What a tag does that is read. -/
theorem readTag_cases {isEmpty : Bool} {tag : Tag} {s t : Scan}
    (h : readTag isEmpty tag s = .ok t) :
    (s.suppressed.isSome = true ∧ t = s) ∨
    (s.suppressed = none ∧ inert tag.name = true ∧
      t = if isEmpty then s else { s with suppressed := some (s.stack.length + 1) }) ∨
    (s.suppressed = none ∧ inert tag.name = false ∧ fieldIndex tag.name = none ∧ t = s) ∨
    ∃ i, s.suppressed = none ∧ inert tag.name = false ∧ fieldIndex tag.name = some i ∧
      s.fields i = none ∧ t = { s with
        fields := Function.update s.fields i (some "")
        active := if isEmpty then s.active else some i } := by
  rw [readTag] at h
  by_cases hsuppressed : s.suppressed.isSome
  · rw [if_pos hsuppressed] at h
    cases h
    exact .inl ⟨hsuppressed, rfl⟩
  rw [if_neg hsuppressed] at h
  have hnone : s.suppressed = none := by simpa using hsuppressed
  by_cases hinert : inert tag.name = true
  · rw [if_pos hinert] at h
    cases h
    exact .inr (.inl ⟨hnone, hinert, rfl⟩)
  rw [if_neg hinert] at h
  have hinert : inert tag.name = false := by simpa using hinert
  by_cases hcas : tag.name = "cas-as" ∨ tag.name = "token"
  · rw [if_pos hcas] at h
    cases h
  rw [if_neg hcas] at h
  cases hindex : fieldIndex tag.name with
  | none =>
    rw [hindex] at h
    cases h
    exact .inr (.inr (.inl ⟨hnone, hinert, rfl, rfl⟩))
  | some i =>
    rw [hindex] at h
    obtain ⟨⟨⟩, hfield, hpure⟩ := Exec.bind_eq_ok.1 h
    cases hpure
    rw [Exec.rejectIf_eq_ok, Bool.or_eq_false_iff] at hfield
    exact .inr (.inr (.inr ⟨i, hnone, hinert, rfl, by simpa using hfield.1, rfl⟩))

/-- A field that is opened is read once. -/
theorem readOnce_update {fields : Fields} {i : Fin 4} {value : String} (h : fields i = none) :
    ReadOnce [i] fields (Function.update fields i (some value)) := by
  refine ⟨List.nodup_singleton i, List.forall_mem_singleton.2 h, fun j => ?_⟩
  by_cases hj : j = i
  · subst hj
    simp
  · simp [hj]

theorem closeTag_eq_ok {name : String} {s t : Scan} : closeTag name s = .ok t ↔
    ∃ stack, s.stack = name :: stack ∧ t = { s with
      stack
      active := none
      suppressed := if s.suppressed = some (stack.length + 1) then none else s.suppressed } := by
  rw [closeTag]
  cases s.stack with
  | nil => simp
  | cons top stack =>
    dsimp only
    by_cases h : top = name
    · subst h
      rw [if_neg (not_not.2 rfl), Exec.pure_eq_ok, Except.ok.injEq]
      constructor
      · rintro rfl
        exact ⟨stack, rfl, rfl⟩
      · rintro ⟨stack', hstack, rfl⟩
        cases hstack
        rfl
    · rw [if_pos h]
      refine iff_of_false (Exec.fail_ne_ok _ _) fun ⟨stack', hstack, _⟩ => ?_
      exact h (List.cons.inj hstack).1

theorem pushText_isSome {value : String} {s t : Scan} (h : pushText value s = .ok t) :
    t.stack = s.stack ∧ t.suppressed = s.suppressed ∧
      ∀ i, (t.fields i).isSome ↔ (s.fields i).isSome := by
  rw [pushText] at h
  cases hactive : s.active with
  | none =>
    rw [hactive] at h
    cases h
    exact ⟨rfl, rfl, fun _ => .rfl⟩
  | some i =>
    rw [hactive] at h
    dsimp only at h
    cases hold : s.fields i with
    | none =>
      rw [hold] at h
      cases h
    | some old =>
      rw [hold] at h
      cases h
      refine ⟨rfl, rfl, fun j => ?_⟩
      by_cases hj : j = i
      · subst hj
        simp [hold]
      · simp [Function.update_of_ne hj]

/-- **A field is read at most once**, in the events of a text and in the comments among them. -/
theorem scan_readOnce {occ : String → List (Fin 4)} {evs : List Event} {s t : Scan} {n m : ℕ}
    (hnested : ∀ value fields n depth out m, nested value fields n depth = .ok (out, m) →
      ReadOnce (occ value) fields out)
    (h : scan R L nested outerDepth evs s n = .ok (t, m)) :
    ReadOnce (fieldsOf occ evs s.stack.length s.suppressed) s.fields t.fields := by
  induction evs generalizing s n with
  | nil =>
    cases h
    exact .refl fun _ => .rfl
  | cons ev evs ih =>
    obtain ⟨-, s₁, n₁, hstep, hrest⟩ := scan_cons_eq_ok.1 h
    replace hrest := ih hrest
    cases ev with
    | start tag =>
      obtain ⟨t₁, hopen, hpure⟩ := Exec.bind_eq_ok.1 hstep
      cases hpure
      obtain ⟨-, -, -, s₂, hread, rfl⟩ := openTag_eq_ok.1 hopen
      -- opening an element changes the stack only
      have hpushed : ∀ t : Scan, (if !false && !htmlVoid tag.name then
          { t with stack := tag.name :: t.stack } else t).stack.length =
            (if htmlVoid tag.name then t.stack.length else t.stack.length + 1) ∧
          (if !false && !htmlVoid tag.name then
            { t with stack := tag.name :: t.stack } else t).suppressed = t.suppressed ∧
          (if !false && !htmlVoid tag.name then
            { t with stack := tag.name :: t.stack } else t).fields = t.fields := by
        intro t
        cases htmlVoid tag.name <;> exact ⟨rfl, rfl, rfl⟩
      obtain ⟨hlength, hsame, hfields⟩ := hpushed s₂
      rw [hlength, hsame, hfields] at hrest
      rw [fieldsOf]
      -- inside an inert element; an inert one; not a field; a field read for the first time
      obtain ⟨hsuppressed, rfl⟩ | ⟨hnone, hinert, rfl⟩ | ⟨hnone, hinert, hindex, rfl⟩ |
        ⟨i, hnone, hinert, hindex, hfresh, rfl⟩ := readTag_cases hread
      · rw [if_pos hsuppressed]
        exact hrest
      · rw [hnone, if_neg (by simp), if_pos hinert]
        exact hrest
      · rw [hnone] at hrest ⊢
        rw [if_neg (by simp), hinert, if_neg (by simp), hindex]
        exact hrest
      · rw [hnone] at hrest ⊢
        rw [if_neg (by simp), hinert, if_neg (by simp), hindex]
        exact (readOnce_update hfresh).append hrest
    | empty tag =>
      obtain ⟨t₁, hopen, hpure⟩ := Exec.bind_eq_ok.1 hstep
      cases hpure
      obtain ⟨-, -, -, s₂, hread, rfl⟩ := openTag_eq_ok.1 hopen
      rw [fieldsOf]
      obtain ⟨hsuppressed, rfl⟩ | ⟨hnone, hinert, rfl⟩ | ⟨hnone, hinert, hindex, rfl⟩ |
        ⟨i, hnone, hinert, hindex, hfresh, rfl⟩ := readTag_cases hread
      · rw [hsuppressed]
        exact hrest
      · rw [hinert, Bool.or_true]
        exact hrest
      · rw [hnone] at hrest ⊢
        rw [hinert, if_neg (by simp), hindex]
        exact hrest
      · rw [hnone] at hrest ⊢
        rw [hinert, if_neg (by simp), hindex]
        exact (readOnce_update hfresh).append hrest
    | close name =>
      obtain ⟨t₁, hclose, hpure⟩ := Exec.bind_eq_ok.1 hstep
      cases hpure
      obtain ⟨stack, hstack, rfl⟩ := closeTag_eq_ok.1 hclose
      rw [fieldsOf, hstack]
      exact hrest
    | text value =>
      obtain ⟨t₁, hpush, hpure⟩ := Exec.bind_eq_ok.1 hstep
      cases hpure
      obtain ⟨hstack, hsuppressed, hfields⟩ := pushText_isSome hpush
      rw [hstack, hsuppressed] at hrest
      exact ReadOnce.append (.refl hfields) hrest
    | cData value =>
      obtain ⟨t₁, hpush, hpure⟩ := Exec.bind_eq_ok.1 hstep
      cases hpure
      obtain ⟨hstack, hsuppressed, hfields⟩ := pushText_isSome hpush
      rw [hstack, hsuppressed] at hrest
      exact ReadOnce.append (.refl hfields) hrest
    | generalRef name =>
      obtain ⟨ch, -, hstep⟩ := Exec.bind_eq_ok.1 hstep
      obtain ⟨t₁, hpush, hpure⟩ := Exec.bind_eq_ok.1 hstep
      cases hpure
      obtain ⟨hstack, hsuppressed, hfields⟩ := pushText_isSome hpush
      rw [hstack, hsuppressed] at hrest
      exact ReadOnce.append (.refl hfields) hrest
    | comment value =>
      obtain ⟨-, hcomment⟩ := step_comment_eq_ok.1 hstep
      rw [fieldsOf]
      split_ifs at hcomment ⊢ with hskip
      · obtain ⟨rfl, rfl⟩ := hcomment
        exact hrest
      · obtain ⟨fields, hok, rfl⟩ := hcomment
        -- a comment is read only outside of inert elements
        have hnone : s.suppressed = none := by
          simp only [Bool.or_eq_true, not_or] at hskip
          simpa using hskip.1
        rw [hnone] at hrest
        exact (hnested _ _ _ _ _ _ hok).append hrest
    | docType => cases hstep
    | decl => cases hstep
    | pi => cases hstep
    | bad => cases hstep

theorem fragment_occurrences {k n m depth : ℕ} {input : String} {fields out : Fields}
    (h : fragment R L k input fields n depth = .ok (out, m)) :
    ReadOnce (occurrencesIn R k input) fields out := by
  induction k generalizing input fields n depth out m with
  | zero => cases h
  | succ k ih =>
    obtain ⟨s, n₁, hscan, -, -, rfl, -⟩ := fragment_succ_eq_ok.1 h
    exact scan_readOnce (fun _ _ _ _ _ _ h => ih h) hscan

/-- The fields of a document that is accepted are those that occur in it, once each. -/
theorem document_readOnce {input : String} {fields : Fields}
    (h : document R L input = .ok fields) :
    ReadOnce (occurrences R input) (fun _ => none) fields := by
  obtain ⟨⟨out, m⟩, hfragment, hpure⟩ := Exec.bind_eq_ok.1 h
  cases hpure
  exact fragment_occurrences hfragment

end Rules

end Ocvpn.Browser
