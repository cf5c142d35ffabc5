import Ocvpn.Browser.Inert

/-!
# Completions in headers and in documents

A completion in the headers of a page and the same completion in the elements of a document amount
to the same, as long as the document is within the limits.  There are none for headers.

## Main results

* `headerFields_eq` and `document_carries` : both ways, the fields are what was written.
* `completions_agree` : the two ways end alike.
-/

namespace Ocvpn.Browser

open Ipc

/-! ### Rules for the fields -/

namespace Fields

variable (values : Fields)

theorem completion_eq (account credential character : Error) :
    values.completion account credential character =
      if (List.finRange 4).all (values · |>.isNone) then pure none
      else Exec.rejectIf (values 0 != some "1") notAuthenticated >>= fun _ =>
        values.username account >>= fun name => values.cookie credential >>= fun cookie =>
          Exec.rejectIf (isBlank cookie.2 || (name.toList ++ cookie.2.toList).any isControl)
            character >>= fun _ => pure (some ⟨name, cookie.1, cookie.2⟩) := by
  rfl

/-- The errors aside, the rules for the fields of a completion are the same everywhere. -/
theorem completion_alike (account credential character account' credential' character' : Error) :
    Exec.Alike (values.completion account credential character)
      (values.completion account' credential' character') := by
  have husername : Exec.Alike (values.username account) (values.username account') := by
    rw [username, username]
    cases values 1 with
    | none => exact .fail _ _
    | some value =>
      dsimp only
      split_ifs
      · exact .fail _ _
      · exact .ok value
  have hcookie : Exec.Alike (values.cookie credential) (values.cookie credential') := by
    rw [cookie, cookie]
    cases values 2 <;> cases values 3
    · exact .fail _ _
    · exact .ok _
    · exact .ok _
    · exact .fail _ _
  rw [completion_eq, completion_eq]
  split_ifs
  · exact .ok none
  · exact .bind (.rejectIf _ _ _) fun _ => .bind husername fun _ => .bind hcookie fun _ =>
      .bind (.rejectIf _ _ _) fun _ => .ok _

variable {values}

/-- There is no completion only if there are no fields. -/
theorem eq_none_of_completion {account credential character : Error}
    (h : values.completion account credential character = .ok none) (i : Fin 4) :
    values i = none := by
  rw [completion_eq] at h
  split_ifs at h with hnone
  · exact Option.isNone_iff_eq_none.1 (List.all_eq_true.1 hnone i (List.mem_finRange i))
  · obtain ⟨_, -, husername⟩ := Exec.bind_eq_ok.1 h
    obtain ⟨_, -, hcookie⟩ := Exec.bind_eq_ok.1 husername
    obtain ⟨_, -, hcharacter⟩ := Exec.bind_eq_ok.1 hcookie
    obtain ⟨_, -, hpure⟩ := Exec.bind_eq_ok.1 hcharacter
    cases hpure

end Fields

/-! ### Headers -/

/-- The values of the headers for a field. -/
def fieldValues (headers : List (String × String)) (i : Fin 4) : List String :=
  (headers.filter fun h => eqIgnoreAsciiCase (fieldNames i) h.1).map (·.2)

theorem fieldValues_cons_of_pos {headers : List (String × String)} {i : Fin 4} {name value : String}
    (h : eqIgnoreAsciiCase (fieldNames i) name = true) :
    fieldValues ((name, value) :: headers) i = value :: fieldValues headers i := by
  simp [fieldValues, h]

theorem fieldValues_cons_of_neg {headers : List (String × String)} {i : Fin 4} {name value : String}
    (h : ¬ eqIgnoreAsciiCase (fieldNames i) name = true) :
    fieldValues ((name, value) :: headers) i = fieldValues headers i := by
  simp [fieldValues, h]

/-- The headers of a page are these fields, among others. -/
structure CarriesHeaders (page : BrowserPage) (values : Fields) : Prop where
  headers : ∀ i, fieldValues page.headers i = (values i).toList
  document : (∀ i, values i = none) → page.document = none

/-- No two fields have the same name. -/
theorem fieldNames_inj {i j : Fin 4} {name : String} (hi : eqIgnoreAsciiCase (fieldNames i) name = true)
    (hj : eqIgnoreAsciiCase (fieldNames j) name = true) : i = j := by
  have hnames : ∀ i j, eqIgnoreAsciiCase (fieldNames i) (fieldNames j) = true → i = j := by
    decide +kernel
  apply hnames
  simp only [eqIgnoreAsciiCase, beq_iff_eq] at hi hj ⊢
  rw [hi, hj]

/-- The loop over the headers finds the fields. -/
theorem headerFields_eq {headers : List (String × String)} {before values : Fields}
    (hbefore : ∀ i v, before i = some v → values i = some v)
    (h : ∀ i, fieldValues headers i = if (before i).isSome then [] else (values i).toList) :
    headerFields before headers = .ok values := by
  induction headers generalizing before with
  | nil =>
    have hvalues : before = values := by
      funext i
      cases hi : before i with
      | some v => exact (hbefore i v hi).symm
      | none =>
        have hnil := h i
        rw [hi] at hnil
        exact (Option.toList_eq_nil_iff.1 hnil.symm).symm
    rw [headerFields, hvalues]
    rfl
  | cons header headers ih =>
    obtain ⟨name, value⟩ := header
    rw [headerFields]
    cases hfind : (List.finRange 4).find? fun i => eqIgnoreAsciiCase (fieldNames i) name with
    | none =>
      have hother := List.find?_eq_none.1 hfind
      refine ih hbefore fun i => ?_
      have hi : ¬ eqIgnoreAsciiCase (fieldNames i) name = true := hother i (List.mem_finRange i)
      rw [← h i, fieldValues_cons_of_neg hi]
    | some i =>
      have hi : eqIgnoreAsciiCase (fieldNames i) name = true :=
        List.find?_some (p := fun i => eqIgnoreAsciiCase (fieldNames i) name) hfind
      have hvalues := h i
      rw [fieldValues_cons_of_pos hi] at hvalues
      have hnone : before i = none := by
        cases hbefore : before i with
        | none => rfl
        | some v =>
          rw [hbefore] at hvalues
          cases hvalues
      rw [hnone] at hvalues
      obtain ⟨hvalue, hrest⟩ : values i = some value ∧ fieldValues headers i = [] := by
        cases hv : values i with
        | none =>
          rw [hv] at hvalues
          cases hvalues
        | some v =>
          rw [hv] at hvalues
          obtain ⟨rfl, hrest⟩ := List.cons.inj hvalues
          exact ⟨rfl, hrest⟩
      dsimp only
      rw [hnone]
      refine ih (fun j v hj => ?_) fun j => ?_
      · by_cases hji : j = i
        · subst hji
          rw [Function.update_self] at hj
          rw [hvalue, hj]
        · exact hbefore j v (by rwa [Function.update_of_ne hji] at hj)
      · by_cases hji : j = i
        · subst hji
          rw [Function.update_self]
          exact hrest
        · have hj : ¬ eqIgnoreAsciiCase (fieldNames j) name = true := fun hj =>
            hji (fieldNames_inj hj hi)
          rw [Function.update_of_ne hji, ← h j, fieldValues_cons_of_neg hj]

/-- The result for a page is the result for its fields. -/
theorem pageCompletion_alike {m : Markup} {page : BrowserPage} {values : Fields}
    (h : CarriesHeaders page values) (account credential character : Error) :
    Exec.Alike (m.pageCompletion page) (values.completion account credential character) := by
  have hfields : headerFields (fun _ => none) page.headers = .ok values :=
    headerFields_eq (fun _ _ h => by cases h) fun i => h.headers i
  rw [Markup.pageCompletion, hfields, Exec.ok_bind]
  have halike := Fields.completion_alike values (.invalid "Missing browser completion account")
    (.invalid "Missing or conflicting browser completion credential")
    (.invalid "Invalid browser completion field") account credential character
  obtain ⟨a, ha, ha'⟩ | ⟨e, e', he, he'⟩ := halike
  · rw [ha, ha', Exec.ok_bind]
    cases a with
    | some completion => exact .ok _
    | none =>
      dsimp only
      rw [h.document (Fields.eq_none_of_completion ha)]
      exact .ok none
  · rw [he, he']
    exact .fail e e'

/-! ### Documents -/

section Document

variable (R : Reader)

/-- A reference stands for a character, by its number or by the name of a predefined entity. -/
inductive Denotes (name : String) (c : Char) : Prop
  | number (h : R.charRef name = some (some c)) (hc : xmlChar c = true)
  | named (h : R.charRef name = some none) (hc : entity name = some c)

/-- Text and references that together are a value. -/
inductive Spells : List Event → String → Prop
  | nil : Spells [] ""
  | text {value rest evs} (hrest : Spells evs rest) : Spells (.text value :: evs) (value ++ rest)
  | ref {name c rest evs} (hname : Denotes R name c) (hrest : Spells evs rest) :
    Spells (.generalRef name :: evs) (String.singleton c ++ rest)

/-- An element that is neither a field nor passed over. -/
structure Tag.Plain (tag : Tag) : Prop where
  htmlVoid : htmlVoid tag.name = false
  inert : inert tag.name = false
  token : ¬ (tag.name = "cas-as" ∨ tag.name = "token")
  fieldIndex : fieldIndex tag.name = none
  attributes : validateAttributes R tag = .ok ()

/-- Markup with fields as elements, among other elements and text; the element of an empty field may
close itself. -/
inductive Carries : List Event → List (Fin 4 × String) → Prop
  | nil : Carries [] []
  | text {value evs fs} (hrest : Carries evs fs) : Carries (.text value :: evs) fs
  | field {i value content evs fs} (hcontent : Spells R content value) (hrest : Carries evs fs) :
    Carries (.start ⟨fieldNames i, "", some []⟩ :: (content ++ .close (fieldNames i) :: evs))
      ((i, value) :: fs)
  | empty {i evs fs} (hrest : Carries evs fs) :
    Carries (.empty ⟨fieldNames i, "", some []⟩ :: evs) ((i, "") :: fs)
  | element {tag inner evs fs fs'} (htag : tag.Plain R) (hinner : Carries inner fs)
    (hrest : Carries evs fs') :
    Carries (.start tag :: (inner ++ .close tag.name :: evs)) (fs ++ fs')

/-- The elements of a document are these fields, among others. -/
structure CarriesDocument (d : String) (values : Fields) : Prop where
  fields : ∃ fs, Carries R (R.events d) fs ∧ (fs.map Prod.fst).Nodup ∧
    ∀ i v, (i, v) ∈ fs ↔ values i = some v
  chars : ∀ c ∈ d.toList, xmlChar c = true
  head : (d.toList.dropWhile isWhitespace).head? = some '<'

variable {R} {L : Limits} {nested : Nested} {outerDepth : ℕ}

theorem Denotes.resolveRef {name : String} {c : Char} (h : Denotes R name c) :
    resolveRef R name = .ok c := by
  cases h with
  | number h hc => simp [Browser.resolveRef, h, hc]
  | named h hc => simp [Browser.resolveRef, h, hc]

theorem pushText_active {s : Scan} {i : Fin 4} {old : String} (hactive : s.active = some i)
    (hold : s.fields i = some old) (value : String) : pushText value s =
      .ok { s with fields := Function.update s.fields i (some (old ++ value)) } := by
  rw [pushText, hactive]
  dsimp only
  rw [hold]
  rfl

/-- The content of the element of a field is added to it. -/
theorem scan_spells {content : List Event} {value old : String} {s : Scan} {i : Fin 4} {n : ℕ}
    (h : Spells R content value) (hactive : s.active = some i) (hold : s.fields i = some old)
    (hlimit : n + content.length ≤ L.events) :
    scan R L nested outerDepth content s n = .ok
      ({ s with fields := Function.update s.fields i (some (old ++ value)) },
        n + content.length) := by
  induction h generalizing s old n with
  | nil =>
    rw [String.append_empty, ← hold, Function.update_eq_self]
    rfl
  | @text value rest evs _ ih =>
    rw [List.length_cons] at hlimit ⊢
    refine scan_cons_eq_ok.2 ⟨by omega, _, n + 1,
      Exec.bind_eq_ok.2 ⟨_, pushText_active hactive hold value, rfl⟩, ?_⟩
    have hpushed := ih (s := { s with fields := Function.update s.fields i (some (old ++ value)) })
      (n := n + 1) hactive (Function.update_self ..) (by omega)
    have hn : n + 1 + evs.length = n + (evs.length + 1) := by omega
    rw [Function.update_idem, String.append_assoc, hn] at hpushed
    exact hpushed
  | @ref name c rest evs hname _ ih =>
    rw [List.length_cons] at hlimit ⊢
    refine scan_cons_eq_ok.2 ⟨by omega, _, n + 1, Exec.bind_eq_ok.2 ⟨c, hname.resolveRef,
      Exec.bind_eq_ok.2 ⟨_, pushText_active hactive hold _, rfl⟩⟩, ?_⟩
    have hpushed := ih
      (s := { s with fields := Function.update s.fields i (some (old ++ String.singleton c)) })
      (n := n + 1) hactive (Function.update_self ..) (by omega)
    have hn : n + 1 + evs.length = n + (evs.length + 1) := by omega
    rw [Function.update_idem, String.append_assoc, hn] at hpushed
    exact hpushed

/-- The fields after elements. -/
def fill (fields : Fields) : List (Fin 4 × String) → Fields
  | [] => fields
  | (i, value) :: fs => fill (Function.update fields i (some value)) fs

theorem fill_append (fields : Fields) (fs fs' : List (Fin 4 × String)) :
    fill fields (fs ++ fs') = fill (fill fields fs) fs' := by
  induction fs generalizing fields with
  | nil => rfl
  | cons f fs ih => exact ih _

theorem fill_of_notMem {fields : Fields} {fs : List (Fin 4 × String)} {i : Fin 4}
    (h : i ∉ fs.map Prod.fst) : fill fields fs i = fields i := by
  induction fs generalizing fields with
  | nil => rfl
  | cons f fs ih =>
    obtain ⟨j, value⟩ := f
    rw [List.map_cons, List.mem_cons, not_or] at h
    rw [fill, ih h.2, Function.update_of_ne h.1]

theorem fill_of_mem {fields : Fields} {fs : List (Fin 4 × String)} {i : Fin 4} {value : String}
    (hnodup : (fs.map Prod.fst).Nodup) (h : (i, value) ∈ fs) : fill fields fs i = some value := by
  induction fs generalizing fields with
  | nil => cases h
  | cons f fs ih =>
    obtain ⟨j, other⟩ := f
    rw [List.map_cons, List.nodup_cons] at hnodup
    rw [fill]
    obtain heq | hmem := List.mem_cons.1 h
    · cases heq
      rw [fill_of_notMem hnodup.1, Function.update_self]
    · exact ih hnodup.2 hmem

theorem openTag_field {i : Fin 4} {s : Scan} (hactive : s.active = none)
    (hsuppressed : s.suppressed = none) (hfresh : s.fields i = none)
    (hdepth : outerDepth + s.stack.length + 1 ≤ L.depth) (isEmpty : Bool) :
    openTag R L outerDepth isEmpty ⟨fieldNames i, "", some []⟩ s = .ok
      { s with
        fields := Function.update s.fields i (some "")
        active := if isEmpty then none else some i
        stack := if isEmpty then s.stack else fieldNames i :: s.stack } := by
  have hname : ∀ i, htmlVoid (fieldNames i) = false ∧ inert (fieldNames i) = false ∧
      ¬ (fieldNames i = "cas-as" ∨ fieldNames i = "token") ∧ fieldIndex (fieldNames i) = some i := by
    decide +kernel
  obtain ⟨hvoid, hinert, htoken, hindex⟩ := hname i
  refine openTag_eq_ok.2 ⟨hdepth, hactive, rfl, { s with
    fields := Function.update s.fields i (some "")
    active := if isEmpty then none else some i }, ?_, ?_⟩
  · simp [readTag, hsuppressed, hinert, htoken, hindex, hfresh, hactive, Exec.rejectIf]
  · rw [hvoid]
    cases isEmpty <;> rfl

theorem openTag_plain {tag : Tag} {s : Scan} (htag : tag.Plain R) (hactive : s.active = none)
    (hsuppressed : s.suppressed = none) (hdepth : outerDepth + s.stack.length + 1 ≤ L.depth) :
    openTag R L outerDepth false tag s = .ok { s with stack := tag.name :: s.stack } := by
  refine openTag_eq_ok.2 ⟨hdepth, hactive, htag.attributes, s, ?_, ?_⟩
  · simp [readTag, hsuppressed, htag.inert, htag.token, htag.fieldIndex]
  · rw [htag.htmlVoid]
    rfl

/-- The end of an element outside of inert content. -/
theorem closeTag_self {s : Scan} {name : String} (hactive : s.active = none)
    (hsuppressed : s.suppressed = none) (active : Option (Fin 4)) :
    closeTag name { s with active, stack := name :: s.stack } = .ok s := by
  refine closeTag_eq_ok.2 ⟨s.stack, rfl, ?_⟩
  rw [hsuppressed, if_neg (by simp), ← hsuppressed, ← hactive]

/-- **The fields of a markup are read.** -/
theorem scan_carries {evs : List Event} {fs : List (Fin 4 × String)} {s : Scan} {n : ℕ}
    (h : Carries R evs fs) (hactive : s.active = none) (hsuppressed : s.suppressed = none)
    (hnodup : (fs.map Prod.fst).Nodup) (hfresh : ∀ i ∈ fs.map Prod.fst, s.fields i = none)
    (hevents : n + evs.length ≤ L.events)
    (hdepth : outerDepth + s.stack.length + evs.length ≤ L.depth) :
    scan R L nested outerDepth evs s n = .ok
      ({ s with fields := fill s.fields fs }, n + evs.length) := by
  induction h generalizing s n with
  | nil => rfl
  | @text value evs fs _ ih =>
    rw [List.length_cons] at hevents hdepth ⊢
    have hpush : pushText value s = .ok s := by
      rw [pushText, hactive]
      rfl
    have hn : n + 1 + evs.length = n + (evs.length + 1) := by omega
    have hrest := ih (n := n + 1) hactive hsuppressed hnodup hfresh (by omega) (by omega)
    rw [hn] at hrest
    exact scan_cons_eq_ok.2 ⟨by omega, s, n + 1, Exec.bind_eq_ok.2 ⟨s, hpush, rfl⟩, hrest⟩
  | @field i value content evs fs hcontent _ ih =>
    simp only [List.length_cons, List.length_append] at hevents hdepth ⊢
    rw [List.map_cons, List.nodup_cons] at hnodup
    rw [List.map_cons, List.forall_mem_cons] at hfresh
    have htop : outerDepth + s.stack.length + 1 ≤ L.depth := by omega
    have hopen := openTag_field (R := R) hactive hsuppressed hfresh.1 htop false
    let filled : Scan := { s with fields := Function.update s.fields i (some value) }
    let opened : Scan := { s with
      fields := Function.update s.fields i (some "")
      active := some i
      stack := fieldNames i :: s.stack }
    have hread : scan R L nested outerDepth content opened (n + 1) = .ok
        ({ opened with fields := Function.update opened.fields i (some ("" ++ value)) },
          n + 1 + content.length) :=
      scan_spells hcontent rfl (Function.update_self ..) (by omega)
    have hclose : closeTag (fieldNames i) { filled with
        active := some i
        stack := fieldNames i :: filled.stack } = .ok filled :=
      closeTag_self (s := filled) hactive hsuppressed (some i)
    have hfresh' : ∀ j ∈ fs.map Prod.fst, filled.fields j = none := by
      intro j hj
      have hji : j ≠ i := fun heq => hnodup.1 (heq ▸ hj)
      rw [← hfresh.2 j hj]
      exact Function.update_of_ne hji ..
    have hrest := ih (s := filled) (n := n + 1 + content.length + 1) hactive hsuppressed hnodup.2
      hfresh' (by omega) (by show outerDepth + s.stack.length + evs.length ≤ L.depth; omega)
    have hn : n + 1 + content.length + 1 + evs.length = n + (content.length + (evs.length + 1) + 1) := by
      omega
    rw [hn] at hrest
    rw [Function.update_idem, String.empty_append] at hread
    exact scan_cons_eq_ok.2 ⟨by omega, _, n + 1, Exec.bind_eq_ok.2 ⟨_, hopen, rfl⟩,
      scan_append_eq_ok.2 ⟨_, n + 1 + content.length, hread,
        scan_cons_eq_ok.2 ⟨by omega, filled, _, Exec.bind_eq_ok.2 ⟨filled, hclose, rfl⟩, hrest⟩⟩⟩
  | @empty i evs fs _ ih =>
    -- nothing is opened, so that the field is the empty text at once
    rw [List.length_cons] at hevents hdepth ⊢
    rw [List.map_cons, List.nodup_cons] at hnodup
    rw [List.map_cons, List.forall_mem_cons] at hfresh
    have htop : outerDepth + s.stack.length + 1 ≤ L.depth := by omega
    let filled : Scan := { s with fields := Function.update s.fields i (some "") }
    have hopen : openTag R L outerDepth true ⟨fieldNames i, "", some []⟩ s = .ok filled := by
      rw [openTag_field hactive hsuppressed hfresh.1 htop true, if_pos rfl, if_pos rfl, ← hactive]
    have hfresh' : ∀ j ∈ fs.map Prod.fst, filled.fields j = none := by
      intro j hj
      have hji : j ≠ i := fun heq => hnodup.1 (heq ▸ hj)
      rw [← hfresh.2 j hj]
      exact Function.update_of_ne hji ..
    have hrest := ih (s := filled) (n := n + 1) hactive hsuppressed hnodup.2 hfresh' (by omega)
      (by show outerDepth + s.stack.length + evs.length ≤ L.depth; omega)
    have hn : n + 1 + evs.length = n + (evs.length + 1) := by omega
    rw [hn] at hrest
    exact scan_cons_eq_ok.2 ⟨by omega, _, n + 1, Exec.bind_eq_ok.2 ⟨_, hopen, rfl⟩, hrest⟩
  | @element tag inner evs fs fs' htag _ _ ihinner ihrest =>
    simp only [List.length_cons, List.length_append] at hevents hdepth ⊢
    rw [List.map_append, List.nodup_append] at hnodup
    rw [List.map_append, List.forall_mem_append] at hfresh
    obtain ⟨hnodup, hnodup', hne⟩ := hnodup
    have htop : outerDepth + s.stack.length + 1 ≤ L.depth := by omega
    have hopen := openTag_plain htag hactive hsuppressed htop
    let filled : Scan := { s with fields := fill s.fields fs }
    have hinner := ihinner (s := { s with stack := tag.name :: s.stack }) (n := n + 1) hactive
      hsuppressed hnodup hfresh.1 (by omega)
      (by show outerDepth + (s.stack.length + 1) + inner.length ≤ L.depth; omega)
    have hclose : closeTag tag.name { filled with
        active := s.active
        stack := tag.name :: filled.stack } = .ok filled :=
      closeTag_self (s := filled) hactive hsuppressed s.active
    have hfresh' : ∀ j ∈ fs'.map Prod.fst, filled.fields j = none := by
      intro j hj
      have hj' : j ∉ fs.map Prod.fst := fun hmem => hne j hmem j hj rfl
      rw [← hfresh.2 j hj]
      exact fill_of_notMem hj'
    have hrest := ihrest (s := filled) (n := n + 1 + inner.length + 1) hactive hsuppressed hnodup'
      hfresh' (by omega) (by show outerDepth + s.stack.length + evs.length ≤ L.depth; omega)
    have hn : n + 1 + inner.length + 1 + evs.length = n + (inner.length + (evs.length + 1) + 1) := by
      omega
    rw [hn] at hrest
    rw [fill_append]
    exact scan_cons_eq_ok.2 ⟨by omega, _, n + 1, Exec.bind_eq_ok.2 ⟨_, hopen, rfl⟩,
      scan_append_eq_ok.2 ⟨_, n + 1 + inner.length, hinner,
        scan_cons_eq_ok.2 ⟨by omega, filled, _, Exec.bind_eq_ok.2 ⟨filled, hclose, rfl⟩, hrest⟩⟩⟩

/-- **The fields of a document are read**, when the limits are high enough. -/
theorem document_carries {d : String} {values : Fields} (h : CarriesDocument R d values) :
    ∃ a, ∀ L : Limits, a ≤ L.events → a ≤ L.depth → document R L d = .ok values := by
  obtain ⟨fs, hcarries, hnodup, hvalues⟩ := h.fields
  refine ⟨(R.events d).length + 1, fun L hevents hdepth => ?_⟩
  have hfill : fill (fun _ => none) fs = values := by
    funext i
    cases hi : values i with
    | some v => exact fill_of_mem hnodup ((hvalues i v).2 hi)
    | none =>
      refine fill_of_notMem fun hmem => ?_
      obtain ⟨⟨j, v⟩, hv, rfl⟩ := List.mem_map.1 hmem
      rw [(hvalues j v).1 hv] at hi
      cases hi
  have hscan : scan R L (fragment R L d.length) 0 (R.events d) { fields := fun _ => none } 0 = .ok
      ({ fields := fill (fun _ => none) fs }, 0 + (R.events d).length) :=
    scan_carries hcarries rfl rfl hnodup (fun _ _ => rfl) (by omega)
      (by show 0 + 0 + (R.events d).length ≤ L.depth; omega)
  have hfragment : fragment R L (d.length + 1) d (fun _ => none) 0 0 =
      .ok (values, 0 + (R.events d).length + 1) :=
    fragment_succ_eq_ok.2 ⟨_, _, hscan, by omega, rfl, hfill.symm, rfl⟩
  exact Exec.bind_eq_ok.2 ⟨_, hfragment, rfl⟩

end Document

/-- The result for a document is the result for its fields. -/
theorem parseCompletionIfPresent_eq {m : Markup} {d : String} {values : Fields}
    (hsize : d.utf8ByteSize ≤ maxInput) (hchars : ∀ c ∈ d.toList, xmlChar c = true)
    (hhead : (d.toList.dropWhile isWhitespace).head? = some '<')
    (hfragment : m.fragment d = .ok values) :
    m.parseCompletionIfPresent d = values.completion malformed malformed malformed := by
  have hempty : d.isEmpty = false := by
    rw [Bool.eq_false_iff]
    intro hnil
    rw [String.isEmpty_iff.1 hnil] at hhead
    cases hhead
  have hall : d.toList.all xmlChar = true := List.all_eq_true.2 hchars
  have hcas : casPrefix.isPrefixOf (d.toList.dropWhile isWhitespace) = false := by
    obtain ⟨rest, hrest⟩ := List.head?_eq_some_iff.1 hhead
    rw [hrest]
    rfl
  have hlarge : decide (d.utf8ByteSize > maxInput) = false := decide_eq_false (by omega)
  rw [Markup.parseCompletionIfPresent, hempty, hlarge, hall, hcas, hfragment]
  rfl

/-- **Completions in headers and in documents agree**: there are none, both fail, or they are the
same, as long as the document is within the limits. -/
theorem completions_agree {R : Reader} {decode : String → Option String} {page : BrowserPage}
    {d : String} {values : Fields} (hpage : CarriesHeaders page values)
    (hdocument : CarriesDocument R d values) (hwithin : Within R d) :
    Exec.Alike ((R.markup limits decode).pageCompletion page)
      ((R.markup limits decode).parseCompletionIfPresent d) := by
  obtain ⟨a, ha⟩ := document_carries hdocument
  let higher : Limits := ⟨limits.events + a, limits.depth + a⟩
  have hvalues : document R limits d = .ok values := by
    rw [← hwithin.walk higher (Nat.le_add_right _ _) (Nat.le_add_right _ _)]
    exact ha higher (Nat.le_add_left _ _) (Nat.le_add_left _ _)
  rw [parseCompletionIfPresent_eq hwithin.size hdocument.chars hdocument.head hvalues]
  exact pageCompletion_alike hpage malformed malformed malformed

/-! ### A document for every choice of fields -/

/-- The name of a predefined entity. -/
def entityName : Char → Option String
  | '&' => some "amp"
  | '<' => some "lt"
  | '>' => some "gt"
  | '\'' => some "apos"
  | '"' => some "quot"
  | _ => none

theorem entity_of_entityName {c : Char} {name : String} (h : entityName c = some name) :
    entity name = some c := by
  unfold entityName at h
  split at h <;> first | (cases h; rfl) | cases h

/-- A value, escaped. -/
def escape (value : List Char) : List Char :=
  value.flatMap fun c => match entityName c with
    | some name => '&' :: (name.toList ++ [';'])
    | none => [c]

/-- The events of an escaped value: a text is as long as possible. -/
def valueEvents : List Char → List Event
  | [] => []
  | c :: cs => match entityName c, valueEvents cs with
    | some name, evs => .generalRef name :: evs
    | none, .text rest :: evs => .text (String.singleton c ++ rest) :: evs
    | none, evs => .text (String.singleton c) :: evs

/-- The fields that are there. -/
def present (values : Fields) : List (Fin 4 × String) :=
  (List.finRange 4).filterMap fun i => (values i).map (i, ·)

/-- The element of a field. -/
def fieldText (field : Fin 4 × String) : List Char :=
  '<' :: (fieldNames field.1).toList ++ '>' :: escape field.2.toList ++
    '<' :: '/' :: (fieldNames field.1).toList ++ ['>']

def fieldEvents (field : Fin 4 × String) : List Event :=
  .start ⟨fieldNames field.1, "", some []⟩ ::
    (valueEvents field.2.toList ++ [.close (fieldNames field.1)])

/-- A document with these fields as escaped elements. -/
def completionDocument (values : Fields) : String :=
  String.ofList ("<html>".toList ++ (present values).flatMap fieldText ++ "</html>".toList)

/-- The events of the document. -/
def completionEvents (values : Fields) : List Event :=
  .start ⟨"html", "", some []⟩ :: ((present values).flatMap fieldEvents ++ [.close "html"])

/-- A page with these fields as headers. -/
def completionPage (values : Fields) : BrowserPage where
  uri := "https://a/"
  cookies := []
  headers := (present values).map fun field => (fieldNames field.1, field.2)
  document := none

section Canonical

variable {R : Reader} {values : Fields}

theorem mem_present {i : Fin 4} {v : String} : (i, v) ∈ present values ↔ values i = some v := by
  simp [present, List.mem_filterMap]

theorem present_nodup : ((present values).map Prod.fst).Nodup := by
  rw [present, List.map_filterMap]
  refine (List.nodup_finRange 4).filterMap fun i j k hi hj => ?_
  simp only [Option.map_map, Option.mem_def, Option.map_eq_some_iff] at hi hj
  obtain ⟨_, -, rfl⟩ := hi
  obtain ⟨_, -, hj⟩ := hj
  exact hj.symm

/-- **For every choice of fields there is a page that carries them.** -/
theorem completionPage_carries (values : Fields) : CarriesHeaders (completionPage values) values := by
  have hnames : ∀ i j, eqIgnoreAsciiCase (fieldNames i) (fieldNames j) = true ↔ i = j := by
    decide +kernel
  have hlist : ∀ (l : List (Fin 4)) i, l.Nodup → fieldValues ((l.filterMap fun j =>
      (values j).map (j, ·)).map fun field => (fieldNames field.1, field.2)) i =
        if i ∈ l then (values i).toList else [] := by
    intro l i hnodup
    induction l with
    | nil => rfl
    | cons j l ih =>
      rw [List.nodup_cons] at hnodup
      have ih := ih hnodup.2
      cases hj : values j with
      | none =>
        rw [List.filterMap_cons_none (by rw [hj]; rfl), ih]
        by_cases hij : i = j
        · subst hij
          rw [if_neg hnodup.1, if_pos List.mem_cons_self, hj]
          rfl
        · simp [hij]
      | some v =>
        rw [List.filterMap_cons_some (by rw [hj]; rfl), List.map_cons]
        by_cases hij : i = j
        · subst hij
          rw [fieldValues_cons_of_pos ((hnames i i).2 rfl), ih, if_neg hnodup.1,
            if_pos List.mem_cons_self, hj]
          rfl
        · rw [fieldValues_cons_of_neg (mt (hnames i j).1 hij), ih]
          simp [hij]
  refine ⟨fun i => ?_, fun _ => rfl⟩
  rw [completionPage, present, hlist _ i (List.nodup_finRange 4), if_pos (List.mem_finRange i)]

/-- An escaped value stands for the value. -/
theorem spells_valueEvents (hentity : ∀ c name, entityName c = some name → R.charRef name = some none)
    (value : List Char) : Spells R (valueEvents value) (String.ofList value) := by
  induction value with
  | nil => exact .nil
  | cons c cs ih =>
    rw [String.ofList_cons, valueEvents]
    cases hname : entityName c with
    | some name => exact .ref (.named (hentity c name hname) (entity_of_entityName hname)) ih
    | none =>
      generalize valueEvents cs = evs at ih ⊢
      generalize String.ofList cs = rest at ih ⊢
      cases ih with
      | nil => exact .text .nil
      | text hrest =>
        rw [← String.append_assoc]
        exact .text hrest
      | ref hname hrest => exact .text (.ref hname hrest)

theorem carries_present (hentity : ∀ c name, entityName c = some name → R.charRef name = some none)
    (fs : List (Fin 4 × String)) : Carries R (fs.flatMap fieldEvents) fs := by
  induction fs with
  | nil => exact .nil
  | cons field fs ih =>
    obtain ⟨i, value⟩ := field
    have hvalue := spells_valueEvents hentity value.toList
    rw [String.ofList_toList] at hvalue
    have hfield := Carries.field (i := i) hvalue ih
    rw [List.flatMap_cons, fieldEvents, List.cons_append, List.append_assoc]
    exact hfield

theorem forall_escape {value : List Char} (h : ∀ c ∈ value, xmlChar c = true) :
    ∀ c ∈ escape value, xmlChar c = true := by
  have hname : ∀ c name, entityName c = some name → ∀ c ∈ name.toList, xmlChar c = true := by
    intro c name hname
    unfold entityName at hname
    split at hname <;> first | (cases hname; exact List.all_eq_true.1 (by decide)) | cases hname
  intro c hc
  obtain ⟨d, hd, hc⟩ := List.mem_flatMap.1 hc
  cases hentity : entityName d with
  | none =>
    rw [hentity] at hc
    rw [List.mem_singleton.1 hc]
    exact h d hd
  | some name =>
    rw [hentity] at hc
    obtain rfl | hc := List.mem_cons.1 hc
    · decide
    · obtain hc | hc := List.mem_append.1 hc
      · exact hname d name hentity c hc
      · rw [List.mem_singleton.1 hc]
        decide

theorem forall_fieldText {i : Fin 4} {v : String} (hv : ∀ c ∈ v.toList, xmlChar c = true) :
    ∀ c ∈ fieldText (i, v), xmlChar c = true := by
  have hname (i : Fin 4) : ∀ c ∈ (fieldNames i).toList, xmlChar c = true :=
    List.all_eq_true.1 ((by decide +kernel : ∀ i, (fieldNames i).toList.all xmlChar = true) i)
  intro c hc
  simp only [fieldText, List.mem_append, List.mem_cons, List.not_mem_nil, or_false] at hc
  obtain (((rfl | hc) | (rfl | hc)) | (rfl | rfl | hc)) | rfl := hc
  any_goals decide
  · exact hname i c hc
  · exact forall_escape hv c hc
  · exact hname i c hc

theorem completionDocument_toList (values : Fields) : (completionDocument values).toList =
    "<html>".toList ++ (present values).flatMap fieldText ++ "</html>".toList :=
  String.toList_ofList

theorem completionDocument_chars
    (hchars : ∀ i v, values i = some v → ∀ c ∈ v.toList, xmlChar c = true) :
    ∀ c ∈ (completionDocument values).toList, xmlChar c = true := by
  have hopen : ∀ c ∈ "<html>".toList, xmlChar c = true :=
    List.all_eq_true.1 (by decide +kernel)
  have hclose : ∀ c ∈ "</html>".toList, xmlChar c = true :=
    List.all_eq_true.1 (by decide +kernel)
  rw [completionDocument_toList]
  intro c hc
  obtain hc | hc := List.mem_append.1 hc
  · obtain hc | hc := List.mem_append.1 hc
    · exact hopen c hc
    · obtain ⟨⟨i, v⟩, hmem, hc⟩ := List.mem_flatMap.1 hc
      exact forall_fieldText (hchars i v (mem_present.1 hmem)) c hc
  · exact hclose c hc

theorem completionDocument_head (values : Fields) :
    ((completionDocument values).toList.dropWhile isWhitespace).head? = some '<' := by
  have hopen : "<html>".toList = '<' :: "html>".toList := by decide +kernel
  have hspace : ¬ isWhitespace '<' = true := by decide
  rw [completionDocument_toList, hopen, List.cons_append, List.cons_append,
    List.dropWhile_cons_of_neg hspace, List.head?_cons]

/-- **For every choice of fields there is a document that carries them.** -/
theorem completionDocument_carries
    (hentity : ∀ c name, entityName c = some name → R.charRef name = some none)
    (hevents : R.events (completionDocument values) = completionEvents values)
    (hchars : ∀ i v, values i = some v → ∀ c ∈ v.toList, xmlChar c = true) :
    CarriesDocument R (completionDocument values) values := by
  refine ⟨⟨present values, ?_, present_nodup, fun i v => mem_present⟩,
    completionDocument_chars hchars, completionDocument_head values⟩
  have hhtml : Tag.Plain R ⟨"html", "", some []⟩ :=
    ⟨by decide, by decide, by decide, by decide +kernel, rfl⟩
  have helement := Carries.element hhtml (carries_present hentity (present values)) .nil
  rw [List.append_nil] at helement
  rw [hevents]
  exact helement

end Canonical

theorem valueEvents_ne_comment (value : List Char) :
    ∀ ev ∈ valueEvents value, ∀ t, ev ≠ .comment t := by
  induction value with
  | nil => exact fun _ h => absurd h List.not_mem_nil
  | cons c cs ih =>
    rw [valueEvents]
    split
    · exact List.forall_mem_cons.2 ⟨nofun, ih⟩
    · rename_i hevs
      rw [hevs] at ih
      exact List.forall_mem_cons.2 ⟨nofun, (List.forall_mem_cons.1 ih).2⟩
    · exact List.forall_mem_cons.2 ⟨nofun, ih⟩

theorem completionEvents_ne_comment (values : Fields) :
    ∀ ev ∈ completionEvents values, ∀ t, ev ≠ .comment t := by
  refine List.forall_mem_cons.2 ⟨nofun, List.forall_mem_append.2 ⟨fun ev hev => ?_,
    List.forall_mem_singleton.2 nofun⟩⟩
  obtain ⟨field, -, hev⟩ := List.mem_flatMap.1 hev
  have hfield : ∀ ev ∈ fieldEvents field, ∀ t, ev ≠ .comment t :=
    List.forall_mem_cons.2 ⟨nofun, List.forall_mem_append.2 ⟨valueEvents_ne_comment _,
      List.forall_mem_singleton.2 nofun⟩⟩
  exact hfield ev hev

/-- A reader of one such document. -/
def completionReader (values : Fields) : Reader where
  events s := if s = completionDocument values then completionEvents values else [.bad]
  charRef _ := some none
  comment_length s t h := by
    split_ifs at h
    · exact absurd rfl (completionEvents_ne_comment values _ h t)
    · simp at h

theorem completionReader_events (values : Fields) :
    (completionReader values).events (completionDocument values) = completionEvents values :=
  if_pos rfl

theorem completionReader_carries {values : Fields}
    (hchars : ∀ i v, values i = some v → ∀ c ∈ v.toList, xmlChar c = true) :
    CarriesDocument (completionReader values) (completionDocument values) values :=
  completionDocument_carries (fun _ _ _ => rfl) (completionReader_events values) hchars

/-- A completion with a character that is escaped. -/
def escapedValues : Fields := ![ some "1", some "a&b", some "c", none ]

/-- A page with this completion, and another header. -/
def escapedPage : BrowserPage where
  uri := "https://a/"
  cookies := []
  headers := [ ("Saml-Username", "a&b"), ("server", "x"), ("saml-auth-status", "1"),
    ("PRELOGIN-COOKIE", "c") ]
  document := none

theorem completions_agree_escaped : Exec.Alike
    (((completionReader escapedValues).markup limits some).pageCompletion escapedPage)
    (((completionReader escapedValues).markup limits some).parseCompletionIfPresent
      (completionDocument escapedValues)) := by
  have hpage : CarriesHeaders escapedPage escapedValues := ⟨by decide +kernel, fun _ => rfl⟩
  have hall : ∀ i, ∀ v ∈ escapedValues i, v.toList.all xmlChar = true := by decide +kernel
  have hchars (i : Fin 4) (v : String) (h : escapedValues i = some v) :
      ∀ c ∈ v.toList, xmlChar c = true := List.all_eq_true.1 (hall i v h)
  exact completions_agree hpage (completionReader_carries hchars)
    (.of_isOk (by decide +kernel) (by decide +kernel))

/-- A completion with a cookie of so many ampersands. -/
def ampersandValues (n : ℕ) : Fields :=
  ![ some "1", some "u", some (String.ofList (List.replicate n '&')), none ]

theorem ampersandValues_chars {n : ℕ} (i : Fin 4) (v : String) (h : ampersandValues n i = some v) :
    ∀ c ∈ v.toList, xmlChar c = true := by
  have hfixed (v : String) (h : v ∈ ["1", "u"]) : ∀ c ∈ v.toList, xmlChar c = true :=
    List.all_eq_true.1 ((by decide +kernel : ∀ v ∈ ["1", "u"], v.toList.all xmlChar = true) v h)
  match i with
  | 0 =>
    cases h
    exact hfixed _ List.mem_cons_self
  | 1 =>
    cases h
    exact hfixed _ (List.mem_cons_of_mem _ List.mem_cons_self)
  | 2 =>
    cases h
    rw [String.toList_ofList]
    intro c hc
    rw [List.eq_of_mem_replicate hc]
    decide
  | 3 => cases h

theorem valueEvents_ampersands (n : ℕ) :
    valueEvents (List.replicate n '&') = List.replicate n (.generalRef "amp") := by
  induction n with
  | zero => rfl
  | succ n ih =>
    rw [List.replicate_succ, List.replicate_succ, valueEvents, ih]
    rfl

theorem ampersandValues_length (n : ℕ) : n ≤ (completionEvents (ampersandValues n)).length := by
  have hmem : (2, String.ofList (List.replicate n '&')) ∈ present (ampersandValues n) :=
    mem_present.2 rfl
  have hle := (List.sublist_flatten_of_mem (List.mem_map_of_mem (f := fieldEvents) hmem)).length_le
  rw [fieldEvents, String.toList_ofList, valueEvents_ampersands] at hle
  simp only [completionEvents, List.flatMap_def, List.length_cons, List.length_append,
    List.length_replicate] at hle ⊢
  omega

/-- Such a cookie is a credential. -/
theorem ampersandValues_completion {n : ℕ} (hn : n ≠ 0) (account credential character : Error) :
    ∃ completion, (ampersandValues n).completion account credential character =
      .ok (some completion) := by
  have hblank : isBlank (String.ofList (List.replicate n '&')) = false := by
    rw [isBlank, String.toList_ofList, List.all_replicate, if_neg hn]
    decide
  have hcontrol : ("u".toList ++ (String.ofList (List.replicate n '&')).toList).any isControl =
      false := by
    simp only [String.toList_ofList, List.any_append, List.any_replicate, if_neg hn]
    decide
  refine ⟨⟨"u", fieldNames 2, String.ofList (List.replicate n '&')⟩, ?_⟩
  have husername : (ampersandValues n).username account = .ok "u" := rfl
  have hcookie : (ampersandValues n).cookie credential =
      .ok (fieldNames 2, String.ofList (List.replicate n '&')) := rfl
  have hsome : (List.finRange 4).all (fun i => (ampersandValues n i).isNone) = false := rfl
  rw [Fields.completion_eq, hsome, husername, hcookie]
  simp only [Exec.ok_bind, hblank, hcontrol]
  rfl

/-- A document with so many ampersands is not accepted. -/
theorem ampersands_rejected {n : ℕ} (hn : limits.events ≤ n) {decode : String → Option String}
    {r : Option GpCompletion} :
    ((completionReader (ampersandValues n)).markup limits decode).parseCompletionIfPresent
      (completionDocument (ampersandValues n)) ≠ .ok r := by
  intro h
  obtain ⟨-, -, fields, hfragment, -⟩ := parseCompletionIfPresent_eq_ok.1 h
  obtain ⟨⟨out, m⟩, hfragment, -⟩ := Exec.bind_eq_ok.1 hfragment
  obtain ⟨hle, hlimit⟩ := fragment_length_le hfragment
  have hlength := ampersandValues_length n
  rw [completionReader_events] at hle
  omega

/-- Only documents are limited. -/
theorem completions_disagree : ¬ ∀ (R : Reader) (decode : String → Option String)
    (page : BrowserPage) (d : String) (values : Fields), CarriesHeaders page values →
      CarriesDocument R d values → Exec.Alike ((R.markup limits decode).pageCompletion page)
        ((R.markup limits decode).parseCompletionIfPresent d) := by
  intro h
  obtain ⟨n, hn⟩ : ∃ n, n = limits.events := ⟨_, rfl⟩
  have hmany : n ≠ 0 := by rw [hn]; simp [limits]
  let values := ampersandValues n
  have hpage := pageCompletion_alike (m := (completionReader values).markup limits some)
    (completionPage_carries values) malformed malformed malformed
  obtain ⟨completion, hcompletion⟩ := ampersandValues_completion hmany malformed malformed malformed
  rw [hcompletion] at hpage
  obtain ⟨a, hok, -⟩ | ⟨e, e', -, he'⟩ := hpage
  · obtain ⟨r, -, hr⟩ | ⟨e, e', he, -⟩ := h (completionReader values) some _ _ values
      (completionPage_carries values) (completionReader_carries ampersandValues_chars)
    · exact ampersands_rejected hn.ge hr
    · rw [hok] at he
      cases he
  · cases he'

end Ocvpn.Browser
