import Ocvpn.Model.Split
import Ocvpn.Profiles.Revisions

/-!
# Certificate references

`validate_certificate_reference` of `crates/model/src/profile.rs` keeps PKCS#11 PINs out of the
metadata.  A lenient reader of such references ignores spaces and the case of the scheme and of
attribute names, so the check has to see through every spelling of that kind.

`folded` is a text without its spaces and in lower case.  Splitting commutes with folding
(`splitOnce_filterMap`, `splitOn_filterMap`), so the verdict is one of the folded text
(`validateCertificateReference_eq`).

## Main results

* `Respells.validate` : the verdict is the same for every spelling.
* `not_namesPin` : an accepted reference names no PIN attribute.
* `ProfileStore.pins_never_stored` : so no stored or exported profile carries one.
-/

namespace Ocvpn

/-! ### Folding -/

/-- What is left of a character. -/
def foldChar (c : Char) : Option Char := if c = ' ' then none else some c.toLower

/-- The text without spaces and with its ASCII letters in lower case. -/
def folded (s : List Char) : List Char := s.filterMap foldChar

theorem folded_eq (s : List Char) : folded s = (s.filter (· ≠ ' ')).map Char.toLower := by
  induction s with
  | nil => rfl
  | cons c s ih =>
    by_cases hc : c = ' '
    · simpa [folded, foldChar, hc] using ih
    · simpa [folded, foldChar, hc] using ih

/-- A character that is no letter and no space is its own image, and nothing else is sent to it. -/
theorem foldChar_eq_some {separator : Char} (h : separator.isAlpha = false) (hs : separator ≠ ' ')
    (c : Char) : foldChar c = some separator ↔ c = separator := by
  constructor
  · intro hc
    unfold foldChar at hc
    split at hc
    · cases hc
    · have hlower := Option.some.inj hc
      by_cases hupper : c.isUpper = true
      · have halpha := Char.isAlpha_toLower_eq_isAlpha c
        rw [hlower, h, Char.isAlpha, hupper] at halpha
        cases halpha
      · rw [← hlower, Char.toLower_eq_of_not_isUpper hupper]
  · rintro rfl
    have hupper : ¬c.isUpper = true := fun hu => by simp [Char.isAlpha, hu] at h
    rw [foldChar, if_neg hs, Char.toLower_eq_of_not_isUpper hupper]

theorem isIdentifier_toLower (c : Char) : isIdentifier c.toLower = isIdentifier c := by
  by_cases hupper : c.isUpper = true
  · have halpha : c.isAlpha = true := by simp [Char.isAlpha, hupper]
    simp [isIdentifier, Char.isAlphanum, halpha]
  · rw [Char.toLower_eq_of_not_isUpper hupper]

/-- The check of an attribute does not see the case of its letters. -/
theorem validateAttribute_toLower (part : List Char) :
    validateAttribute (part.map Char.toLower) = validateAttribute part := by
  have hsplit := @splitOnce_filterMap (fun c => some c.toLower) '='
    (fun c => by
      constructor
      · intro hc
        by_contra hne
        have hspace : c ≠ ' ' := by
          rintro rfl
          exact absurd hc (by decide)
        exact hne ((foldChar_eq_some (by decide) (by decide) c).1 (by simpa [foldChar, hspace] using hc))
      · rintro rfl
        rfl) part
  simp only [List.filterMap_eq_map'] at hsplit
  unfold validateAttribute
  rw [hsplit]
  cases splitOnce '=' part with
  | none => rfl
  | some p =>
    have hall : (p.1.map Char.toLower).all isIdentifier = p.1.all isIdentifier := by
      rw [List.all_map]
      congr 1
      funext c
      exact isIdentifier_toLower c
    have heq : eqIgnoreAsciiCase (p.1.map Char.toLower) = eqIgnoreAsciiCase p.1 := by
      funext b
      simp [eqIgnoreAsciiCase, Function.comp_def]
    simp only [Option.map_some, List.isEmpty_map, hall, heq]

/-! ### The verdict -/

/-- The parts of a PKCS#11 reference that hold one attribute each: those of the path, then those of
the query. -/
def attributes (rest : List Char) : List (List Char) :=
  let (path, query) := (splitOnce '?' rest).getD (rest, [])
  splitOn ';' path ++ splitOn '&' query

/-- The verdict on a folded text. -/
def verdict (text : List Char) : Run Unit :=
  match splitOnce ':' text with
  | none => .ok ()
  | some (scheme, rest) =>
    if scheme = "pkcs11".toList then
      ((attributes rest).filter (!·.isEmpty)).forM validateAttribute
    else .ok ()

theorem attributes_filterMap {g : Char → Option Char}
    (hg : ∀ separator, separator.isAlpha = false → separator ≠ ' ' → ∀ c, g c = some separator ↔
      c = separator) (rest : List Char) :
    attributes (rest.filterMap g) = (attributes rest).map (List.filterMap g) := by
  unfold attributes
  rw [splitOnce_filterMap (hg '?' (by decide) (by decide))]
  cases splitOnce '?' rest with
  | none =>
    simp [splitOn_filterMap (hg ';' (by decide) (by decide)), splitOn]
  | some p =>
    simp [splitOn_filterMap (hg ';' (by decide) (by decide)),
      splitOn_filterMap (hg '&' (by decide) (by decide))]

theorem forM_map_toLower (parts : List (List Char)) :
    ((parts.map (List.map Char.toLower)).filter (!·.isEmpty)).forM validateAttribute =
      (parts.filter (!·.isEmpty)).forM validateAttribute := by
  induction parts with
  | nil => rfl
  | cons part parts ih =>
    rw [List.map_cons, List.filter_cons, List.filter_cons, List.isEmpty_map]
    split
    · change (validateAttribute _ >>= fun _ => List.forM _ _) = _ >>= fun _ => List.forM _ _
      rw [validateAttribute_toLower, ih]
    · exact ih

/-- The verdict is one of the folded text. -/
theorem validateCertificateReference_eq (value : String) :
    validateCertificateReference value = verdict (folded value.toList) := by
  have hcolon := splitOnce_filterMap (@foldChar_eq_some ':' (by decide) (by decide)) value.toList
  unfold validateCertificateReference verdict
  rw [folded, hcolon]
  cases splitOnce ':' value.toList with
  | none => rfl
  | some p =>
    have hscheme : eqIgnoreAsciiCase (p.1.filter (· ≠ ' ')) "pkcs11".toList =
        decide (folded p.1 = "pkcs11".toList) := by
      have hlower : "pkcs11".toList.map Char.toLower = "pkcs11".toList := by decide +kernel
      rw [eqIgnoreAsciiCase, ← folded_eq, hlower, beq_eq_decide]
    have hlower : attributes ((p.2.filter (· ≠ ' ')).map Char.toLower) =
        (attributes (p.2.filter (· ≠ ' '))).map (List.map Char.toLower) := by
      have h := attributes_filterMap (g := fun c => some c.toLower)
        (fun separator halpha hspace c => ?_) (p.2.filter (· ≠ ' '))
      · simpa only [List.filterMap_eq_map'] using h
      · have h := foldChar_eq_some halpha hspace c
        by_cases hc : c = ' '
        · subst hc
          simp [Char.toLower, hspace.symm]
        · simpa [foldChar, hc] using h
    simp only [Option.map_some, hscheme, folded]
    by_cases h : List.filterMap foldChar p.1 = "pkcs11".toList
    · simp only [h, if_true, decide_true, Bool.not_true, Bool.false_eq_true, if_false]
      rw [← folded, folded_eq p.2, hlower, forM_map_toLower]
      rfl
    · simp only [h, decide_false, Bool.not_false, if_true, if_false]

/-! ### Spellings -/

/-- The second text is the first one with spaces inserted and letters in another case. -/
inductive Respells : List Char → List Char → Prop
  | nil : Respells [] []
  | space {s t : List Char} : Respells s t → Respells s (' ' :: t)
  | letter {s t : List Char} {c c' : Char} : c'.toLower = c.toLower → Respells s t →
      Respells (c :: s) (c' :: t)

theorem Respells.folded {s t : List Char} (h : Respells s t) : folded t = folded s := by
  induction h with
  | nil => rfl
  | space _ ih => simpa [Ocvpn.folded, foldChar] using ih
  | @letter s t c c' hc _ ih =>
    have hspace : c' = ' ' ↔ c = ' ' := by
      have hfold : ∀ d : Char, d = ' ' ↔ d.toLower = ' ' := by
        intro d
        constructor
        · rintro rfl
          rfl
        · intro hd
          by_cases hupper : d.isUpper = true
          · have halpha := Char.isAlpha_toLower_eq_isAlpha d
            simp [hd, Char.isAlpha, hupper] at halpha
          · rw [← hd, Char.toLower_eq_of_not_isUpper hupper]
      rw [hfold c', hfold c, hc]
    by_cases hc' : c = ' '
    · simpa [Ocvpn.folded, foldChar, hc', hspace.2 hc'] using ih
    · simpa [Ocvpn.folded, foldChar, hc', mt hspace.1 hc', hc] using ih

theorem Respells.validate {s t : String} (h : Respells s.toList t.toList) :
    validateCertificateReference t = validateCertificateReference s := by
  rw [validateCertificateReference_eq, validateCertificateReference_eq, h.folded]

/-! ### PIN attributes -/

/-- The attributes that hold a PIN or say where it is. -/
def pinNames : List (List Char) :=
  ["pin-value".toList, "pin-source".toList, "pinfile".toList]

/-- A PKCS#11 reference, read without its spaces and without regard to case, names an attribute for
the PIN. -/
def NamesPin (text : List Char) : Prop :=
  ∃ scheme rest, splitOnce ':' text = some (scheme, rest) ∧ folded scheme = "pkcs11".toList ∧
    ∃ part ∈ attributes rest, folded (part.takeWhile (· ≠ '=')) ∈ pinNames

/-- An accepted reference names no attribute for the PIN. -/
theorem not_namesPin {value : String} (h : validateCertificateReference value = .ok ()) :
    ¬NamesPin value.toList := by
  rintro ⟨scheme, rest, hsplit, hscheme, part, hpart, hname⟩
  have hfolded : splitOnce ':' (folded value.toList) = some (folded scheme, folded rest) := by
    rw [folded, splitOnce_filterMap (foldChar_eq_some (by decide) (by decide)), hsplit]
    rfl
  rw [validateCertificateReference_eq, verdict, hfolded] at h
  simp only [hscheme, if_true] at h
  have hmem : folded part ∈ attributes (folded rest) := by
    rw [folded, attributes_filterMap fun _ => foldChar_eq_some]
    exact List.mem_map_of_mem hpart
  have hne : folded part ≠ [] := by
    intro hnil
    have hnone : folded (part.takeWhile (· ≠ '=')) = [] := by
      rw [folded, List.filterMap_eq_nil_iff] at hnil ⊢
      exact fun c hc => hnil c (List.takeWhile_subset _ hc)
    rw [hnone] at hname
    exact absurd hname (by decide +kernel)
  have hok := Exec.forM_eq_ok.1 h (folded part)
    (List.mem_filter.2 ⟨hmem, by simpa using hne⟩)
  rw [takeWhile_splitOnce] at hname
  rw [validateAttribute, folded, splitOnce_filterMap (foldChar_eq_some (by decide) (by decide))]
    at hok
  cases hpartSplit : splitOnce '=' part with
  | none =>
    rw [hpartSplit] at hok
    exact absurd hok (Exec.fail_ne_ok _ _)
  | some p =>
    rw [hpartSplit] at hok hname
    obtain ⟨_, -, hpin⟩ := Exec.bind_eq_ok.1 hok
    rw [Exec.rejectIf_eq_ok, List.any_eq_false] at hpin
    have hsame : ∀ a : List Char, eqIgnoreAsciiCase a a = true := fun a => by
      simp [eqIgnoreAsciiCase]
    have hthree : ∀ name ∈ pinNames, ∃ s ∈ ["pin-value", "pin-source", "pinfile"],
        name = s.toList := by simp [pinNames]
    obtain ⟨s, hs, heq⟩ := hthree _ hname
    refine hpin s hs ?_
    rw [← heq]
    exact hsame _

/-! ### The store -/

section

variable {Url : Type} [UrlCrate Url]

omit [UrlCrate Url] in
/-- The five fields that refer to certificates and keys. -/
def Profile.references (p : Profile Url) : List String :=
  [p.caFile, p.clientCertificate, p.clientKey, p.secondaryCertificate,
    p.secondaryKey].reduceOption

/-- Some reference of the profile names an attribute for the PIN. -/
def Profile.CarriesPin (p : Profile Url) : Prop := ∃ r ∈ p.references, NamesPin r.toList

theorem Profile.not_carriesPin {p : Profile Url} (h : p.validate = .ok ()) : ¬p.CarriesPin := by
  rintro ⟨r, hr, hpin⟩
  unfold Profile.validate at h
  obtain ⟨_, -, h⟩ := Exec.bind_eq_ok.1 h
  obtain ⟨_, -, h⟩ := Exec.bind_eq_ok.1 h
  obtain ⟨_, -, h⟩ := Exec.bind_eq_ok.1 h
  obtain ⟨_, -, h⟩ := Exec.bind_eq_ok.1 h
  obtain ⟨_, -, h⟩ := Exec.bind_eq_ok.1 h
  obtain ⟨_, -, h⟩ := Exec.bind_eq_ok.1 h
  obtain ⟨_, -, h⟩ := Exec.bind_eq_ok.1 h
  obtain ⟨_, -, h⟩ := Exec.bind_eq_ok.1 h
  obtain ⟨_, h, -⟩ := Exec.bind_eq_ok.1 h
  exact not_namesPin (Exec.forM_eq_ok.1 h r hr) hpin

end

namespace ProfileStore

variable {Text Value Url : Type} [Serde Text Value] [UrlCrate Url]
  [Codec Text Value (ProfileDocument Url)] [Codec Text Value (ProfileExport Url)]
  {S : ProfileStore} {file : Option Text} {d : ProfileDocument Url}

open Crash

open Net (spec_ofRun_bind)

/-- An export holds profiles of the document. -/
theorem exportJson_exports (hcodec : Codec.Lossless Text (ProfileDocument Url)) (h : Holds file d)
    (selector : Option String) : Spec True (· = file) (S.exportJson Url selector)
      (fun text _ => ∃ ps, text = toVecPretty (⟨1, ps⟩ : ProfileExport Url) ∧
        ∀ p ∈ ps, p ∈ d.profiles) (fun _ _ => True) fun _ => True := by
  refine Spec.bind (R := fun a w => w = file ∧ a = d) ((list_spec hcodec h).mono
    (fun _ => id) (fun _ _ => id) (fun _ _ _ => trivial) fun _ _ => trivial) fun a => ?_
  cases selector with
  | none =>
    refine Spec.bind (R := fun ps _ => ps = d.profiles) (Spec.pure fun _ hw => hw.2 ▸ rfl) fun ps =>
      Spec.pure fun _ hps => ⟨ps, rfl, fun p hp => hps ▸ hp⟩
  | some s =>
    refine spec_ofRun_bind (fun p hp => ?_) (fun _ _ _ _ => trivial)
      fun _ _ _ => ⟨trivial, trivial⟩
    refine Spec.bind (R := fun ps _ => ps = [p] ∧ p ∈ d.profiles) (Spec.pure fun _ hw => ?_)
      fun ps => Spec.pure fun _ hps => ⟨ps, rfl, fun q hq => ?_⟩
    · exact ⟨rfl, hw.2 ▸ mem_of_select hp⟩
    · rw [hps.1, List.mem_singleton] at hq
      exact hq ▸ hps.2

/-- **No PIN is stored in the metadata.**  The verdict on a reference does not change with spaces
and letter case; an accepted reference names no attribute for the PIN; so no profile in the file of
a store, and none it exports, carries one. -/
theorem pins_never_stored (hcodec : Codec.Lossless Text (ProfileDocument Url)) :
    (∀ s t : String, Respells s.toList t.toList →
      validateCertificateReference t = validateCertificateReference s) ∧
    (∀ s : String, validateCertificateReference s = .ok () → ¬NamesPin s.toList) ∧
    ∀ file, (S.machine Text Url).Reachable file →
      (∀ (bytes : Text) (path : String) (d : ProfileDocument Url), file = some bytes →
        decode bytes path = .ok d → ∀ p ∈ d.profiles, ¬p.CarriesPin) ∧
      ∀ (selector : Option String) (cuts : List (Cut Error)) (text : Text),
        (S.exportJson Url selector ⟨file, cuts⟩).1 = .ok text →
          ∃ ps, text = toVecPretty (⟨1, ps⟩ : ProfileExport Url) ∧ ∀ p ∈ ps, ¬p.CarriesPin := by
  refine ⟨fun _ _ => Respells.validate, fun _ => not_namesPin, fun file hreach => ?_⟩
  obtain ⟨d, hd⟩ := holds_of_reachable hcodec hreach
  have hvalid := (validateProfiles_eq_ok.1 hd.valid).1
  have hclean : ∀ p ∈ d.profiles, ¬p.CarriesPin := fun p hp => Profile.not_carriesPin (hvalid p hp)
  refine ⟨fun bytes path d' hfile hdecode => ?_, fun selector cuts text htext => ?_⟩
  · rw [hd.decode hcodec hfile] at hdecode
    obtain rfl := Except.ok.inj hdecode
    exact hclean
  · obtain ⟨ps, htext, hps⟩ := (exportJson_exports (S := S) hcodec hd selector).of_ok
      (.inl trivial) rfl htext
    exact ⟨ps, htext, fun p hp => hclean p (hps p hp)⟩

/-- `pins_never_stored` of a store with a profile. -/
theorem pins_never_stored_created :
    validateCertificateReference "P k cs11 :token=a" = validateCertificateReference "pkcs11:token=a" ∧
    ¬NamesPin "pkcs11:token=a".toList ∧
    ∃ ps, (sampleStore.exportJson SampleUrl none ⟨sampleFile, []⟩).1 =
        .ok (toVecPretty (⟨1, ps⟩ : ProfileExport SampleUrl)) ∧ ∀ p ∈ ps, ¬p.CarriesPin := by
  obtain ⟨hspell, hnames, hstore⟩ := pins_never_stored (S := sampleStore) sample_document_lossless
  have hletters : Respells "pkcs11:token=a".toList "P k cs11 :token=a".toList := by
    have h : ∀ s : List Char, Respells s s := by
      intro s
      induction s with
      | nil => exact .nil
      | cons c s ih => exact .letter rfl ih
    rw [show "pkcs11:token=a".toList = 'p' :: 'k' :: 'c' :: 's' :: '1' :: '1' :: ":token=a".toList
        by decide +kernel, show "P k cs11 :token=a".toList = 'P' :: ' ' :: 'k' :: ' ' :: 'c' :: 's' ::
        '1' :: '1' :: ' ' :: ":token=a".toList by decide +kernel]
    exact .letter (by decide) (.space (.letter rfl (.space (.letter rfl (.letter rfl (.letter rfl
      (.letter rfl (.space (h _)))))))))
  have hreach : (sampleStore.machine SampleText SampleUrl).Reachable sampleFile :=
    (Machine.Reachable.initial rfl).trans (Machine.reaches_perform _ _)
  have hexport : (sampleStore.exportJson SampleUrl none ⟨sampleFile, []⟩).1 =
      .ok (toVecPretty (⟨1, [sampleProfile "a"]⟩ : ProfileExport SampleUrl)) := by decide
  obtain ⟨ps, heq, hps⟩ := (hstore _ hreach).2 none [] _ hexport
  exact ⟨hspell _ _ hletters, hnames _ (by decide +kernel), ps, heq ▸ hexport, hps⟩

end ProfileStore

end Ocvpn
