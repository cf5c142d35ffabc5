import Ocvpn.Profiles.Reservation

/-!
# Selectors

A selector is read as an ID if it can be, and as a name otherwise.  IDs and names share the
selectors, and no operation of the store keeps a name apart from the texts of IDs.

## Main results

* `select_name_iff` : a name selects its profile unless it reads as another ID.
* `ProfileStore.selectors_find_iff` : this of any profile of a store, at any time.
-/

namespace Ocvpn

open Crash

variable {Url : Type} [UrlCrate Url]

omit [UrlCrate Url] in
/-- With distinct names, the profile of a name is any that has it. -/
theorem find_name_eq_some {ps : List (Profile Url)} {p : Profile Url}
    (hnames : (ps.map (·.name)).Nodup) (hp : p ∈ ps) :
    ps.find? (·.name == p.name) = some p := by
  obtain ⟨q, hq⟩ := Option.isSome_iff_exists.1
    (List.find?_isSome.2 ⟨p, hp, beq_self_eq_true p.name⟩ :
      (ps.find? (·.name == p.name)).isSome)
  have hname : q.name = p.name := by simpa using List.find?_some hq
  rw [hq, List.inj_on_of_nodup_map hnames (List.mem_of_find?_eq_some hq) hp hname]

omit [UrlCrate Url] in
/-- A name selects its profile exactly if it does not read as the ID of another one. -/
theorem select_name_iff (uuid : UuidCrate) {ps : List (Profile Url)} {p : Profile Url}
    (hids : (ps.map (·.id)).Nodup) (hnames : (ps.map (·.name)).Nodup) (hp : p ∈ ps) :
    select uuid ps p.name = .ok p ↔
      ∀ id, uuid.parseStr p.name.toList = some id → id = p.id := by
  cases hparse : uuid.parseStr p.name.toList with
  | none =>
    simp only [select, hparse, find_name_eq_some hnames hp]
    exact iff_of_true rfl (by simp)
  | some id =>
    simp only [select, hparse, Option.some.injEq, forall_eq']
    constructor
    · intro h
      split at h
      next q hq =>
        obtain rfl := Except.ok.inj h
        have hid : q.id = id := by simpa using List.find?_some hq
        exact hid.symm
      next => exact absurd h (Exec.fail_ne_ok _ _)
    · rintro rfl
      obtain ⟨i, hi, rfl⟩ := List.mem_iff_getElem.1 hp
      rw [find_eq_some hids (List.getElem?_eq_getElem hi)]
      rfl

namespace ProfileStore

variable {Text Value : Type} [Serde Text Value] [Codec Text Value (ProfileDocument Url)]
  {S : ProfileStore} {file : Option Text} {d : ProfileDocument Url}

/-- Resolving is selecting from the document. -/
theorem resolve_eq_ok (hlist : (S.list ⟨file, []⟩).1 = .ok d) {selector : String}
    {p : Profile Url} :
    (S.resolve selector ⟨file, []⟩).1 = .ok p ↔ select S.uuid d.profiles selector = .ok p := by
  obtain ⟨s, hs⟩ : ∃ s, S.list ⟨file, []⟩ = (.ok d, s) := ⟨_, Prod.ext hlist rfl⟩
  rw [resolve, Io.bind_of_ok hs]
  constructor
  · intro h
    exact (Net.ofRun_eq_ok.1 (Prod.ext h rfl)).1
  · intro h
    rw [h]
    rfl

variable [Codec Text Value (ProfileExport Url)]

/-- **Selectors of a stored profile.**  At any time of any run of the store, every profile is found
by the text of its ID; it is found by its name exactly if the name does not read as another ID. -/
theorem selectors_find_iff (hcodec : Codec.Lossless Text (ProfileDocument Url))
    (hreach : (S.machine Text Url).Reachable file) (hlist : (S.list ⟨file, []⟩).1 = .ok d)
    {p : Profile Url} (hp : p ∈ d.profiles) :
    (S.resolve (String.ofList p.id.text) ⟨file, []⟩).1 = .ok p ∧
      ((S.resolve p.name ⟨file, []⟩).1 = .ok p ↔
        ∀ id, S.uuid.parseStr p.name.toList = some id → id = p.id) := by
  obtain ⟨_, h⟩ := holds_of_reachable hcodec hreach
  obtain rfl := eq_of_list hcodec h hlist
  obtain ⟨-, hids, hnames, -⟩ := validateProfiles_eq_ok.1 h.valid
  rw [resolve_eq_ok hlist, resolve_eq_ok hlist]
  exact ⟨select_id S.uuid hids hp, select_name_iff S.uuid hids hnames hp⟩

end ProfileStore

/-- `ProfileStore.selectors_find_iff` of a profile with a plain name. -/
theorem selectors_find_plain :
    (sampleStore.resolve "work" ⟨sampleFile, []⟩).1 = .ok (sampleProfile "a") := by
  have hreach : (sampleStore.machine SampleText SampleUrl).Reachable sampleFile :=
    (Machine.Reachable.initial rfl).trans (Machine.reaches_perform _ _)
  have hlist : (sampleStore.list ⟨sampleFile, []⟩).1 =
      .ok (⟨1, 1, [sampleProfile "a"]⟩ : ProfileDocument SampleUrl) := by decide
  have hp : sampleProfile "a" ∈ [sampleProfile "a"] := by simp
  have hparse : sampleStore.uuid.parseStr (sampleProfile "a").name.toList = none := by
    decide +kernel
  refine (ProfileStore.selectors_find_iff sample_document_lossless hreach hlist hp).2.2 ?_
  rw [hparse]
  nofun

/-- A profile that is named by the text of another one's ID. -/
def shadowedProfile : Profile SampleUrl :=
  { sampleProfile "a" with id := 8, name := "00000000-0000-0000-0000-000000000007" }

/-- The name of a stored profile finds another profile, although every name is distinct. -/
theorem selector_shadowed : ∃ (file : Option SampleText) (d : ProfileDocument SampleUrl)
    (p q : Profile SampleUrl), (sampleStore.machine SampleText SampleUrl).Reachable file ∧
      (sampleStore.list ⟨file, []⟩).1 = .ok d ∧ p ∈ d.profiles ∧ q ≠ p ∧
      (sampleStore.resolve p.name ⟨file, []⟩).1 = .ok q := by
  refine ⟨(sampleStore.machine SampleText SampleUrl).perform sampleFile
      [(.create shadowedProfile, [])], ⟨1, 2, [sampleProfile "a", shadowedProfile]⟩,
    shadowedProfile, sampleProfile "a",
    ((Machine.Reachable.initial rfl).trans (Machine.reaches_perform _ _)).trans
      (Machine.reaches_perform _ _), ?_, by simp, ?_, ?_⟩
  · decide +kernel
  · decide +kernel
  · decide +kernel

end Ocvpn
