import Ocvpn.Profiles.Sound

/-!
# What a revision identifies

An update or a removal names the revision its client read.  As long as no operation adds the ID of
the profile again, the revision of a profile only counts up with its contents, so that an accepted
update or removal replaces the contents its client read.  An operation that asks for the ID while a
profile with it is stored adds nothing: it is refused.

A profile that is added starts at revision `1`, also under an ID that was removed before.

## Main results

* `revision_identifies` : without such an addition a revision identifies the contents.
* `revision_reused` : with one, an update of removed contents replaces the ones added since.
-/

namespace Ocvpn

open Crash

variable {Text Value Url : Type} [Serde Text Value] [UrlCrate Url]
  [Codec Text Value (ProfileDocument Url)] [Codec Text Value (ProfileExport Url)]

/-- The operation asks for a new profile with the ID. -/
def StoreOp.Asks (id : Uuid) : StoreOp Text Url → Prop
  | .create p => p.id = id
  | .duplicate fresh _ _ => fresh = id
  | .importJson bytes => ∃ e : ProfileExport Url, decode bytes "<profile import>" = .ok e ∧
      ∃ p ∈ e.profiles, p.id = id
  | _ => False

/-- The operation asks for a new profile with the ID, and no profile with it is stored. -/
def StoreOp.Adds (S : ProfileStore) (id : Uuid) (file : Option Text) (op : StoreOp Text Url) : Prop :=
  op.Asks id ∧ ∀ (cuts : List (Cut Error)) (d : ProfileDocument Url),
    (S.list ⟨file, cuts⟩).1 = .ok d → ∀ q ∈ d.profiles, q.id ≠ id

/-- The profiles with the ID of `p` are `p` itself or have later revisions. -/
def Profile.Since (p : Profile Url) (ps : List (Profile Url)) : Prop :=
  ∀ q ∈ ps, q.id = p.id → q = p ∨ p.revision.toNat < q.revision.toNat

namespace Profile.Since

variable {p : Profile Url} {ps qs : List (Profile Url)}

omit [UrlCrate Url] in
theorem append (h : p.Since ps) (hqs : ∀ q ∈ qs, q.id ≠ p.id) : p.Since (ps ++ qs) := by
  intro q hq hid
  rcases List.mem_append.1 hq with hq | hq
  · exact h q hq hid
  · exact absurd hid (hqs q hq)

omit [UrlCrate Url] [Codec Text Value (ProfileDocument Url)] in
/-- An edit keeps it, unless it asks for the ID. -/
theorem edits (h : p.Since ps) {op : StoreOp Text Url} (hasks : ¬op.Asks p.id)
    (hedits : op.Edits ps qs) : p.Since qs := by
  cases op with
  | list => exact hedits.elim
  | exportJson _ => exact hedits.elim
  | create p' =>
    obtain rfl : qs = ps ++ [p'.renumbered] := hedits
    refine h.append fun q hq => ?_
    rw [List.mem_singleton.1 hq]
    exact hasks
  | duplicate fresh _ _ =>
    obtain ⟨a, rfl, -, rfl⟩ := hedits
    refine h.append fun q hq => ?_
    rw [List.mem_singleton.1 hq]
    exact hasks
  | importJson bytes =>
    obtain ⟨e, he, rfl⟩ := hedits
    refine h.append fun q hq hid => ?_
    obtain ⟨q', hq', rfl⟩ := List.mem_map.1 hq
    exact hasks ⟨e, he, q', hq', hid⟩
  | remove id expected _ =>
    obtain ⟨i, stored, -, -, -, rfl⟩ := hedits
    exact fun q hq => h q (List.mem_of_mem_eraseIdx hq)
  | update p' =>
    obtain ⟨hroom, i, stored, hget, hid', hrevision, rfl⟩ := hedits
    intro q hq hid
    rcases List.mem_or_eq_of_mem_set hq with hq | rfl
    · exact h q hq hid
    · -- the profile that was replaced is the one read, or later than it
      have hle : p.revision.toNat ≤ p'.revision.toNat := by
        rw [← hrevision]
        rcases h stored (List.mem_of_getElem? hget) (hid'.trans hid) with rfl | hlt
        · exact Nat.le_refl _
        · exact Nat.le_of_lt hlt
      refine .inr ?_
      simp only [UInt64.toNat_add, UInt64.toNat_ofNat]
      omega

end Profile.Since

namespace ProfileStore

variable {S : ProfileStore} {file file' : Option Text} {d d' : ProfileDocument Url}

omit [Codec Text Value (ProfileExport Url)] in
theorem eq_of_list (hcodec : Codec.Lossless Text (ProfileDocument Url)) (h : Holds file d)
    {cuts : List (Cut Error)} (hlist : (S.list ⟨file, cuts⟩).1 = .ok d') : d' = d :=
  ((list_spec (S := S) (f := True) hcodec h).of_ok (.inl True.intro) rfl hlist).2

omit [UrlCrate Url] [Codec Text Value (ProfileDocument Url)] in
/-- An operation that asks for the ID of a stored profile would store it twice. -/
theorem not_nodup_of_asks {ps qs : List (Profile Url)} {op : StoreOp Text Url} {id : Uuid}
    (hasks : op.Asks id) (hedits : op.Edits ps qs) (hps : ∃ q ∈ ps, q.id = id) :
    ¬(qs.map (·.id)).Nodup := by
  -- the new profiles stand behind the old ones
  have hsplit : ∃ new, qs = ps ++ new ∧ ∃ q ∈ new, q.id = id := by
    cases op with
    | list | exportJson | update | remove => exact hasks.elim
    | create p => exact ⟨[p.renumbered], hedits, p.renumbered, by simp, hasks⟩
    | duplicate fresh _ _ =>
      obtain ⟨a, ha, -, hqs⟩ := hedits
      exact ⟨[a], hqs, a, by simp, ha.trans hasks⟩
    | importJson bytes =>
      obtain ⟨e, he, hqs⟩ := hedits
      obtain ⟨e', he', q, hq, hid⟩ := hasks
      obtain rfl := Except.ok.inj (he.symm.trans he')
      exact ⟨_, hqs, q.renumbered, List.mem_map_of_mem hq, hid⟩
  obtain ⟨new, rfl, q', hq', hid'⟩ := hsplit
  obtain ⟨q, hq, hid⟩ := hps
  rw [List.map_append, List.nodup_append]
  rintro ⟨-, -, hne⟩
  exact hne q.id (List.mem_map_of_mem hq) q'.id (List.mem_map_of_mem hq') (hid.trans hid'.symm)

/-- Whatever happens to the store but an addition of the ID. -/
theorem since_of_reachesBy (hcodec : Codec.Lossless Text (ProfileDocument Url)) (h : Holds file d)
    {p : Profile Url} (hp : p.Since d.profiles)
    (hrun : (S.machine Text Url).ReachesBy (fun file input => ¬input.1.Adds S p.id file) file
      file') :
    ∃ d' : ProfileDocument Url, Holds file' d' ∧ p.Since d'.profiles := by
  refine hrun.preserves
    (P := fun file => ∃ d' : ProfileDocument Url, Holds file d' ∧ p.Since d'.profiles)
    ⟨d, h, hp⟩ ?_
  rintro file ⟨op, cuts⟩ file' o ⟨d, hd, hsince⟩ hadds hst
  obtain ⟨d', hd', rfl | hedits⟩ := holds_of_step hcodec hd hst
  · exact ⟨d', hd', hsince⟩
  refine ⟨d', hd', hsince.edits (fun hasks => ?_) hedits⟩
  refine not_nodup_of_asks hasks hedits ?_ (validateProfiles_eq_ok.1 hd'.valid).2.1
  by_contra hnone
  refine hadds ⟨hasks, fun cuts d'' hlist q hq hid => hnone ⟨q, ?_, hid⟩⟩
  rwa [← eq_of_list hcodec hd hlist]

end ProfileStore

omit [UrlCrate Url] in
/-- With distinct IDs, the profile of an ID is any that has it. -/
theorem find_eq_some {ps : List (Profile Url)} {p : Profile Url} {i : ℕ}
    (hids : (ps.map (·.id)).Nodup) (hp : ps[i]? = some p) :
    ps.find? (·.id == p.id) = some p := by
  have hmem := List.mem_of_getElem? hp
  obtain ⟨q, hq⟩ := Option.isSome_iff_exists.1
    (List.find?_isSome.2 ⟨p, hmem, beq_self_eq_true p.id⟩ :
      (ps.find? (·.id == p.id)).isSome)
  have hid : q.id = p.id := by simpa using List.find?_some hq
  rw [hq, List.inj_on_of_nodup_map hids (List.mem_of_find?_eq_some hq) hmem hid]

omit [UrlCrate Url] in
/-- A profile is selected by the text of its ID. -/
theorem select_id (uuid : UuidCrate) {ps : List (Profile Url)} {p : Profile Url}
    (hids : (ps.map (·.id)).Nodup) (hp : p ∈ ps) : select uuid ps (String.ofList p.id.text) = .ok p := by
  obtain ⟨i, hi, rfl⟩ := List.mem_iff_getElem.1 hp
  have hfind := find_eq_some hids (List.getElem?_eq_getElem hi)
  simp only [select, String.toList_ofList, uuid.parseStr_text, hfind]
  rfl

open ProfileStore in
/-- As long as no operation adds the ID of a profile again, no other contents of the profile carry
the revision a client read, and an update or a removal that names it replaces what was read. -/
theorem revision_identifies {S : ProfileStore} {file file' : Option Text}
    {d d' : ProfileDocument Url} {p : Profile Url} {cuts cuts' : List (Cut Error)}
    (hcodec : Codec.Lossless Text (ProfileDocument Url))
    (hreach : (S.machine Text Url).Reachable file) (hread : (S.list ⟨file, cuts⟩).1 = .ok d)
    (hp : p ∈ d.profiles)
    (hrun : (S.machine Text Url).ReachesBy (fun file input => ¬input.1.Adds S p.id file) file file')
    (hnow : (S.list ⟨file', cuts'⟩).1 = .ok d') :
    (∀ q ∈ d'.profiles, q.id = p.id → q.revision = p.revision → q = p) ∧
    (∀ (edited a : Profile Url) (cuts : List (Cut Error)), edited.id = p.id →
      edited.revision = p.revision → (S.update edited ⟨file', cuts⟩).1 = .ok a →
      d'.profiles.find? (·.id == p.id) = some p) ∧
    ∀ (guarded : List Uuid) (cuts : List (Cut Error)),
      (S.remove Url p.id p.revision guarded ⟨file', cuts⟩).1 = .ok () →
      d'.profiles.find? (·.id == p.id) = some p := by
  obtain ⟨_, h⟩ := holds_of_reachable hcodec hreach
  obtain rfl := eq_of_list hcodec h hread
  have hself : p.Since d.profiles := fun q hq hid => .inl
    (List.inj_on_of_nodup_map (validateProfiles_eq_ok.1 h.valid).2.1 hq hp hid)
  obtain ⟨_, h', hsince⟩ := since_of_reachesBy hcodec h hself hrun
  obtain rfl := eq_of_list hcodec h' hnow
  have hids := (validateProfiles_eq_ok.1 h'.valid).2.1
  have hunique : ∀ q ∈ d'.profiles, q.id = p.id → q.revision = p.revision → q = p := by
    intro q hq hid hrevision
    rcases hsince q hq hid with heq | hlt
    · exact heq
    · rw [hrevision] at hlt
      omega
  refine ⟨hunique, ?_, ?_⟩
  · intro edited a cuts hid hrevision hok
    obtain ⟨_, ⟨-, -, i, stored, hget, hid', hrevision', -⟩, -⟩ :=
      (update_changes hcodec h' edited).of_ok (.inl True.intro) rfl hok
    obtain rfl := hunique stored (List.mem_of_getElem? hget) (hid'.trans hid)
      (hrevision'.trans hrevision)
    exact find_eq_some hids hget
  · intro guarded cuts hok
    obtain ⟨_, ⟨i, stored, hget, hid', hrevision', -⟩, -⟩ :=
      (remove_changes hcodec h' p.id p.revision guarded).of_ok (.inl True.intro) rfl hok
    obtain rfl := hunique stored (List.mem_of_getElem? hget) hid' hrevision'
    exact find_eq_some hids hget

/-- The file of the sample after a profile was created. -/
def sampleFile : Option SampleText :=
  (sampleStore.machine SampleText SampleUrl).perform none [(.create (sampleProfile "a"), [])]

/-- `revision_identifies` of an update right after the profile was read. -/
theorem revision_identifies_created :
    ∃ q ∈ [sampleProfile "a"], q.id = 7 ∧ q.revision = 1 ∧ q = sampleProfile "a" := by
  have hreach : (sampleStore.machine SampleText SampleUrl).Reachable sampleFile :=
    (Machine.Reachable.initial rfl).trans (Machine.reaches_perform _ _)
  have hlist : (sampleStore.list ⟨sampleFile, []⟩).1 =
      .ok (⟨1, 1, [sampleProfile "a"]⟩ : ProfileDocument SampleUrl) := by decide
  have hp : sampleProfile "a" ∈ [sampleProfile "a"] := by simp
  exact ⟨sampleProfile "a", hp, rfl, rfl,
    (revision_identifies sample_document_lossless hreach hlist hp .refl hlist).1 _ hp rfl rfl⟩

/-- A profile is read, removed and created again with other contents; the edit of the contents that
were read is accepted. -/
theorem revision_reused : ∃ (file file' : Option SampleText)
    (d d' : ProfileDocument SampleUrl) (p edited a : Profile SampleUrl),
    (sampleStore.machine SampleText SampleUrl).Reachable file ∧
      (sampleStore.list ⟨file, []⟩).1 = .ok d ∧ p ∈ d.profiles ∧
      (sampleStore.machine SampleText SampleUrl).Reaches file file' ∧
      (sampleStore.list ⟨file', []⟩).1 = .ok d' ∧
      edited.id = p.id ∧ edited.revision = p.revision ∧
      (sampleStore.update edited ⟨file', []⟩).1 = .ok a ∧
      d'.profiles.find? (·.id == p.id) ≠ some p := by
  refine ⟨sampleFile, (sampleStore.machine SampleText SampleUrl).perform sampleFile
      [(.remove 7 1 [], []), (.create (sampleProfile "b"), [])],
    ⟨1, 1, [sampleProfile "a"]⟩, ⟨1, 3, [sampleProfile "b"]⟩, sampleProfile "a",
    { sampleProfile "a" with username := some "u" },
    { sampleProfile "a" with username := some "u", revision := 2 },
    (Machine.Reachable.initial rfl).trans (Machine.reaches_perform _ _), ?_, by simp,
    Machine.reaches_perform _ _, ?_, rfl, rfl, ?_, ?_⟩
  · decide
  · decide
  · decide
  · decide

end Ocvpn
