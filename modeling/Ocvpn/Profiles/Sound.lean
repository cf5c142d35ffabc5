import Ocvpn.Profiles.Store

/-!
# What the profile store holds

Between operations the file is missing or holds the text of a document whose profiles are valid,
with distinct IDs and names (`Holds`).  `Changes` is the triple of an operation that would replace
the profiles: it returns with the new ones stored under the next revision, it fails and leaves the
file alone, or it is stopped before or after the file was replaced.

## Main results

* `StoreOp.run_spec` : how every operation ends, whatever goes wrong on the way.
* `ProfileStore.store_sound` : the promises of the store hold at any time of any run.
-/

namespace Ocvpn

open Crash

open Net (ofRun spec_ofRun_bind)

section Validation

variable {Url : Type}

/-- `ids` and `names` have no entry of their own among the profiles. -/
def Separate (ids : List Uuid) (names : List String) (ps : List (Profile Url)) : Prop :=
  (ps.map (·.id)).Nodup ∧ (ps.map (·.name)).Nodup ∧ ∀ p ∈ ps, p.id ∉ ids ∧ p.name ∉ names

theorem separate_cons {ids : List Uuid} {names : List String} {p : Profile Url}
    {ps : List (Profile Url)} : Separate ids names (p :: ps) ↔
      (p.id ∉ ids ∧ p.name ∉ names) ∧ Separate (p.id :: ids) (p.name :: names) ps := by
  simp only [Separate, List.map_cons, List.nodup_cons, List.mem_map, List.mem_cons,
    forall_eq_or_imp, not_or, not_exists, not_and]
  constructor
  · rintro ⟨⟨hid, hids⟩, ⟨hname, hnames⟩, hp, hps⟩
    exact ⟨hp, hids, hnames, fun q hq => ⟨⟨hid q hq, (hps q hq).1⟩, hname q hq, (hps q hq).2⟩⟩
  · rintro ⟨hp, hids, hnames, hps⟩
    exact ⟨⟨fun q hq => (hps q hq).1.1, hids⟩, ⟨fun q hq => (hps q hq).2.1, hnames⟩, hp,
      fun q hq => ⟨(hps q hq).1.2, (hps q hq).2.2⟩⟩

theorem separate_append {ps qs : List (Profile Url)} : Separate [] [] (ps ++ qs) ↔
    Separate [] [] ps ∧ Separate (ps.map (·.id)) (ps.map (·.name)) qs := by
  simp only [Separate, List.map_append, List.nodup_append, List.mem_append, List.not_mem_nil,
    not_false_eq_true, and_self, implies_true, and_true, List.mem_map]
  constructor
  · rintro ⟨⟨hid, hid', hids⟩, hname, hname', hnames⟩
    refine ⟨⟨hid, hname⟩, hid', hname', fun q hq => ⟨?_, ?_⟩⟩
    · rintro ⟨p, hp, heq⟩
      exact hids _ ⟨p, hp, rfl⟩ _ ⟨q, hq, rfl⟩ heq
    · rintro ⟨p, hp, heq⟩
      exact hnames _ ⟨p, hp, rfl⟩ _ ⟨q, hq, rfl⟩ heq
  · rintro ⟨⟨hid, hname⟩, hid', hname', hqs⟩
    refine ⟨⟨hid, hid', ?_⟩, hname, hname', ?_⟩
    · rintro _ ⟨p, hp, rfl⟩ _ ⟨q, hq, rfl⟩ heq
      exact (hqs q hq).1 ⟨p, hp, heq⟩
    · rintro _ ⟨p, hp, rfl⟩ _ ⟨q, hq, rfl⟩ heq
      exact (hqs q hq).2 ⟨p, hp, heq⟩

/-- The scan of an import finds nothing where `validate_profiles` would find nothing. -/
theorem importConflicts_eq_nil {ids : List Uuid} {names : List String} {ps : List (Profile Url)} :
    importConflicts ids names ps = [] ↔ Separate ids names ps := by
  induction ps generalizing ids names with
  | nil => simp [importConflicts, Separate]
  | cons p ps ih =>
    simp only [importConflicts, List.append_eq_nil_iff, ih, separate_cons, List.contains_eq_mem,
      decide_eq_true_eq, ite_eq_right_iff, List.cons_ne_nil, imp_false]

variable [UrlCrate Url]

theorem validateProfilesFrom_eq_ok {ids : List Uuid} {names : List String}
    {ps : List (Profile Url)} : validateProfilesFrom ids names ps = .ok () ↔
      (∀ p ∈ ps, p.validate = .ok ()) ∧ Separate ids names ps := by
  induction ps generalizing ids names with
  | nil => simp [validateProfilesFrom, Separate]
  | cons p ps ih =>
    simp only [validateProfilesFrom, Exec.bind_eq_ok, Exec.rejectIf_eq_ok, ih, separate_cons,
      List.forall_mem_cons, Bool.or_eq_false_iff, List.contains_eq_mem, decide_eq_false_iff_not]
    constructor
    · rintro ⟨_, hp, _, hfree, hps, hsep⟩
      exact ⟨⟨hp, hps⟩, hfree, hsep⟩
    · rintro ⟨⟨hp, hps⟩, hfree, hsep⟩
      exact ⟨(), hp, (), hfree, hps, hsep⟩

/-- `validate_profiles` accepts valid profiles with distinct IDs and distinct names. -/
theorem validateProfiles_eq_ok {ps : List (Profile Url)} : validateProfiles ps = .ok () ↔
    (∀ p ∈ ps, p.validate = .ok ()) ∧ Separate [] [] ps :=
  validateProfilesFrom_eq_ok

theorem validateProfiles_renumbered {ps : List (Profile Url)} (h : validateProfiles ps = .ok ()) :
    validateProfiles (ps.map Profile.renumbered) = .ok () := by
  obtain ⟨hall, hids, hnames, -⟩ := validateProfiles_eq_ok.1 h
  have hone : (1 : UInt64) ≠ 0 := by decide
  refine validateProfiles_eq_ok.2 ⟨fun p hp => ?_, ?_, ?_, by simp⟩
  · obtain ⟨q, hq, rfl⟩ := List.mem_map.1 hp
    exact Profile.validate_revision (hall q hq) hone
  · simpa [Function.comp_def] using hids
  · simpa [Function.comp_def] using hnames

omit [UrlCrate Url] in
/-- What is selected is one of the profiles. -/
theorem mem_of_select {uuid : UuidCrate} {ps : List (Profile Url)} {selector : String} {p : Profile Url}
    (h : select uuid ps selector = .ok p) : p ∈ ps := by
  rw [select] at h
  split at h
  next q hq =>
    obtain rfl := Except.ok.inj h
    split at hq
    · exact List.mem_of_find?_eq_some hq
    · exact List.mem_of_find?_eq_some hq
  next => exact absurd h (Exec.fail_ne_ok _ _)

end Validation

/-! ### Reading what was written -/

/-- What `serde_json` and the generated code promise of the documents of one kind. -/
structure Codec.Lossless (Text α : Type) {Value : Type} [Serde Text Value] [Serialize α]
    [Codec Text Value α] : Prop where
  /-- The text has the layout of `Json.prettyLength`. -/
  length (a : α) : len (toVecPretty a : Text) = (serialize a).prettyLength 0
  /-- The text is read back, and its numbers are found under their keys. -/
  readBack (a : α) : ∃ v, fromSlice (toVecPretty a : Text) = some v ∧ fromValue Text v = some a ∧
    (∀ key, (serialize a).get key = none → Serde.get Text v key = none) ∧
    ∀ key (n : UInt64), (serialize a).get key = some (.number n.toNat) →
      (Serde.get Text v key).bind (asU64 Text) = some n

variable {Text Value Url : Type} [Serde Text Value] [UrlCrate Url]

theorem decode_toVecPretty {α : Type} [Serialize α] [Codec Text Value α]
    (h : Codec.Lossless Text α) {a : α} {path : String}
    (hlen : len (toVecPretty a : Text) ≤ metadataLimit)
    (hschema : (serialize a).get "schema_version" = some (.number 1))
    (hrevision : (serialize a).get "revision" = none ∨
      ∃ r : UInt64, r ≠ 0 ∧ (serialize a).get "revision" = some (.number r.toNat)) :
    decode (toVecPretty a : Text) path = .ok a := by
  obtain ⟨v, hv, hback, hnone, hnumber⟩ := h.readBack a
  have hone := hnumber "schema_version" 1 hschema
  have hrev : (Serde.get Text v "revision").any (fun w => (asU64 Text w).all (· == 0)) = false := by
    rcases hrevision with hno | ⟨r, hr, hrev⟩
    · simp [hnone _ hno]
    · obtain ⟨w, hw, hwr⟩ := Option.bind_eq_some_iff.1 (hnumber _ r hrev)
      simp [hw, hwr, hr]
  simp [decode, hv, hone, hrev, hback, Exec.rejectIf, Nat.not_lt.2 hlen]

/-- What the file holds between operations. -/
inductive Holds [Codec Text Value (ProfileDocument Url)] :
    Option Text → ProfileDocument Url → Prop
  | missing : Holds none ⟨1, 0, []⟩
  | stored {d : ProfileDocument Url} : d.schemaVersion = 1 → d.revision ≠ 0 →
      validateProfiles d.profiles = .ok () → len (toVecPretty d : Text) ≤ metadataLimit →
      Holds (some (toVecPretty d)) d

namespace Holds

variable [Codec Text Value (ProfileDocument Url)] {file : Option Text} {d : ProfileDocument Url}

theorem valid (h : Holds file d) : validateProfiles d.profiles = .ok () := by
  cases h with
  | missing => rfl
  | stored _ _ hvalid _ => exact hvalid

theorem schema (h : Holds file d) : d.schemaVersion = 1 := by
  cases h with
  | missing => rfl
  | stored hschema _ _ _ => exact hschema

theorem decode (h : Holds file d) (hcodec : Codec.Lossless Text (ProfileDocument Url))
    {bytes : Text} {path : String} (hfile : file = some bytes) :
    Ocvpn.decode bytes path = .ok d := by
  cases h with
  | missing => cases hfile
  | stored hschema hrevision _ hlen =>
    obtain rfl := Option.some.inj hfile
    refine decode_toVecPretty hcodec hlen ?_ (.inr ⟨d.revision, hrevision, rfl⟩)
    rw [show (1 : ℕ) = d.schemaVersion.toNat from congrArg UInt32.toNat hschema.symm]
    rfl

end Holds

/-! ### What an operation does -/

/-- The file holds the profiles under the revision after that of the document. -/
def Replaced [Codec Text Value (ProfileDocument Url)] (d : ProfileDocument Url)
    (ps : List (Profile Url)) (file : Option Text) : Prop :=
  d.revision.toNat + 1 < 2 ^ 64 ∧ Holds file ⟨d.schemaVersion, d.revision + 1, ps⟩

/-- The operation replaces the profiles by some that its result is related to, or fails and leaves
the file alone; stopped, it did one or the other. -/
def Changes [Codec Text Value (ProfileDocument Url)] {α : Type} (file : Option Text)
    (d : ProfileDocument Url) (x : StoreProg Text α) (R : α → List (Profile Url) → Prop) : Prop :=
  Spec True (· = file) x (fun a w => ∃ ps, R a ps ∧ Replaced d ps w) (fun _ w => w = file)
    fun w => w = file ∨ ∃ a ps, R a ps ∧ Replaced d ps w

theorem revision_succ_ne_zero {r : UInt64} (h : r.toNat + 1 < 2 ^ 64) : r + 1 ≠ 0 := by
  intro h0
  have := congrArg UInt64.toNat h0
  simp only [UInt64.toNat_add, UInt64.toNat_ofNat] at this
  omega

theorem increment_eq_ok {r r' : UInt64} :
    increment r = .ok r' ↔ r.toNat + 1 < 2 ^ 64 ∧ r' = r + 1 := by
  have := r.toNat_lt
  unfold increment
  split
  · simp only [Exec.fail_ne_ok, false_iff, not_and]
    omega
  · simp only [Exec.pure_eq_ok, Except.ok.injEq]
    constructor
    · rintro rfl
      exact ⟨by omega, rfl⟩
    · exact fun h => h.2.symm

namespace ProfileStore

variable [Codec Text Value (ProfileDocument Url)] {S : ProfileStore}
  {f : Prop} {file : Option Text} {d : ProfileDocument Url} {α : Type}

/-- Taking the lock, and deleting the credentials of a profile. -/
theorem lock_spec {P : Option Text → Prop} :
    Spec f P lock (fun _ => P) (fun _ w => f ∧ P w) fun w => f ∧ P w :=
  Spec.query (fun _ _ hw _ => hw) (fun _ _ _ h => by cases h) fun hf _ hw =>
    ⟨fun _ => ⟨hf, hw⟩, hf, hw⟩

/-- The document is read; only a failing operation keeps it from being read. -/
theorem profilesUnlocked_spec (hcodec : Codec.Lossless Text (ProfileDocument Url))
    (h : Holds file d) :
    Spec f (· = file) S.profilesUnlocked (fun a w => w = file ∧ a = d)
      (fun _ w => f ∧ w = file) fun w => f ∧ w = file := by
  have hread : Spec f (· = file) S.read (fun a w => w = file ∧ a.getD ⟨1, 0, []⟩ = d)
      (fun _ w => f ∧ w = file) fun w => f ∧ w = file := by
    refine Spec.bind (R := fun a w => w = file ∧ a = file)
      (Spec.query ?_ (fun _ _ _ h => by cases h) fun hf _ hw => ⟨fun _ => ⟨hf, hw⟩, hf, hw⟩) ?_
    · rintro w a rfl ha
      exact ⟨rfl, (Except.ok.inj ha).symm⟩
    · rintro (_ | bytes)
      · refine Spec.pure ?_
        rintro w ⟨rfl, rfl⟩
        cases h
        exact ⟨rfl, rfl⟩
      · refine Spec.intro (fun w hw => hw.2) fun hfile => ?_
        refine Spec.bind (R := fun _ w => w = file) (Spec.orFail (Spec.query ?_
          (fun _ _ _ h => by cases h) fun hf _ hw => ⟨fun _ => ⟨hf, hw.1⟩, hf, hw.1⟩)) fun _ => ?_
        · exact fun w _ hw _ => hw.1
        · refine spec_ofRun_bind ?_ ?_ ?_
          · intro a ha
            rw [h.decode hcodec hfile.symm] at ha
            obtain rfl := Except.ok.inj ha
            exact Spec.pure fun w hw => ⟨hw, rfl⟩
          · intro e w _ he
            rw [h.decode hcodec hfile.symm] at he
            cases he
          · intro w _ he
            rw [h.decode hcodec hfile.symm] at he
            cases he
  refine Spec.bind hread fun a => Spec.intro (fun w hw => hw.2) fun ha => ?_
  simp only [ha, h.valid]
  exact Spec.bind (R := fun _ w => w = file)
    (Spec.orFail (Spec.pure fun w hw => hw.1)) fun _ => Spec.pure fun w hw => ⟨hw, rfl⟩

/-- An operation that starts by reading the document. -/
theorem opened {x : ProfileDocument Url → StoreProg Text α} {Q : α → Option Text → Prop}
    {E : Error → Option Text → Prop} {C : Option Text → Prop}
    (hcodec : Codec.Lossless Text (ProfileDocument Url)) (h : Holds file d)
    (hx : Spec f (· = file) (x d) Q E C) (hE : f → ∀ e, E e file) (hC : f → C file) :
    Spec f (· = file) (S.profilesUnlocked >>= x) Q E C := by
  have hopen := (profilesUnlocked_spec (S := S) (f := f) hcodec h).mono (fun _ => id)
    (fun _ _ => id) (E := E) (C := C) (fun e w hw => hw.2 ▸ hE hw.1 e) fun w hw => hw.2 ▸ hC hw.1
  refine Spec.bind hopen fun a => Spec.intro (fun w hw => hw.2) ?_
  rintro rfl
  exact hx.pre fun w hw => hw.1

theorem list_spec (hcodec : Codec.Lossless Text (ProfileDocument Url)) (h : Holds file d) :
    Spec f (· = file) S.list (fun a w => w = file ∧ a = d) (fun _ w => f ∧ w = file)
      fun w => f ∧ w = file :=
  Spec.bind lock_spec fun _ => profilesUnlocked_spec hcodec h

/-- The last step of an operation: the new profiles are stored under the next revision. -/
theorem commit_spec (h : Holds file d) {ps : List (Profile Url)}
    (hvalid : validateProfiles ps = .ok ()) :
    Spec True (· = file) (S.commit { d with profiles := ps }) (fun _ => Replaced d ps)
      (fun _ w => w = file) fun w => w = file ∨ Replaced d ps w := by
  refine spec_ofRun_bind ?_ (fun _ _ hw _ => hw) fun _ hw _ => ⟨True.intro, .inl hw⟩
  intro revision hrevision
  obtain ⟨hroom, rfl⟩ := increment_eq_ok.1 hrevision
  refine spec_ofRun_bind ?_ (fun _ _ hw _ => hw) fun _ hw _ => ⟨True.intro, .inl hw⟩
  intro _ hlen
  simp only [Exec.rejectIf_eq_ok, decide_eq_false_iff_not] at hlen
  have hreplaced : Replaced d ps (some (toVecPretty
      (⟨d.schemaVersion, d.revision + 1, ps⟩ : ProfileDocument Url) : Text)) :=
    ⟨hroom, .stored h.schema (revision_succ_ne_zero hroom) hvalid (Nat.not_lt.1 hlen)⟩
  refine Spec.atomic fun w hw => Spec.act ?_ (fun _ _ _ h => by cases h) fun _ w' hw' => ?_
  · rintro _ w' rfl hw'
    rw [← Except.ok.inj hw']
    exact hreplaced
  · subst hw' hw
    refine ⟨fun _ => rfl, .inl rfl, fun w' hg => ⟨fun _ => rfl, .inr ?_⟩⟩
    rw [← Except.ok.inj hg]
    exact hreplaced

theorem commit_changes (h : Holds file d) {ps : List (Profile Url)}
    {R : Unit → List (Profile Url) → Prop} (hvalid : validateProfiles ps = .ok ())
    (hR : R () ps) : Changes file d (S.commit { d with profiles := ps }) R :=
  (commit_spec h hvalid).mono (fun _ => id) (fun _ _ hw => ⟨ps, hR, hw⟩) (fun _ _ => id)
    fun _ hw => hw.imp_right fun hr => ⟨(), ps, hR, hr⟩

/-- A last step whose operation returns a value of its own. -/
theorem changes_returning {x : StoreProg Text β} {a : α} {R : α → List (Profile Url) → Prop}
    (hx : Changes file d x fun _ ps => R a ps) : Changes file d (do let _ ← x; pure a) R :=
  Spec.bind (hx.mono (fun _ => id) (fun _ _ => id) (fun _ _ => id) fun _ hw =>
    hw.imp_right fun ⟨_, ps, hR, hr⟩ => ⟨a, ps, hR, hr⟩) fun _ =>
      Spec.pure fun _ hw => hw

/-- A check of an operation that changes the profiles. -/
theorem changes_check {r : Run β} {x : β → StoreProg Text α} {R : α → List (Profile Url) → Prop}
    (hx : ∀ b, r = .ok b → Changes file d (x b) R) : Changes file d (ofRun r >>= x) R :=
  spec_ofRun_bind hx (fun _ _ hw _ => hw) fun _ hw _ => ⟨True.intro, .inl hw⟩

theorem changes_query {x : StoreProg Text α} {R : α → List (Profile Url) → Prop}
    (hx : Changes file d x R) : Changes file d (do Io.query fun _ => .ok (); x) R :=
  Spec.bind (lock_spec.mono (fun _ => id) (fun _ _ => id) (fun _ _ hw => hw.2) fun _ hw => .inl hw.2)
    fun _ => hx

theorem changes_opened {x : ProfileDocument Url → StoreProg Text α}
    {R : α → List (Profile Url) → Prop}
    (hcodec : Codec.Lossless Text (ProfileDocument Url)) (h : Holds file d)
    (hx : Changes file d (x d) R) : Changes file d (S.profilesUnlocked >>= x) R :=
  opened hcodec h hx (fun _ _ => rfl) fun _ => .inl rfl

theorem changes_fail {e : Error} {R : α → List (Profile Url) → Prop} :
    Changes file d (Io.fail e : StoreProg Text α) R :=
  Spec.fail fun _ hw => hw

/-- A new profile is stored last, under the revision `1`. -/
theorem create_changes (hcodec : Codec.Lossless Text (ProfileDocument Url)) (h : Holds file d)
    (p : Profile Url) : Changes file d (S.create p) fun a ps =>
      a = p.renumbered ∧ ps = d.profiles ++ [a] := by
  refine changes_query (changes_opened hcodec h ?_)
  exact changes_check fun _ _ => changes_check fun _ hvalid =>
    changes_returning (commit_changes h hvalid ⟨rfl, rfl⟩)

/-- A profile is updated in its place, from the revision it names to the next one. -/
theorem update_changes (hcodec : Codec.Lossless Text (ProfileDocument Url)) (h : Holds file d)
    (p : Profile Url) : Changes file d (S.update p) fun a ps =>
      a = { p with revision := p.revision + 1 } ∧ p.revision.toNat + 1 < 2 ^ 64 ∧
        ∃ i stored, d.profiles[i]? = some stored ∧ stored.id = p.id ∧
          stored.revision = p.revision ∧ ps = d.profiles.set i a := by
  refine changes_query (changes_opened hcodec h (changes_check fun _ _ => ?_))
  cases hfind : d.profiles.find? (·.id == p.id) with
  | none => exact changes_fail
  | some stored =>
    refine changes_check fun _ hstale => changes_check fun r hr => changes_check fun _ hvalid => ?_
    obtain ⟨hroom, rfl⟩ := increment_eq_ok.1 hr
    have hget : d.profiles[d.profiles.findIdx (·.id == p.id)]? = some stored := by
      rw [← hfind, List.find?_eq_getElem?_findIdx]
    refine changes_returning (commit_changes h hvalid
      ⟨rfl, hroom, _, stored, hget, ?_, ?_, rfl⟩)
    · simpa using List.find?_some hfind
    · simpa [stale] using hstale

/-- A copy is stored last, under its new ID, its new name and the revision `1`. -/
theorem duplicate_changes (hcodec : Codec.Lossless Text (ProfileDocument Url)) (h : Holds file d)
    (fresh : Uuid) (selector name : String) :
    Changes file d (S.duplicate fresh selector name) fun a ps =>
      a.id = fresh ∧ a.revision = 1 ∧ ps = d.profiles ++ [a] := by
  refine changes_query (changes_opened hcodec h ?_)
  exact changes_check fun source _ => changes_check fun _ hvalid =>
    changes_returning (commit_changes h hvalid ⟨rfl, rfl, rfl⟩)

/-- A profile is removed at the revision the caller expects. -/
theorem remove_changes (hcodec : Codec.Lossless Text (ProfileDocument Url)) (h : Holds file d)
    (id : Uuid) (expected : UInt64) (guarded : List Uuid) :
    Changes file d (S.remove Url id expected guarded) fun _ ps =>
      ∃ i stored, d.profiles[i]? = some stored ∧ stored.id = id ∧ stored.revision = expected ∧
        ps = d.profiles.eraseIdx i := by
  refine changes_query (changes_check fun _ _ => changes_opened hcodec h ?_)
  cases hfind : d.profiles.find? (·.id == id) with
  | none => exact changes_fail
  | some stored =>
    refine changes_check fun _ hstale => changes_check fun _ _ => ?_
    have hget : d.profiles[d.profiles.findIdx (·.id == id)]? = some stored := by
      rw [← hfind, List.find?_eq_getElem?_findIdx]
    have hvalid : validateProfiles (d.profiles.eraseIdx (d.profiles.findIdx (·.id == id))) =
        .ok () := by
      obtain ⟨hall, hids, hnames, -⟩ := validateProfiles_eq_ok.1 h.valid
      have hsub := List.eraseIdx_sublist d.profiles (d.profiles.findIdx (·.id == id))
      exact validateProfiles_eq_ok.2 ⟨fun p hp => hall p (hsub.subset hp),
        hids.sublist (hsub.map _), hnames.sublist (hsub.map _), by simp⟩
    have hid : stored.id = id := by simpa using List.find?_some hfind
    have hrevision : stored.revision = expected := by simpa [stale] using hstale
    exact changes_query (commit_changes h hvalid ⟨_, stored, hget, hid, hrevision, rfl⟩)

/-- An import stores all profiles of the text last, or none. -/
theorem import_changes [Codec Text Value (ProfileExport Url)]
    (hcodec : Codec.Lossless Text (ProfileDocument Url)) (h : Holds file d) (bytes : Text) :
    Changes file d (S.importJson bytes) fun a ps => ∃ e : ProfileExport Url,
      decode bytes "<profile import>" = .ok e ∧ a = e.profiles.map Profile.renumbered ∧
        ps = d.profiles ++ a := by
  refine changes_check fun e he => changes_check fun _ himported => changes_query ?_
  refine changes_opened hcodec h (changes_check fun _ hconflicts => ?_)
  simp only [Exec.rejectIf_eq_ok, Bool.not_eq_false', List.isEmpty_iff,
    importConflicts_eq_nil] at hconflicts
  obtain ⟨hall, hsep⟩ := validateProfiles_eq_ok.1 h.valid
  have hvalid : validateProfiles (d.profiles ++ e.profiles.map Profile.renumbered) = .ok () := by
    refine validateProfiles_eq_ok.2 ⟨fun p hp => ?_, separate_append.2 ⟨hsep, hconflicts⟩⟩
    rcases List.mem_append.1 hp with hp | hp
    · exact hall p hp
    · exact Exec.forM_eq_ok.1 himported p hp
  exact changes_returning (commit_changes h hvalid ⟨e, he, rfl, rfl⟩)

/-! ### Copying a store -/

/-- A check that is known to pass. -/
theorem passed {r : Run β} {b : β} {P : Option Text → Prop} {x : β → StoreProg Text α}
    {Q : α → Option Text → Prop} {E : Error → Option Text → Prop} {C : Option Text → Prop}
    (hr : r = .ok b) (hx : Spec f P (x b) Q E C) : Spec f P (ofRun r >>= x) Q E C := by
  rw [hr]
  exact hx

omit [UrlCrate Url] in
theorem commit_performed (hroom : d.revision.toNat + 1 < 2 ^ 64)
    (hlen : len (toVecPretty (⟨d.schemaVersion, d.revision + 1, d.profiles⟩ :
      ProfileDocument Url) : Text) ≤ metadataLimit) :
    Spec False (· = file) (S.commit d : StoreProg Text Unit)
      (fun _ w => w = some (toVecPretty (⟨d.schemaVersion, d.revision + 1, d.profiles⟩ :
        ProfileDocument Url))) (fun _ _ => False) fun _ => False := by
  refine passed (increment_eq_ok.2 ⟨hroom, rfl⟩) (passed (b := ()) ?_ ?_)
  · simpa using hlen
  · refine Spec.atomic fun w _ => Spec.act ?_ (fun _ _ _ h => by cases h) fun hf => hf.elim
    rintro _ w' - hw'
    exact (Except.ok.inj hw').symm

/-- Profiles numbered anew fit where the profiles did. -/
theorem renumbered_fits (hcodec : Codec.Lossless Text (ProfileDocument Url))
    (hschema : d.schemaVersion = 1) (hlen : len (toVecPretty d : Text) ≤ metadataLimit) :
    len (toVecPretty (⟨1, 1, d.profiles.map Profile.renumbered⟩ : ProfileDocument Url) : Text) ≤
      metadataLimit := by
  obtain ⟨schemaVersion, revision, profiles⟩ := d
  obtain rfl : schemaVersion = 1 := hschema
  rw [hcodec.length] at hlen ⊢
  exact Nat.le_trans (ProfileDocument.renumbered_length_le ⟨1, revision, profiles⟩) hlen

/-- The profiles of a document are imported into an empty store from the text of their export. -/
theorem import_export [Codec Text Value (ProfileExport Url)]
    (hcodec : Codec.Lossless Text (ProfileDocument Url))
    (hexport : Codec.Lossless Text (ProfileExport Url)) (hschema : d.schemaVersion = 1)
    (hvalid : validateProfiles d.profiles = .ok ())
    (hlen : len (toVecPretty d : Text) ≤ metadataLimit) :
    Spec False (· = none)
      (S.importJson (toVecPretty (⟨1, d.profiles⟩ : ProfileExport Url) : Text))
      (fun a w => a = d.profiles.map Profile.renumbered ∧ w = some (toVecPretty
        (⟨1, 1, d.profiles.map Profile.renumbered⟩ : ProfileDocument Url)))
      (fun _ _ => False) fun _ => False := by
  have hroom := renumbered_fits hcodec hschema hlen
  obtain ⟨hall, hsep⟩ := validateProfiles_eq_ok.1 (validateProfiles_renumbered hvalid)
  have hdecode : decode (toVecPretty (⟨1, d.profiles⟩ : ProfileExport Url) : Text)
      "<profile import>" = .ok (⟨1, d.profiles⟩ : ProfileExport Url) := by
    refine decode_toVecPretty hexport ?_ rfl (.inl rfl)
    rw [hexport.length]
    rw [hcodec.length] at hlen
    rw [← hschema]
    exact Nat.le_trans (ProfileExport.length_le d) hlen
  refine passed hdecode (passed (Exec.forM_eq_ok.2 hall) ?_)
  refine Spec.bind (R := fun _ w => w = none) (lock_spec.mono (fun _ => id) (fun _ _ => id)
    (fun _ _ hw => hw.1) fun _ hw => hw.1) fun _ => ?_
  refine opened hcodec .missing (passed (b := ()) ?_ ?_) (fun hf => hf.elim) fun hf => hf.elim
  · simp [importConflicts_eq_nil.2 hsep]
  · refine Spec.bind (commit_performed (Nat.one_lt_two_pow (by decide)) hroom) fun _ =>
      Spec.pure fun w hw => ?_
    exact ⟨rfl, hw⟩

end ProfileStore

/-! ### Runs -/

namespace StoreOp

variable [Codec Text Value (ProfileDocument Url)] [Codec Text Value (ProfileExport Url)]
  {S : ProfileStore} {file : Option Text} {d : ProfileDocument Url}

/-- The profiles `qs` that the operation makes of `ps`. -/
def Edits (ps qs : List (Profile Url)) : StoreOp Text Url → Prop
  | list | exportJson _ => False
  | create p => qs = ps ++ [p.renumbered]
  | update p => p.revision.toNat + 1 < 2 ^ 64 ∧ ∃ i stored, ps[i]? = some stored ∧
      stored.id = p.id ∧ stored.revision = p.revision ∧
      qs = ps.set i { p with revision := p.revision + 1 }
  | duplicate fresh _ _ => ∃ a, a.id = fresh ∧ a.revision = 1 ∧ qs = ps ++ [a]
  | remove id expected _ => ∃ i stored, ps[i]? = some stored ∧ stored.id = id ∧
      stored.revision = expected ∧ qs = ps.eraseIdx i
  | importJson bytes => ∃ e : ProfileExport Url, decode bytes "<profile import>" = .ok e ∧
      qs = ps ++ e.profiles.map Profile.renumbered

/-- What an operation that returns leaves behind. -/
def Leaves (op : StoreOp Text Url) (file : Option Text) (d : ProfileDocument Url)
    (w : Option Text) : Prop :=
  (op.mutates = false ∧ w = file) ∨ ∃ ps, op.Edits d.profiles ps ∧ Replaced d ps w

theorem Leaves.of_changes {α : Type} {op : StoreOp Text Url} {x : StoreProg Text α}
    {R : α → List (Profile Url) → Prop} (h : Changes file d x R)
    (hR : ∀ a ps, R a ps → op.Edits d.profiles ps) :
    Spec True (· = file) x (fun _ => op.Leaves file d) (fun _ w => w = file)
      fun w => w = file ∨ op.Leaves file d w :=
  h.mono (fun _ => id) (fun _ _ ⟨ps, ha, hr⟩ => .inr ⟨ps, hR _ ps ha, hr⟩) (fun _ _ => id)
    fun _ hw => hw.imp_right fun ⟨_, ps, ha, hr⟩ => .inr ⟨ps, hR _ ps ha, hr⟩

/-- Exporting leaves the file alone. -/
theorem exportJson_spec (hcodec : Codec.Lossless Text (ProfileDocument Url)) (h : Holds file d)
    (selector : Option String) : Spec True (· = file) (S.exportJson Url selector)
      (fun _ w => w = file) (fun _ w => w = file) (· = file) := by
  refine Spec.bind (R := fun _ w => w = file) ((ProfileStore.list_spec hcodec h).mono
    (fun _ => id) (fun _ _ hw => hw.1) (fun _ _ hw => hw.2) fun _ hw => hw.2) fun d' => ?_
  cases selector with
  | none => exact Spec.bind (R := fun _ w => w = file) (Spec.pure fun _ => id) fun _ =>
      Spec.pure fun _ => id
  | some s =>
    exact spec_ofRun_bind (fun _ _ => Spec.pure fun _ => id) (fun _ _ hw _ => hw)
      fun _ hw _ => ⟨True.intro, hw⟩

/-- How an operation ends, whatever goes wrong on the way. -/
theorem run_spec (hcodec : Codec.Lossless Text (ProfileDocument Url)) (h : Holds file d)
    (op : StoreOp Text Url) :
    Spec True (· = file) (op.run S) (fun _ => op.Leaves file d) (fun _ w => w = file)
      fun w => w = file ∨ op.Leaves file d w := by
  have reading : ∀ {α : Type} {x : StoreProg Text α}, op.mutates = false →
      Spec True (· = file) x (fun _ w => w = file) (fun _ w => w = file) (· = file) →
      Spec True (· = file) (do let _ ← x; pure ()) (fun _ => op.Leaves file d)
        (fun _ w => w = file) fun w => w = file ∨ op.Leaves file d w := fun hop hx =>
    Spec.bind (hx.mono (fun _ => id) (fun _ _ => id) (fun _ _ => id) fun _ => .inl) fun _ =>
      Spec.pure fun _ hw => .inl ⟨hop, hw⟩
  have changing : ∀ {α : Type} {x : StoreProg Text α} {R : α → List (Profile Url) → Prop},
      Changes file d x R → (∀ a ps, R a ps → op.Edits d.profiles ps) →
      Spec True (· = file) (do let _ ← x; pure ()) (fun _ => op.Leaves file d)
        (fun _ w => w = file) fun w => w = file ∨ op.Leaves file d w := fun hx hR =>
    Spec.bind (Leaves.of_changes hx hR) fun _ => Spec.pure fun _ hw => hw
  cases op with
  | list =>
    refine reading rfl ((ProfileStore.list_spec hcodec h).mono (fun _ => id)
      (fun _ _ hw => hw.1) (fun _ _ hw => hw.2) fun _ hw => hw.2)
  | exportJson selector => exact reading rfl (exportJson_spec hcodec h selector)
  | create p =>
    refine changing (ProfileStore.create_changes hcodec h p) ?_
    rintro a ps ⟨rfl, rfl⟩
    rfl
  | update p =>
    refine changing (ProfileStore.update_changes hcodec h p) ?_
    rintro a ps ⟨rfl, hroom, hstored⟩
    exact ⟨hroom, hstored⟩
  | duplicate fresh selector name =>
    refine changing (ProfileStore.duplicate_changes hcodec h fresh selector name) ?_
    rintro a ps ⟨hid, hrevision, rfl⟩
    exact ⟨a, hid, hrevision, rfl⟩
  | remove id expected guarded =>
    exact Leaves.of_changes (ProfileStore.remove_changes hcodec h id expected guarded)
      fun _ _ hR => hR
  | importJson bytes =>
    refine changing (ProfileStore.import_changes hcodec h bytes) ?_
    rintro a ps ⟨e, he, rfl, rfl⟩
    exact ⟨e, he, rfl⟩

/-- However it ends, it leaves the file alone or what its success leaves. -/
theorem run_world (hcodec : Codec.Lossless Text (ProfileDocument Url)) (h : Holds file d)
    (op : StoreOp Text Url) (cuts : List (Cut Error)) :
    (op.run S ⟨file, cuts⟩).2.world = file ∨
      op.Leaves file d (op.run S ⟨file, cuts⟩).2.world :=
  ((run_spec (S := S) hcodec h op).mono (fun _ => id) (fun _ _ => .inr) (fun _ _ => .inl)
    fun _ => id).world (.inl True.intro) rfl

/-- The document after an operation. -/
theorem Leaves.holds {op : StoreOp Text Url} {w : Option Text} (h : Holds file d)
    (hl : op.Leaves file d w) : ∃ d' : ProfileDocument Url, Holds w d' ∧
      (d' = d ∧ w = file ∨ d'.revision.toNat = d.revision.toNat + 1 ∧
        op.Edits d.profiles d'.profiles) := by
  rcases hl with ⟨-, rfl⟩ | ⟨ps, hedits, hroom, hholds⟩
  · exact ⟨d, h, .inl ⟨rfl, rfl⟩⟩
  · refine ⟨_, hholds, .inr ⟨?_, hedits⟩⟩
    simp only [UInt64.toNat_add, UInt64.toNat_ofNat]
    omega

end StoreOp

namespace ProfileStore

variable [Codec Text Value (ProfileDocument Url)] [Codec Text Value (ProfileExport Url)]
  {S : ProfileStore} {file file' : Option Text} {d : ProfileDocument Url}

/-- A step of the store leaves the file alone or makes the edit of its operation. -/
theorem holds_of_step (hcodec : Codec.Lossless Text (ProfileDocument Url)) (h : Holds file d)
    {op : StoreOp Text Url} {cuts : List (Cut Error)} {o : List (Outcome Error Unit)}
    (hst : (S.machine Text Url).step file (op, cuts) = some (file', o)) :
    ∃ d' : ProfileDocument Url, Holds file' d' ∧ (d' = d ∨ op.Edits d.profiles d'.profiles) := by
  obtain rfl : (op.run S ⟨file, cuts⟩).2.world = file' := congrArg Prod.fst (Option.some.inj hst)
  rcases StoreOp.run_world hcodec h op cuts with heq | hleaves
  · rw [heq]
    exact ⟨d, h, .inl rfl⟩
  · obtain ⟨d', hd', ⟨rfl, -⟩ | ⟨-, hedits⟩⟩ := hleaves.holds h
    · exact ⟨d', hd', .inl rfl⟩
    · exact ⟨d', hd', .inr hedits⟩

/-- The file of a store holds a document at any time. -/
theorem holds_of_reachable (hcodec : Codec.Lossless Text (ProfileDocument Url))
    (h : (S.machine Text Url).Reachable file) : ∃ d : ProfileDocument Url, Holds file d := by
  refine h.invariant (P := fun file => ∃ d : ProfileDocument Url, Holds file d) ?_ ?_
  · rintro _ rfl
    exact ⟨_, .missing⟩
  · rintro file ⟨op, cuts⟩ file' o ⟨d, hd⟩ hst
    obtain ⟨d', hd', -⟩ := holds_of_step hcodec hd hst
    exact ⟨d', hd'⟩

omit [Codec Text Value (ProfileExport Url)] in
theorem list_eq (hcodec : Codec.Lossless Text (ProfileDocument Url)) (h : Holds file d) :
    (S.list ⟨file, []⟩).1 = .ok d := by
  obtain ⟨a, ha, -, rfl⟩ := ((list_spec (S := S) (f := False) hcodec h).mono (fun _ => id)
    (fun _ _ => id) (fun _ _ hw => hw.1) fun _ hw => hw.1).exists_ok (.inr rfl) rfl
  exact ha

omit [Codec Text Value (ProfileExport Url)] in
/-- The document of an empty store takes little space. -/
theorem empty_length_le (hcodec : Codec.Lossless Text (ProfileDocument Url)) :
    len (toVecPretty (⟨1, 0, []⟩ : ProfileDocument Url) : Text) ≤ metadataLimit := by
  have hlen : Json.prettyLength 0 (.object [("schema_version", .number 1), ("revision", .number 0),
      ("profiles", .array [])]) ≤ metadataLimit := by decide
  rw [hcodec.length]
  exact hlen

/-- What the store promises between operations, while the file holds `d`. -/
structure Sound (S : ProfileStore) (file : Option Text) (d : ProfileDocument Url) : Prop where
  /-- The next `list` accepts the file. -/
  listed : (S.list ⟨file, []⟩).1 = .ok d
  valid : ∀ p ∈ d.profiles, p.validate = .ok ()
  ids : (d.profiles.map (·.id)).Nodup
  names : (d.profiles.map (·.name)).Nodup
  /-- An operation that returns an error leaves the file alone. -/
  failed : ∀ (op : StoreOp Text Url) (cuts : List (Cut Error)) (e : Error),
    (op.run S ⟨file, cuts⟩).1 = .err e → (op.run S ⟨file, cuts⟩).2.world = file
  /-- An operation that changes the profiles and returns wrote a document that the next `list`
  accepts, under the next revision. -/
  succeeded : ∀ (op : StoreOp Text Url) (cuts : List (Cut Error)), op.mutates = true →
    (op.run S ⟨file, cuts⟩).1 = .ok () → ∃ d' : ProfileDocument Url,
      (S.list ⟨(op.run S ⟨file, cuts⟩).2.world, []⟩).1 = .ok d' ∧
        d'.revision.toNat = d.revision.toNat + 1
  /-- However an import ends, it added all profiles of its text or none. -/
  imported : ∀ (bytes : Text) (cuts : List (Cut Error)),
    ((StoreOp.importJson bytes : StoreOp Text Url).run S ⟨file, cuts⟩).2.world = file ∨
      ∃ (e : ProfileExport Url) (d' : ProfileDocument Url),
        decode bytes "<profile import>" = .ok e ∧
        (S.list ⟨((StoreOp.importJson bytes : StoreOp Text Url).run S ⟨file, cuts⟩).2.world,
          []⟩).1 = .ok d' ∧
        d'.profiles = d.profiles ++ e.profiles.map Profile.renumbered
  /-- The export of all profiles, imported into an empty store, gives the same profiles in the same
  order under the revision `1`. -/
  copied : ∃ (bytes : Text) (s : State (Option Text) Error),
    (S.exportJson Url none ⟨file, []⟩).1 = .ok bytes ∧
    S.importJson bytes ⟨none, []⟩ = (.ok (d.profiles.map Profile.renumbered), s) ∧
    (S.list ⟨s.world, []⟩).1 =
      .ok (⟨1, 1, d.profiles.map Profile.renumbered⟩ : ProfileDocument Url)

omit [Codec Text Value (ProfileExport Url)] in
/-- The document fits into a file. -/
theorem length_le (hcodec : Codec.Lossless Text (ProfileDocument Url)) (h : Holds file d) :
    len (toVecPretty d : Text) ≤ metadataLimit := by
  cases h with
  | missing => exact empty_length_le hcodec
  | stored _ _ _ hlen => exact hlen

theorem copied (hcodec : Codec.Lossless Text (ProfileDocument Url))
    (hexport : Codec.Lossless Text (ProfileExport Url)) (h : Holds file d) :
    ∃ (bytes : Text) (s : State (Option Text) Error),
      (S.exportJson Url none ⟨file, []⟩).1 = .ok bytes ∧
      S.importJson bytes ⟨none, []⟩ = (.ok (d.profiles.map Profile.renumbered), s) ∧
      (S.list ⟨s.world, []⟩).1 =
        .ok (⟨1, 1, d.profiles.map Profile.renumbered⟩ : ProfileDocument Url) := by
  have hexported : Spec False (· = file) (S.exportJson Url none)
      (fun bytes _ => bytes = toVecPretty (⟨1, d.profiles⟩ : ProfileExport Url))
      (fun _ _ => False) fun _ => False := by
    refine Spec.bind (R := fun a _ => a = d) ((list_spec (f := False) hcodec h).mono (fun _ => id)
      (fun _ _ hw => hw.2) (fun _ _ hw => hw.1) fun _ hw => hw.1) fun a => ?_
    refine Spec.bind (R := fun ps _ => ps = d.profiles) (Spec.pure fun _ hw => hw ▸ rfl) fun ps => ?_
    exact Spec.pure fun _ hw => hw ▸ rfl
  obtain ⟨bytes, hbytes, rfl⟩ := hexported.exists_ok (.inr rfl) rfl
  obtain ⟨ps, hps, rfl, hworld⟩ := (import_export (S := S) hcodec hexport h.schema h.valid
    (length_le hcodec h)).exists_ok (.inr rfl) rfl
  have hone : (1 : UInt64) ≠ 0 := by decide
  refine ⟨_, _, hbytes, Prod.ext hps rfl, list_eq hcodec ?_⟩
  rw [hworld]
  exact .stored rfl hone (validateProfiles_renumbered h.valid)
    (renumbered_fits hcodec h.schema (length_le hcodec h))

/-- At any time of any run from the empty store, its file holds a document of which the promises of
the store hold. -/
theorem store_sound (hcodec : Codec.Lossless Text (ProfileDocument Url))
    (hexport : Codec.Lossless Text (ProfileExport Url))
    (hreach : (S.machine Text Url).Reachable file) :
    ∃ d : ProfileDocument Url, S.Sound file d := by
  obtain ⟨d, h⟩ := holds_of_reachable hcodec hreach
  obtain ⟨hall, hids, hnames, -⟩ := validateProfiles_eq_ok.1 h.valid
  have hrun := StoreOp.run_spec (S := S) hcodec h
  refine ⟨d, list_eq hcodec h, hall, hids, hnames, ?_, ?_, ?_, copied hcodec hexport h⟩
  · intro op cuts e he
    exact (hrun op).of_err (.inl True.intro) rfl he
  · intro op cuts hop hok
    rcases (hrun op).of_ok (.inl True.intro) rfl hok with ⟨hread, -⟩ | ⟨ps, -, hroom, hholds⟩
    · rw [hop] at hread
      cases hread
    · refine ⟨_, list_eq hcodec hholds, ?_⟩
      simp only [UInt64.toNat_add, UInt64.toNat_ofNat]
      omega
  · intro bytes cuts
    rcases StoreOp.run_world (S := S) hcodec h (.importJson bytes) cuts with
      heq | ⟨-, heq⟩ | ⟨ps, ⟨e, he, rfl⟩, -, hholds⟩
    · exact .inl heq
    · exact .inl heq
    · exact .inr ⟨e, _, he, list_eq hcodec hholds, rfl⟩

end ProfileStore

/-! ### A sample of the outside code -/

/-- URLs of the form `https://host/`. -/
structure SampleUrl where
  host : String
  deriving DecidableEq

instance : UrlCrate SampleUrl where
  asStr u := "https://" ++ u.host ++ "/"
  scheme _ := "https"
  host u := some u.host
  cannotBeABase _ := false
  username _ := ""
  password _ := none
  port _ := none
  path _ := "/"
  query _ := none
  fragment _ := none
  parseHost s := some s

/-- A text is kept as the value it is the text of. -/
inductive SampleText where
  | document (d : ProfileDocument SampleUrl)
  | exported (e : ProfileExport SampleUrl)
  | number (n : UInt64)
  deriving DecidableEq

instance : Serde SampleText SampleText where
  len
    | .document d => d.serialize.prettyLength 0
    | .exported e => e.serialize.prettyLength 0
    | .number n => (Json.number n.toNat).prettyLength 0
  fromSlice := some
  get v key := match v with
    | .document d =>
      if key = "schema_version" then some (.number d.schemaVersion.toUInt64)
      else if key = "revision" then some (.number d.revision)
      else none
    | .exported e => if key = "schema_version" then some (.number e.schemaVersion.toUInt64) else none
    | .number _ => none
  asU64
    | .number n => some n
    | _ => none

instance : Codec SampleText SampleText (ProfileDocument SampleUrl) where
  toVecPretty := .document
  fromValue
    | .document d => some d
    | _ => none

instance : Codec SampleText SampleText (ProfileExport SampleUrl) where
  toVecPretty := .exported
  fromValue
    | .exported e => some e
    | _ => none

theorem sample_document_lossless : Codec.Lossless SampleText (ProfileDocument SampleUrl) where
  length _ := rfl
  readBack d := by
    refine ⟨.document d, rfl, rfl, ?_, ?_⟩
    · intro key hkey
      by_cases hschema : key = "schema_version"
      · subst hschema
        cases hkey
      by_cases hrevision : key = "revision"
      · subst hrevision
        cases hkey
      simp [Serde.get, hschema, hrevision]
    · intro key n hkey
      by_cases hschema : key = "schema_version"
      · subst hschema
        obtain hn := Json.number.inj (Option.some.inj hkey)
        exact congrArg some (UInt64.toNat_inj.1 hn)
      by_cases hrevision : key = "revision"
      · subst hrevision
        obtain hn := Json.number.inj (Option.some.inj hkey)
        exact congrArg some (UInt64.toNat_inj.1 hn)
      by_cases hprofiles : key = "profiles"
      · subst hprofiles
        cases hkey
      simp [serialize, ProfileDocument.serialize, Json.get, List.lookup, hschema, hrevision,
        hprofiles, beq_false_of_ne] at hkey

theorem sample_export_lossless : Codec.Lossless SampleText (ProfileExport SampleUrl) where
  length _ := rfl
  readBack e := by
    refine ⟨.exported e, rfl, rfl, ?_, ?_⟩
    · intro key hkey
      by_cases hschema : key = "schema_version"
      · subst hschema
        cases hkey
      simp [Serde.get, hschema]
    · intro key n hkey
      by_cases hschema : key = "schema_version"
      · subst hschema
        obtain hn := Json.number.inj (Option.some.inj hkey)
        exact congrArg some (UInt64.toNat_inj.1 hn)
      by_cases hprofiles : key = "profiles"
      · subst hprofiles
        cases hkey
      simp [serialize, ProfileExport.serialize, Json.get, List.lookup, hschema, hprofiles,
        beq_false_of_ne] at hkey

/-- A profile `work` for a server. -/
def sampleProfile (server : String) : Profile SampleUrl :=
  { id := 7, revision := 1, name := "work", protocol := "anyconnect", server := ⟨server⟩ }

/-- A store. -/
def sampleStore : ProfileStore := ⟨"profiles.json", .plain⟩

/-- `ProfileStore.store_sound` of a store with a profile. -/
theorem store_sound_created : ∃ d : ProfileDocument SampleUrl, sampleStore.Sound
    ((sampleStore.machine SampleText SampleUrl).perform none [(.create (sampleProfile "a"), [])]) d :=
  ProfileStore.store_sound sample_document_lossless sample_export_lossless
    ((Machine.Reachable.initial rfl).trans (Machine.reaches_perform _ _))

end Ocvpn
