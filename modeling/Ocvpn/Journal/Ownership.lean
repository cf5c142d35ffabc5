import Ocvpn.Journal.Recovery
import Ocvpn.Unix.Basic

/-!
# Recovery preserves foreign state

Whatever other programs did to the keys of a journal since it was written, a restoration writes only
what the journal owns, and a journal is removed only when nothing is left to restore.

`Trail P W R w₀ w` says what a recovery may have done between `w₀` and `w`, step by step: it puts a
mutation with `W` back to its value before, with a `License`, or it removes a journal with `R`
whose mutations, when they are `Separate`, are `Settled`.  The trails of several journals compose,
so that they pass from one journal to `recover_all`.

`Separate` cannot be dropped for every script: a journal that names a key twice is removed although
only one of the two mutations is undone.  `plan` never makes such a journal (`Unix.distinct_nodup`).

## Main results

* `recovery_preserves_foreign_state` : the guarantees of `restore_one`, `restore`, `recover_all` and
  `lifecycle`, for every journal, every state of the system and every interruption.
* `Unix.separate_of_distinct` : on Unix, mutations of different native keys are separate.
* `Unix.restore_without_warning` : a restoration that cannot read the boot fails without a warning.
-/

namespace Ocvpn.Net

open Crash

variable {H : Type} {P : Platform H}

/-! ### What a recovery may do -/

/-- The key of a mutation is at its value before, gone or absent. -/
def Settled (P : Platform H) (h : H) (m : Mutation) : Prop :=
  P.vanished h m.key = .ok true ∨
    ∃ c, P.read h m.key = .ok c ∧ (P.equivalent m.key c m.before = true ∨ c = none)

/-- Restoring one mutation changes nothing that is read of another one. -/
def Separate (P : Platform H) (ms : List Mutation) : Prop :=
  ∀ (i k : ℕ) (m m' : Mutation), ms[i]? = some m → ms[k]? = some m' → i ≠ k →
    ∀ c h h', P.restore m.key m.before c h = .ok h' →
      P.vanished h' m'.key = P.vanished h m'.key ∧ P.read h' m'.key = P.read h m'.key

/-- The journal stands in the directory under the name of its transaction. -/
def Stored (root : Root) (j : Journal) : Prop :=
  ∃ length, root.find (path j.transaction) = some (.journal j length)

/-- What a recovery may have done since `w₀`, one step after the other.  `W` tells which mutations
it may restore and what it takes for the boot, and `R` which journals it may remove. -/
inductive Trail (P : Platform H) (W : Mutation → Bool → Prop) (R : Journal → Prop) (w₀ : World H) :
    World H → Prop
  | start : Trail P W R w₀ w₀
  /-- The write of an owned, present key back to its value before had no effect. -/
  | tried {w : World H} {m : Mutation} {sameBoot : Bool} {c : Option Value} : Trail P W R w₀ w →
      W m sameBoot → License P w.host m sameBoot c → Trail P W R w₀ (w.tried m)
  /-- It took effect. -/
  | wrote {w : World H} {m : Mutation} {sameBoot : Bool} {c : Option Value} {h : H} :
      Trail P W R w₀ w → W m sameBoot → License P w.host m sameBoot c →
      P.restore m.key m.before c w.host = .ok h → Trail P W R w₀ { w.tried m with host := h }
  /-- A journal was removed. -/
  | removed {w : World H} {j : Journal} : Trail P W R w₀ w → R j →
      (Separate P j.mutations → ∀ m ∈ j.mutations, Settled P w.host m) →
      Trail P W R w₀ (w.removed (path j.transaction))
  /-- The script was executed. -/
  | executed {w : World H} (ts : List Transcript) : Trail P W R w₀ w →
      Trail P W R w₀ { w with transcripts := ts }

/-- A mutation of a journal with `J`, and whether the boot is that of the journal. -/
def Owns (J : Journal → Prop) (bootId : String) (m : Mutation) (sameBoot : Bool) : Prop :=
  ∃ j, J j ∧ m ∈ j.mutations ∧ sameBoot = decide (j.bootId = bootId)

/-- What a recovery of journals with `J` may have done since `w₀`. -/
abbrev Recovered (P : Platform H) (J : Journal → Prop) (w₀ : World H) : World H → Prop :=
  Trail P (Owns J w₀.bootId) J w₀

namespace Trail

variable {W W' : Mutation → Bool → Prop} {R R' : Journal → Prop} {w₀ w w' : World H}

theorem boot (h : Trail P W R w₀ w) : w.bootId = w₀.bootId := by
  induction h with
  | start => rfl
  | tried _ _ _ ih => exact ih
  | wrote _ _ _ _ ih => exact ih
  | removed _ _ _ ih => exact ih
  | executed _ _ ih => exact ih

theorem mono (h : Trail P W R w₀ w) (hW : ∀ m b, W m b → W' m b) (hR : ∀ j, R j → R' j) :
    Trail P W' R' w₀ w := by
  induction h with
  | start => exact .start
  | tried _ hm hl ih => exact ih.tried (hW _ _ hm) hl
  | wrote _ hm hl hr ih => exact ih.wrote (hW _ _ hm) hl hr
  | removed _ hj hs ih => exact ih.removed (hR _ hj) hs
  | executed ts _ ih => exact ih.executed ts

theorem trans (h : Trail P W R w₀ w) (h' : Trail P W R w w') : Trail P W R w₀ w' := by
  induction h' with
  | start => exact h
  | tried _ hm hl ih => exact ih.tried hm hl
  | wrote _ hm hl hr ih => exact ih.wrote hm hl hr
  | removed _ hj hs ih => exact ih.removed hj hs
  | executed ts _ ih => exact ih.executed ts

/-- Files are only removed. -/
theorem find_eq (h : Trail P W R w₀ w) (n : FileName) :
    w.root.find n = none ∨ w.root.find n = w₀.root.find n := by
  induction h with
  | start => exact .inr rfl
  | tried _ _ _ ih => exact ih
  | wrote _ _ _ _ ih => exact ih
  | executed _ _ ih => exact ih
  | removed _ _ _ ih =>
    simp only [World.removed, Root.find_remove]
    split
    · exact .inl rfl
    · exact ih

theorem stored (h : Trail P W R w₀ w) {j : Journal} (hj : Stored w.root j) :
    Stored w₀.root j := by
  obtain ⟨length, hj⟩ := hj
  rcases h.find_eq (path j.transaction) with hn | hn
  · rw [hn] at hj
    cases hj
  · exact ⟨length, hn ▸ hj⟩

end Trail

/-- A recovery of journals that an earlier one left. -/
theorem Recovered.trans {J : Journal → Prop} {w₀ w w' : World H} (h : Recovered P J w₀ w)
    (h' : Recovered P J w w') : Recovered P J w₀ w' :=
  Trail.trans h (h'.mono (fun _ _ hm => h.boot ▸ hm) fun _ => id)

theorem Recovered.mono {J J' : Journal → Prop} {w₀ w : World H} (h : Recovered P J w₀ w)
    (hJ : ∀ j, J j → J' j) : Recovered P J' w₀ w := by
  refine Trail.mono h ?_ hJ
  rintro m b ⟨j, hj, hm⟩
  exact ⟨j, hJ j hj, hm⟩

/-! ### One journal -/

section Restore

variable {f : Prop} {J : Journal → Prop} {w₀ : World H} {j : Journal}

/-- The mutations `done` are settled, if the mutations of the journal are separate. -/
def DoneSettled (P : Platform H) (j : Journal) (done : ℕ → Prop) (h : H) : Prop :=
  Separate P j.mutations → ∀ k, done k → ∀ m, j.mutations[k]? = some m → Settled P h m

theorem DoneSettled.write {done : ℕ → Prop} {h h' : H} {i : ℕ} {m : Mutation} {c : Option Value}
    (hd : DoneSettled P j done h) (hm : j.mutations[i]? = some m)
    (hw : P.restore m.key m.before c h = .ok h') :
    DoneSettled P j (fun k => done k ∧ k ≠ i) h' := by
  rintro hsep k ⟨hk, hne⟩ m' hm'
  obtain ⟨hv, hr⟩ := hsep i k m m' hm hm' (Ne.symm hne) c h h' hw
  unfold Settled
  rw [hv, hr]
  exact hd hsep k hk m' hm'

theorem Quiet.settled {h : H} {m : Mutation} {sameBoot : Bool} (hq : Quiet P h m sameBoot) :
    Settled P h m := by
  cases hq with
  | vanished hv => exact .inl hv
  | before c hr hc => exact .inr ⟨c, hr, .inl hc⟩
  | absent hr _ => exact .inr ⟨none, hr, .inr rfl⟩

/-- Every mutation of the journal is settled, if they are separate. -/
def AllSettled (P : Platform H) (j : Journal) (h : H) : Prop :=
  Separate P j.mutations → ∀ m ∈ j.mutations, Settled P h m

theorem DoneSettled.all {h : H} (hd : DoneSettled P j (· ∈ reverseOrder j) h) :
    AllSettled P j h := by
  intro hsep m hm
  obtain ⟨k, hk, rfl⟩ := List.mem_iff_getElem.1 hm
  exact hd hsep k (by simp [reverseOrder, hk]) _ (List.getElem?_eq_getElem hk)

/-- A recovery that did not remove the file of the journal. -/
def Kept (P : Platform H) (J : Journal → Prop) (j : Journal) (w₀ w : World H) : Prop :=
  Recovered P J w₀ w ∧ w.root.find (path j.transaction) = w₀.root.find (path j.transaction)

/-- A recovery that removed the file of the journal only when nothing was left to restore. -/
def Ended (P : Platform H) (J : Journal → Prop) (j : Journal) (w₀ w : World H) : Prop :=
  Recovered P J w₀ w ∧ (w.root.find (path j.transaction) = w₀.root.find (path j.transaction) ∨
    AllSettled P j w.host)

theorem Kept.ended {w : World H} (h : Kept P J j w₀ w) : Ended P J j w₀ w := ⟨h.1, .inl h.2⟩

/-- One restoration keeps the file of the journal. -/
theorem restoreOne_kept (hj : J j) {i : ℕ} (hi : i < j.mutations.length) (done : List ℕ) :
    Spec f (fun w => Kept P J j w₀ w ∧ DoneSettled P j (· ∈ done) w.host)
      (restoreOne P j i (decide (j.bootId = w₀.bootId)))
      (fun _ w => Kept P J j w₀ w ∧ DoneSettled P j (· ∈ done ++ [i]) w.host)
      (fun _ => Kept P J j w₀) (Kept P J j w₀) := by
  have hm := List.getElem?_eq_getElem hi
  have hown : Owns J w₀.bootId j.mutations[i] (decide (j.bootId = w₀.bootId)) :=
    ⟨j, hj, List.getElem_mem hi, rfl⟩
  -- the write of a key leaves the other ones settled; its own is looked at again
  refine (restoreOne_spec (I := fun w => Kept P J j w₀ w ∧
      DoneSettled P j (fun k => k ∈ done ∧ k ≠ i) w.host)
    (Q := fun w => Kept P J j w₀ w ∧ DoneSettled P j (· ∈ done ++ [i]) w.host)
    (E := fun _ => Kept P J j w₀) hm (fun _ w hw => ⟨fun _ => hw.1, hw.1⟩)
    (fun _ _ hw _ => hw.1) (fun w hw hq => ⟨hw.1, fun hsep k hk m hk' => ?_⟩)
    (fun _ _ _ hw _ _ _ => hw.1) (fun w c hw hl => ⟨⟨hw.1.1.tried hown hl, hw.1.2⟩, hw.2⟩)
    (fun w c h hw hl hr => ⟨⟨hw.1.1.wrote hown hl hr, hw.1.2⟩, ?_⟩) (fun _ _ _ hw _ _ => hw.1)
    fun w c h _ hw hl hr _ _ => ⟨hw.1.1.wrote hown hl hr, hw.1.2⟩).pre fun w hw =>
      ⟨hw.1, fun hsep k hk m hm => hw.2 hsep k hk.1 m hm⟩
  · by_cases hne : k = i
    · subst hne
      rw [hm] at hk'
      cases hk'
      exact hq.settled
    · have hk : k ∈ done := by simpa [hne] using hk
      exact hw.2 hsep k ⟨hk, hne⟩ m hk'
  · have hwr := hw.2.write hm hr
    exact fun hsep k hk m hk' => hwr hsep k ⟨hk, hk.2⟩ m hk'

/-- A restoration of a journal with `J`, whatever the cuts; an error of the directory finds
everything settled. -/
theorem restoring_kept {E : Error → World H → Prop} (hj : J j)
    (hE : ∀ e w, Recovered P J w₀ w → AllSettled P j w.host → E e w) :
    Restoring P True j (decide (j.bootId = w₀.bootId)) (Kept P J j w₀) (Ended P J j w₀) E
      (fun done w => Kept P J j w₀ w ∧ DoneSettled P j (· ∈ done) w.host)
      (fun w => Recovered P J w₀ w ∧ w.root.find (path j.transaction) = none ∧
        AllSettled P j w.host)
      (fun _ => True) (fun _ => True) := by
  have hone : ∀ i < j.mutations.length, Spec True (Kept P J j w₀)
      (restoreOne P j i (decide (j.bootId = w₀.bootId))) (fun _ => Kept P J j w₀)
      (fun _ w => True ∧ Kept P J j w₀ w) (Ended P J j w₀) := fun i hi =>
    (restoreOne_kept hj hi []).mono (fun w hw => ⟨hw, fun _ k hk => by simp at hk⟩)
      (fun _ _ hw => hw.1) (fun _ _ hw => ⟨trivial, hw⟩) fun _ hw => hw.ended
  refine ⟨fun w hw => by rw [hw.1.boot], fun _ => ⟨hone, fun _ _ hw => ⟨fun _ => trivial,
    hw.ended⟩, fun _ => trivial, fun w ts hw => ⟨hw.1.executed ts, hw.2⟩⟩, fun _ _ => trivial,
    fun w hw => ⟨hw, fun _ k hk => by simp at hk⟩, fun done i hi => ?_, hone, ?_, ?_, ?_⟩
  · exact (restoreOne_kept hj hi done).mono (fun _ => id) (fun _ _ => id)
      (fun _ _ hw => ⟨trivial, hw⟩) fun _ hw => hw.ended
  · rintro - w (hw | hw)
    · exact ⟨fun e => hE e w hw.1.1 hw.2.all, hw.1.ended⟩
    · exact ⟨fun e => hE e w hw.1 hw.2.2, hw.1, .inr hw.2.2⟩
  · exact fun w hw => ⟨hw.1.1.removed hj hw.2.all, by simp [World.removed, Root.find_remove],
      hw.2.all⟩
  · exact fun w hw _ => hE _ w hw.1.1 hw.2.all

/-- **A whole restoration.**  No warning is returned only when the journal is gone, and it is gone
only when nothing is left to restore. -/
theorem restore_ended (hj : J j) :
    Spec True (Kept P J j w₀) (restore P j)
      (fun es w => Ended P J j w₀ w ∧ (es = [] → w.root.find (path j.transaction) = none))
      (fun _ => Ended P J j w₀) (Ended P J j w₀) := by
  refine ((restoring_kept hj fun _ w hw hs => ⟨hw, .inr hs⟩).restore fun _ _ hw =>
    ⟨fun _ => hw.ended, hw.ended⟩).post fun es w hw => ?_
  rcases hw with ⟨-, hw⟩ | ⟨hne, -, hw⟩ | ⟨-, ⟨e, he, -⟩, hw⟩
  · exact ⟨⟨hw.1, .inr hw.2.2⟩, fun _ => hw.2.1⟩
  · exact ⟨hw.1.ended, fun h => absurd h hne⟩
  · exact ⟨hw.ended, fun h => by simp [h] at he⟩

theorem restore_recovered (hj : J j) :
    Spec True (· = w₀) (restore P j)
      (fun es w => Recovered P J w₀ w ∧ (es = [] → w.root.find (path j.transaction) = none))
      (fun _ => Recovered P J w₀) (Recovered P J w₀) := by
  refine (restore_ended hj).mono ?_ (fun _ _ hw => ⟨hw.1.1, hw.2⟩) (fun _ _ hw => hw.1)
    fun _ hw => hw.1
  rintro _ rfl
  exact ⟨.start, rfl⟩

/-- A restoration that reads the boot returns its warnings, unless nothing is left to restore. -/
theorem restore_reports {cuts : List (Cut Error)} {e : Error}
    (hboot : cuts.headD .performed = .performed) (h : (restore P j ⟨w₀, cuts⟩).1 = .err e) :
    AllSettled P j (restore P j ⟨w₀, cuts⟩).2.world.host := by
  have hread : bootId ⟨w₀, cuts⟩ = (.ok w₀.bootId, ⟨w₀, cuts.tail⟩) :=
    Io.query_eq_ok.2 ⟨hboot, rfl, rfl⟩
  have hkept : Restoring P True j (decide (j.bootId = w₀.bootId)) (Kept P (· = j) j w₀)
      (Ended P (· = j) j w₀) (fun _ w => AllSettled P j w.host) _ _ _ _ :=
    restoring_kept rfl fun _ _ _ hs => hs
  rw [restore_known, Io.bind_of_ok hread] at h ⊢
  exact hkept.knowing.of_err (.inl True.intro) ⟨.start, rfl⟩ h

end Restore

/-! ### All journals -/

theorem isSuffixOf_stem (t : TransactionId) :
    ".json".toList.isSuffixOf (stem t ++ ".json".toList) = true :=
  List.isSuffixOf_iff_suffix.2 (List.suffix_append _ _)

theorem path_isJson (t : TransactionId) : (path t).isJson = true := by
  show (".json".toList.isSuffixOf (stem t ++ ".json".toList) &&
    decide ((stem t ++ ".json".toList).length > 5)) = true
  rw [isSuffixOf_stem]
  simp [stem]

theorem path_injective {t t' : TransactionId} (h : path t = path t') : t = t' := by
  simp only [path, stem, FileName.text.injEq, List.append_left_inj] at h
  obtain ⟨hs, ha⟩ := List.append_inj h (by simp)
  obtain ⟨s, a⟩ := t
  obtain ⟨s', a'⟩ := t'
  simp only [List.cons.injEq, true_and] at ha
  obtain rfl : s = s' := Uuid.text_injective hs
  obtain rfl : a = a' := Uuid.text_injective ha
  rfl

/-- A journal's file name tells its transaction. -/
theorem transactionOf_path (uuid : UuidCrate) (t : TransactionId) :
    transactionOf uuid (stem t ++ ".json".toList) = some t := by
  have htake : (stem t ++ ".json".toList).take ((stem t ++ ".json".toList).length - 5) = stem t := by
    simp
  have hservice : (stem t).take 36 = t.serviceInstanceId.text := by
    rw [stem, List.take_append_of_le_length (by simp), List.take_of_length_le (by simp)]
  have hattempt : (stem t).drop 37 = t.attemptId.text := by
    rw [stem, List.drop_append, List.drop_of_length_le (by simp)]
    simp
  unfold transactionOf
  rw [htake]
  dsimp only
  rw [hservice, hattempt, uuid.parseStr_text, uuid.parseStr_text, if_neg (by simp [stem])]

section Recover

variable {w₀ : World H}

/-- A loaded journal is one of the directory. -/
theorem load_stored (t : TransactionId) :
    Spec True (· = w₀) (load t) (fun r w => w = w₀ ∧ (r = none → w₀.root.find (path t) = none) ∧
      ∀ j, r = some j → Stored w₀.root j ∧ j.transaction = t) (fun _ => (· = w₀)) (· = w₀) := by
  refine load_spec (fun _ w hw => ⟨fun _ => hw, hw⟩) (fun w hw hn => ⟨hw, fun _ => hw ▸ hn, by simp⟩)
    (fun w c j hw hc hl => ⟨hw, by simp, ?_⟩) fun _ _ _ hw _ _ => hw
  obtain ⟨length, rfl, -, hacc, -⟩ := hl
  have ht : j.transaction = t := by
    simp only [accepted, Bool.and_eq_true, decide_eq_true_eq] at hacc
    exact hacc.1.1.2
  rintro _ ⟨⟩
  exact ⟨⟨length, by rw [ht, ← hw, hc]⟩, ht⟩

theorem recoverEntries_recovered (names : List FileName) :
    Spec True (· = w₀) (recoverEntries P names)
      (fun es w => Recovered P (Stored w₀.root) w₀ w ∧
        (es = [] → ∀ t, path t ∈ names → w.root.find (path t) = none))
      (fun _ => Recovered P (Stored w₀.root) w₀) (Recovered P (Stored w₀.root) w₀) := by
  have hrefl : ∀ w, w = w₀ → Recovered P (Stored w₀.root) w₀ w := by
    rintro _ rfl
    exact .start
  induction names generalizing w₀ with
  | nil => exact Spec.pure fun w hw => ⟨hrefl w hw, by simp⟩
  | cons name names ih =>
    cases name with
    | raw json => exact Spec.fail fun w hw => hrefl w hw
    | text name =>
      -- an entry that is no journal of its own name says nothing about `path t`
      have hskip : (∀ t, path t ≠ .text name) → Spec True (· = w₀) (recoverEntries P names)
          (fun es w => Recovered P (Stored w₀.root) w₀ w ∧
            (es = [] → ∀ t, path t ∈ .text name :: names → w.root.find (path t) = none))
          (fun _ => Recovered P (Stored w₀.root) w₀) (Recovered P (Stored w₀.root) w₀) := by
        intro hne
        refine (ih hrefl).post fun es w hw => ⟨hw.1, fun hes t ht => hw.2 hes t ?_⟩
        exact (List.mem_cons.1 ht).resolve_left (hne t)
      unfold recoverEntries
      split
      · next hsuffix =>
        refine hskip fun t ht => ?_
        rw [← FileName.text.inj ht, isSuffixOf_stem] at hsuffix
        cases hsuffix
      next hsuffix =>
      cases ht : transactionOf P.uuid name with
      | none => exact Spec.fail fun w hw => hrefl w hw
      | some t =>
        have honly : ∀ t', path t' = .text name → t' = t := by
          intro t' ht'
          rw [← FileName.text.inj ht', transactionOf_path] at ht
          exact Option.some.inj ht
        refine Spec.bind ((load_stored t).mono (fun _ => id) (fun _ _ => id)
          (fun _ w hw => hrefl w hw) hrefl) fun r => ?_
        cases r with
        | none =>
          refine Spec.intro (fun w hw => hw.2.1 rfl) fun hnone => Spec.pre ?_ fun w hw => hw.1
          refine (ih hrefl).post fun es w hw => ⟨hw.1, fun hes t' ht' => ?_⟩
          rcases List.mem_cons.1 ht' with heq | hmem
          · rw [honly t' heq]
            exact (hw.1.find_eq _).elim id (·.trans hnone)
          · exact hw.2 hes t' hmem
        | some j =>
          refine Spec.intro (fun w hw => hw.2.2 j rfl) fun hj => Spec.pre ?_ fun w hw => hw.1
          refine Spec.bind (restore_recovered hj.1) fun ws => Spec.each fun w₁ h₁ => ?_
          have hmono : ∀ w, Recovered P (Stored w₁.root) w₁ w → Recovered P (Stored w₀.root) w₀ w :=
            fun w hw => Recovered.trans h₁.1 (Recovered.mono hw fun j hj => h₁.1.stored hj)
          have hrest := @ih w₁ (by rintro _ rfl; exact .start)
          refine Spec.bind (hrest.mono (fun _ => id) (fun _ _ => id) (fun _ w => hmono w) hmono)
            fun rest => Spec.pure fun w hw => ⟨hmono w hw.1, fun hes t' ht' => ?_⟩
          obtain ⟨rfl, rfl⟩ := List.append_eq_nil_iff.1 hes
          rcases List.mem_cons.1 ht' with heq | hmem
          · rw [honly t' heq, ← hj.2]
            exact (hw.1.find_eq _).elim id (·.trans (h₁.2 rfl))
          · exact hw.2 rfl t' hmem

end Recover

/-- **Every journal of the directory.** -/
theorem recoverAll_recovered {w₀ : World H} :
    Spec True (· = w₀) (recoverAll P)
      (fun es w => Recovered P (Stored w₀.root) w₀ w ∧
        (es = [] → ∀ t, w.root.find (path t) = none))
      (fun _ => Recovered P (Stored w₀.root) w₀) (Recovered P (Stored w₀.root) w₀) := by
  have hrefl : ∀ w, w = w₀ → Recovered P (Stored w₀.root) w₀ w := by
    rintro _ rfl
    exact .start
  have hquery : ∀ {α : Type} {g : World H → Except Error α}, Spec True (· = w₀) (Io.query g)
      (fun a w => g w = .ok a ∧ w = w₀) (fun _ => Recovered P (Stored w₀.root) w₀)
      (Recovered P (Stored w₀.root) w₀) := fun {_ _} =>
    Spec.query (fun _ _ hw ha => ⟨ha, hw⟩) (fun w _ hw _ => hrefl w hw)
      fun _ w hw => ⟨fun _ => hrefl w hw, hrefl w hw⟩
  refine Spec.bind (Spec.orFail hquery) fun _ => ?_
  refine Spec.bind (hquery.pre fun w hw => hw.2) fun _ => ?_
  refine Spec.bind ((Spec.orFail hquery).pre fun w hw => hw.2) fun names => ?_
  refine Spec.intro (p := names = w₀.root.names) (fun w hw => ?_) fun hnames =>
    Spec.pre ?_ fun w hw => hw.2
  · obtain ⟨hw, rfl⟩ := hw
    exact (Except.ok.inj hw).symm
  refine (recoverEntries_recovered names).post fun es w hw => ⟨hw.1, fun hes t => ?_⟩
  by_cases ht : path t ∈ w₀.root.names
  · exact hw.2 hes t (hnames ▸ ht)
  · exact (hw.1.find_eq _).elim id (·.trans (by simpa [Root.mem_names] using ht))

/-- **One journal.** -/
theorem recover_recovered {w₀ : World H} (t : TransactionId) :
    Spec True (· = w₀) (recover P t)
      (fun es w => Recovered P (Stored w₀.root) w₀ w ∧ (es = [] → w.root.find (path t) = none))
      (fun _ => Recovered P (Stored w₀.root) w₀) (Recovered P (Stored w₀.root) w₀) := by
  have hrefl : ∀ w, w = w₀ → Recovered P (Stored w₀.root) w₀ w := by
    rintro _ rfl
    exact .start
  refine Spec.bind ((Keeps.orFail Keeps.query).mono (fun _ => id) (fun _ _ => id)
    (fun _ => hrefl) hrefl) fun _ => ?_
  refine Spec.bind (Keeps.query.mono (fun _ => id) (fun _ _ => id) (fun _ => hrefl) hrefl)
    fun _ => ?_
  refine Spec.bind ((load_stored t).mono (fun _ => id) (fun _ _ => id) (fun _ => hrefl) hrefl)
    fun r => ?_
  cases r with
  | none => exact Spec.pure fun w hw => ⟨hrefl w hw.1, fun _ => hw.1 ▸ hw.2.1 rfl⟩
  | some j =>
    refine Spec.intro (fun w hw => hw.2.2 j rfl) fun hj => Spec.pre ?_ fun w hw => hw.1
    exact hj.2 ▸ restore_recovered hj.1

/-! ### A second journal -/

/-- No journal is in the directory but that of `t`. -/
def Only (t : TransactionId) (root : Root) : Prop := ∀ n ∈ root.names, n.isJson = true → n = path t

/-- No journal was created since `w₀`, or the only one is that of `t`. -/
def NoSecondJournal (t : TransactionId) (w₀ w : World H) : Prop :=
  (∀ n, n.isJson = true → w.root.find n = none ∨ w.root.find n = w₀.root.find n) ∨ Only t w.root

section Only

variable {t : TransactionId}

theorem pendingPath_isJson (t : TransactionId) : (pendingPath t).isJson = false := by
  have hne : ".json".toList.isSuffixOf (stem t ++ ".pending".toList) = false := by
    rw [← Bool.not_eq_true, List.isSuffixOf_iff_suffix]
    intro hsuffix
    have h := List.suffix_of_suffix_length_le hsuffix
      (List.suffix_append (stem t) ".pending".toList) (by simp)
    revert h
    decide
  show (".json".toList.isSuffixOf (stem t ++ ".pending".toList) &&
    decide ((stem t ++ ".pending".toList).length > 5)) = false
  rw [hne, Bool.false_and]

theorem Only.put {root : Root} (h : Only t root) {name : FileName}
    (hname : name.isJson = true → name = path t) (c : Contents) : Only t (root.put name c) := by
  intro n hn hjson
  rcases Root.mem_names_put.1 hn with rfl | hn
  · exact hname hjson
  · exact h n hn hjson

theorem Only.remove {root : Root} (h : Only t root) (name : FileName) :
    Only t (root.remove name) :=
  fun n hn => h n (Root.mem_names_remove.1 hn).2

theorem Only.recovered {J : Journal → Prop} {w₀ w : World H} (h : Only t w₀.root)
    (hr : Recovered P J w₀ w) : Only t w.root := by
  intro n hn
  have hsome := Root.mem_names.1 hn
  refine h n (Root.mem_names.2 ?_)
  rcases hr.find_eq n with hnone | hsame
  · exact absurd hnone hsome
  · rwa [← hsame]

/-- The only journal, on disk and in memory, is that of `t`. -/
def Sole (t : TransactionId) (w : World H) : Prop :=
  Only t w.root ∧ ∀ j, w.memory = some j → j.transaction = t

theorem memory_sole :
    Spec True (Sole t) (memory : Prog H Journal) (fun j w => j.transaction = t ∧ Sole t w)
      (fun _ => Sole t) (Sole t) := by
  refine Spec.bind (R := fun r w => Sole t w ∧ r = w.memory)
    (Spec.get fun _ hw => ⟨hw, rfl⟩) fun r => ?_
  cases r with
  | none => exact Spec.panic fun w hw => ⟨True.intro, hw.1⟩
  | some j => exact Spec.pure fun w hw => ⟨hw.1.2 j hw.2.symm, hw.1⟩

theorem setMemory_sole {j : Journal} (hj : j.transaction = t) :
    Keeps True (Sole t) (setMemory j : Prog H Unit) :=
  Keeps.modify fun _ hw => ⟨hw.1, fun _ h => Option.some.inj h ▸ hj⟩

theorem save_only {j : Journal} (hj : j.transaction = t) {M : Option Journal → Prop} :
    Keeps True (fun w : World H => Only t w.root ∧ M w.memory) (save P j) := by
  refine save_spec (fun _ _ hw => ⟨fun _ => hw, hw⟩) (fun _ _ hw => ⟨fun _ => hw, hw⟩)
    (fun _ c hw => ⟨hw.1.put (fun h => ?_) c, hw.2⟩) (fun _ _ hw => hw)
    fun _ _ hw => ⟨(hw.1.remove _).put (fun _ => by rw [hj]) _, hw.2⟩
  rw [pendingPath_isJson] at h
  cases h

theorem save_sole {j : Journal} (hj : j.transaction = t) : Keeps True (Sole t) (save P j) :=
  save_only (M := fun r => ∀ j, r = some j → j.transaction = t) hj

theorem onHost_sole {α : Type} {x : HostProg H α} : Keeps True (Sole t) (onHost x) :=
  Keeps.zoom fun _ _ hw => hw

theorem applyOperation_sole (ops : UnixOps H) (config : NetworkConfig) (inventory : List Mutation)
    (index : ℕ) : Keeps True (Sole t) (applyOperation P ops config inventory index) := by
  refine Spec.bind memory_sole fun j => Spec.intro (fun w hw => hw.1) fun hj =>
    Spec.pre ?_ fun w hw => hw.2
  refine Keeps.bind (setMemory_sole hj) fun _ => ?_
  refine Keeps.bind (save_sole hj) fun _ => ?_
  cases inventory[index]? with
  | none => exact Keeps.panic True.intro
  | some item =>
    refine Keeps.bind onHost_sole fun applied => ?_
    exact Keeps.bind (setMemory_sole hj) fun _ => save_sole hj

theorem verified_sole (reason : NetworkReason) : Keeps True (Sole t) (verified P reason) := by
  have hmemory : ∀ {α : Type} {g : Journal → Prog H α},
      (∀ j, j.transaction = t → Keeps True (Sole t) (g j)) →
      Keeps True (Sole t) (memory >>= g) := fun hg =>
    Spec.bind memory_sole fun j => Spec.intro (fun w hw => hw.1) fun hj =>
      Spec.pre (hg j hj) fun w hw => hw.2
  refine Keeps.bind (hmemory fun j hj => ?_) fun _ => hmemory fun j _ => ?_
  · cases P.adapter with
    | windows applyPlanned => exact onHost_sole
    | unix ops =>
      refine Keeps.bind (Keeps.forEach fun m _ => Keeps.bind Keeps.query fun current => ?_)
        fun _ => ?_
      · split
        · exact Keeps.pure
        · exact Keeps.fail
      · refine (applyScript_spec (F := fun _ => True) ⟨fun i _ => ?_, fun _ w hw =>
          ⟨fun _ => True.intro, hw⟩, fun _ => True.intro, fun w ts hw => hw⟩ ops
          (fun _ _ => True.intro) (.inr fun _ => True.intro)).mono (fun _ => id) (fun _ _ => id)
          (fun _ _ hw => hw.2) fun _ => id
        exact (applyOperation_sole ops j.config j.mutations i).mono (fun _ => id) (fun _ _ => id)
          (fun _ _ hw => ⟨True.intro, hw⟩) fun _ => id
  · refine Keeps.bind (Keeps.forEach fun i _ => hmemory fun j hj => ?_) fun _ =>
      hmemory fun j hj => Keeps.bind (save_sole hj) fun _ => onHost_sole
    cases j.mutations[i]? with
    | none => exact Keeps.panic True.intro
    | some m =>
      refine Keeps.bind Keeps.query fun actual => ?_
      split
      · exact setMemory_sole hj
      · exact Keeps.fail

/-- A journal is created only when the directory has none. -/
theorem configure_noSecondJournal {w₀ : World H} (reason : NetworkReason)
    (config : Option NetworkConfig) :
    Keeps True (NoSecondJournal t w₀) (configure P t reason config) := by
  have honly : ∀ {α : Type} {g : World H → Except Error α} {e : Error},
      Keeps True (fun w => Only t w.root) ((Io.query g).orFail e) := Keeps.orFail Keeps.query
  have hor : ∀ w : World H, Only t w.root → NoSecondJournal t w₀ w := fun _ => .inr
  refine Spec.bind (R := fun names w => NoSecondJournal t w₀ w ∧ names = w.root.names)
    (Spec.orFail (Spec.query (fun w names hw hn => ⟨hw, (Except.ok.inj hn).symm⟩)
      (fun _ _ hw _ => hw) fun _ w hw => ⟨fun _ => hw, hw⟩)) fun names => ?_
  split
  · exact Spec.fail fun w hw => hw.1
  next hjson =>
  -- no entry of the directory is a journal
  suffices hempty : Spec True (fun w => Only t w.root) _ (fun _ => NoSecondJournal t w₀)
      (fun _ => NoSecondJournal t w₀) (NoSecondJournal t w₀) from
    hempty.pre fun w hw n hn h => absurd (List.any_eq_true.2 ⟨n, hw.2 ▸ hn, h⟩) hjson
  cases config with
  | none => exact Spec.fail hor
  | some config =>
    have hplan : Keeps True (fun w : World H => Only t w.root) (onHost (P.plan config t)) :=
      Keeps.zoom fun _ _ hw => hw
    refine Spec.bind (hplan.mono (fun _ => id) (fun _ _ => id) (fun _ => hor) hor)
      fun mutations => ?_
    split
    · exact Spec.fail hor
    refine Spec.bind (Keeps.query (I := fun w : World H => Only t w.root)
      |>.mono (fun _ => id) (fun _ _ => id) (fun _ => hor) hor) fun boot => ?_
    refine Spec.bind ((save_only (M := fun _ => True) (by rfl)).mono (fun w hw => ⟨hw, True.intro⟩)
      (fun _ _ hw => hw) (fun _ w hw => hor w hw.1) fun w hw => hor w hw.1) fun _ => ?_
    refine Spec.bind (R := fun _ => Sole t) (Spec.modify fun w hw =>
      ⟨hw.1, fun j hj => by rw [← Option.some.inj hj]⟩) fun _ => ?_
    refine Spec.bind ((Keeps.attempt (verified_sole reason)).mono (fun _ => id) (fun _ _ => id)
      (fun _ w hw => hor w hw.1) fun w hw => hor w hw.1) fun result => ?_
    cases result with
    | ok v => exact Spec.pure fun w hw => hor w hw.1
    | error e =>
      refine Spec.bind (memory_sole.mono (fun _ => id) (fun _ _ => id)
        (fun _ w hw => hor w hw.1) fun w hw => hor w hw.1) fun j => Spec.each fun w₁ h₁ => ?_
      have hrestore : ∀ w, Recovered P (fun _ => True) w₁ w → NoSecondJournal t w₀ w :=
        fun w hw => .inr (h₁.2.1.recovered hw)
      have hj : Spec True (· = w₁) (restore P j)
          (fun _ => NoSecondJournal t w₀) (fun _ => NoSecondJournal t w₀) (NoSecondJournal t w₀) :=
        (restore_recovered True.intro).mono (fun _ => id) (fun _ w hw => hrestore w hw.1)
          (fun _ => hrestore) hrestore
      refine Spec.bind hj fun warnings => ?_
      split
      · exact Spec.fail fun _ => id
      · exact Spec.fail fun _ => id

/-- What a recovery does to the directory is no second journal. -/
theorem Recovered.noSecondJournal {J : Journal → Prop} {w₀ w : World H}
    (h : Recovered P J w₀ w) : NoSecondJournal t w₀ w := .inl fun n _ => h.find_eq n

theorem lifecycle_noSecondJournal {w₀ : World H} (input : LifecycleInput) :
    Spec True (· = w₀) (lifecycle P t input) (fun _ => NoSecondJournal t w₀)
      (fun _ => NoSecondJournal t w₀) (NoSecondJournal t w₀) := by
  have hrefl : ∀ w, w = w₀ → NoSecondJournal t w₀ w := by
    rintro _ rfl
    exact .inl fun _ _ => .inr rfl
  refine Spec.bind ((Keeps.orFail Keeps.query).mono (fun _ => id) (fun _ _ => id)
    (fun _ => hrefl) hrefl) fun _ => ?_
  refine Spec.bind (Keeps.query.mono (fun _ => id) (fun _ _ => id) (fun _ => hrefl) hrefl)
    fun _ => ?_
  split
  · exact Spec.pure hrefl
  have hsettle : Spec True (· = w₀) (settleOld P t) (fun _ => NoSecondJournal t w₀)
      (fun _ => NoSecondJournal t w₀) (NoSecondJournal t w₀) := by
    refine Spec.bind ((load_stored t).mono (fun _ => id) (fun _ _ => id) (fun _ => hrefl) hrefl)
      fun r => ?_
    cases r with
    | none => exact Spec.pure fun w hw => hrefl w hw.1
    | some j =>
      refine Spec.intro (fun w hw => hw.2.2 j rfl) fun hj => Spec.pre ?_ fun w hw => hw.1
      refine Spec.bind (R := fun _ => NoSecondJournal t w₀) ((restore_recovered hj.1).mono
        (fun _ => id) (fun _ _ hw => hw.1.noSecondJournal) (fun _ _ hw => hw.noSecondJournal)
        fun _ hw => hw.noSecondJournal) fun warnings => ?_
      split
      · exact Spec.pure fun _ => id
      · exact Spec.fail fun _ => id
  refine Spec.bind hsettle fun _ => ?_
  split
  · exact Spec.pure fun _ => id
  · exact Spec.bind (configure_noSecondJournal input.reason input.config) fun _ =>
      Spec.pure fun _ => id

end Only

/-! ### The guarantees together -/

/-- One restoration on its own, for any verdict about the boot. -/
theorem restoreOne_trail {w₀ : World H} {j : Journal} {i : ℕ} (hi : i < j.mutations.length)
    (sameBoot : Bool) :
    Keeps True (Trail P (fun m b => j.mutations[i]? = some m ∧ b = sameBoot) (fun _ => False) w₀)
      (restoreOne P j i sameBoot) := by
  have hm := List.getElem?_eq_getElem hi
  exact restoreOne_spec hm (fun _ w hw => ⟨fun _ => hw, hw⟩) (fun _ _ hw _ => hw)
    (fun _ hw _ => hw) (fun _ _ _ hw _ _ _ => hw) (fun w c hw hl => hw.tried ⟨hm, rfl⟩ hl)
    (fun w c h hw hl hr => hw.wrote ⟨hm, rfl⟩ hl hr) (fun _ _ _ hw _ _ => hw)
    fun w c h _ hw hl hr _ _ => hw.wrote ⟨hm, rfl⟩ hl hr

/-- Without cuts a restoration of a journal that stands in the directory returns its warnings. -/
theorem restore_returns {j : Journal} :
    Spec False (fun w : World H => w.root.find (path j.transaction) ≠ none) (restore P j)
      (fun _ _ => True) (fun _ _ => False) fun _ => False := by
  refine Spec.each fun w₀ hfind => ?_
  let K : World H → Prop := fun w => w.bootId = w₀.bootId ∧ w.root = w₀.root
  have hone : ∀ i < j.mutations.length, Spec False K
      (restoreOne P j i (decide (j.bootId = w₀.bootId))) (fun _ => K) (fun _ w => True ∧ K w)
      fun _ => False := fun i hi =>
    restoreOne_spec (List.getElem?_eq_getElem hi) (fun hf => hf.elim)
      (fun _ _ hw _ => ⟨True.intro, hw⟩) (fun _ hw _ => hw) (fun _ _ _ hw _ _ _ => ⟨True.intro, hw⟩)
      (fun _ _ hw _ => hw) (fun _ _ _ hw _ _ => hw) (fun _ _ _ hw _ _ => ⟨True.intro, hw⟩)
      fun _ _ _ _ hw _ _ _ _ => ⟨True.intro, hw⟩
  have hrestoring : Restoring P False j (decide (j.bootId = w₀.bootId)) K (fun _ => False)
      (fun _ _ => False) (fun _ => K) (fun _ => True) (fun _ => True) fun _ => True := by
    refine ⟨fun w hw => by rw [hw.1], fun _ => ⟨hone, fun hf => hf.elim, fun _ => True.intro,
      fun _ _ hw => hw⟩, fun _ _ => True.intro, fun _ => id, fun _ => hone, hone,
      fun hf => hf.elim, fun _ _ => True.intro, fun w hw hnone => ?_⟩
    rw [hw.2] at hnone
    exact hfind hnone
  refine (hrestoring.restore fun hf => hf.elim).mono ?_ (fun _ _ _ => True.intro) (fun _ _ => id)
    fun _ => id
  rintro _ rfl
  exact ⟨rfl, rfl⟩

/-- **Recovery preserves foreign state**, whatever the journal, the state of the system, the
transcripts of the script and the cuts.  A restoration of one mutation changes the system only by
writing its key back with a `License`, and a whole one by such writes and by removing its journal.
The journal is removed only when nothing is left to restore, and where it stays this is reported: an
error instead of warnings means that the boot could not be read or that nothing was left.  The same
holds of every journal of the directory, and no journal is created beside another one. -/
theorem recovery_preserves_foreign_state (P : Platform H) (w₀ : World H) (cuts : List (Cut Error)) :
    (∀ (j : Journal) (i : ℕ) (sameBoot : Bool), i < j.mutations.length →
      Trail P (fun m b => j.mutations[i]? = some m ∧ b = sameBoot) (fun _ => False) w₀
        (restoreOne P j i sameBoot ⟨w₀, cuts⟩).2.world) ∧
    (∀ j, let r := restore P j ⟨w₀, cuts⟩;
      Recovered P (· = j) w₀ r.2.world ∧
      (r.2.world.root.find (path j.transaction) = w₀.root.find (path j.transaction) ∨
        AllSettled P j r.2.world.host) ∧
      (r.1 = .ok [] → r.2.world.root.find (path j.transaction) = none) ∧
      (∀ e, r.1 = .err e → cuts.headD .performed = .performed → AllSettled P j r.2.world.host) ∧
      (cuts = [] → w₀.root.find (path j.transaction) ≠ none → ∃ warnings, r.1 = .ok warnings)) ∧
    (let r := recoverAll P ⟨w₀, cuts⟩;
      Recovered P (Stored w₀.root) w₀ r.2.world ∧
      (r.1 = .ok [] → ∀ t, r.2.world.root.find (path t) = none)) ∧
    ∀ t input, NoSecondJournal t w₀ (lifecycle P t input ⟨w₀, cuts⟩).2.world := by
  refine ⟨fun j i sameBoot hi => ?_, fun j => ?_, ⟨?_, ?_⟩, fun t input => ?_⟩
  · exact (restoreOne_trail hi sameBoot).world (.inl True.intro) .start
  · have hended : Ended P (· = j) j w₀ (restore P j ⟨w₀, cuts⟩).2.world :=
      ((restore_ended (J := (· = j)) rfl).mono (fun _ => id) (fun _ _ hw => hw.1) (fun _ _ => id)
        fun _ => id).world (.inl True.intro) ⟨.start, rfl⟩
    refine ⟨hended.1, hended.2, fun h => ?_, fun e he hboot => restore_reports hboot he, ?_⟩
    · exact ((restore_ended (J := (· = j)) rfl).of_ok (.inl True.intro) ⟨.start, rfl⟩ h).2 rfl
    · rintro rfl hfind
      obtain ⟨warnings, hw, -⟩ := (restore_returns (P := P)).exists_ok (.inr rfl) hfind
      exact ⟨warnings, hw⟩
  · exact (recoverAll_recovered.mono (fun _ => id) (fun _ _ hw => hw.1) (fun _ _ => id)
      fun _ => id).world (.inl True.intro) rfl
  · exact fun h => (recoverAll_recovered.of_ok (.inl True.intro) rfl h).2 rfl
  · exact (lifecycle_noSecondJournal input).world (.inl True.intro) rfl

/-! ### Unix keys -/

namespace Unix

variable {N : Native} {length : Journal → ℕ}

theorem write_eq_ok {h h' : UnixHost N} {key : Key} {value : Option Value}
    (hw : h.write key value = .ok h') :
    ∃ n, nativeKey h.ifIndex key = .ok (n, false) ∧ h' = h.put n value := by
  unfold UnixHost.write at hw
  cases hn : nativeKey h.ifIndex key with
  | error e => rw [hn] at hw; cases hw
  | ok r =>
    obtain ⟨n, missing⟩ := r
    rw [hn] at hw
    cases missing with
    | true => cases hw
    | false =>
      cases hw
      exact ⟨n, rfl, rfl⟩

/-- Mutations of different native keys are separate. -/
theorem separate_of_distinct {ms : List Mutation}
    (hne : ∀ (i k : ℕ) (m m' : Mutation), ms[i]? = some m → ms[k]? = some m' → i ≠ k →
      ∀ ifIndex n n' v v', nativeKey ifIndex m.key = .ok (n, v) →
        nativeKey ifIndex m'.key = .ok (n', v') → n ≠ n') :
    Separate (platform N length) ms := by
  intro i k m m' hm hm' hik _ h h' hw
  obtain ⟨n, hn, rfl⟩ := write_eq_ok hw
  refine ⟨rfl, ?_⟩
  change UnixHost.read _ _ = UnixHost.read _ _
  unfold UnixHost.read
  rw [UnixHost.put_ifIndex]
  cases hn' : nativeKey h.ifIndex m'.key with
  | error e => rfl
  | ok r =>
    obtain ⟨n', missing⟩ := r
    cases missing with
    | true => rfl
    | false =>
      show Except.ok ((h.put n m.before).os n') = Except.ok (h.os n')
      rw [UnixHost.put_os, if_neg (Ne.symm (hne i k m m' hm hm' hik _ n n' _ _ hn hn'))]

/-! ### A key that is named twice -/

/-- The route of the example. -/
def twiceKey : Key := { kind := "linux-route", name := "main|10.0.0.0/8" }

/-- A journal that changes a route and changes it back. -/
def twice : Journal where
  version := 1
  transaction := { serviceInstanceId := 1, attemptId := 2 }
  bootId := "boot"
  config :=
    { interface := { name := "tun0", index := 3 }, mtu := 1400,
      addresses := [{ address := .v4 0x0a4e0002, prefixLen := 24 }], transportPeer := .v4 0xc0000201 }
  mutations :=
    [{ key := twiceKey, before := some (.arr []), intended := some (.arr [.str "tunnel"]),
        applied := some (.arr [.str "tunnel"]) },
      { key := twiceKey, before := some (.arr [.str "tunnel"]), intended := some (.arr []),
        applied := some (.arr []) }]
  pendingOperation := none

/-- A host without the route, and a script that asks for it. -/
def twiceWorld : World (UnixHost (.exact (fun _ _ _ _ => false) 500)) where
  host :=
    { os := fun _ => some (.arr []), genuine := fun _ => trivial, ifIndex := fun _ => 3,
      requests := fun _ => [],
      observation := fun _ => ⟨"tun0", [], [], [], [], ""⟩ }
  bootId := "boot"
  root := [(path twice.transaction, .journal twice 100)]
  transcripts := [⟨[.line "route 10.0.0.0/8"], .success⟩]
  memory := none
  attempts := []
  removals := []

theorem twice_genuine (k : NativeKey) :
    (Native.exact (fun _ _ _ _ => false) 500).Genuine k (twiceWorld.host.os k) :=
  twiceWorld.host.genuine k

theorem recovery_preserves_foreign_state_twice :
    Trail (platform _ fun _ => 100) (fun m b => twice.mutations[1]? = some m ∧ b = true)
      (fun _ => False) twiceWorld
      (restoreOne (platform _ fun _ => 100) twice 1 true ⟨twiceWorld, []⟩).2.world :=
  (recovery_preserves_foreign_state (platform _ fun _ => 100) twiceWorld []).1 twice 1 true
    (by decide)

/-- A journal that names a key twice is removed although one of its mutations is not undone. -/
theorem restore_forgets_twice :
    let r := restore (platform _ fun _ => 100) twice ⟨twiceWorld, []⟩;
    r.1 = .ok [] ∧ r.2.world.root.find (path twice.transaction) = none ∧
      ∃ m ∈ twice.mutations, ¬ Settled (platform _ fun _ => 100) r.2.world.host m := by
  refine ⟨by decide +kernel, by decide +kernel, twice.mutations[1], by decide +kernel, ?_⟩
  have hv : (platform _ fun _ => 100).vanished
      (restore (platform _ fun _ => 100) twice ⟨twiceWorld, []⟩).2.world.host twiceKey =
        .ok false := by decide +kernel
  have hr : (platform _ fun _ => 100).read
      (restore (platform _ fun _ => 100) twice ⟨twiceWorld, []⟩).2.world.host twiceKey =
        .ok (some (.arr [])) := by decide +kernel
  rintro (h | ⟨c, h, hc⟩)
  · cases hv.symm.trans h
  · cases hr.symm.trans h
    revert hc
    decide +kernel

/-! ### A boot that cannot be read -/

/-- A journal of one route. -/
def once : Journal := { twice with mutations := twice.mutations.take 1 }

/-- A host with the route of the journal. -/
def onceWorld : World (UnixHost (.exact (fun _ _ _ _ => false) 500)) where
  host :=
    { os := fun _ => some (.arr [.str "tunnel"]), genuine := fun _ => trivial,
      ifIndex := fun _ => 3, requests := fun _ => [],
      observation := fun _ => ⟨"tun0", [], [], [], [], ""⟩ }
  bootId := "boot"
  root := [(path once.transaction, .journal once 100)]
  transcripts := []
  memory := none
  attempts := []
  removals := []

/-- When the boot cannot be read, the journal stays and its route is not restored, and the answer is
an error instead of a warning. -/
theorem restore_without_warning :
    let r := restore (platform _ fun _ => 100) once ⟨onceWorld, [.refused denied]⟩;
    r.1 = .err denied ∧ r.2.world.root.find (path once.transaction) ≠ none ∧
      ∃ m ∈ once.mutations, ¬ Settled (platform _ fun _ => 100) r.2.world.host m := by
  refine ⟨by decide +kernel, by decide +kernel, twice.mutations[0], by decide +kernel, ?_⟩
  have hv : (platform _ fun _ => 100).vanished
      (restore (platform _ fun _ => 100) once ⟨onceWorld, [.refused denied]⟩).2.world.host
        twiceKey = .ok false := by decide +kernel
  have hr : (platform _ fun _ => 100).read
      (restore (platform _ fun _ => 100) once ⟨onceWorld, [.refused denied]⟩).2.world.host
        twiceKey = .ok (some (.arr [.str "tunnel"])) := by decide +kernel
  rintro (h | ⟨c, h, hc⟩)
  · cases hv.symm.trans h
  · cases hr.symm.trans h
    revert hc
    decide +kernel

end Unix

end Ocvpn.Net
