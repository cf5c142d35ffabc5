import Ocvpn.Journal.Ownership

/-!
# What a repair reports

Two questions about `restore` in `crates/net/src/journal.rs`: when a key that the transaction did not
change is reported as a conflict, and when a repair that could restore every key is still reported
as incomplete.

## Main results

* `unchanged_key_conflict` : the conflict of a key whose intended value is its value before.
* `restore_complete_iff` : a repair that restored every key clears the journal only if the script ran
  to its end.
-/

namespace Ocvpn.Net

open Crash

variable {H : Type} {P : Platform H}

/-! ### Runs of a restoration -/

/-- The restorations of both parts together. -/
theorem restore_eq {j : Journal} {boot : String} {script reverse : List Error}
    {s s₀ s₁ s₂ : State (World H) Error} (hboot : bootId s = (.ok boot, s₀))
    (hscript : restoreScript P j (j.bootId = boot) s₀ = (.ok script, s₁))
    (hreverse : Io.collect (List.range j.mutations.length).reverse
      (restoreOne P j · (j.bootId = boot)) s₁ = (.ok reverse, s₂)) :
    restore P j s = if (script ++ reverse).isEmpty then
      (do removeFile (path j.transaction); syncDirectory; pure (script ++ reverse) : Prog H _) s₂
    else (.ok (script ++ reverse), s₂) := by
  rw [restore, Io.bind_of_ok hboot, Io.bind_of_ok hscript, Io.bind_of_ok hreverse]
  split <;> rfl

theorem collect_of_err {W ε β : Type} {g : β → Io W ε Unit} {b : β} {bs : List β} {e : ε}
    {es : List ε} {s s₁ s₂ : State W ε} (hb : g b s = (.err e, s₁))
    (hbs : Io.collect bs g s₁ = (.ok es, s₂)) :
    Io.collect (b :: bs) g s = (.ok (e :: es), s₂) := by
  have hattempt : Io.attempt (g b) s = (.ok (.error e), s₁) := by rw [Io.attempt, hb]
  rw [Io.collect, Io.bind_of_ok hattempt]
  dsimp only
  rw [Io.bind_of_ok hbs]
  rfl

theorem collect_append {W ε β : Type} {g : β → Io W ε Unit} {bs cs : List β} {es es' : List ε}
    {s s₁ s₂ : State W ε} (hbs : Io.collect bs g s = (.ok es, s₁))
    (hcs : Io.collect cs g s₁ = (.ok es', s₂)) :
    Io.collect (bs ++ cs) g s = (.ok (es ++ es'), s₂) := by
  induction bs generalizing s es with
  | nil =>
    cases hbs
    exact hcs
  | cons b bs ih =>
    rw [Io.collect, Io.bind_eq_ok] at hbs
    obtain ⟨r, s', hr, hbs⟩ := hbs
    rw [List.cons_append, Io.collect, Io.bind_of_ok hr]
    cases r with
    | ok _ => exact ih hbs
    | error e =>
      rw [Io.bind_eq_ok] at hbs
      obtain ⟨es₀, s'', hrest, hpure⟩ := hbs
      cases hpure
      dsimp only
      rw [Io.bind_of_ok (ih hrest)]
      rfl

/-- Restorations that are not cut end, and leave the directory as it is. -/
theorem collect_restoreOne_returns {j : Journal} {sameBoot : Bool} {is : List ℕ}
    (his : ∀ i ∈ is, i < j.mutations.length) (w : World H) :
    ∃ es w', Io.collect is (restoreOne P j · sameBoot) ⟨w, []⟩ = (.ok es, ⟨w', []⟩) ∧
      w'.root = w.root := by
  let K : World H → Prop := fun w' => w'.root = w.root
  have hone : ∀ i ∈ is, Spec False K (restoreOne P j i sameBoot) (fun _ => K)
      (fun _ w => True ∧ K w) fun _ => False := fun i hi =>
    restoreOne_spec (List.getElem?_eq_getElem (his i hi)) (fun hf => hf.elim)
      (fun _ _ hw _ => ⟨True.intro, hw⟩) (fun _ hw _ => hw) (fun _ _ _ hw _ _ _ => ⟨True.intro, hw⟩)
      (fun _ _ hw _ => hw) (fun _ _ _ hw _ _ => hw) (fun _ _ _ hw _ _ => ⟨True.intro, hw⟩)
      fun _ _ _ _ hw _ _ _ _ => ⟨True.intro, hw⟩
  have hrun := Spec.collect (I := fun _ => K) (E := fun _ _ => False) (fun _ i hi => hone i hi) hone []
    w [] (.inr rfl) rfl
  generalize Io.collect is (restoreOne P j · sameBoot) ⟨w, []⟩ = r at hrun ⊢
  obtain ⟨es | e | _, w', cuts⟩ := r
  · obtain ⟨hcuts, hw⟩ := hrun
    obtain rfl : cuts = [] := hcuts.resolve_left id
    exact ⟨es, w', rfl, hw.elim (·.2) (·.2.2)⟩
  · exact hrun.2.elim
  · exact hrun.2.elim

/-! ### Keys that were not changed -/

/-- A value found at a key that `restore_one` leaves alone as a concurrent change. -/
structure Foreign (P : Platform H) (j : Journal) (index : ℕ) (m : Mutation) (sameBoot : Bool)
    (current : Option Value) : Prop where
  changed : P.equivalent m.key current m.before = false
  observed : j.pendingOperation ≠ some index
  present : current = none → m.intended = none ∧ sameBoot = true
  boot : sameBoot = true ∨ persistentOwned m = true
  foreign : P.equivalent m.key current m.owned = false

theorem restoreOne_foreign_iff {j : Journal} {index : ℕ} {sameBoot : Bool} {w : World H}
    {m : Mutation} {v : Bool} {current : Option Value}
    (hm : j.mutations[index]? = some m) (hsame : m.intended = m.before)
    (hv : P.vanished w.host m.key = .ok v) (hc : P.read w.host m.key = .ok current) :
    restoreOne P j index sameBoot ⟨w, []⟩ = (.err concurrentChange, ⟨w, []⟩) ↔
      v = false ∧ Foreign P j index m sameBoot current := by
  have hquery : ∀ {α : Type} {g : World H → Except Error α} {a : α}, g w = .ok a →
      (Io.query g : Prog H α) ⟨w, []⟩ = (.ok a, ⟨w, []⟩) := fun ha =>
    Io.query_eq_ok.2 ⟨rfl, ha, rfl⟩
  have hne : ∀ {e : Error}, e ≠ concurrentChange →
      (Io.fail e : Prog H Unit) ⟨w, []⟩ ≠ (.err concurrentChange, ⟨w, []⟩) := by
    intro e he h
    cases h
    exact he rfl
  have hpure : (pure () : Prog H Unit) ⟨w, []⟩ ≠ (.err concurrentChange, ⟨w, []⟩) := nofun
  rw [restoreOne, hm]
  dsimp only
  rw [Io.bind_of_ok (hquery hv)]
  cases v with
  | true => exact iff_of_false hpure (by simp)
  | false =>
    have hread : readKey P m.key ⟨w, []⟩ = (.ok current, ⟨w, []⟩) := hquery hc
    rw [if_neg Bool.false_ne_true, Io.bind_of_ok hread, hsame]
    -- the branches of the source, in their order
    split_ifs with hbefore hpending hgone hold hboot howned
    · exact iff_of_false hpure fun h => by simp [h.2.changed] at hbefore
    · exact iff_of_false (hne (by decide)) fun h => h.2.observed hpending.1
    · refine iff_of_false hpure fun h => ?_
      have hnone := (h.2.present (Option.isNone_iff_eq_none.1 hgone.1)).1
      simp [← hsame, hnone] at hgone
    · refine iff_of_false hpure fun h => ?_
      simpa [(h.2.present (Option.isNone_iff_eq_none.1 hold.2)).2] using hold.1
    · refine iff_of_false (hne (by decide)) fun h => ?_
      obtain hboot' | howned := h.2.boot
      · simp [hboot'] at hboot
      · simp [howned] at hboot
    · exact iff_of_true rfl ⟨rfl, by simpa using hbefore, fun h => hpending ⟨h, by simpa using hbefore⟩,
        fun h => ⟨by_contra fun hsome => hgone ⟨by simp [h], Option.isSome_iff_ne_none.2 (hsame ▸ hsome)⟩,
          by_contra fun hdiff => hold ⟨by simpa using hdiff, by simp [h]⟩⟩,
        by_contra fun h => hboot (by simpa using h), by simpa using howned⟩
    · -- the write is noted, so the world is another one
      refine iff_of_false (fun h => ?_) fun h => howned (by simp [h.2.foreign])
      let I : World H → Prop := fun w' => w'.attempts = ⟨m.key, m.before, w.host⟩ :: w.attempts
      have hwrite : Spec False (· = w) (writeHost m.key m.before (P.restore m.key m.before current))
          (fun _ => I) (fun _ => I) I :=
        writeHost_spec (J := I) (by rintro _ rfl; rfl) (fun _ _ hw _ => hw) (fun _ _ hw _ => hw)
          fun hf => hf.elim
      have hrest : Keeps False I (do
          let restored ← readKey P m.key
          if P.equivalent m.key restored m.before then pure () else Io.fail error) := by
        refine Keeps.bind Keeps.query fun r => ?_
        split
        · exact Keeps.pure
        · exact Keeps.fail
      have hgrows := (hwrite.bind fun _ => hrest).world (.inr rfl) rfl
      rw [h] at hgrows
      exact List.cons_ne_self _ _ hgrows.symm

/-- **Keys that were not changed**: a value is reported as a conflict, with nothing written, exactly
if it is `Foreign`.  A conflict met on the way back is among the warnings, and the directory stays
as it is. -/
theorem unchanged_key_conflict (P : Platform H) (j : Journal) (index : ℕ) (w : World H)
    {m : Mutation} {v : Bool} {current : Option Value}
    (hm : j.mutations[index]? = some m) (hsame : m.intended = m.before)
    (hv : P.vanished w.host m.key = .ok v) (hc : P.read w.host m.key = .ok current) :
    (∀ sameBoot, restoreOne P j index sameBoot ⟨w, []⟩ = (.err concurrentChange, ⟨w, []⟩) ↔
      v = false ∧ Foreign P j index m sameBoot current) ∧
    ∀ (w₀ : World H) (s₁ : State (World H) Error) (later earlier : List ℕ) (script es : List Error),
      v = false → Foreign P j index m (j.bootId = w₀.bootId) current →
      (List.range j.mutations.length).reverse = later ++ index :: earlier →
      restoreScript P j (j.bootId = w₀.bootId) ⟨w₀, []⟩ = (.ok script, s₁) →
      Io.collect later (restoreOne P j · (j.bootId = w₀.bootId)) s₁ = (.ok es, ⟨w, []⟩) →
      ∃ warnings w', restore P j ⟨w₀, []⟩ = (.ok warnings, ⟨w', []⟩) ∧
        concurrentChange ∈ warnings ∧ w'.root = w.root := by
  refine ⟨fun sameBoot => restoreOne_foreign_iff hm hsame hv hc, ?_⟩
  intro w₀ s₁ later earlier script es hpresent hforeign hsplit hscript hlater
  have hconflict := (restoreOne_foreign_iff hm hsame hv hc).2 ⟨hpresent, hforeign⟩
  have hearlier : ∀ i ∈ earlier, i < j.mutations.length := by
    intro i hi
    have hmem : i ∈ (List.range j.mutations.length).reverse := by
      rw [hsplit]
      exact List.mem_append_right _ (List.mem_cons_of_mem _ hi)
    simpa using hmem
  obtain ⟨es', w', hrest, hroot⟩ := collect_restoreOne_returns (P := P) hearlier w
  have hreverse := collect_append hlater (collect_of_err hconflict hrest)
  rw [← hsplit] at hreverse
  have hboot : bootId (⟨w₀, []⟩ : State (World H) Error) = (.ok w₀.bootId, ⟨w₀, []⟩) := rfl
  have hmem : concurrentChange ∈ script ++ (es ++ concurrentChange :: es') := by simp
  refine ⟨_, w', ?_, hmem, hroot⟩
  rw [restore_eq hboot hscript hreverse, if_neg]
  rw [List.isEmpty_iff]
  exact List.ne_nil_of_mem hmem

/-! ### Repairs and their script -/

/-- What the parent of the script does for a request. -/
inductive Step where
  | restore (index : ℕ)
  | acknowledge
  deriving DecidableEq

/-- The steps that requests ask for and the mutations they visit; none if a request is refused. -/
def steps (groups : List String) (loopback : Bool) (visited : List ℕ) :
    List Request → Option (List Step × List ℕ)
  | [] => some ([], visited)
  | .malformed :: _ | .late :: _ => none
  | .line text :: requests =>
    let key := stripDash text
    let indices := (covered groups key).reverse
    if key = "gateway" ∧ indices = [] ∧ loopback then
      (steps groups loopback visited requests).map fun (rest, all) => (.acknowledge :: rest, all)
    else if indices = [] then none
    else if ∃ i ∈ indices, i ∈ visited then none
    else (steps groups loopback (indices.reverse ++ visited) requests).map fun (rest, all) =>
      (indices.map .restore ++ .acknowledge :: rest, all)

/-- Perform a step. -/
def Step.perform (operation : ℕ → Prog H Unit) : Step → Prog H Unit
  | restore index => operation index
  | acknowledge => Net.acknowledge

theorem visit_eq_ok {operation : ℕ → Prog H Unit} {is visited all : List ℕ}
    {s s' : State (World H) Error} (hnodup : is.Nodup) :
    visit operation visited is s = (.ok all, s') ↔
      (∀ i ∈ is, i ∉ visited) ∧ all = is.reverse ++ visited ∧
        Io.forEach is operation s = (.ok (), s') := by
  induction is generalizing visited s with
  | nil =>
    show ((Outcome.ok visited, s) : Outcome Error (List ℕ) × _) = _ ↔ _ ∧ _ ∧
      ((Outcome.ok (), s) : Outcome Error Unit × _) = _
    simp [eq_comm]
  | cons i is ih =>
    rw [List.nodup_cons] at hnodup
    rw [visit]
    split_ifs with hi
    · refine iff_of_false (by nofun) fun h => ?_
      exact h.1 i List.mem_cons_self hi
    · have hskip : (∀ i' ∈ is, i' ∉ i :: visited) ↔ ∀ i' ∈ i :: is, i' ∉ visited := by
        simp only [List.mem_cons, not_or, forall_eq_or_imp]
        refine ⟨fun h => ⟨hi, fun i' hi' => (h i' hi').2⟩, fun h i' hi' => ⟨?_, h.2 i' hi'⟩⟩
        rintro rfl
        exact hnodup.1 hi'
      simp only [Io.bind_eq_ok, ih hnodup.2, Io.forEach, hskip, List.reverse_cons,
        List.append_assoc, List.singleton_append]
      constructor
      · rintro ⟨a, s₁, hop, hnew, hall, hrest⟩
        exact ⟨hnew, hall, a, s₁, hop, hrest⟩
      · rintro ⟨hnew, hall, a, s₁, hop, hrest⟩
        exact ⟨a, s₁, hop, hnew, hall, hrest⟩

theorem forEach_restore {operation : ℕ → Prog H Unit} (is : List ℕ) :
    Io.forEach (is.map Step.restore) (Step.perform operation) = Io.forEach is operation := by
  induction is with
  | nil => rfl
  | cons i is ih => rw [List.map_cons, Io.forEach, Io.forEach, ih, Step.perform]

theorem forEach_acknowledge {operation : ℕ → Prog H Unit} {is : List ℕ} {st : List Step}
    {s s' : State (World H) Error} :
    Io.forEach (is.map Step.restore ++ .acknowledge :: st) (Step.perform operation) s =
        (.ok (), s') ↔
      ∃ s₁ s₂, Io.forEach is operation s = (.ok (), s₁) ∧ acknowledge s₁ = (.ok (), s₂) ∧
        Io.forEach st (Step.perform operation) s₂ = (.ok (), s') := by
  rw [Io.forEach_append_eq_ok, forEach_restore]
  simp only [Io.forEach, Io.bind_eq_ok, Step.perform]
  constructor
  · rintro ⟨s₁, his, ⟨⟩, s₂, hack, hst⟩
    exact ⟨s₁, s₂, his, hack, hst⟩
  · rintro ⟨s₁, s₂, his, hack, hst⟩
    exact ⟨s₁, his, (), s₂, hack, hst⟩

/-- **The loop over the requests** of a disconnect goes through when the requests are accepted and
their steps go through. -/
theorem serve_eq_ok {groups : List String} {loopback : Bool} {operation : ℕ → Prog H Unit}
    {visited all : List ℕ} {requests : List Request} {s s' : State (World H) Error} :
    serve groups loopback .disconnect operation visited requests s = (.ok all, s') ↔
      ∃ st, steps groups loopback visited requests = some (st, all) ∧
        Io.forEach st (Step.perform operation) s = (.ok (), s') := by
  have hnodup : ∀ text, (covered groups (stripDash text)).reverse.Nodup := fun text =>
    List.nodup_reverse.2 (List.nodup_range.filter _)
  induction requests generalizing visited s with
  | nil =>
    show ((Outcome.ok visited, s) : Outcome Error (List ℕ) × _) = _ ↔ ∃ st,
      some (([], visited) : List Step × List ℕ) = _ ∧ _
    constructor
    · intro h
      cases h
      exact ⟨[], rfl, rfl⟩
    · rintro ⟨st, h, hrun⟩
      cases h
      cases hrun
      rfl
  | cons request requests ih => cases request with
    | malformed => exact iff_of_false nofun fun ⟨st, h, _⟩ => by cases h
    | late => exact iff_of_false nofun fun ⟨st, h, _⟩ => by cases h
    | line text =>
      rw [serve, steps]
      simp only [List.reverse_eq_nil_iff, ↓reduceIte, List.mem_reverse]
      split_ifs with hgateway hnone hvisited
      -- the gateway of a loopback peer: acknowledged, nothing is visited
      · simp only [Io.bind_eq_ok, ih, Option.map_eq_some_iff, Prod.exists, Prod.mk.injEq]
        constructor
        · rintro ⟨⟨⟩, s₁, hack, st, hst, hrun⟩
          have hnil : Io.forEach [] operation s = (.ok (), s) := rfl
          exact ⟨_, ⟨st, all, hst, rfl, rfl⟩, forEach_acknowledge.2 ⟨s, s₁, hnil, hack, hrun⟩⟩
        · rintro ⟨_, ⟨st, all, hst, rfl, rfl⟩, hrun⟩
          obtain ⟨s₁, s₂, hnil, hack, hrun⟩ := forEach_acknowledge.1 (show Io.forEach
            (([] : List ℕ).map Step.restore ++ .acknowledge :: st) (Step.perform operation) s =
              (.ok (), s') from hrun)
          cases hnil
          exact ⟨(), s₂, hack, st, hst, hrun⟩
      · exact iff_of_false nofun fun ⟨st, h, _⟩ => by cases h
      · refine iff_of_false (fun h => ?_) fun ⟨st, h, _⟩ => by cases h
        -- a group that was served before is not served again
        obtain ⟨all', s₁, hvisit, -⟩ := Io.bind_eq_ok.1 h
        obtain ⟨i, hi, hmem⟩ := hvisited
        exact ((visit_eq_ok (hnodup text)).1 hvisit).1 i (List.mem_reverse.2 hi) hmem
      · simp only [Io.bind_eq_ok, visit_eq_ok (hnodup text), ih, Option.map_eq_some_iff,
          Prod.exists, Prod.mk.injEq]
        constructor
        · rintro ⟨_, s₁, ⟨-, rfl, his⟩, ⟨⟩, s₂, hack, st, hst, hrun⟩
          exact ⟨_, ⟨st, all, hst, rfl, rfl⟩, forEach_acknowledge.2 ⟨s₁, s₂, his, hack, hrun⟩⟩
        · rintro ⟨_, ⟨st, all, hst, rfl, rfl⟩, hrun⟩
          obtain ⟨s₁, s₂, his, hack, hrun⟩ := forEach_acknowledge.1 hrun
          refine ⟨_, s₁, ⟨fun i hi hmem => ?_, rfl, his⟩, (), s₂, hack, st, hst, hrun⟩
          exact hvisited ⟨i, List.mem_reverse.1 hi, hmem⟩

/-- The run of the script is complete: the configuration and the inventory are accepted, the script
is trusted and starts, it asks once for every planned operation and for nothing else, everything it
asks for is done, and it ends with success. -/
structure Completes (P : Platform H) (j : Journal) (s : State (World H) Error) : Prop where
  config : j.config.validate = .ok ()
  inventory : ∃ rs env, roles j.config j.mutations = .ok rs ∧
    environment j.config .disconnect rs = .ok env
  trusted : s.cuts.headD .performed = .performed
  started : s.cuts.tail.headD .performed = .performed
  exit : (s.world.transcripts.headD ⟨[], .failure⟩).exit = .success
  served : ∀ rs, roles j.config j.mutations = .ok rs →
    ∃ st visited s', steps (rs.map Role.group) j.config.transportPeer.isLoopback []
        (s.world.transcripts.headD ⟨[], .failure⟩).requests = some (st, visited) ∧
      (∀ i < j.mutations.length, i ∈ visited) ∧
      Io.forEach st (Step.perform (restoreOne P j · true))
        ⟨{ s.world with transcripts := s.world.transcripts.tail }, s.cuts.tail.tail⟩ = (.ok (), s')

theorem applyScript_eq_ok {ops : UnixOps H} {j : Journal} {s : State (World H) Error} :
    (∃ s', applyScript ops j.config .disconnect j.mutations (restoreOne P j · true) s =
      (.ok (), s')) ↔ Completes P j s := by
  have hnext : ∀ (s₁ s₂ : State (World H) Error) t, nextTranscript s₁ = (.ok t, s₂) ↔
      t = s₁.world.transcripts.headD ⟨[], .failure⟩ ∧
        s₂ = ⟨{ s₁.world with transcripts := s₁.world.transcripts.tail }, s₁.cuts⟩ := by
    intro s₁ s₂ t
    show ((Outcome.ok (s₁.world.transcripts.headD ⟨[], .failure⟩), _) :
      Outcome Error Transcript × _) = _ ↔ _
    simp [eq_comm]
  simp only [applyScript, ne_eq, not_true_eq_false, ↓reduceIte, execute, Io.bind_eq_ok,
    ofRun_eq_ok, Io.ofExcept_eq_ok, Io.query_eq_ok, hnext, serve_eq_ok]
  constructor
  · rintro ⟨s', ⟨⟩, _, ⟨hconfig, rfl⟩, rs, s, ⟨hrs, rfl⟩, ⟨⟩, _, ⟨htrusted, -, rfl⟩, env, _,
      ⟨henv, rfl⟩, ⟨⟩, _, ⟨hstarted, -, rfl⟩, t, _, ⟨rfl, rfl⟩, visited, s'', ⟨st, hst, hrun⟩,
      hend⟩
    dsimp only at hst hrun hend
    cases hexit : (s.world.transcripts.headD ⟨[], .failure⟩).exit with
    | failure =>
      rw [hexit] at hend
      cases hend
    | late =>
      rw [hexit] at hend
      cases hend
    | success =>
      rw [hexit] at hend
      dsimp only at hend
      split_ifs at hend with hall
      · refine ⟨hconfig, ⟨rs, env, hrs, henv⟩, htrusted, hstarted, hexit, fun rs' hrs' => ?_⟩
        cases hrs.symm.trans hrs'
        exact ⟨st, visited, s'', hst, by simpa using hall, hrun⟩
      · cases hend
  · intro h
    obtain ⟨rs, env, hrs, henv⟩ := h.inventory
    obtain ⟨st, visited, s', hst, hall, hrun⟩ := h.served rs hrs
    refine ⟨s', (), s, ⟨h.config, rfl⟩, rs, s, ⟨hrs, rfl⟩, (), _, ⟨h.trusted, True.intro, rfl⟩, env, _,
      ⟨henv, rfl⟩, (), _, ⟨h.started, True.intro, rfl⟩, _, _, ⟨rfl, rfl⟩, visited, s', ⟨st, hst, hrun⟩, ?_⟩
    have hvisited : (List.range j.mutations.length).all (· ∈ visited) = true := by simpa using hall
    rw [h.exit]
    dsimp only
    rw [if_pos hvisited]
    rfl

/-- **Repairs and their script.**  A repair in the boot of its journal, whose reverse pass restored
every key and which may remove the journal: it reports nothing and removes the journal exactly if
the run of the script is complete. -/
theorem restore_complete_iff {ops : UnixOps H} {j : Journal} {script : List Error}
    {s s₀ s₁ s₂ s₃ s₄ : State (World H) Error} (hP : P.adapter = .unix ops)
    (hboot : bootId s = (.ok j.bootId, s₀)) (hscript : restoreScript P j true s₀ = (.ok script, s₁))
    (hreverse : Io.collect (List.range j.mutations.length).reverse (restoreOne P j · true) s₁ =
      (.ok [], s₂))
    (hremove : removeFile (path j.transaction) s₂ = (.ok (), s₃))
    (hsync : syncDirectory s₃ = (.ok (), s₄)) :
    ((restore P j s).1 = .ok [] ∧ (restore P j s).2.world.root.find (path j.transaction) = none) ↔
      Completes P j s₀ := by
  have hsame : decide (j.bootId = j.bootId) = true := by simp
  rw [← @applyScript_eq_ok _ P ops]
  rw [← hsame] at hscript hreverse
  have hrestore := restore_eq hboot hscript hreverse
  rw [hsame, restoreScript, hP] at hscript
  simp only [↓reduceIte, Io.bind_eq_ok] at hscript
  obtain ⟨r, s', hattempt, hscript⟩ := hscript
  rw [Io.attempt] at hattempt
  split at hattempt
  · rename_i happly
    cases hattempt
    cases hscript
    have hresult : (restore P j s).1 = .ok [] := by
      rw [hrestore, if_pos (by rfl), Io.bind_of_ok hremove, Io.bind_of_ok hsync]
      rfl
    obtain ⟨w, cuts⟩ := s
    refine iff_of_true ⟨hresult, ?_⟩ ⟨_, happly⟩
    exact ((restore_recovered (J := (· = j)) rfl).of_ok (.inl True.intro) (.refl _) hresult).2 rfl
  · rename_i e s'' happly
    cases hattempt
    cases hscript
    refine iff_of_false (fun h => ?_) ?_
    · rw [hrestore, if_neg (by simp)] at h
      cases h.1
    · rintro ⟨s', h⟩
      cases happly.symm.trans h
  · cases hattempt

namespace Unix

/-- A journal for one route, which was there before and stayed. -/
def kept : Journal :=
  { twice with mutations :=
    [{ key := twiceKey, before := some (.arr [.str "lan"]), intended := some (.arr [.str "lan"]),
        applied := some (.arr [.str "lan"]) }] }

/-- Another program changed the route since. -/
def keptWorld : World (UnixHost (.exact (fun _ _ _ _ => false) 500)) :=
  { twiceWorld with
    host := { twiceWorld.host with os := fun _ => some (.arr [.str "other"]) }
    root := [(path kept.transaction, .journal kept 100)] }

theorem unchanged_key_conflict_kept :
    restoreOne (platform _ fun _ => 100) kept 0 true ⟨keptWorld, []⟩ =
      (.err concurrentChange, ⟨keptWorld, []⟩) := by
  have hv : (platform _ fun _ => 100).vanished keptWorld.host twiceKey = .ok false := by
    decide +kernel
  have hc : (platform _ fun _ => 100).read keptWorld.host twiceKey =
      .ok (some (.arr [.str "other"])) := by decide +kernel
  refine ((unchanged_key_conflict (platform _ fun _ => 100) kept 0 keptWorld rfl rfl hv hc).1
    true).2 ⟨rfl, ?_⟩
  exact ⟨by decide +kernel, nofun, nofun, .inl rfl, by decide +kernel⟩

/-- The route that was kept holds the repair up. -/
theorem restore_reports_kept :
    (∀ m ∈ kept.mutations, m.intended = m.before) ∧
      (restoreOne (platform _ fun _ => 100) kept 0 true ⟨keptWorld, []⟩).1 =
        .err concurrentChange ∧
      let r := restore (platform _ fun _ => 100) kept ⟨keptWorld, []⟩;
      r.1 = .ok [concurrentChange, concurrentChange] ∧
        r.2.world.root.find (path kept.transaction) ≠ none := by
  refine ⟨by decide +kernel, by decide +kernel, by decide +kernel, by decide +kernel⟩

/-- A journal for one route through the tunnel. -/
def tunnelRoute : Journal := { twice with mutations := twice.mutations.take 1 }

/-- The route is still there; the script ends as given. -/
def tunnelWorld (t : Transcript) : World (UnixHost (.exact (fun _ _ _ _ => false) 500)) :=
  { twiceWorld with
    host := { twiceWorld.host with os := fun _ => some (.arr [.str "tunnel"]) }
    root := [(path tunnelRoute.transaction, .journal tunnelRoute 100)]
    transcripts := [t] }

/-- With a script that does its work. -/
theorem restore_complete_tunnelRoute : Completes (platform _ fun _ => 100) tunnelRoute
    ⟨tunnelWorld ⟨[.line "route 10.0.0.0/8"], .success⟩, []⟩ := by
  let P := platform (.exact (fun _ _ _ _ => false) 500) fun _ => 100
  let s : State (World (UnixHost (.exact (fun _ _ _ _ => false) 500))) Error :=
    ⟨tunnelWorld ⟨[.line "route 10.0.0.0/8"], .success⟩, []⟩
  let s₁ := (restoreScript P tunnelRoute true s).2
  let s₂ := (Io.collect [0] (restoreOne P tunnelRoute · true) s₁).2
  let s₃ := (removeFile (path tunnelRoute.transaction) s₂).2
  have hboot : bootId s = (.ok tunnelRoute.bootId, s) := rfl
  have hscript : restoreScript P tunnelRoute true s = (.ok [], s₁) :=
    Prod.ext (by decide +kernel) rfl
  have hreverse : Io.collect [0] (restoreOne P tunnelRoute · true) s₁ = (.ok [], s₂) :=
    Prod.ext (by decide +kernel) rfl
  have hremove : removeFile (path tunnelRoute.transaction) s₂ = (.ok (), s₃) :=
    Prod.ext (by decide +kernel) rfl
  have hsync : syncDirectory s₃ = (.ok (), (syncDirectory s₃).2) := Prod.ext (by decide +kernel) rfl
  exact (restore_complete_iff rfl hboot hscript hreverse hremove hsync).1
    ⟨by decide +kernel, by decide +kernel⟩

/-- With a script that fails at once: every key is restored, and the repair is incomplete. -/
theorem restore_reports_script :
    let P := platform (.exact (fun _ _ _ _ => false) 500) fun _ => 100;
    let s : State (World (UnixHost (.exact (fun _ _ _ _ => false) 500))) Error :=
      ⟨tunnelWorld ⟨[], .failure⟩, []⟩;
    let script := restoreScript P tunnelRoute true s;
    s.world.bootId = tunnelRoute.bootId ∧
      script.1 = .ok [failure "vpnc lifecycle failed"] ∧
      (Io.collect [0] (restoreOne P tunnelRoute · true) script.2).1 = .ok [] ∧
      (restore P tunnelRoute s).1 = .ok [failure "vpnc lifecycle failed"] ∧
      (restore P tunnelRoute s).2.world.root.find (path tunnelRoute.transaction) ≠ none := by
  decide +kernel

end Unix

end Ocvpn.Net
