import Ocvpn.Journal.Lifecycle

/-!
# What the programs of the journal do

One rule for each program of `Ocvpn.Journal.Basic`, `Ocvpn.Journal.Execute` and
`Ocvpn.Journal.Lifecycle`, over the triples of `Ocvpn.Crash.Basic`.  `restoreOne_spec` is stated for
the case where the caller decides what each way to end must establish; the claims about recovery
choose differently.

## Main results

* `restoreOne_spec` : a restoration writes only with a `License` and succeeds only when the key is
  `Quiet`.
* `applyScript_spec` : executing the script keeps whatever its operations keep.
* `load_spec`, `save_spec` : the journal on disk.
-/

namespace Ocvpn.Net

open Crash

variable {H : Type} {P : Platform H} {f : Prop}

/-! ### Operations of the world -/

theorem writeHost_spec {I J C : World H → Prop} {Q : Unit → World H → Prop}
    {E : Error → World H → Prop} {key : Key} {value : Option Value} {write : H → Except Error H}
    (hnote : ∀ w, I w → J { w with attempts := ⟨key, value, w.host⟩ :: w.attempts })
    (hwrite : ∀ w h, J w → write w.host = .ok h → Q () { w with host := h })
    (hfailed : ∀ w e, J w → write w.host = .error e → E e w)
    (hfault : f → ∀ w, J w → (∀ e, E e w) ∧ C w ∧
      ∀ h, write w.host = .ok h → (∀ e, E e { w with host := h }) ∧ C { w with host := h }) :
    Spec f I (writeHost key value write) Q E C := by
  refine Spec.bind (Spec.modify (Q := fun _ => J) hnote) fun _ => ?_
  refine Spec.act (fun w w' hw hr => ?_) (fun w e hw hr => ?_) fun hf w hw =>
    ⟨(hfault hf w hw).1, (hfault hf w hw).2.1, fun w' hr => ?_⟩
  all_goals cases hres : write w.host <;> rw [hres] at hr <;> cases hr
  · exact hwrite w _ hw hres
  · exact hfailed w _ hw hres
  · exact (hfault hf w hw).2.2 _ hres

/-! ### One restoration -/

/-- Why `restore_one` has nothing to do at a key. -/
inductive Quiet (P : Platform H) (h : H) (m : Mutation) (sameBoot : Bool) : Prop
  | vanished : P.vanished h m.key = .ok true → Quiet P h m sameBoot
  | before (c : Option Value) : P.read h m.key = .ok c → P.equivalent m.key c m.before = true →
      Quiet P h m sameBoot
  | absent : P.read h m.key = .ok none → m.intended.isSome = true ∨ sameBoot = false →
      Quiet P h m sameBoot

/-- What has to hold for a write of `restore_one`. -/
structure License (P : Platform H) (h : H) (m : Mutation) (sameBoot : Bool) (c : Option Value) :
    Prop where
  present : P.vanished h m.key = .ok false
  current : P.read h m.key = .ok c
  owned : P.equivalent m.key c m.owned = true
  boot : sameBoot = true ∨ persistentOwned m = true

/-- Why `restore_one` leaves a key with the value `c` alone. -/
inductive Refusal (P : Platform H) (j : Journal) (index : ℕ) (m : Mutation) (sameBoot : Bool)
    (c : Option Value) : Error → Prop
  | unobserved : j.pendingOperation = some index → P.equivalent m.key c m.intended = false →
      Refusal P j index m sameBoot c unobserved
  | previousBoot : sameBoot = false → persistentOwned m = false → c ≠ none →
      Refusal P j index m sameBoot c previousBoot
  | concurrentChange : P.equivalent m.key c m.owned = false →
      Refusal P j index m sameBoot c concurrentChange

/-- The world after the attempt to write the value before was noted. -/
def World.tried (w : World H) (m : Mutation) : World H :=
  { w with attempts := ⟨m.key, m.before, w.host⟩ :: w.attempts }

/-- **One restoration.**  `I` holds before it.  `hread` is about a failing look at the key, `hquiet`
about a key that needs nothing, `hrefused` about one that is left alone, and the rest about the
write and what is read after it. -/
theorem restoreOne_spec {I C : World H → Prop} {Q : World H → Prop} {E : Error → World H → Prop}
    {j : Journal} {index : ℕ} {sameBoot : Bool} {m : Mutation}
    (hm : j.mutations[index]? = some m)
    (hfault : f → ∀ w, I w → (∀ e, E e w) ∧ C w)
    (hread : ∀ w e, I w → (P.vanished w.host m.key = .error e ∨ P.read w.host m.key = .error e) →
      E e w)
    (hquiet : ∀ w, I w → Quiet P w.host m sameBoot → Q w)
    (hrefused : ∀ w c e, I w → P.read w.host m.key = .ok c →
      P.equivalent m.key c m.before = false → Refusal P j index m sameBoot c e → E e w)
    (hnote : ∀ w c, I w → License P w.host m sameBoot c → I (w.tried m))
    (hwrite : ∀ w c h, I w → License P w.host m sameBoot c →
      P.restore m.key m.before c w.host = .ok h → I { w.tried m with host := h })
    (hfailed : ∀ w c e, I w → License P w.host m sameBoot c →
      P.restore m.key m.before c w.host = .error e → E e w)
    (hcheck : ∀ w c h r, I w → License P w.host m sameBoot c →
      P.restore m.key m.before c w.host = .ok h → P.read h m.key = .ok r →
      P.equivalent m.key r m.before = false → E error { w.tried m with host := h }) :
    Spec f I (restoreOne P j index sameBoot) (fun _ => Q) E C := by
  unfold restoreOne
  rw [hm]
  refine Spec.bind (R := fun v w => I w ∧ P.vanished w.host m.key = .ok v)
    (Spec.query (fun w v hw hv => ⟨hw, hv⟩) (fun w e hw hv => hread w e hw (.inl hv)) hfault)
    fun v => ?_
  cases v with
  | true => exact Spec.pure fun w hw => hquiet w hw.1 (.vanished hw.2)
  | false =>
    refine Spec.bind
      (R := fun c w => I w ∧ P.vanished w.host m.key = .ok false ∧ P.read w.host m.key = .ok c)
      (Spec.query (fun w c hw hc => ⟨hw.1, hw.2, hc⟩) (fun w e hw hc => hread w e hw.1 (.inr hc))
        fun hf w hw => hfault hf w hw.1) fun c => ?_
    -- the branches of the source, in their order
    by_cases hbefore : P.equivalent m.key c m.before = true
    · rw [if_pos hbefore]
      exact Spec.pure fun w hw => hquiet w hw.1 (.before c hw.2.2 hbefore)
    rw [if_neg hbefore]
    have hne : P.equivalent m.key c m.before = false := by simpa using hbefore
    have hrefuse : ∀ {e}, Refusal P j index m sameBoot c e →
        Spec f (fun w => I w ∧ P.vanished w.host m.key = .ok false ∧ P.read w.host m.key = .ok c)
          (Io.fail e) (fun _ : Unit => Q) E C := fun hr =>
      Spec.fail fun w hw => hrefused w c _ hw.1 hw.2.2 hne hr
    have habsent : c.isNone = true → m.intended.isSome = true ∨ sameBoot = false →
        Spec f (fun w => I w ∧ P.vanished w.host m.key = .ok false ∧ P.read w.host m.key = .ok c)
          (pure ()) (fun _ : Unit => Q) E C := fun hc hi =>
      Spec.pure fun w hw => hquiet w hw.1 (.absent (Option.isNone_iff_eq_none.1 hc ▸ hw.2.2) hi)
    split
    · next hpending => exact hrefuse (.unobserved hpending.1 (by simpa using hpending.2))
    split
    · next hgone => exact habsent hgone.1 (.inl hgone.2)
    split
    · next hgone => exact habsent hgone.2 (.inr (by simpa using hgone.1))
    next hpresent =>
    split
    · next hboot =>
      exact hrefuse (.previousBoot (by simpa using hboot.1) (by simpa using hboot.2)
        fun hc => hpresent ⟨hboot.1, by simp [hc]⟩)
    next hboot =>
    split
    · next howned => exact hrefuse (.concurrentChange (by simpa using howned))
    next howned =>
    have hlicense : ∀ w, (I w ∧ P.vanished w.host m.key = .ok false ∧
        P.read w.host m.key = .ok c) → License P w.host m sameBoot c := fun w hw =>
      ⟨hw.2.1, hw.2.2, by simpa using howned, by
        by_cases hsame : sameBoot = true
        · exact .inl hsame
        · exact .inr (by_contra fun hp => hboot ⟨by simpa using hsame, by simpa using hp⟩)⟩
    refine Spec.bind (R := fun _ w => ∃ w₀ h, I w₀ ∧ License P w₀.host m sameBoot c ∧
        P.restore m.key m.before c w₀.host = .ok h ∧ w = { w₀.tried m with host := h })
      (writeHost_spec
        (J := fun w => ∃ w₀, I w₀ ∧ License P w₀.host m sameBoot c ∧ w = w₀.tried m)
        (fun w hw => ⟨w, hw.1, hlicense w hw, rfl⟩) ?_ ?_ ?_) fun _ => ?_
    · rintro _ h ⟨w₀, hw, hl, rfl⟩ hres
      exact ⟨w₀, h, hw, hl, hres, rfl⟩
    · rintro _ e ⟨w₀, hw, hl, rfl⟩ hres
      exact hfailed _ c e (hnote w₀ c hw hl) hl hres
    · rintro hf _ ⟨w₀, hw, hl, rfl⟩
      exact ⟨(hfault hf _ (hnote w₀ c hw hl)).1, (hfault hf _ (hnote w₀ c hw hl)).2,
        fun h hres => hfault hf _ (hwrite w₀ c h hw hl hres)⟩
    refine Spec.bind (R := fun r w => ∃ w₀ h, I w₀ ∧ License P w₀.host m sameBoot c ∧
        P.restore m.key m.before c w₀.host = .ok h ∧ w = { w₀.tried m with host := h } ∧
        P.read h m.key = .ok r)
      (Spec.query ?_ ?_ ?_) fun r => ?_
    · rintro _ r ⟨w₀, h, hw, hl, hres, rfl⟩ hr
      exact ⟨w₀, h, hw, hl, hres, rfl, hr⟩
    · rintro _ e ⟨w₀, h, hw, hl, hres, rfl⟩ hr
      exact hread _ e (hwrite w₀ c h hw hl hres) (.inr hr)
    · rintro hf _ ⟨w₀, h, hw, hl, hres, rfl⟩
      exact hfault hf _ (hwrite w₀ c h hw hl hres)
    · split
      · next hr =>
        refine Spec.pure ?_
        rintro _ ⟨w₀, h, hw, hl, hres, rfl, hread'⟩
        exact hquiet _ (hwrite w₀ c h hw hl hres) (.before r hread' hr)
      · next hr =>
        refine Spec.fail ?_
        rintro _ ⟨w₀, h, hw, hl, hres, rfl, hread'⟩
        exact hcheck w₀ c h r hw hl hres hread' (by simpa using hr)

/-! ### The executed script -/

/-- What it takes for an execution of the script to keep `I` and to fail in `F`: the operations do,
and so do the steps of the execution itself. -/
structure Served (f : Prop) (I C : World H → Prop) (F : Error → Prop) (n : ℕ)
    (operation : ℕ → Prog H Unit) : Prop where
  operation : ∀ i < n, Spec f I (operation i) (fun _ => I) (fun e w => F e ∧ I w) C
  fault : f → ∀ w, I w → (∀ e, F e) ∧ C w
  failures : ∀ message, F (failure message)
  transcripts : ∀ w ts, I w → I { w with transcripts := ts }

namespace Served

variable {I C : World H → Prop} {F : Error → Prop} {n : ℕ} {operation : ℕ → Prog H Unit}

theorem query {α : Type} (h : Served f I C F n operation) (a : α) :
    Spec f I (Io.query fun _ => .ok a) (fun b w => b = a ∧ I w) (fun e w => F e ∧ I w) C :=
  Spec.query (fun w b hw hb => ⟨(Except.ok.inj hb).symm, hw⟩) (fun w e hw he => by cases he)
    fun hf w hw => ⟨fun e => ⟨(h.fault hf w hw).1 e, hw⟩, (h.fault hf w hw).2⟩

theorem fail {α : Type} (h : Served f I C F n operation) (message : String) {Q : α → World H → Prop} :
    Spec f I (Io.fail (failure message) : Prog H α) Q (fun e w => F e ∧ I w) C :=
  Spec.fail fun _ hw => ⟨h.failures message, hw⟩

theorem acknowledge (h : Served f I C F n operation) :
    Spec f I acknowledge (fun _ => I) (fun e w => F e ∧ I w) C :=
  Spec.orFail ((h.query ()).mono (fun _ => id) (fun _ _ hw => hw.2)
    (fun _ _ hw => ⟨h.failures _, hw.2⟩) fun _ => id)

theorem visit (h : Served f I C F n operation) {is : List ℕ} (his : ∀ i ∈ is, i < n)
    (visited : List ℕ) :
    Spec f I (visit operation visited is) (fun _ => I) (fun e w => F e ∧ I w) C := by
  induction is generalizing visited with
  | nil => exact Spec.pure fun _ => id
  | cons i is ih =>
    unfold Net.visit
    split
    · exact h.fail _
    · exact Spec.bind (h.operation i (his i (by simp))) fun _ =>
        ih (fun k hk => his k (by simp [hk])) _

/-- The loop over the requests, whatever they are. -/
theorem serve (h : Served f I C F n operation) {groups : List String} (hlen : groups.length ≤ n)
    (loopback : Bool) (reason : NetworkReason) (visited : List ℕ) (requests : List Request) :
    Spec f I (serve groups loopback reason operation visited requests) (fun _ => I)
      (fun e w => F e ∧ I w) C := by
  induction requests generalizing visited with
  | nil => exact Spec.pure fun _ => id
  | cons request requests ih =>
    cases request with
    | malformed => exact h.fail _
    | late => exact h.fail _
    | line text =>
      unfold Net.serve
      dsimp only
      split
      · exact Spec.bind h.acknowledge fun _ => ih visited
      split
      · exact h.fail _
      · have hcovered : ∀ i ∈ (if reason = .disconnect then (covered groups (stripDash text)).reverse
            else covered groups (stripDash text)), i < n := by
          intro i hi
          have hmem : i ∈ covered groups (stripDash text) := by
            split at hi <;> simpa using hi
          have := List.mem_range.1 (List.mem_filter.1 hmem).1
          omega
        exact Spec.bind (h.visit hcovered visited) fun visited =>
          Spec.bind h.acknowledge fun _ => ih visited

end Served

section Errors

variable {ε α β : Type} {p : ε → Prop}

theorem bind_error {x : Except ε α} {g : α → Except ε β} (hx : ∀ e, x = .error e → p e)
    (hg : ∀ a e, g a = .error e → p e) : ∀ e, (x >>= g) = .error e → p e := by
  intro e h
  cases x with
  | error e' => exact hx e (by injection h with h; rw [h])
  | ok a => exact hg a e h

theorem mapM_error {l : List α} {g : α → Except ε β} (hg : ∀ a e, g a = .error e → p e) :
    ∀ e, l.mapM g = .error e → p e := by
  induction l with
  | nil =>
    intro e h
    cases h
  | cons a l ih =>
    rw [List.mapM_cons]
    exact bind_error (hg a) fun _ => bind_error ih fun _ e h => by cases h

theorem mapM_length {l : List α} {g : α → Except ε β} {bs : List β} (h : l.mapM g = .ok bs) :
    bs.length = l.length := by
  induction l generalizing bs with
  | nil =>
    cases h
    rfl
  | cons a l ih =>
    rw [List.mapM_cons] at h
    cases ha : g a with
    | error e => rw [ha] at h; cases h
    | ok b =>
      cases hl : l.mapM g with
      | error e => rw [ha, hl] at h; cases h
      | ok cs =>
        rw [ha, hl] at h
        cases h
        simp [ih hl]

end Errors

/-- An error of the execution itself. -/
def IsFailure (e : Error) : Prop := ∃ message, e = failure message

theorem roles_failure (config : NetworkConfig) (mutations : List Mutation) :
    ∀ e, roles config mutations = .error e → IsFailure e := by
  refine mapM_error fun (m, i) e h => ?_
  simp only [role] at h
  split_ifs at h
  cases h
  exact ⟨_, rfl⟩

theorem splitVariables_failure (suffix : String) (routes : List String) (v6 : Bool) :
    ∀ e, splitVariables suffix routes v6 = .error e → IsFailure e := by
  refine bind_error (mapM_error fun (route, i) e h => ?_) fun _ e h => by cases h
  dsimp only at h
  split at h <;> cases h
  exact ⟨_, rfl⟩

theorem environment_failure (config : NetworkConfig) (reason : NetworkReason) (roles : List Role) :
    ∀ e, environment config reason roles = .error e → IsFailure e := by
  refine bind_error (fun e h => ?_) fun _ => ?_
  · cases reason <;> cases h
    all_goals exact ⟨_, rfl⟩
  · exact bind_error (splitVariables_failure _ _ _) fun _ =>
      bind_error (splitVariables_failure _ _ _) fun _ =>
      bind_error (splitVariables_failure _ _ _) fun _ =>
      bind_error (splitVariables_failure _ _ _) fun _ e h => by cases h

namespace Served

variable {I C : World H → Prop} {F : Error → Prop} {operation : ℕ → Prog H Unit}
  {mutations : List Mutation}

theorem ofExcept {α : Type} {n : ℕ} (h : Served f I C F n operation) {r : Except Error α}
    (hr : ∀ e, r = .error e → IsFailure e) :
    Spec f I (Io.ofExcept r) (fun a w => r = .ok a ∧ I w) (fun e w => F e ∧ I w) C :=
  Spec.ofExcept (fun _ _ hw ha => ⟨ha, hw⟩) fun _ e hw he => by
    obtain ⟨message, rfl⟩ := hr e he
    exact ⟨h.failures message, hw⟩

/-- An execution of the script, whatever the script does. -/
theorem execute (h : Served f I C F mutations.length operation) (config : NetworkConfig)
    (reason : NetworkReason) :
    Spec f I (execute config reason mutations operation) (fun _ => I) (fun e w => F e ∧ I w) C := by
  refine Spec.bind (h.ofExcept (roles_failure config mutations)) fun roles => ?_
  refine Spec.intro (fun w hw => hw.1) fun hroles => Spec.pre ?_ fun w hw => hw.2
  have hlen : (roles.map Role.group).length ≤ mutations.length := by
    have := mapM_length hroles
    simp only [List.length_zipIdx] at this
    simp [this]
  refine Spec.bind ((h.query ()).post fun _ _ hw => hw.2) fun _ => ?_
  refine Spec.bind ((h.ofExcept (environment_failure config reason roles)).post
    fun _ _ hw => hw.2) fun _ => ?_
  refine Spec.bind ((h.query ()).post fun _ _ hw => hw.2) fun _ => ?_
  refine Spec.bind (R := fun _ => I) ?_ fun transcript => ?_
  · exact Spec.bind (Spec.get (Q := fun _ => I) fun _ => id) fun t =>
      Spec.bind (Spec.modify (Q := fun _ => I) fun w hw => h.transcripts w _ hw) fun _ =>
        Spec.pure fun _ => id
  refine Spec.bind (h.serve hlen config.transportPeer.isLoopback reason [] transcript.requests)
    fun visited => ?_
  cases transcript.exit with
  | failure => exact h.fail _
  | late => exact h.fail _
  | success =>
    dsimp only
    split
    · exact Spec.pure fun _ => id
    · exact h.fail _

end Served

/-- **Executing the script.**  An invariant that the operations keep is kept; the configuration is
checked first, which fails in `F` too. -/
theorem applyScript_spec {I C : World H → Prop} {F : Error → Prop} {operation : ℕ → Prog H Unit}
    {mutations : List Mutation} (h : Served f I C F mutations.length operation) (ops : UnixOps H)
    {config : NetworkConfig} (hconfig : ∀ e, config.validate = .error (.error e) → F e)
    {reason : NetworkReason} (hresolve : reason = .disconnect ∨ ∀ e, F e) :
    Spec f I (applyScript ops config reason mutations operation) (fun _ => I)
      (fun e w => F e ∧ I w) C := by
  refine Spec.bind (R := fun _ => I) ?_ fun _ => ?_
  · cases hv : config.validate with
    | ok u => exact Spec.pure fun _ => id
    | error fault =>
      cases fault with
      | error e => exact Spec.fail fun w hw => ⟨hconfig e hv, hw⟩
      | panic => exact absurd hv config.validate_safe
  · split
    · next hreason =>
      have hF : ∀ e, F e := hresolve.resolve_left hreason
      refine Spec.bind (R := fun _ => I) (Spec.query (fun _ _ hw _ => hw)
        (fun w e hw _ => ⟨hF e, hw⟩) fun hf w hw =>
          ⟨fun e => ⟨hF e, hw⟩, (h.fault hf w hw).2⟩) fun identity => ?_
      split
      · exact h.execute config reason
      · exact h.fail _
    · exact h.execute config reason

/-! ### The journal on disk -/

/-- `load` reads `j` from a file with these contents. -/
def Loads (t : TransactionId) (contents : Contents) (j : Journal) : Prop :=
  ∃ length, contents = .journal j length ∧ length ≤ maxJournalBytes ∧ accepted t j = true ∧
    j.config.validate = .ok ()

/-- **Reading the journal.** -/
theorem load_spec {I C : World H → Prop} {Q : Option Journal → World H → Prop}
    {E : Error → World H → Prop} {t : TransactionId}
    (hfault : f → ∀ w, I w → (∀ e, E e w) ∧ C w)
    (hnone : ∀ w, I w → w.root.find (path t) = none → Q none w)
    (hsome : ∀ w c j, I w → w.root.find (path t) = some c → Loads t c j → Q (some j) w)
    (hbad : ∀ w c e, I w → w.root.find (path t) = some c → (∀ j, ¬ Loads t c j) → E e w) :
    Spec f I (load t) Q E C := by
  have hquery : ∀ {α : Type} (e : Error) {J : World H → Prop} {R : α → World H → Prop}
      {g : World H → Except Error α}, (∀ w, J w → I w) → (∀ w a, J w → g w = .ok a → R a w) →
      (∀ w e, J w → g w ≠ .error e) → Spec f J ((Io.query g).orFail e) R E C :=
    fun e _ _ _ hI hR hg => Spec.orFail (Spec.query hR (fun w e' hw he => absurd he (hg w e' hw))
      fun hf w hw => ⟨fun _ => (hfault hf w (hI w hw)).1 e, (hfault hf w (hI w hw)).2⟩)
  refine Spec.bind (R := fun found w => I w ∧ found = (w.root.find (path t)).isSome)
    (hquery _ (fun _ => id) (fun w a hw ha => ⟨hw, (Except.ok.inj ha).symm⟩)
      fun w e _ he => by cases he) fun found => ?_
  cases found with
  | false =>
    refine Spec.pure fun w hw => hnone w hw.1 ?_
    simpa using hw.2.symm
  | true =>
    refine Spec.bind (R := fun c w => I w ∧ w.root.find (path t) = some c)
      (hquery _ (fun _ hw => hw.1) (fun w c hw hc => ?_) fun w e hw he => ?_) fun c => ?_
    · cases hfind : w.root.find (path t) with
      | none => simp [hfind] at hw
      | some c' =>
        simp only [hfind, Except.ok.injEq] at hc
        exact ⟨hw.1, by rw [hc]⟩
    · cases hfind : w.root.find (path t) with
      | none => simp [hfind] at hw
      | some c => simp [hfind] at he
    -- a file that is no journal of this transaction is refused
    have hreject : (∀ j, ¬ Loads t c j) → ∀ {α : Type} {Q : α → World H → Prop} (e : Error),
        Spec f (fun w => I w ∧ w.root.find (path t) = some c) (Io.fail e : Prog H α) Q E C :=
      fun hbad' _ _ e => Spec.fail fun w hw => hbad w c e hw.1 hw.2 hbad'
    cases c with
    | garbage => exact hreject (by rintro j ⟨_, ⟨⟩, -⟩) _
    | journal j length =>
      dsimp only
      split
      · next hlong =>
        refine hreject ?_ _
        rintro _ ⟨_, ⟨⟩, hle, -⟩
        omega
      next hlong =>
      split
      · next hacc =>
        refine hreject ?_ _
        rintro _ ⟨_, ⟨⟩, -, hacc', -⟩
        simp [hacc'] at hacc
      next hacc =>
      cases hv : j.config.validate with
      | ok u =>
        refine Spec.bind (R := fun _ w => I w ∧ w.root.find (path t) = some (.journal j length))
          (Spec.pure fun _ => id) fun _ => Spec.pure fun w hw => hsome w _ j hw.1 hw.2 ?_
        exact ⟨length, rfl, by omega, by simpa using hacc, hv⟩
      | error fault =>
        cases fault with
        | panic => exact absurd hv j.config.validate_safe
        | error e =>
          refine Spec.bind (hreject ?_ e) fun _ => Spec.pure fun w hw => hw
          rintro _ ⟨_, ⟨⟩, -, -, hv'⟩
          simp [hv] at hv'

/-- The world after a journal was committed. -/
def World.commit (w : World H) (j : Journal) (length : ℕ) : World H :=
  { w with
    root := (w.root.remove (pendingPath j.transaction)).put (path j.transaction)
      (.journal j length) }

/-- **Writing the journal.**  `I` holds until it is committed and `J` from then on. -/
theorem save_spec {I J C : World H → Prop} {E : Error → World H → Prop} {j : Journal}
    (hI : f → ∀ w, I w → (∀ e, E e w) ∧ C w) (hJ : f → ∀ w, J w → (∀ e, E e w) ∧ C w)
    (hpending : ∀ w c, I w → I { w with root := w.root.put (pendingPath j.transaction) c })
    (hlong : maxJournalBytes < P.length j → ∀ w, I w → E error w)
    (hcommit : P.length j ≤ maxJournalBytes → ∀ w, I w → J (w.commit j (P.length j))) :
    Spec f I (save P j) (fun _ => J) E C := by
  have hwrite : ∀ (c : Contents) (e : Error), Spec f I
      (writeFile (pendingPath j.transaction) c e)
      (fun _ w => I w ∧ w.root.find (pendingPath j.transaction) = some c) E C := by
    intro c e
    refine Spec.orFail (Spec.act (fun w w' hw hg => ?_) (fun w _ _ he => by cases he)
      fun hf w hw => ⟨fun _ => (hI hf w hw).1 e, (hI hf w hw).2, fun w' hg => ?_⟩)
    · cases hg
      exact ⟨hpending w c hw, by simp [Root.find_put]⟩
    · cases hg
      exact ⟨fun _ => (hI hf _ (hpending w c hw)).1 e, (hI hf _ (hpending w c hw)).2⟩
  unfold save
  refine Spec.bind ((hwrite .garbage denied).post fun _ w hw => hw.1) fun _ => ?_
  refine Spec.bind (hwrite (.journal j (P.length j)) error) fun _ => ?_
  split
  · next hlen => exact Spec.fail fun w hw => hlong hlen w hw.1
  next hlen =>
  refine Spec.bind (R := fun _ w => I w ∧
      w.root.find (pendingPath j.transaction) = some (.journal j (P.length j)))
    (Spec.orFail (Spec.query (fun _ _ hw _ => hw) (fun _ _ _ he => by cases he)
      fun hf w hw => ⟨fun _ => (hI hf w hw.1).1 _, (hI hf w hw.1).2⟩)) fun _ => ?_
  have hle : P.length j ≤ maxJournalBytes := by omega
  refine Spec.bind (R := fun _ => J) (Spec.orFail (Spec.act ?_ ?_ fun hf w hw =>
    ⟨fun _ => (hI hf w hw.1).1 _, (hI hf w hw.1).2, ?_⟩)) fun _ => ?_
  · intro w w' hw hg
    rw [hw.2] at hg
    cases hg
    exact hcommit hle w hw.1
  · intro w e hw hg
    rw [hw.2] at hg
    cases hg
  · intro w' hg
    rw [hw.2] at hg
    cases hg
    exact ⟨fun _ => (hJ hf _ (hcommit hle w hw.1)).1 _, (hJ hf _ (hcommit hle w hw.1)).2⟩
  · exact Spec.orFail (Spec.query (fun _ _ hw _ => hw) (fun _ _ _ he => by cases he)
      fun hf w hw => ⟨fun _ => (hJ hf w hw).1 _, (hJ hf w hw).2⟩)

/-! ### A whole restoration -/

/-- The world after a file was removed. -/
def World.removed (w : World H) (name : FileName) : World H :=
  { w with root := w.root.remove name, removals := ⟨name, w.host⟩ :: w.removals }

/-- The mutations in the order of the loop of `restore`. -/
def reverseOrder (j : Journal) : List ℕ := (List.range j.mutations.length).reverse

/-- `restore` once the boot is known. -/
def restoreKnowing (P : Platform H) (j : Journal) (sameBoot : Bool) : Prog H (List Error) := do
  let script ← restoreScript P j sameBoot
  let reverse ← Io.collect (reverseOrder j) fun index => restoreOne P j index sameBoot
  let warnings := script ++ reverse
  if warnings.isEmpty then do
    removeFile (path j.transaction)
    syncDirectory
    pure warnings
  else pure warnings

theorem restore_known (P : Platform H) (j : Journal) :
    restore P j = bootId >>= fun boot => restoreKnowing P j (decide (j.bootId = boot)) := rfl

/-- What a caller of `restore` chooses and owes.  `K` is kept throughout, `D done` holds when the
loop has restored the mutations `done` without a failure, `R` once the journal was removed; `F` are
the failures of the script and `G` those of the loop. -/
structure Restoring (P : Platform H) (f : Prop) (j : Journal) (sameBoot : Bool) (K C : World H → Prop)
    (E : Error → World H → Prop) (D : List ℕ → World H → Prop) (R : World H → Prop)
    (F G : Error → Prop) : Prop where
  boot : ∀ w, K w → sameBoot = decide (j.bootId = w.bootId)
  served : sameBoot = true → Served f K C F j.mutations.length (restoreOne P j · sameBoot)
  config : ∀ e, j.config.validate = .error (.error e) → F e
  start : ∀ w, K w → D [] w
  step : ∀ done, ∀ i < j.mutations.length, Spec f (D done) (restoreOne P j i sameBoot)
    (fun _ => D (done ++ [i])) (fun e w => G e ∧ K w) C
  again : ∀ i < j.mutations.length, Spec f K (restoreOne P j i sameBoot) (fun _ => K)
    (fun e w => G e ∧ K w) C
  fault : f → ∀ w, D (reverseOrder j) w ∨ R w → (∀ e, E e w) ∧ C w
  removed : ∀ w, D (reverseOrder j) w → R (w.removed (path j.transaction))
  missing : ∀ w, D (reverseOrder j) w → w.root.find (path j.transaction) = none → E error w

namespace Restoring

variable {K C R : World H → Prop} {E : Error → World H → Prop} {D : List ℕ → World H → Prop}
  {F G : Error → Prop} {j : Journal} {sameBoot : Bool}

theorem script (h : Restoring P f j sameBoot K C E D R F G) :
    Spec f K (restoreScript P j sameBoot) (fun es w => (∀ e ∈ es, F e) ∧ K w) E C := by
  unfold restoreScript
  cases P.adapter with
  | windows _ => exact Spec.pure fun _ hw => ⟨by simp, hw⟩
  | unix ops =>
    dsimp only
    split
    · next hboot =>
      have happly := applyScript_spec (h.served hboot) ops h.config (.inl rfl)
      refine Spec.bind (R := fun r w => (∀ e, r = .error e → F e) ∧ K w)
        (Spec.attempt happly (fun _ w hw => ⟨by simp, hw⟩) fun e w hw =>
          ⟨fun e' he => by cases he; exact hw.1, hw.2⟩) fun r => ?_
      cases r with
      | ok u => exact Spec.pure fun _ hw => ⟨by simp, hw.2⟩
      | error e => exact Spec.pure fun _ hw => ⟨by simpa using hw.1, hw.2⟩
    · exact Spec.pure fun _ hw => ⟨by simp, hw⟩

/-- **A restoration that knows the boot.**  It returns no failure only when the loop restored every
mutation and the journal was removed. -/
theorem knowing (h : Restoring P f j sameBoot K C E D R F G) :
    Spec f K (restoreKnowing P j sameBoot)
      (fun es w => (es = [] ∧ R w) ∨ (es ≠ [] ∧ (∀ e ∈ es, F e) ∧ D (reverseOrder j) w) ∨
        ((∀ e ∈ es, F e ∨ G e) ∧ (∃ e ∈ es, G e) ∧ K w)) E C := by
  unfold restoreKnowing
  refine Spec.bind h.script fun script => ?_
  refine Spec.intro (fun w hw => hw.1) fun hF => Spec.pre ?_ fun w hw => hw.2
  have hmem : ∀ i ∈ reverseOrder j, i < j.mutations.length := by simp [reverseOrder]
  refine Spec.bind ((Spec.collect (I := D) (J := K) (F := G)
    (fun done i hi => h.step done i (hmem i hi)) (fun i hi => h.again i (hmem i hi)) []).pre
      h.start) fun reverse => ?_
  by_cases hempty : (script ++ reverse).isEmpty = true
  · have hnil : script = [] ∧ reverse = [] := by simpa using hempty
    obtain ⟨rfl, rfl⟩ := hnil
    -- without warnings every index has been done
    have hall : ∀ w, (([] : List Error) = [] ∧ D ([] ++ reverseOrder j) w) ∨
        (([] : List Error) ≠ [] ∧ (∀ e ∈ ([] : List Error), G e) ∧ K w) →
        D (reverseOrder j) w := by
      rintro w (⟨-, hw⟩ | ⟨hne, -⟩)
      · exact hw
      · exact absurd rfl hne
    rw [if_pos hempty]
    refine Spec.pre ?_ hall
    have hD : f → ∀ w, D (reverseOrder j) w → (∀ e, E e w) ∧ C w := fun hf w hw =>
      h.fault hf w (.inl hw)
    have hR : f → ∀ w, R w → (∀ e, E e w) ∧ C w := fun hf w hw => h.fault hf w (.inr hw)
    refine Spec.bind (R := fun _ => R) (Spec.orFail (Spec.act (fun w w' hw hg => ?_)
      (fun w e hw hg => ?_) fun hf w hw => ⟨fun _ => (hD hf w hw).1 _, (hD hf w hw).2,
        fun w' hg => ?_⟩)) fun _ => ?_
    · cases hfind : w.root.find (path j.transaction) with
      | none => simp [hfind] at hg
      | some c =>
        simp only [hfind, Except.ok.injEq] at hg
        exact hg ▸ h.removed w hw
    · cases hfind : w.root.find (path j.transaction) with
      | none => exact h.missing w hw hfind
      | some c => simp [hfind] at hg
    · cases hfind : w.root.find (path j.transaction) with
      | none => simp [hfind] at hg
      | some c =>
        simp only [hfind, Except.ok.injEq] at hg
        have hw' := hR hf w' (hg ▸ h.removed w hw)
        exact ⟨fun _ => hw'.1 _, hw'.2⟩
    refine Spec.bind (R := fun _ => R) (Spec.orFail (Spec.query (fun _ _ hw _ => hw)
      (fun _ _ _ he => by cases he) fun hf w hw => ⟨fun _ => (hR hf w hw).1 _, (hR hf w hw).2⟩))
      fun _ => Spec.pure fun w hw => .inl ⟨rfl, hw⟩
  · rw [if_neg hempty]
    refine Spec.pure ?_
    rintro w (⟨rfl, hw⟩ | ⟨hne, hG, hw⟩)
    · exact .inr (.inl ⟨by simpa using hempty, by simpa using hF, hw⟩)
    · obtain ⟨e, he⟩ := List.exists_mem_of_ne_nil _ hne
      refine .inr (.inr ⟨fun e he => ?_, ⟨e, by simp [he], hG e he⟩, hw⟩)
      rcases List.mem_append.1 he with he | he
      · exact .inl (hF e he)
      · exact .inr (hG e he)

/-- **A whole restoration**; `hboot` is about a failing look at the boot. -/
theorem restore (h : Restoring P f j sameBoot K C E D R F G)
    (hboot : f → ∀ w, K w → (∀ e, E e w) ∧ C w) :
    Spec f K (restore P j)
      (fun es w => (es = [] ∧ R w) ∨ (es ≠ [] ∧ (∀ e ∈ es, F e) ∧ D (reverseOrder j) w) ∨
        ((∀ e ∈ es, F e ∨ G e) ∧ (∃ e ∈ es, G e) ∧ K w)) E C := by
  rw [restore_known]
  refine Spec.bind (R := fun boot w => decide (j.bootId = boot) = sameBoot ∧ K w)
    (Spec.query (fun w b hw hb => ?_) (fun _ _ _ he => by cases he) hboot) fun boot => ?_
  · cases hb
    exact ⟨(h.boot w hw).symm, hw⟩
  refine Spec.intro (fun w hw => hw.1) fun hsame => Spec.pre ?_ fun w hw => hw.2
  rw [hsame]
  exact h.knowing

end Restoring

end Ocvpn.Net
