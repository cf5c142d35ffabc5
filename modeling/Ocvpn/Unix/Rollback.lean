import Ocvpn.Journal.Ownership

/-!
# The Unix journal rolls back

Runs of `lifecycle` and `recover` for one transaction on a Unix host, cut anywhere any number of
times.  `K` is a set of native keys that contains every planned one; nobody else changes them.

The invariant is `Tracks`: each mutation of a journal knows the value of its key before the first
run, and the key still has that value or one that the journal recognises as its own.  The journal on
disk and the one in memory both track the host at every moment, although they differ between two
saves.

## Main results

* `rollback` : at every moment the journal on disk can be loaded, and a `recover` that is not cut
  brings every key back, whatever the disconnect script does.
-/

namespace Ocvpn.Net.Unix

open Crash

variable {N : Native}

/-! ### Planned keys -/

theorem parseU32_toString (i : ℕ) :
    parseU32 (toString i).toList = if i < 2 ^ 32 then some i else none := by
  have hdigits : (toString i).toList = Nat.toDigits 10 i := Nat.toList_repr
  have hall : ∀ c ∈ Nat.toDigits 10 i, c.isDigit = true := fun c =>
    Nat.isDigit_of_mem_toDigits (by decide) (by decide)
  have hplus : (Nat.toDigits 10 i).head? ≠ some '+' := fun hhead => by
    have := hall '+' (List.mem_of_mem_head? hhead)
    revert this
    decide
  have hne : Nat.toDigits 10 i ≠ [] := Nat.toDigits_ne_nil
  unfold parseU32
  rw [hdigits, if_neg hplus]
  simp [hne, List.all_eq_true.2 hall, Nat.ofDigitChars_ten_toDigits]

theorem splitOnce_append {sep : Char} {a b : List Char} (h : sep ∉ a) :
    splitOnce sep (a ++ sep :: b) = some (a, b) := by
  induction a with
  | nil => simp [splitOnce]
  | cons c a ih =>
    simp only [List.mem_cons, not_or] at h
    simp [splitOnce, Ne.symm h.1, ih h.2]

theorem splitOnce_eq_none {sep : Char} {a : List Char} (h : sep ∉ a) : splitOnce sep a = none := by
  induction a with
  | nil => rfl
  | cons c a ih =>
    simp only [List.mem_cons, not_or] at h
    simp [splitOnce, Ne.symm h.1, ih h.2]

/-- The native key of a planned change. -/
def Planned.key (item : Planned) : NativeKey := { kind := item.kind, name := item.name }

theorem resolve_eq_ok {ifIndex : String → ℕ} {name : String} {identity : InterfaceIdentity}
    (h : resolve ifIndex name = .ok identity) :
    identity.index = ifIndex name ∧ ifIndex name ≠ 0 := by
  unfold resolve at h
  split_ifs at h with h₁ h₂
  cases h
  exact ⟨rfl, h₂⟩

/-- The key of a planned change names it again, and its interface is present. -/
theorem nativeKey_keyOf {ifIndex : String → ℕ} {item : Planned} {key : Key}
    {r : NativeKey × Bool} (hplain : '@' ∉ item.kind.toList)
    (hkey : keyOf ifIndex item.kind item.name = .ok key) (hr : nativeKey ifIndex key = .ok r) :
    r = (item.key, false) := by
  unfold keyOf at hkey
  split_ifs at hkey with hbound
  · cases hresolve : resolve ifIndex (firstPiece '|' item.name) with
    | error e => rw [hresolve] at hkey; cases hkey
    | ok identity =>
      rw [hresolve] at hkey
      obtain ⟨hindex, hpos⟩ := resolve_eq_ok hresolve
      cases hkey
      have hsplit : splitOnce '@' (item.kind ++ "@" ++ toString identity.index).toList =
          some (item.kind.toList, (toString identity.index).toList) := by
        simpa using splitOnce_append hplain
      unfold nativeKey at hr
      simp only [hsplit, String.ofList_toList, hbound, parseU32_toString] at hr
      by_cases hlt : identity.index < 2 ^ 32
      · simp only [hlt, if_true] at hr
        cases hsafe : safeName (firstPiece '|' item.name) with
        | error e => rw [hsafe] at hr; cases hr
        | ok u =>
          rw [hsafe] at hr
          cases hr
          simp [Planned.key, hindex, hpos]
      · simp only [hlt, if_false] at hr
        cases hr
  · cases hkey
    unfold nativeKey at hr
    rw [splitOnce_eq_none hplain] at hr
    cases hr
    rfl

theorem mutation_eq_ok {h : UnixHost N} {item : Planned} {m : Mutation}
    (hplain : '@' ∉ item.kind.toList) (hm : mutation h item = .ok m) :
    keyOf h.ifIndex item.kind item.name = .ok m.key ∧
      nativeKey h.ifIndex m.key = .ok (item.key, false) ∧ m.before = h.os item.key ∧
        m.applied = none := by
  unfold mutation at hm
  cases hkey : keyOf h.ifIndex item.kind item.name with
  | error e => rw [hkey] at hm; cases hm
  | ok key =>
    rw [hkey] at hm
    change (h.read key >>= fun before =>
      Except.ok { key, before, intended := item.intended, applied := none }) = .ok m at hm
    cases hn : nativeKey h.ifIndex key with
    | error e =>
      have hread : h.read key = .error e := by
        rw [UnixHost.read, hn]
        rfl
      rw [hread] at hm
      cases hm
    | ok r =>
      obtain rfl := nativeKey_keyOf hplain hkey hn
      have hread : h.read key = .ok (h.os item.key) := by
        rw [UnixHost.read, hn]
        rfl
      rw [hread] at hm
      cases hm
      exact ⟨rfl, hn, rfl, rfl⟩

theorem mutations_spec {h₀ : UnixHost N} (items : List Planned) :
    Spec True (· = h₀) (mutations items)
      (fun ms h => h = h₀ ∧ ∀ m ∈ ms, ∃ item ∈ items, mutation h₀ item = .ok m)
      (fun _ => (· = h₀)) (· = h₀) := by
  induction items with
  | nil => exact Spec.pure fun h hh => ⟨hh, by simp⟩
  | cons item items ih =>
    refine Spec.bind (R := fun m h => h = h₀ ∧ mutation h₀ item = .ok m)
      (Spec.query (fun h m hh hm => ⟨hh, hh ▸ hm⟩) (fun _ _ hh _ => hh)
        fun _ h hh => ⟨fun _ => hh, hh⟩) fun m => ?_
    refine Spec.intro (fun h hh => hh.2) fun hm => Spec.pre ?_ fun h hh => hh.1
    refine Spec.bind ih fun ms => Spec.pure fun h hh => ⟨hh.1, ?_⟩
    refine List.forall_mem_cons.2 ⟨⟨item, by simp, hm⟩, fun m' hm' => ?_⟩
    obtain ⟨item', hitem', heq⟩ := hh.2 m' hm'
    exact ⟨item', by simp [hitem'], heq⟩

theorem distinct_subset {plan items ms : List Mutation} (h : distinct plan items = .ok ms) :
    ∀ m ∈ ms, m ∈ plan ∨ m ∈ items := by
  induction items generalizing plan with
  | nil =>
    cases h
    exact fun m hm => .inl hm
  | cons item items ih =>
    unfold distinct at h
    split at h
    · split_ifs at h
      intro m hm
      exact (ih h m hm).imp_right (List.mem_cons_of_mem _)
    · intro m hm
      rcases ih h m hm with hm | hm
      · rcases List.mem_append.1 hm with hm | hm
        · exact .inl hm
        · exact .inr (List.mem_singleton.1 hm ▸ List.mem_cons_self)
      · exact .inr (List.mem_cons_of_mem _ hm)

/-! ### Journals and hosts -/

/-- Every planned key is in `K` and its kind names no interface by itself. -/
def Confined (K : NativeKey → Prop) (h : UnixHost N) : Prop :=
  ∀ config, ∀ item ∈ h.requests config, '@' ∉ item.kind.toList ∧ K item.key

/-- The value is one that the transaction gave to the key. -/
structure Owned (N : Native) (m : Mutation) (v : Option Value) : Prop where
  intended : N.equivalent m.key v m.intended = true
  owned : N.equivalent m.key v m.owned = true
  present : m.intended.isSome = true → v ≠ none

/-- The mutation knows the value that its key, `n`, had on `h₀`; on `h` the key has this value or an
own one. -/
structure Tracked (K : NativeKey → Prop) (h₀ h : UnixHost N) (m : Mutation) (n : NativeKey) :
    Prop where
  native : nativeKey h.ifIndex m.key = .ok (n, false)
  planned : K n
  before : m.before = h₀.os n
  value : h.os n = h₀.os n ∨ Owned N m (h.os n)

/-- The journal accounts for every difference between `h₀` and `h`. -/
structure Tracks (K : NativeKey → Prop) (t : TransactionId) (boot : String) (h₀ : UnixHost N)
    (j : Journal) (h : UnixHost N) : Prop where
  accepted : accepted t j = true
  config : j.config.validate = .ok ()
  sameBoot : j.bootId = boot
  keys : ∀ m ∈ j.mutations, ∃ n, Tracked K h₀ h m n
  distinct : (j.mutations.map (·.key)).Nodup
  native : ∀ m ∈ j.mutations, ∀ m' ∈ j.mutations, ∀ n,
    nativeKey h.ifIndex m.key = .ok (n, false) → nativeKey h.ifIndex m'.key = .ok (n, false) →
    m.key = m'.key
  rest : ∀ n, K n → (∀ m ∈ j.mutations, nativeKey h.ifIndex m.key ≠ .ok (n, false)) →
    h.os n = h₀.os n

/-- Every key of `K` has the value it had on `h₀`. -/
def Undone (K : NativeKey → Prop) (h₀ h : UnixHost N) : Prop := ∀ n, K n → h.os n = h₀.os n

section Tracks

variable {K : NativeKey → Prop} {t : TransactionId} {boot : String} {h₀ h : UnixHost N}
  {j : Journal} {m : Mutation} {n : NativeKey}

theorem put_initial_os (h₀ h : UnixHost N) (n k : NativeKey) :
    (h.put n (h₀.os n)).os k = if k = n then h₀.os n else h.os k := by
  rw [UnixHost.put_os]
  split_ifs with hk
  · rw [hk, N.observed_of_genuine n _ (h₀.genuine n)]
  · rfl

theorem Undone.put (hu : Undone K h₀ h) (n : NativeKey) : Undone K h₀ (h.put n (h₀.os n)) := by
  intro k hk
  rw [put_initial_os]
  split_ifs with hkn
  · rw [hkn]
  · exact hu k hk

/-- Bringing back any key. -/
theorem Tracks.put (hj : Tracks K t boot h₀ j h) (n : NativeKey) :
    Tracks K t boot h₀ j (h.put n (h₀.os n)) := by
  refine ⟨hj.accepted, hj.config, hj.sameBoot, fun m hm => ?_, hj.distinct, hj.native,
    fun k hk hne => ?_⟩
  · obtain ⟨k, hk⟩ := hj.keys m hm
    refine ⟨k, hk.native, hk.planned, hk.before, ?_⟩
    rw [put_initial_os]
    split_ifs with hkn
    · exact .inl (by rw [hkn])
    · exact hk.value
  · rw [put_initial_os]
    split_ifs with hkn
    · rw [hkn]
    · exact hj.rest k hk hne

/-- Two mutations of one native key are the same. -/
theorem Tracks.eq_of_native (hj : Tracks K t boot h₀ j h) {m' : Mutation} (hm : m ∈ j.mutations)
    (hm' : m' ∈ j.mutations) (hn : nativeKey h.ifIndex m.key = .ok (n, false))
    (hn' : nativeKey h.ifIndex m'.key = .ok (n, false)) : m = m' :=
  List.inj_on_of_nodup_map hj.distinct hm hm' (hj.native m hm m' hm' n hn hn')

/-- Writing the intended value of a mutation that was not applied. -/
theorem Tracks.apply (hj : Tracks K t boot h₀ j h) (hm : m ∈ j.mutations)
    (hn : nativeKey h.ifIndex m.key = .ok (n, false)) (happlied : m.applied = none) :
    Tracks K t boot h₀ j (h.put n m.intended) := by
  refine ⟨hj.accepted, hj.config, hj.sameBoot, fun m' hm' => ?_, hj.distinct, hj.native,
    fun k hk hne => ?_⟩
  · obtain ⟨k, hk⟩ := hj.keys m' hm'
    refine ⟨k, hk.native, hk.planned, hk.before, ?_⟩
    rw [UnixHost.put_os]
    split_ifs with hkn
    · subst hkn
      obtain rfl := hj.eq_of_native hm hm' hn hk.native
      have hobserved : N.equivalent m.key (N.observed k m.intended) m.intended = true := by
        rw [nativeKey_eq hn]
        exact N.equivalent_observed m.key m.intended
      refine .inr ⟨hobserved, ?_, fun hsome => ?_⟩
      · rw [Mutation.owned, happlied]
        exact hobserved
      · obtain ⟨v, hv⟩ := Option.isSome_iff_exists.1 hsome
        rw [hv]
        exact N.observed_some k v
    · exact hk.value
  · rw [UnixHost.put_os]
    split_ifs with hkn
    · exact absurd hn (hkn ▸ hne m hm)
    · exact hj.rest k hk hne

/-- Nothing is left to undo when every mutation is undone. -/
theorem Tracks.undone (hj : Tracks K t boot h₀ j h) (hall : ∀ m ∈ j.mutations, ∀ n,
    nativeKey h.ifIndex m.key = .ok (n, false) → h.os n = h₀.os n) : Undone K h₀ h := by
  intro n hn
  by_cases hex : ∃ m ∈ j.mutations, nativeKey h.ifIndex m.key = .ok (n, false)
  · obtain ⟨m, hm, hnative⟩ := hex
    exact hall m hm n hnative
  · push Not at hex
    exact hj.rest n hn hex

end Tracks

/-! ### The world -/

section Safe

variable (K : NativeKey → Prop) (t : TransactionId) (boot : String) (h₀ : UnixHost N)

/-- The journal on disk accounts for every difference from `h₀`; without one there is none. -/
structure Safe (w : World (UnixHost N)) : Prop where
  sameBoot : w.bootId = boot
  confined : Confined K w.host
  disk : (w.root.find (path t) = none ∧ Undone K h₀ w.host) ∨
    ∃ j length, w.root.find (path t) = some (.journal j length) ∧ length ≤ maxJournalBytes ∧
      Tracks K t boot h₀ j w.host

/-- A journal on disk is being undone; `j` accounts for every difference, too. -/
structure Live (j : Journal) (w : World (UnixHost N)) : Prop where
  safe : Safe K t boot h₀ w
  tracks : Tracks K t boot h₀ j w.host
  stored : w.root.find (path t) ≠ none

/-- The mutations of `done` are undone. -/
def UndoneAt (j : Journal) (done : List ℕ) (h : UnixHost N) : Prop :=
  ∀ i ∈ done, ∀ m, j.mutations[i]? = some m → ∀ n,
    nativeKey h.ifIndex m.key = .ok (n, false) → h.os n = h₀.os n

variable {K t boot h₀} {j : Journal} {w w' : World (UnixHost N)} {n : NativeKey}

theorem Safe.congr (h : Safe K t boot h₀ w) (hboot : w'.bootId = w.bootId) (hhost : w'.host = w.host)
    (hfind : w'.root.find (path t) = w.root.find (path t)) : Safe K t boot h₀ w' := by
  refine ⟨hboot.trans h.sameBoot, hhost ▸ h.confined, ?_⟩
  rw [hfind, hhost]
  exact h.disk

theorem Safe.put (h : Safe K t boot h₀ w) (n : NativeKey) :
    Safe K t boot h₀ { w with host := w.host.put n (h₀.os n) } := by
  refine ⟨h.sameBoot, h.confined, h.disk.imp (fun hd => ⟨hd.1, hd.2.put n⟩) ?_⟩
  rintro ⟨j, length, hfind, hle, hj⟩
  exact ⟨j, length, hfind, hle, hj.put n⟩

theorem UndoneAt.put {done : List ℕ} {h : UnixHost N} (hd : UndoneAt h₀ j done h) (n : NativeKey) :
    UndoneAt h₀ j done (h.put n (h₀.os n)) := by
  intro i hi m hm k hk
  rw [put_initial_os]
  split_ifs with hkn
  · rw [hkn]
  · exact hd i hi m hm k hk

theorem Live.put (h : Live K t boot h₀ j w) (n : NativeKey) :
    Live K t boot h₀ j { w with host := w.host.put n (h₀.os n) } :=
  ⟨h.safe.put n, h.tracks.put n, h.stored⟩

theorem Live.note (h : Live K t boot h₀ j w) (a : Attempt (UnixHost N)) :
    Live K t boot h₀ j { w with attempts := a :: w.attempts } :=
  ⟨h.safe.congr rfl rfl rfl, h.tracks, h.stored⟩

/-! ### Restoring -/

variable {f : Prop} {length : Journal → ℕ}

/-- One restoration brings its key back; it fails only when it is cut. -/
theorem restoreOne_live {i : ℕ} (hi : i < j.mutations.length) (done : List ℕ) :
    Spec f (fun w => Live K t boot h₀ j w ∧ UndoneAt h₀ j done w.host)
      (restoreOne (platform N length) j i true)
      (fun _ w => Live K t boot h₀ j w ∧ UndoneAt h₀ j (done ++ [i]) w.host)
      (fun _ w => f ∧ Live K t boot h₀ j w) (fun w => f ∧ Live K t boot h₀ j w) := by
  have hm := List.getElem?_eq_getElem hi
  have hmem : j.mutations[i] ∈ j.mutations := List.getElem_mem hi
  generalize j.mutations[i] = m at hm hmem
  -- what the platform says of the key
  have hnative : ∀ {w}, Live K t boot h₀ j w → ∃ n, Tracked K h₀ w.host m n ∧
      (platform N length).vanished w.host m.key = .ok false ∧
      (platform N length).read w.host m.key = .ok (w.host.os n) := by
    intro w hw
    obtain ⟨n, hn⟩ := hw.tracks.keys m hmem
    refine ⟨n, hn, ?_, ?_⟩
    · show w.host.vanished m.key = _
      rw [UnixHost.vanished, hn.native]
      rfl
    · show w.host.read m.key = _
      rw [UnixHost.read, hn.native]
      rfl
  have hbefore : ∀ {h : UnixHost N} {n}, Tracked K h₀ h m n →
      (N.equivalent m.key (h.os n) m.before = true ↔ h.os n = h₀.os n) := by
    intro h n hn
    rw [hn.before]
    obtain rfl := nativeKey_eq hn.native
    refine ⟨N.eq_of_equivalent m.key _ _ (h₀.genuine _), fun heq => ?_⟩
    rw [heq]
    exact N.equivalent_refl _ _
  have hdone : ∀ {w : World (UnixHost N)} {n}, Live K t boot h₀ j w → UndoneAt h₀ j done w.host →
      Tracked K h₀ w.host m n → w.host.os n = h₀.os n →
      Live K t boot h₀ j w ∧ UndoneAt h₀ j (done ++ [i]) w.host := by
    intro w n hw hd hn heq
    refine ⟨hw, fun k hk m' hm' n' hn' => ?_⟩
    rcases List.mem_append.1 hk with hk | hk
    · exact hd k hk m' hm' n' hn'
    · obtain rfl := List.mem_singleton.1 hk
      obtain rfl := Option.some.inj (hm.symm.trans hm')
      obtain ⟨rfl, -⟩ := Prod.mk.inj (Except.ok.inj (hn.native.symm.trans hn'))
      exact heq
  refine restoreOne_spec (I := fun w => Live K t boot h₀ j w ∧ UndoneAt h₀ j done w.host) hm
    (fun hf w hw => ⟨fun _ => ⟨hf, hw.1⟩, hf, hw.1⟩) (fun w e hw hr => ?_) (fun w hw hq => ?_)
    (fun w c e hw hr hne href => ?_) (fun w c hw _ => ⟨hw.1.note _, hw.2⟩)
    (fun w c h hw hl hwr => ?_) (fun w c e hw hl hwr => ?_) fun w c h r hw hl hwr hr hne => ?_
  · obtain ⟨n, -, hv, hread⟩ := hnative hw.1
    rw [hv, hread] at hr
    rcases hr with hr | hr <;> cases hr
  · obtain ⟨n, hn, hv, hread⟩ := hnative hw.1
    refine hdone hw.1 hw.2 hn ?_
    cases hq with
    | vanished hvanished =>
      rw [hv] at hvanished
      cases hvanished
    | before c hc heq =>
      obtain rfl := Except.ok.inj (hread.symm.trans hc)
      exact (hbefore hn).1 heq
    | absent hnone hsome =>
      have hgone : w.host.os n = none := Except.ok.inj (hread.symm.trans hnone)
      rcases hn.value with heq | howned
      · exact heq
      · exact absurd hgone (howned.present (hsome.resolve_right (by simp)))
  · -- a key that is not at its first value is recognised
    obtain ⟨n, hn, -, hread⟩ := hnative hw.1
    obtain rfl := Except.ok.inj (hread.symm.trans hr)
    have howned : Owned N m (w.host.os n) := by
      refine hn.value.resolve_left fun heq => ?_
      have := (hbefore hn).2 heq
      change N.equivalent m.key (w.host.os n) m.before = false at hne
      rw [this] at hne
      cases hne
    cases href with
    | unobserved _ hi => cases hi.symm.trans howned.intended
    | previousBoot hb => cases hb
    | concurrentChange ho => cases ho.symm.trans howned.owned
  · obtain ⟨n, hn, rfl⟩ := write_eq_ok hwr
    obtain ⟨n', hn', -, -⟩ := hnative hw.1
    obtain ⟨rfl, -⟩ := Prod.mk.inj (Except.ok.inj (hn.symm.trans hn'.native))
    rw [hn'.before]
    exact ⟨(hw.1.put n).note _, hw.2.put n⟩
  · obtain ⟨n, hn, -, -⟩ := hnative hw.1
    change w.host.write m.key m.before = .error e at hwr
    rw [UnixHost.write, hn.native] at hwr
    cases hwr
  · obtain ⟨n, hn, rfl⟩ := write_eq_ok hwr
    obtain ⟨n', hn', -, -⟩ := hnative hw.1
    obtain ⟨rfl, -⟩ := Prod.mk.inj (Except.ok.inj (hn.symm.trans hn'.native))
    have hlive : Live K t boot h₀ j { w with host := w.host.put n m.before } := by
      rw [hn'.before]
      exact hw.1.put n
    obtain ⟨k, hk, -, hread⟩ := hnative hlive
    obtain rfl := Except.ok.inj (hread.symm.trans hr)
    obtain ⟨rfl, -⟩ := Prod.mk.inj (Except.ok.inj (hk.native.symm.trans hn))
    have heq : (w.host.put k m.before).os k = h₀.os k := by
      rw [hn'.before, put_initial_os, if_pos rfl]
    change N.equivalent m.key ((w.host.put k m.before).os k) m.before = false at hne
    cases hne.symm.trans ((hbefore hk).2 heq)

/-- What a restoration of a tracking journal keeps, cut or not. -/
theorem restoring_live (hconfig : j.config.validate = .ok ()) :
    Restoring (platform N length) f j true (Live K t boot h₀ j) (fun w => f ∧ Safe K t boot h₀ w)
      (fun _ w => f ∧ Safe K t boot h₀ w)
      (fun done w => Live K t boot h₀ j w ∧ UndoneAt h₀ j done w.host)
      (fun w => Safe K t boot h₀ w ∧ w.root.find (path t) = none)
      (fun e => f ∨ IsFailure e) (fun _ => f) := by
  have hone : ∀ i < j.mutations.length, Spec f (Live K t boot h₀ j)
      (restoreOne (platform N length) j i true) (fun _ => Live K t boot h₀ j)
      (fun _ w => f ∧ Live K t boot h₀ j w) fun w => f ∧ Safe K t boot h₀ w := fun i hi =>
    (restoreOne_live hi []).mono (fun w hw => ⟨hw, fun k hk => by simp at hk⟩)
      (fun _ _ hw => hw.1) (fun _ _ => id) fun _ hw => ⟨hw.1, hw.2.safe⟩
  have hlive : f → ∀ w, Live K t boot h₀ j w → f ∧ Safe K t boot h₀ w := fun hf w hw =>
    ⟨hf, hw.safe⟩
  refine ⟨fun w hw => ?_, fun _ => ⟨fun i hi => ?_, fun hf w hw => ⟨fun _ => .inl hf,
    hlive hf w hw⟩, fun message => .inr ⟨message, rfl⟩, fun w ts hw => ?_⟩, fun e he => ?_,
    fun w hw => ⟨hw, fun k hk => by simp at hk⟩, fun done i hi => ?_, hone, ?_, ?_, ?_⟩
  · simp [hw.tracks.sameBoot, hw.safe.sameBoot]
  · exact (hone i hi).mono (fun _ => id) (fun _ _ => id) (fun _ _ hw => ⟨.inl hw.1, hw.2⟩)
      fun _ => id
  · exact ⟨hw.safe.congr rfl rfl rfl, hw.tracks, hw.stored⟩
  · rw [hconfig] at he
    cases he
  · exact (restoreOne_live hi done).mono (fun _ => id) (fun _ _ => id) (fun _ _ => id)
      fun _ hw => ⟨hw.1, hw.2.safe⟩
  · rintro hf w (hw | hw)
    · exact ⟨fun _ => hlive hf w hw.1, hlive hf w hw.1⟩
    · exact ⟨fun _ => ⟨hf, hw.1⟩, hf, hw.1⟩
  · rintro w ⟨hw, hd⟩
    have ht : j.transaction = t := by
      have hacc := hw.tracks.accepted
      simp only [accepted, Bool.and_eq_true, decide_eq_true_eq] at hacc
      exact hacc.1.1.2
    have hundone : Undone K h₀ w.host := hw.tracks.undone fun m hm n hn => by
      obtain ⟨i, hi, rfl⟩ := List.mem_iff_getElem.1 hm
      exact hd i (by simp [reverseOrder, hi]) _ (List.getElem?_eq_getElem hi) n hn
    have hfind : (w.removed (path j.transaction)).root.find (path t) = none := by
      simp [World.removed, Root.find_remove, ht]
    exact ⟨⟨hw.safe.sameBoot, hw.safe.confined, .inl ⟨hfind, hundone⟩⟩, hfind⟩
  · rintro w ⟨hw, -⟩ hnone
    refine absurd hnone ?_
    have hacc := hw.tracks.accepted
    simp only [accepted, Bool.and_eq_true, decide_eq_true_eq] at hacc
    rw [hacc.1.1.2]
    exact hw.stored

variable (K t boot h₀) in
/-- What a restoration or a recovery ends in when it returns: without cuts every key is back, and
only the script is complained about. -/
def Restored (f : Prop) (es : List Error) (w : World (UnixHost N)) : Prop :=
  Safe K t boot h₀ w ∧ (es = [] → w.root.find (path t) = none) ∧
    (f ∨ (∀ e ∈ es, IsFailure e) ∧ Undone K h₀ w.host)

theorem Safe.undone (h : Safe K t boot h₀ w) (hnone : w.root.find (path t) = none) :
    Undone K h₀ w.host := by
  rcases h.disk with ⟨-, hu⟩ | ⟨j, length, hfind, -⟩
  · exact hu
  · rw [hnone] at hfind
    cases hfind

/-- **A restoration** of a tracking journal. -/
theorem restore_live : Spec f (Live K t boot h₀ j) (restore (platform N length) j)
    (Restored K t boot h₀ f) (fun _ w => f ∧ Safe K t boot h₀ w)
    (fun w => f ∧ Safe K t boot h₀ w) := by
  refine Spec.intro (fun w hw => hw.tracks.config) fun hconfig => ?_
  refine ((restoring_live hconfig).restore fun hf w hw =>
    ⟨fun _ => ⟨hf, hw.safe⟩, hf, hw.safe⟩).post fun es w hw => ?_
  rcases hw with ⟨rfl, hw, hnone⟩ | ⟨hne, hF, hw, hd⟩ | ⟨-, ⟨e, he, hf⟩, hw⟩
  · exact ⟨hw, fun _ => hnone, .inr ⟨by simp, hw.undone hnone⟩⟩
  · refine ⟨hw.safe, fun hes => absurd hes hne, ?_⟩
    by_cases hf : f
    · exact .inl hf
    · refine .inr ⟨fun e he => (hF e he).resolve_left hf, hw.tracks.undone fun m hm n hn => ?_⟩
      obtain ⟨i, hi, rfl⟩ := List.mem_iff_getElem.1 hm
      exact hd i (by simp [reverseOrder, hi]) _ (List.getElem?_eq_getElem hi) n hn
  · refine ⟨hw.safe, fun hes => ?_, .inl hf⟩
    rw [hes] at he
    cases he

/-- The journal on disk can be loaded. -/
theorem load_safe : Spec f (Safe K t boot h₀) (load t)
    (fun r w => (r = none ∧ Safe K t boot h₀ w ∧ w.root.find (path t) = none) ∨
      ∃ j, r = some j ∧ Live K t boot h₀ j w)
    (fun _ w => f ∧ Safe K t boot h₀ w) (fun w => f ∧ Safe K t boot h₀ w) := by
  refine load_spec (fun hf w hw => ⟨fun _ => ⟨hf, hw⟩, hf, hw⟩)
    (fun w hw hnone => .inl ⟨rfl, hw, hnone⟩) (fun w c j hw hc hl => .inr ⟨j, rfl, ?_⟩)
    fun w c e hw hc hbad => ?_
  · obtain ⟨length, rfl, -⟩ := hl
    rcases hw.disk with ⟨hnone, -⟩ | ⟨j', length', hfind, -, hj⟩
    · rw [hnone] at hc
      cases hc
    · rw [hfind] at hc
      obtain ⟨rfl, -⟩ := Contents.journal.inj (Option.some.inj hc)
      exact ⟨hw, hj, by simp [hfind]⟩
  · rcases hw.disk with ⟨hnone, -⟩ | ⟨j, length, hfind, hle, hj⟩
    · rw [hnone] at hc
      cases hc
    · rw [hfind] at hc
      exact absurd ⟨length, (Option.some.inj hc).symm, hle, hj.accepted, hj.config⟩ (hbad j)

/-- The checks at the start of a program. -/
theorem query_safe {α : Type} {a : α} {I : World (UnixHost N) → Prop}
    (hI : ∀ w, I w → Safe K t boot h₀ w) :
    Spec f I (Io.query fun _ => .ok a) (fun _ => I) (fun (_ : Error) w => f ∧ Safe K t boot h₀ w)
      (fun w => f ∧ Safe K t boot h₀ w) :=
  Spec.query (fun _ _ hw _ => hw) (fun _ _ _ he => by cases he) fun hf w hw =>
    ⟨fun _ => ⟨hf, hI w hw⟩, hf, hI w hw⟩

/-- **A recovery.** -/
theorem recover_live : Spec f (Safe K t boot h₀) (recover (platform N length) t)
    (Restored K t boot h₀ f) (fun _ w => f ∧ Safe K t boot h₀ w)
    (fun w => f ∧ Safe K t boot h₀ w) := by
  refine Spec.bind (Spec.orFail (query_safe fun _ => id)) fun _ => ?_
  refine Spec.bind (query_safe fun _ => id) fun _ => ?_
  refine Spec.bind load_safe fun r => ?_
  cases r with
  | none =>
    refine Spec.pure fun w hw => ?_
    rcases hw with ⟨-, hw, hnone⟩ | ⟨j, hr, -⟩
    · exact ⟨hw, fun _ => hnone, .inr ⟨by simp, hw.undone hnone⟩⟩
    · cases hr
  | some j =>
    refine restore_live.pre fun w hw => ?_
    rcases hw with ⟨hr, -⟩ | ⟨j', hr, hw⟩
    · cases hr
    · exact Option.some.inj hr ▸ hw

/-! ### Journals of one plan -/

/-- The mutation without what was observed of it. -/
def bare (m : Mutation) : Mutation := { m with applied := none }

/-- The journal is one of the plan, and what it recorded is in force. -/
structure Current (plan : List Mutation) (j : Journal) (h : UnixHost N) : Prop where
  plan : j.mutations.map bare = plan.map bare
  applied : ∀ m ∈ j.mutations, m.applied = none ∨
    ∀ n, nativeKey h.ifIndex m.key = .ok (n, false) →
      h.os n = m.applied ∧ N.equivalent m.key (h.os n) m.intended = true

section Record

variable {h : UnixHost N} {m : Mutation} {i : ℕ} {plan : List Mutation} {v : Option Value}

theorem mem_setApplied {m' : Mutation} (hm : m' ∈ (j.setApplied i v).mutations) :
    m' ∈ j.mutations ∨ ∃ m, j.mutations[i]? = some m ∧ m' = { m with applied := v } := by
  obtain ⟨k, hk⟩ := List.mem_iff_getElem?.1 hm
  rw [Journal.setApplied, List.getElem?_modify] at hk
  split_ifs at hk with hik
  · obtain ⟨m, hfound, rfl⟩ := Option.map_eq_some_iff.1 hk
    exact .inr ⟨m, hik ▸ hfound, rfl⟩
  · exact .inl (List.mem_of_getElem? (by simpa using hk))

theorem map_bare_setApplied :
    (j.setApplied i v).mutations.map bare = j.mutations.map bare := by
  refine List.ext_getElem? fun k => ?_
  rw [List.getElem?_map, List.getElem?_map, Journal.setApplied, List.getElem?_modify]
  split_ifs with hik
  · cases j.mutations[k]? with
    | none => rfl
    | some m => rfl
  · cases j.mutations[k]? with
    | none => rfl
    | some m => rfl

theorem map_key_setApplied :
    (j.setApplied i v).mutations.map (·.key) = j.mutations.map (·.key) := by
  have hkey : ∀ ms : List Mutation, ms.map (·.key) = (ms.map bare).map (·.key) := by simp [bare]
  rw [hkey (j.setApplied i v).mutations, hkey j.mutations, map_bare_setApplied]

/-- Another operation is pending. -/
theorem Tracks.pending (hj : Tracks K t boot h₀ j h) {p : Option ℕ}
    (hp : p.all (· < j.mutations.length) = true) :
    Tracks K t boot h₀ { j with pendingOperation := p } h := by
  refine ⟨?_, hj.config, hj.sameBoot, hj.keys, hj.distinct, hj.native, hj.rest⟩
  have hacc := hj.accepted
  unfold Net.accepted at hacc ⊢
  rw [Bool.and_eq_true] at hacc ⊢
  exact ⟨hacc.1, hp⟩

/-- Recording the value of a key that is as intended. -/
theorem Tracks.record (hj : Tracks K t boot h₀ j h) (hm : j.mutations[i]? = some m)
    (hn : nativeKey h.ifIndex m.key = .ok (n, false))
    (hv : N.equivalent m.key (h.os n) m.intended = true) :
    Tracks K t boot h₀ (j.setApplied i (h.os n)) h := by
  have hkeys : ∀ m' ∈ (j.setApplied i (h.os n)).mutations, ∃ m ∈ j.mutations, m'.key = m.key := by
    intro m' hm'
    rcases mem_setApplied hm' with hm' | ⟨m, hm, rfl⟩
    · exact ⟨m', hm', rfl⟩
    · exact ⟨m, List.mem_of_getElem? hm, rfl⟩
  refine ⟨?_, hj.config, hj.sameBoot, fun m' hm' => ?_, by
    rw [map_key_setApplied]
    exact hj.distinct, fun m₁ h₁ m₂ h₂ => ?_, fun k hk hne => hj.rest k hk fun m' hm' => ?_⟩
  · have hacc := hj.accepted
    unfold Net.accepted at hacc ⊢
    simp only [Journal.setApplied, List.length_modify]
    exact hacc
  · rcases mem_setApplied hm' with hm' | ⟨m₀, hm₀, rfl⟩
    · exact hj.keys m' hm'
    · obtain rfl := Option.some.inj (hm.symm.trans hm₀)
      obtain ⟨k, hk⟩ := hj.keys m (List.mem_of_getElem? hm)
      obtain ⟨rfl, -⟩ := Prod.mk.inj (Except.ok.inj (hk.native.symm.trans hn))
      refine ⟨k, hk.native, hk.planned, hk.before, hk.value.imp_right fun ho => ⟨ho.intended, ?_,
        ho.present⟩⟩
      show N.equivalent m.key (h.os k) ((h.os k).or m.intended) = true
      cases hos : h.os k with
      | none => simpa [hos] using hv
      | some v => exact N.equivalent_refl _ _
  · obtain ⟨m₁', hm₁, hk₁⟩ := hkeys m₁ h₁
    obtain ⟨m₂', hm₂, hk₂⟩ := hkeys m₂ h₂
    rw [hk₁, hk₂]
    exact hj.native m₁' hm₁ m₂' hm₂
  · obtain ⟨i', hi'⟩ := List.mem_iff_getElem?.1 hm'
    have hkey : ((j.setApplied i (h.os n)).mutations.map (·.key))[i']? = some m'.key := by
      rw [map_key_setApplied, List.getElem?_map, hi']
      rfl
    rw [List.getElem?_map] at hkey
    obtain ⟨m'', hm'', heq⟩ := Option.map_eq_some_iff.1 hkey
    exact heq ▸ hne m'' (List.mem_of_getElem? hm'')

/-- The record of the value of a key that is as intended is current. -/
theorem Current.record (hc : Current plan j h) (hm : j.mutations[i]? = some m)
    (hn : nativeKey h.ifIndex m.key = .ok (n, false))
    (hv : N.equivalent m.key (h.os n) m.intended = true) :
    Current plan (j.setApplied i (h.os n)) h := by
  refine ⟨map_bare_setApplied.trans hc.plan, fun m' hm' => ?_⟩
  rcases mem_setApplied hm' with hm' | ⟨m₀, hm₀, rfl⟩
  · exact hc.applied m' hm'
  · obtain rfl := Option.some.inj (hm.symm.trans hm₀)
    refine .inr fun k hk => ?_
    obtain ⟨rfl, -⟩ := Prod.mk.inj (Except.ok.inj (hk.symm.trans hn))
    exact ⟨rfl, hv⟩

/-- Writing a key that is not as intended: it was not applied before. -/
theorem Current.write (hc : Current plan j h) (hj : Tracks K t boot h₀ j h) (hm : m ∈ j.mutations)
    (hn : nativeKey h.ifIndex m.key = .ok (n, false))
    (hne : N.equivalent m.key (h.os n) m.intended = false) :
    m.applied = none ∧ Current plan j (h.put n m.intended) := by
  have happlied : m.applied = none := by
    refine (hc.applied m hm).resolve_right fun h' => ?_
    rw [(h' n hn).2] at hne
    cases hne
  refine ⟨happlied, hc.plan, fun m' hm' => ?_⟩
  rcases hc.applied m' hm' with hnone | hsome
  · exact .inl hnone
  · by_cases hmm : m' = m
    · exact .inl (hmm ▸ happlied)
    · refine .inr fun k hk => ?_
      have hkn : k ≠ n := fun hkn => hmm (hj.eq_of_native hm' hm (hkn ▸ hk) hn)
      rw [UnixHost.put_os, if_neg hkn]
      exact hsome k hk

end Record

/-! ### Applying a plan -/

variable (K t boot h₀) in
/-- The journal in memory is `j`. -/
structure Holding (plan : List Mutation) (j : Journal) (w : World (UnixHost N)) : Prop where
  memory : w.memory = some j
  live : Live K t boot h₀ j w
  current : Current plan j w.host

variable (K t boot h₀) in
/-- A journal of the plan is in memory. -/
def Held (plan : List Mutation) (w : World (UnixHost N)) : Prop :=
  ∃ j, Holding K t boot h₀ plan j w

section Held

variable {plan : List Mutation}

theorem memory_held : Spec True (Held K t boot h₀ plan) (memory : Prog (UnixHost N) Journal)
    (fun j => Holding K t boot h₀ plan j) (fun _ => Held K t boot h₀ plan)
    (Held K t boot h₀ plan) := by
  refine Spec.bind (R := fun r w => Held K t boot h₀ plan w ∧ r = w.memory)
    (Spec.get fun _ hw => ⟨hw, rfl⟩) fun r => ?_
  cases r with
  | none => exact Spec.panic fun w hw => ⟨trivial, hw.1⟩
  | some j =>
    refine Spec.pure fun w hw => ?_
    obtain ⟨⟨j', hj'⟩, hr⟩ := hw
    obtain rfl := Option.some.inj (hr.trans hj'.memory)
    exact hj'

/-- Whatever the journal in memory is changed to, if it still tracks the host. -/
theorem setMemory_held {j' : Journal} {I : World (UnixHost N) → Prop}
    (hI : ∀ w, I w → ∃ j, Holding K t boot h₀ plan j w ∧ Tracks K t boot h₀ j' w.host ∧
      Current plan j' w.host) {E : Error → World (UnixHost N) → Prop}
    {C : World (UnixHost N) → Prop} :
    Spec f I (setMemory j' : Prog (UnixHost N) Unit)
      (fun _ => Holding K t boot h₀ plan j') E C := by
  refine Spec.modify fun w hw => ?_
  obtain ⟨j, hj, ht, hc⟩ := hI w hw
  exact ⟨rfl, ⟨hj.live.safe.congr rfl rfl rfl, ht, hj.live.stored⟩, hc⟩

/-- The file names of a transaction differ. -/
theorem path_ne_pendingPath (t : TransactionId) : path t ≠ pendingPath t := fun heq => by
  have := path_isJson t
  rw [heq, pendingPath_isJson] at this
  cases this

theorem Tracks.transaction (hj : Tracks K t boot h₀ j h) : j.transaction = t := by
  have hacc := hj.accepted
  simp only [Net.accepted, Bool.and_eq_true, decide_eq_true_eq] at hacc
  exact hacc.1.1.2

/-- A commit of a journal that tracks the host. -/
theorem Safe.commit (hw : Safe K t boot h₀ w) (hj : Tracks K t boot h₀ j w.host) {len : ℕ}
    (hle : len ≤ maxJournalBytes) : Safe K t boot h₀ (w.commit j len) ∧
      (w.commit j len).root.find (path t) = some (.journal j len) := by
  have hfind : (w.commit j len).root.find (path t) = some (.journal j len) := by
    simp [World.commit, Root.find_put, hj.transaction]
  exact ⟨⟨hw.sameBoot, hw.confined, .inr ⟨j, len, hfind, hle, hj⟩⟩, hfind⟩

/-- Saving the journal in memory. -/
theorem save_held : Spec True (Holding K t boot h₀ plan j) (save (platform N length) j)
    (fun _ w => Holding K t boot h₀ plan j w ∧ w.root.find (path t) =
      some (.journal j (length j)) ∧ length j ≤ maxJournalBytes)
    (fun _ => Held K t boot h₀ plan) (Held K t boot h₀ plan) := by
  refine save_spec (fun _ w hw => ⟨fun _ => ⟨j, hw⟩, j, hw⟩)
    (fun _ w hw => ⟨fun _ => ⟨j, hw.1⟩, j, hw.1⟩) (fun w c hw => ?_) (fun _ w hw => ⟨j, hw⟩)
    fun hle w hw => ?_
  · have hfind : (w.root.put (pendingPath j.transaction) c).find (path t) =
        w.root.find (path t) := by
      rw [Root.find_put, hw.live.tracks.transaction, if_neg (path_ne_pendingPath t)]
    refine ⟨hw.memory, ⟨hw.live.safe.congr rfl rfl hfind, hw.live.tracks, ?_⟩, hw.current⟩
    show (w.root.put (pendingPath j.transaction) c).find (path t) ≠ none
    rw [hfind]
    exact hw.live.stored
  · obtain ⟨hsafe, hfind⟩ := hw.live.safe.commit hw.live.tracks hle
    exact ⟨⟨hw.memory, ⟨hsafe, hw.live.tracks, by rw [hfind]; simp⟩, hw.current⟩, hfind, hle⟩

/-- A step of the operating system that keeps the journal, which is on disk, tracking. -/
theorem Holding.onHost (hw : Holding K t boot h₀ plan j w)
    (hfind : w.root.find (path t) = some (.journal j (length j)))
    (hle : length j ≤ maxJournalBytes) {v : UnixHost N} (hconf : Confined K v)
    (hj : Tracks K t boot h₀ j v) (hc : Current plan j v) :
    Holding K t boot h₀ plan j { w with host := v } :=
  ⟨hw.memory, ⟨⟨hw.live.safe.sameBoot, hconf, .inr ⟨j, _, hfind, hle, hj⟩⟩, hj, hw.live.stored⟩, hc⟩

variable (K t boot h₀) in
/-- A host that the journal of a plan tracks. -/
structure Fit (plan : List Mutation) (j : Journal) (h : UnixHost N) : Prop where
  tracks : Tracks K t boot h₀ j h
  current : Current plan j h
  confined : Confined K h

variable (K t boot h₀) in
/-- The key of `m` was found as intended, with the value `a`. -/
def Found (plan : List Mutation) (j : Journal) (m : Mutation) (a : Option Value)
    (h : UnixHost N) : Prop :=
  Fit K t boot h₀ plan j h ∧ ∃ n, nativeKey h.ifIndex m.key = .ok (n, false) ∧ a = h.os n ∧
    N.equivalent m.key a m.intended = true

section ApplyOne

variable {m item : Mutation}

theorem read_fit (hm : m ∈ j.mutations) :
    Spec True (Fit K t boot h₀ plan j) (Io.query fun h => h.read m.key)
      (fun a h => Fit K t boot h₀ plan j h ∧ ∃ n, Tracked K h₀ h m n ∧ a = h.os n)
      (fun (_ : Error) => Fit K t boot h₀ plan j) (Fit K t boot h₀ plan j) := by
  refine Spec.query (fun h a hh ha => ⟨hh, ?_⟩) (fun _ _ hh _ => hh) fun _ h hh =>
    ⟨fun _ => hh, hh⟩
  obtain ⟨n, hn⟩ := hh.tracks.keys m hm
  rw [UnixHost.read, hn.native] at ha
  exact ⟨n, hn, (Except.ok.inj ha).symm⟩

theorem await_spec (hm : m ∈ j.mutations) (hkey : item.key = m.key)
    (hintended : item.intended = m.intended) (polls : ℕ) :
    Spec True (Fit K t boot h₀ plan j) (await item polls) (Found K t boot h₀ plan j m)
      (fun _ => Fit K t boot h₀ plan j) (Fit K t boot h₀ plan j) := by
  -- what ends a round with a value as intended
  have hfound : ∀ a h, (Fit K t boot h₀ plan j h ∧ ∃ n, Tracked K h₀ h m n ∧ a = h.os n) →
      N.equivalent m.key a m.intended = true → Found K t boot h₀ plan j m a h := by
    rintro a h ⟨hh, n, hn, rfl⟩ heq
    exact ⟨hh, n, hn.native, rfl, heq⟩
  induction polls with
  | zero =>
    unfold await
    rw [hkey, hintended]
    refine Spec.bind (read_fit hm) fun a => ?_
    split
    · next heq => exact Spec.pure fun h hh => hfound a h hh heq
    · exact Spec.fail fun h hh => hh.1
  | succ polls ih =>
    unfold await
    rw [hkey, hintended]
    refine Spec.bind (read_fit hm) fun a => ?_
    split
    · next heq => exact Spec.pure fun h hh => hfound a h hh heq
    split
    · exact ih.pre fun h hh => hh.1
    · exact Spec.fail fun h hh => hh.1

/-- **Applying one mutation.**  It writes its key only when it was not applied before. -/
theorem applyOne_spec (hm : m ∈ j.mutations) (hitem : bare item = bare m)
    (config : NetworkConfig) :
    Spec True (Fit K t boot h₀ plan j) (applyOne config item) (Found K t boot h₀ plan j m)
      (fun _ => Fit K t boot h₀ plan j) (Fit K t boot h₀ plan j) := by
  have hkey : (bare item).key = (bare m).key := by rw [hitem]
  have hintended : (bare item).intended = (bare m).intended := by rw [hitem]
  change item.key = m.key at hkey
  change item.intended = m.intended at hintended
  have hawait : Spec True (Fit K t boot h₀ plan j) (await item N.polls)
      (Found K t boot h₀ plan j m) (fun _ => Fit K t boot h₀ plan j) (Fit K t boot h₀ plan j) :=
    await_spec hm hkey hintended N.polls
  unfold applyOne
  rw [hkey, hintended]
  refine Spec.bind (read_fit hm) fun a => ?_
  split
  · exact Spec.fail fun h hh => hh.1
  split
  · exact hawait.pre fun h hh => hh.1
  next hne =>
  have hne : N.equivalent m.key a m.intended = false := by simpa using hne
  have hwrite : ∀ h h', (Fit K t boot h₀ plan j h ∧ ∃ n, Tracked K h₀ h m n ∧ a = h.os n) →
      h.write m.key m.intended = .ok h' → Fit K t boot h₀ plan j h' := by
    rintro h h' ⟨hh, n, hn, rfl⟩ hw
    obtain ⟨k, hk, rfl⟩ := write_eq_ok hw
    obtain ⟨rfl, -⟩ := Prod.mk.inj (Except.ok.inj (hk.symm.trans hn.native))
    obtain ⟨happlied, hc⟩ := hh.current.write hh.tracks hm hk hne
    exact ⟨hh.tracks.apply hm hk happlied, hc, hh.confined⟩
  refine Spec.bind (R := fun _ => Fit K t boot h₀ plan j) (Spec.act hwrite (fun _ _ hh _ => hh.1)
    fun _ h hh => ⟨fun _ => hh.1, hh.1, fun h' hw => ⟨fun _ => hwrite h h' hh hw, hwrite h h' hh hw⟩⟩)
    fun _ => hawait

end ApplyOne

theorem Current.length_eq {h : UnixHost N} (hc : Current plan j h) :
    j.mutations.length = plan.length := by
  have := congrArg List.length hc.plan
  simpa using this

/-- **One operation of the connect script.** -/
theorem applyOperation_held {inventory : List Mutation} (hplan : inventory.map bare = plan.map bare)
    {i : ℕ} (hi : i < plan.length) (config : NetworkConfig) :
    Keeps True (Held K t boot h₀ plan) (applyOperation (platform N length)
      { resolve := fun h => resolve h.ifIndex, applyOne } config inventory i) := by
  unfold applyOperation
  refine Spec.bind memory_held fun j => ?_
  refine Spec.intro (fun w hw => hw.current.length_eq) fun hlen => ?_
  set j₁ : Journal := { j with pendingOperation := some i } with hj₁
  -- the intent is durable before the host is touched
  have hpending : (some i : Option ℕ).all (· < j.mutations.length) = true := by simp [hlen, hi]
  refine Spec.bind (R := fun _ => Holding K t boot h₀ plan j₁) (setMemory_held fun w hw =>
    ⟨j, hw, hw.live.tracks.pending hpending, hw.current.plan, hw.current.applied⟩) fun _ => ?_
  refine Spec.bind save_held fun _ => ?_
  have hitem : ∃ item m, inventory[i]? = some item ∧ j₁.mutations[i]? = some m ∧
      (j₁.mutations.map bare = plan.map bare → bare item = bare m) := by
    have hlen' : inventory.length = plan.length := by simpa using congrArg List.length hplan
    have hlt : i < inventory.length := by omega
    have hlt' : i < j₁.mutations.length := by
      simp only [hj₁]
      omega
    refine ⟨inventory[i], j₁.mutations[i], List.getElem?_eq_getElem hlt,
      List.getElem?_eq_getElem hlt', fun hj => ?_⟩
    have hboth := congrArg (·[i]?) (hplan.trans hj.symm)
    simpa [List.getElem?_map, List.getElem?_eq_getElem hlt, List.getElem?_eq_getElem hlt']
      using hboth
  obtain ⟨item, m, hinv, hm, hbare⟩ := hitem
  rw [hinv]
  refine Spec.intro (fun w hw => hbare hw.1.current.plan) fun hbare => ?_
  have hmem : m ∈ j₁.mutations := List.mem_of_getElem? hm
  refine Spec.bind (R := fun a w => Holding K t boot h₀ plan j₁ w ∧
      ∃ n, nativeKey w.host.ifIndex m.key = .ok (n, false) ∧ a = w.host.os n ∧
        N.equivalent m.key a m.intended = true) ?_ fun a => ?_
  · refine Spec.zoom fun w hw => ?_
    have hput : ∀ v, Fit K t boot h₀ plan j₁ v → Holding K t boot h₀ plan j₁ { w with host := v } :=
      fun v hv => hw.1.onHost hw.2.1 hw.2.2 hv.confined hv.tracks hv.current
    have happly : Spec True (Fit K t boot h₀ plan j₁) (applyOne config item)
        (Found K t boot h₀ plan j₁ m) (fun _ => Fit K t boot h₀ plan j₁)
        (Fit K t boot h₀ plan j₁) := applyOne_spec hmem hbare config
    refine happly.mono ?_ ?_ ?_ ?_
    · rintro _ rfl
      exact ⟨hw.1.live.tracks, hw.1.current, hw.1.live.safe.confined⟩
    · exact fun a v hv => ⟨hput v hv.1, hv.2⟩
    · exact fun _ v hv => ⟨j₁, hput v hv⟩
    · exact fun v hv => ⟨j₁, hput v hv⟩
  · refine Spec.bind (R := fun _ => Holding K t boot h₀ plan
      { j₁.setApplied i a with pendingOperation := none }) (setMemory_held fun w hw => ?_)
      fun _ => save_held.post fun _ w hw => ⟨_, hw.1⟩
    obtain ⟨hw, n, hn, rfl, heq⟩ := hw
    have hc := hw.current.record hm hn heq
    exact ⟨j₁, hw, (hw.live.tracks.record hm hn heq).pending rfl, hc.plan, hc.applied⟩

/-- A program that only looks at the operating system. -/
theorem onHost_held {α : Type} {x : HostProg (UnixHost N) α}
    (hx : ∀ h₁, Keeps True (· = h₁) x) : Keeps True (Held K t boot h₀ plan) (onHost x) :=
  Spec.zoom fun w hw => (hx w.host).mono (fun _ => id)
    (by rintro _ _ rfl; exact hw) (by rintro _ _ rfl; exact hw) (by rintro _ rfl; exact hw)

theorem observe_keeps (config : NetworkConfig) (h₁ : UnixHost N) :
    Keeps True (· = h₁) (observe config) := by
  refine Keeps.bind ?_ fun _ => Keeps.bind Keeps.query fun identity => ?_
  · cases config.validate with
    | ok u => exact Keeps.pure
    | error fault =>
      cases fault with
      | error e => exact Keeps.fail
      | panic => exact Keeps.panic trivial
  · split
    · exact Keeps.fail
    · exact Keeps.query

/-- **Applying and verifying a plan.** -/
theorem verified_held (reason : NetworkReason) :
    Keeps True (Held K t boot h₀ plan) (verified (platform N length) reason) := by
  have hmemory : ∀ {α : Type} {g : Journal → Prog (UnixHost N) α},
      (∀ j, Spec True (Holding K t boot h₀ plan j) (g j) (fun _ => Held K t boot h₀ plan)
        (fun _ => Held K t boot h₀ plan) (Held K t boot h₀ plan)) →
      Keeps True (Held K t boot h₀ plan) (memory >>= g) := fun hg => Spec.bind memory_held hg
  have hold : ∀ {α : Type} {x : Prog (UnixHost N) α} (j : Journal),
      Keeps True (Held K t boot h₀ plan) x →
      Spec True (Holding K t boot h₀ plan j) x (fun _ => Held K t boot h₀ plan)
        (fun _ => Held K t boot h₀ plan) (Held K t boot h₀ plan) := fun j hx =>
    Spec.pre hx fun w hw => ⟨j, hw⟩
  refine Keeps.bind (hmemory fun j => ?_) fun _ => hmemory fun j => hold j ?_
  · refine Spec.intro (fun w hw => hw.current.plan) fun hplan => hold j ?_
    have hlen : j.mutations.length = plan.length := by simpa using congrArg List.length hplan
    refine Keeps.bind (Keeps.forEach fun m _ => Keeps.bind Keeps.query fun current => ?_) fun _ => ?_
    · split
      · exact Keeps.pure
      · exact Keeps.fail
    · refine (applyScript_spec (F := fun _ => True) ⟨fun i hi => ?_, fun _ w hw =>
        ⟨fun _ => True.intro, hw⟩, fun _ => True.intro, fun w ts hw => ?_⟩ _
        (fun _ _ => True.intro) (.inr fun _ => True.intro)).mono (fun _ => id) (fun _ _ => id)
        (fun _ _ hw => hw.2) fun _ => id
      · exact (applyOperation_held hplan (hlen ▸ hi) j.config).mono (fun _ => id) (fun _ _ => id)
          (fun _ _ hw => ⟨True.intro, hw⟩) fun _ => id
      · obtain ⟨j', hj'⟩ := hw
        exact ⟨j', hj'.memory, ⟨hj'.live.safe.congr rfl rfl rfl, hj'.live.tracks,
          hj'.live.stored⟩, hj'.current⟩
  · refine Keeps.bind (Keeps.forEach fun i _ => hmemory fun j => ?_) fun _ =>
      hmemory fun j => Spec.bind (save_held.post fun _ w hw => ⟨j, hw.1⟩) fun _ =>
        onHost_held fun h₁ => observe_keeps j.config h₁
    cases hm : j.mutations[i]? with
    | none => exact Spec.panic fun w hw => ⟨trivial, j, hw⟩
    | some m =>
      refine Spec.bind (R := fun a w => Holding K t boot h₀ plan j w ∧
          ∃ n, nativeKey w.host.ifIndex m.key = .ok (n, false) ∧ a = w.host.os n)
        (Spec.query (fun w a hw ha => ⟨hw, ?_⟩) (fun _ _ hw _ => ⟨j, hw⟩)
          fun _ w hw => ⟨fun _ => ⟨j, hw⟩, j, hw⟩) fun a => ?_
      · obtain ⟨n, hn⟩ := hw.live.tracks.keys m (List.mem_of_getElem? hm)
        change w.host.read m.key = .ok a at ha
        rw [UnixHost.read, hn.native] at ha
        exact ⟨n, hn.native, (Except.ok.inj ha).symm⟩
      · split
        · next heq =>
          refine (setMemory_held fun w hw => ?_).post fun _ w hw => ⟨_, hw⟩
          obtain ⟨hw, n, hn, rfl⟩ := hw
          exact ⟨j, hw, hw.live.tracks.record hm hn heq, hw.current.record hm hn heq⟩
        · exact Spec.fail fun w hw => ⟨j, hw.1⟩

/-! ### The lifecycle -/

/-- The journal of a plan, before anything is applied. -/
def fresh (t : TransactionId) (boot : String) (config : NetworkConfig) (ms : List Mutation) :
    Journal :=
  { version := 1, transaction := t, bootId := boot, config, mutations := ms
    pendingOperation := none }

variable (boot) in
/-- The mutations of a plan track the host they were planned on. -/
theorem plan_spec {h₁ : UnixHost N} (hconf : Confined K h₁) (hundone : Undone K h₀ h₁)
    (config : NetworkConfig) :
    Spec True (· = h₁) (Unix.plan config t) (fun ms h => h = h₁ ∧
      (ms.length ≤ maxMutations → Tracks K t boot h₀ (fresh t boot config ms) h₁) ∧
      ∀ m ∈ ms, m.applied = none) (fun _ => (· = h₁)) (· = h₁) := by
  have hquery : ∀ {α : Type} {g : UnixHost N → Except Error α},
      Spec True (· = h₁) (Io.query g) (fun a h => g h₁ = .ok a ∧ h = h₁) (fun _ => (· = h₁))
        (· = h₁) := fun {_ _} =>
    Spec.query (fun h a hh ha => ⟨hh ▸ ha, hh⟩) (fun _ _ hh _ => hh) fun _ h hh =>
      ⟨fun _ => hh, hh⟩
  unfold Unix.plan
  refine Spec.bind (R := fun _ h => config.validate = .ok () ∧ h = h₁) ?_ fun _ => ?_
  · cases hv : config.validate with
    | ok u => exact Spec.pure fun h hh => ⟨rfl, hh⟩
    | error fault =>
      cases fault with
      | error e => exact Spec.fail fun h hh => hh
      | panic => exact absurd hv config.validate_safe
  refine Spec.intro (fun h hh => hh.1) fun hvalid => Spec.pre ?_ fun h hh => hh.2
  split
  · exact Spec.fail fun h hh => hh
  refine Spec.bind (R := fun _ => (· = h₁)) (Spec.ofExcept (fun _ _ hh _ => hh)
    fun _ _ hh _ => hh) fun _ => ?_
  refine Spec.bind (hquery.post fun _ _ hh => hh.2) fun identity => ?_
  split
  · exact Spec.fail fun h hh => hh
  refine Spec.bind (hquery.post fun _ _ hh => hh.2) fun _ => ?_
  refine Spec.bind hquery fun items => ?_
  refine Spec.intro (fun h hh => hh.1) fun hitems => Spec.pre ?_ fun h hh => hh.2
  -- the planned values are known: they are a function of the host
  obtain rfl := Except.ok.inj hitems
  refine Spec.bind (mutations_spec _) fun all => ?_
  refine Spec.intro (fun h hh => hh.2) fun hall => Spec.pre ?_ fun h hh => hh.1
  refine Spec.ofExcept (fun h ms hh hms => ⟨hh, fun hlen => ?_, fun m hm => ?_⟩)
    fun _ _ hh _ => hh
  -- each mutation that is kept comes from a planned value of the host
  · have hkeys : ∀ m ∈ ms, ∃ item : Planned, keyOf h₁.ifIndex item.kind item.name = .ok m.key ∧
        nativeKey h₁.ifIndex m.key = .ok (item.key, false) ∧ m.before = h₁.os item.key ∧
        K item.key := by
      intro m hm
      have hmem := (distinct_subset hms m hm).resolve_left (by simp)
      obtain ⟨item, hitem, heq⟩ := hall m hmem
      obtain ⟨hplain, hk⟩ := hconf config item hitem
      obtain ⟨hkey, hnative, hbefore, -⟩ := mutation_eq_ok hplain heq
      exact ⟨item, hkey, hnative, hbefore, hk⟩
    refine ⟨?_, hvalid, rfl, fun m hm => ?_, distinct_nodup hms (by simp), ?_, fun n hn _ =>
      hundone n hn⟩
    · simp [Net.accepted, fresh, hlen]
    · obtain ⟨item, -, hnative, hbefore, hk⟩ := hkeys m hm
      exact ⟨item.key, hnative, hk, hbefore.trans (hundone _ hk), .inl (hundone _ hk)⟩
    · intro m hm m' hm' n hn hn'
      obtain ⟨item, hkey, hnative, -⟩ := hkeys m hm
      obtain ⟨item', hkey', hnative', -⟩ := hkeys m' hm'
      have heq : item.key = item'.key := by
        obtain ⟨h₁, -⟩ := Prod.mk.inj (Except.ok.inj (hnative.symm.trans hn))
        obtain ⟨h₂, -⟩ := Prod.mk.inj (Except.ok.inj (hnative'.symm.trans hn'))
        exact h₁.trans h₂.symm
      obtain ⟨hkind, hname⟩ := Key.mk.inj heq
      rw [hkind, hname, hkey'] at hkey
      exact (Except.ok.inj hkey).symm
  · have hmem := (distinct_subset hms m hm).resolve_left (by simp)
    obtain ⟨item, hitem, heq⟩ := hall m hmem
    exact (mutation_eq_ok (hconf config item hitem).1 heq).2.2.2

/-- Planning, journaling, applying and verifying a configuration. -/
theorem configure_safe (reason : NetworkReason) (config : Option NetworkConfig) :
    Keeps True (Safe K t boot h₀) (configure (platform N length) t reason config) := by
  unfold configure
  refine Spec.bind (R := fun names w => Safe K t boot h₀ w ∧ names = w.root.names)
    (Spec.orFail (Spec.query (fun w names hw hn => ⟨hw, (Except.ok.inj hn).symm⟩)
      (fun _ _ hw _ => hw) fun _ w hw => ⟨fun _ => hw, hw⟩)) fun names => ?_
  split
  · exact Spec.fail fun w hw => hw.1
  next hjson =>
  -- the directory holds no journal, so there is nothing to undo
  suffices hempty : Spec True (fun w => Safe K t boot h₀ w ∧ w.root.find (path t) = none) _
      (fun _ => Safe K t boot h₀) (fun _ => Safe K t boot h₀) (Safe K t boot h₀) from
    hempty.pre fun w hw => ⟨hw.1, by_contra fun hne => hjson (List.any_eq_true.2
      ⟨path t, hw.2 ▸ Root.mem_names.2 hne, path_isJson t⟩)⟩
  cases config with
  | none => exact Spec.fail fun w hw => hw.1
  | some config =>
    refine Spec.bind (R := fun ms w => (Safe K t boot h₀ w ∧ w.root.find (path t) = none) ∧
      (ms.length ≤ maxMutations → Tracks K t boot h₀ (fresh t boot config ms) w.host) ∧
        ∀ m ∈ ms, m.applied = none) ?_ fun ms => ?_
    · refine Spec.zoom fun w hw => (plan_spec (t := t) boot hw.1.confined (hw.1.undone hw.2)
        config).mono (fun _ => id) ?_ ?_ ?_
      · rintro ms _ ⟨rfl, hms⟩
        exact ⟨hw, hms⟩
      · rintro _ _ rfl
        exact hw.1
      · rintro _ rfl
        exact hw.1
    split
    · exact Spec.fail fun w hw => hw.1.1
    next hlen =>
    have hle : ms.length ≤ maxMutations := by omega
    refine Spec.bind (R := fun b w => b = boot ∧ (Safe K t boot h₀ w ∧
        w.root.find (path t) = none) ∧ Tracks K t boot h₀ (fresh t boot config ms) w.host ∧
          ∀ m ∈ ms, m.applied = none) (Spec.query (fun w b hw hb => ?_) (fun _ _ hw _ => hw.1.1)
        fun _ w hw => ⟨fun _ => hw.1.1, hw.1.1⟩) fun b => ?_
    · exact ⟨(Except.ok.inj hb).symm.trans hw.1.1.sameBoot, hw.1, hw.2.1 hle, hw.2.2⟩
    refine Spec.intro (fun w hw => hw.1) fun hb => Spec.pre ?_ fun w hw => hw.2
    subst hb
    refine Spec.intro (fun w hw => hw.2.2) fun happlied => Spec.pre ?_ fun w hw =>
      And.intro hw.1 hw.2.1
    have hcurrent : ∀ h : UnixHost N, Current ms (fresh t b config ms) h := fun h =>
      ⟨rfl, fun m hm => .inl (happlied m hm)⟩
    have htransaction : (fresh t b config ms).transaction = t := rfl
    refine Spec.bind (R := fun _ => Live K t b h₀ (fresh t b config ms)) (save_spec
      (I := fun w => (Safe K t b h₀ w ∧ w.root.find (path t) = none) ∧
        Tracks K t b h₀ (fresh t b config ms) w.host)
      (fun _ w hw => ⟨fun _ => hw.1.1, hw.1.1⟩) (fun _ w hw => ⟨fun _ => hw.safe, hw.safe⟩)
      (fun w c hw => ?_) (fun _ w hw => hw.1.1) fun hlong w hw => ?_) fun _ => ?_
    · have hfind : (w.root.put (pendingPath t) c).find (path t) = w.root.find (path t) := by
        rw [Root.find_put, if_neg (path_ne_pendingPath t)]
      exact ⟨⟨hw.1.1.congr rfl rfl hfind, hfind.trans hw.1.2⟩, hw.2⟩
    · obtain ⟨hsafe, hfind⟩ := hw.1.1.commit hw.2 hlong
      exact ⟨hsafe, hw.2, fun hnone => by cases hfind.symm.trans hnone⟩
    refine Spec.bind (R := fun _ => Held K t b h₀ ms) (Spec.modify fun w hw =>
      ⟨fresh t b config ms, rfl, ⟨hw.safe.congr rfl rfl rfl, hw.tracks, hw.stored⟩,
        hcurrent w.host⟩) fun _ => ?_
    have hheld : ∀ w, Held K t b h₀ ms w → Safe K t b h₀ w := fun w ⟨j, hj⟩ => hj.live.safe
    refine Spec.bind ((Keeps.attempt (verified_held reason)).mono (fun _ => id) (fun _ _ => id)
      (fun _ => hheld) hheld) fun result => ?_
    cases result with
    | ok v => exact Spec.pure hheld
    | error e =>
      refine Spec.bind (memory_held.mono (fun _ => id) (fun _ _ => id) (fun _ => hheld) hheld)
        fun j => ?_
      refine Spec.bind (R := fun _ => Safe K t b h₀) (restore_live.mono (fun w hw => hw.live)
        (fun _ _ hw => hw.1) (fun _ _ hw => hw.2) fun _ hw => hw.2) fun warnings => ?_
      split
      · exact Spec.fail fun _ => id
      · exact Spec.fail fun _ => id

theorem lifecycle_safe (input : LifecycleInput) :
    Keeps True (Safe K t boot h₀) (lifecycle (platform N length) t input) := by
  have hsafe : ∀ {α : Type} {a : α}, Keeps True (Safe K t boot h₀)
      (Io.query fun _ : World (UnixHost N) => (.ok a : Except Error α)) := Keeps.query
  refine Keeps.bind (Keeps.orFail hsafe) fun _ => Keeps.bind hsafe fun _ => ?_
  split
  · exact Keeps.pure
  refine Keeps.bind ?_ fun _ => ?_
  · refine Spec.bind (load_safe.mono (fun _ => id) (fun _ _ => id) (fun _ _ hw => hw.2)
      fun _ hw => hw.2) fun r => ?_
    cases r with
    | none =>
      refine Spec.pure fun w hw => ?_
      rcases hw with ⟨-, hw, -⟩ | ⟨j, hr, -⟩
      · exact hw
      · cases hr
    | some j =>
      refine Spec.bind (R := fun _ => Safe K t boot h₀) (restore_live.mono (fun w hw => ?_)
        (fun _ _ hw => hw.1) (fun _ _ hw => hw.2) fun _ hw => hw.2) fun warnings => ?_
      · rcases hw with ⟨hr, -⟩ | ⟨j', hr, hw⟩
        · cases hr
        · exact Option.some.inj hr ▸ hw
      · split
        · exact Keeps.pure
        · exact Keeps.fail
  · split
    · exact Keeps.pure
    · exact Keeps.bind (configure_safe input.reason input.config) fun _ => Keeps.pure

end Held

end Safe

/-! ### Runs -/

/-- What other programs may do between two runs: no present interface goes or changes its index, and
no key of `K` changes. -/
structure Undisturbed (K : NativeKey → Prop) (h h' : UnixHost N) : Prop where
  interfaces : ∀ name, h.ifIndex name ≠ 0 → h'.ifIndex name = h.ifIndex name
  keys : ∀ n, K n → h'.os n = h.os n
  confined : Confined K h'

/-- A program in a process of its own. -/
def process {α : Type} (x : Prog (UnixHost N) α) (w : World (UnixHost N)) (cuts : List (Cut Error)) :
    Outcome Error α × Crash.State (World (UnixHost N)) Error :=
  x ⟨{ w with memory := none }, cuts⟩

/-- One program of the transaction, cut or not, or what happens between two of them. -/
inductive Step (length : Journal → ℕ) (K : NativeKey → Prop) (t : TransactionId)
    (w : World (UnixHost N)) : World (UnixHost N) → Prop
  | lifecycle (input : LifecycleInput) (cuts : List (Cut Error)) :
      Step length K t w (process (lifecycle (platform N length) t input) w cuts).2.world
  | recover (cuts : List (Cut Error)) :
      Step length K t w (process (recover (platform N length) t) w cuts).2.world
  | elapse (host : UnixHost N) (transcripts : List Transcript) :
      Undisturbed K w.host host → Step length K t w { w with host, transcripts }

section Runs

variable {K : NativeKey → Prop} {t : TransactionId} {boot : String} {h₀ h h' : UnixHost N}
  {j : Journal} {w w' : World (UnixHost N)} {length : Journal → ℕ}

theorem nativeKey_undisturbed (hu : Undisturbed K h h') {key : Key} {n : NativeKey}
    (hn : nativeKey h.ifIndex key = .ok (n, false)) : nativeKey h'.ifIndex key = .ok (n, false) := by
  unfold nativeKey at hn ⊢
  cases hsplit : splitOnce '@' key.kind.toList with
  | none =>
    rw [hsplit] at hn
    exact hn
  | some pair =>
    obtain ⟨kind, index⟩ := pair
    rw [hsplit] at hn
    dsimp only at hn ⊢
    split_ifs at hn ⊢ with hbound
    cases hindex : parseU32 index with
    | none => simp only [hindex] at hn; cases hn
    | some i =>
      simp only [hindex] at hn ⊢
      cases hsafe : safeName (firstPiece '|' key.name) with
      | error e => rw [hsafe] at hn; cases hn
      | ok u =>
        rw [hsafe] at hn
        have hmissing := (Prod.mk.inj (Except.ok.inj hn)).2
        simp only [ne_eq, Bool.or_eq_false_iff, decide_eq_false_iff_not] at hmissing
        rw [hu.interfaces _ hmissing.1]
        exact hn

theorem Tracks.undisturbed (hu : Undisturbed K h h') (hj : Tracks K t boot h₀ j h) :
    Tracks K t boot h₀ j h' := by
  -- the keys of the journal are named as before
  have hback : ∀ m ∈ j.mutations, ∀ n, nativeKey h'.ifIndex m.key = .ok (n, false) →
      nativeKey h.ifIndex m.key = .ok (n, false) := by
    intro m hm n hn
    obtain ⟨k, hk⟩ := hj.keys m hm
    have heq := (nativeKey_undisturbed hu hk.native).symm.trans hn
    obtain ⟨rfl, -⟩ := Prod.mk.inj (Except.ok.inj heq)
    exact hk.native
  refine ⟨hj.accepted, hj.config, hj.sameBoot, fun m hm => ?_, hj.distinct, fun m hm m' hm' n hn hn' =>
    hj.native m hm m' hm' n (hback m hm n hn) (hback m' hm' n hn'), fun n hn hne => ?_⟩
  · obtain ⟨n, hn⟩ := hj.keys m hm
    refine ⟨n, nativeKey_undisturbed hu hn.native, hn.planned, hn.before, ?_⟩
    rw [hu.keys n hn.planned]
    exact hn.value
  · rw [hu.keys n hn]
    exact hj.rest n hn fun m hm hnm => hne m hm (nativeKey_undisturbed hu hnm)

/-- Every step keeps the world safe. -/
theorem Safe.step (hw : Safe K t boot h₀ w) (hst : Step length K t w w') : Safe K t boot h₀ w' := by
  have hprocess : Safe K t boot h₀ { w with memory := none } := hw.congr rfl rfl rfl
  cases hst with
  | lifecycle input cuts => exact (lifecycle_safe input).world (.inl trivial) hprocess
  | recover cuts =>
    exact (recover_live.mono (fun _ => id) (fun _ _ hw => hw.1) (fun _ _ hw => hw.2)
      fun _ hw => hw.2).world (.inl trivial) hprocess
  | elapse host transcripts hu =>
    refine ⟨hw.sameBoot, hu.confined, hw.disk.imp (fun hd => ⟨hd.1, fun n hn => ?_⟩) ?_⟩
    · exact (hu.keys n hn).trans (hd.2 n hn)
    · rintro ⟨j, len, hfind, hle, hj⟩
      exact ⟨j, len, hfind, hle, hj.undisturbed hu⟩

/-- **The Unix journal rolls back.**  From a directory without a journal of the transaction, run
`lifecycle` and `recover` any number of times, with any cuts, plans and transcripts of the script;
nobody else changes a planned key.  Then the journal on disk can be loaded, and a `recover` that is
not cut returns, complains about nothing but the script, and brings every key back. -/
theorem rollback (N : Native) (length : Journal → ℕ) (K : NativeKey → Prop) (t : TransactionId)
    {w₀ w : World (UnixHost N)} (hroot : w₀.root.find (path t) = none) (hK : Confined K w₀.host)
    (h : Relation.ReflTransGen (Step length K t) w₀ w) :
    (w.root.find (path t) ≠ none →
      ∃ j, (load t (⟨w, []⟩ : Crash.State (World (UnixHost N)) Error)).1 = .ok (some j)) ∧
    ∃ warnings, (process (recover (platform N length) t) w []).1 = .ok warnings ∧
      (∀ e ∈ warnings, IsFailure e) ∧
      ∀ n, K n → (process (recover (platform N length) t) w []).2.world.host.os n =
        w₀.host.os n := by
  have hsafe : Safe K t w₀.bootId w₀.host w := by
    induction h with
    | refl => exact ⟨rfl, hK, .inl ⟨hroot, fun _ _ => rfl⟩⟩
    | tail _ hst ih => exact ih.step hst
  have hload : Spec False (Safe K t w₀.bootId w₀.host) (load t) (fun _ _ => True)
      (fun _ _ => False) fun _ => False :=
    load_safe.mono (fun _ => id) (fun _ _ _ => trivial) (fun _ _ hw => hw.1) fun _ hw => hw.1
  have hrecover : Spec False (Safe K t w₀.bootId w₀.host) (recover (platform N length) t)
      (Restored K t w₀.bootId w₀.host False) (fun _ _ => False) fun _ => False :=
    recover_live.mono (fun _ => id) (fun _ _ => id) (fun _ _ hw => hw.1) fun _ hw => hw.1
  refine ⟨fun hfind => ?_, ?_⟩
  · obtain ⟨r, hr, -⟩ := hload.exists_ok (.inr rfl) hsafe
    cases r with
    | none => exact absurd (((load_stored t).of_ok (.inl trivial) rfl hr).2.1 rfl) hfind
    | some j => exact ⟨j, hr⟩
  · have hprocess : Safe K t w₀.bootId w₀.host { w with memory := none } := hsafe.congr rfl rfl rfl
    obtain ⟨warnings, hr, -, -, hrestored⟩ := hrecover.exists_ok (.inr rfl) hprocess
    obtain ⟨hscript, hundone⟩ := hrestored.resolve_left id
    exact ⟨warnings, hr, hscript, hundone⟩

end Runs

/-! ### A crash while a route is applied -/

/-- A host for which one route is planned, and a script that asks for it. -/
def plannedWorld : World (UnixHost (.exact (fun _ _ _ _ => false) 500)) :=
  { twiceWorld with
    host := { twiceWorld.host with
      genuine := twice_genuine
      requests := fun _ => [⟨"linux-route", "main|10.0.0.0/8", some (.arr [.str "tunnel"])⟩] }
    root := [] }

/-- The helper stops right after the route was written. -/
def crashedWorld : World (UnixHost (.exact (fun _ _ _ _ => false) 500)) :=
  (process (lifecycle (platform _ fun _ => 100) twice.transaction ⟨.connect, some twice.config⟩)
    plannedWorld (List.replicate 24 .performed ++ [.stopAfter])).2.world

theorem rollback_crashed :
    (crashedWorld.root.find (path twice.transaction) ≠ none → ∃ j, (load twice.transaction
      (⟨crashedWorld, []⟩ : Crash.State (World (UnixHost _)) Error)).1 = .ok (some j)) ∧
    ∃ warnings, (process (recover (platform _ fun _ => 100) twice.transaction) crashedWorld []).1 =
      .ok warnings ∧ (∀ e ∈ warnings, IsFailure e) ∧
      ∀ n, True → (process (recover (platform _ fun _ => 100) twice.transaction)
        crashedWorld []).2.world.host.os n = plannedWorld.host.os n :=
  rollback _ (fun _ => 100) (fun _ => True) twice.transaction (by decide)
    (fun _ item hitem => by
      obtain rfl := List.mem_singleton.1 hitem
      exact ⟨by decide, trivial⟩)
    (.single (.lifecycle ⟨.connect, some twice.config⟩ _))

end Ocvpn.Net.Unix
