import Ocvpn.Journal.Repair
import Ocvpn.Unix.Records

/-!
# The resolver in a lifecycle

Where a Linux lifecycle looks at the resolver: the last part of `plan`, the selection of the script
and the last part of `observe` in `crates/net/src/unix/linux.rs`.  The first two have a guard for a
configuration without DNS servers, the third has none.

`LinuxBase` is the part of the platform that has nothing to do with the resolver, `ResolverPart` the
one that has; `linux` puts them together.

## Main results

* `lifecycle_resolver_iff` : when two resolvers lead to the same success of a lifecycle without DNS.
-/

namespace Ocvpn.Net.Linux

open Crash Unix

/-! ### The two parts -/

/-- The kinds of keys that belong to the resolver. -/
def resolverKey (key : Key) : Bool :=
  startsWith "linux-resolvconf" key.kind || startsWith "linux-dns@" key.kind ||
    startsWith "linux-domains@" key.kind || startsWith "linux-default-dns@" key.kind ||
    key.kind = "mac-store"

/-- No mutation is one of the resolver. -/
def Unresolved (ms : List Mutation) : Prop := ∀ m ∈ ms, resolverKey m.key = false

/-- The platform without its resolver. -/
structure LinuxBase (H : Type) where
  vanished : H → Key → Except Error Bool
  read : H → Key → Except Error (Option Value)
  restore : Key → Option Value → Option Value → H → Except Error H
  equivalent : Key → Option Value → Option Value → Bool
  resolve : H → String → Except Error InterfaceIdentity
  applyOne : NetworkConfig → Mutation → HostProg H (Option Value)
  /-- The checks of `plan` and its items up to the resolver. -/
  items : NetworkConfig → TransactionId → HostProg H (List Mutation)
  items_unresolved : ∀ config t s ms s', items config t s = (.ok ms, s') → Unresolved ms
  /-- The checks of `observe`, and the addresses and routes it reads. -/
  observe : NetworkConfig → HostProg H (List String × List String)
  length : Journal → ℕ
  uuid : UuidCrate

/-- The resolver of a host, and what is read and written through it. -/
structure ResolverPart (H : Type) where
  host : ResolverHost
  read : H → Key → Except Error (Option Value)
  restore : Key → Option Value → Option Value → H → Except Error H
  applyOne : NetworkConfig → Mutation → HostProg H (Option Value)
  /-- The items of `plan` for the resolver. -/
  items : NetworkConfig → Resolver → HostProg H (List Mutation)
  tools : ResolverTools

/-! ### The platform -/

section Platform

variable {H : Type} (B : LinuxBase H) (r : ResolverPart H)

/-- `plan`. -/
def plan (config : NetworkConfig) (t : TransactionId) : HostProg H (List Mutation) := do
  let items ← B.items config t
  if config.dnsServers.isEmpty then Io.ofExcept (Unix.distinct [] items)
  else do
    let kind ← Io.ofExcept (resolverKind r.host)
    let more ← r.items config kind
    Io.ofExcept (Unix.distinct [] (items ++ more))

/-- What `observe` returns. -/
def observation (config : NetworkConfig) (base resolver : List String × List String) :
    NetworkObservation where
  interface := config.interface.name
  addresses := base.1
  dnsServers := resolver.1
  searchDomains := resolver.2
  routes := base.2
  transport := ""

/-- `observe`. -/
def observe (config : NetworkConfig) : HostProg H NetworkObservation := do
  let base ← B.observe config
  let resolver ← ofRun (observeResolver r.host r.tools config.interface.name)
  pure (observation config base resolver)

/-- The module `platform` on Linux. -/
def linux : Platform H where
  vanished := B.vanished
  read h key := if resolverKey key then r.read h key else B.read h key
  restore key before current h :=
    if resolverKey key then r.restore key before current h else B.restore key before current h
  equivalent := B.equivalent
  plan := plan B r
  adapter := .unix
    { resolve := B.resolve
      applyOne := fun config m =>
        if resolverKey m.key then r.applyOne config m else B.applyOne config m }
  observe := observe B r
  length := B.length
  uuid := B.uuid

/-- The same platform if `observe` did not look at the resolver. -/
def unobserving : Platform H :=
  { linux B r with
    observe := fun config => do
      let base ← B.observe config
      pure (observation config base ([], [])) }

end Platform

/-! ### The script -/

/-- How the script begins: without a resolver, and on disconnect, it selects nothing. -/
def scriptBegins (binary : List Char → List (List Char)) (h : ResolverHost)
    (reason : NetworkReason) (planned : String) : Selection :=
  if reason = .disconnect ∨ planned = "none" then .proceeds
  else match scriptSelects binary h with
    | none => .exits 69
    | some selected => if selected.name = planned then .proceeds else .exits 75

theorem exists_of_mem_mapM {ε α β : Type} {l : List α} {g : α → Except ε β} {bs : List β}
    (h : l.mapM g = .ok bs) : ∀ b ∈ bs, ∃ a ∈ l, g a = .ok b := by
  induction l generalizing bs with
  | nil =>
    cases h
    exact nofun
  | cons a l ih =>
    rw [List.mapM_cons] at h
    cases ha : g a with
    | error e =>
      rw [ha] at h
      cases h
    | ok b =>
      cases hl : l.mapM g with
      | error e =>
        rw [ha, hl] at h
        cases h
      | ok cs =>
        rw [ha, hl] at h
        cases h
        refine List.forall_mem_cons.2 ⟨⟨a, List.mem_cons_self, ha⟩, fun b hb => ?_⟩
        obtain ⟨a', ha', hb⟩ := ih hl b hb
        exact ⟨a', List.mem_cons_of_mem _ ha', hb⟩

/-- Without keys of the resolver the script is told that there is none. -/
theorem resolver_eq_none {config : NetworkConfig} {ms : List Mutation} {rs : List Role}
    (hms : Unresolved ms) (hroles : roles config ms = .ok rs) : resolver rs = "none" := by
  have hnone : ∀ r ∈ rs, ∀ name, r ≠ .resolver name := by
    rintro r hr name rfl
    obtain ⟨⟨m, i⟩, hm, hrole⟩ := exists_of_mem_mapM hroles _ hr
    have hkey := hms m (List.fst_mem_of_mem_zipIdx hm)
    simp only [resolverKey, Bool.or_eq_false_iff, decide_eq_false_iff_not] at hkey
    simp only [role, hkey, Bool.or_self, Bool.false_eq_true, ↓reduceIte] at hrole
    split_ifs at hrole <;> cases hrole
  clear hroles
  induction rs with
  | nil => rfl
  | cons r rs ih =>
    have hrest := ih fun r hr => hnone r (List.mem_cons_of_mem _ hr)
    cases r with
    | resolver name => exact absurd rfl (hnone _ List.mem_cons_self name)
    | interface => exact hrest
    | gateway => exact hrest
    | excluded cidr => exact hrest
    | included cidr => exact hrest

/-! ### Platforms that differ in their resolvers -/

variable {H : Type}

/-- Two platforms read and restore a key in the same way. -/
structure SameKey (P P' : Platform H) (key : Key) : Prop where
  read : ∀ h, P.read h key = P'.read h key
  restore : ∀ before current h, P.restore key before current h = P'.restore key before current h

/-- Two platforms do the same for whatever is not about the resolver. -/
structure Alike (P P' : Platform H) : Prop where
  vanished : P.vanished = P'.vanished
  equivalent : P.equivalent = P'.equivalent
  length : P.length = P'.length
  key : ∀ key, resolverKey key = false → SameKey P P' key
  plan : ∀ config t, config.dnsServers = [] → P.plan config t = P'.plan config t
  planned : ∀ config t s ms s', config.dnsServers = [] → P.plan config t s = (.ok ms, s') →
    Unresolved ms
  adapter : ∃ ops ops', P.adapter = .unix ops ∧ P'.adapter = .unix ops' ∧
    ops.resolve = ops'.resolve ∧
    ∀ config m, resolverKey m.key = false → ops.applyOne config m = ops'.applyOne config m

theorem distinct_subset {plan items ms : List Mutation} (h : Unix.distinct plan items = .ok ms) :
    ∀ m ∈ ms, m ∈ plan ∨ m ∈ items := by
  induction items generalizing plan with
  | nil =>
    cases h
    exact fun m hm => .inl hm
  | cons item items ih =>
    rw [Unix.distinct] at h
    split at h
    · split_ifs at h
      exact fun m hm => (ih h m hm).imp_right (List.mem_cons_of_mem _)
    · intro m hm
      obtain hplan | hitems := ih h m hm
      · obtain hplan | hitem := List.mem_append.1 hplan
        · exact .inl hplan
        · exact .inr (List.mem_cons.2 (.inl (List.mem_singleton.1 hitem)))
      · exact .inr (List.mem_cons_of_mem _ hitems)

theorem plan_unresolved {B : LinuxBase H} {r : ResolverPart H} {config : NetworkConfig}
    {t : TransactionId} {s s' : State H Error} {ms : List Mutation}
    (hdns : config.dnsServers = []) (h : plan B r config t s = (.ok ms, s')) : Unresolved ms := by
  rw [plan, Io.bind_eq_ok] at h
  obtain ⟨items, s₁, hitems, h⟩ := h
  rw [hdns, if_pos (by rfl), Io.ofExcept_eq_ok] at h
  intro m hm
  refine B.items_unresolved config t s items s₁ hitems m ?_
  exact (distinct_subset h.1 m hm).resolve_left List.not_mem_nil

theorem plan_eq {B : LinuxBase H} {r r' : ResolverPart H} {config : NetworkConfig}
    (hdns : config.dnsServers = []) (t : TransactionId) : plan B r config t = plan B r' config t := by
  have hempty : config.dnsServers.isEmpty = true := by rw [hdns]; rfl
  simp only [plan, hempty, ↓reduceIte]

/-- The platforms of one base are alike, whatever their `observe` does. -/
theorem linux_alike (B : LinuxBase H) (r r' : ResolverPart H)
    (o o' : NetworkConfig → HostProg H NetworkObservation) :
    Alike { linux B r with observe := o } { linux B r' with observe := o' } where
  vanished := rfl
  equivalent := rfl
  length := rfl
  key key hkey := ⟨fun h => by simp [linux, hkey], fun before current h => by simp [linux, hkey]⟩
  plan config t hdns := plan_eq hdns t
  planned config t s ms s' hdns h := plan_unresolved hdns h
  adapter := ⟨_, _, rfl, rfl, rfl, fun config m hm => by simp [hm]⟩

/-! ### The same runs -/

section Transfer

variable {P P' : Platform H}

theorem SameKey.readKey_eq {key : Key} (h : SameKey P P' key) : readKey P key = readKey P' key := by
  have hread : ∀ w : World H, P.read w.host key = P'.read w.host key := fun w => h.read w.host
  simp only [readKey, hread]

variable (hP : Alike P P')

include hP

theorem Alike.save_eq (j : Journal) : save P j = save P' j := by
  simp only [save, hP.length]

/-- One restoration. -/
theorem Alike.restoreOne_eq {j : Journal} (hj : ∀ m ∈ j.mutations, SameKey P P' m.key) (i : ℕ)
    (sameBoot : Bool) : restoreOne P j i sameBoot = restoreOne P' j i sameBoot := by
  rw [restoreOne, restoreOne]
  cases hm : j.mutations[i]? with
  | none => rfl
  | some m =>
    have hkey := hj m (List.mem_of_getElem? hm)
    have hrestore : ∀ c, P.restore m.key m.before c = P'.restore m.key m.before c := fun c =>
      funext fun h => hkey.restore m.before c h
    simp only [hP.vanished, hP.equivalent, hkey.readKey_eq, hrestore]

/-- Both run the script in the same way, if they serve it in the same way. -/
theorem Alike.applyScript_eq {ops ops' : UnixOps H} (hops : P.adapter = .unix ops)
    (hops' : P'.adapter = .unix ops') (config : NetworkConfig) (reason : NetworkReason)
    (ms : List Mutation) (operation : ℕ → Prog H Unit) :
    applyScript ops config reason ms operation = applyScript ops' config reason ms operation := by
  obtain ⟨o, o', ho, ho', hresolve, -⟩ := hP.adapter
  cases hops.symm.trans ho
  cases hops'.symm.trans ho'
  simp only [applyScript, hresolve]

theorem Alike.restore_eq {j : Journal} (hj : ∀ m ∈ j.mutations, SameKey P P' m.key) :
    Net.restore P j = Net.restore P' j := by
  have hone : ∀ sameBoot, (restoreOne P j · sameBoot) = (restoreOne P' j · sameBoot) :=
    fun sameBoot => funext fun i => hP.restoreOne_eq hj i sameBoot
  obtain ⟨ops, ops', hops, hops', -⟩ := hP.adapter
  have hscript : ∀ sameBoot, restoreScript P j sameBoot = restoreScript P' j sameBoot := by
    intro sameBoot
    rw [restoreScript, restoreScript, hops, hops']
    simp only [hone, hP.applyScript_eq hops hops']
  simp only [Net.restore, hone, hscript]

/-- One operation of the script. -/
theorem Alike.applyOperation_eq {ops ops' : UnixOps H} (hops : P.adapter = .unix ops)
    (hops' : P'.adapter = .unix ops') {config : NetworkConfig} {ms : List Mutation}
    (hms : Unresolved ms) :
    applyOperation P ops config ms = applyOperation P' ops' config ms := by
  obtain ⟨o, o', ho, ho', -, hone⟩ := hP.adapter
  cases hops.symm.trans ho
  cases hops'.symm.trans ho'
  funext i
  simp only [applyOperation, hP.save_eq]
  cases hm : ms[i]? with
  | none => rfl
  | some m => simp only [hone config m (hms m (List.mem_of_getElem? hm))]

end Transfer

/-! ### The journal in memory -/

/-- A journal of a configuration, without a mutation of the resolver. -/
structure Plain (config : NetworkConfig) (j : Journal) : Prop where
  of : j.config = config
  unresolved : Unresolved j.mutations

/-- The journal in memory is of that kind. -/
def MemoryPlain (config : NetworkConfig) (w : World H) : Prop :=
  ∀ j, w.memory = some j → Plain config j

theorem Plain.setApplied {config : NetworkConfig} {j : Journal} (h : Plain config j) (i : ℕ)
    (v : Option Value) : Plain config (j.setApplied i v) := by
  refine ⟨h.of, fun m hm => ?_⟩
  obtain ⟨k, hk⟩ := List.mem_iff_getElem?.1 hm
  simp only [Journal.setApplied, List.getElem?_modify] at hk
  obtain ⟨m', hm', rfl⟩ := Option.map_eq_some_iff.1 hk
  have hkey := h.unresolved m' (List.mem_of_getElem? hm')
  split_ifs <;> exact hkey

section Memory

variable {P : Platform H} {α : Type} {config : NetworkConfig}

theorem with_memory {g : Journal → Prog H α}
    (hg : ∀ j, Plain config j → Keeps True (MemoryPlain config) (g j)) :
    Keeps True (MemoryPlain config) (memory >>= g : Prog H α) := by
  refine Spec.bind (R := fun j w => Plain config j ∧ MemoryPlain config w) ?_ fun j =>
    Spec.intro (fun w hw => hw.1) fun hj => Spec.pre (hg j hj) fun w hw => hw.2
  refine Spec.bind (R := fun r w => MemoryPlain config w ∧ r = w.memory)
    (Spec.get fun _ hw => ⟨hw, rfl⟩) fun r => ?_
  cases r with
  | none => exact Spec.panic fun w hw => ⟨True.intro, hw.1⟩
  | some j => exact Spec.pure fun w hw => ⟨hw.1 j hw.2.symm, hw.1⟩

theorem setMemory_plain {j : Journal} (hj : Plain config j) :
    Keeps True (MemoryPlain config) (setMemory j : Prog H Unit) :=
  Keeps.modify fun _ _ _ h => Option.some.inj h ▸ hj

theorem save_plain (j : Journal) : Keeps True (MemoryPlain config) (save P j) :=
  save_spec (fun _ _ hw => ⟨fun _ => hw, hw⟩) (fun _ _ hw => ⟨fun _ => hw, hw⟩)
    (fun _ _ hw => hw) (fun _ _ hw => hw) fun _ _ hw => hw

theorem onHost_plain {x : HostProg H α} : Keeps True (MemoryPlain config) (onHost x) :=
  Keeps.zoom fun _ _ hw => hw

theorem applyOperation_plain (ops : UnixOps H) (c : NetworkConfig) (ms : List Mutation)
    (i : ℕ) : Keeps True (MemoryPlain config) (applyOperation P ops c ms i) := by
  refine with_memory fun j hj => ?_
  have hpending : ∀ o, Plain config { j with pendingOperation := o } :=
    fun _ => ⟨hj.of, hj.unresolved⟩
  refine Keeps.bind (setMemory_plain (hpending _)) fun _ => ?_
  refine Keeps.bind (save_plain _) fun _ => ?_
  cases ms[i]? with
  | none => exact Keeps.panic True.intro
  | some item =>
    refine Keeps.bind onHost_plain fun applied => ?_
    have happlied : Plain config { j.setApplied i applied with pendingOperation := none } :=
      ⟨(hj.setApplied i applied).of, (hj.setApplied i applied).unresolved⟩
    exact Keeps.bind (setMemory_plain happlied) fun _ => save_plain _

theorem applyPlan_plain (reason : NetworkReason) :
    Keeps True (MemoryPlain config) (applyPlan P reason) := by
  refine with_memory fun j hj => ?_
  cases P.adapter with
  | windows applyPlanned => exact onHost_plain
  | unix ops =>
    refine Keeps.bind (Keeps.forEach fun m _ => Keeps.bind Keeps.query fun current => ?_)
      fun _ => ?_
    · split
      · exact Keeps.pure
      · exact Keeps.fail
    · refine (applyScript_spec (F := fun _ => True) ⟨fun i _ => ?_, fun _ w hw =>
        ⟨fun _ => True.intro, hw⟩, fun _ => True.intro, fun w ts hw => hw⟩ ops
        (fun _ _ => True.intro) (.inr fun _ => True.intro)).mono (fun _ => id) (fun _ _ => id)
        (fun _ _ hw => hw.2) fun _ => id
      exact (applyOperation_plain ops j.config j.mutations i).mono (fun _ => id)
        (fun _ _ => id) (fun _ _ hw => ⟨True.intro, hw⟩) fun _ => id

theorem verifyOne_plain (i : ℕ) : Keeps True (MemoryPlain config) (verifyOne P i) := by
  refine with_memory fun j hj => ?_
  cases j.mutations[i]? with
  | none => exact Keeps.panic True.intro
  | some m =>
    refine Keeps.bind Keeps.query fun actual => ?_
    split
    · exact setMemory_plain (hj.setApplied i actual)
    · exact Keeps.fail

end Memory

/-! ### The same lifecycles -/

theorem onHost_eq_ok {α : Type} {x : HostProg H α} {a : α} {s s' : State (World H) Error} :
    onHost x s = (.ok a, s') ↔ ∃ h, x ⟨s.world.host, s.cuts⟩ = (.ok a, h) ∧
      s' = ⟨{ s.world with host := h.world }, h.cuts⟩ := by
  rw [onHost, Io.zoom]
  rcases x ⟨s.world.host, s.cuts⟩ with ⟨_ | _ | _, h⟩
  · simp [eq_comm]
  · simp
  · simp

/-- Programs that go on in the same way from wherever the first step leads. -/
theorem bind_congr {W ε α β : Type} {x : Io W ε α} {g g' : α → Io W ε β} {s : State W ε}
    (h : ∀ a s', x s = (.ok a, s') → g a s' = g' a s') : (x >>= g) s = (x >>= g') s := by
  show Io.bind x g s = Io.bind x g' s
  rw [Io.bind, Io.bind]
  rcases hx : x s with ⟨a | _ | _, s'⟩
  · exact h a s' hx
  · rfl
  · rfl

theorem memory_eq_ok {j : Journal} {s s' : State (World H) Error} :
    memory s = (.ok j, s') ↔ s.world.memory = some j ∧ s' = s := by
  simp only [memory, bind, Io.bind, Io.get]
  cases s.world.memory with
  | none => exact iff_of_false (by simp [Io.panic]) (by simp)
  | some j' =>
    show ((Outcome.ok j', s) : Outcome Error Journal × _) = _ ↔ _
    simp [eq_comm]

/-- A loop whose rounds agree as long as an invariant holds. -/
theorem forEach_congr {W ε β : Type} {I : W → Prop} {g g' : β → Io W ε Unit} {bs : List β}
    (h : ∀ b ∈ bs, ∀ s : State W ε, I s.world → g b s = g' b s ∧ I (g b s).2.world)
    {s : State W ε} (hs : I s.world) :
    Io.forEach bs g s = Io.forEach bs g' s := by
  induction bs generalizing s with
  | nil => rfl
  | cons b bs ih =>
    obtain ⟨heq, hI⟩ := h b List.mem_cons_self s hs
    show Io.bind (g b) (fun _ => Io.forEach bs g) s = Io.bind (g' b) (fun _ => Io.forEach bs g') s
    rw [Io.bind, Io.bind, ← heq]
    rcases hr : g b s with ⟨_ | _ | _, s₁⟩
    · rw [hr] at hI
      exact ih (fun b hb => h b (List.mem_cons_of_mem _ hb)) hI
    · rfl
    · rfl

section Transfer

variable {P P' : Platform H} {config : NetworkConfig} {t : TransactionId}

/-- Whenever one `observe` succeeds, the other one does. -/
def Observes (config : NetworkConfig) (P P' : Platform H) : Prop :=
  ∀ s o s', P.observe config s = (.ok o, s') → ∃ o', P'.observe config s = (.ok o', s')

theorem applyPlan_transfer (hP : Alike P P') (reason : NetworkReason)
    {s : State (World H) Error} (hs : MemoryPlain config s.world) :
    applyPlan P reason s = applyPlan P' reason s := by
  obtain ⟨ops, ops', hops, hops', -⟩ := hP.adapter
  refine bind_congr fun j s' hj => ?_
  obtain ⟨hmemory, rfl⟩ := memory_eq_ok.1 hj
  have hms := (hs j hmemory).unresolved
  have hloop : ∀ l ⊆ j.mutations,
      Io.forEach l (fun m => (do
        let current ← readKey P m.key
        if current = m.before then pure ()
        else Io.fail (.new .conflict "Network state changed after transaction planning") :
          Prog H Unit)) =
      Io.forEach l (fun m => (do
        let current ← readKey P' m.key
        if current = m.before then pure ()
        else Io.fail (.new .conflict "Network state changed after transaction planning"))) := by
    intro l hl
    induction l with
    | nil => rfl
    | cons m l ih =>
      have hkey := hP.key m.key (hms m (hl List.mem_cons_self))
      have hrest := ih fun m hm => hl (List.mem_cons_of_mem _ hm)
      simp only [Io.forEach, hkey.readKey_eq, hrest]
  rw [hops, hops']
  simp only [hloop _ (List.Subset.refl _), hP.applyScript_eq hops hops',
    hP.applyOperation_eq hops hops' hms]

theorem verifyOne_transfer (hP : Alike P P') (i : ℕ) {s : State (World H) Error}
    (hs : MemoryPlain config s.world) : verifyOne P i s = verifyOne P' i s := by
  refine bind_congr fun j s' hj => ?_
  obtain ⟨hmemory, rfl⟩ := memory_eq_ok.1 hj
  cases hm : j.mutations[i]? with
  | none => rfl
  | some m =>
    have hkey := hP.key m.key ((hs j hmemory).unresolved m (List.mem_of_getElem? hm))
    simp only [hkey.readKey_eq, hP.equivalent]

theorem verified_transfer (hP : Alike P P') (hobserve : Observes config P P') {reason : NetworkReason}
    {s s' : State (World H) Error} {o : NetworkObservation} (hs : MemoryPlain config s.world)
    (h : verified P reason s = (.ok o, s')) :
    (∃ o', verified P' reason s = (.ok o', s')) ∧ ∃ h o h', P.observe config h = (.ok o, h') := by
  simp only [verified, Io.bind_eq_ok, memory_eq_ok, onHost_eq_ok] at h ⊢
  obtain ⟨⟨⟩, _, happly, j, s₁, ⟨hj, rfl⟩, ⟨⟩, _, hloop, j', s₂, ⟨hj', rfl⟩, ⟨⟩, s₃, hsave, a,
    hobserved, rfl⟩ := h
  have hs₁ : MemoryPlain config s₁.world := by
    have hkept : MemoryPlain config (applyPlan P reason s).2.world :=
      (applyPlan_plain reason).world (.inl True.intro) hs
    rwa [happly] at hkept
  rw [applyPlan_transfer hP reason hs] at happly
  have hrounds : ∀ i ∈ List.range j.mutations.length, ∀ s : State (World H) Error,
      MemoryPlain config s.world →
        verifyOne P i s = verifyOne P' i s ∧ MemoryPlain config (verifyOne P i s).2.world :=
    fun i _ s hs => ⟨verifyOne_transfer hP i hs,
      (verifyOne_plain i).world (.inl True.intro) hs⟩
  have hs₂ : MemoryPlain config s₂.world := by
    have hkept : MemoryPlain config
        (Io.forEach (List.range j.mutations.length) (verifyOne P) s₁).2.world :=
      (Keeps.forEach fun i _ => verifyOne_plain i).world (.inl True.intro) hs₁
    rwa [hloop] at hkept
  rw [forEach_congr hrounds hs₁] at hloop
  rw [hP.save_eq] at hsave
  rw [(hs₂ j' hj').of] at hobserved
  obtain ⟨o', ho'⟩ := hobserve _ _ _ hobserved
  refine ⟨⟨o', (), s₁, happly, j, s₁, ⟨hj, rfl⟩, (), s₂, hloop, j', s₂, ⟨hj', rfl⟩, (), s₃, hsave,
    a, ?_, rfl⟩, _, _, _, hobserved⟩
  rw [(hs₂ j' hj').of]
  exact ho'

theorem configure_transfer (hP : Alike P P') (hobserve : Observes config P P')
    (hdns : config.dnsServers = []) {reason : NetworkReason} {s s' : State (World H) Error}
    {o : NetworkObservation} (h : configure P t reason (some config) s = (.ok o, s')) :
    (∃ o', configure P' t reason (some config) s = (.ok o', s')) ∧
      ∃ h o h', P.observe config h = (.ok o, h') := by
  rw [configure, Io.bind_eq_ok] at h
  obtain ⟨names, s₁, hnames, h⟩ := h
  split_ifs at h with hjson
  · cases h
  rw [Io.bind_eq_ok] at h
  obtain ⟨ms, s₂, hplan, h⟩ := h
  split_ifs at h with hlimit
  · cases h
  simp only [Io.bind_eq_ok] at h
  obtain ⟨boot, s₃, hboot, ⟨⟩, s₄, hsave, ⟨⟩, s₅, hmemory, r, s₆, hattempt, h⟩ := h
  cases r with
  | error e =>
    -- a failure was rolled back, and is reported
    simp only [Io.bind_eq_ok] at h
    obtain ⟨j, s₇, -, warnings, s₈, -, h⟩ := h
    split_ifs at h
    · cases h
    · cases h
  | ok v =>
    cases h
    have hverified : verified P reason s₅ = (.ok o, s') := by
      rw [Io.attempt] at hattempt
      split at hattempt
      · rename_i h
        cases hattempt
        exact h
      · cases hattempt
      · cases hattempt
    obtain ⟨h, hms, rfl⟩ := onHost_eq_ok.1 hplan
    have hs₅ : MemoryPlain config s₅.world := by
      cases hmemory
      rintro j hj
      cases hj
      refine ⟨rfl, ?_⟩
      exact hP.planned config t _ _ _ hdns hms
    obtain ⟨⟨o', ho'⟩, hobserved⟩ := verified_transfer hP hobserve hs₅ hverified
    have hattempt' : Io.attempt (verified P' reason) s₅ = (.ok (.ok o'), s') := by
      rw [Io.attempt, ho']
    rw [hP.plan config t hdns] at hplan
    rw [hP.save_eq] at hsave
    refine ⟨⟨o', ?_⟩, hobserved⟩
    rw [configure, Io.bind_of_ok hnames, if_neg hjson]
    dsimp only
    rw [Io.bind_of_ok hplan, if_neg hlimit, Io.bind_of_ok hboot, Io.bind_of_ok hsave,
      Io.bind_of_ok hmemory, Io.bind_of_ok hattempt']
    rfl

/-- The keys of an old journal of the transaction have a property. -/
def OldKeys (t : TransactionId) (p : Key → Prop) (w : World H) : Prop :=
  ∀ j length, w.root.find (path t) = some (.journal j length) → ∀ m ∈ j.mutations, p m.key

theorem settleOld_transfer (hP : Alike P P') {s : State (World H) Error}
    (hs : OldKeys t (SameKey P P') s.world) : settleOld P t s = settleOld P' t s := by
  have hload : Spec True (OldKeys t (SameKey P P')) (load t : Prog H (Option Journal))
      (fun r _ => ∀ j, r = some j → ∀ m ∈ j.mutations, SameKey P P' m.key) (fun _ _ => True)
      fun _ => True := by
    refine load_spec (fun _ _ _ => ⟨fun _ => True.intro, True.intro⟩) (fun _ _ _ => nofun) ?_
      fun _ _ _ _ _ _ => True.intro
    rintro w c j hw hc ⟨length, rfl, -⟩ j' hj'
    cases hj'
    exact hw j length hc
  refine bind_congr fun r s' hr => ?_
  have hsame := hload.of_ok (.inl True.intro) hs (congrArg Prod.fst hr)
  cases r with
  | none => rfl
  | some j => simp only [hP.restore_eq (hsame j rfl)]

/-- **A lifecycle that succeeds on one platform succeeds on the other.** -/
theorem lifecycle_transfer (hP : Alike P P') (hobserve : Observes config P P')
    (hdns : config.dnsServers = []) {s s' : State (World H) Error}
    {o : Option NetworkObservation} (hs : OldKeys t (SameKey P P') s.world)
    (h : lifecycle P t ⟨.connect, some config⟩ s = (.ok o, s')) :
    (∃ o', lifecycle P' t ⟨.connect, some config⟩ s = (.ok o', s')) ∧
      ∃ h o h', P.observe config h = (.ok o, h') := by
  have hlock : ∀ (s s₁ : State (World H) Error) (u : Unit), lock s = (.ok u, s₁) →
      s₁.world = s.world := by
    intro s s₁ u hlock
    obtain ⟨-, -, rfl⟩ := Io.query_eq_ok.1 hlock
    rfl
  have hprivileged : ∀ (s s₁ : State (World H) Error) (u : Unit), privileged s = (.ok u, s₁) →
      s₁.world = s.world := by
    intro s s₁ u hprivileged
    obtain ⟨-, -, rfl⟩ := Io.query_eq_ok.1 (Io.orFail_eq_ok.1 hprivileged)
    rfl
  simp only [lifecycle, Io.bind_eq_ok, reduceCtorEq, or_self, ↓reduceIte] at h ⊢
  obtain ⟨⟨⟩, s₁, hp, ⟨⟩, s₂, hl, ⟨⟩, s₃, hsettle, o₁, s₄, hconfigure, hpure⟩ := h
  have hs₂ : OldKeys t (SameKey P P') s₂.world := by rwa [hlock _ _ _ hl, hprivileged _ _ _ hp]
  rw [settleOld_transfer hP hs₂] at hsettle
  obtain ⟨⟨o', ho'⟩, hobserved⟩ := configure_transfer hP hobserve hdns hconfigure
  cases hpure
  exact ⟨⟨some o', (), s₁, hp, (), s₂, hl, (), s₃, hsettle, o', s', ho', rfl⟩, hobserved⟩

end Transfer

/-! ### Lifecycles without DNS -/

/-- The resolver of a host can be observed. -/
def ResolverPart.Observable (r : ResolverPart H) (config : NetworkConfig) : Prop :=
  Linux.Observable r.host r.tools config.interface.name

/-- Two hosts read and restore a key of the resolver in the same way. -/
def ResolverPart.SameKey (r r' : ResolverPart H) (key : Key) : Prop :=
  resolverKey key = true → (∀ h, r.read h key = r'.read h key) ∧
    ∀ before current h, r.restore key before current h = r'.restore key before current h

theorem ResolverPart.SameKey.symm {r r' : ResolverPart H} {key : Key} (h : r.SameKey r' key) :
    r'.SameKey r key := fun hkey =>
  ⟨fun host => ((h hkey).1 host).symm, fun before current host =>
    ((h hkey).2 before current host).symm⟩

theorem sameKey_linux (B : LinuxBase H) {r r' : ResolverPart H} {key : Key} (h : r.SameKey r' key)
    (o o' : NetworkConfig → HostProg H NetworkObservation) :
    SameKey { linux B r with observe := o } { linux B r' with observe := o' } key := by
  cases hkey : resolverKey key with
  | false => exact (linux_alike B r r' o o').key key hkey
  | true =>
    obtain ⟨hread, hrestore⟩ := h hkey
    exact ⟨fun h => by simp [linux, hkey, hread],
      fun before current h => by simp [linux, hkey, hrestore]⟩

theorem observe_eq_ok {B : LinuxBase H} {r : ResolverPart H} {config : NetworkConfig}
    {s s' : State H Error} {o : NetworkObservation} :
    observe B r config s = (.ok o, s') ↔ ∃ base resolver, B.observe config s = (.ok base, s') ∧
      observeResolver r.host r.tools config.interface.name = .ok resolver ∧
      o = observation config base resolver := by
  simp only [observe, Io.bind_eq_ok, ofRun_eq_ok]
  constructor
  · rintro ⟨base, s₁, hbase, resolver, _, ⟨hresolver, rfl⟩, hpure⟩
    cases hpure
    exact ⟨base, resolver, hbase, hresolver, rfl⟩
  · rintro ⟨base, resolver, hbase, hresolver, rfl⟩
    exact ⟨base, s', hbase, resolver, s', ⟨hresolver, rfl⟩, rfl⟩

/-- A lifecycle returns. -/
def Succeeds (P : Platform H) (t : TransactionId) (config : NetworkConfig)
    (s : State (World H) Error) : Prop :=
  ∃ o s', lifecycle P t ⟨.connect, some config⟩ s = (.ok o, s')

theorem unobserving_eq_ok {B : LinuxBase H} {r : ResolverPart H} {config : NetworkConfig}
    {s s' : State H Error} {o : NetworkObservation} :
    (unobserving B r).observe config s = (.ok o, s') ↔
      ∃ base, B.observe config s = (.ok base, s') ∧ o = observation config base ([], []) := by
  show (B.observe config >>= fun base => pure (observation config base ([], []))) s = _ ↔ _
  rw [Io.bind_eq_ok]
  constructor
  · rintro ⟨base, s₁, hbase, hpure⟩
    cases hpure
    exact ⟨base, hbase, rfl⟩
  · rintro ⟨base, hbase, rfl⟩
    exact ⟨base, s', hbase, rfl⟩

/-- A lifecycle succeeds if it does without looking at the resolver, and the resolver of the host
can be observed. -/
theorem succeeds_iff (B : LinuxBase H) (r r' : ResolverPart H) {config : NetworkConfig}
    {t : TransactionId} {s : State (World H) Error} (hdns : config.dnsServers = [])
    (hs : OldKeys t (r.SameKey r') s.world) :
    Succeeds (linux B r) t config s ↔
      Succeeds (unobserving B r') t config s ∧ r.Observable config := by
  rw [ResolverPart.Observable, ← observable_iff]
  constructor
  · rintro ⟨o, s', h⟩
    have hobserves : Observes config (linux B r) (unobserving B r') := by
      intro s o s' ho
      obtain ⟨base, -, hbase, -, -⟩ := observe_eq_ok.1 ho
      exact ⟨_, unobserving_eq_ok.2 ⟨base, hbase, rfl⟩⟩
    obtain ⟨⟨o', ho'⟩, h, o, h', hobserved⟩ :=
      lifecycle_transfer (linux_alike B r r' _ _) hobserves hdns
        (fun j length hj m hm => sameKey_linux B (hs j length hj m hm) _ _) h
    obtain ⟨base, resolver, -, hresolver, -⟩ := observe_eq_ok.1 hobserved
    exact ⟨⟨o', s', ho'⟩, resolver, hresolver⟩
  · rintro ⟨⟨o, s', h⟩, resolver, hresolver⟩
    have hobserves : Observes config (unobserving B r') (linux B r) := by
      intro s o s' ho
      obtain ⟨base, hbase, -⟩ := unobserving_eq_ok.1 ho
      exact ⟨_, observe_eq_ok.2 ⟨base, resolver, hbase, hresolver, rfl⟩⟩
    obtain ⟨⟨o', ho'⟩, -⟩ := lifecycle_transfer (linux_alike B r' r _ _) hobserves hdns
      (fun j length hj m hm => sameKey_linux B (hs j length hj m hm).symm _ _) h
    exact ⟨o', s', ho'⟩

/-- A host with one key, a route, that is written to become the route of the plan. -/
def routeBase : LinuxBase (Option Value) where
  vanished _ _ := .ok false
  read h _ := .ok h
  restore _ before _ _ := .ok before
  equivalent _ a b := a = b
  resolve _ name := Unix.resolve (fun _ => 3) name
  applyOne _ m := do
    Io.modify fun _ => m.intended
    pure m.intended
  items _ _ := do
    let before ← Io.get id
    pure [{ key := twiceKey, before, intended := some (.arr [.str "tunnel"]), applied := none }]
  items_unresolved _ _ _ _ _ h := by
    cases h
    exact List.forall_mem_singleton.2 (show resolverKey twiceKey = false by decide)
  observe _ := pure ([], ["10.0.0.0/8"])
  length _ := 100
  uuid := .plain

/-- A resolver without servers. -/
def emptyResolver (host : ResolverHost) : ResolverPart (Option Value) where
  host
  read _ _ := .ok (some (.arr []))
  restore _ _ _ _ := .ok none
  applyOne _ _ := pure none
  items _ _ := pure []
  tools :=
    { link := fun _ name => .ok ⟨.exited 0, some ("Link 3 (" ++ name ++ "):\n"), true⟩
      version := .ok ⟨.exited 0, some "openresolv 3.13.2\n", true⟩
      listing := fun _ => .ok ⟨.exited 2, some "", true⟩ }

/-- A host whose program for resolvconf is missing. -/
def bareHost : ResolverHost :=
  { dnsHost "/etc/resolv.local" with resolvconf := .absent }

/-- No route yet, and a script that asks for it, also when it is called to roll back. -/
def routeWorld : World (Option Value) where
  host := some (.arr [])
  bootId := "boot"
  root := []
  transcripts := List.replicate 2 ⟨[.line "route 10.0.0.0/8"], .success⟩
  memory := none
  attempts := []
  removals := []

end Ocvpn.Net.Linux
