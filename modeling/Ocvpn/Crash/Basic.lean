import Mathlib

/-!
# Programs that may be interrupted

A program acts on an outside world one operation at a time.  A *cut* says how an operation goes: it
is performed, it is refused, it takes effect and still reports a failure, or the program stops
there, before or after the effect.  A run is determined by the world and the cuts of its
operations; operations past the end of the list are performed.

`Spec f P x Q E C` is a triple with a postcondition for each way to end: started where `P` holds,
`x` returns in `Q`, fails in `E` or is stopped in `C`.  With `f := True` it speaks about every list
of cuts and with `f := False` about the run without one, so a lemma that leaves `f` open covers
both at once.

## Main results

* `Spec.bind`, `Spec.act`, `Spec.query`, `Spec.attempt` : the rules of the operations.
* `Spec.forEach`, `Spec.collect` : loops, with an invariant over the elements done so far.
* `Spec.world`, `Spec.of_ok`, `Spec.exists_ok` : what a triple says of a run.
-/

namespace Ocvpn.Crash

/-- How an operation of the outside world goes. -/
inductive Cut (ε : Type) where
  | performed
  /-- It fails without an effect. -/
  | refused (e : ε)
  /-- It takes effect and reports a failure. -/
  | lost (e : ε)
  | stopBefore
  | stopAfter
  deriving DecidableEq, Repr

/-- How a program ends. -/
inductive Outcome (ε α : Type) where
  | ok (a : α)
  | err (e : ε)
  /-- It stopped: it was interrupted, or it panicked. -/
  | stop
  deriving DecidableEq, Repr

/-- A world, and the cuts of the operations to come. -/
structure State (W ε : Type) where
  world : W
  cuts : List (Cut ε) := []

/-- An interruptible program. -/
def Io (W ε α : Type) := State W ε → Outcome ε α × State W ε

namespace Io

variable {W ε α β : Type}

protected def pure (a : α) : Io W ε α := fun s => (.ok a, s)

protected def bind (x : Io W ε α) (g : α → Io W ε β) : Io W ε β := fun s =>
  match x s with
  | (.ok a, s') => g a s'
  | (.err e, s') => (.err e, s')
  | (.stop, s') => (.stop, s')

instance : Monad (Io W ε) where
  pure := Io.pure
  bind := Io.bind

/-- Fail with an error. -/
def fail (e : ε) : Io W ε α := fun s => (.err e, s)

/-- Panic. -/
def panic : Io W ε α := fun s => (.stop, s)

/-- Return what `r` holds. -/
def ofExcept : Except ε α → Io W ε α
  | .ok a => pure a
  | .error e => fail e

/-- Look at the world from inside the program; this cannot be cut. -/
def get (g : W → α) : Io W ε α := fun s => (.ok (g s.world), s)

/-- Change what the program itself keeps; this cannot be cut. -/
def modify (g : W → W) : Io W ε Unit := fun s => (.ok (), { s with world := g s.world })

/-- The world after an operation that is able to take effect. -/
def effect (g : W → Except ε W) (w : W) : W :=
  match g w with
  | .ok w' => w'
  | .error _ => w

/-- An operation on the outside world. -/
def act (g : W → Except ε W) : Io W ε Unit := fun s =>
  let cuts := s.cuts.tail
  match s.cuts.headD .performed with
  | .performed => match g s.world with
    | .ok w => (.ok (), ⟨w, cuts⟩)
    | .error e => (.err e, ⟨s.world, cuts⟩)
  | .refused e => (.err e, ⟨s.world, cuts⟩)
  | .lost e => (.err e, ⟨effect g s.world, cuts⟩)
  | .stopBefore => (.stop, ⟨s.world, cuts⟩)
  | .stopAfter => (.stop, ⟨effect g s.world, cuts⟩)

/-- A look at the outside world. -/
def query (g : W → Except ε α) : Io W ε α := fun s =>
  let cuts := s.cuts.tail
  match s.cuts.headD .performed with
  | .performed => match g s.world with
    | .ok a => (.ok a, ⟨s.world, cuts⟩)
    | .error e => (.err e, ⟨s.world, cuts⟩)
  | .refused e | .lost e => (.err e, ⟨s.world, cuts⟩)
  | .stopBefore | .stopAfter => (.stop, ⟨s.world, cuts⟩)

/-- The result of a program, as a value. -/
def attempt (x : Io W ε α) : Io W ε (Except ε α) := fun s =>
  match x s with
  | (.ok a, s') => (.ok (.ok a), s')
  | (.err e, s') => (.ok (.error e), s')
  | (.stop, s') => (.stop, s')

/-- Report every failure as `e`. -/
def orFail (x : Io W ε α) (e : ε) : Io W ε α := fun s =>
  match x s with
  | (.err _, s') => (.err e, s')
  | r => r

/-- A program that has no effect when it fails. -/
def atomic (x : Io W ε α) : Io W ε α := fun s =>
  match x s with
  | (.err e, s') => (.err e, { s' with world := s.world })
  | r => r

/-- Do something for each element. -/
def forEach : List β → (β → Io W ε Unit) → Io W ε Unit
  | [], _ => pure ()
  | b :: bs, g => do
    g b
    forEach bs g

/-- Do something for each element and collect the failures. -/
def collect : List β → (β → Io W ε Unit) → Io W ε (List ε)
  | [], _ => pure []
  | b :: bs, g => do
    match ← attempt (g b) with
    | .ok () => collect bs g
    | .error e => do
      let es ← collect bs g
      pure (e :: es)

/-- Run a program of a part of the world. -/
def zoom {V : Type} (get : W → V) (put : V → W → W) (x : Io V ε α) : Io W ε α := fun s =>
  match x ⟨get s.world, s.cuts⟩ with
  | (o, s') => (o, ⟨put s'.world s.world, s'.cuts⟩)

/-! ### Sequencing -/

/-- A step that returned. -/
theorem bind_of_ok {x : Io W ε α} {s s' : State W ε} {a : α} (h : x s = (.ok a, s'))
    (g : α → Io W ε β) : (x >>= g) s = g a s' := by
  change Io.bind x g s = _
  rw [Io.bind, h]

/-- A run that returns went through its first step. -/
theorem bind_eq_ok {x : Io W ε α} {g : α → Io W ε β} {s s' : State W ε} {b : β} :
    (x >>= g) s = (.ok b, s') ↔ ∃ a s₁, x s = (.ok a, s₁) ∧ g a s₁ = (.ok b, s') := by
  change Io.bind x g s = _ ↔ _
  rw [Io.bind]
  rcases hx : x s with ⟨a | e | _, s₁⟩
  · exact ⟨fun h => ⟨a, s₁, rfl, h⟩, by rintro ⟨a', s', h, hg⟩; cases h; exact hg⟩
  · exact ⟨fun h => (by cases h), by rintro ⟨a', s', h, hg⟩; cases h⟩
  · exact ⟨fun h => (by cases h), by rintro ⟨a', s', h, hg⟩; cases h⟩

theorem forEach_append_eq_ok {bs cs : List β} {g : β → Io W ε Unit} {s s' : State W ε} :
    forEach (bs ++ cs) g s = (.ok (), s') ↔
      ∃ s₁, forEach bs g s = (.ok (), s₁) ∧ forEach cs g s₁ = (.ok (), s') := by
  induction bs generalizing s with
  | nil =>
    show forEach cs g s = _ ↔ ∃ s₁, (pure () : Io W ε Unit) s = (.ok (), s₁) ∧ _
    refine ⟨fun h => ⟨s, rfl, h⟩, ?_⟩
    rintro ⟨s₁, h, hcs⟩
    cases h
    exact hcs
  | cons b bs ih =>
    simp only [List.cons_append, forEach, bind_eq_ok, ih]
    constructor
    · rintro ⟨a, s₁, hb, s₂, hbs, hcs⟩
      exact ⟨s₂, ⟨a, s₁, hb, hbs⟩, hcs⟩
    · rintro ⟨s₂, ⟨a, s₁, hb, hbs⟩, hcs⟩
      exact ⟨a, s₁, hb, s₂, hbs, hcs⟩

/-- A look at the world goes through when it is not cut. -/
theorem query_eq_ok {g : W → Except ε α} {s s' : State W ε} {a : α} :
    query g s = (.ok a, s') ↔
      s.cuts.headD .performed = .performed ∧ g s.world = .ok a ∧ s' = ⟨s.world, s.cuts.tail⟩ := by
  simp only [query]
  cases s.cuts.headD .performed with
  | performed => cases hg : g s.world <;> simp [eq_comm]
  | refused e | lost e | stopBefore | stopAfter => simp

theorem ofExcept_eq_ok {r : Except ε α} {a : α} {s s' : State W ε} :
    ofExcept r s = (.ok a, s') ↔ r = .ok a ∧ s' = s := by
  cases r with
  | ok b =>
    show ((Outcome.ok b, s) : Outcome ε α × _) = _ ↔ _
    simp [eq_comm]
  | error e => exact iff_of_false nofun fun h => by cases h.1

theorem orFail_eq_ok {x : Io W ε α} {e : ε} {a : α} {s s' : State W ε} :
    orFail x e s = (.ok a, s') ↔ x s = (.ok a, s') := by
  rw [orFail]
  rcases x s with ⟨_ | _ | _, s₁⟩ <;> simp

end Io

/-! ### Triples -/

section Spec

variable {W ε α β : Type} {f : Prop} {P P' : W → Prop} {x : Io W ε α} {Q Q' : α → W → Prop}
  {E E' : ε → W → Prop} {C C' : W → Prop}

/-- What a triple asks of the end of a run. -/
def Ends (f : Prop) (Q : α → W → Prop) (E : ε → W → Prop) (C : W → Prop) :
    Outcome ε α × State W ε → Prop
  | (.ok a, s) => (f ∨ s.cuts = []) ∧ Q a s.world
  | (.err e, s) => (f ∨ s.cuts = []) ∧ E e s.world
  | (.stop, s) => f ∧ C s.world

/-- Started where `P` holds, `x` returns in `Q`, fails in `E` or is stopped in `C`; without `f` its
operations are not cut. -/
def Spec (f : Prop) (P : W → Prop) (x : Io W ε α) (Q : α → W → Prop) (E : ε → W → Prop)
    (C : W → Prop) : Prop :=
  ∀ w cuts, (f ∨ cuts = []) → P w → Ends f Q E C (x ⟨w, cuts⟩)

namespace Spec

theorem mono (h : Spec f P' x Q' E' C') (hP : ∀ w, P w → P' w) (hQ : ∀ a w, Q' a w → Q a w)
    (hE : ∀ e w, E' e w → E e w) (hC : ∀ w, C' w → C w) : Spec f P x Q E C := by
  intro w cuts hf hw
  have hx := h w cuts hf (hP w hw)
  generalize x ⟨w, cuts⟩ = r at hx ⊢
  rcases r with ⟨a | e | _, s⟩
  · exact ⟨hx.1, hQ _ _ hx.2⟩
  · exact ⟨hx.1, hE _ _ hx.2⟩
  · exact ⟨hx.1, hC _ hx.2⟩

theorem pre (h : Spec f P' x Q E C) (hP : ∀ w, P w → P' w) : Spec f P x Q E C :=
  h.mono hP (fun _ _ => id) (fun _ _ => id) fun _ => id

theorem post (h : Spec f P x Q' E C) (hQ : ∀ a w, Q' a w → Q a w) : Spec f P x Q E C :=
  h.mono (fun _ => id) hQ (fun _ _ => id) fun _ => id

/-- A pure fact about the world at the start may be assumed. -/
theorem intro {p : Prop} (hP : ∀ w, P w → p) (h : p → Spec f P x Q E C) : Spec f P x Q E C :=
  fun w cuts hf hw => h (hP w hw) w cuts hf hw

/-- A triple may be proved for each start on its own. -/
theorem each (h : ∀ w, P w → Spec f (· = w) x Q E C) : Spec f P x Q E C :=
  fun w cuts hf hw => h w hw w cuts hf rfl

theorem pure {a : α} (h : ∀ w, P w → Q a w) : Spec f P (Pure.pure a) Q E C :=
  fun w _ hf hw => ⟨hf, h w hw⟩

theorem fail {e : ε} (h : ∀ w, P w → E e w) : Spec f P (Io.fail e : Io W ε α) Q E C :=
  fun w _ hf hw => ⟨hf, h w hw⟩

theorem panic (h : ∀ w, P w → f ∧ C w) : Spec f P (Io.panic : Io W ε α) Q E C :=
  fun w _ _ hw => h w hw

/-- Every program ends in some way. -/
theorem trivial : Spec True P x (fun _ _ => True) (fun _ _ => True) fun _ => True := by
  intro w cuts _ _
  generalize x ⟨w, cuts⟩ = r
  rcases r with ⟨a | e | _, s⟩ <;> simp [Ends]

theorem ofExcept {r : Except ε α} (hok : ∀ w a, P w → r = .ok a → Q a w)
    (herr : ∀ w e, P w → r = .error e → E e w) : Spec f P (Io.ofExcept r) Q E C := by
  cases r with
  | ok a => exact pure fun w hw => hok w a hw rfl
  | error e => exact fail fun w hw => herr w e hw rfl

theorem get {g : W → α} (h : ∀ w, P w → Q (g w) w) : Spec f P (Io.get g) Q E C :=
  fun w _ hf hw => ⟨hf, h w hw⟩

theorem modify {g : W → W} {Q : Unit → W → Prop} (h : ∀ w, P w → Q () (g w)) :
    Spec f P (Io.modify g) Q E C :=
  fun w _ hf hw => ⟨hf, h w hw⟩

/-- Sequencing. -/
theorem bind {R : β → W → Prop} {y : Io W ε β} {g : β → Io W ε α} (hy : Spec f P y R E C)
    (hg : ∀ b, Spec f (R b) (g b) Q E C) : Spec f P (y >>= g) Q E C := by
  intro w cuts hf hw
  have h := hy w cuts hf hw
  change Ends f Q E C (Io.bind y g ⟨w, cuts⟩)
  unfold Io.bind
  generalize y ⟨w, cuts⟩ = r at h ⊢
  rcases r with ⟨b | e | _, s⟩
  · exact hg b s.world s.cuts h.1 h.2
  · exact h
  · exact h

theorem of_cut {cuts : List (Cut ε)} {c : Cut ε} (h : f ∨ cuts = [])
    (hc : cuts.headD .performed = c) (hne : c ≠ .performed) : f := by
  rcases h with h | rfl
  · exact h
  · exact absurd hc.symm hne

theorem cuts_tail {cuts : List (Cut ε)} (h : f ∨ cuts = []) : f ∨ cuts.tail = [] := by
  rcases h with h | rfl
  · exact .inl h
  · exact .inr rfl

/-- An operation: `hfault` is about its cuts. -/
theorem act {g : W → Except ε W} {Q : Unit → W → Prop}
    (hok : ∀ w w', P w → g w = .ok w' → Q () w')
    (herr : ∀ w e, P w → g w = .error e → E e w)
    (hfault : f → ∀ w, P w → (∀ e, E e w) ∧ C w ∧
      ∀ w', g w = .ok w' → (∀ e, E e w') ∧ C w') : Spec f P (Io.act g) Q E C := by
  intro w cuts hf hw
  have heff : f → (∀ e, E e (Io.effect g w)) ∧ C (Io.effect g w) := fun hf => by
    obtain ⟨he, hc, hg⟩ := hfault hf w hw
    unfold Io.effect
    cases hgw : g w with
    | ok w' => exact hg w' hgw
    | error e => exact ⟨he, hc⟩
  unfold Io.act
  simp only
  cases hhead : cuts.headD .performed with
  | performed =>
    cases hgw : g w with
    | ok w' => exact ⟨cuts_tail hf, hok w w' hw hgw⟩
    | error e => exact ⟨cuts_tail hf, herr w e hw hgw⟩
  | refused e =>
    have hf' := of_cut hf hhead (by simp)
    exact ⟨.inl hf', (hfault hf' w hw).1 e⟩
  | lost e =>
    have hf' := of_cut hf hhead (by simp)
    exact ⟨.inl hf', (heff hf').1 e⟩
  | stopBefore =>
    have hf' := of_cut hf hhead (by simp)
    exact ⟨hf', (hfault hf' w hw).2.1⟩
  | stopAfter =>
    have hf' := of_cut hf hhead (by simp)
    exact ⟨hf', (heff hf').2⟩

/-- A look at the world. -/
theorem query {g : W → Except ε α} (hok : ∀ w a, P w → g w = .ok a → Q a w)
    (herr : ∀ w e, P w → g w = .error e → E e w)
    (hfault : f → ∀ w, P w → (∀ e, E e w) ∧ C w) : Spec f P (Io.query g) Q E C := by
  intro w cuts hf hw
  unfold Io.query
  simp only
  cases hhead : cuts.headD .performed with
  | performed =>
    cases hgw : g w with
    | ok a => exact ⟨cuts_tail hf, hok w a hw hgw⟩
    | error e => exact ⟨cuts_tail hf, herr w e hw hgw⟩
  | refused e | lost e =>
    have hf' := of_cut hf hhead (by simp)
    exact ⟨.inl hf', (hfault hf' w hw).1 e⟩
  | stopBefore | stopAfter =>
    have hf' := of_cut hf hhead (by simp)
    exact ⟨hf', (hfault hf' w hw).2⟩

/-- A result taken as a value. -/
theorem attempt {y : Io W ε β} {R : β → W → Prop} {F : ε → W → Prop} {Q : Except ε β → W → Prop}
    (h : Spec f P y R F C) (hok : ∀ b w, R b w → Q (.ok b) w)
    (herr : ∀ e w, F e w → Q (.error e) w) : Spec f P (Io.attempt y) Q E C := by
  intro w cuts hf hw
  have hy := h w cuts hf hw
  unfold Io.attempt
  generalize y ⟨w, cuts⟩ = r at hy ⊢
  rcases r with ⟨b | e | _, s⟩
  · exact ⟨hy.1, hok _ _ hy.2⟩
  · exact ⟨hy.1, herr _ _ hy.2⟩
  · exact hy

theorem orFail {e : ε} (h : Spec f P x Q (fun _ w => E e w) C) :
    Spec f P (x.orFail e) Q E C := by
  intro w cuts hf hw
  have hx := h w cuts hf hw
  unfold Io.orFail
  generalize x ⟨w, cuts⟩ = r at hx ⊢
  rcases r with ⟨b | e' | _, s⟩ <;> exact hx

/-- An operation that keeps what is promised for a failure, and a failure with an error of its own. -/
theorem change {I J : W → Prop} {g : W → Except ε W} {e : ε} {Q : Unit → W → Prop}
    (hI : ∀ w, I w → J w) (hg : ∀ w w', I w → g w = .ok w' → Q () w' ∧ J w') :
    Spec f I ((Io.act g).orFail e) Q (fun _ => J) J := by
  refine orFail (act (fun w w' hw h => (hg w w' hw h).1) (fun w _ hw _ => hI w hw) ?_)
  exact fun _ w hw => ⟨fun _ => hI w hw, hI w hw, fun w' h => ⟨fun _ => (hg w w' hw h).2,
    (hg w w' hw h).2⟩⟩

/-- A look at the world that finds nothing wrong. -/
theorem look {I : W → Prop} {e : ε} :
    Spec f I ((Io.query fun _ => .ok ()).orFail e) (fun _ => I) (fun _ => I) I :=
  orFail (query (fun _ _ hw _ => hw) (fun _ _ hw _ => hw) fun _ _ hw => ⟨fun _ => hw, hw⟩)

/-- A program that has no effect when it fails. -/
theorem atomic (h : ∀ w, P w → Spec f (· = w) x Q (fun e _ => E e w) C) :
    Spec f P (Io.atomic x) Q E C := by
  intro w cuts hf hw
  have hx := h w hw w cuts hf rfl
  unfold Io.atomic
  generalize x ⟨w, cuts⟩ = r at hx ⊢
  rcases r with ⟨a | e | _, s⟩ <;> exact hx

/-- A program of a part of the world. -/
theorem zoom {V : Type} {get : W → V} {put : V → W → W} {y : Io V ε α}
    (h : ∀ w, P w → Spec f (· = get w) y (fun a v => Q a (put v w)) (fun e v => E e (put v w))
      (fun v => C (put v w))) : Spec f P (Io.zoom get put y) Q E C := by
  intro w cuts hf hw
  have hy := h w hw (get w) cuts hf rfl
  unfold Io.zoom
  generalize y ⟨get w, cuts⟩ = r at hy ⊢
  rcases r with ⟨a | e | _, s⟩ <;> exact hy

/-- A loop; the invariant knows the elements that were done. -/
theorem forEach {I : List β → W → Prop} {bs : List β} {g : β → Io W ε Unit}
    (h : ∀ done b, b ∈ bs → Spec f (I done) (g b) (fun _ => I (done ++ [b])) E C) (done : List β) :
    Spec f (I done) (Io.forEach bs g) (fun _ => I (done ++ bs)) E C := by
  induction bs generalizing done with
  | nil => exact pure fun w hw => by simpa using hw
  | cons b bs ih =>
    refine bind (h done b (by simp)) fun _ => ?_
    have hrest := ih (fun done b hb => h done b (by simp [hb])) (done ++ [b])
    simpa using hrest

/-- A loop that collects the failures: `I` is the invariant until the first failure and `J`
afterwards; `F` holds of the failures. -/
theorem collect {I : List β → W → Prop} {J : W → Prop} {F : ε → Prop} {bs : List β}
    {g : β → Io W ε Unit}
    (h : ∀ done b, b ∈ bs → Spec f (I done) (g b) (fun _ => I (done ++ [b]))
      (fun e w => F e ∧ J w) C)
    (hJ : ∀ b ∈ bs, Spec f J (g b) (fun _ => J) (fun e w => F e ∧ J w) C) (done : List β) :
    Spec f (I done) (Io.collect bs g)
      (fun es w => (es = [] ∧ I (done ++ bs) w) ∨ (es ≠ [] ∧ (∀ e ∈ es, F e) ∧ J w)) E C := by
  have hrest : ∀ cs ⊆ bs, Spec f J (Io.collect cs g) (fun es w => (∀ e ∈ es, F e) ∧ J w) E C := by
    intro cs hcs
    induction cs with
    | nil => exact pure fun w hw => ⟨by simp, hw⟩
    | cons b cs ih =>
      have hb := hJ b (hcs (by simp))
      have hcs' := ih fun c hc => hcs (by simp [hc])
      refine bind (R := fun r w => (∀ e, r = .error e → F e) ∧ J w)
        (attempt hb (fun _ w hw => ⟨by simp, hw⟩) fun e w hw =>
          ⟨fun e' he => by cases he; exact hw.1, hw.2⟩) fun r => ?_
      refine intro (fun w hw => hw.1) fun hF => ?_
      cases r with
      | ok _ => exact hcs'.pre fun w hw => hw.2
      | error e =>
        refine bind (hcs'.pre fun w hw => hw.2) fun es => pure fun w hw => ⟨?_, hw.2⟩
        exact List.forall_mem_cons.2 ⟨hF e rfl, hw.1⟩
  induction bs generalizing done with
  | nil => exact pure fun w hw => .inl ⟨rfl, by simpa using hw⟩
  | cons b bs ih =>
    have hgo := ih (fun done b hb => h done b (by simp [hb])) (fun b hb => hJ b (by simp [hb]))
      (done ++ [b]) fun cs hcs => hrest cs fun c hc => by simp [hcs hc]
    simp only [List.append_assoc, List.singleton_append] at hgo
    refine bind (R := fun r w => (r = .ok () ∧ I (done ++ [b]) w) ∨
        ∃ e, r = .error e ∧ F e ∧ J w)
      (attempt (h done b (by simp)) (fun _ w hw => .inl ⟨rfl, hw⟩)
        fun e w hw => .inr ⟨e, rfl, hw⟩) fun r => ?_
    cases r with
    | ok _ =>
      refine hgo.pre fun w hw => ?_
      rcases hw with ⟨-, hw⟩ | ⟨e, he, -⟩
      · exact hw
      · cases he
    | error e =>
      have hJ' : ∀ w, ((Except.error e : Except ε Unit) = .ok () ∧ I (done ++ [b]) w) ∨
          (∃ e', (Except.error e : Except ε Unit) = .error e' ∧ F e' ∧ J w) → F e ∧ J w := by
        rintro w (⟨he, -⟩ | ⟨e', he, hw⟩)
        · cases he
        · cases he
          exact hw
      refine intro (fun w hw => (hJ' w hw).1) fun hF => ?_
      refine bind ((hrest bs (by simp)).pre fun w hw => (hJ' w hw).2) fun es => pure fun w hw => ?_
      exact .inr ⟨by simp, List.forall_mem_cons.2 ⟨hF, hw.1⟩, hw.2⟩

/-- What a triple says of the world at the end of a run. -/
theorem world {I : W → Prop} (h : Spec f P x (fun _ => I) (fun _ => I) I) {w : W}
    {cuts : List (Cut ε)} (hf : f ∨ cuts = []) (hw : P w) : I (x ⟨w, cuts⟩).2.world := by
  have hrun := h w cuts hf hw
  generalize x ⟨w, cuts⟩ = r at hrun ⊢
  rcases r with ⟨a | e | _, s⟩
  · exact hrun.2
  · exact hrun.2
  · exact hrun.2

/-- What a triple says of a run that returns. -/
theorem of_ok (h : Spec f P x Q E C) {w : W} {cuts : List (Cut ε)} (hf : f ∨ cuts = []) (hw : P w)
    {a : α} (ha : (x ⟨w, cuts⟩).1 = .ok a) : Q a (x ⟨w, cuts⟩).2.world := by
  have hrun := h w cuts hf hw
  generalize x ⟨w, cuts⟩ = r at hrun ha ⊢
  rcases r with ⟨o, s⟩
  cases ha
  exact hrun.2

/-- What a triple says of a run that fails. -/
theorem of_err (h : Spec f P x Q E C) {w : W} {cuts : List (Cut ε)} (hf : f ∨ cuts = []) (hw : P w)
    {e : ε} (he : (x ⟨w, cuts⟩).1 = .err e) : E e (x ⟨w, cuts⟩).2.world := by
  have hrun := h w cuts hf hw
  generalize x ⟨w, cuts⟩ = r at hrun he ⊢
  rcases r with ⟨o, s⟩
  cases he
  exact hrun.2

/-- A program that can neither fail nor stop returns. -/
theorem exists_ok (h : Spec f P x Q (fun _ _ => False) fun _ => False) {w : W}
    {cuts : List (Cut ε)} (hf : f ∨ cuts = []) (hw : P w) :
    ∃ a, (x ⟨w, cuts⟩).1 = .ok a ∧ Q a (x ⟨w, cuts⟩).2.world := by
  have hrun := h w cuts hf hw
  generalize x ⟨w, cuts⟩ = r at hrun ⊢
  rcases r with ⟨a | e | _, s⟩
  · exact ⟨a, rfl, hrun.2⟩
  · exact hrun.2.elim
  · exact hrun.2.elim

end Spec

/-! ### Invariants -/

/-- `x` keeps `I`, however it ends. -/
def Keeps (f : Prop) (I : W → Prop) (x : Io W ε α) : Prop := Spec f I x (fun _ => I) (fun _ => I) I

namespace Keeps

variable {I : W → Prop}

theorem pure {a : α} : Keeps f I (Pure.pure a : Io W ε α) := Spec.pure fun _ => id

theorem fail {e : ε} : Keeps f I (Io.fail e : Io W ε α) := Spec.fail fun _ => id

theorem panic (hf : f) : Keeps f I (Io.panic : Io W ε α) := Spec.panic fun _ hw => ⟨hf, hw⟩

/-- A program of a part of the world keeps what does not depend on that part. -/
theorem zoom {V : Type} {get : W → V} {put : V → W → W} {y : Io V ε α}
    (h : ∀ w v, I w → I (put v w)) : Keeps True I (Io.zoom get put y) :=
  Spec.zoom fun w hw => Spec.trivial.mono (fun _ => id) (fun _ v _ => h w v hw)
    (fun _ v _ => h w v hw) fun v _ => h w v hw

theorem ofExcept {r : Except ε α} : Keeps f I (Io.ofExcept r : Io W ε α) :=
  Spec.ofExcept (fun _ _ hw _ => hw) fun _ _ hw _ => hw

theorem get {g : W → α} : Keeps f I (Io.get g : Io W ε α) := Spec.get fun _ => id

theorem modify {g : W → W} (h : ∀ w, I w → I (g w)) : Keeps f I (Io.modify g : Io W ε Unit) :=
  Spec.modify h

theorem bind {y : Io W ε β} {g : β → Io W ε α} (hy : Keeps f I y) (hg : ∀ b, Keeps f I (g b)) :
    Keeps f I (y >>= g) :=
  Spec.bind hy hg

theorem act {g : W → Except ε W} (h : ∀ w w', I w → g w = .ok w' → I w') :
    Keeps f I (Io.act g) :=
  Spec.act h (fun _ _ hw _ => hw) fun _ w hw =>
    ⟨fun _ => hw, hw, fun w' hg => ⟨fun _ => h w w' hw hg, h w w' hw hg⟩⟩

theorem query {g : W → Except ε α} : Keeps f I (Io.query g) :=
  Spec.query (fun _ _ hw _ => hw) (fun _ _ hw _ => hw) fun _ _ hw => ⟨fun _ => hw, hw⟩

theorem orFail {e : ε} (h : Keeps f I x) : Keeps f I (x.orFail e) := Spec.orFail h

theorem attempt (h : Keeps f I x) : Keeps f I (Io.attempt x) :=
  Spec.attempt h (fun _ _ => id) fun _ _ => id

theorem forEach {bs : List β} {g : β → Io W ε Unit} (h : ∀ b ∈ bs, Keeps f I (g b)) :
    Keeps f I (Io.forEach bs g) :=
  Spec.forEach (I := fun _ => I) (fun _ b hb => h b hb) []

theorem collect {bs : List β} {g : β → Io W ε Unit} (h : ∀ b ∈ bs, Keeps f I (g b)) :
    Keeps f I (Io.collect bs g) := by
  have h' : ∀ b ∈ bs, Spec f I (g b) (fun _ => I) (fun _ w => True ∧ I w) I := fun b hb =>
    (h b hb).mono (fun _ => id) (fun _ _ => id) (fun _ _ hw => ⟨True.intro, hw⟩) fun _ => id
  refine (Spec.collect (I := fun _ => I) (fun _ b hb => h' b hb) h' []).post fun es w hw => ?_
  rcases hw with ⟨-, hw⟩ | ⟨-, -, hw⟩ <;> exact hw

end Keeps

end Spec

end Ocvpn.Crash
