import Mathlib

/-!
# Machines driven by inputs

A `Machine` is a set of initial states and a partial step function that reads one input and emits
outputs.  The concurrent parts of the program are modelled as machines whose inputs say which task
moves next and what it learns from outside, so that one list of inputs is one interleaving.

## Main results

* `Machine.Reachable.invariant` : a predicate that holds initially and is preserved by every step
  holds in every reachable state.
* `Machine.ReachesBy.preserves` : the same for the runs whose steps meet a condition.
* `Machine.Run.invariant` : the same for what a run emits together with the state it ends in.
* `Machine.Lockstep.observe` : two runs in lockstep that start related emit equal observations,
  once every pair of steps keeps the relation and emits equal observations.
-/

namespace Ocvpn

/-- A partial deterministic machine with inputs `I` and outputs `O`. -/
structure Machine (S I O : Type*) where
  /-- The initial states. -/
  init : S → Prop
  /-- The step on an input, `none` when the input cannot happen. -/
  step : S → I → Option (S × List O)

namespace Machine

variable {S I O : Type*} (M : Machine S I O)

/-- One step, whatever its input. -/
def Step (s s' : S) : Prop := ∃ i o, M.step s i = some (s', o)

/-- `s'` is reached from `s` in zero or more steps. -/
def Reaches (s s' : S) : Prop := Relation.ReflTransGen M.Step s s'

/-- Reached from an initial state. -/
def Reachable (s : S) : Prop := ∃ s₀, M.init s₀ ∧ M.Reaches s₀ s

variable {M}

theorem Reaches.preserves {P : S → Prop} {s s' : S} (h : M.Reaches s s') (hs : P s)
    (hstep : ∀ s i s' o, P s → M.step s i = some (s', o) → P s') : P s' := by
  induction h with
  | refl => exact hs
  | tail _ hst ih =>
    obtain ⟨i, o, hio⟩ := hst
    exact hstep _ i _ o ih hio

namespace Reachable

theorem initial {s : S} (h : M.init s) : M.Reachable s := ⟨s, h, .refl⟩

theorem trans {s s' : S} (h : M.Reachable s) (h' : M.Reaches s s') : M.Reachable s' := by
  obtain ⟨s₀, h₀, hs⟩ := h
  exact ⟨s₀, h₀, hs.trans h'⟩

theorem tail {s s' : S} {i : I} {o : List O} (h : M.Reachable s)
    (hst : M.step s i = some (s', o)) : M.Reachable s' :=
  h.trans (.single ⟨i, o, hst⟩)

/-- An inductive invariant holds in every reachable state. -/
theorem invariant {P : S → Prop} {s : S} (h : M.Reachable s) (h₀ : ∀ s, M.init s → P s)
    (hstep : ∀ s i s' o, P s → M.step s i = some (s', o) → P s') : P s := by
  obtain ⟨s₀, hinit, hs⟩ := h
  exact Reaches.preserves hs (h₀ s₀ hinit) hstep

end Reachable

/-! ### Runs whose steps meet a condition -/

/-- `s'` is reached from `s` by steps that all satisfy `p`. -/
def ReachesBy (M : Machine S I O) (p : S → I → Prop) (s s' : S) : Prop :=
  Relation.ReflTransGen (fun s s' => ∃ i o, p s i ∧ M.step s i = some (s', o)) s s'

namespace ReachesBy

variable {p q : S → I → Prop} {s s' : S}

theorem reaches (h : M.ReachesBy p s s') : M.Reaches s s' := by
  induction h with
  | refl => exact .refl
  | tail _ hst ih =>
    obtain ⟨i, o, _, hio⟩ := hst
    exact ih.tail ⟨i, o, hio⟩

theorem head {s'' : S} {i : I} {o : List O} (hst : M.step s i = some (s'', o)) (hp : p s i)
    (h : M.ReachesBy p s'' s') : M.ReachesBy p s s' :=
  Relation.ReflTransGen.head ⟨i, o, hp, hst⟩ h

/-- What every step that meets the condition preserves, the run preserves. -/
theorem preserves {P : S → Prop} (h : M.ReachesBy p s s') (hs : P s)
    (hstep : ∀ s i s' o, P s → p s i → M.step s i = some (s', o) → P s') : P s' := by
  induction h with
  | refl => exact hs
  | tail _ hst ih =>
    obtain ⟨i, o, hp, hio⟩ := hst
    exact hstep _ i _ o ih hp hio

end ReachesBy

/-- The state after the inputs of a list, leaving out those that cannot happen. -/
def perform (M : Machine S I O) (s : S) (is : List I) : S :=
  is.foldl (fun s i => match M.step s i with
    | some (s', _) => s'
    | none => s) s

/-- Everything emitted on the way. -/
def emitted (M : Machine S I O) : S → List I → List O
  | _, [] => []
  | s, i :: is => match M.step s i with
    | some (s', o) => o ++ M.emitted s' is
    | none => M.emitted s is

theorem reaches_perform (s : S) (is : List I) : M.Reaches s (M.perform s is) := by
  induction is generalizing s with
  | nil => exact .refl
  | cons i is ih =>
    rw [perform, List.foldl_cons]
    cases h : M.step s i with
    | none => exact ih s
    | some r => exact .head ⟨i, r.2, h⟩ (ih r.1)

theorem reachesBy_perform {p : S → I → Prop} (s : S) (is : List I) (hp : ∀ i ∈ is, ∀ s, p s i) :
    M.ReachesBy p s (M.perform s is) := by
  induction is generalizing s with
  | nil => exact .refl
  | cons i is ih =>
    rw [perform, List.foldl_cons]
    have hp' := fun j hj => hp j (List.mem_cons_of_mem _ hj)
    cases h : M.step s i with
    | none => exact ih s hp'
    | some r => exact .head h (hp i List.mem_cons_self s) (ih r.1 hp')

/-! ### Runs and pairs of runs -/

/-- A run from `s₀` whose steps all meet a condition, with everything it emits. -/
inductive Run (M : Machine S I O) (p : S → I → Prop) (s₀ : S) : List O → S → Prop
  | refl : Run M p s₀ [] s₀
  | tail {s s' : S} {i : I} {os o : List O} :
      Run M p s₀ os s → p s i → M.step s i = some (s', o) → Run M p s₀ (os ++ o) s'

namespace Run

variable {p : S → I → Prop} {s₀ s : S} {os : List O}

theorem reaches (h : M.Run p s₀ os s) : M.Reaches s₀ s := by
  induction h with
  | refl => exact .refl
  | tail _ _ hst ih => exact ih.tail ⟨_, _, hst⟩

/-- What holds of a state and everything emitted before it. -/
theorem invariant {P : List O → S → Prop} (h : M.Run p s₀ os s) (h₀ : P [] s₀)
    (hstep : ∀ os s i s' o, P os s → p s i → M.step s i = some (s', o) → P (os ++ o) s') :
    P os s := by
  induction h with
  | refl => exact h₀
  | tail _ hp hst ih => exact hstep _ _ _ _ _ ih hp hst

/-- Inputs that meet the condition in every state extend the run. -/
theorem perform {is : List I} (h : M.Run p s₀ os s) (hp : ∀ i ∈ is, ∀ s, p s i) :
    M.Run p s₀ (os ++ M.emitted s is) (M.perform s is) := by
  induction is generalizing os s with
  | nil => simpa [emitted, Machine.perform] using h
  | cons i is ih =>
    rw [Machine.perform, List.foldl_cons]
    have hp' := fun j hj => hp j (List.mem_cons_of_mem _ hj)
    cases hst : M.step s i with
    | none =>
      rw [emitted, hst]
      exact ih h hp'
    | some r =>
      rw [emitted, hst, ← List.append_assoc]
      exact ih (h.tail (hp i List.mem_cons_self s) hst) hp'

end Run

/-- Two runs in lockstep: at each step `agree` relates the two inputs, in the states they meet,
and `outcome` relates the two outputs. -/
inductive Lockstep (M : Machine S I O) (agree : S → S → I → I → Prop)
    (outcome : List O → List O → Prop) : S → S → List O → List O → Prop
  | nil (s t : S) : Lockstep M agree outcome s t [] []
  | cons {s s' t t' : S} {i j : I} {o p os ps : List O} :
      M.step s i = some (s', o) → M.step t j = some (t', p) → agree s t i j → outcome o p →
      Lockstep M agree outcome s' t' os ps → Lockstep M agree outcome s t (o ++ os) (p ++ ps)

/-- **Unwinding**: a relation that every pair of steps keeps, with equal observations, makes the
observations of the two runs equal. -/
theorem Lockstep.observe {ω : Type*} {agree : S → S → I → I → Prop}
    {outcome : List O → List O → Prop} {s t : S} {os ps : List O}
    (h : M.Lockstep agree outcome s t os ps) (R : S → S → Prop) (obs : O → Option ω)
    (hstep : ∀ s t i j s' t' o p, R s t → M.step s i = some (s', o) →
      M.step t j = some (t', p) → agree s t i j → outcome o p →
      R s' t' ∧ o.filterMap obs = p.filterMap obs)
    (hR : R s t) : os.filterMap obs = ps.filterMap obs := by
  induction h with
  | nil => rfl
  | cons hs ht ha ho _ ih =>
    obtain ⟨hR', hobs⟩ := hstep _ _ _ _ _ _ _ _ hR hs ht ha ho
    rw [List.filterMap_append, List.filterMap_append, hobs, ih hR']

end Machine

end Ocvpn
