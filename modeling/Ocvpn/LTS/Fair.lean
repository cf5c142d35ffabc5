import Ocvpn.LTS.Basic

/-!
# Fair runs

An infinite run of a `Machine` in which every thread gets its turns.  A machine of several threads
says which thread an input belongs to; the run is *strongly fair* when a thread that can move again
and again does move again and again.  A run that stops is one that rests forever.

## Main results

* `Trace.invariant` : an inductive invariant holds at all times.
* `Trace.progress` : what stays true until something happens, and is ended by any move of a thread
  that can move again and again, makes it happen.
-/

namespace Ocvpn.Machine

variable {S I O T : Type*}

/-- An infinite run; at each time the machine takes an input or rests. -/
structure Trace (M : Machine S I O) where
  state : ℕ → S
  input : ℕ → Option I
  output : ℕ → List O
  step : ∀ n, match input n with
    | some i => M.step (state n) i = some (state (n + 1), output n)
    | none => state (n + 1) = state n ∧ output n = []

/-- Some input of the thread is possible. -/
def Enabled (M : Machine S I O) (thread : I → Option T) (t : T) (s : S) : Prop :=
  ∃ i, thread i = some t ∧ (M.step s i).isSome

namespace Trace

variable {M : Machine S I O} (τ : Trace M)

/-- The thread moves at time `n`. -/
def Moves (thread : I → Option T) (t : T) (n : ℕ) : Prop := ∃ i, τ.input n = some i ∧ thread i = some t

/-- A thread that can move again and again moves again and again. -/
def Fair (thread : I → Option T) : Prop :=
  ∀ t, (∀ n, ∃ m ≥ n, M.Enabled thread t (τ.state m)) → ∀ n, ∃ m ≥ n, τ.Moves thread t m

variable {τ}

/-- What happens between two times. -/
theorem cases_step (n : ℕ) :
    (τ.state (n + 1) = τ.state n ∧ τ.output n = []) ∨
      ∃ i, τ.input n = some i ∧ M.step (τ.state n) i = some (τ.state (n + 1), τ.output n) := by
  have h := τ.step n
  cases hi : τ.input n with
  | none => exact .inl (by simpa only [hi] using h)
  | some i => exact .inr ⟨i, rfl, by simpa only [hi] using h⟩

/-- The step of a thread that moves. -/
theorem Moves.step {thread : I → Option T} {t : T} {n : ℕ} (h : τ.Moves thread t n) :
    ∃ i, thread i = some t ∧ M.step (τ.state n) i = some (τ.state (n + 1), τ.output n) := by
  obtain ⟨i, hi, ht⟩ := h
  refine ⟨i, ht, ?_⟩
  have hstep := τ.step n
  simpa only [hi] using hstep

theorem reaches (n : ℕ) : M.Reaches (τ.state 0) (τ.state n) := by
  induction n with
  | zero => exact .refl
  | succ n ih =>
    obtain ⟨h, -⟩ | ⟨i, -, h⟩ := τ.cases_step n
    · rw [h]
      exact ih
    · exact ih.tail ⟨i, _, h⟩

/-- An inductive invariant holds at all times. -/
theorem invariant {P : S → Prop} (h₀ : P (τ.state 0))
    (hstep : ∀ s i s' o, P s → M.step s i = some (s', o) → P s') (n : ℕ) : P (τ.state n) :=
  (τ.reaches n).preserves h₀ hstep

/-- What holds until `Q` happens holds at a later time, or `Q` has happened before. -/
theorem holds_until {P : S → Prop} {Q : ℕ → Prop} {n m : ℕ} (hnm : n ≤ m) (hn : P (τ.state n))
    (hstay : ∀ k, P (τ.state k) → P (τ.state (k + 1)) ∨ Q k) : P (τ.state m) ∨ ∃ k ≥ n, Q k := by
  obtain ⟨d, rfl⟩ := Nat.exists_eq_add_of_le hnm
  clear hnm
  induction d with
  | zero => exact .inl hn
  | succ d ih =>
    obtain hm | hq := ih
    · exact (hstay _ hm).imp id fun hq => ⟨n + d, Nat.le_add_right n d, hq⟩
    · exact .inr hq

/-- **Progress**: `P` holds until `Q` happens, `t` can move again and again in the meantime, and its
move makes `Q` happen. -/
theorem progress {thread : I → Option T} (hfair : τ.Fair thread) {P : S → Prop} {Q : ℕ → Prop}
    (t : T) {n : ℕ} (hn : P (τ.state n))
    (hstay : ∀ m, P (τ.state m) → ¬ τ.Moves thread t m → P (τ.state (m + 1)) ∨ Q m)
    (hmove : ∀ m, P (τ.state m) → τ.Moves thread t m → Q m)
    (henabled : ∀ m, P (τ.state m) →
      (∃ k ≥ m, M.Enabled thread t (τ.state k)) ∨ ∃ k ≥ m, Q k) : ∃ m ≥ n, Q m := by
  by_contra hnone
  push Not at hnone
  have hkeep : ∀ d, P (τ.state (n + d)) := by
    intro d
    induction d with
    | zero => exact hn
    | succ d ih =>
      by_cases ht : τ.Moves thread t (n + d)
      · exact absurd (hmove _ ih ht) (hnone _ (Nat.le_add_right n d))
      · exact (hstay _ ih ht).resolve_right (hnone _ (Nat.le_add_right n d))
  have hagain : ∀ k, ∃ m ≥ k, M.Enabled thread t (τ.state m) := by
    intro k
    obtain ⟨m, hm, he⟩ | ⟨m, hm, hq⟩ := henabled _ (hkeep k)
    · exact ⟨m, by omega, he⟩
    · exact absurd hq (hnone m (by omega))
  obtain ⟨m, hm, ht⟩ := hfair t hagain n
  obtain ⟨d, rfl⟩ := Nat.exists_eq_add_of_le hm
  exact hnone _ hm (hmove _ (hkeep d) ht)

end Trace

end Ocvpn.Machine
