import Mathlib

/-!
# Digit groups of a bit string

The bits of a value, the most significant first, and how they are cut into groups.  A packing loop
reads groups of one width and writes groups of another; it is right when the bits it has written,
followed by those it still holds, are the bits it has read.

## Main results

* `msbFirst_add`, `msbFirst_mul` : the bits of a value are those of its groups, one after the other.
-/

namespace Ocvpn

/-- The bits `f (n - 1), …, f 0`. -/
def msbFirst : ℕ → (ℕ → Bool) → List Bool
  | 0, _ => []
  | n + 1, f => f n :: msbFirst n f

@[simp] theorem msbFirst_zero (f : ℕ → Bool) : msbFirst 0 f = [] := rfl

@[simp] theorem msbFirst_length (n : ℕ) (f : ℕ → Bool) : (msbFirst n f).length = n := by
  induction n with
  | zero => rfl
  | succ n ih => simp [msbFirst, ih]

theorem msbFirst_inj {n : ℕ} {f g : ℕ → Bool} :
    msbFirst n f = msbFirst n g ↔ ∀ i < n, f i = g i := by
  induction n with
  | zero => simp
  | succ n ih =>
    rw [msbFirst, msbFirst, List.cons.injEq, ih]
    constructor
    · rintro ⟨hn, h⟩ i hi
      rcases Nat.lt_succ_iff_lt_or_eq.1 hi with hlt | rfl
      · exact h i hlt
      · exact hn
    · intro h
      exact ⟨h n (by omega), fun i hi => h i (by omega)⟩

/-- The upper bits and the lower ones. -/
theorem msbFirst_add (m n : ℕ) (f : ℕ → Bool) :
    msbFirst (m + n) f = msbFirst m (fun i => f (n + i)) ++ msbFirst n f := by
  induction m with
  | zero => simp
  | succ m ih => rw [Nat.succ_add, msbFirst, ih, msbFirst, Nat.add_comm n m, List.cons_append]

/-- The groups of `k` bits, the uppermost first. -/
theorem msbFirst_mul (k n : ℕ) (f : ℕ → Bool) :
    msbFirst (n * k) f = (List.range n).reverse.flatMap fun i => msbFirst k fun j => f (i * k + j) := by
  induction n with
  | zero => simp
  | succ n ih =>
    rw [Nat.succ_mul, Nat.add_comm, msbFirst_add, ih, List.range_succ]
    simp

end Ocvpn
