import Mathlib

/-!
# Blocks of addresses and longest-match tables

A prefix of a `w`-bit address space with `h` host bits is the block of the `2 ^ h` addresses
that agree above the lowest `h` bits.  Two blocks are nested or disjoint, so the longest match
in a table is decided by comparing lengths only.

## Main definitions

* `SameBlock h a b` : `a` and `b` agree above the lowest `h` bits.
* `BlockSpace ρ α` : prefixes `ρ` of destinations `α`, nested by length.
* `BlockSpace.Longest t d e` : `e` is a longest match for `d` in the table `t`.

## Main results

* `SameBlock.mono` : a longer block lies inside the shorter one it meets.
* `sameBlock_halves` : a block is the union of its two halves.
* `BlockSpace.exists_longest` : a matched destination has a longest match.
* `BlockSpace.Longest.ne_of_dominated`, `BlockSpace.Longest.eq_of_unopposed` : when every
  entry of one verdict is outranked, respectively when only one verdict matches at all, the
  longest match is decided.
-/

namespace Ocvpn

/-! ### Blocks of numbers -/

/-- `a` and `b` agree above the lowest `h` bits. -/
def SameBlock (h a b : ℕ) : Prop := a / 2 ^ h = b / 2 ^ h

instance (h a b : ℕ) : Decidable (SameBlock h a b) := inferInstanceAs (Decidable (_ = _))

namespace SameBlock

variable {h k a b c : ℕ}

@[refl] theorem refl (h a : ℕ) : SameBlock h a a := rfl

theorem symm (hab : SameBlock h a b) : SameBlock h b a := Eq.symm hab

theorem trans (hab : SameBlock h a b) (hbc : SameBlock h b c) : SameBlock h a c :=
  Eq.trans hab hbc

theorem mono (hhk : h ≤ k) (hab : SameBlock h a b) : SameBlock k a b := by
  obtain ⟨m, rfl⟩ := Nat.exists_eq_add_of_le hhk
  unfold SameBlock at *
  rw [Nat.pow_add, ← Nat.div_div_eq_div_mul, ← Nat.div_div_eq_div_mul, hab]

theorem zero_iff : SameBlock 0 a b ↔ a = b := by simp [SameBlock]

end SameBlock

/-- The first address of the block of `a`. -/
def blockStart (h a : ℕ) : ℕ := a / 2 ^ h * 2 ^ h

@[simp] theorem blockStart_zero (a : ℕ) : blockStart 0 a = a := by simp [blockStart]

theorem blockStart_le (h a : ℕ) : blockStart h a ≤ a := Nat.div_mul_le_self _ _

theorem sameBlock_blockStart (h a : ℕ) : SameBlock h (blockStart h a) a := by
  rw [SameBlock, blockStart, Nat.mul_div_cancel _ (Nat.two_pow_pos h)]

theorem sameBlock_iff_blockStart_eq {h a b : ℕ} :
    SameBlock h a b ↔ blockStart h a = blockStart h b := by
  constructor
  · intro hab
    rw [blockStart, hab, blockStart]
  · intro hab
    exact (sameBlock_blockStart h a).symm.trans (hab ▸ sameBlock_blockStart h b)

/-- A block of `h + 1` host bits is its lower and its upper half. -/
theorem sameBlock_halves {h a d : ℕ} (had : SameBlock (h + 1) a d)
    (ha : blockStart (h + 1) a = a) : SameBlock h a d ∨ SameBlock h (a + 2 ^ h) d := by
  have hpos : 0 < 2 ^ h := Nat.two_pow_pos h
  have hd : d / 2 ^ h / 2 = a / 2 ^ h / 2 := by
    simpa [SameBlock, Nat.pow_succ, Nat.div_div_eq_div_mul] using had.symm
  have hev : a / 2 ^ h % 2 = 0 := by
    have : a = a / 2 ^ (h + 1) * 2 * 2 ^ h := by
      conv_lhs => rw [← ha, blockStart]
      rw [Nat.pow_succ, Nat.mul_comm (2 ^ h) 2, Nat.mul_assoc]
    rw [this, Nat.mul_div_cancel _ hpos]
    exact Nat.mul_mod_left _ _
  have hup : (a + 2 ^ h) / 2 ^ h = a / 2 ^ h + 1 := Nat.add_div_right _ hpos
  unfold SameBlock
  omega

/-! ### Tables -/

/-- Prefixes `ρ` of destinations `α`: of two prefixes that match one destination the longer
one lies inside the shorter one. -/
structure BlockSpace (ρ α : Type*) where
  /-- The prefix matches the destination. -/
  covers : ρ → α → Prop
  /-- The prefix length. -/
  length : ρ → ℕ
  /-- Prefixes are nested. -/
  nested : ∀ {p q d x}, covers p d → covers q d → length p ≤ length q → covers q x → covers p x

namespace BlockSpace

variable {ρ α β : Type*} (B : BlockSpace ρ α)

/-- The entry `e` is a longest match for `d` in the table `t`. -/
def Longest (t : List (ρ × β)) (d : α) (e : ρ × β) : Prop :=
  e ∈ t ∧ B.covers e.1 d ∧ ∀ e' ∈ t, B.covers e'.1 d → B.length e'.1 ≤ B.length e.1

variable {B}

theorem exists_longest {t : List (ρ × β)} {d : α} (h : ∃ e ∈ t, B.covers e.1 d) :
    ∃ e, B.Longest t d e := by
  classical
  obtain ⟨e, he, hd⟩ := h
  have hne : (t.filter fun e => decide (B.covers e.1 d)) ≠ [] :=
    List.ne_nil_of_mem (List.mem_filter.2 ⟨he, decide_eq_true hd⟩)
  obtain ⟨m, hm⟩ := Option.ne_none_iff_exists'.1
    (mt List.argmax_eq_none.1 hne : List.argmax (fun e => B.length e.1) _ ≠ none)
  obtain ⟨hmt, hmd⟩ := List.mem_filter.1 (List.argmax_mem hm)
  refine ⟨m, hmt, of_decide_eq_true hmd, fun e' he' hd' => ?_⟩
  exact List.le_of_mem_argmax (f := fun e : ρ × β => B.length e.1)
    (List.mem_filter.2 ⟨he', decide_eq_true hd'⟩) hm

/-- If every matching entry with verdict `v` is outranked by one with another verdict, no
longest match has verdict `v`. -/
theorem Longest.ne_of_dominated {t : List (ρ × β)} {d : α} {e : ρ × β} {v : β}
    (he : B.Longest t d e)
    (h : ∀ e ∈ t, e.2 = v → B.covers e.1 d →
      ∃ e' ∈ t, B.covers e'.1 d ∧ B.length e.1 < B.length e'.1) : e.2 ≠ v := by
  intro hv
  obtain ⟨e', he', hd', hlt⟩ := h e he.1 hv he.2.1
  exact absurd (he.2.2 e' he' hd') (Nat.not_le.2 hlt)

/-- If every matching entry has verdict `v`, so has the longest match. -/
theorem Longest.eq_of_unopposed {t : List (ρ × β)} {d : α} {e : ρ × β} {v : β}
    (he : B.Longest t d e) (h : ∀ e ∈ t, B.covers e.1 d → e.2 = v) : e.2 = v :=
  h e he.1 he.2.1

end BlockSpace

end Ocvpn
