import Mathlib

/-!
# What holds at each entry of a history

`AtEach P os` says that every entry of the list `os` is justified by the entries before it.  A
machine's outputs satisfy it when every step keeps it.
-/

namespace Ocvpn

variable {O : Type*} {P : List O → O → Prop} {os o : List O}

/-- Every entry satisfies `P`, which may look at the entries before it. -/
def AtEach (P : List O → O → Prop) (os : List O) : Prop :=
  ∀ before n after, os = before ++ n :: after → P before n

/-- An entry of a history that grew by one is the last entry or an earlier one. -/
theorem eq_of_snoc {n m : O} {before after : List O} (h : os ++ [n] = before ++ m :: after) :
    (before = os ∧ m = n ∧ after = []) ∨ ∃ mid, after = mid ++ [n] ∧ os = before ++ m :: mid := by
  rcases List.eq_nil_or_concat after with rfl | ⟨mid, last, rfl⟩
  · obtain ⟨rfl, hlast⟩ := List.append_inj' h rfl
    exact .inl ⟨rfl, (List.cons.inj hlast).1.symm, rfl⟩
  · rw [List.concat_eq_append, ← List.cons_append, ← List.append_assoc] at h
    obtain ⟨rfl, hlast⟩ := List.append_inj' h rfl
    obtain rfl := (List.cons.inj hlast).1
    exact .inr ⟨mid, List.concat_eq_append, rfl⟩

namespace AtEach

theorem nil : AtEach P [] := by
  intro before n after h
  simp at h

/-- Entries are added at the end. -/
theorem append (hos : AtEach P os)
    (ho : ∀ before n after, o = before ++ n :: after → P (os ++ before) n) :
    AtEach P (os ++ o) := by
  intro before n after h
  rcases List.append_eq_append_iff.1 h with ⟨mid, rfl, hmid⟩ | ⟨mid, hmid, hafter⟩
  · exact ho mid n after hmid
  · cases mid with
    | nil =>
      rw [List.append_nil] at hmid
      subst hmid
      simpa using ho [] n after (by simpa using hafter.symm)
    | cons m mid =>
      obtain ⟨rfl, -⟩ := List.cons.inj hafter
      exact hos before n mid hmid

/-- Entries that need no justification. -/
theorem append_of_mem (hos : AtEach P os) (ho : ∀ n ∈ o, ∀ before, P before n) :
    AtEach P (os ++ o) :=
  hos.append fun before n after h => ho n (by simp [h]) _

theorem snoc {n : O} (hos : AtEach P os) (hn : P os n) : AtEach P (os ++ [n]) := by
  refine hos.append fun before m after h => ?_
  obtain ⟨rfl, hm⟩ | ⟨rest, rfl, hrest⟩ := List.cons_eq_append_iff.1 h
  · cases hm
    simpa using hn
  · simp at hrest

end AtEach

end Ocvpn
