import Mathlib

/-!
# Computations that return, fail or panic

A Rust function ends in one of three ways: it returns a value, it returns an error, or it
panics (an arithmetic underflow, a shift by the width of the type or more).  `Exec ε α` keeps the
three apart, so that "no panic" is a statement about the value of the model and not a property
of the translation.

The rules below peel a successful run apart: `Exec.bind_eq_ok` for one step, and
`Exec.mapM_eq`, `Exec.anyM_eq`, `Exec.filterM_eq` for the loops over lists whose body is known
to succeed on every element.  `Exec.Safe` says that a computation does not panic, and `Exec.Alike`
that two of them end alike.
-/

namespace Ocvpn

/-- How a computation ends when it does not return. -/
inductive Fault (ε : Type*) where
  /-- It returned an error. -/
  | error (e : ε)
  /-- It panicked. -/
  | panic
  deriving DecidableEq, Repr

/-- A computation that returns, fails or panics. -/
abbrev Exec (ε α : Type*) := Except (Fault ε) α

namespace Exec

variable {ε α β : Type}

/-- Return an error. -/
def fail (e : ε) : Exec ε α := .error (.error e)

/-- Return the error `e` when `bad` holds. -/
def rejectIf (bad : Bool) (e : ε) : Exec ε Unit := if bad then fail e else pure ()

/-- Unsigned subtraction. -/
def sub (a b : ℕ) : Exec ε ℕ := if b ≤ a then pure (a - b) else .error .panic

/-- `x << n` on `w` bits. -/
def shl {w : ℕ} (x : BitVec w) (n : ℕ) : Exec ε (BitVec w) :=
  if n < w then pure (x <<< n) else .error .panic

/-- `x >> n` on `w` bits. -/
def shr {w : ℕ} (x : BitVec w) (n : ℕ) : Exec ε (BitVec w) :=
  if n < w then pure (x >>> n) else .error .panic

theorem bind_eq_ok {x : Exec ε α} {f : α → Exec ε β} {b : β} :
    (x >>= f) = .ok b ↔ ∃ a, x = .ok a ∧ f a = .ok b := by
  cases x with
  | error e => simp [bind, Except.bind]
  | ok a => simp [bind, Except.bind]

@[simp] theorem ok_bind (a : α) (f : α → Exec ε β) : ((.ok a : Exec ε α) >>= f) = f a := rfl

@[simp] theorem pure_eq_ok (a : α) : (pure a : Exec ε α) = .ok a := rfl

@[simp] theorem fail_ne_ok (e : ε) (a : α) : (fail e : Exec ε α) ≠ .ok a := by simp [fail]

@[simp] theorem rejectIf_eq_ok {bad : Bool} {e : ε} {u : Unit} :
    rejectIf bad e = .ok u ↔ bad = false := by
  cases bad <;> simp [rejectIf, fail]

theorem sub_eq_ok {a b : ℕ} (h : b ≤ a) : (sub a b : Exec ε ℕ) = .ok (a - b) := by
  simp [sub, h]

theorem shl_eq_ok {w n : ℕ} (x : BitVec w) (h : n < w) :
    (shl x n : Exec ε (BitVec w)) = .ok (x <<< n) := by
  simp [shl, h]

theorem shr_eq_ok {w n : ℕ} (x : BitVec w) (h : n < w) :
    (shr x n : Exec ε (BitVec w)) = .ok (x >>> n) := by
  simp [shr, h]

/-! ### Loops over lists -/

theorem mapM_eq {l : List α} {f : α → Exec ε β} {g : α → β} (h : ∀ a ∈ l, f a = .ok (g a)) :
    l.mapM f = .ok (l.map g) := by
  induction l with
  | nil => rfl
  | cons a l ih =>
    rw [List.mapM_cons, h a List.mem_cons_self, ok_bind,
      ih fun b hb => h b (List.mem_cons_of_mem _ hb)]
    rfl

theorem anyM_eq {l : List α} {p : α → Exec ε Bool} {q : α → Bool}
    (h : ∀ a ∈ l, p a = .ok (q a)) : l.anyM p = .ok (l.any q) := by
  induction l with
  | nil => rfl
  | cons a l ih =>
    have ih' := ih fun b hb => h b (List.mem_cons_of_mem _ hb)
    rw [List.anyM, h a List.mem_cons_self, ok_bind]
    cases hq : q a <;> simp [hq, ih']

theorem filterM_eq {l : List α} {p : α → Exec ε Bool} {q : α → Bool}
    (h : ∀ a ∈ l, p a = .ok (q a)) : l.filterM p = .ok (l.filter q) := by
  have aux : ∀ (l acc : List α), (∀ a ∈ l, p a = .ok (q a)) →
      List.filterAuxM p l acc = .ok ((l.filter q).reverse ++ acc) := by
    intro l
    induction l with
    | nil => intro acc _; rfl
    | cons a l ih =>
      intro acc h
      rw [List.filterAuxM, h a List.mem_cons_self, ok_bind,
        ih _ fun b hb => h b (List.mem_cons_of_mem _ hb)]
      cases hq : q a <;> simp [hq]
  rw [List.filterM, aux l [] h]
  simp

theorem forM_eq_ok {l : List α} {f : α → Exec ε Unit} :
    l.forM f = .ok () ↔ ∀ a ∈ l, f a = .ok () := by
  induction l with
  | nil => simp [List.forM]
  | cons a l ih =>
    change (f a >>= fun _ => l.forM f) = _ ↔ _
    rw [bind_eq_ok, List.forall_mem_cons]
    constructor
    · rintro ⟨⟨⟩, ha, hl⟩
      exact ⟨ha, ih.1 hl⟩
    · rintro ⟨ha, hl⟩
      exact ⟨(), ha, ih.2 hl⟩

/-! ### Panics -/

/-- The computation does not panic. -/
def Safe (x : Exec ε α) : Prop := x ≠ .error .panic

namespace Safe

theorem pure (a : α) : Safe (Pure.pure a : Exec ε α) := by simp [Safe]

theorem fail (e : ε) : Safe (Exec.fail e : Exec ε α) := by simp [Safe, Exec.fail]

theorem rejectIf (bad : Bool) (e : ε) : Safe (Exec.rejectIf bad e) := by
  cases bad <;> simp [Safe, Exec.rejectIf, Exec.fail]

theorem bind {x : Exec ε α} {f : α → Exec ε β} (hx : Safe x) (hf : ∀ a, x = .ok a → Safe (f a)) :
    Safe (x >>= f) := by
  cases x with
  | ok a => exact hf a rfl
  | error e =>
    intro h
    exact hx (by injection h with h; rw [h])

theorem forM {l : List α} {f : α → Exec ε Unit} (h : ∀ a ∈ l, Safe (f a)) : Safe (l.forM f) := by
  induction l with
  | nil => exact pure ()
  | cons a l ih =>
    change Safe (f a >>= fun _ => l.forM f)
    exact bind (h a (by simp)) fun _ _ => ih fun b hb => h b (by simp [hb])

end Safe

/-! ### Two computations -/

/-- Both return the same value, or both return an error. -/
def Alike (x y : Exec ε α) : Prop :=
  (∃ a, x = .ok a ∧ y = .ok a) ∨ ∃ e e', x = .fail e ∧ y = .fail e'

namespace Alike

theorem ok (a : α) : Alike (.ok a : Exec ε α) (.ok a) := .inl ⟨a, rfl, rfl⟩

theorem fail (e e' : ε) : Alike (Exec.fail e : Exec ε α) (.fail e') := .inr ⟨e, e', rfl, rfl⟩

theorem rejectIf (bad : Bool) (e e' : ε) : Alike (Exec.rejectIf bad e) (Exec.rejectIf bad e') := by
  cases bad with
  | false => exact ok ()
  | true => exact fail e e'

theorem bind {x y : Exec ε α} {f g : α → Exec ε β} (h : Alike x y) (hf : ∀ a, Alike (f a) (g a)) :
    Alike (x >>= f) (y >>= g) := by
  obtain ⟨a, rfl, rfl⟩ | ⟨e, e', rfl, rfl⟩ := h
  · exact hf a
  · exact fail e e'

end Alike

end Exec

end Ocvpn
