import Ocvpn.Model.Profile

/-!
# Splitting texts

The rules of `split_once` and `split`, and of their relatives `rsplit_once`, `split_once` on a
pattern and `split` at the ends of lines: what the pieces are made of, when there is a split, that
splitting undoes joining, and that it commutes with folding the characters of a text.
-/

namespace Ocvpn

/-- `rsplit_once`. -/
def rsplitOnce (separator : Char) (s : List Char) : Option (List Char × List Char) :=
  (splitOnce separator s.reverse).map fun (after, before) => (before.reverse, after.reverse)

/-- `split_once` on a text. -/
def splitOnceOn (pattern : List Char) : List Char → Option (List Char × List Char)
  | [] => none
  | c :: cs =>
    if pattern.isPrefixOf (c :: cs) then some ([], (c :: cs).drop pattern.length)
    else (splitOnceOn pattern cs).map fun (before, after) => (c :: before, after)

/-- `split("\r\n")`. -/
def splitLines : List Char → List (List Char)
  | [] => [[]]
  | '\r' :: '\n' :: cs => [] :: splitLines cs
  | c :: cs => match splitLines cs with
    | [] => [[c]]
    | line :: lines => (c :: line) :: lines

/-- `windows(n).position(..)` : where a pattern stands first. -/
def position {α : Type} [BEq α] (pattern : List α) : List α → Option ℕ
  | [] => none
  | a :: s => if pattern.isPrefixOf (a :: s) then some 0 else (position pattern s).map (· + 1)

section

variable {separator : Char} {s before after : List Char}

theorem splitOnce_eq_none : splitOnce separator s = none ↔ separator ∉ s := by
  induction s with
  | nil => simp [splitOnce]
  | cons c s ih =>
    rw [splitOnce]
    split
    next hc => simp [hc]
    next hc => simp [ih, Ne.symm hc]

theorem splitOnce_append (h : separator ∉ before) :
    splitOnce separator (before ++ separator :: after) = some (before, after) := by
  induction before with
  | nil => simp [splitOnce]
  | cons c before ih =>
    simp only [List.mem_cons, not_or] at h
    rw [List.cons_append, splitOnce, if_neg (Ne.symm h.1), ih h.2]
    rfl

theorem of_splitOnce (h : splitOnce separator s = some (before, after)) :
    s = before ++ separator :: after ∧ separator ∉ before := by
  induction s generalizing before with
  | nil => cases h
  | cons c s ih =>
    rw [splitOnce] at h
    split at h
    next hc =>
      obtain ⟨rfl, rfl⟩ := Prod.mk.inj (Option.some.inj h)
      exact ⟨by rw [hc]; rfl, List.not_mem_nil⟩
    next hc =>
      obtain ⟨⟨before', after'⟩, hs, heq⟩ := Option.map_eq_some_iff.1 h
      obtain ⟨rfl, rfl⟩ := Prod.mk.inj heq
      obtain ⟨rfl, hnot⟩ := ih hs
      refine ⟨rfl, ?_⟩
      simp only [List.mem_cons, not_or]
      exact ⟨Ne.symm hc, hnot⟩

theorem rsplitOnce_eq_none (h : separator ∉ s) : rsplitOnce separator s = none := by
  rw [rsplitOnce, splitOnce_eq_none.2 (by simpa using h)]
  rfl

theorem rsplitOnce_append (h : separator ∉ after) :
    rsplitOnce separator (before ++ separator :: after) = some (before, after) := by
  have hrev : (before ++ separator :: after).reverse =
      after.reverse ++ separator :: before.reverse := by simp
  rw [rsplitOnce, hrev, splitOnce_append (by simpa using h)]
  simp

theorem of_rsplitOnce (h : rsplitOnce separator s = some (before, after)) :
    s = before ++ separator :: after ∧ separator ∉ after := by
  obtain ⟨⟨l, r⟩, hs, heq⟩ := Option.map_eq_some_iff.1 h
  obtain ⟨rfl, rfl⟩ := Prod.mk.inj heq
  obtain ⟨hrev, hnot⟩ := of_splitOnce hs
  refine ⟨?_, by simpa using hnot⟩
  rw [← List.reverse_reverse s, hrev]
  simp

theorem takeWhile_splitOnce (separator : Char) (s : List Char) :
    s.takeWhile (· ≠ separator) = ((splitOnce separator s).map Prod.fst).getD s := by
  induction s with
  | nil => rfl
  | cons c s ih =>
    by_cases hc : c = separator
    · simp [splitOnce, hc]
    · rw [List.takeWhile_cons_of_pos (by simpa using hc), ih, splitOnce, if_neg hc]
      cases splitOnce separator s <;> rfl

theorem splitOn_ne_nil (separator : Char) (s : List Char) : splitOn separator s ≠ [] := by
  cases s with
  | nil => simp [splitOn]
  | cons c s =>
    rw [splitOn]
    split
    · simp
    · split <;> simp

end

/-- The pattern is found where it starts, if its first character does not occur before. -/
theorem splitOnceOn_append {c : Char} {pattern before after : List Char} (h : c ∉ before) :
    splitOnceOn (c :: pattern) (before ++ (c :: pattern) ++ after) = some (before, after) := by
  induction before with
  | nil =>
    have hstart : (c :: pattern).isPrefixOf (c :: (pattern ++ after)) = true := by
      rw [List.isPrefixOf_iff_prefix]
      exact ⟨after, rfl⟩
    rw [List.nil_append, List.cons_append, splitOnceOn, if_pos hstart]
    simp
  | cons b before ih =>
    simp only [List.mem_cons, not_or] at h
    have hstart : ¬(c :: pattern).isPrefixOf (b :: (before ++ (c :: pattern) ++ after)) = true := by
      simp [List.isPrefixOf, h.1]
    rw [List.cons_append, List.cons_append, splitOnceOn, if_neg hstart, ih h.2]
    rfl

theorem of_splitOnceOn {pattern s before after : List Char}
    (h : splitOnceOn pattern s = some (before, after)) : s = before ++ pattern ++ after := by
  induction s generalizing before with
  | nil => cases h
  | cons c s ih =>
    rw [splitOnceOn] at h
    split at h
    next hstart =>
      obtain ⟨rfl, rfl⟩ := Prod.mk.inj (Option.some.inj h)
      obtain ⟨t, ht⟩ := List.isPrefixOf_iff_prefix.1 hstart
      rw [← ht]
      simp
    next =>
      obtain ⟨⟨before', after'⟩, hs, heq⟩ := Option.map_eq_some_iff.1 h
      obtain ⟨rfl, rfl⟩ := Prod.mk.inj heq
      rw [ih hs]
      rfl

/-! ### Joining -/

section

variable {separator : Char} {s piece line : List Char} {pieces lines : List (List Char)}

theorem of_splitOn (h : splitOn separator s = piece :: pieces) :
    s = piece ++ pieces.flatMap (separator :: ·) := by
  induction s generalizing piece pieces with
  | nil =>
    obtain ⟨rfl, rfl⟩ := List.cons.inj h
    rfl
  | cons c s ih =>
    obtain ⟨first, rest, hs⟩ := List.exists_cons_of_ne_nil (splitOn_ne_nil separator s)
    rw [splitOn, hs] at h
    split at h
    next hc =>
      obtain ⟨rfl, rfl⟩ := List.cons.inj h
      rw [ih hs, hc]
      rfl
    next =>
      obtain ⟨rfl, rfl⟩ := List.cons.inj h
      rw [ih hs]
      rfl

theorem splitOn_append (h : separator ∉ piece) (s : List Char) :
    splitOn separator (piece ++ separator :: s) = piece :: splitOn separator s := by
  induction piece with
  | nil => simp [splitOn]
  | cons c piece ih =>
    simp only [List.mem_cons, not_or] at h
    rw [List.cons_append, splitOn, if_neg (Ne.symm h.1), ih h.2]

theorem splitOn_self (h : separator ∉ piece) : splitOn separator piece = [piece] := by
  induction piece with
  | nil => rfl
  | cons c piece ih =>
    simp only [List.mem_cons, not_or] at h
    rw [splitOn, if_neg (Ne.symm h.1), ih h.2]

theorem splitLines_ne_nil (s : List Char) : splitLines s ≠ [] := by
  fun_cases splitLines s <;> simp_all

theorem splitLines_cons {c : Char} (h : c ≠ '\r') (hs : splitLines s = line :: lines) :
    splitLines (c :: s) = (c :: line) :: lines := by
  rw [splitLines, hs]
  exact fun _ hc => absurd hc h

theorem of_splitLines (h : splitLines s = line :: lines) :
    s = line ++ lines.flatMap ("\r\n".toList ++ ·) := by
  induction s using splitLines.induct generalizing line lines with
  | case1 =>
    obtain ⟨rfl, rfl⟩ := List.cons.inj h
    rfl
  | case2 s ih =>
    obtain ⟨first, rest, hs⟩ := List.exists_cons_of_ne_nil (splitLines_ne_nil s)
    rw [splitLines, hs] at h
    obtain ⟨rfl, rfl⟩ := List.cons.inj h
    rw [ih hs]
    rfl
  | case3 c s hne hs => exact absurd hs (splitLines_ne_nil s)
  | case4 c s hne first rest hs ih =>
    rw [splitLines, hs] at h
    · obtain ⟨rfl, rfl⟩ := List.cons.inj h
      rw [ih hs]
      rfl
    · exact hne

theorem splitLines_self (h : '\r' ∉ line) : splitLines line = [line] := by
  induction line with
  | nil => rfl
  | cons c line ih =>
    simp only [List.mem_cons, not_or] at h
    exact splitLines_cons (Ne.symm h.1) (ih h.2)

theorem splitLines_append (h : '\r' ∉ line) (s : List Char) :
    splitLines (line ++ ("\r\n".toList ++ s)) = line :: splitLines s := by
  induction line with
  | nil => rfl
  | cons c line ih =>
    simp only [List.mem_cons, not_or] at h
    exact splitLines_cons (Ne.symm h.1) (ih h.2)

/-- Joined lines are split again, if no carriage return is in one. -/
theorem splitLines_join (h : '\r' ∉ line) (hlines : ∀ l ∈ lines, '\r' ∉ l) :
    splitLines (line ++ lines.flatMap ("\r\n".toList ++ ·)) = line :: lines := by
  induction lines generalizing line with
  | nil => rw [List.flatMap_nil, List.append_nil, splitLines_self h]
  | cons l lines ih =>
    rw [List.flatMap_cons, List.append_assoc, splitLines_append h,
      ih (hlines l List.mem_cons_self) fun l hl => hlines l (List.mem_cons_of_mem _ hl)]

end

/-! ### Windows -/

section

variable {α : Type} [BEq α] [LawfulBEq α] {pattern s : List α} {i : ℕ}

theorem position_le (h : position pattern s = some i) : i + pattern.length ≤ s.length := by
  induction s generalizing i with
  | nil => cases h
  | cons a s ih =>
    rw [position] at h
    split at h
    next hstart =>
      obtain rfl := Option.some.inj h
      rw [Nat.zero_add]
      exact (List.isPrefixOf_iff_prefix.1 hstart).length_le
    next =>
      obtain ⟨j, hj, rfl⟩ := Option.map_eq_some_iff.1 h
      have hle := ih hj
      rw [List.length_cons]
      omega

/-- A pattern that was found stays where it is when more is read. -/
theorem position_append (h : position pattern s = some i) (t : List α) :
    position pattern (s ++ t) = some i := by
  induction s generalizing i with
  | nil => cases h
  | cons a s ih =>
    rw [position] at h
    rw [List.cons_append, position]
    split at h
    next hstart =>
      have hlonger : pattern.isPrefixOf (a :: (s ++ t)) = true := by
        rw [List.isPrefixOf_iff_prefix] at hstart ⊢
        exact hstart.trans (List.prefix_append (a :: s) t)
      rw [if_pos hlonger]
      exact h
    next hstart =>
      obtain ⟨j, hj, rfl⟩ := Option.map_eq_some_iff.1 h
      -- The pattern fits into `s`, so it does not start at `a` with the help of `t` either.
      have hfits : pattern.length ≤ (a :: s).length := by
        have hle := position_le hj
        rw [List.length_cons]
        omega
      have hnot : ¬pattern.isPrefixOf (a :: (s ++ t)) = true := by
        rw [List.isPrefixOf_iff_prefix] at hstart ⊢
        exact fun hp => hstart (List.prefix_of_prefix_length_le hp
          (List.prefix_append (a :: s) t) hfits)
      rw [if_neg hnot, ih hj]
      rfl

end

/-! ### Folding -/

section

variable {g : Char → Option Char} {separator : Char}

theorem splitOnce_filterMap (hg : ∀ c, g c = some separator ↔ c = separator) (s : List Char) :
    splitOnce separator (s.filterMap g) =
      (splitOnce separator s).map fun p => (p.1.filterMap g, p.2.filterMap g) := by
  induction s with
  | nil => rfl
  | cons c s ih =>
    by_cases hc : c = separator
    · simp [splitOnce, hc, (hg separator).2 rfl]
    · cases h : g c with
      | none =>
        rw [List.filterMap_cons_none h, ih, splitOnce, if_neg hc, Option.map_map]
        simp [Function.comp_def, h]
      | some a =>
        have ha : a ≠ separator := fun ha => hc ((hg c).1 (by rw [h, ha]))
        rw [List.filterMap_cons_some h, splitOnce, if_neg ha, ih, splitOnce, if_neg hc,
          Option.map_map, Option.map_map]
        simp [Function.comp_def, h]

theorem splitOn_filterMap (hg : ∀ c, g c = some separator ↔ c = separator) (s : List Char) :
    splitOn separator (s.filterMap g) = (splitOn separator s).map (List.filterMap g) := by
  induction s with
  | nil => rfl
  | cons c s ih =>
    by_cases hc : c = separator
    · simp [splitOn, hc, (hg separator).2 rfl, ih]
    · obtain ⟨piece, pieces, hs⟩ := List.exists_cons_of_ne_nil (splitOn_ne_nil separator s)
      rw [hs] at ih
      cases h : g c with
      | none => simp [splitOn, hc, h, ih, hs]
      | some a =>
        have ha : a ≠ separator := fun ha => hc ((hg c).1 (by rw [h, ha]))
        simp [splitOn, hc, h, ha, ih, hs]

end

end Ocvpn
