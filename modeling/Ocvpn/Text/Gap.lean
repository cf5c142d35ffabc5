import Ocvpn.Exec.Basic

/-!
# Text edited at a byte offset

A Rust string is a sequence of characters that is indexed by bytes: a slice or a replacement at an
offset inside a character panics.  `cut` finds the characters before and after an offset, and
`sliceTo`, `sliceFrom`, `insertStr` and `replaceRange` are the operations of `str` on it.

A `Gap` is the same text with the place of the cursor between two lists.  Its operations cannot
go wrong, and code that keeps an offset is checked against them.
-/

namespace Ocvpn

/-! ### Offsets -/

/-- `str::len`: the number of bytes of the text. -/
def utf8Len (s : List Char) : ℕ := (s.map Char.utf8Size).sum

@[simp] theorem utf8Len_nil : utf8Len [] = 0 := rfl

@[simp] theorem utf8Len_cons (c : Char) (s : List Char) :
    utf8Len (c :: s) = c.utf8Size + utf8Len s := by simp [utf8Len]

@[simp] theorem utf8Len_append (s t : List Char) :
    utf8Len (s ++ t) = utf8Len s + utf8Len t := by simp [utf8Len]

theorem utf8ByteSize_ofList (s : List Char) : (String.ofList s).utf8ByteSize = utf8Len s := by
  induction s with
  | nil => rfl
  | cons c s ih =>
    rw [String.ofList_cons, String.utf8ByteSize_append, String.utf8ByteSize_singleton, ih,
      utf8Len_cons]

theorem utf8Len_pos {s : List Char} (h : s ≠ []) : 0 < utf8Len s := by
  cases s with
  | nil => exact absurd rfl h
  | cons c s =>
    have hc := c.utf8Size_pos
    simp only [utf8Len_cons]
    omega

/-- The characters before and after an offset; `none` inside a character or past the end. -/
def cut : List Char → ℕ → Option (List Char × List Char)
  | s, 0 => some ([], s)
  | [], _ + 1 => none
  | c :: s, n + 1 =>
    if c.utf8Size ≤ n + 1 then (cut s (n + 1 - c.utf8Size)).map fun p => (c :: p.1, p.2) else none

/-- `str::is_char_boundary`. -/
def IsCharBoundary (s : List Char) (i : ℕ) : Prop := ∃ l r, s = l ++ r ∧ i = utf8Len l

theorem cut_append (l r : List Char) : cut (l ++ r) (utf8Len l) = some (l, r) := by
  induction l with
  | nil => cases r <;> rfl
  | cons c l ih =>
    obtain ⟨n, hn⟩ : ∃ n, utf8Len (c :: l) = n + 1 :=
      ⟨_, (Nat.succ_pred_eq_of_pos (utf8Len_pos (by simp))).symm⟩
    have hrest : n + 1 - c.utf8Size = utf8Len l := by
      rw [← hn, utf8Len_cons, Nat.add_sub_cancel_left]
    have hle : c.utf8Size ≤ n + 1 := by
      rw [← hn, utf8Len_cons]
      omega
    rw [List.cons_append, hn, cut, if_pos hle, hrest, ih]
    rfl

theorem append_of_cut {s l r : List Char} {i : ℕ} (h : cut s i = some (l, r)) :
    s = l ++ r ∧ i = utf8Len l := by
  induction s generalizing i l with
  | nil =>
    cases i with
    | zero =>
      obtain ⟨rfl, rfl⟩ := Prod.mk.inj (Option.some.inj h)
      exact ⟨rfl, rfl⟩
    | succ n => exact absurd h (by simp [cut])
  | cons c s ih =>
    cases i with
    | zero =>
      obtain ⟨rfl, rfl⟩ := Prod.mk.inj (Option.some.inj h)
      exact ⟨rfl, rfl⟩
    | succ n =>
      rw [cut] at h
      split at h
      next hle =>
        obtain ⟨⟨l', r'⟩, hcut, hl⟩ := Option.map_eq_some_iff.1 h
        obtain ⟨rfl, rfl⟩ := Prod.mk.inj hl
        obtain ⟨rfl, hn⟩ := ih hcut
        refine ⟨rfl, ?_⟩
        simp only [utf8Len_cons]
        omega
      next => exact absurd h (by simp)

/-- The offsets where a text can be cut are its character boundaries. -/
theorem cut_isSome {s : List Char} {i : ℕ} : (cut s i).isSome ↔ IsCharBoundary s i := by
  constructor
  · intro h
    obtain ⟨⟨l, r⟩, hcut⟩ := Option.isSome_iff_exists.1 h
    exact ⟨l, r, append_of_cut hcut⟩
  · rintro ⟨l, r, rfl, rfl⟩
    rw [cut_append]
    rfl

theorem IsCharBoundary.le {s : List Char} {i : ℕ} (h : IsCharBoundary s i) : i ≤ utf8Len s := by
  obtain ⟨l, r, rfl, rfl⟩ := h
  simp

/-! ### The operations of `str` -/

section

variable {ε : Type}

/-- `&s[..i]`. -/
def sliceTo (s : List Char) (i : ℕ) : Exec ε (List Char) :=
  match cut s i with
  | some (l, _) => .ok l
  | none => .error .panic

/-- `&s[i..]`. -/
def sliceFrom (s : List Char) (i : ℕ) : Exec ε (List Char) :=
  match cut s i with
  | some (_, r) => .ok r
  | none => .error .panic

/-- `String::insert_str`. -/
def insertStr (s : List Char) (i : ℕ) (text : List Char) : Exec ε (List Char) := do
  let before ← sliceTo s i
  let after ← sliceFrom s i
  return before ++ text ++ after

/-- `String::replace_range(i..j, text)`. -/
def replaceRange (s : List Char) (i j : ℕ) (text : List Char) : Exec ε (List Char) := do
  let before ← sliceTo s i
  let after ← sliceFrom s j
  if i ≤ j then return before ++ text ++ after else .error .panic

/-- `str::char_indices`: the characters with their offsets, from `i` on. -/
def charIndices (i : ℕ) : List Char → List (ℕ × Char)
  | [] => []
  | c :: s => (i, c) :: charIndices (i + c.utf8Size) s

@[simp] theorem sliceTo_append (l r : List Char) :
    (sliceTo (l ++ r) (utf8Len l) : Exec ε _) = .ok l := by simp [sliceTo, cut_append]

@[simp] theorem sliceFrom_append (l r : List Char) :
    (sliceFrom (l ++ r) (utf8Len l) : Exec ε _) = .ok r := by simp [sliceFrom, cut_append]

@[simp] theorem insertStr_append (l r text : List Char) :
    (insertStr (l ++ r) (utf8Len l) text : Exec ε _) = .ok (l ++ text ++ r) := by simp [insertStr]

theorem replaceRange_append (l m r text : List Char) :
    (replaceRange (l ++ m ++ r) (utf8Len l) (utf8Len (l ++ m)) text : Exec ε _) =
      .ok (l ++ text ++ r) := by
  have hto : (sliceTo (l ++ m ++ r) (utf8Len l) : Exec ε _) = .ok l := by
    rw [List.append_assoc, sliceTo_append]
  rw [replaceRange, hto, sliceFrom_append]
  simp

end

theorem charIndices_append (i : ℕ) (s t : List Char) :
    charIndices i (s ++ t) = charIndices i s ++ charIndices (i + utf8Len s) t := by
  induction s generalizing i with
  | nil => simp [charIndices]
  | cons c s ih => simp [charIndices, ih, Nat.add_assoc]

/-- The last character of a text starts where the text before it ends. -/
theorem getLast?_charIndices (l : List Char) (c : Char) :
    (charIndices 0 (l ++ [c])).getLast? = some (utf8Len l, c) := by
  simp [charIndices_append, charIndices]

/-! ### A text with a gap -/

/-- A text and a place in it. -/
structure Gap (α : Type*) where
  /-- What stands before the cursor. -/
  before : List α
  /-- What stands after it. -/
  after : List α
  deriving DecidableEq, Repr

namespace Gap

variable {α : Type*}

/-- The whole text. -/
def text (g : Gap α) : List α := g.before ++ g.after

/-- One place to the left. -/
def left (g : Gap α) : Gap α :=
  match g.before.getLast? with
  | some a => { before := g.before.dropLast, after := a :: g.after }
  | none => g

/-- One place to the right. -/
def right (g : Gap α) : Gap α :=
  match g.after with
  | a :: after => { before := g.before ++ [a], after }
  | [] => g

/-- To the start. -/
def toStart (g : Gap α) : Gap α := { before := [], after := g.text }

/-- To the end. -/
def toEnd (g : Gap α) : Gap α := { before := g.text, after := [] }

/-- Remove the element before the cursor. -/
def erase (g : Gap α) : Gap α := { g with before := g.before.dropLast }

/-- Remove the element after the cursor. -/
def delete (g : Gap α) : Gap α := { g with after := g.after.tail }

/-- Insert before the cursor. -/
def insert (g : Gap α) (l : List α) : Gap α := { g with before := g.before ++ l }

@[simp] theorem text_left (g : Gap α) : g.left.text = g.text := by
  unfold left
  split
  next a ha =>
    obtain ⟨l, hl⟩ := List.getLast?_eq_some_iff.1 ha
    simp [text, hl]
  next => rfl

@[simp] theorem text_right (g : Gap α) : g.right.text = g.text := by
  unfold right
  split
  next a after ha => simp [text, ha]
  next => rfl

@[simp] theorem text_toStart (g : Gap α) : g.toStart.text = g.text := by simp [text, toStart]

@[simp] theorem text_toEnd (g : Gap α) : g.toEnd.text = g.text := by simp [text, toEnd]

theorem erase_insert (g : Gap α) (a : α) : (g.insert [a]).erase = g := by simp [erase, insert]

theorem mem_erase {g : Gap α} {a : α} (h : a ∈ g.erase.text) : a ∈ g.text := by
  simp only [text, erase, List.mem_append] at h ⊢
  exact h.imp_left fun h => (List.dropLast_subset _) h

theorem mem_delete {g : Gap α} {a : α} (h : a ∈ g.delete.text) : a ∈ g.text := by
  simp only [text, delete, List.mem_append] at h ⊢
  exact h.imp_right List.mem_of_mem_tail

theorem mem_insert {g : Gap α} {l : List α} {a : α} :
    a ∈ (g.insert l).text ↔ a ∈ l ∨ a ∈ g.text := by
  simp only [text, insert, List.mem_append]
  tauto

/-- What stands before the cursor is the slice up to its offset. -/
theorem sliceTo_text {ε : Type} (g : Gap Char) :
    (sliceTo g.text (utf8Len g.before) : Exec ε _) = .ok g.before := sliceTo_append _ _

theorem sliceFrom_text {ε : Type} (g : Gap Char) :
    (sliceFrom g.text (utf8Len g.before) : Exec ε _) = .ok g.after := sliceFrom_append _ _

theorem insertStr_text {ε : Type} (g : Gap Char) (l : List Char) :
    (insertStr g.text (utf8Len g.before) l : Exec ε _) = .ok (g.insert l).text :=
  insertStr_append _ _ _

/-- The offset of the cursor is a boundary of the text. -/
theorem boundary (g : Gap Char) : IsCharBoundary g.text (utf8Len g.before) :=
  ⟨g.before, g.after, rfl, rfl⟩

/-- Something stands before the cursor, or its offset is `0`. -/
theorem before_cases (g : Gap Char) :
    g.before = [] ∨ ∃ l c, g.before = l ++ [c] ∧ utf8Len g.before > 0 := by
  rcases List.eq_nil_or_concat g.before with h | ⟨l, c, h⟩
  · exact .inl h
  · exact .inr ⟨l, c, by simpa using h, utf8Len_pos (by simp [h])⟩

/-- Something stands after the cursor, or its offset is the length. -/
theorem after_cases (g : Gap Char) :
    (g.after = [] ∧ ¬utf8Len g.before < utf8Len g.text) ∨
      ∃ c r, g.after = c :: r ∧ utf8Len g.before < utf8Len g.text := by
  cases h : g.after with
  | nil => exact .inl ⟨rfl, by simp [text, h]⟩
  | cons c r =>
    have hc := c.utf8Size_pos
    refine .inr ⟨c, r, rfl, ?_⟩
    simp only [text, h, utf8Len_append, utf8Len_cons]
    omega

end Gap

end Ocvpn
