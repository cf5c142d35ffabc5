import Mathlib

/-!
# The size of pretty JSON

What a serializer writes, as a tree, and the number of bytes it takes in the layout with an entry a
line and two blanks a level (`serde_json::to_vec_pretty`).  The trees hold what the documents of
the program hold: of the numbers, the unsigned ones.

## Main results

* `Json.prettyLength_number_le` : no number is shorter than `1`.
* `Json.prettyLength_array_le`, `Json.prettyLength_object_le` : an array or an object gets no longer
  when none of its values does.
* `Json.prettyLength_object_remove_le` : an object gets no longer when it loses a field.
-/

namespace Ocvpn

/-- A JSON value; the fields of an object stand in the order they are written in. -/
inductive Json where
  | null
  | bool (b : Bool)
  | number (n : ℕ)
  | string (s : String)
  | array (items : List Json)
  | object (fields : List (String × Json))

namespace Json

/-- A field of an object. -/
def get (key : String) : Json → Option Json
  | object fields => fields.lookup key
  | _ => none

/-- The bytes of a character inside a string: the quote, the backslash and five control characters
have short escapes, the other control characters are written `\u00xx`. -/
def escapedLength (c : Char) : ℕ :=
  if c.toNat ∈ [0x22, 0x5c, 0x08, 0x09, 0x0a, 0x0c, 0x0d] then 2
  else if c.toNat < 0x20 then 6
  else c.utf8Size

/-- The bytes of a string with its quotes. -/
def stringLength (s : String) : ℕ := 2 + (s.toList.map escapedLength).sum

mutual

/-- The bytes of a value that starts in the middle of a line at the given depth. -/
def prettyLength (depth : ℕ) : Json → ℕ
  | null => 4
  | bool b => if b then 4 else 5
  | number n => (Nat.toDigits 10 n).length
  | string s => stringLength s
  | array items => if items.isEmpty then 2 else itemsLength depth items + 2 * depth + 2
  | object fields => if fields.isEmpty then 2 else fieldsLength depth fields + 2 * depth + 2

/-- Each item stands on a line of its own and, but for the last, ends in a comma. -/
def itemsLength (depth : ℕ) : List Json → ℕ
  | [] => 0
  | item :: items => 2 + 2 * (depth + 1) + prettyLength (depth + 1) item + itemsLength depth items

/-- Each field is its quoted key, a colon and a blank, and its value. -/
def fieldsLength (depth : ℕ) : List (String × Json) → ℕ
  | [] => 0
  | (key, value) :: fields =>
    2 + 2 * (depth + 1) + stringLength key + 2 + prettyLength (depth + 1) value +
      fieldsLength depth fields

end

/-- No number is shorter than `1`. -/
theorem prettyLength_number_le (d e n : ℕ) :
    prettyLength d (.number 1) ≤ prettyLength e (.number n) := by
  simp only [prettyLength]
  exact Nat.length_toDigits_pos

theorem itemsLength_map_le {α : Type} {f g : α → Json} {d : ℕ} {l : List α}
    (h : ∀ a ∈ l, prettyLength (d + 1) (f a) ≤ prettyLength (d + 1) (g a)) :
    itemsLength d (l.map f) ≤ itemsLength d (l.map g) := by
  induction l with
  | nil => simp [itemsLength]
  | cons a l ih =>
    have ha := h a List.mem_cons_self
    have hl := ih fun b hb => h b (List.mem_cons_of_mem _ hb)
    simp only [List.map_cons, itemsLength]
    omega

/-- An array gets no longer when none of its items does. -/
theorem prettyLength_array_le {α : Type} {f g : α → Json} {d : ℕ} {l : List α}
    (h : ∀ a ∈ l, prettyLength (d + 1) (f a) ≤ prettyLength (d + 1) (g a)) :
    prettyLength d (.array (l.map f)) ≤ prettyLength d (.array (l.map g)) := by
  have := itemsLength_map_le h
  simp only [prettyLength, List.isEmpty_map]
  split <;> omega

theorem fieldsLength_append (d : ℕ) (fs gs : List (String × Json)) :
    fieldsLength d (fs ++ gs) = fieldsLength d fs + fieldsLength d gs := by
  induction fs with
  | nil => simp [fieldsLength]
  | cons f fs ih =>
    obtain ⟨key, value⟩ := f
    simp only [List.cons_append, fieldsLength, ih]
    omega

/-- An object gets no longer when one of its values does not. -/
theorem prettyLength_object_le {d : ℕ} {v w : Json} (fs : List (String × Json)) (key : String)
    (gs : List (String × Json)) (h : prettyLength (d + 1) v ≤ prettyLength (d + 1) w) :
    prettyLength d (.object (fs ++ (key, v) :: gs)) ≤
      prettyLength d (.object (fs ++ (key, w) :: gs)) := by
  simp only [prettyLength, fieldsLength_append, fieldsLength]
  simp
  omega

/-- An object gets no longer when it loses a field. -/
theorem prettyLength_object_remove_le {d : ℕ} (fs : List (String × Json)) (f : String × Json)
    (gs : List (String × Json)) :
    prettyLength d (.object (fs ++ gs)) ≤ prettyLength d (.object (fs ++ f :: gs)) := by
  obtain ⟨key, value⟩ := f
  simp only [prettyLength, fieldsLength_append, fieldsLength]
  split <;> simp

end Json

end Ocvpn
