import Ocvpn.Json.Basic

/-!
# The bytes of compact JSON

What `serde_json::to_writer` writes: no blanks, the fields in order, and in strings the escapes of
`Json.escapedLength` with everything else in UTF-8.

## Main results

* `Json.length_quoted` : the bytes of a string are its `stringLength`.
* `Json.length_compact_array`, `Json.length_compact_object` : the bytes of an array or an object,
  from those of what it holds.
-/

namespace Ocvpn.Json

/-- The ASCII bytes of a text. -/
def ascii (text : String) : List UInt8 := text.toList.map fun c => .ofNat c.toNat

/-- A hexadecimal digit in lower case. -/
def hexByte (n : ℕ) : UInt8 := .ofNat (if n < 10 then 0x30 + n else 0x57 + n)

/-- A character inside a string. -/
def escape (c : Char) : List UInt8 :=
  if c.toNat = 0x22 then [0x5c, 0x22]
  else if c.toNat = 0x5c then [0x5c, 0x5c]
  else if c.toNat = 0x08 then [0x5c, 0x62]
  else if c.toNat = 0x09 then [0x5c, 0x74]
  else if c.toNat = 0x0a then [0x5c, 0x6e]
  else if c.toNat = 0x0c then [0x5c, 0x66]
  else if c.toNat = 0x0d then [0x5c, 0x72]
  else if c.toNat < 0x20 then
    [0x5c, 0x75, 0x30, 0x30, hexByte (c.toNat / 16), hexByte (c.toNat % 16)]
  else String.utf8EncodeChar c

/-- A string with its quotes. -/
def quoted (s : String) : List UInt8 := 0x22 :: s.toList.flatMap escape ++ [0x22]

/-- Texts with a comma between them. -/
def separated (texts : List (List UInt8)) : List UInt8 := [0x2c].intercalate texts

mutual

/-- The bytes of a value. -/
def compact : Json → List UInt8
  | null => ascii "null"
  | bool b => if b then ascii "true" else ascii "false"
  | number n => (Nat.toDigits 10 n).map fun c => .ofNat c.toNat
  | string s => quoted s
  | array items => 0x5b :: separated (compactItems items) ++ [0x5d]
  | object fields => 0x7b :: separated (compactFields fields) ++ [0x7d]

/-- The bytes of each item. -/
def compactItems : List Json → List (List UInt8)
  | [] => []
  | item :: items => compact item :: compactItems items

/-- The bytes of each field: its quoted key, a colon and its value. -/
def compactFields : List (String × Json) → List (List UInt8)
  | [] => []
  | (key, value) :: fields => (quoted key ++ 0x3a :: compact value) :: compactFields fields

end

/-! ### Lengths -/

theorem length_escape (c : Char) : (escape c).length = escapedLength c := by
  simp only [escape, escapedLength, List.mem_cons, List.not_mem_nil, or_false]
  split_ifs <;> first | rfl | omega | exact String.length_utf8EncodeChar c

/-- The bytes of a string with its quotes. -/
theorem length_quoted (s : String) : (quoted s).length = stringLength s := by
  simp only [quoted, stringLength, List.length_cons, List.length_append, List.length_flatMap,
    List.length_nil]
  rw [show (fun c => (escape c).length) = escapedLength from funext length_escape]
  omega

/-- A comma between each two texts. -/
theorem length_separated (texts : List (List UInt8)) :
    (separated texts).length = (texts.map List.length).sum + (texts.length - 1) := by
  induction texts with
  | nil => rfl
  | cons text texts ih =>
    cases texts with
    | nil => simp [separated]
    | cons next texts =>
      have hcons : separated (text :: next :: texts) = text ++ 0x2c :: separated (next :: texts) := by
        simp [separated, List.intercalate_cons_cons]
      rw [hcons, List.length_append, List.length_cons, ih]
      simp only [List.map_cons, List.sum_cons, List.length_cons]
      omega

theorem compactItems_eq (items : List Json) : compactItems items = items.map compact := by
  induction items with
  | nil => rfl
  | cons item items ih => rw [compactItems, ih, List.map_cons]

/-- The items of an array, its brackets and the commas. -/
theorem length_compact_array (items : List Json) :
    (compact (.array items)).length =
      2 + (items.map fun item => (compact item).length).sum + (items.length - 1) := by
  rw [compact, compactItems_eq]
  simp only [List.length_cons, List.length_append, length_separated, List.map_map,
    List.length_map, List.length_nil]
  rw [show List.length ∘ compact = fun item => (compact item).length from rfl]
  omega

theorem compactFields_eq (fields : List (String × Json)) :
    compactFields fields = fields.map fun f => quoted f.1 ++ 0x3a :: compact f.2 := by
  induction fields with
  | nil => rfl
  | cons f fields ih => rw [compactFields, ih, List.map_cons]

/-- The fields of an object with their keys and colons, its braces and the commas. -/
theorem length_compact_object (fields : List (String × Json)) :
    (compact (.object fields)).length =
      2 + (fields.map fun f => stringLength f.1 + 1 + (compact f.2).length).sum +
        (fields.length - 1) := by
  rw [compact, compactFields_eq]
  simp only [List.length_cons, List.length_append, length_separated, List.map_map,
    List.length_map, List.length_nil]
  rw [show (List.length ∘ fun f : String × Json => quoted f.1 ++ 0x3a :: compact f.2) =
    fun f => stringLength f.1 + 1 + (compact f.2).length from funext fun f => by
      simp only [Function.comp, List.length_append, List.length_cons, length_quoted]
      omega]
  omega

theorem length_compact_string (s : String) : (compact (.string s)).length = stringLength s := by
  rw [compact, length_quoted]

theorem length_compact_number (n : ℕ) :
    (compact (.number n)).length = (Nat.toDigits 10 n).length := by
  rw [compact, List.length_map]

end Ocvpn.Json
