import Ocvpn.Model.State

/-!
# The text of a UUID

`Uuid`'s `Display`, which file names of the journal and endpoints carry.  Reading is a parameter, the
`uuid` crate, that reads a UUID back from its text; `UuidCrate.plain` is one.

## Main results

* `Uuid.text_injective` : UUIDs with the same text are equal.
-/

namespace Ocvpn.Uuid

/-- A digit below 16, in lower case. -/
def hexDigit (n : ℕ) : Char := "0123456789abcdef".toList.getD n '0'

/-- The value of a hexadecimal digit of either case. -/
def hexValue (c : Char) : Option ℕ :=
  if '0' ≤ c ∧ c ≤ '9' then some (c.toNat - '0'.toNat)
  else if 'a' ≤ c ∧ c ≤ 'f' then some (c.toNat - 'a'.toNat + 10)
  else if 'A' ≤ c ∧ c ≤ 'F' then some (c.toNat - 'A'.toNat + 10)
  else none

/-- The last `n` hexadecimal digits of a number. -/
def hexDigits : ℕ → ℕ → List Char
  | 0, _ => []
  | n + 1, v => hexDigits n (v / 16) ++ [hexDigit (v % 16)]

/-- The value of a list of hexadecimal digits. -/
def parseHex (digits : List Char) : Option ℕ :=
  digits.foldlM (fun v c => (hexValue c).map (v * 16 + ·)) 0

/-- Digits in the groups 8-4-4-4-12. -/
def grouped (d : List Char) : List Char :=
  d.take 8 ++ '-' :: (d.drop 8).take 4 ++ '-' :: (d.drop 12).take 4 ++ '-' :: (d.drop 16).take 4 ++
    '-' :: d.drop 20

/-- `uuid.to_string()`. -/
def text (u : Uuid) : List Char := grouped (hexDigits 32 u.toNat)

/-- Grouped digits. -/
def parse (s : List Char) : Option Uuid :=
  if s.length = 36 ∧ s[8]? = some '-' ∧ s[13]? = some '-' ∧ s[18]? = some '-' ∧
      s[23]? = some '-' then
    (parseHex (s.take 8 ++ (s.drop 9).take 4 ++ (s.drop 14).take 4 ++ (s.drop 19).take 4 ++
      s.drop 24)).map (BitVec.ofNat 128)
  else none

/-- 32 digits, or grouped digits that may stand in braces or after `urn:uuid:`. -/
def parseStr (s : List Char) : Option Uuid :=
  if s.length = 32 then (parseHex s).map (BitVec.ofNat 128)
  else if s.length = 38 ∧ s.head? = some (.ofNat 0x7b) ∧ s.getLast? = some (.ofNat 0x7d) then
    parse s.tail.dropLast
  else if s.length = 45 ∧ s.take 9 = "urn:uuid:".toList then parse (s.drop 9)
  else parse s

@[simp] theorem hexDigits_length (n v : ℕ) : (hexDigits n v).length = n := by
  induction n generalizing v with
  | zero => rfl
  | succ n ih => simp [hexDigits, ih]

theorem hexValue_hexDigit : ∀ n < 16, hexValue (hexDigit n) = some n := by decide

/-- Digits are read back. -/
theorem parseHex_hexDigits (n v : ℕ) (h : v < 16 ^ n) : parseHex (hexDigits n v) = some v := by
  induction n generalizing v with
  | zero =>
    obtain rfl : v = 0 := by omega
    rfl
  | succ n ih =>
    have hdiv : v / 16 < 16 ^ n := by
      rw [Nat.pow_succ] at h
      omega
    have hval := hexValue_hexDigit (v % 16) (by omega)
    rw [hexDigits, parseHex, List.foldlM_append, ← parseHex, ih _ hdiv]
    simp only [List.foldlM_cons, List.foldlM_nil, hval, Option.map_some, Option.bind_eq_bind,
      Option.bind_some, Option.pure_def, Option.some.injEq]
    omega

/-- Digits are taken out of their groups again. -/
theorem parse_grouped {d : List Char} (hd : d.length = 32) :
    parse (grouped d) = (parseHex d).map (BitVec.ofNat 128) := by
  have hjoin : d.take 8 ++ (d.drop 8).take 4 ++ (d.drop 12).take 4 ++ (d.drop 16).take 4 ++
      d.drop 20 = d := by
    simp [← List.take_add]
  unfold parse
  rw [if_pos (by simp [grouped, hd])]
  congr 2
  conv_rhs => rw [← hjoin]
  simp [grouped, hd, List.drop_append, List.drop_take]

theorem parse_text (u : Uuid) : parse u.text = some u := by
  have hlt : u.toNat < 16 ^ 32 := u.isLt
  rw [text, parse_grouped (by simp), parseHex_hexDigits _ _ hlt]
  simp

theorem text_injective {u v : Uuid} (h : u.text = v.text) : u = v := by
  have := parse_text u
  rw [h, parse_text] at this
  exact (Option.some.inj this).symm

@[simp] theorem text_length (u : Uuid) : u.text.length = 36 := by
  simp [text, grouped]

theorem parseStr_text (u : Uuid) : parseStr u.text = some u := by
  rw [parseStr, if_neg (by simp), if_neg (by simp), if_neg (by simp), parse_text]

end Ocvpn.Uuid

namespace Ocvpn

/-- The `uuid` crate, as far as it reads. -/
structure UuidCrate where
  /-- `Uuid::parse_str`, and `FromStr`. -/
  parseStr : List Char → Option Uuid
  parseStr_text : ∀ u : Uuid, parseStr u.text = some u

/-- The crate on the usual spellings. -/
def UuidCrate.plain : UuidCrate := ⟨Uuid.parseStr, Uuid.parseStr_text⟩

end Ocvpn
