import Ocvpn.Model.Basic

/-!
# The text of an address

`Display` of `std::net::IpAddr`: dotted decimal for IPv4; for IPv6 lower-case groups with the
longest run of zero groups abbreviated, and the dotted form for IPv4-mapped addresses.
-/

namespace Ocvpn.IpAddr

/-- The four bytes of an IPv4 address. -/
def octets (a : BitVec 32) : List ℕ :=
  [(a >>> 24).toNat % 256, (a >>> 16).toNat % 256, (a >>> 8).toNat % 256, a.toNat % 256]

/-- The eight groups of an IPv6 address. -/
def segments (a : BitVec 128) : List ℕ :=
  (List.range 8).map fun i => (a >>> (112 - 16 * i)).toNat % 65536

/-- `to_ipv4_mapped`. -/
def ipv4Mapped (a : BitVec 128) : Option (BitVec 32) :=
  if a >>> 32 = 0xffff then some (a.setWidth 32) else none

/-- The start and the length of a run of zero groups. -/
abbrev Span := ℕ × ℕ

/-- One group of the search for the longest run of zeros: the longest run so far, the current run
and the number of the next group. -/
def spanStep : Span × Span × ℕ → ℕ → Span × Span × ℕ
  | (longest, current, i), segment =>
    if segment = 0 then
      let current := (if current.2 = 0 then i else current.1, current.2 + 1)
      (if current.2 > longest.2 then current else longest, current, i + 1)
    else (longest, (0, 0), i + 1)

/-- The first longest run of zero groups. -/
def zeroes (segments : List ℕ) : Span := (segments.foldl spanStep ((0, 0), (0, 0), 0)).1

/-- Groups between colons. -/
def groups (segments : List ℕ) : List Char := [':'].intercalate (segments.map (Nat.toDigits 16))

/-- The characters of an IPv4 address. -/
def chars4 (a : BitVec 32) : List Char := ['.'].intercalate ((octets a).map (Nat.toDigits 10))

/-- The characters of an IPv6 address. -/
def chars6 (a : BitVec 128) : List Char :=
  match ipv4Mapped a with
  | some b => "::ffff:".toList ++ chars4 b
  | none =>
    let segments := segments a
    let (start, len) := zeroes segments
    if len > 1 then
      groups (segments.take start) ++ "::".toList ++ groups (segments.drop (start + len))
    else groups segments

/-- The characters of `address.to_string()`. -/
def chars : IpAddr → List Char
  | v4 a => chars4 a
  | v6 a => chars6 a

/-- `address.to_string()`. -/
def text (a : IpAddr) : String := String.ofList a.chars

example : (v4 0x0a000001).text = "10.0.0.1" := by decide
example : (v6 0x20010db8000000000000000000000001).text = "2001:db8::1" := by decide
example : (v6 0x1).text = "::1" ∧ (v6 0).text = "::" := by decide

end Ocvpn.IpAddr
