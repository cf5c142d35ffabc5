import Ocvpn.Model.Basic
import Ocvpn.Model.Uuid

/-!
# Numbers and addresses in text

`FromStr` of the unsigned integers and of the addresses of `std::net`, and the splitting of `str`
at white space: what `parse_environment` reads its values with.

The address parser reads from the front: a reader takes characters and returns what it read with
the rest, or fails.
-/

namespace Ocvpn.Text

/-- `from_str` of an unsigned integer of so many bits: digits, after at most one plus sign. -/
def parseUnsigned (bits : ℕ) (text : String) : Option ℕ :=
  let digits := match text.toList with
    | '+' :: digits => digits
    | digits => digits
  if digits.isEmpty ∨ !digits.all Char.isDigit then none
  else
    let n := digits.foldl (fun n c => n * 10 + (c.toNat - '0'.toNat)) 0
    if n < 2 ^ bits then some n else none

/-- What is read from the front of a text, and the rest. -/
abbrev Reader (α : Type) := List Char → Option (α × List Char)

/-- `read_given_char`. -/
def readGivenChar (target : Char) : Reader Unit
  | c :: cs => if c = target then some ((), cs) else none
  | [] => none

/-- `to_digit`. -/
def toDigit (radix : ℕ) (c : Char) : Option ℕ := (Uuid.hexValue c).filter (· < radix)

/-- The loop of `read_number`: the value, the number of digits and the rest.  The value must stay
below the bound of its type. -/
def readDigits (radix bound maxDigits : ℕ) (value count : ℕ) :
    List Char → Option (ℕ × ℕ × List Char)
  | [] => some (value, count, [])
  | c :: cs =>
    match toDigit radix c with
    | none => some (value, count, c :: cs)
    | some d =>
      if value * radix + d ≥ bound ∨ count + 1 > maxDigits then none
      else readDigits radix bound maxDigits (value * radix + d) (count + 1) cs

/-- `read_number`. -/
def readNumber (radix bound maxDigits : ℕ) (allowZeroPrefix : Bool) : Reader ℕ := fun cs => do
  let (value, count, rest) ← readDigits radix bound maxDigits 0 0 cs
  if count = 0 ∨ (!allowZeroPrefix ∧ cs.head? = some '0' ∧ count > 1) then none
  else some (value, rest)

/-- `read_separator`. -/
def readSeparator {α : Type} (sep : Char) (index : ℕ) (inner : Reader α) : Reader α := fun cs =>
  if index > 0 then do
    let (_, cs) ← readGivenChar sep cs
    inner cs
  else inner cs

/-- The numbers of an IPv4 address from index `i` on. -/
def readOctets : (left i : ℕ) → Reader (List ℕ)
  | 0, _ => fun cs => some ([], cs)
  | left + 1, i => fun cs => do
    let (octet, cs) ← readSeparator '.' i (readNumber 10 256 3 false) cs
    let (octets, cs) ← readOctets left (i + 1) cs
    some (octet :: octets, cs)

/-- `read_ipv4_addr`. -/
def readIpv4Addr : Reader (BitVec 32) := fun cs => do
  let (octets, cs) ← readOctets 4 0 cs
  some (.ofNat 32 (octets.foldl (fun n o => n * 256 + o) 0), cs)

/-- `read_groups`: the groups from index `i` on, and whether the last two are an IPv4 address. -/
def readGroups (limit : ℕ) : (left i : ℕ) → List Char → List ℕ × Bool × List Char
  | 0, _, cs => ([], false, cs)
  | left + 1, i, cs =>
    match if i < limit - 1 then readSeparator ':' i readIpv4Addr cs else none with
    | some (a, cs) => ([a.toNat / 65536, a.toNat % 65536], true, cs)
    | none =>
      match readSeparator ':' i (readNumber 16 65536 4 true) cs with
      | none => ([], false, cs)
      | some (group, cs) =>
        let (groups, ipv4, cs) := readGroups limit left (i + 1) cs
        (group :: groups, ipv4, cs)

/-- The address of eight groups. -/
def ofGroups (groups : List ℕ) : BitVec 128 :=
  .ofNat 128 (groups.foldl (fun n g => n * 65536 + g) 0)

/-- `read_ipv6_addr`. -/
def readIpv6Addr : Reader (BitVec 128) := fun cs =>
  let (head, headIpv4, cs) := readGroups 8 8 0 cs
  if head.length = 8 then some (ofGroups head, cs)
  -- an IPv4 part is not allowed before `::`
  else if headIpv4 then none
  else do
    let (_, cs) ← readGivenChar ':' cs
    let (_, cs) ← readGivenChar ':' cs
    -- `::` stands for at least one group
    let limit := 8 - (head.length + 1)
    let (tail, _, cs) := readGroups limit limit 0 cs
    some (ofGroups (head ++ List.replicate (8 - tail.length - head.length) 0 ++ tail), cs)

/-- `read_ip_addr`. -/
def readIpAddr : Reader IpAddr := fun cs =>
  ((readIpv4Addr cs).map fun (a, cs) => (.v4 a, cs)) <|>
    (readIpv6Addr cs).map fun (a, cs) => (.v6 a, cs)

/-- `parse_with`: the whole text must be read. -/
def parseWith {α : Type} (inner : Reader α) (text : String) : Option α :=
  match inner text.toList with
  | some (a, []) => some a
  | _ => none

/-- `from_str` of `Ipv4Addr`; a text that is too long for an address is not read. -/
def parseIpv4 (text : String) : Option (BitVec 32) :=
  if text.utf8ByteSize > 15 then none else parseWith readIpv4Addr text

/-- `from_str` of `Ipv6Addr`. -/
def parseIpv6 (text : String) : Option (BitVec 128) := parseWith readIpv6Addr text

/-- `from_str` of `IpAddr`. -/
def parseIpAddr (text : String) : Option IpAddr := parseWith readIpAddr text

example : parseIpAddr "10.0.0.1" = some (.v4 0x0a000001) ∧ parseIpAddr "10.0.0.01" = none ∧
    parseIpAddr "2001:db8::1" = some (.v6 0x20010db8000000000000000000000001) ∧
    parseIpAddr "::ffff:1.2.3.4" = some (.v6 0xffff01020304) ∧ parseIpAddr "1:2" = none := by
  decide +kernel

/-- `is_ascii_whitespace`. -/
def isAsciiWhitespace (c : Char) : Bool := [0x20, 0x09, 0x0a, 0x0c, 0x0d].contains c.toNat

/-- The pieces of a text between separators, without the empty ones. -/
def pieces (separator : Char → Bool) (text : String) : List String :=
  ((text.toList.splitOnP separator).filter (· ≠ [])).map String.ofList

/-- `split_once`. -/
def splitOnce (separator : Char) (text : String) : Option (String × String) :=
  let before := text.toList.takeWhile (· ≠ separator)
  match text.toList.drop before.length with
  | [] => none
  | _ :: rest => some (String.ofList before, String.ofList rest)

end Ocvpn.Text
