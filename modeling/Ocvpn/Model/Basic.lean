import Ocvpn.Exec.Basic

/-!
# Errors, addresses and prefixes

The data shared by all crates: `crates/model/src/error.rs`, the address types of `std::net`, and
`IpPrefix` of `crates/model/src/network.rs`.

An address keeps its family, as `std::net::IpAddr` does: an IPv4-mapped IPv6 address is an IPv6
address.  `IpAddr.bits` is the address as the `u128` the route computation works on.
-/

namespace Ocvpn

/-- The error codes of the IPC contract. -/
inductive ErrorCode where
  | invalidInput | unsupportedProtocol | unsupportedAuthentication | engineUnavailable
  | runtimeFailure | authenticationRequired | authenticationRejected | serviceUnavailable
  | authorizationDenied | busy | conflict | notFound | corruptStorage | newerSchema
  | keyringUnavailable | certificateRejected | cancelled | protocolViolation | networkFailure
  | recoveryRequired
  deriving DecidableEq, Repr

/-- An application error. -/
structure Error where
  /-- The machine-readable code. -/
  code : ErrorCode
  /-- The application-authored message. -/
  message : String
  /-- Optional diagnostics. -/
  details : Option String := none
  deriving DecidableEq, Repr

namespace Error

/-- An error without details. -/
def new (code : ErrorCode) (message : String) : Error := { code, message }

/-- An input error. -/
def invalid (message : String) : Error := new .invalidInput message

@[simp] theorem new_code (c : ErrorCode) (m : String) : (new c m).code = c := rfl

@[simp] theorem invalid_code (m : String) : (invalid m).code = .invalidInput := rfl

end Error

/-- A computation of the program: it returns, returns an `Error`, or panics. -/
abbrev Run (α : Type) := Exec Error α

/-! ### Addresses -/

/-- An IP address of either family. -/
inductive IpAddr where
  | v4 (address : BitVec 32)
  | v6 (address : BitVec 128)
  deriving DecidableEq, Repr

namespace IpAddr

/-- The address is IPv4. -/
def isIpv4 : IpAddr → Bool
  | v4 _ => true
  | v6 _ => false

/-- The address is IPv6. -/
def isIpv6 (a : IpAddr) : Bool := !a.isIpv4

/-- The address as a `u128`. -/
def bits : IpAddr → BitVec 128
  | v4 a => a.setWidth 128
  | v6 a => a

/-- The number of bits of the family. -/
def width (a : IpAddr) : ℕ := if a.isIpv4 then 32 else 128

/-- `0.0.0.0` or `::`. -/
def isUnspecified : IpAddr → Bool
  | v4 a => a == 0
  | v6 a => a == 0

/-- `224.0.0.0/4` or `ff00::/8`. -/
def isMulticast : IpAddr → Bool
  | v4 a => a >>> 28 == 0xe
  | v6 a => a >>> 120 == 0xff

/-- `255.255.255.255`. -/
def isBroadcast : IpAddr → Bool
  | v4 a => a == 0xffffffff
  | v6 _ => false

/-- `127.0.0.0/8` or `::1`. -/
def isLoopback : IpAddr → Bool
  | v4 a => a >>> 24 == 127
  | v6 a => a == 1

/-- `fe80::/10`. -/
def isUnicastLinkLocal : IpAddr → Bool
  | v4 _ => false
  | v6 a => (a >>> 112) &&& 0xffc0 == 0xfe80

@[simp] theorem isIpv4_v4 (a : BitVec 32) : (v4 a).isIpv4 = true := rfl
@[simp] theorem isIpv4_v6 (a : BitVec 128) : (v6 a).isIpv4 = false := rfl
@[simp] theorem isIpv6_v4 (a : BitVec 32) : (v4 a).isIpv6 = false := rfl
@[simp] theorem isIpv6_v6 (a : BitVec 128) : (v6 a).isIpv6 = true := rfl
@[simp] theorem width_v4 (a : BitVec 32) : (v4 a).width = 32 := rfl
@[simp] theorem width_v6 (a : BitVec 128) : (v6 a).width = 128 := rfl

theorem bits_lt (a : IpAddr) : a.bits.toNat < 2 ^ a.width := by
  cases a with
  | v4 a => simpa [bits] using Nat.lt_of_le_of_lt (Nat.mod_le _ _) a.isLt
  | v6 a => exact a.isLt

theorem width_le (a : IpAddr) : a.width ≤ 128 := by cases a <;> simp

/-- Family and bits determine the address. -/
theorem ext_bits {a b : IpAddr} (hf : a.isIpv4 = b.isIpv4) (hb : a.bits.toNat = b.bits.toNat) :
    a = b := by
  cases a <;> cases b <;> simp_all [bits]
  · rename_i a b
    apply BitVec.eq_of_toNat_eq
    rwa [Nat.mod_eq_of_lt (by omega), Nat.mod_eq_of_lt (by omega)] at hb
  · exact BitVec.eq_of_toNat_eq hb

theorem width_eq_of_family {a b : IpAddr} (h : a.isIpv4 = b.isIpv4) : a.width = b.width := by
  simp [width, h]

end IpAddr

/-! ### Prefixes -/

/-- An address with a prefix length: an interface address or a network. -/
structure IpPrefix where
  /-- The address; host bits need not be clear. -/
  address : IpAddr
  /-- The prefix length. -/
  prefixLen : ℕ
  deriving DecidableEq, Repr

namespace IpPrefix

/-- The number of bits of the family (`width` in `routes.rs`). -/
def width (p : IpPrefix) : ℕ := p.address.width

/-- Check that the length fits the family. -/
def validate (p : IpPrefix) : Run Unit :=
  Exec.rejectIf (p.prefixLen > if p.address.isIpv4 then 32 else 128)
    (.invalid "IP prefix length is outside address family bounds")

/-- The length fits the family. -/
def Valid (p : IpPrefix) : Prop := p.prefixLen ≤ p.width

instance (p : IpPrefix) : Decidable p.Valid := inferInstanceAs (Decidable (_ ≤ _))

@[simp] theorem validate_eq_ok {p : IpPrefix} : p.validate = .ok () ↔ p.Valid := by
  simp [validate, Valid, width, IpAddr.width]

end IpPrefix

end Ocvpn
