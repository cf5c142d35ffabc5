import Ocvpn.Prefix.Basic
import Ocvpn.Routes.Basic

/-!
# What the route arithmetic computes

`IpPrefix.Covers` and `IpPrefix.Within` say what a prefix matches, independently of shifts and
masks.  On valid prefixes the source's arithmetic never panics and computes exactly this:
`normalize_eq_ok`, `contains_eq_ok`, and `covers_half` for the two halves of a network.
`IpPrefix.space` makes the IP prefixes a `BlockSpace`.
-/

namespace Ocvpn

namespace IpPrefix

/-- The number of host bits. -/
def host (p : IpPrefix) : ℕ := p.width - p.prefixLen

/-- The prefix matches the destination. -/
def Covers (p : IpPrefix) (d : IpAddr) : Prop :=
  p.address.isIpv4 = d.isIpv4 ∧ SameBlock p.host p.address.bits.toNat d.bits.toNat

instance (p : IpPrefix) (d : IpAddr) : Decidable (p.Covers d) :=
  inferInstanceAs (Decidable (_ ∧ _))

/-- `inner` lies inside `outer`. -/
def Within (inner outer : IpPrefix) : Prop :=
  outer.prefixLen ≤ inner.prefixLen ∧ outer.Covers inner.address

instance (p q : IpPrefix) : Decidable (p.Within q) := inferInstanceAs (Decidable (_ ∧ _))

/-- The prefix with its host bits cleared. -/
def network (p : IpPrefix) : IpPrefix where
  address := Routes.ofBits p.address (BitVec.ofNat 128 (blockStart p.host p.address.bits.toNat))
  prefixLen := p.prefixLen

variable {p q : IpPrefix} {d : IpAddr}

theorem ofBits_family (a : IpAddr) (n : BitVec 128) : (Routes.ofBits a n).isIpv4 = a.isIpv4 := by
  cases a <;> simp [Routes.ofBits]

theorem ofBits_bits {a : IpAddr} {n : BitVec 128} (h : n.toNat < 2 ^ a.width) :
    (Routes.ofBits a n).bits.toNat = n.toNat := by
  cases a with
  | v4 a =>
    simp only [IpAddr.width_v4] at h
    simp only [Routes.ofBits, IpAddr.isIpv4_v4, ↓reduceIte, IpAddr.bits, BitVec.toNat_setWidth]
    omega
  | v6 a => simp [Routes.ofBits, IpAddr.bits]

theorem blockStart_lt (p : IpPrefix) : blockStart p.host p.address.bits.toNat < 2 ^ p.width :=
  Nat.lt_of_le_of_lt (blockStart_le _ _) p.address.bits_lt

theorem lt_two_pow_128 {n : ℕ} (a : IpAddr) (h : n < 2 ^ a.width) : n < 2 ^ 128 :=
  Nat.lt_of_lt_of_le h (Nat.pow_le_pow_right (by decide) a.width_le)

@[simp] theorem network_prefixLen (p : IpPrefix) : p.network.prefixLen = p.prefixLen := rfl

@[simp] theorem network_family (p : IpPrefix) : p.network.address.isIpv4 = p.address.isIpv4 :=
  ofBits_family _ _

@[simp] theorem network_width (p : IpPrefix) : p.network.width = p.width :=
  IpAddr.width_eq_of_family (network_family p)

@[simp] theorem network_host (p : IpPrefix) : p.network.host = p.host := by simp [host]

theorem network_bits (p : IpPrefix) :
    p.network.address.bits.toNat = blockStart p.host p.address.bits.toNat := by
  have hlt := blockStart_lt p
  have h128 := lt_two_pow_128 p.address hlt
  have hn : (BitVec.ofNat 128 (blockStart p.host p.address.bits.toNat)).toNat =
      blockStart p.host p.address.bits.toNat := by
    rw [BitVec.toNat_ofNat, Nat.mod_eq_of_lt h128]
  rw [network, ofBits_bits (hn.symm ▸ hlt), hn]

@[simp] theorem network_valid : p.network.Valid ↔ p.Valid := by simp [Valid]

/-- Clearing the host bits does not change what the prefix matches. -/
@[simp] theorem network_covers : p.network.Covers d ↔ p.Covers d := by
  simp only [Covers, network_family, network_host, network_bits]
  refine and_congr_right fun _ => ⟨fun h => ?_, fun h => ?_⟩
  · exact (sameBlock_blockStart _ _).symm.trans h
  · exact (sameBlock_blockStart _ _).trans h

/-- The host bits of the prefix are clear. -/
def IsNetwork (p : IpPrefix) : Prop :=
  blockStart p.host p.address.bits.toNat = p.address.bits.toNat

theorem isNetwork_network (p : IpPrefix) : p.network.IsNetwork := by
  rw [IsNetwork, network_host, network_bits]
  exact sameBlock_iff_blockStart_eq.1 (sameBlock_blockStart _ _)

theorem covers_address (p : IpPrefix) : p.Covers p.address := ⟨rfl, SameBlock.refl _ _⟩

theorem isNetwork_of_host_eq_zero (h : p.host = 0) : p.IsNetwork := by simp [IsNetwork, h]

theorem width_eq_of_covers (hp : p.Covers d) : p.width = d.width :=
  IpAddr.width_eq_of_family hp.1

theorem Within.refl (p : IpPrefix) : p.Within p := ⟨le_rfl, p.covers_address⟩

/-- Two prefixes that match one destination are nested by length. -/
theorem within_of_covers (hp : p.Covers d) (hq : q.Covers d) (hlen : p.prefixLen ≤ q.prefixLen) :
    q.Within p := by
  refine ⟨hlen, hp.1.trans hq.1.symm, ?_⟩
  have hw : p.width = q.width := (width_eq_of_covers hp).trans (width_eq_of_covers hq).symm
  have hhost : q.host ≤ p.host := by simp only [host, hw]; omega
  exact hp.2.trans (hq.2.mono hhost).symm

theorem Within.covers (h : q.Within p) (hq : q.Covers d) : p.Covers d := by
  have hw : p.width = q.width := IpAddr.width_eq_of_family h.2.1
  have hhost : q.host ≤ p.host := by
    have := h.1
    simp only [host, hw]; omega
  exact ⟨h.2.1.trans hq.1, h.2.2.trans (hq.2.mono hhost)⟩

/-- A host prefix matches its own address only. -/
theorem eq_of_covers (h : p.host = 0) (hd : p.Covers d) : p.address = d := by
  refine IpAddr.ext_bits hd.1 ?_
  have := hd.2
  rwa [h, SameBlock.zero_iff] at this

theorem host_eq_zero (h : p.prefixLen = p.width) : p.host = 0 := by simp [host, h]

/-- The IP prefixes as a space of nested blocks. -/
def space : BlockSpace IpPrefix IpAddr where
  covers := Covers
  length := prefixLen
  nested hp hq hlen hx := (within_of_covers hp hq hlen).covers hx

end IpPrefix

namespace Routes

open IpPrefix

variable {c : NetworkConfig} {p q : IpPrefix} {d : IpAddr}

/-! ### The meaning of the arithmetic -/

theorem toNat_shiftRight_shiftLeft (x : BitVec 128) (h : ℕ) :
    (x >>> h <<< h).toNat = blockStart h x.toNat := by
  have hlt : blockStart h x.toNat < 2 ^ 128 := Nat.lt_of_le_of_lt (blockStart_le _ _) x.isLt
  rw [BitVec.toNat_shiftLeft, BitVec.toNat_ushiftRight, Nat.shiftRight_eq_div_pow,
    Nat.shiftLeft_eq]
  exact Nat.mod_eq_of_lt hlt

theorem clearHost_eq_ok (x : BitVec 128) {h : ℕ} (hh : h ≤ 128) :
    clearHost x h = .ok (BitVec.ofNat 128 (blockStart h x.toNat)) := by
  have hlt : blockStart h x.toNat < 2 ^ 128 := Nat.lt_of_le_of_lt (blockStart_le _ _) x.isLt
  unfold clearHost
  split_ifs with h128
  · have hzero : blockStart h x.toNat = 0 := by
      rw [blockStart, h128, Nat.div_eq_of_lt x.isLt, Nat.zero_mul]
    rw [hzero]; rfl
  · have hlt' : h < 128 := by omega
    rw [Exec.shr_eq_ok _ hlt', Exec.ok_bind, Exec.shl_eq_ok _ hlt']
    refine congrArg _ (BitVec.eq_of_toNat_eq ?_)
    rw [toNat_shiftRight_shiftLeft, BitVec.toNat_ofNat, Nat.mod_eq_of_lt hlt]

theorem normalize_eq_ok (hp : p.Valid) : normalize p = .ok p.network := by
  have hw : p.width ≤ 128 := p.address.width_le
  rw [normalize, Exec.sub_eq_ok hp, Exec.ok_bind, clearHost_eq_ok _ (by omega)]
  rfl

/-- On a network the test of the source is inclusion. -/
theorem contains_eq_ok (hp : p.Valid) (hn : p.IsNetwork) :
    contains p q = .ok (decide (q.Within p)) := by
  unfold contains
  split_ifs with hc
  · obtain ⟨hfam, hlen⟩ := hc
    set r : IpPrefix := { address := q.address, prefixLen := p.prefixLen } with hr
    have hw : r.width = p.width := (IpAddr.width_eq_of_family hfam).symm
    have hrv : r.Valid := by simpa [Valid, hw] using hp
    rw [normalize_eq_ok hrv, Exec.ok_bind, Exec.pure_eq_ok]
    have hhost : r.host = p.host := by rw [host, hw]; rfl
    have hiff : r.network.address = p.address ↔ q.Within p := by
      constructor
      · intro h
        refine ⟨hlen, hfam, ?_⟩
        have hb := network_bits r
        rw [h, hhost] at hb
        exact hb ▸ sameBlock_blockStart _ _
      · rintro ⟨-, -, hsame⟩
        refine IpAddr.ext_bits ((network_family r).trans hfam.symm) ?_
        rw [network_bits, hhost]
        exact (sameBlock_iff_blockStart_eq.1 hsame.symm).trans hn
    simp [← hiff, beq_eq_decide]
  · rw [Exec.pure_eq_ok]
    refine congrArg _ (Eq.symm (decide_eq_false fun h => hc ⟨h.2.1, h.1⟩))

theorem append_eq_ok {l : List IpPrefix} (h : l.length < maxPolicyRoutes) :
    append l p = .ok (l ++ [p]) := by
  simp [append, Nat.not_le.2 h]

/-! ### Sorting -/

theorem mem_dedup {l : List IpPrefix} : p ∈ dedup l ↔ p ∈ l := by
  induction l with
  | nil => simp [dedup]
  | cons a l ih =>
    rw [dedup, List.mem_cons, ← ih]
    cases dedup l with
    | nil => simp
    | cons b bs =>
      by_cases hab : a = b
      · subst hab; simp
      · simp [hab]

theorem mem_sortDedup {l : List IpPrefix} : p ∈ sortDedup l ↔ p ∈ l := by
  rw [sortDedup, mem_dedup, List.mem_insertionSort]

/-! ### The two halves of a prefix -/

/-- The lower half of a network. -/
def lowerHalf (p : IpPrefix) : IpPrefix := { address := p.address, prefixLen := p.prefixLen + 1 }

/-- The upper half of a network. -/
def upperHalf (p : IpPrefix) : IpPrefix where
  address := ofBits p.address (p.address.bits ||| 1#128 <<< (p.width - (p.prefixLen + 1)))
  prefixLen := p.prefixLen + 1

theorem lowerHalf_within (p : IpPrefix) : (lowerHalf p).Within p :=
  ⟨Nat.le_succ _, p.covers_address⟩

theorem upperHalf_width (p : IpPrefix) : (upperHalf p).width = p.width :=
  IpAddr.width_eq_of_family (ofBits_family _ _)

theorem upperHalf_host (p : IpPrefix) : (upperHalf p).host = (lowerHalf p).host := by
  rw [host, upperHalf_width]; rfl

theorem bits_eq_mul (hn : p.IsNetwork) :
    p.address.bits.toNat = 2 ^ p.host * (p.address.bits.toNat / 2 ^ p.host) := by
  rw [IsNetwork, blockStart, Nat.mul_comm] at hn
  exact hn.symm

section Halves

variable (hp : p.prefixLen < p.width) (hn : p.IsNetwork)
include hp

theorem host_eq_succ : p.host = p.width - (p.prefixLen + 1) + 1 := by
  unfold host; omega

theorem lowerHalf_host : (lowerHalf p).host + 1 = p.host := by
  have : (lowerHalf p).host = p.width - (p.prefixLen + 1) := rfl
  rw [this, host_eq_succ hp]

include hn

theorem upperHalf_bits : (upperHalf p).address.bits.toNat =
    p.address.bits.toNat + 2 ^ (lowerHalf p).host := by
  have hh := lowerHalf_host hp
  set h := (lowerHalf p).host with hh'
  have hw : p.width ≤ 128 := p.address.width_le
  have hhw : h < p.width := by unfold host at *; omega
  have hone : (1#128 <<< h).toNat = 2 ^ h := by
    rw [BitVec.toNat_shiftLeft, Nat.shiftLeft_eq]
    have : 2 ^ h < 2 ^ 128 := Nat.pow_lt_pow_right (by decide) (by omega)
    simpa using this
  have hlt : 2 ^ h < 2 ^ (h + 1) := Nat.pow_lt_pow_right (by decide) (by omega)
  have hbits : p.address.bits.toNat = 2 ^ (h + 1) * (p.address.bits.toNat / 2 ^ (h + 1)) := by
    rw [hh]; exact bits_eq_mul hn
  have hor : (p.address.bits ||| 1#128 <<< h).toNat = p.address.bits.toNat + 2 ^ h := by
    rw [BitVec.toNat_or, hone]
    conv_lhs => rw [hbits]
    rw [← Nat.two_pow_add_eq_or_of_lt hlt, ← hbits]
  have hsum : p.address.bits.toNat + 2 ^ h < 2 ^ p.width := by
    have hdvd : 2 ^ (h + 1) ∣ 2 ^ p.width := Nat.pow_dvd_pow _ (by omega)
    obtain ⟨m, hm⟩ := hdvd
    have hb : p.address.bits.toNat < 2 ^ p.width := p.address.bits_lt
    rw [hm, hbits] at hb
    have hq := Nat.lt_of_mul_lt_mul_left hb
    rw [hm, hbits]
    calc 2 ^ (h + 1) * (p.address.bits.toNat / 2 ^ (h + 1)) + 2 ^ h
        < 2 ^ (h + 1) * (p.address.bits.toNat / 2 ^ (h + 1)) + 2 ^ (h + 1) := by omega
      _ = 2 ^ (h + 1) * (p.address.bits.toNat / 2 ^ (h + 1) + 1) := by ring
      _ ≤ 2 ^ (h + 1) * m := Nat.mul_le_mul_left _ hq
  have hdef : p.width - (p.prefixLen + 1) = h := rfl
  rw [upperHalf, hdef, ofBits_bits (hor ▸ hsum), hor]

/-- The halves cover what the network covers. -/
theorem covers_half (hd : p.Covers d) : (lowerHalf p).Covers d ∨ (upperHalf p).Covers d := by
  obtain ⟨hfam, hsame⟩ := hd
  have hh := lowerHalf_host hp
  rw [← hh] at hsame
  have hn' : blockStart ((lowerHalf p).host + 1) p.address.bits.toNat = p.address.bits.toNat :=
    hh ▸ hn
  refine (sameBlock_halves hsame hn').imp (fun h => ⟨hfam, h⟩) fun h => ?_
  refine ⟨(ofBits_family _ _).trans hfam, ?_⟩
  rw [upperHalf_host, upperHalf_bits hp hn]
  exact h

theorem upperHalf_within : (upperHalf p).Within p := by
  refine ⟨Nat.le_succ _, (ofBits_family _ _).symm, ?_⟩
  have hh := lowerHalf_host hp
  have hlt : 2 ^ (lowerHalf p).host < 2 ^ p.host :=
    Nat.pow_lt_pow_right (by decide) (by omega)
  rw [upperHalf_bits hp hn, SameBlock]
  rw [bits_eq_mul hn, Nat.mul_add_div (Nat.two_pow_pos _), Nat.mul_div_cancel_left _ (Nat.two_pow_pos _),
    Nat.div_eq_of_lt hlt, Nat.add_zero]

theorem upperHalf_isNetwork : (upperHalf p).IsNetwork := by
  have hh := lowerHalf_host hp
  rw [IsNetwork, upperHalf_host, upperHalf_bits hp hn, blockStart]
  refine Nat.div_mul_cancel (Nat.dvd_add ?_ (dvd_refl _))
  rw [bits_eq_mul hn]
  exact Dvd.dvd.mul_right (Nat.pow_dvd_pow _ (by omega)) _

theorem lowerHalf_isNetwork : (lowerHalf p).IsNetwork := by
  have hh := lowerHalf_host hp
  rw [IsNetwork, blockStart]
  refine Nat.div_mul_cancel ?_
  change 2 ^ (lowerHalf p).host ∣ p.address.bits.toNat
  rw [bits_eq_mul hn]
  exact Dvd.dvd.mul_right (Nat.pow_dvd_pow _ (by omega)) _

end Halves

end Routes

end Ocvpn
