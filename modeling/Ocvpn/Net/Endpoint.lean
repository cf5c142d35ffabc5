import Ocvpn.Journal.Basic
import Ocvpn.Text.Bits

/-!
# The names of lifecycle endpoints

`endpoint` of `crates/net/src/monitor.rs`: the socket between the script and the service is named
by the 256 bits of a transaction, written in letters of six bits each.

The loop shifts bytes into a `u32` that is never masked and shifts letters out.  `Packing.Holds` is
its invariant: the letters, followed by the lowest bits of the accumulator that are still held, are
the bytes read.  So no bit is lost (`pack_holds`), and the name determines the transaction.
-/

namespace Ocvpn

/-- `Uuid::as_bytes`: the most significant byte first. -/
def Uuid.asBytes (u : Uuid) : List (BitVec 8) :=
  (List.range 16).reverse.map fun i => u.extractLsb' (i * 8) 8

namespace Net

/-- The letters, `ALPHABET`. -/
def alphabet : List Char :=
  "ABCDEFGHIJKLMNOPQRSTUVWXYZabcdefghijklmnopqrstuvwxyz0123456789-_".toList

/-- The variables of the loop. -/
structure Packing where
  /-- The bits read, the last one lowest; the oldest are shifted out. -/
  accumulator : BitVec 32
  /-- How many of them are still to be written. -/
  bits : ℕ
  /-- The letters written. -/
  name : List Char
  deriving DecidableEq, Repr

namespace Packing

/-- Nothing read. -/
def start : Packing := { accumulator := 0, bits := 0, name := [] }

/-- `name.push(ALPHABET[(value & 63) as usize] as char)`. -/
def push (value : BitVec 32) (name : List Char) : Run (List Char) :=
  match alphabet[(value &&& 63).toNat]? with
  | some c => .ok (name ++ [c])
  | none => .error .panic

/-- `while bits >= 6`. -/
def drain (p : Packing) : Run Packing :=
  if p.bits ≥ 6 then do
    let bits := p.bits - 6
    let name ← push (← Exec.shr p.accumulator bits) p.name
    drain { p with bits, name }
  else return p
termination_by p.bits

/-- The body of the loop over the bytes. -/
def step (p : Packing) (byte : BitVec 8) : Run Packing := do
  let accumulator := (← Exec.shl p.accumulator 8) ||| byte.setWidth 32
  drain { p with accumulator, bits := p.bits + 8 }

/-- The loop over the bytes. -/
def pack (bytes : List (BitVec 8)) : Run Packing := bytes.foldlM step start

/-- The last letter, filled up with zeros. -/
def finish (p : Packing) : Run (List Char) :=
  if p.bits > 0 then do push (← Exec.shl p.accumulator (← Exec.sub 6 p.bits)) p.name
  else return p.name

end Packing

open Packing

/-- The bytes of a transaction. -/
def transactionBytes (t : TransactionId) : List (BitVec 8) :=
  t.serviceInstanceId.asBytes ++ t.attemptId.asBytes

/-- The file name of the endpoint, below `secure::root()`. -/
def endpoint (t : TransactionId) : Run (List Char) := do
  let p ← pack (transactionBytes t)
  return (← p.finish) ++ ".sock".toList

/-! ### Letters -/

/-- The six bits of a letter. -/
def sextet (c : Char) : List Bool := msbFirst 6 (alphabet.idxOf c).testBit

theorem idxOf_alphabet (i : Fin 64) : ∃ c ∈ alphabet[i.val]?, alphabet.idxOf c = i := by
  have h : ∀ i : Fin 64, (alphabet[i.val]?.any fun c => alphabet.idxOf c = i.val) = true := by
    decide +kernel
  obtain ⟨c, hc, hidx⟩ := (Option.any_eq_true _ _).1 (h i)
  exact ⟨c, hc, of_decide_eq_true hidx⟩

theorem push_eq (value : BitVec 32) (name : List Char) :
    ∃ c ∈ alphabet, push value name = .ok (name ++ [c]) ∧ sextet c = msbFirst 6 value.getLsbD := by
  have hlt : (value &&& 63).toNat < 64 := by
    rw [BitVec.toNat_and]
    exact Nat.lt_of_le_of_lt Nat.and_le_right (by decide)
  obtain ⟨c, hc, hidx⟩ := idxOf_alphabet ⟨_, hlt⟩
  refine ⟨c, List.mem_of_getElem? hc, ?_, ?_⟩
  · rw [push, show alphabet[(value &&& 63).toNat]? = some c from hc]
  · have hmask : ∀ i : Fin 6, (63 : BitVec 32).getLsbD i = true := by decide
    rw [sextet, msbFirst_inj]
    intro i hi
    simp only at hidx
    rw [hidx, ← BitVec.getLsbD, BitVec.getLsbD_and, hmask ⟨i, hi⟩, Bool.and_true]

/-! ### The loop -/

/-- What is written and what is held make up the input. -/
structure Packing.Holds (input : List Bool) (p : Packing) : Prop where
  /-- The letters, then the bits still held. -/
  split : input = p.name.flatMap sextet ++ msbFirst p.bits p.accumulator.getLsbD
  /-- Only letters are written. -/
  letters : ∀ c ∈ p.name, c ∈ alphabet

namespace Packing

theorem Holds.start : Holds [] start := ⟨rfl, by simp [Packing.start]⟩

/-- Writing letters keeps the bits, as long as the accumulator holds them. -/
theorem Holds.drain {input : List Bool} {p : Packing} (h : Holds input p) (hp : p.bits ≤ 32) :
    ∃ q, p.drain = .ok q ∧ Holds input q ∧ q.bits < 6 := by
  induction p using Packing.drain.induct with
  | case1 p hbits bits ih =>
    obtain ⟨c, hc, hpush, hsextet⟩ := push_eq (p.accumulator >>> (p.bits - 6)) p.name
    have hlower : msbFirst p.bits p.accumulator.getLsbD =
        sextet c ++ msbFirst (p.bits - 6) p.accumulator.getLsbD := by
      have hadd := msbFirst_add 6 (p.bits - 6) p.accumulator.getLsbD
      rw [Nat.add_sub_cancel' hbits] at hadd
      rw [hadd, hsextet]
      congr 2
      funext i
      rw [BitVec.getLsbD_ushiftRight]
    have hnext : Holds input { p with bits := p.bits - 6, name := p.name ++ [c] } := by
      refine ⟨?_, ?_⟩
      · rw [h.split, hlower]
        simp
      · simpa [or_imp, forall_and, hc] using h.letters
    have hdrain : p.drain =
        Packing.drain { p with bits := p.bits - 6, name := p.name ++ [c] } := by
      have hshr : (Exec.shr p.accumulator (p.bits - 6) : Run _) = _ :=
        Exec.shr_eq_ok _ (by omega)
      rw [Packing.drain, if_pos hbits]
      simp only [hshr, hpush, Exec.ok_bind]
    rw [hdrain]
    exact ih _ hnext (Nat.le_trans (Nat.sub_le _ _) hp)
  | case2 p hbits =>
    rw [Packing.drain, if_neg hbits]
    exact ⟨p, rfl, h, by omega⟩

/-- A byte is added below the bits held, which stay inside the accumulator. -/
theorem Holds.step {input : List Bool} {p : Packing} (h : Holds input p) (hp : p.bits < 6)
    (byte : BitVec 8) :
    ∃ q, p.step byte = .ok q ∧ Holds (input ++ msbFirst 8 byte.getLsbD) q ∧ q.bits < 6 := by
  have hread : msbFirst (p.bits + 8) (p.accumulator <<< 8 ||| byte.setWidth 32).getLsbD =
      msbFirst p.bits p.accumulator.getLsbD ++ msbFirst 8 byte.getLsbD := by
    rw [msbFirst_add]
    congr 1
    · rw [msbFirst_inj]
      intro i hi
      simp
      omega
    · rw [msbFirst_inj]
      intro i hi
      simp [hi]
      omega
  have hadd : Holds (input ++ msbFirst 8 byte.getLsbD)
      { p with accumulator := p.accumulator <<< 8 ||| byte.setWidth 32, bits := p.bits + 8 } := by
    refine ⟨?_, h.letters⟩
    rw [h.split, hread, List.append_assoc]
  rw [Packing.step, Exec.shl_eq_ok _ (by omega), Exec.ok_bind]
  exact hadd.drain (by simp only; omega)

theorem Holds.foldlM {bytes : List (BitVec 8)} {input : List Bool} {p : Packing}
    (h : Holds input p) (hp : p.bits < 6) :
    ∃ q, bytes.foldlM Packing.step p = .ok q ∧
      Holds (input ++ bytes.flatMap fun b => msbFirst 8 b.getLsbD) q ∧ q.bits < 6 := by
  induction bytes generalizing input p with
  | nil => exact ⟨p, rfl, by simpa using h, hp⟩
  | cons b bytes ih =>
    obtain ⟨q, hq, hq', hq6⟩ := h.step hp b
    obtain ⟨r, hr, hr', hr6⟩ := ih hq' hq6
    refine ⟨r, ?_, ?_, hr6⟩
    · rw [List.foldlM_cons, hq]
      exact hr
    · simpa using hr'

/-- No bit of the bytes read is lost. -/
theorem pack_holds (bytes : List (BitVec 8)) :
    ∃ p, pack bytes = .ok p ∧ Holds (bytes.flatMap fun b => msbFirst 8 b.getLsbD) p ∧ p.bits < 6 :=
  Holds.start.foldlM (by decide)

/-- The last letter holds the rest of the bits and zeros. -/
theorem Holds.finish {input : List Bool} {p : Packing} (h : Holds input p) (hp : p.bits < 6) :
    ∃ name, p.finish = .ok name ∧ (∀ c ∈ name, c ∈ alphabet) ∧
      name.flatMap sextet =
        input ++ List.replicate (if p.bits = 0 then 0 else 6 - p.bits) false := by
  by_cases hbits : p.bits > 0
  · obtain ⟨c, hc, hpush, hsextet⟩ := push_eq (p.accumulator <<< (6 - p.bits)) p.name
    have hzero : ∀ n, msbFirst n (fun _ => false) = List.replicate n false := by
      intro n
      induction n with
      | zero => rfl
      | succ n ih => rw [msbFirst, ih, List.replicate_succ]
    have hfill : sextet c = msbFirst p.bits p.accumulator.getLsbD ++
        List.replicate (6 - p.bits) false := by
      have hadd := msbFirst_add p.bits (6 - p.bits) (p.accumulator <<< (6 - p.bits)).getLsbD
      rw [Nat.add_sub_cancel' (by omega)] at hadd
      rw [hsextet, hadd, ← hzero]
      congr 1
      · rw [msbFirst_inj]
        intro i hi
        simp
        omega
      · rw [msbFirst_inj]
        intro i hi
        simp [hi]
    refine ⟨p.name ++ [c], ?_, ?_, ?_⟩
    · rw [Packing.finish, if_pos hbits, Exec.sub_eq_ok (by omega), Exec.ok_bind,
        Exec.shl_eq_ok _ (by omega), Exec.ok_bind, hpush]
    · simpa [or_imp, forall_and, hc] using h.letters
    · rw [h.split, if_neg (by omega)]
      simp [hfill]
  · have h0 : p.bits = 0 := by omega
    refine ⟨p.name, by simp [Packing.finish, hbits], h.letters, ?_⟩
    rw [h.split]
    simp [h0]

end Packing

/-! ### The names -/

theorem bits_asBytes (u : Uuid) :
    (u.asBytes.flatMap fun b => msbFirst 8 b.getLsbD) = msbFirst 128 u.getLsbD := by
  rw [msbFirst_mul 8 16 u.getLsbD, Uuid.asBytes, List.flatMap_map]
  congr 1
  funext i
  rw [msbFirst_inj]
  intro j hj
  simp [hj]

/-- The bits of a transaction. -/
def transactionBits (t : TransactionId) : List Bool :=
  msbFirst 128 t.serviceInstanceId.getLsbD ++ msbFirst 128 t.attemptId.getLsbD

theorem transactionBits_injective {t u : TransactionId}
    (h : transactionBits t = transactionBits u) : t = u := by
  obtain ⟨hs, ha⟩ := List.append_inj h (by simp)
  rw [msbFirst_inj] at hs ha
  cases t
  cases u
  simp only at hs ha
  rw [BitVec.eq_of_getLsbD_eq hs, BitVec.eq_of_getLsbD_eq ha]

/-- The name is made of 43 letters that spell the bits of the transaction and two zeros. -/
theorem endpoint_eq (t : TransactionId) :
    ∃ name, endpoint t = .ok (name ++ ".sock".toList) ∧ name.length = 43 ∧
      (∀ c ∈ name, c ∈ alphabet) ∧ name.flatMap sextet = transactionBits t ++ [false, false] := by
  obtain ⟨p, hp, hholds, h6⟩ := pack_holds (transactionBytes t)
  have hbits : ((transactionBytes t).flatMap fun b => msbFirst 8 b.getLsbD) =
      transactionBits t := by
    rw [transactionBytes, List.flatMap_append, bits_asBytes, bits_asBytes, transactionBits]
  rw [hbits] at hholds
  obtain ⟨name, hname, hletters, hspell⟩ := hholds.finish h6
  have hsum : ∀ l : List Char, (l.flatMap sextet).length = 6 * l.length := by
    intro l
    induction l with
    | nil => rfl
    | cons c l ih =>
      rw [List.flatMap_cons, List.length_append, ih, sextet, msbFirst_length, List.length_cons]
      omega
  -- 256 bits fill 42 letters and four bits of another one.
  have hheld := congrArg List.length hholds.split
  simp only [transactionBits, List.length_append, msbFirst_length, hsum] at hheld
  have hfour : p.bits = 4 := by omega
  rw [hfour] at hspell
  change _ = _ ++ [false, false] at hspell
  have hlength := congrArg List.length hspell
  simp only [transactionBits, List.length_append, msbFirst_length, hsum, List.length_cons,
    List.length_nil] at hlength
  refine ⟨name, ?_, by omega, hletters, hspell⟩
  rw [endpoint, hp, Exec.ok_bind, hname]
  rfl

theorem alphabet_classes (c : Char) (h : c ∈ alphabet) :
    c.isAlphanum = true ∨ c = '-' ∨ c = '_' := by
  have hall : (alphabet.all fun c => c.isAlphanum || c == '-' || c == '_') = true := by
    decide +kernel
  simpa [or_assoc] using List.all_eq_true.1 hall c h

/-- **Transactions never share an endpoint.**  Distinct transactions have distinct names; a name is
43 letters, digits, `-` and `_` before the suffix; and after any part of the bytes the letters
written and the bits held in the accumulator are exactly the bits read. -/
theorem endpoint_distinct :
    (∀ t u, endpoint t = endpoint u → t = u) ∧
    (∀ t, ∃ name, endpoint t = .ok (name ++ ".sock".toList) ∧ name.length = 43 ∧
      ∀ c ∈ name, c.isAlphanum = true ∨ c = '-' ∨ c = '_') ∧
    ∀ t read rest, transactionBytes t = read ++ rest → ∃ p, pack read = .ok p ∧
      (read.flatMap fun b => msbFirst 8 b.getLsbD) =
        p.name.flatMap sextet ++ msbFirst p.bits p.accumulator.getLsbD := by
  refine ⟨fun t u h => ?_, fun t => ?_, fun t read rest _ => ?_⟩
  · obtain ⟨name, hname, -, hletters, hspell⟩ := endpoint_eq t
    obtain ⟨name', hname', -, -, hspell'⟩ := endpoint_eq u
    rw [hname, hname'] at h
    obtain rfl := List.append_cancel_right (Except.ok.inj h)
    rw [hspell] at hspell'
    exact transactionBits_injective (List.append_cancel_right hspell')
  · obtain ⟨name, hname, hlength, hletters, -⟩ := endpoint_eq t
    exact ⟨name, hname, hlength, fun c hc => alphabet_classes c (hletters c hc)⟩
  · obtain ⟨p, hp, hholds, -⟩ := pack_holds read
    exact ⟨p, hp, hholds.split⟩

end Net

end Ocvpn
