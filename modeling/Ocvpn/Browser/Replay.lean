import Ocvpn.Browser.Ledger
import Ocvpn.Json.Compact
import Ocvpn.LTS.Basic
import Ocvpn.LTS.History

/-!
# The replay ledger over time

Claims on one ledger file, one after another, with any clock.  A claim that succeeds leaves the
record of its cookie in the file; the record goes when a later successful claim finds it expired.

## Main results

* `Ledger.claim_cases` : a claim fails and leaves the file alone, or rewrites it.
* `Ledger.completion_claimed_once_a_day` : a cookie is not accepted again before a claim has found
  the clock a day later.
-/

namespace Ocvpn.Browser

open Crash Net

/-! ### The layout of the file -/

/-- A record as `serde_json` writes it. -/
def Consumed.json (r : Consumed) : Json := .object
  [("digest", .array (r.digest.map fun b => .number b.toNat)), ("expires", .number r.expires)]

/-- The types of the fields: `[u8; 32]` and `u64`. -/
structure Consumed.Fits (r : Consumed) : Prop where
  digest : r.digest.length = 32
  expires : r.expires < 2 ^ 64

/-- What `Sha256` and `serde_json` do: a digest has 32 bytes, records are written without blanks and
read back. -/
structure Ledger.Lawful (l : Ledger) : Prop where
  digest_length : ∀ cookie, (l.digest cookie).length = 32
  toVec_eq : ∀ records, l.toVec records = Json.compact (.array (records.map Consumed.json))
  fromSlice_toVec : ∀ records, (∀ r ∈ records, r.Fits) → l.fromSlice (l.toVec records) = some records

theorem Consumed.Fits.length_json_le {r : Consumed} (h : r.Fits) :
    (Json.compact r.json).length ≤ 171 := by
  have hbytes : ((r.digest.map fun b => Json.number b.toNat).map
      fun item => (Json.compact item).length).sum ≤ 32 * 3 := by
    refine (List.sum_le_card_nsmul _ 3 fun k hk => ?_).trans (by simp [h.digest])
    obtain ⟨item, hitem, rfl⟩ := List.mem_map.1 hk
    obtain ⟨b, -, rfl⟩ := List.mem_map.1 hitem
    rw [Json.length_compact_number]
    exact (Nat.length_toDigits_le_iff (by omega) (by omega)).2 (by have := b.toNat_lt; omega)
  have hexpires : (Nat.toDigits 10 r.expires).length ≤ 20 :=
    (Nat.length_toDigits_le_iff (by omega) (by omega)).2 (by have := h.expires; omega)
  have hdigest : Json.stringLength "digest" = 8 := by decide
  have hname : Json.stringLength "expires" = 9 := by decide
  rw [Consumed.json, Json.length_compact_object]
  simp only [List.map_cons, List.map_nil, List.sum_cons, List.sum_nil, List.length_cons,
    List.length_nil, Json.length_compact_array, Json.length_compact_number, List.length_map,
    h.digest, hdigest, hname]
  omega

/-- A full ledger stays below its limit. -/
theorem Ledger.Lawful.length_le {l : Ledger} (h : l.Lawful) {records : List Consumed}
    (hfits : ∀ r ∈ records, r.Fits) (hfew : records.length ≤ ledgerRecords) :
    (l.toVec records).length ≤ ledgerBytes := by
  have hrecords : ((records.map Consumed.json).map fun item => (Json.compact item).length).sum ≤
      records.length * 171 := by
    refine (List.sum_le_card_nsmul _ 171 fun k hk => ?_).trans (by simp)
    obtain ⟨item, hitem, rfl⟩ := List.mem_map.1 hk
    obtain ⟨r, hr, rfl⟩ := List.mem_map.1 hitem
    exact (hfits r hr).length_json_le
  rw [h.toVec_eq, Json.length_compact_array, List.length_map]
  simp only [ledgerRecords, ledgerBytes] at hfew ⊢
  omega

/-! ### Claims -/

/-- No access takes effect and fails, and none is where the program stops: a write is atomic. -/
def Atomic (cuts : List (Cut Error)) : Prop := ∀ c ∈ cuts, c = .performed ∨ ∃ e, c = .refused e

theorem Atomic.head {cuts : List (Cut Error)} (h : Atomic cuts) :
    cuts.headD .performed = .performed ∨ ∃ e, cuts.headD .performed = .refused e := by
  cases cuts with
  | nil => exact .inl rfl
  | cons c cuts => exact h c List.mem_cons_self

/-- A claim that was made. -/
structure Claim where
  cookie : String
  now : ℕ
  outcome : Outcome Error Unit

/-- The claim succeeded. -/
def Claim.Succeeded (c : Claim) : Prop := c.outcome = .ok ()

/-- The end of the day that begins with the claim. -/
def Claim.expires (c : Claim) : ℕ := min (c.now + ledgerDay) (2 ^ 64 - 1)

/-- If the cookie was accepted before, a successful claim since then, or this one, found the day
over. -/
def OnceADay (before : List Claim) (c : Claim) : Prop :=
  c.Succeeded → ∀ earlier first since, before = earlier ++ first :: since → first.Succeeded →
    first.cookie = c.cookie → ∃ d ∈ since ++ [c], d.Succeeded ∧ first.expires ≤ d.now

namespace Ledger

variable {l : Ledger} {cookie : String} {now : ℕ} {file file' : LedgerFile}
  {records : List Consumed}

/-- The records of the file after a successful claim. -/
def after (l : Ledger) (cookie : String) (now : ℕ) (records : List Consumed) : List Consumed :=
  live now records ++ [l.record cookie now]

/-- A claim of the cookie succeeds at the file. -/
structure Accepts (l : Ledger) (cookie : String) (now : ℕ) (file file' : LedgerFile)
    (records : List Consumed) : Prop where
  found : l.records file = .ok records
  unseen : ∀ r ∈ live now records, r.digest ≠ l.digest cookie
  room : (live now records).length < ledgerRecords
  written : file' = some (l.toVec (l.after cookie now records))

theorem records_ne_panic : l.records file ≠ .error .panic := by
  unfold Ledger.records
  cases file with
  | none => exact nofun
  | some bytes =>
    dsimp only
    split_ifs
    · simp [Exec.fail]
    · cases l.fromSlice bytes <;> simp [Exec.fail, pure, Except.pure]

/-- A claim fails and leaves the file alone, or rewrites it. -/
theorem claim_cases {cuts : List (Cut Error)} (hcuts : Atomic cuts) {r : Outcome Error Unit}
    {s : State LedgerFile Error} (h : l.claimCompletionAt cookie now ⟨file, cuts⟩ = (r, s)) :
    ((∃ e, r = .err e) ∧ s.world = file) ∨
      (r = .ok () ∧ ∃ records, l.Accepts cookie now file s.world records) := by
  have htail : Atomic cuts.tail := fun c hc => hcuts c (List.mem_of_mem_tail hc)
  simp only [claimCompletionAt, bind, Io.bind, Io.query] at h
  rcases hcuts.head with hread | ⟨e, hread⟩
  · rw [hread] at h
    dsimp only at h
    cases hrecords : l.records file with
    | error e =>
      cases e with
      | error e =>
        rw [hrecords] at h
        cases h
        exact .inl ⟨⟨e, rfl⟩, rfl⟩
      | panic => exact absurd hrecords records_ne_panic
    | ok records =>
      rw [hrecords] at h
      simp only [ofRun, pure, Io.pure] at h
      split_ifs at h with hseen hfull
      · cases h
        exact .inl ⟨⟨_, rfl⟩, rfl⟩
      · cases h
        exact .inl ⟨⟨_, rfl⟩, rfl⟩
      · rcases htail.head with hwrite | ⟨e, hwrite⟩
        · simp only [Io.act, hwrite] at h
          cases h
          refine .inr ⟨rfl, records, hrecords, ?_, Nat.not_le.1 hfull, rfl⟩
          simpa using hseen
        · simp only [Io.act, hwrite] at h
          cases h
          exact .inl ⟨⟨e, rfl⟩, rfl⟩
  · rw [hread] at h
    cases h
    exact .inl ⟨⟨e, rfl⟩, rfl⟩

/-- What is written fits, and is read again. -/
theorem Lawful.record_fits (h : l.Lawful) (cookie : String) (now : ℕ) :
    (l.record cookie now).Fits :=
  ⟨h.digest_length cookie, by simp only [record]; omega⟩

/-! ### Runs -/

/-- The claims on one file, in their order. -/
def machine (l : Ledger) : Machine LedgerFile (String × ℕ × List (Cut Error)) Claim where
  init file := file = none
  step file
    | (cookie, now, cuts) =>
      let (outcome, s) := l.claimCompletionAt cookie now ⟨file, cuts⟩
      some (s.world, [⟨cookie, now, outcome⟩])

/-- What the file holds after the claims `os`. -/
structure Keeps (l : Ledger) (os : List Claim) (records : List Consumed) : Prop where
  fits : ∀ r ∈ records, r.Fits
  few : records.length ≤ ledgerRecords
  distinct : (records.map (·.digest)).Nodup
  recent : ∀ earlier first since, os = earlier ++ first :: since → first.Succeeded →
    (∃ d ∈ since, d.Succeeded ∧ first.expires ≤ d.now) ∨
      ∃ r ∈ records, r.digest = l.digest first.cookie ∧ r.expires = first.expires

theorem Keeps.initial : l.Keeps [] [] := by
  refine ⟨nofun, Nat.zero_le _, List.nodup_nil, fun earlier first since h => ?_⟩
  simp at h

/-- A failed claim changes nothing. -/
theorem Keeps.fail {os : List Claim} (h : l.Keeps os records) {c : Claim} (hc : ¬ c.Succeeded) :
    l.Keeps (os ++ [c]) records := by
  refine ⟨h.fits, h.few, h.distinct, fun earlier first since hos hfirst => ?_⟩
  obtain ⟨-, rfl, -⟩ | ⟨mid, rfl, rfl⟩ := eq_of_snoc hos
  · exact absurd hfirst hc
  · refine (h.recent earlier first mid rfl hfirst).imp_left ?_
    rintro ⟨d, hd, hlate⟩
    exact ⟨d, List.mem_append_left _ hd, hlate⟩

/-- **A successful claim** of a recorded cookie finds the record expired. -/
theorem Keeps.onceADay {os : List Claim} (h : l.Keeps os records)
    (hacc : l.Accepts cookie now file file' records) (outcome : Outcome Error Unit) :
    OnceADay os ⟨cookie, now, outcome⟩ := by
  intro hc earlier first since hos hfirst hcookie
  obtain ⟨d, hd, hlate⟩ | ⟨r, hr, hdigest, hexpires⟩ := h.recent earlier first since hos hfirst
  · exact ⟨d, List.mem_append_left _ hd, hlate⟩
  · refine ⟨⟨cookie, now, outcome⟩, by simp, hc, Nat.not_lt.1 fun hlt => ?_⟩
    have hlive : r ∈ live now records := by simp [live, hr, hexpires, hlt]
    exact hacc.unseen r hlive (by rw [hdigest, hcookie])

/-- A successful claim leaves a ledger that keeps everything. -/
theorem Keeps.succeed {os : List Claim} (hl : l.Lawful) (h : l.Keeps os records)
    (hacc : l.Accepts cookie now file file' records) :
    l.Keeps (os ++ [⟨cookie, now, .ok ()⟩]) (l.after cookie now records) := by
  refine ⟨fun r hr => ?_, ?_, ?_, fun earlier first since hos hfirst => ?_⟩
  · obtain hr | hr := List.mem_append.1 hr
    · exact h.fits r (List.mem_of_mem_filter hr)
    · rw [List.mem_singleton.1 hr]
      exact hl.record_fits cookie now
  · simpa [after, Nat.succ_le_iff] using hacc.room
  · have hold : ((live now records).map (·.digest)).Nodup :=
      h.distinct.sublist (List.Sublist.map _ List.filter_sublist)
    simp only [after, List.map_append, List.map_cons, List.map_nil]
    refine List.nodup_append.2 ⟨hold, by simp, fun a ha b hb => ?_⟩
    obtain ⟨r, hr, rfl⟩ := List.mem_map.1 ha
    rw [List.mem_singleton.1 hb]
    exact hacc.unseen r hr
  · obtain ⟨-, rfl, -⟩ | ⟨mid, rfl, rfl⟩ := eq_of_snoc hos
    · exact .inr ⟨l.record cookie now, by simp [after], rfl, rfl⟩
    obtain ⟨d, hd, hlate⟩ | ⟨r, hr, hdigest, hexpires⟩ := h.recent earlier first mid rfl hfirst
    · exact .inl ⟨d, List.mem_append_left _ hd, hlate⟩
    -- the record outlives this claim, or this claim is the one that found the day over
    by_cases hlt : now < r.expires
    · exact .inr ⟨r, by simp [after, live, hr, hlt], hdigest, hexpires⟩
    · refine .inl ⟨⟨cookie, now, .ok ()⟩, by simp, rfl, ?_⟩
      rw [← hexpires]
      exact Nat.not_lt.1 hlt

/-- What is written is read by the next claim. -/
theorem Keeps.readable {os : List Claim} (hl : l.Lawful) (h : l.Keeps os records) :
    l.records (some (l.toVec records)) = .ok records := by
  have hlength := hl.length_le h.fits h.few
  simp only [Ledger.records, Nat.not_lt.2 hlength, if_false, hl.fromSlice_toVec records h.fits]
  rfl

/-- What holds of the file and the claims so far. -/
def Sound (l : Ledger) (os : List Claim) (file : LedgerFile) : Prop :=
  AtEach OnceADay os ∧ ∃ records, l.records file = .ok records ∧ l.Keeps os records ∧
    (file = none ∨ file = some (l.toVec records))

theorem Sound.step {os o : List Claim} {i : String × ℕ × List (Cut Error)} (hl : l.Lawful)
    (h : l.Sound os file) (hcuts : Atomic i.2.2) (hst : l.machine.step file i = some (file', o)) :
    l.Sound (os ++ o) file' := by
  obtain ⟨cookie, now, cuts⟩ := i
  obtain ⟨honce, records, hrecords, hkeeps, hfile⟩ := h
  simp only [machine] at hst
  cases hclaim : l.claimCompletionAt cookie now ⟨file, cuts⟩ with | mk outcome s
  rw [hclaim] at hst
  cases hst
  obtain ⟨⟨e, rfl⟩, hworld⟩ | ⟨rfl, records', hacc⟩ := claim_cases hcuts hclaim
  · have hfailed : ¬ (⟨cookie, now, .err e⟩ : Claim).Succeeded := nofun
    rw [hworld]
    exact ⟨honce.snoc fun hc => absurd hc hfailed, records, hrecords, hkeeps.fail hfailed, hfile⟩
  · obtain rfl : records' = records := Except.ok.inj (hacc.found.symm.trans hrecords)
    have hafter := hkeeps.succeed hl hacc
    rw [hacc.written]
    exact ⟨honce.snoc (hkeeps.onceADay hacc _), _, hafter.readable hl, hafter, .inr rfl⟩

/-- **The replay ledger**: a cookie is not accepted again before a successful claim has found the
clock a day later; the ledger holds at most 256 records with pairwise distinct digests, stays within
its limit and is read by the next claim; a claim that fails leaves it alone. -/
theorem completion_claimed_once_a_day (l : Ledger) (hl : l.Lawful) (os : List Claim)
    (file : LedgerFile) (h : l.machine.Run (fun _ i => Atomic i.2.2) none os file) :
    AtEach OnceADay os ∧
      (∃ records, l.records file = .ok records ∧ records.length ≤ 256 ∧
        (records.map (·.digest)).Nodup) ∧
      (∀ bytes, file = some bytes → bytes.length ≤ 65536) ∧
      ∀ cookie now cuts e s, Atomic cuts →
        l.claimCompletionAt cookie now ⟨file, cuts⟩ = (.err e, s) → s.world = file := by
  have hsound : l.Sound os file := by
    refine h.invariant (P := l.Sound) ⟨.nil, [], rfl, .initial, .inl rfl⟩ ?_
    exact fun os file i file' o hs hcuts hst => hs.step hl hcuts hst
  obtain ⟨honce, records, hrecords, hkeeps, hfile⟩ := hsound
  refine ⟨honce, ⟨records, hrecords, hkeeps.few, hkeeps.distinct⟩, fun bytes hbytes => ?_,
    fun cookie now cuts e s hcuts hclaim => ?_⟩
  · obtain rfl | rfl := hfile
    · cases hbytes
    · cases hbytes
      exact hl.length_le hkeeps.fits hkeeps.few
  · obtain ⟨-, hworld⟩ | ⟨hok, -⟩ := claim_cases hcuts hclaim
    · exact hworld
    · cases hok

end Ledger

/-! ### A reader of ledgers -/

/-- The numbers in a text, with the one that is being read. -/
def numbers : Option ℕ → List UInt8 → List ℕ
  | n, [] => n.toList
  | n, b :: text =>
    if 0x30 ≤ b ∧ b ≤ 0x39 then numbers (some (10 * n.getD 0 + (b.toNat - 0x30))) text
    else n.toList ++ numbers none text

/-- The text holds the numbers, whatever follows that cannot be a digit. -/
def Holds (text : List UInt8) (ns : List ℕ) : Prop :=
  ∀ b rest, ¬ (0x30 ≤ b ∧ b ≤ 0x39) →
    numbers none (text ++ b :: rest) = ns ++ numbers none (b :: rest)

theorem numbers_digits {cs : List Char} (hcs : ∀ c ∈ cs, c.isDigit = true) (n : Option ℕ)
    (hne : n.isSome = true ∨ cs ≠ []) {b : UInt8} {rest : List UInt8}
    (hb : ¬ (0x30 ≤ b ∧ b ≤ 0x39)) :
    numbers n ((cs.map fun c => .ofNat c.toNat) ++ b :: rest) =
      Nat.ofDigitChars 10 cs (n.getD 0) :: numbers none (b :: rest) := by
  induction cs generalizing n with
  | nil =>
    obtain ⟨k, rfl⟩ := Option.isSome_iff_exists.1 (hne.resolve_right fun h => h rfl)
    simp [numbers, hb]
  | cons c cs ih =>
    have hdigit : 48 ≤ c.toNat ∧ c.toNat ≤ 57 := by
      have hc := hcs c List.mem_cons_self
      simp only [Char.isDigit, Bool.and_eq_true, decide_eq_true_eq, UInt32.le_iff_toNat_le] at hc
      exact hc
    have hbyte : (UInt8.ofNat c.toNat).toNat = c.toNat := by
      rw [UInt8.toNat_ofNat']
      omega
    have hrange : (0x30 : UInt8) ≤ .ofNat c.toNat ∧ (.ofNat c.toNat : UInt8) ≤ 0x39 := by
      simp only [UInt8.le_iff_toNat_le, hbyte]
      exact hdigit
    rw [List.map_cons, List.cons_append, numbers, if_pos hrange, hbyte,
      ih (fun d hd => hcs d (List.mem_cons_of_mem _ hd)) _ (.inl rfl), Nat.ofDigitChars_cons]
    rfl

theorem holds_number (n : ℕ) : Holds (Json.compact (.number n)) [n] := by
  intro b rest hb
  have hne : Nat.toDigits 10 n ≠ [] := List.ne_nil_of_length_pos Nat.length_toDigits_pos
  have hdigits : ∀ c ∈ Nat.toDigits 10 n, c.isDigit = true := fun c hc =>
    Nat.isDigit_of_mem_toDigits (by decide) (by decide) hc
  rw [Json.compact, numbers_digits hdigits none (.inr hne) hb, Option.getD_none,
    Nat.ofDigitChars_ten_toDigits]
  rfl

theorem plain_of_all {plain : List UInt8}
    (h : (plain.all fun b => !(0x30 ≤ b && b ≤ 0x39)) = true) :
    ∀ b ∈ plain, ¬ (0x30 ≤ b ∧ b ≤ 0x39) := by
  intro b hb hdigit
  have hplain := List.all_eq_true.1 h b hb
  simp [hdigit] at hplain

/-- A text without digits before a text. -/
theorem Holds.after {text : List UInt8} {ns : List ℕ} (h : Holds text ns) (plain : List UInt8)
    (hplain : ∀ b ∈ plain, ¬ (0x30 ≤ b ∧ b ≤ 0x39)) : Holds (plain ++ text) ns := by
  intro b rest hb
  induction plain with
  | nil => exact h b rest hb
  | cons c plain ih =>
    rw [List.cons_append, List.cons_append, numbers, if_neg (hplain c List.mem_cons_self)]
    exact ih fun d hd => hplain d (List.mem_cons_of_mem _ hd)

/-- A byte that is not a digit after a text. -/
theorem Holds.before {text : List UInt8} {ns : List ℕ} (h : Holds text ns) {c : UInt8}
    (hc : ¬ (0x30 ≤ c ∧ c ≤ 0x39)) : Holds (text ++ [c]) ns := by
  intro b rest hb
  rw [List.append_assoc, List.singleton_append, h c _ hc]
  simp only [numbers, hc, hb, if_false, Option.toList_none, List.nil_append]

theorem Holds.separated {texts : List (List UInt8)} {ns : List (List ℕ)}
    (h : List.Forall₂ Holds texts ns) : Holds (Json.separated texts) ns.flatten := by
  have hcomma : ¬ ((0x30 : UInt8) ≤ 0x2c ∧ (0x2c : UInt8) ≤ 0x39) := by decide
  induction h with
  | nil => exact fun _ _ _ => rfl
  | cons htext hrest ih =>
    rename_i text n texts ns
    cases texts with
    | nil =>
      cases hrest
      simpa [Json.separated] using htext
    | cons next texts =>
      intro b rest hb
      have hcons : Json.separated (text :: next :: texts) =
          text ++ 0x2c :: Json.separated (next :: texts) := by
        simp [Json.separated, List.intercalate_cons_cons]
      rw [hcons, List.append_assoc, List.cons_append, htext _ _ hcomma, numbers, if_neg hcomma,
        ih b rest hb]
      simp

/-- The numbers of a record. -/
def Consumed.numbers (r : Consumed) : List ℕ := r.digest.map (·.toNat) ++ [r.expires]

theorem Consumed.holds (r : Consumed) : Holds (Json.compact r.json) r.numbers := by
  have hdigest : Holds (Json.compact (.array (r.digest.map fun b => .number b.toNat)))
      (r.digest.map (·.toNat)) := by
    have hitems : Holds (Json.separated (Json.compactItems
        (r.digest.map fun b => .number b.toNat))) ((r.digest.map fun b => [b.toNat]).flatten) := by
      refine Holds.separated ?_
      rw [Json.compactItems_eq, List.map_map]
      exact List.forall₂_map_left_iff.2 (List.forall₂_map_right_iff.2
        (List.forall₂_same.2 fun b _ => holds_number b.toNat))
    have hflat : (r.digest.map fun b => [b.toNat]).flatten = r.digest.map (·.toNat) := by
      rw [← List.flatMap_def, ← List.map_eq_flatMap]
    rw [← hflat]
    exact (hitems.after [0x5b] (plain_of_all (by decide))).before (by decide)
  have hfields : Holds (Json.separated [Json.quoted "digest" ++ 0x3a :: Json.compact
      (.array (r.digest.map fun b => .number b.toNat)),
      Json.quoted "expires" ++ 0x3a :: Json.compact (.number r.expires)])
      [r.digest.map (·.toNat), [r.expires]].flatten := by
    refine Holds.separated (.cons ?_ (.cons ?_ .nil))
    · have hfield := hdigest.after (Json.quoted "digest" ++ [0x3a])
        (plain_of_all (by decide))
      rwa [List.append_assoc, List.singleton_append] at hfield
    · have hfield := (holds_number r.expires).after (Json.quoted "expires" ++ [0x3a])
        (plain_of_all (by decide))
      rwa [List.append_assoc, List.singleton_append] at hfield
  exact (hfields.after [0x7b] (plain_of_all (by decide))).before (by decide)

/-- Records from their numbers, at most `k` of them. -/
def consumedOf : ℕ → List ℕ → List Consumed
  | 0, _ => []
  | k + 1, ns =>
    if ns = [] then []
    else ⟨(ns.take 32).map UInt8.ofNat, (ns.drop 32).headD 0⟩ :: consumedOf k (ns.drop 33)

theorem consumedOf_numbers {records : List Consumed} (h : ∀ r ∈ records, r.Fits) {k : ℕ}
    (hk : records.length ≤ k) : consumedOf k (records.map Consumed.numbers).flatten = records := by
  induction records generalizing k with
  | nil => cases k <;> rfl
  | cons r records ih =>
    obtain ⟨k, rfl⟩ : ∃ n, k = n + 1 := ⟨k - 1, by simp at hk; omega⟩
    have hrest := ih (fun r hr => h r (List.mem_cons_of_mem _ hr)) (Nat.le_of_succ_le_succ hk)
    have hlength : (r.digest.map (·.toNat)).length = 32 := by
      rw [List.length_map, (h r List.mem_cons_self).digest]
    have hdigest : (r.digest.map (·.toNat)).map UInt8.ofNat = r.digest := by
      rw [List.map_map]
      exact (List.map_congr_left fun b _ => UInt8.ofNat_toNat).trans (List.map_id _)
    have hns : ((r :: records).map Consumed.numbers).flatten =
        r.digest.map (·.toNat) ++ r.expires :: (records.map Consumed.numbers).flatten := by
      simp [Consumed.numbers]
    rw [hns, consumedOf, if_neg (by simp), List.take_left' hlength, List.drop_left' hlength, hdigest,
      show 33 = 32 + 1 from rfl, ← List.drop_drop, List.drop_left' hlength]
    simp [hrest]

/-- SHA-256 of the cookie of the sample, and JSON: a text is read by its numbers. -/
def sampleLedger : Ledger where
  digest _ := [215, 232, 62, 40, 160, 75, 83, 126, 100, 66, 69, 70, 177, 76, 175, 155, 103, 186, 210,
    242, 141, 171, 206, 104, 17, 110, 13, 55, 35, 25, 250, 0]
  toVec records := Json.compact (.array (records.map Consumed.json))
  fromSlice bytes := some (consumedOf bytes.length (numbers none bytes))

theorem sampleLedger_lawful : sampleLedger.Lawful where
  digest_length _ := rfl
  toVec_eq _ := rfl
  fromSlice_toVec records hfits := by
    have hholds : Holds (Json.separated (Json.compactItems (records.map Consumed.json)))
        (records.map Consumed.numbers).flatten := by
      refine Holds.separated ?_
      rw [Json.compactItems_eq, List.map_map]
      exact List.forall₂_map_left_iff.2 (List.forall₂_map_right_iff.2
        (List.forall₂_same.2 fun r _ => r.holds))
    have hnumbers : numbers none (Json.compact (.array (records.map Consumed.json))) =
        (records.map Consumed.numbers).flatten := by
      have hall := hholds.after [0x5b] (plain_of_all (by decide)) 0x5d [] (by decide)
      simpa [Json.compact, numbers] using hall
    have hlength : records.length ≤ (Json.compact (.array (records.map Consumed.json))).length := by
      rw [Json.length_compact_array]
      simp only [List.length_map]
      omega
    show some (consumedOf _ (numbers none (Json.compact _))) = _
    rw [hnumbers]
    exact congrArg some (consumedOf_numbers hfits hlength)

/-- The inputs of the sample: the second claim comes a day later. -/
def sampleClaims : List (String × ℕ × List (Cut Error)) :=
  [("cookie", 100, []), ("cookie", 101, []), ("cookie", 86500, [])]

theorem completion_claimed_once_a_day_sample :
    AtEach OnceADay (sampleLedger.machine.emitted none sampleClaims) ∧
      (sampleLedger.machine.emitted none sampleClaims).map (·.outcome) =
        [.ok (), .err (.new .authenticationRejected
          "Browser completion was already consumed; start a fresh authentication"), .ok ()] := by
  have hrun := (Machine.Run.refl : sampleLedger.machine.Run (fun _ i => Atomic i.2.2) none [] none)
  have hrun := hrun.perform fun i (hi : i ∈ sampleClaims) _ => by
    simp only [sampleClaims, List.mem_cons, List.not_mem_nil, or_false] at hi
    obtain rfl | rfl | rfl := hi <;> exact nofun
  rw [List.nil_append] at hrun
  exact ⟨(Ledger.completion_claimed_once_a_day sampleLedger sampleLedger_lawful _ _ hrun).1,
    by decide +kernel⟩

end Ocvpn.Browser
