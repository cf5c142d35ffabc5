import Ocvpn.Journal.Basic

/-!
# The replay ledger

`claim_completion_at` (`crates/client/src/browser.rs`): which completions of a system browser were
used, as digests that expire after a day.  The file is read and written as a whole; the digest and
the JSON are parameters.

## Main results

* `claimCompletionAt_spec` : a claim that succeeds was not recorded before, and is recorded now.
-/

namespace Ocvpn.Browser

open Crash Net

/-- A used completion. -/
structure Consumed where
  digest : List UInt8
  expires : ℕ
  deriving DecidableEq, Repr

/-- `Sha256` and `serde_json`. -/
structure Ledger where
  digest : String → List UInt8
  fromSlice : List UInt8 → Option (List Consumed)
  toVec : List Consumed → List UInt8

/-- The file, if it is there. -/
abbrev LedgerFile := Option (List UInt8)

def ledgerBytes : ℕ := 65536

def ledgerRecords : ℕ := 256

def ledgerDay : ℕ := 86400

namespace Ledger

variable (l : Ledger)

/-- The records of a file. -/
def records : LedgerFile → Run (List Consumed)
  | none => pure []
  | some bytes =>
    if bytes.length > ledgerBytes then
      Exec.fail (.new .corruptStorage "Browser replay ledger exceeds its limit")
    else match l.fromSlice bytes with
      | some records => pure records
      | none => Exec.fail (.new .corruptStorage
          "Browser replay ledger is invalid; authentication was not submitted")

/-- The records that have not expired. -/
def live (now : ℕ) (records : List Consumed) : List Consumed := records.filter (·.expires > now)

/-- The record of a cookie. -/
def record (cookie : String) (now : ℕ) : Consumed :=
  ⟨l.digest cookie, min (now + ledgerDay) (2 ^ 64 - 1)⟩

/-- `claim_completion_at`. -/
def claimCompletionAt (cookie : String) (now : ℕ) : Io LedgerFile Error Unit := do
  let file ← Io.query .ok
  let records ← ofRun (l.records file)
  let records := live now records
  if records.any (·.digest == l.digest cookie) then
    Io.fail (.new .authenticationRejected
      "Browser completion was already consumed; start a fresh authentication")
  else if records.length ≥ ledgerRecords then
    Io.fail (.new .busy "Browser replay ledger is full; retry after previous transactions expire")
  else
    Io.act fun _ => .ok (some (l.toVec (records ++ [l.record cookie now])))

/-- The file changes by a claim of the cookie. -/
def Claimed (cookie : String) (file file' : LedgerFile) : Prop :=
  ∃ now records, l.records file = .ok records ∧
    (∀ r ∈ records, now < r.expires → r.digest ≠ l.digest cookie) ∧
    file' = some (l.toVec (live now records ++ [l.record cookie now]))

/-- **A claim that succeeds** was not recorded before, and is recorded now. -/
theorem claimCompletionAt_spec (cookie : String) (now : ℕ) (file : LedgerFile) :
    Spec True (· = file) (l.claimCompletionAt cookie now) (fun _ => l.Claimed cookie file)
      (fun _ _ => True) fun _ => True := by
  unfold claimCompletionAt
  refine Spec.bind (R := fun found w => found = w ∧ w = file) (Spec.query ?_ (fun _ _ _ _ => ⟨⟩)
    fun _ _ _ => ⟨fun _ => ⟨⟩, ⟨⟩⟩) fun found => ?_
  · rintro w found rfl hfound
    cases hfound
    exact ⟨rfl, rfl⟩
  refine Spec.intro (p := found = file) (fun w hw => hw.1.trans hw.2) ?_
  rintro rfl
  refine spec_ofRun_bind (fun records hrecords => ?_) (fun _ _ _ _ => ⟨⟩) fun _ _ _ => ⟨⟨⟩, ⟨⟩⟩
  dsimp only
  split_ifs with hseen hfull
  · exact .fail fun _ _ => ⟨⟩
  · exact .fail fun _ _ => ⟨⟩
  · refine Spec.act ?_ (fun _ _ _ _ => ⟨⟩) fun _ _ _ => ⟨fun _ => ⟨⟩, ⟨⟩, fun _ _ => ⟨fun _ => ⟨⟩, ⟨⟩⟩⟩
    rintro w w' - hw'
    cases hw'
    refine ⟨now, records, hrecords, fun r hr hexp heq => hseen ?_, rfl⟩
    exact List.any_eq_true.2 ⟨r, by simp [live, hr, hexp], by simpa using heq⟩

end Ledger

end Ocvpn.Browser
