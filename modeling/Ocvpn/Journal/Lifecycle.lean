import Ocvpn.Journal.Execute

/-!
# Recovery and the lifecycle

`restore_one`, `restore`, `recover`, `recover_all` and `lifecycle` of `crates/net/src/journal.rs`.
-/

namespace Ocvpn.Net

open Crash

section Programs

variable {H : Type} (P : Platform H)

/-! ### Recovery -/

def unobserved : Error := .new .recoveryRequired
  "Interrupted network mutation has unobserved state; preserved for explicit recovery"

def previousBoot : Error := .new .recoveryRequired
  "Network interface identity belongs to a previous OS boot; current state preserved"

def concurrentChange : Error := .new .recoveryRequired
  "Concurrent network change preserved; retry service repair after resolving conflict"

/-- A DNS policy rule with recorded rule names survives a boot and stays recognisable. -/
def persistentOwned (m : Mutation) : Bool :=
  m.key.kind = "win-nrpt" &&
    ((m.applied.bind (·.get "names")).bind Value.asArray).any fun names => !names.isEmpty

/-- What the transaction knows it left at a key. -/
def Mutation.owned (m : Mutation) : Option Value := m.applied.or m.intended

/-- `restore_one`. -/
def restoreOne (j : Journal) (index : ℕ) (sameBoot : Bool) : Prog H Unit :=
  match j.mutations[index]? with
  | none => Io.panic
  | some m => do
    if ← Io.query fun w => P.vanished w.host m.key then pure ()
    else do
      let current ← readKey P m.key
      if P.equivalent m.key current m.before then pure ()
      else if j.pendingOperation = some index ∧ !P.equivalent m.key current m.intended then
        Io.fail unobserved
      else if current.isNone ∧ m.intended.isSome then pure ()
      else if !sameBoot ∧ current.isNone then pure ()
      else if !sameBoot ∧ !persistentOwned m then Io.fail previousBoot
      else if !P.equivalent m.key current m.owned then Io.fail concurrentChange
      else do
        writeHost m.key m.before (P.restore m.key m.before current)
        let restored ← readKey P m.key
        if P.equivalent m.key restored m.before then pure () else Io.fail error

/-- The disconnect script of `restore`. -/
def restoreScript (j : Journal) (sameBoot : Bool) : Prog H (List Error) :=
  match P.adapter with
  | .unix ops =>
    if sameBoot then do
      match ← Io.attempt (applyScript ops j.config .disconnect j.mutations fun index =>
          restoreOne P j index sameBoot) with
      | .ok () => pure []
      | .error e => pure [e]
    else pure []
  | .windows _ => pure []

/-- `restore`. -/
def restore (j : Journal) : Prog H (List Error) := do
  let boot ← bootId
  let sameBoot := j.bootId = boot
  let script ← restoreScript P j sameBoot
  let reverse ← Io.collect (List.range j.mutations.length).reverse fun index =>
    restoreOne P j index sameBoot
  let warnings := script ++ reverse
  if warnings.isEmpty then do
    removeFile (path j.transaction)
    syncDirectory
    pure warnings
  else pure warnings

/-- `recover`. -/
def recover (t : TransactionId) : Prog H (List Error) := do
  privileged
  lock
  match ← load t with
  | some j => restore P j
  | none => pure []

/-- The transaction a journal's file name tells. -/
def transactionOf (uuid : UuidCrate) (name : List Char) : Option TransactionId :=
  let stem := name.take (name.length - 5)
  if stem.length ≠ 73 ∨ stem[36]? ≠ some '-' then none
  else match uuid.parseStr (stem.take 36), uuid.parseStr (stem.drop 37) with
    | some serviceInstanceId, some attemptId => some { serviceInstanceId, attemptId }
    | _, _ => none

/-- The loop of `recover_all`. -/
def recoverEntries : List FileName → Prog H (List Error)
  | [] => pure []
  | .raw _ :: _ => Io.fail error
  | .text name :: names =>
    if !".json".toList.isSuffixOf name then recoverEntries names
    else match transactionOf P.uuid name with
      | none => Io.fail error
      | some t => do
        match ← load t with
        | none => recoverEntries names
        | some j => do
          let warnings ← restore P j
          let rest ← recoverEntries names
          pure (warnings ++ rest)

/-- `recover_all`. -/
def recoverAll : Prog H (List Error) := do
  privileged
  lock
  let names ← readDir
  recoverEntries P names

/-! ### The lifecycle -/

structure LifecycleInput where
  reason : NetworkReason
  config : Option NetworkConfig

/-- The journal in memory. -/
def memory : Prog H Journal := do
  match ← Io.get (·.memory) with
  | some j => pure j
  | none => Io.panic

/-- Replace the journal in memory. -/
def setMemory (j : Journal) : Prog H Unit := Io.modify fun w => { w with memory := some j }

/-- Record what was observed of a mutation. -/
def Journal.setApplied (j : Journal) (index : ℕ) (value : Option Value) : Journal :=
  { j with mutations := j.mutations.modify index fun m => { m with applied := value } }

/-- One operation of the connect script: its intent and its result are durable. -/
def applyOperation (ops : UnixOps H) (config : NetworkConfig) (inventory : List Mutation)
    (index : ℕ) : Prog H Unit := do
  let j ← memory
  setMemory { j with pendingOperation := some index }
  save P { j with pendingOperation := some index }
  match inventory[index]? with
  | none => Io.panic
  | some item => do
    let applied ← onHost (ops.applyOne config item)
    let j := { j.setApplied index applied with pendingOperation := none }
    setMemory j
    save P j

/-- `apply` of `lifecycle`. -/
def applyPlan (reason : NetworkReason) : Prog H Unit := do
  let j ← memory
  match P.adapter with
  | .unix ops => do
    Io.forEach j.mutations fun m => do
      let current ← readKey P m.key
      if current = m.before then pure ()
      else Io.fail (.new .conflict "Network state changed after transaction planning")
    applyScript ops j.config reason j.mutations (applyOperation P ops j.config j.mutations)
  | .windows applyPlanned => onHost (applyPlanned j.mutations)

def notApplied : Error :=
  failure "Applied network configuration did not match operating system state"

/-- One round of the verification. -/
def verifyOne (index : ℕ) : Prog H Unit := do
  let j ← memory
  match j.mutations[index]? with
  | none => Io.panic
  | some m => do
    let actual ← readKey P m.key
    if P.equivalent m.key actual m.intended then setMemory (j.setApplied index actual)
    else Io.fail notApplied

/-- `verified` of `lifecycle`. -/
def verified (reason : NetworkReason) : Prog H NetworkObservation := do
  applyPlan P reason
  let j ← memory
  Io.forEach (List.range j.mutations.length) (verifyOne P)
  let j ← memory
  save P j
  onHost (P.observe j.config)

/-- What `lifecycle` does with an old journal of its transaction. -/
def settleOld (t : TransactionId) : Prog H Unit := do
  match ← load t with
  | none => pure ()
  | some j => do
    let warnings ← restore P j
    if warnings.isEmpty then pure () else Io.fail error

/-- Plan, journal, apply and verify a configuration. -/
def configure (t : TransactionId) (reason : NetworkReason) (config : Option NetworkConfig) :
    Prog H NetworkObservation := do
  let names ← readDir
  if names.any FileName.isJson then Io.fail error
  else match config with
    | none => Io.fail (failure "Missing negotiated network configuration")
    | some config => do
      let mutations ← onHost (P.plan config t)
      if mutations.length > maxMutations then
        Io.fail (failure "Network transaction exceeds mutation limit")
      else do
        let boot ← bootId
        let j : Journal :=
          { version := 1, transaction := t, bootId := boot, config, mutations
            pendingOperation := none }
        save P j
        setMemory j
        match ← Io.attempt (verified P reason) with
        | .ok v => pure v
        -- a failed apply is undone at once; only a clean undo returns the error itself
        | .error e => do
          let j ← memory
          let warnings ← restore P j
          if warnings.isEmpty then Io.fail e else Io.fail error

/-- `lifecycle`. -/
def lifecycle (t : TransactionId) (input : LifecycleInput) :
    Prog H (Option NetworkObservation) := do
  privileged
  lock
  if input.reason = .preInit ∨ input.reason = .attemptReconnect then pure none
  else do
    settleOld P t
    if input.reason = .disconnect then pure none
    else do
      let observation ← configure P t input.reason input.config
      pure (some observation)

end Programs

end Ocvpn.Net
