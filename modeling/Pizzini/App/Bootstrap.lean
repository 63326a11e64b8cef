import Pizzini.App.DBKey

/-!
# Opening the database at launch (SQLiteStorage.swift:112)

`bootstrap` reconciles the database file with the Keychain, opens the database with a walk
over key candidates (`openWithRecovery`), brings the schema up to date, and rotates the
at-rest key when that is due.
-/

namespace Pizzini.App

open Wire Interruptible

variable {κ : Type} (env : KeyEnv κ)

/-! ## The database -/

namespace Database

/-- `execute(_:)` (`Database.swift:203`). -/
def execute (stmt : Stmt) : Boot κ Unit := do
  let answer : Rc × Int ← call (.sql stmt)
  if answer.1 = .ok then pure ()
  else Prog.throw (.database (.executeFailed answer.1 stmt))

/-- `prepare(_:)` (`Database.swift:218`) and one `step()`: the first column. -/
def prepare (stmt : Stmt) : Boot κ Int := do
  let answer : Rc × Int ← call (.sql stmt)
  if answer.1 = .ok then pure answer.2
  else Prog.throw (.database (.prepareFailed answer.1 stmt))

/-- The opening pragmas. -/
def opening : List Stmt :=
  [.cipherMemorySecurity, .foreignKeys, .journalModeWAL, .synchronousFull, .busyTimeout]

/-- Statements one after the other. -/
def executeAll : List Stmt → Boot κ Unit
  | [] => pure ()
  | stmt :: stmts => do
    execute stmt
    executeAll stmts

/-- `init(path:rawKey:)` (`Database.swift:46`). -/
def init (rawKey : κ) : Boot κ Unit := do
  let _ : Unit ← call .openFile
  let _ : Unit ← call (.key rawKey)
  executeAll opening
  let _ ← prepare .countMaster
  pure ()

end Database

namespace Migrator

/-- `Schema.currentVersion`. -/
def currentVersion : Int := 1

/-- `run(on:target:)` (`Schema.swift:253`). -/
def run : Boot κ Unit := do
  let current ← Database.prepare .userVersion
  if current > currentVersion then
    Prog.throw (.onDiskAheadOfCode current currentVersion)
  else if current < currentVersion then Database.execute (.migrate currentVersion)
  else pure ()

end Migrator

/-! ## The passcode slots -/

namespace AppPasscode

/-- `slotLen`: a salt of 32 bytes and a hash of 32 bytes. -/
def slotLen : Nat := 64

/-- `secureDelete(account:)` (`AppPasscode.swift:500`). -/
def secureDelete (account : Account) : Boot κ Bool :=
  DBKey.secureDelete (fun _ => slotLen) account

/-- `eraseAll` (`AppPasscode.swift:302`). -/
def eraseAll : Boot κ Unit := do
  let _ ← secureDelete .realSlot
  let _ ← secureDelete .duressSlot
  pure ()

/-- `migrateLegacySlot(into:)` (`AppPasscode.swift:416`). -/
def migrateLegacySlot (account legacyHash legacySalt : Account) : Boot κ (Option Bytes) := do
  let hash ← Keychain.read legacyHash
  let salt ← Keychain.read legacySalt
  match hash, salt with
  | some hash, some salt =>
    if hash.length = 32 ∧ salt.length = 32 then
      let written ← Keychain.write account (salt ++ hash)
      if written then
        let _ ← secureDelete legacyHash
        let _ ← secureDelete legacySalt
        pure (some (salt ++ hash))
      else pure none
    else pure none
  | _, _ => pure none

/-- `readSlot(_:)` (`AppPasscode.swift:375`). -/
def readSlot (account legacyHash legacySalt : Account) : Boot κ (Option Bytes) := do
  let row ← Keychain.read account
  match row.filter fun data => data.length = slotLen with
  | some data =>
    let _ ← Keychain.read legacyHash
    let _ ← Keychain.read legacySalt
    pure (some data)
  | none => migrateLegacySlot account legacyHash legacySalt

/-- `isPasscodeSet`. -/
def isPasscodeSet : Boot κ Bool := do
  let slot ← readSlot .realSlot .legacyRealHash .legacyRealSalt
  pure slot.isSome

/-- `isDuressPasscodeSet`. -/
def isDuressPasscodeSet : Boot κ Bool := do
  let slot ← readSlot .duressSlot .legacyDuressHash .legacyDuressSalt
  pure slot.isSome

end AppPasscode

/-! ## Bootstrap -/

namespace SQLiteStorage

/-- The walk over the historically shipped presets. -/
def tryPresets : List Params → Boot κ Unit
  | [] => Prog.throw .keyMaterialUnavailable
  | preset :: presets => do
    let derived ← (DBKey.deriveKey env preset false).attempt
    match derived with
    | .error _ => tryPresets presets
    | .ok presetKey =>
      let opened ← (Database.init presetKey).attempt
      match opened with
      | .ok _ => pure ()
      | .error _ => tryPresets presets

/-- Candidates 2 and 3 of `openWithRecovery`. -/
def recoveryWalk (params : Params) : Boot κ Unit := do
  let staged ← (DBKey.deriveKeyWithStagedSalt env params).attempt
  match staged with
  | .ok (some stagedKey) =>
    let opened ← (Database.init stagedKey).attempt
    match opened with
    | .ok _ => DBKey.promoteStagedSalt
    | .error _ => tryPresets env DBKey.historicallyShippedParams
  | _ => tryPresets env DBKey.historicallyShippedParams

/-- `openWithRecovery(path:params:dbFileExists:)` (`SQLiteStorage.swift:261`). -/
def openWithRecovery (params : Params) (dbFileExists : Bool) : Boot κ Unit := do
  let derived ← (DBKey.deriveKey env params true).attempt
  match derived with
  | .error e =>
    if dbFileExists then Prog.throw .keyMaterialUnavailable else Prog.throw e
  | .ok primaryKey =>
    let opened ← (Database.init primaryKey).attempt
    match opened with
    | .ok _ => pure ()
    | .error (.database (.keyingFailed code)) =>
      if dbFileExists then recoveryWalk env params
      else Prog.throw (.database (.keyingFailed code))
    | .error e => Prog.throw e

/-- Orphan check #1: a file without key material. -/
def orphanCheck1 : Boot κ Unit := do
  let fileExists : Bool ← call .fileExists
  if fileExists then
    let initialized ← DBKey.isInitialized
    if initialized then pure ()
    else
      let _ : Unit ← call .unlink
      AppPasscode.eraseAll
  else pure ()

/-- Orphan check #2: key material without a file. -/
def orphanCheck2 : Boot κ Unit := do
  let fileExists : Bool ← call .fileExists
  if fileExists then pure ()
  else
    let initialized ← DBKey.isInitialized
    if initialized then
      let _ ← DBKey.eraseKeyMaterial
      AppPasscode.eraseAll
    else pure ()

/-- Reconciliation #3: passcode slots without file and key material. -/
def reconciliation3 : Boot κ Unit := do
  let fileExists : Bool ← call .fileExists
  if fileExists then pure ()
  else
    let initialized ← DBKey.isInitialized
    if initialized then pure ()
    else
      let real ← AppPasscode.isPasscodeSet
      if real then AppPasscode.eraseAll
      else
        let duress ← AppPasscode.isDuressPasscodeSet
        Prog.when duress AppPasscode.eraseAll

/-- The schema step: a schema from newer code is wiped and the database opened anew. -/
def migrateOrStartOver : Boot κ Unit := do
  let migrated ← Migrator.run.attempt
  match migrated with
  | .ok _ => pure ()
  | .error (.onDiskAheadOfCode _ _) =>
    let _ : Unit ← call .unlink
    let _ ← DBKey.eraseKeyMaterial
    AppPasscode.eraseAll
    let freshParams ← DBKey.loadStoredParams env
    openWithRecovery env freshParams false
    Migrator.run
  | .error e => Prog.throw e

/-- The rotation step: a failure is logged and does not matter to the launch. -/
def rotateIfDue (params : Params) (now : Nat) : Boot κ Unit := do
  let due ← DBKey.rotationDue now
  if due then
    let _ ← (DBKey.rotateKeyMaterial env params now).attempt
    pure ()
  else pure ()

/-- `bootstrap` (`SQLiteStorage.swift:112`); `now` is the time of the launch in
milliseconds. -/
def bootstrap (now : Nat) : Boot κ Unit := do
  orphanCheck1
  orphanCheck2
  reconciliation3
  let params ← DBKey.loadStoredParams env
  let dbFileExists : Bool ← call .fileExists
  openWithRecovery env params dbFileExists
  migrateOrStartOver env
  rotateIfDue env params now

end SQLiteStorage

end Pizzini.App
