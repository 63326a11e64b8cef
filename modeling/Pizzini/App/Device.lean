import Mathlib.Logic.Function.Basic
import Pizzini.Lib.Bytes
import Pizzini.Lib.Interruptible

/-!
# The device under the app: Keychain, Secure Enclave, database file

The durable state of an install and the operations the app's start-up code calls on it.

- The Keychain (`Keychain.swift`) maps accounts to byte strings. A read gives nil when the
  row is absent and when it fails; a write that fails changes nothing.
- The Secure Enclave holds at most one wrapping key; its `wrap` and `unwrap`, Argon2id, and
  the JSON coding of its parameters are a parameter (`KeyEnv`).
- The database file is absent, empty (created, no page written), or encrypted under one key.
  A statement that reads a page fails with `SQLITE_NOTADB` under any other key
  (`Database.swift:47`); opening and keying read none.

Random bytes come from a stream, of which each draw takes the next element. Programs over
these operations are those of `Lib/Interruptible`: an execution may stop before any of them.
-/

namespace Pizzini.App

open Wire Interruptible

/-! ## Key material -/

/-- `Argon2id.Params` (`PizziniSession.swift:803`). -/
structure Params where
  memoryKiB : UInt32
  timeIterations : UInt32
  parallelism : UInt32
deriving DecidableEq

/-- `Argon2id.Params.production`. -/
def Params.production : Params := ⟨64 * 1024, 3, 1⟩

/-- What the app computes with key material; `κ` are the keys of a database. -/
structure KeyEnv (κ : Type) where
  /-- `SecKeyCreateEncryptedData` under a wrapping key of the Secure Enclave -/
  wrap : Nat → Bytes → Bytes
  /-- `SecKeyCreateDecryptedData` -/
  unwrap : Nat → Bytes → Option Bytes
  unwrap_wrap : ∀ enclaveKey seed, unwrap enclaveKey (wrap enclaveKey seed) = some seed
  /-- `Argon2id.derive(passphrase:salt:params:outputLength:)` -/
  argon2id : Bytes → Bytes → Params → κ
  /-- `JSONEncoder` on `StoredParams` -/
  encodeParams : Params → Bytes
  /-- `JSONDecoder` -/
  decodeParams : Bytes → Option Params

/-- The Keychain accounts of the start-up code (`DBKey.swift:59`, `AppPasscode.swift:45`). -/
inductive Account where
  | wrap
  | salt
  | stagedSalt
  | params
  | lastRotation
  | realSlot
  | duressSlot
  | legacyRealHash
  | legacyRealSalt
  | legacyDuressHash
  | legacyDuressSalt
deriving DecidableEq

/-! ## The database file -/

/-- What is in a database: `PRAGMA user_version`, and the rows of its tables. -/
structure Content (δ : Type) where
  userVersion : Int
  rows : δ
deriving DecidableEq

/-- The database file. -/
inductive DbFile (κ δ : Type) where
  | absent
  /-- created by `sqlite3_open_v2`, without a page -/
  | empty
  | keyed (key : κ) (content : Content δ)
deriving DecidableEq

/-- There is a file. -/
def DbFile.isPresent {κ δ : Type} : DbFile κ δ → Bool
  | absent => false
  | _ => true

/-- The statements of the start-up code. -/
inductive Stmt where
  | cipherMemorySecurity
  | foreignKeys
  | journalModeWAL
  | synchronousFull
  | busyTimeout
  /-- `SELECT count(*) FROM sqlite_master;` -/
  | countMaster
  /-- `PRAGMA user_version;` -/
  | userVersion
  /-- the transaction that brings the schema to version `target`; new tables are empty -/
  | migrate (target : Int)
  | vacuum
deriving DecidableEq

/-- The statement reads a page of the file. -/
def Stmt.readsPage : Stmt → Bool
  | cipherMemorySecurity | foreignKeys | busyTimeout => false
  | _ => true

/-- The statement writes a page even to a database that has none. -/
def Stmt.writesPage : Stmt → Bool
  | journalModeWAL | migrate _ => true
  | _ => false

/-- SQLite result codes. -/
inductive Rc where
  | ok
  | notADb
deriving DecidableEq

/-! ## The device -/

/-- The state of an install, and of the process that runs. -/
structure Device (κ δ : Type) where
  file : DbFile κ δ
  keychain : Account → Option Bytes
  /-- the wrapping key of the Secure Enclave -/
  enclave : Option Nat
  /-- the key of the open connection -/
  handle : Option κ
  /-- what `SecRandomCopyBytes` gives on its `n`-th call, for each count -/
  random : Nat → (count : Nat) → FixedBytes count
  drawn : Nat
  /-- number of wrapping keys made so far -/
  enclaveKeys : Nat

/-- The rows of a file without pages are those of new tables. -/
def DbFile.rows {κ δ : Type} [Inhabited δ] : DbFile κ δ → δ
  | keyed _ content => content.rows
  | _ => default

/-- The calls of the start-up code on the device. -/
inductive Op (κ : Type) where
  /-- `Keychain.read` -/
  | read (account : Account)
  /-- `Keychain.write` -/
  | write (account : Account) (data : Bytes)
  /-- `Keychain.delete` -/
  | delete (account : Account)
  /-- `SecRandomCopyBytes` -/
  | random (count : Nat)
  /-- `SecItemCopyMatching` for the wrapping key -/
  | enclaveFind
  /-- `SecKeyCreateRandomKey` -/
  | enclaveCreate
  /-- `SecItemDelete` of the wrapping key -/
  | enclaveDelete
  /-- `FileManager.fileExists` -/
  | fileExists
  /-- `unlinkDatabaseFiles` -/
  | unlink
  /-- `sqlite3_open_v2` with `SQLITE_OPEN_CREATE` -/
  | openFile
  /-- `sqlite3_key_v2` -/
  | key (key : κ)
  /-- `sqlite3_rekey_v2` -/
  | rekey (key : κ)
  /-- `sqlite3_exec`, or `sqlite3_prepare_v3` and one step -/
  | sql (stmt : Stmt)
deriving DecidableEq

/-- The wrapping key, if it was found; `unavailable` is any other status. -/
inductive EnclaveAnswer where
  | found (enclaveKey : Nat)
  | notFound
  | unavailable

/-- What each call answers. -/
def Ans {κ : Type} : Op κ → Type
  | .read _ => Option Bytes
  | .write _ _ => Bool
  | .delete _ => Bool
  | .random count => Option (FixedBytes count)
  | .enclaveFind => EnclaveAnswer
  | .enclaveCreate => Option Nat
  | .enclaveDelete => Bool
  | .fileExists => Bool
  | .unlink => Unit
  | .openFile => Unit
  | .key _ => Unit
  | .rekey _ => Rc
  | .sql _ => Rc × Int

namespace Device

variable {κ δ : Type} [DecidableEq κ] [Inhabited δ]

/-- The Keychain with one row changed. -/
def setRow (d : Device κ δ) (account : Account) (row : Option Bytes) : Device κ δ :=
  { d with keychain := Function.update d.keychain account row }

omit [DecidableEq κ] [Inhabited δ] in
@[simp] theorem setRow_self (d : Device κ δ) (account : Account) (row : Option Bytes) :
    (d.setRow account row).keychain account = row := Function.update_self _ _ _

omit [DecidableEq κ] [Inhabited δ] in
theorem setRow_of_ne (d : Device κ δ) {account other : Account} (h : other ≠ account)
    (row : Option Bytes) : (d.setRow account row).keychain other = d.keychain other :=
  Function.update_of_ne h _ _

/-- The result of a statement that reads pages, on a file with content `content`: the column
read and the content afterwards. -/
def runStmt : Stmt → Content δ → Int × Content δ
  | .userVersion, content => (content.userVersion, content)
  | .migrate target, content => (0, { content with userVersion := target })
  | _, content => (0, content)

/-- A statement on the open connection. -/
def sql (stmt : Stmt) (d : Device κ δ) : (Rc × Int) × Device κ δ :=
  if ¬ stmt.readsPage then ((.ok, 0), d)
  else
    match d.handle, d.file with
    | some key, .keyed fileKey content =>
      if key = fileKey then
        ((.ok, (runStmt stmt content).1),
          { d with file := .keyed fileKey (runStmt stmt content).2 })
      else ((.notADb, 0), d)
    | some key, _ =>
      -- a database without pages takes the key of the first connection that writes one
      if stmt.writesPage then
        ((.ok, 0), { d with file := .keyed key (runStmt stmt ⟨0, default⟩).2 })
      else ((.ok, 0), d)
    | none, _ => ((.notADb, 0), d)

/-- `sqlite3_rekey_v2`: every page is encrypted anew. -/
def rekey (key : κ) (d : Device κ δ) : Rc × Device κ δ :=
  match d.handle, d.file with
  | some old, .keyed fileKey content =>
    if old = fileKey then
      (.ok, { d with file := .keyed key content, handle := some key })
    else (.notADb, d)
  | _, _ => (.ok, { d with handle := some key })

/-- What a call does; `fails` marks one that fails. -/
def act : (o : Op κ) → (fails : Bool) → Device κ δ → Ans o × Device κ δ
  | .read account, fails, d => (if fails then none else d.keychain account, d)
  | .write account data, fails, d =>
    if fails then (false, d) else (true, d.setRow account (some data))
  | .delete account, fails, d =>
    if fails then (false, d) else (true, d.setRow account none)
  | .random count, fails, d =>
    if fails then (none, d)
    else (some (d.random d.drawn count), { d with drawn := d.drawn + 1 })
  | .enclaveFind, fails, d =>
    if fails then (.unavailable, d)
    else
      match d.enclave with
      | some key => (.found key, d)
      | none => (.notFound, d)
  | .enclaveCreate, fails, d =>
    if fails then (none, d)
    else
      (some d.enclaveKeys,
        { d with enclave := some d.enclaveKeys, enclaveKeys := d.enclaveKeys + 1 })
  | .enclaveDelete, fails, d => if fails then (false, d) else (true, { d with enclave := none })
  | .fileExists, _, d => (d.file.isPresent, d)
  | .unlink, _, d => ((), { d with file := .absent, handle := none })
  | .openFile, _, d =>
    ((), { d with
      file :=
        match d.file with
        | .absent => .empty
        | file => file
      handle := none })
  | .key key, _, d => ((), { d with handle := some key })
  | .rekey key, _, d => d.rekey key
  | .sql stmt, _, d => d.sql stmt

end Device

/-- Programs on the device. -/
abbrev DeviceProg (κ ε α : Type) := Prog (Op κ) Ans ε α

end Pizzini.App
