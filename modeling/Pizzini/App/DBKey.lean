import Pizzini.Lib.Fields
import Pizzini.App.Device

/-!
# At-rest key derivation and rotation (DBKey.swift)

The database key is Argon2id of a random seed, wrapped by the Secure Enclave in one Keychain
row, and of a salt in another. `rotateKeyMaterial` stages a fresh salt, rekeys the database
and promotes the salt.
-/

namespace Pizzini.App

open Wire Interruptible

variable {κ : Type} (env : KeyEnv κ)

/-! ## Errors -/

/-- `DBKey.DBKeyError`. -/
inductive DBKeyError where
  | enclaveUnavailable
  | wrapFailed
  | unwrapFailed
  | keychainWriteFailed
deriving DecidableEq

/-- `DatabaseError` (`Database.swift:309`), as far as start-up throws it. -/
inductive DatabaseError where
  | keyingFailed (code : Rc)
  | executeFailed (code : Rc) (sql : Stmt)
  | prepareFailed (code : Rc) (sql : Stmt)
deriving DecidableEq

/-- Everything start-up throws. -/
inductive BootError where
  | dbKey (e : DBKeyError)
  | database (e : DatabaseError)
  /-- `SchemaError.onDiskAheadOfCode` -/
  | onDiskAheadOfCode (onDisk code : Int)
  /-- `BootstrapError.keyMaterialUnavailable` -/
  | keyMaterialUnavailable
deriving DecidableEq

/-- A program of the start-up code. -/
abbrev Boot (κ α : Type) := DeviceProg κ BootError α

/-! ## Calls -/

/-- One call on the device. -/
def call (o : Op κ) : Boot κ (Ans o) := Prog.op o

namespace Keychain

def read (account : Account) : Boot κ (Option Bytes) := call (.read account)

def write (account : Account) (data : Bytes) : Boot κ Bool := call (.write account data)

def delete (account : Account) : Boot κ Bool := call (.delete account)

end Keychain

/-- `SecRandomCopyBytes`. -/
def secRandom (count : Nat) : Boot κ (Option (FixedBytes count)) := call (.random count)

/-! ## The wrapped seed -/

namespace DBKey

/-- `isInitialized` (`DBKey.swift:213`). -/
def isInitialized : Boot κ Bool := do
  let wrap ← Keychain.read .wrap
  if wrap.isSome then
    let salt ← Keychain.read .salt
    pure salt.isSome
  else pure false

/-- `createEnclaveKey` (`DBKey.swift:308`). -/
def createEnclaveKey : Boot κ Nat := do
  let made : Option Nat ← call .enclaveCreate
  match made with
  | some key => pure key
  | none => Prog.throw (.dbKey .enclaveUnavailable)

/-- `enclavePrivateKey` (`DBKey.swift:281`). -/
def enclavePrivateKey : Boot κ Nat := do
  let answer : EnclaveAnswer ← call .enclaveFind
  match answer with
  | .found key => pure key
  | .notFound => createEnclaveKey
  | .unavailable => Prog.throw (.dbKey .enclaveUnavailable)

/-- `wrapSeed` (`DBKey.swift:249`). -/
def wrapSeed (seed : Bytes) : Boot κ Bytes := do
  let key ← enclavePrivateKey
  pure (env.wrap key seed)

/-- `unwrapSeed` (`DBKey.swift:268`). -/
def unwrapSeed (wrapped : Bytes) : Boot κ Bytes := do
  let key ← enclavePrivateKey
  match env.unwrap key wrapped with
  | some seed => pure seed
  | none => Prog.throw (.dbKey .unwrapFailed)

/-- `unwrapOrCreateSeed` (`DBKey.swift:220`). -/
def unwrapOrCreateSeed : Boot κ Bytes := do
  let wrapped ← Keychain.read .wrap
  match wrapped with
  | some wrapped => unwrapSeed env wrapped
  | none =>
    let drawn ← secRandom 32
    match drawn with
    | none => Prog.throw (.dbKey .wrapFailed)
    | some seed =>
      let wrapped ← wrapSeed env seed.1
      let written ← Keychain.write .wrap wrapped
      if written then pure seed.1 else Prog.throw (.dbKey .keychainWriteFailed)

/-! ## Salt and parameters -/

/-- A salt that the code uses: at least sixteen bytes. -/
def usableSalt (row : Option Bytes) : Option Bytes := row.filter fun salt => 16 ≤ salt.length

/-- `loadOrCreateSalt` (`DBKey.swift:371`). -/
def loadOrCreateSalt : Boot κ Bytes := do
  let row ← Keychain.read .salt
  match usableSalt row with
  | some salt => pure salt
  | none =>
    let drawn ← secRandom 32
    match drawn with
    | none => Prog.throw (.dbKey .wrapFailed)
    | some salt =>
      let written ← Keychain.write .salt salt.1
      if written then pure salt.1 else Prog.throw (.dbKey .keychainWriteFailed)

/-- `persistParamsIfMissing` (`DBKey.swift:387`). -/
def persistParamsIfMissing (params : Params) : Boot κ Unit := do
  let row ← Keychain.read .params
  if row.isSome then pure ()
  else
    let written ← Keychain.write .params (env.encodeParams params)
    if written then pure () else Prog.throw (.dbKey .keychainWriteFailed)

/-- `acceptedParamPresets`. -/
def acceptedParamPresets : List Params := [.production]

/-- `historicallyShippedParams`. -/
def historicallyShippedParams : List Params := [.production]

/-- `loadStoredParams` (`DBKey.swift:442`). -/
def loadStoredParams : Boot κ Params := do
  let row ← Keychain.read .params
  match row.bind env.decodeParams with
  | none => pure .production
  | some params =>
    if acceptedParamPresets.contains params then pure params else pure .production

/-- `deriveKey(params:persistParams:)` (`DBKey.swift:102`). -/
def deriveKey (params : Params) (persistParams : Bool) : Boot κ κ := do
  let seed ← unwrapOrCreateSeed env
  let salt ← loadOrCreateSalt
  Prog.when persistParams (persistParamsIfMissing env params)
  pure (env.argon2id seed salt params)

/-! ## Erasure -/

/-- Overwrite a row, if there is one, with random bytes, of a count that depends on it. -/
def overwrite (noiseCount : Bytes → Nat) (account : Account) : Boot κ Unit := do
  let row ← Keychain.read account
  match row with
  | none => pure ()
  | some existing =>
    let drawn ← secRandom (noiseCount existing)
    match drawn with
    | none => pure ()
    | some noise =>
      let _ ← Keychain.write account noise.1
      pure ()

/-- `secureDeleteKeychainSlot` (`DBKey.swift:199`) and `AppPasscode.secureDelete`
(`AppPasscode.swift:500`), which differ in the count of the noise. -/
def secureDelete (noiseCount : Bytes → Nat) (account : Account) : Boot κ Bool := do
  overwrite noiseCount account
  Keychain.delete account

/-- `secureDeleteKeychainSlot`. -/
def secureDeleteKeychainSlot (account : Account) : Boot κ Bool :=
  secureDelete (fun existing => max existing.length 16) account

/-- `eraseKeyMaterial` (`DBKey.swift:153`). -/
def eraseKeyMaterial : Boot κ Bool := do
  let wrap ← Keychain.delete .wrap
  let salt ← secureDeleteKeychainSlot .salt
  let params ← secureDeleteKeychainSlot .params
  let lastRotation ← secureDeleteKeychainSlot .lastRotation
  let stagedSalt ← secureDeleteKeychainSlot .stagedSalt
  let enclave : Bool ← call .enclaveDelete
  pure (wrap && salt && params && lastRotation && stagedSalt && enclave)

/-! ## Rotation -/

/-- `rotationInterval`, in seconds. -/
def rotationInterval : Nat := 7 * 24 * 60 * 60

/-- `rotationDue(now:)` (`DBKey.swift:480`); `now` is in milliseconds. -/
def rotationDue (now : Nat) : Boot κ Bool := do
  let row ← Keychain.read .lastRotation
  match row with
  | none => pure true
  | some bytes =>
    if bytes.length = 8 then pure (decide (beNat bytes * 1000 + rotationInterval * 1000 ≤ now))
    else pure true

/-- `rotateKeyMaterial(liveDB:params:now:)` (`DBKey.swift:532`). -/
def rotateKeyMaterial (params : Params) (now : Nat) : Boot κ κ := do
  let seed ← unwrapOrCreateSeed env
  let drawn ← secRandom 32
  match drawn with
  | none => Prog.throw (.dbKey .wrapFailed)
  | some newSalt =>
    let newKey := env.argon2id seed newSalt.1 params
    let staged ← Keychain.write .stagedSalt newSalt.1
    if ¬ staged then Prog.throw (.dbKey .keychainWriteFailed)
    else
      let rc : Rc ← call (.rekey newKey)
      if rc ≠ .ok then Prog.throw (.database (.keyingFailed rc))
      else
        let vacuumed : Rc × Int ← call (.sql .vacuum)
        if vacuumed.1 ≠ .ok then Prog.throw (.database (.executeFailed vacuumed.1 .vacuum))
        else
          let promoted ← Keychain.write .salt newSalt.1
          if ¬ promoted then Prog.throw (.dbKey .keychainWriteFailed)
          else
            let _ ← Keychain.delete .stagedSalt
            let stamped ← Keychain.write .lastRotation (beBytes 8 (now / 1000))
            if stamped then pure newKey else Prog.throw (.dbKey .keychainWriteFailed)

/-- `deriveKeyWithStagedSalt(params:)` (`DBKey.swift:582`). -/
def deriveKeyWithStagedSalt (params : Params) : Boot κ (Option κ) := do
  let row ← Keychain.read .stagedSalt
  match usableSalt row with
  | none => pure none
  | some stagedSalt =>
    let seed ← unwrapOrCreateSeed env
    pure (some (env.argon2id seed stagedSalt params))

/-- `promoteStagedSalt` (`DBKey.swift:603`). -/
def promoteStagedSalt : Boot κ Unit := do
  let row ← Keychain.read .stagedSalt
  match row with
  | none => pure ()
  | some stagedSalt =>
    let written ← Keychain.write .salt stagedSalt
    if written then
      let _ ← Keychain.delete .stagedSalt
      pure ()
    else pure ()

end DBKey

end Pizzini.App
