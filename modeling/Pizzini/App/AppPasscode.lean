import Pizzini.Lib.EditScripts
import Pizzini.App.Bootstrap

/-!
# The two passcodes (AppPasscode.swift)

A slot is one row of the Keychain, a salt of 32 bytes and the Argon2id hash of the passcode
under it. Earlier builds wrote hash and salt as two rows; reading a slot that is not there
migrates them.

The setters and the check are programs on the device (`Lib/Interruptible`), like the reading
and the deletion of slots that bootstrap uses. What they throw is part of their result.
-/

namespace Pizzini.App

open Wire Interruptible

/-- What the passcode code computes with platform libraries. -/
structure PasscodeEnv where
  /-- `Argon2id.derive(passphrase:salt:params:outputLength:)` with the production parameters
  and an output of 32 bytes; none when it throws -/
  derive : (passphrase salt : Bytes) → Option (FixedBytes 32)
  /-- `String.count`: the number of characters -/
  characterCount : String → Nat

namespace AppPasscode

/-! ## Slots -/

/-- The two passcodes. -/
inductive Slot where
  | real
  | duress
deriving DecidableEq

namespace Slot

/-- `realSlotAccount`, `duressSlotAccount`. -/
def account : Slot → Account
  | real => .realSlot
  | duress => .duressSlot

/-- `legacyRealHashAccount`, `legacyDuressHashAccount`. -/
def legacyHash : Slot → Account
  | real => .legacyRealHash
  | duress => .legacyDuressHash

/-- `legacyRealSaltAccount`, `legacyDuressSaltAccount`. -/
def legacySalt : Slot → Account
  | real => .legacyRealSalt
  | duress => .legacyDuressSalt

end Slot

/-- `PasscodeError`. -/
inductive PasscodeError where
  | derivationFailed
  | keychainWriteFailed
  | empty
  | tooShort (minimum : Nat)
  | sameAsExisting
  | tooSimilarToReal
  | realPasscodeIncorrect
deriving DecidableEq

/-- `Match`. -/
inductive Match where
  | real
  | duress
  | neither
deriving DecidableEq

/-- `minLength`. -/
def minLength : Nat := 6

/-- `saltLen`, and `hashLen`, which is the same. -/
def saltLen : Nat := 32

/-- `maxConfusableEditDistance`. -/
def maxConfusableEditDistance : Nat := 1

/-- `osaDistance` (AppPasscode.swift:190–216), over Unicode scalars. -/
def osaDistance (a b : String) : Nat := OptimalStringAlignment.osa a.toList b.toList

/-- `duressTooSimilarToReal(real:duress:)`. -/
def duressTooSimilarToReal (real duress : String) : Bool :=
  osaDistance real duress ≤ maxConfusableEditDistance

open OptimalStringAlignment in
/-- The table computes the cost of a cheapest edit script between the scalars of the two
strings, and with it a symmetric distance that tells equal strings and single slips apart
from all others. -/
theorem osaDistance_optimal (a b : String) :
    IsLeast (costs a.toList b.toList) (osaDistance a b) ∧ osaDistance a b = osaDistance b a ∧
      (osaDistance a b = 0 ↔ a.toList = b.toList) ∧
      (osaDistance a b ≤ 1 ↔ a.toList = b.toList ∨ Slip a.toList b.toList) :=
  ⟨osa_isLeast _ _, osa_comm _ _, osa_eq_zero_iff, osa_le_one_iff⟩

variable {κ : Type} (env : PasscodeEnv)

/-! ## Verification -/

/-- `readSlotSplit(_:)` (AppPasscode.swift:451). -/
def readSlotSplit (slot : Slot) : Boot κ (Option (Bytes × Bytes)) := do
  let data ← readSlot slot.account slot.legacyHash slot.legacySalt
  pure (data.map fun data => (data.take saltLen, data.drop saltLen))

/-- `verify(entry:salt:expected:)` (AppPasscode.swift:343). -/
def verify (entry : String) (salt expected : Bytes) : Bool :=
  if entry = "" then false
  else
    match env.derive (utf8 entry) salt with
    | none => false
    | some derived => derived.1 = expected

/-- `verifyPasscode(_:)` and `verifyDuressPasscode(_:)` (AppPasscode.swift:231–245). -/
def verifyPasscode (slot : Slot) (entry : String) : Boot κ Bool := do
  let material ← readSlotSplit slot
  match material with
  | none => pure false
  | some (salt, expected) => pure (verify env entry salt expected)

/-- What `check` derives: all ones when Argon2id throws. -/
def derived (entry : String) (salt : Bytes) : Bytes :=
  match env.derive (utf8 entry) salt with
  | none => List.replicate 32 0xFF
  | some derived => derived.1

/-- `slotMaterial(account:)` (AppPasscode.swift:462): salt, hash, and whether the slot is set. -/
def slotMaterial (slot : Slot) : Boot κ (Bytes × Bytes × Bool) := do
  let material ← readSlotSplit slot
  match material with
  | some (salt, hash) => pure (salt, hash, true)
  | none => pure (List.replicate 32 0, List.replicate 32 0, false)

/-- Whether an entry matches what a slot holds. -/
def hits (entry : String) (material : Bytes × Bytes × Bool) : Bool :=
  derived env entry material.1 = material.2.1 && material.2.2 && entry ≠ ""

/-- `check(_:)` (AppPasscode.swift:259). -/
def check (entry : String) : Boot κ Match := do
  let real ← slotMaterial .real
  let duress ← slotMaterial .duress
  if hits env entry duress then pure .duress
  else if hits env entry real then pure .real
  else pure .neither

/-! ## Setters -/

/-- `setPasscodeIntoSlot(_:account:)` (AppPasscode.swift:309). -/
def setPasscodeIntoSlot (passcode : String) (account : Account) :
    Boot κ (Except PasscodeError Unit) :=
  if passcode = "" then pure (.error .empty)
  else if env.characterCount passcode < minLength then pure (.error (.tooShort minLength))
  else do
    let drawn ← secRandom 32
    match drawn with
    | none => pure (.error .derivationFailed)
    | some salt =>
      match env.derive (utf8 passcode) salt.1 with
      | none => pure (.error .derivationFailed)
      | some hash =>
        let written ← Keychain.write account (salt.1 ++ hash.1)
        pure (if written then .ok () else .error .keychainWriteFailed)

/-- `setPasscode(_:)` (AppPasscode.swift:121). -/
def setPasscode (passcode : String) : Boot κ (Except PasscodeError Unit) :=
  setPasscodeIntoSlot env passcode Slot.real.account

/-- `setDuressPasscode(_:)` (AppPasscode.swift:129). -/
def setDuressPasscode (passcode : String) : Boot κ (Except PasscodeError Unit) := do
  let same ← verifyPasscode env .real passcode
  if same then pure (.error .sameAsExisting)
  else setPasscodeIntoSlot env passcode Slot.duress.account

/-- `setDuressPasscode(_:currentRealPasscode:)` (AppPasscode.swift:157). -/
def setDuressPasscodeWith (passcode currentRealPasscode : String) :
    Boot κ (Except PasscodeError Unit) := do
  let verified ← verifyPasscode env .real currentRealPasscode
  if ¬ verified then pure (.error .realPasscodeIncorrect)
  else if duressTooSimilarToReal currentRealPasscode passcode then
    pure (.error .tooSimilarToReal)
  else setDuressPasscode env passcode

/-- `clearPasscode` and `clearDuressPasscode` (AppPasscode.swift:218–225). -/
def clear (slot : Slot) : Boot κ Unit := do
  let _ ← secureDelete slot.account
  pure ()

end AppPasscode

end Pizzini.App
