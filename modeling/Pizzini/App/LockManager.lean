import Mathlib.Algebra.Order.Field.Rat
import Pizzini.App.AppPasscode

/-!
# The app lock (LockManager.swift)

`LockManager` is what the process knows of the lock: the handlers of the scene events change
it, and so do the ways to unlock. Times are rational numbers of seconds.

An entry of the passcode is answered by `submitPasscode`, a program on the passcode's rows of
the Keychain and, beside them, on the row that holds the `LockoutState`. The row is read
before the entry is verified (`PasscodeLockoutPolicy.decision`) and written after it
(`nextState`), so that it survives the process.
-/

namespace Pizzini.App

open Wire Interruptible

/-! ## The lockout (PasscodeLockoutPolicy.swift, PasscodeLockoutStore.swift) -/

/-- `LockoutState`. -/
structure LockoutState where
  attempts : Int
  /-- none when there are no failures on record -/
  lastFailedAt : Option ℚ
deriving DecidableEq

/-- `LockoutState.empty`. -/
def LockoutState.empty : LockoutState := ⟨0, none⟩

/-- `LockoutDecision`. -/
inductive LockoutDecision where
  | allow
  | blocked (retryAt : ℚ)
  | permanentlyLocked
deriving DecidableEq

/-- `PasscodeLockoutPolicy`. -/
structure PasscodeLockoutPolicy where
  graceAttempts : Int
  backoffBaseSeconds : ℚ
  backoffCapSeconds : ℚ
  hardCeiling : Int

namespace PasscodeLockoutPolicy

/-- `PasscodeLockoutPolicy.production`. -/
def production : PasscodeLockoutPolicy where
  graceAttempts := 5
  backoffBaseSeconds := 1
  backoffCapSeconds := 60
  hardCeiling := 50

/-- The delay of `decision` after a number of failures above the grace. -/
def delay (p : PasscodeLockoutPolicy) (attempts : Int) : ℚ :=
  let exponent := attempts - p.graceAttempts - 1
  let safeExponent := min exponent 40
  let raw := p.backoffBaseSeconds * 2 ^ safeExponent.toNat
  min raw p.backoffCapSeconds

/-- `decision(attempts:lastFailedAt:now:)` (PasscodeLockoutPolicy.swift:90). -/
def decision (p : PasscodeLockoutPolicy) (attempts : Int) (lastFailedAt : Option ℚ) (now : ℚ) :
    LockoutDecision :=
  if attempts > p.hardCeiling then .permanentlyLocked
  else if attempts ≤ p.graceAttempts then .allow
  else
    match lastFailedAt with
    | none => .allow
    | some lastFailedAt =>
      let retryAt := lastFailedAt + p.delay attempts
      if now < retryAt then .blocked retryAt else .allow

/-- `nextState(after:prior:now:)` (PasscodeLockoutPolicy.swift:115). -/
def nextState (found : AppPasscode.Match) (prior : LockoutState) (now : ℚ) : LockoutState :=
  match found with
  | .real | .duress => .empty
  | .neither => ⟨prior.attempts + 1, some now⟩

end PasscodeLockoutPolicy

/-- `JSONEncoder` and `JSONDecoder` at `LockoutState`; none when they throw. -/
structure LockoutCodec where
  encode : LockoutState → Option Bytes
  decode : Bytes → Option LockoutState

/-- What is encoded is read back. -/
def LockoutCodec.RoundTrips (codec : LockoutCodec) : Prop :=
  ∀ state, ∃ data, codec.encode state = some data ∧ codec.decode data = some state

/-- The calls of `submitPasscode` beside those on the passcode's rows. -/
inductive LockoutOp where
  /-- `Date()` -/
  | date
  /-- `Keychain.read` of the lockout's row -/
  | read
  /-- `Keychain.write` of the lockout's row -/
  | write (data : Bytes)

/-- What each call answers. -/
def LockoutOp.Answer : LockoutOp → Type
  | .date => ℚ
  | .read => Option Bytes
  | .write _ => Bool

/-- A program on the lockout's row and the passcode's. -/
abbrev Submit (κ α : Type) := Prog (LockoutOp ⊕ Op κ) (Sum.elim LockoutOp.Answer Ans) BootError α

variable {κ δ : Type}

/-- A call beside those on the passcode's rows. -/
def lockout (o : LockoutOp) : Submit κ o.Answer := Prog.op (Sum.inl o)

namespace PasscodeLockoutStore

/-- What `load` makes of the row. -/
def decoded (codec : LockoutCodec) (row : Option Bytes) : LockoutState :=
  match row with
  | none => .empty
  | some data => (codec.decode data).getD .empty

/-- `load()` (PasscodeLockoutStore.swift:28). -/
def load (codec : LockoutCodec) : Submit κ LockoutState := do
  let row ← lockout .read
  pure (decoded codec row)

/-- `save(_:)` (PasscodeLockoutStore.swift:43). -/
def save (codec : LockoutCodec) (state : LockoutState) : Submit κ Bool :=
  match codec.encode state with
  | none => pure false
  | some data => lockout (.write data)

end PasscodeLockoutStore

/-! ## The lock -/

/-- `LockManager`. -/
structure LockManager where
  isLocked : Bool
  isShielded : Bool
  authInFlight : Bool
  lastError : Option String
  isPasscodeSheetPresented : Bool
  wipeInFlight : Bool
  backgroundedAtUptime : Option ℚ
deriving DecidableEq

/-- `AutoLockTimeout`. -/
inductive AutoLockTimeout where
  | immediately
  | oneMinute
  | fiveMinutes
  | fifteenMinutes
deriving DecidableEq

/-- `AutoLockTimeout.seconds`. -/
def AutoLockTimeout.seconds : AutoLockTimeout → ℚ
  | immediately => 0
  | oneMinute => 60
  | fiveMinutes => 5 * 60
  | fifteenMinutes => 15 * 60

namespace LockManager

/-- `init()` (LockManager.swift:100). -/
def launch (isLockGateActive : Bool) : LockManager where
  isLocked := isLockGateActive
  isShielded := false
  authInFlight := false
  lastError := none
  isPasscodeSheetPresented := false
  wipeInFlight := false
  backgroundedAtUptime := none

/-! ## Scene lifecycle hooks -/

/-- `handleWillDeactivate()` (LockManager.swift:143). -/
def handleWillDeactivate (m : LockManager) : LockManager := { m with isShielded := true }

/-- `handleDidEnterBackground()` (LockManager.swift:149). -/
def handleDidEnterBackground (uptimeSeconds : ℚ) (m : LockManager) : LockManager :=
  { m with backgroundedAtUptime := some uptimeSeconds }

/-- `handleWillEnterForeground()` (LockManager.swift:153). -/
def handleWillEnterForeground (isLockGateActive : Bool) (autoLockTimeout : AutoLockTimeout)
    (uptimeSeconds : ℚ) (m : LockManager) : LockManager :=
  if ¬ isLockGateActive then { m with backgroundedAtUptime := none }
  else
    match m.backgroundedAtUptime with
    | none => { m with isLocked := true }
    | some backgroundedAtUptime =>
      let elapsed := uptimeSeconds - backgroundedAtUptime
      { m with
        isLocked := if elapsed ≥ autoLockTimeout.seconds then true else m.isLocked
        backgroundedAtUptime := none }

/-- `handleDidActivate()` (LockManager.swift:210). -/
def handleDidActivate (m : LockManager) : LockManager := { m with isShielded := false }

/-! ## Auth -/

/-- How the evaluation of `LAPolicy.deviceOwnerAuthentication` ends. -/
inductive Evaluation where
  | success
  /-- `.userCancel`, `.appCancel`, `.systemCancel` -/
  | cancelled
  | failed (localizedDescription : String)

/-- `attemptUnlock()` (LockManager.swift:265) when the evaluation ends. -/
def attemptUnlock (evaluation : Evaluation) (m : LockManager) : LockManager :=
  match evaluation with
  | .success =>
    { m with
      isLocked := false
      authInFlight := false }
  | .cancelled => { m with authInFlight := false }
  | .failed message =>
    { m with
      authInFlight := false
      lastError := some message }

/-- `lockNow()` (LockManager.swift:278). -/
def lockNow (isLockGateActive : Bool) (m : LockManager) : LockManager :=
  if ¬ isLockGateActive then m else { m with isLocked := true }

/-- `unlockAfterDuress()` (LockManager.swift:305). -/
def unlockAfterDuress (m : LockManager) : LockManager :=
  { m with
    isLocked := false
    isPasscodeSheetPresented := false
    lastError := none
    wipeInFlight := false }

/-! ## Passcode entry -/

/-- `PasscodeOutcome`. -/
inductive PasscodeOutcome where
  | unlocked
  | duress
  | wrong
  | lockedOut (retryAt : ℚ)
  | permanentlyLocked
deriving DecidableEq

/-- What `submitPasscode` computes with platform libraries. -/
structure LockEnv where
  passcode : PasscodeEnv
  lockout : LockoutCodec
  /-- a `DateFormatter` with a short time and no date -/
  formatRetry : ℚ → String

/-- `submitPasscode(_:)` (LockManager.swift:350): the outcome, and the lock afterwards. -/
def submitPasscode (env : LockEnv) (entry : String) (m : LockManager) :
    Submit κ (PasscodeOutcome × LockManager) :=
  if m.wipeInFlight then pure (.wrong, m)
  else do
    let now ← lockout .date
    let priorState ← PasscodeLockoutStore.load env.lockout
    match PasscodeLockoutPolicy.production.decision priorState.attempts priorState.lastFailedAt
        now with
    | .permanentlyLocked =>
      pure (.permanentlyLocked,
        { m with lastError := some ("Passcode permanently locked after too many failed attempts. " ++
          "Reinstall the app to recover.") })
    | .blocked retryAt =>
      pure (.lockedOut retryAt,
        { m with lastError := some ("Too many failed attempts. Try again at " ++
          env.formatRetry retryAt ++ ".") })
    | .allow => do
      let found ← (AppPasscode.check env.passcode entry).inr
      let nextState := PasscodeLockoutPolicy.nextState found priorState now
      let _ ← PasscodeLockoutStore.save env.lockout nextState
      match found with
      | .real =>
        pure (.unlocked,
          { m with
            isLocked := false
            isPasscodeSheetPresented := false
            lastError := none })
      | .duress => pure (.duress, m)
      | .neither => pure (.wrong, m)

end LockManager

end Pizzini.App
