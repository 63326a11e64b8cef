import Pizzini.Storage.AppState

/-!
# The two resets (Storage.swift:479–685)

Both unlink the database and persist the settings of a snapshot in a fresh one, which leaves the
block list out. `resetEverything` then blocks its identities again (`resetEverything_reload`);
`eraseAndReinitialize` does not (`eraseAndReinitialize_reload`). So a reset keeps the posture
exactly if nobody is blocked and the settings are ones that their row keeps
(`resetKeepsPosture_iff`).

The keys, the passcodes and the attachments are erased elsewhere. The migration of older versions'
Keychain slots deletes these at every start, and so finds none here.
-/

namespace Pizzini.Storage

open Wire

/-- `postWipeAppState(preserving:clearPasscodes:)` (Storage.swift:609). -/
def postWipeAppState (snapshot : AppState) (clearPasscodes : Bool) : AppState :=
  if clearPasscodes then {}
  else
    { relayHost := snapshot.relayHost
      contacts := []
      onboardingCompleted := snapshot.onboardingCompleted
      biometricLockEnabled := snapshot.biometricLockEnabled
      autoLockTimeout := snapshot.autoLockTimeout
      attachmentPreviewMode := snapshot.attachmentPreviewMode
      panicModeEnabled := snapshot.panicModeEnabled
      qrBlockEffective := snapshot.qrBlockEffective
      qrBlockTestedOSVersion := snapshot.qrBlockTestedOSVersion
      groups := []
      contactsBeforeGroups := snapshot.contactsBeforeGroups
      inAppHapticsEnabled := snapshot.inAppHapticsEnabled
      defaultReadReceiptsEnabled := snapshot.defaultReadReceiptsEnabled
      notificationsMuted := snapshot.notificationsMuted
      blockedIdentities := snapshot.blockedIdentities
      appearanceMode := snapshot.appearanceMode }

/-- `eraseAndReinitialize(preserving:clearPasscodes:)` (Storage.swift:479): the database it
leaves. -/
def eraseAndReinitialize (snapshot : Option AppState) (clearPasscodes : Bool) : Option Database :=
  match snapshot with
  | none => some .empty
  | some snapshot => persist (postWipeAppState snapshot clearPasscodes) .empty

/-- The loop over the blocked identities; `now i` is when the identity number `i` is written. -/
def blockIdentities (now : Nat → Date) : Nat → List Bytes → Database → Database
  | _, [], db => db
  | i, id :: ids, db => blockIdentities now (i + 1) ids (upsertBlockedIdentity id (now i) db)

/-- `resetEverything(preserveAppState:)` (Storage.swift:644). -/
def resetEverything (preserveAppState : Bool) (now : Nat → Date) (db : Database) :
    Option Database :=
  if preserveAppState then
    (loadAppState db).bind fun preserved =>
      (persist
        { relayHost := preserved.relayHost
          contacts := []
          onboardingCompleted := preserved.onboardingCompleted
          biometricLockEnabled := preserved.biometricLockEnabled
          autoLockTimeout := preserved.autoLockTimeout
          attachmentPreviewMode := preserved.attachmentPreviewMode
          panicModeEnabled := preserved.panicModeEnabled
          qrBlockEffective := preserved.qrBlockEffective
          qrBlockTestedOSVersion := preserved.qrBlockTestedOSVersion
          groups := []
          contactsBeforeGroups := preserved.contactsBeforeGroups
          inAppHapticsEnabled := preserved.inAppHapticsEnabled
          defaultReadReceiptsEnabled := preserved.defaultReadReceiptsEnabled
          notificationsMuted := preserved.notificationsMuted
          blockedIdentities := preserved.blockedIdentities
          appearanceMode := preserved.appearanceMode } .empty).map
        (blockIdentities now 0 preserved.blockedIdentities)
  else some .empty

/-! ## What is read after a reset -/

/-- The same in every field, and the same identities blocked. -/
structure SamePosture (s s' : AppState) : Prop where
  settings : { s with blockedIdentities := [] } = { s' with blockedIdentities := [] }
  blocked : ∀ id, id ∈ s.blockedIdentities ↔ id ∈ s'.blockedIdentities

/-- What is read of a database with the settings of a state, and without contacts and groups. -/
theorem loadAppState_of_settings {s : AppState} {db : Database}
    (hsettings : db.settings = (upsertSettings s .empty).settings) (htables : db.tables = .empty) :
    loadAppState db = some (s.storedSettings (loadBlockedIdentities db)) := by
  have hdb : upsertSettings s { db with settings := none } = db := by
    show (⟨(upsertSettings s .empty).settings, db.blockedIdentities, db.tables⟩ : Database) = db
    rw [← hsettings]
  have hload : loadSettings db = some (s.storedSettings (loadBlockedIdentities db)) := by
    have hstored := loadSettings_upsertSettings s { db with settings := none }
    rw [hdb] at hstored
    exact hstored
  rw [loadAppState, htables, hload]
  rfl

theorem persist_postWipeAppState (s : AppState) :
    persist (postWipeAppState s false) .empty =
      some (upsertSettings (postWipeAppState s false) .empty) := rfl

/-- After the wipe nobody is blocked. -/
theorem eraseAndReinitialize_reload (s : AppState) :
    ∃ db, eraseAndReinitialize (some s) false = some db ∧
      loadAppState db = some (s.storedSettings []) :=
  ⟨_, persist_postWipeAppState s, loadAppState_of_settings rfl rfl⟩

theorem blockIdentities_spec (now : Nat → Date) (ids : List Bytes) :
    ∀ (i : Nat) (db : Database),
      (blockIdentities now i ids db).settings = db.settings ∧
      (blockIdentities now i ids db).tables = db.tables ∧
      ∀ id, id ∈ (blockIdentities now i ids db).blockedIdentities ↔
        id ∈ ids ∨ id ∈ db.blockedIdentities := by
  induction ids with
  | nil => exact fun i db => ⟨rfl, rfl, fun id => ⟨.inr, fun h => h.resolve_left (by simp)⟩⟩
  | cons first ids ih =>
    intro i db
    obtain ⟨hsettings, htables, hblocked⟩ := ih (i + 1) (upsertBlockedIdentity first (now i) db)
    refine ⟨hsettings, htables, fun id => ?_⟩
    have hinsert : id ∈ (upsertBlockedIdentity first (now i) db).blockedIdentities ↔
        id = first ∨ id ∈ db.blockedIdentities := AList.mem_insert _
    rw [blockIdentities, hblocked id, hinsert, List.mem_cons]
    exact ⟨by tauto, by tauto⟩

/-- `resetEverything` blocks again whom the database had blocked. -/
theorem resetEverything_reload {db : Database} {s : AppState} (hload : loadAppState db = some s)
    (now : Nat → Date) :
    ∃ db' blocked, resetEverything true now db = some db' ∧
      loadAppState db' = some (s.storedSettings blocked) ∧
      ∀ id, id ∈ blocked ↔ id ∈ s.blockedIdentities := by
  obtain ⟨hsettings, htables, hblocked⟩ := blockIdentities_spec now s.blockedIdentities 0
    (upsertSettings (postWipeAppState s false) .empty)
  refine ⟨_, _, ?_, loadAppState_of_settings hsettings htables, fun id => ?_⟩
  · rw [resetEverything, hload]
    rfl
  · rw [mem_loadBlockedIdentities, hblocked id]
    exact ⟨fun h => h.resolve_right List.not_mem_nil, .inl⟩

/-! ## What a reset keeps -/

/-- A wipe that is not a duress wipe leaves the posture of `postWipeAppState`. -/
def EraseKeepsPosture (snapshot : AppState) : Prop :=
  ∃ db s, eraseAndReinitialize (some snapshot) false = some db ∧ loadAppState db = some s ∧
    SamePosture s (postWipeAppState snapshot false)

/-- It leaves the posture that `resetEverything` leaves of a database. -/
def ResetsAgree (snapshot : AppState) (held : Database) (now : Nat → Date) : Prop :=
  ∃ db s db' s', eraseAndReinitialize (some snapshot) false = some db ∧ loadAppState db = some s ∧
    resetEverything true now held = some db' ∧ loadAppState db' = some s' ∧ SamePosture s s'

/-- Both, where the database held the snapshot. -/
def ResetKeepsPosture (snapshot : AppState) : Prop :=
  EraseKeepsPosture snapshot ∧
    ∀ held now, loadAppState held = some snapshot → ResetsAgree snapshot held now

/-- Nobody is blocked, and the settings are ones that their row keeps. -/
def AppState.Keepable (s : AppState) : Prop :=
  s.blockedIdentities = [] ∧ s.appearanceMode = .system ∧ NulFree s.relayHost ∧
    ∀ version, s.qrBlockTestedOSVersion = some version → NulFree version

/-- The row keeps every setting but the appearance and what follows a NUL. -/
theorem samePosture_storedSettings_iff {s : AppState} {blocked : List Bytes} :
    SamePosture (s.storedSettings blocked) (postWipeAppState s false) ↔
      (∀ id, id ∈ blocked ↔ id ∈ s.blockedIdentities) ∧ s.appearanceMode = .system ∧
        NulFree s.relayHost ∧ ∀ version, s.qrBlockTestedOSVersion = some version → NulFree version := by
  rw [NulFree, ← cString_eq_self_iff, ← map_cString_eq_self_iff]
  constructor
  · rintro ⟨hsettings, hblocked⟩
    exact ⟨hblocked, (congrArg AppState.appearanceMode hsettings).symm,
      congrArg AppState.relayHost hsettings, congrArg AppState.qrBlockTestedOSVersion hsettings⟩
  · rintro ⟨hblocked, happearance, hhost, hversion⟩
    refine ⟨?_, hblocked⟩
    show ({ s with
      version := 1
      relayHost := cString s.relayHost
      contacts := []
      qrBlockTestedOSVersion := s.qrBlockTestedOSVersion.map cString
      groups := []
      blockedIdentities := []
      appearanceMode := .system } : AppState) = _
    rw [hhost, hversion, ← happearance]
    rfl

theorem eraseKeepsPosture_iff {s : AppState} : EraseKeepsPosture s ↔ s.Keepable := by
  obtain ⟨db, herase, hload⟩ := eraseAndReinitialize_reload s
  constructor
  · rintro ⟨db', s', herase', hload', hsame⟩
    cases herase.symm.trans herase'
    cases hload.symm.trans hload'
    obtain ⟨hblocked, hkeeps⟩ := samePosture_storedSettings_iff.mp hsame
    exact ⟨List.eq_nil_iff_forall_not_mem.mpr fun id hid => List.not_mem_nil ((hblocked id).mpr hid),
      hkeeps⟩
  · rintro ⟨hnobody, hkeeps⟩
    refine ⟨db, _, herase, hload, samePosture_storedSettings_iff.mpr ⟨fun id => ?_, hkeeps⟩⟩
    rw [hnobody]

/-- The two resets agree exactly if nobody is blocked. -/
theorem resetsAgree_iff {snapshot : AppState} {held : Database}
    (hheld : loadAppState held = some snapshot) (now : Nat → Date) :
    ResetsAgree snapshot held now ↔ snapshot.blockedIdentities = [] := by
  obtain ⟨db, herase, hload⟩ := eraseAndReinitialize_reload snapshot
  obtain ⟨db', blocked, hreset, hreload, hagain⟩ := resetEverything_reload hheld now
  constructor
  · rintro ⟨_, _, _, _, herase', hload', hreset', hreload', hsame⟩
    cases herase.symm.trans herase'
    cases hload.symm.trans hload'
    cases hreset.symm.trans hreset'
    cases hreload.symm.trans hreload'
    refine List.eq_nil_iff_forall_not_mem.mpr fun id hid => ?_
    exact List.not_mem_nil ((hsame.blocked id).mpr ((hagain id).mpr hid))
  · intro hnobody
    refine ⟨db, _, db', _, herase, hload, hreset, hreload, rfl, fun id => ?_⟩
    show id ∈ [] ↔ id ∈ blocked
    rw [hagain id, hnobody]

/-- A reset keeps the posture exactly if it has nobody to keep blocked, and only settings that
their row keeps. -/
theorem resetKeepsPosture_iff (snapshot : AppState) :
    ResetKeepsPosture snapshot ↔ snapshot.Keepable := by
  rw [ResetKeepsPosture, eraseKeepsPosture_iff]
  exact and_iff_left_of_imp fun h held now hheld => (resetsAgree_iff hheld now).mpr h.1

/-- A state in which one peer is blocked. -/
def oneBlocked : AppState := { blockedIdentities := [List.replicate 33 5] }

/-- The peer is not blocked any more. -/
theorem reset_unblocks : (∃ db s, eraseAndReinitialize (some oneBlocked) false = some db ∧
      loadAppState db = some s ∧ s.blockedIdentities = []) ∧ ¬ ResetKeepsPosture oneBlocked := by
  obtain ⟨db, herase, hload⟩ := eraseAndReinitialize_reload oneBlocked
  refine ⟨⟨db, _, herase, hload, rfl⟩, ?_⟩
  rintro ⟨hkeeps, -⟩
  exact List.cons_ne_nil _ _ (eraseKeepsPosture_iff.mp hkeeps).1

end Pizzini.Storage
