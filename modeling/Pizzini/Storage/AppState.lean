import Pizzini.App.LockManager
import Pizzini.Storage.RowRoundTrips

/-!
# The settings and the block list (`Models.swift`, SQLiteStorage.swift:431–535, Storage.swift:103–297)

The settings are one row, the block list is a table of its own. `persist` writes the settings,
the contacts and the groups of an `AppState`; `loadAppState` reads these and the block list.
`loadSettings_upsertSettings` is what the row keeps of the settings: it has no column for the
appearance, and its texts end at their first NUL.

A write that throws or traps is none here, and so is a read that traps.
-/

namespace Pizzini.Storage

open Wire
open Pizzini.App (AutoLockTimeout)

/-! ## The state (Models.swift:472–716) -/

/-- `AutoLockTimeout.rawValue`. -/
def timeoutRawValue : AutoLockTimeout → String
  | .immediately => "immediately"
  | .oneMinute => "oneMinute"
  | .fiveMinutes => "fiveMinutes"
  | .fifteenMinutes => "fifteenMinutes"

/-- `AutoLockTimeout(rawValue:)`. -/
def timeoutOfRawValue (s : String) : Option AutoLockTimeout :=
  [AutoLockTimeout.immediately, .oneMinute, .fiveMinutes, .fifteenMinutes].find? fun timeout =>
    timeoutRawValue timeout = s

/-- `AttachmentPreviewMode`. -/
inductive AttachmentPreviewMode where
  | off
  | quickLook
  | inlineThumbnail
deriving DecidableEq

namespace AttachmentPreviewMode

/-- `init(legacyInt:)`. -/
def ofLegacyInt (value : Int64) : AttachmentPreviewMode :=
  if value = 1 then quickLook else if value = 2 then inlineThumbnail else off

/-- `legacyIntValue`. -/
def legacyIntValue : AttachmentPreviewMode → Int64
  | off => 0
  | quickLook => 1
  | inlineThumbnail => 2

@[simp] theorem ofLegacyInt_legacyIntValue (mode : AttachmentPreviewMode) :
    ofLegacyInt mode.legacyIntValue = mode := by
  cases mode <;> rfl

end AttachmentPreviewMode

/-- `AppearanceMode`. -/
inductive AppearanceMode where
  | system
  | light
  | dark
deriving DecidableEq

/-- A `ChatGroup` with its messages; those are in the table of the contacts' messages. -/
structure StoredGroup where
  group : Group.ChatGroup
  log : List PersistedMessage

/-- `AppState`, with the defaults of its `init`. -/
structure AppState where
  version : Int64 := 1
  relayHost : String := ""
  contacts : List Contact := []
  onboardingCompleted : Bool := false
  biometricLockEnabled : Bool := false
  autoLockTimeout : AutoLockTimeout := .immediately
  attachmentPreviewMode : AttachmentPreviewMode := .off
  panicModeEnabled : Bool := false
  qrBlockEffective : Option Bool := none
  qrBlockTestedOSVersion : Option String := none
  groups : List StoredGroup := []
  contactsBeforeGroups : Bool := true
  inAppHapticsEnabled : Bool := false
  defaultReadReceiptsEnabled : Bool := false
  notificationsMuted : Bool := false
  blockedIdentities : List Bytes := []
  appearanceMode : AppearanceMode := .system

/-! ## The database -/

/-- The columns of `settings`, less its `id`. -/
inductive SettingsColumn where
  | relayHost
  | onboardingCompleted
  | biometricLockEnabled
  | autoLockTimeout
  | quicklookPreviewEnabled
  | panicModeEnabled
  | qrBlockEffective
  | qrBlockTestedOSVersion
  | contactsBeforeGroups
  | inAppHapticsEnabled
  | defaultReadReceiptsEnabled
  | notificationsMuted
deriving DecidableEq

/-- The tables, with the row of `settings` and, by identity, `blocked_at`. -/
structure Database where
  settings : Option (SettingsColumn → SqlValue)
  blockedIdentities : Dict Bytes SqlValue
  tables : Tables

/-- A fresh database. -/
def Database.empty : Database := ⟨none, ∅, .empty⟩

/-! ## Settings (SQLiteStorage.swift:434–513) -/

/-- The columns of the `SELECT`, of the `INSERT` and of its `DO UPDATE SET`. -/
def settingsColumns : List SettingsColumn :=
  [.relayHost, .onboardingCompleted, .biometricLockEnabled,
    .autoLockTimeout, .quicklookPreviewEnabled, .panicModeEnabled,
    .qrBlockEffective, .qrBlockTestedOSVersion,
    .contactsBeforeGroups, .inAppHapticsEnabled,
    .defaultReadReceiptsEnabled, .notificationsMuted]

/-- The values bound by `upsertSettings`. -/
def settingsValues (s : AppState) : List SqlValue :=
  [.ofString s.relayHost,
    .ofBool s.onboardingCompleted,
    .ofBool s.biometricLockEnabled,
    .ofString (timeoutRawValue s.autoLockTimeout),
    .integer s.attachmentPreviewMode.legacyIntValue,
    .ofBool s.panicModeEnabled,
    .ofOption .ofBool s.qrBlockEffective,
    .ofOption .ofString s.qrBlockTestedOSVersion,
    .ofBool s.contactsBeforeGroups,
    .ofBool s.inAppHapticsEnabled,
    .ofBool s.defaultReadReceiptsEnabled,
    .ofBool s.notificationsMuted]

/-- `upsertSettings(_:)` (SQLiteStorage.swift:474). -/
def upsertSettings (s : AppState) (db : Database) : Database :=
  let row := bound settingsColumns (settingsValues s)
  { db with
    settings := some
      (match db.settings with
      | none => row
      | some old => doUpdate settingsColumns old row) }

/-- `blocked_at` of a row. -/
def BlockedLe (e f : Σ _ : Bytes, SqlValue) : Prop := e.2.columnInt64 ≤ f.2.columnInt64

instance : DecidableRel BlockedLe := fun e f =>
  inferInstanceAs (Decidable (e.2.columnInt64 ≤ f.2.columnInt64))

/-- `loadBlockedIdentities()` (SQLiteStorage.swift:517). -/
def loadBlockedIdentities (db : Database) : List Bytes :=
  (KeyedTable.select (fun _ => true) BlockedLe db.blockedIdentities).map Sigma.fst

/-- `upsertBlockedIdentity(_:at:)` (SQLiteStorage.swift:528). -/
def upsertBlockedIdentity (identityPub : Bytes) (date : Date) (db : Database) : Database :=
  { db with
    blockedIdentities := KeyedTable.upsert (fun _ excluded => excluded) identityPub (.ofDate date)
      db.blockedIdentities }

/-- `loadSettings()` (SQLiteStorage.swift:434). -/
def loadSettings (db : Database) : Option AppState :=
  db.settings.map fun row =>
    let col := fun index => (settingsColumns[index]?).elim .null row
    { relayHost := (col 0).columnText.getD ""
      contacts := []
      onboardingCompleted := (col 1).columnBool
      biometricLockEnabled := (col 2).columnBool
      autoLockTimeout := (timeoutOfRawValue ((col 3).columnText.getD "")).getD .immediately
      attachmentPreviewMode := .ofLegacyInt (col 4).columnInt64
      panicModeEnabled := (col 5).columnBool
      qrBlockEffective := (col 6).columnOptionalInt64.map fun n => n ≠ 0
      qrBlockTestedOSVersion := (col 7).columnText
      groups := []
      contactsBeforeGroups := (col 8).columnBool
      inAppHapticsEnabled := (col 9).columnBool
      defaultReadReceiptsEnabled := (col 10).columnBool
      notificationsMuted := (col 11).columnBool
      blockedIdentities := loadBlockedIdentities db }

/-! ## The whole state (Storage.swift:103–134, 249–297) -/

/-- The loop over the contacts of `persist(appState:)`. -/
def persistContact (t : Tables) (c : Contact) : Option Tables :=
  (upsertContact c t).bind fun t => c.log.foldlM (fun t m => upsertMessage m (.contact c.id) t) t

/-- The loop over its groups. -/
def persistGroup (t : Tables) (g : StoredGroup) : Option Tables :=
  (Group.upsertGroup g.group t.groups).bind fun groups =>
    g.log.foldlM (fun t m => upsertMessage m (.group g.group.id) t) { t with groups := groups }

/-- `persist(appState:)` (Storage.swift:268). -/
def persist (state : AppState) (db : Database) : Option Database :=
  (state.contacts.foldlM persistContact db.tables).bind fun t =>
    (state.groups.foldlM persistGroup t).map fun t => { upsertSettings state db with tables := t }

/-- `loadGroups()` with the messages. -/
def loadStoredGroups (t : Tables) : Option (List StoredGroup) :=
  (Group.loadGroups t.groups).mapM fun g =>
    (loadMessages (.group g.id) t).map fun log => { group := g, log := log }

/-- `loadAppState()` (Storage.swift:103). -/
def loadAppState (db : Database) : Option AppState :=
  match loadContacts db.tables, loadStoredGroups db.tables with
  | some contacts, some groups =>
    some { (loadSettings db).getD {} with
      contacts := contacts
      groups := groups }
  | _, _ => none

/-! ## What the settings keep -/

@[simp] theorem timeoutOfRawValue_cString (timeout : AutoLockTimeout) :
    timeoutOfRawValue (cString (timeoutRawValue timeout)) = some timeout := by
  cases timeout <;> decide

/-- What is read back of the settings, with a block list. -/
def AppState.storedSettings (s : AppState) (blocked : List Bytes) : AppState :=
  { s with
    version := 1
    relayHost := cString s.relayHost
    contacts := []
    qrBlockTestedOSVersion := s.qrBlockTestedOSVersion.map cString
    groups := []
    blockedIdentities := blocked
    appearanceMode := .system }

theorem columnOptionalInt64_ofOption (b : Option Bool) :
    ((SqlValue.ofOption .ofBool b).columnOptionalInt64.map fun n => decide (n ≠ 0)) = b := by
  rcases b with _ | _ | _ <;> rfl

/-- The settings come back, but for the appearance and for what follows a NUL. -/
theorem loadSettings_upsertSettings (s : AppState) (db : Database) :
    loadSettings (upsertSettings s db) = some (s.storedSettings (loadBlockedIdentities db)) := by
  obtain ⟨row, hrow, hcolumns⟩ : ∃ row, (upsertSettings s db).settings = some row ∧
      ∀ c, row c = bound settingsColumns (settingsValues s) c := by
    refine ⟨_, rfl, fun c => ?_⟩
    cases db.settings with
    | none => rfl
    | some old =>
      refine if_pos ?_
      cases c <;> decide
  have hblocked : loadBlockedIdentities (upsertSettings s db) = loadBlockedIdentities db := rfl
  have hhost : row .relayHost = .ofString s.relayHost := hcolumns _
  have honboarding : row .onboardingCompleted = .ofBool s.onboardingCompleted := hcolumns _
  have hbiometric : row .biometricLockEnabled = .ofBool s.biometricLockEnabled := hcolumns _
  have htimeout : row .autoLockTimeout = .ofString (timeoutRawValue s.autoLockTimeout) := hcolumns _
  have hpreview : row .quicklookPreviewEnabled =
      .integer s.attachmentPreviewMode.legacyIntValue := hcolumns _
  have hpanic : row .panicModeEnabled = .ofBool s.panicModeEnabled := hcolumns _
  have heffective : row .qrBlockEffective = .ofOption .ofBool s.qrBlockEffective := hcolumns _
  have htested : row .qrBlockTestedOSVersion = .ofOption .ofString s.qrBlockTestedOSVersion :=
    hcolumns _
  have hbefore : row .contactsBeforeGroups = .ofBool s.contactsBeforeGroups := hcolumns _
  have hhaptics : row .inAppHapticsEnabled = .ofBool s.inAppHapticsEnabled := hcolumns _
  have hreceipts : row .defaultReadReceiptsEnabled = .ofBool s.defaultReadReceiptsEnabled :=
    hcolumns _
  have hmuted : row .notificationsMuted = .ofBool s.notificationsMuted := hcolumns _
  rw [loadSettings, hrow, Option.map_some, hblocked]
  show some ({
    relayHost := (row .relayHost).columnText.getD ""
    contacts := []
    onboardingCompleted := (row .onboardingCompleted).columnBool
    biometricLockEnabled := (row .biometricLockEnabled).columnBool
    autoLockTimeout :=
      (timeoutOfRawValue ((row .autoLockTimeout).columnText.getD "")).getD .immediately
    attachmentPreviewMode := .ofLegacyInt (row .quicklookPreviewEnabled).columnInt64
    panicModeEnabled := (row .panicModeEnabled).columnBool
    qrBlockEffective := (row .qrBlockEffective).columnOptionalInt64.map fun n => decide (n ≠ 0)
    qrBlockTestedOSVersion := (row .qrBlockTestedOSVersion).columnText
    groups := []
    contactsBeforeGroups := (row .contactsBeforeGroups).columnBool
    inAppHapticsEnabled := (row .inAppHapticsEnabled).columnBool
    defaultReadReceiptsEnabled := (row .defaultReadReceiptsEnabled).columnBool
    notificationsMuted := (row .notificationsMuted).columnBool
    blockedIdentities := loadBlockedIdentities db } : AppState) = _
  simp only [hhost, honboarding, hbiometric, htimeout, hpreview, hpanic, heffective, htested,
    hbefore, hhaptics, hreceipts, hmuted, SqlValue.columnText_ofString, SqlValue.columnBool_ofBool,
    SqlValue.columnText_ofOption, SqlValue.columnInt64, columnOptionalInt64_ofOption,
    timeoutOfRawValue_cString, AttachmentPreviewMode.ofLegacyInt_legacyIntValue, Option.getD_some]
  rfl

/-- The block list is the keys of its table. -/
theorem mem_loadBlockedIdentities {id : Bytes} {db : Database} :
    id ∈ loadBlockedIdentities db ↔ id ∈ db.blockedIdentities := by
  rw [loadBlockedIdentities, List.mem_map, AList.mem_keys, AList.keys, List.keys, List.mem_map]
  exact exists_congr fun e => and_congr_left fun _ => by
    rw [KeyedTable.mem_select]
    exact and_iff_left rfl

end Pizzini.Storage
