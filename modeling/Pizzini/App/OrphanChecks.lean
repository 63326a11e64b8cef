import Pizzini.App.KeyRotation

/-!
# Bootstrap under failing reads (SQLiteStorage.swift:112)

`Keychain.read` answers nil when the row is absent and when the read fails, and bootstrap
takes both as absence. On a device that has the file, the wrap row and the salt row, a
failing read of one of the rows in orphan check #1 unlinks the file; in the derivation of the
key it puts a fresh seed or salt in place of the row. All other reads may fail: the
parameters have one accepted value, and a rotation that finds no wrap row moves the database
to a new seed.

`bootstrap_spares_database` is for the launches in which the two rows are read; what is left
is the schema of newer code, which bootstrap wipes on purpose.
-/

namespace Pizzini.App

open Wire Interruptible

variable {κ δ : Type} {env : KeyEnv κ} [DecidableEq κ] [Inhabited δ]

/-! ## The property -/

/-- A read of the Keychain. -/
def Op.isRead : Op κ → Bool
  | .read _ => true
  | _ => false

/-- A read of one of the rows that the key is derived from. -/
def Op.readsKeyRow : Op κ → Bool
  | .read .wrap | .read .salt => true
  | _ => false

def Op.isOpenFile : Op κ → Bool
  | .openFile => true
  | _ => false

/-- The call unlinks the database or deletes key material or a passcode slot. The staged salt
is no key material once it has been promoted. -/
def Op.destroys : Op κ → Bool
  | .unlink | .enclaveDelete => true
  | .delete account => account ≠ .stagedSalt
  | _ => false

/-- Only reads of the Keychain fail. -/
def OnlyReadsFail (trace : List (Op κ × Bool)) : Prop :=
  ∀ e ∈ trace, e.2 = true → e.1.isRead = true

/-- Until the database file is opened, no read of the wrap row or the salt row fails. -/
def ReadsKeyRows (trace : List (Op κ × Bool)) : Prop :=
  ∀ e ∈ trace.takeWhile fun e => !e.1.isOpenFile, e.2 = true → e.1.readsKeyRow = false

/-- The schema of the database is newer than the code's. -/
def AheadOfCode (d : Device κ δ) : Prop :=
  ∃ key content, d.file = .keyed key content ∧ Migrator.currentVersion < content.userVersion

/-- The launch destroys nothing; a database that a launch without faults opens keeps its rows,
and a launch without faults opens it afterwards. -/
def SparesDatabase (env : KeyEnv κ) (d : Device κ δ) (now : Nat) (schedule : List Bool) : Prop :=
  (∀ e ∈ (launchUnder env d now schedule).trace, e.1.destroys = false) ∧
    (OpensNext env d →
      (launchUnder env d now schedule).state.file.rows = d.file.rows ∧
        OpensNext env (launchUnder env d now schedule).state)

/-! ## Launches under failing reads -/

/-- The database file was opened; something was destroyed. -/
structure Watch where
  opened : Bool
  destroyed : Bool

/-- What the watch shows after a call. -/
def Watch.next (w : Watch) (o : Op κ) : Watch :=
  ⟨w.opened || o.isOpenFile, w.destroyed || o.destroys⟩

/-- Launches in which reads may fail, those of the key rows only once the file is open. -/
def readRegime (κ δ : Type) [DecidableEq κ] [Inhabited δ] :
    Regime (Op κ) Ans (Device κ δ) Watch where
  act := Device.act
  mon w o _ := w.next o
  may w o fails := fails = true → o.isRead = true ∧ (w.opened = false → o.readsKeyRow = false)
  inv _ _ := True

section Calls

variable {w : Watch} {d : Device κ δ}

omit [DecidableEq κ] in
theorem Watch.next_eq {o : Op κ} (hopen : o.isOpenFile = false) (hdestroys : o.destroys = false) :
    w.next o = w := by
  rw [Watch.next, hopen, hdestroys, Bool.or_false, Bool.or_false]

theorem reads_steady {o : Op κ} (ho : o.isRead = false)
    {Q : Except BootError (Ans o) → Watch → Device κ δ → Prop}
    (h : Q (.ok (d.act o false).1) (w.next o) (d.act o false).2) :
    (readRegime κ δ).Holds Q (call o) w d := by
  refine ⟨trivial, fun fails hmay => ?_⟩
  cases fails with
  | false => exact h
  | true => exact absurd ((hmay rfl).1.symm.trans ho) nofun

/-- A call that neither reads, nor opens, nor destroys. -/
theorem reads_plain {o : Op κ} (ho : o.isRead = false) (hopen : o.isOpenFile = false)
    (hdestroys : o.destroys = false) {Q : Except BootError (Ans o) → Watch → Device κ δ → Prop}
    (h : Q (.ok (d.act o false).1) w (d.act o false).2) :
    (readRegime κ δ).Holds Q (call o) w d :=
  reads_steady ho (by rwa [Watch.next_eq hopen hdestroys])

/-- A read that may fail. -/
theorem reads_any {account : Account}
    {Q : Except BootError (Option Bytes) → Watch → Device κ δ → Prop}
    (hrow : Q (.ok (d.keychain account)) w d) (hnone : Q (.ok none) w d) :
    (readRegime κ δ).Holds Q (Keychain.read account) w d := by
  refine ⟨trivial, fun fails _ => ?_⟩
  cases fails with
  | false =>
    show Q (.ok (d.keychain account)) (w.next (.read account)) d
    rwa [Watch.next_eq rfl rfl]
  | true =>
    show Q (.ok none) (w.next (.read account)) d
    rwa [Watch.next_eq rfl rfl]

/-- A read of a key row before the file is open does not fail. -/
theorem reads_keyRow {account : Account} (hkey : (.read account : Op κ).readsKeyRow = true)
    (hclosed : w.opened = false) {Q : Except BootError (Option Bytes) → Watch → Device κ δ → Prop}
    (hrow : Q (.ok (d.keychain account)) w d) :
    (readRegime κ δ).Holds Q (Keychain.read account) w d := by
  refine ⟨trivial, fun fails hmay => ?_⟩
  cases fails with
  | false =>
    show Q (.ok (d.keychain account)) (w.next (.read account)) d
    rwa [Watch.next_eq rfl rfl]
  | true => exact absurd (((hmay rfl).2 hclosed).symm.trans hkey) nofun

theorem quiet_readRegime {rows : δ} : Quiet env rows (readRegime κ δ) w :=
  ⟨rfl, fun _ _ => Watch.next_eq rfl rfl, fun _ => trivial⟩

end Calls

/-! ## The launch -/

section Launch

variable {d : Device κ δ}

/-- Nothing was opened or destroyed. -/
def untouched : Watch := ⟨false, false⟩

/-- The file was opened, nothing was destroyed. -/
def openedOnly : Watch := ⟨true, false⟩

/-- Rows from which a key can be derived. -/
structure Present (d : Device κ δ) : Prop where
  file : d.file ≠ .absent
  wrap : d.keychain .wrap ≠ none
  salt : d.keychain .salt ≠ none

theorem reads_isInitialized (h : Present d) :
    (readRegime κ δ).Holds (Returns untouched fun initialized d' => initialized = true ∧ d' = d)
      DBKey.isInitialized untouched d := by
  obtain ⟨wrapped, hwrap⟩ := Option.ne_none_iff_exists'.mp h.wrap
  obtain ⟨salt, hsalt⟩ := Option.ne_none_iff_exists'.mp h.salt
  refine holds_bind.mpr (reads_keyRow rfl rfl ?_)
  rw [hwrap]
  refine holds_bind.mpr (reads_keyRow rfl rfl ?_)
  rw [hsalt]
  exact .mk ⟨rfl, rfl⟩

theorem reads_fileExists (h : Present d) :
    (readRegime κ δ).Holds (Returns untouched fun fileExists d' => fileExists = true ∧ d' = d)
      (call .fileExists) untouched d := by
  refine reads_plain rfl rfl rfl (.mk ⟨?_, rfl⟩)
  show d.file.isPresent = true
  cases hfile : d.file with
  | absent => exact absurd hfile h.file
  | empty => rfl
  | keyed key content => rfl

theorem reads_orphanCheck1 (h : Present d) :
    (readRegime κ δ).Holds (Returns untouched fun _ d' => d' = d)
      SQLiteStorage.orphanCheck1 untouched d := by
  refine holds_returns_bind (reads_fileExists h) ?_
  rintro fileExists d' ⟨hexists, hsame⟩
  rw [hexists, hsame]
  refine holds_returns_bind (reads_isInitialized h) ?_
  rintro initialized d'' ⟨hinit, hsame'⟩
  rw [hinit]
  exact .mk hsame'

/-- The other two checks are for devices without the file. -/
theorem reads_skipped (h : Present d) {p : Boot κ Unit} :
    (readRegime κ δ).Holds (Returns untouched fun _ d' => d' = d)
      (do
        let fileExists : Bool ← call .fileExists
        if fileExists then pure () else p) untouched d := by
  refine holds_returns_bind (reads_fileExists h) ?_
  rintro fileExists d' ⟨hexists, hsame⟩
  rw [hexists]
  exact .mk hsame

theorem reads_loadStoredParams {w : Watch} :
    (readRegime κ δ).Holds (Returns w fun params d' => params = .production ∧ d' = d)
      (DBKey.loadStoredParams env) w d := by
  refine holds_bind.mpr (reads_any ?_ (.mk ⟨rfl, rfl⟩))
  generalize hrow : d.keychain .params = row
  dsimp only
  split
  · exact .mk ⟨rfl, rfl⟩
  · split
    · next params _ haccepted =>
      exact .mk ⟨by simpa [DBKey.acceptedParamPresets] using haccepted, rfl⟩
    · exact .mk ⟨rfl, rfl⟩

/-- The wrapping key of the device, or the next one to be made. -/
def wrappingKey (d : Device κ δ) : Nat := d.enclave.getD d.enclaveKeys

/-- The key that `deriveKey` comes to on a device with a wrap row: a wrapping key or a usable
salt that is missing is made. -/
def derivedKey (env : KeyEnv κ) (d : Device κ δ) : Option κ :=
  ((d.keychain .wrap).bind (env.unwrap (wrappingKey d))).map fun seed =>
    env.argon2id seed ((DBKey.usableSalt (d.keychain .salt)).getD (d.random d.drawn 32).1) .production

/-- Finding the wrapping key, or making it, changes no row. -/
theorem reads_enclavePrivateKey {w : Watch} :
    (readRegime κ δ).Holds (Returns w fun key d' => key = wrappingKey d ∧
        d'.enclave = some key ∧ d'.keychain = d.keychain ∧ d'.file = d.file ∧
        d'.handle = d.handle ∧ d'.random = d.random ∧ d'.drawn = d.drawn)
      DBKey.enclavePrivateKey w d := by
  refine holds_bind.mpr (reads_plain rfl rfl rfl ?_)
  cases henclave : d.enclave with
  | some key =>
    have hanswer : d.act .enclaveFind false = (.found key, d) := by
      simp only [Device.act, henclave, Bool.false_eq_true, if_false]
    simp only [hanswer]
    exact .mk ⟨by rw [wrappingKey, henclave]; rfl, henclave, rfl, rfl, rfl, rfl, rfl⟩
  | none =>
    have hanswer : d.act .enclaveFind false = (.notFound, d) := by
      simp only [Device.act, henclave, Bool.false_eq_true, if_false]
    simp only [hanswer]
    refine holds_bind.mpr (reads_plain rfl rfl rfl ?_)
    exact .mk ⟨by rw [wrappingKey, henclave]; rfl, rfl, rfl, rfl, rfl, rfl, rfl⟩

/-- The parameters row does not matter to the key material. -/
theorem reads_persistParams {w : Watch} {params : Params} :
    (readRegime κ δ).Holds (Returns w fun _ d' => SameCore d d')
      (DBKey.persistParamsIfMissing env params) w d := by
  have hwrite : (readRegime κ δ).Holds (Returns w fun _ d' => SameCore d d')
      (do
        let written ← Keychain.write .params (env.encodeParams params)
        if written then pure () else Prog.throw (.dbKey .keychainWriteFailed)) w d :=
    holds_bind.mpr (reads_plain rfl rfl rfl
      (.mk (SameCore.setRow .params (by decide) (by decide) _)))
  refine holds_bind.mpr (reads_any ?_ hwrite)
  dsimp only
  split
  · exact .mk .refl
  · exact hwrite

/-- The salt row is read, or made where it is not usable. -/
theorem reads_loadOrCreateSalt {seed : Bytes} (hseed : HasSeed env d seed) :
    (readRegime κ δ).Holds (Returns untouched fun salt d' => d'.file = d.file ∧
        salt = (DBKey.usableSalt (d.keychain .salt)).getD (d.random d.drawn 32).1 ∧
        Derives env d' (env.argon2id seed salt .production))
      DBKey.loadOrCreateSalt untouched d := by
  refine holds_bind.mpr (reads_keyRow rfl rfl ?_)
  dsimp only
  split
  · next salt hsalt =>
    obtain ⟨hrow, hlen⟩ := Option.filter_eq_some_iff.mp hsalt
    exact .mk ⟨rfl, by rw [hsalt]; rfl, seed, salt, hseed, hrow, by simpa using hlen, rfl⟩
  · next hnone =>
    refine holds_bind.mpr (reads_plain rfl rfl rfl ?_)
    refine holds_bind.mpr (reads_plain rfl rfl rfl ?_)
    refine .mk ⟨rfl, by rw [hnone]; rfl, seed, _, hseed, Device.setRow_self _ _ _, ?_, rfl⟩
    rw [(d.random d.drawn 32).2]
    decide

/-- What `deriveKey` does before the file is open. -/
theorem reads_deriveKey (h : Present d) :
    (readRegime κ δ).Holds (fun r w d' => w = untouched ∧ d'.file = d.file ∧
        match derivedKey env d with
        | some key => r = .ok key ∧ Derives env d' key
        | none => ∃ e, r = .error e)
      (DBKey.deriveKey env .production true) untouched d := by
  obtain ⟨wrapped, hwrap⟩ := Option.ne_none_iff_exists'.mp h.wrap
  refine holds_bind.mpr (holds_bind.mpr (reads_keyRow rfl rfl ?_))
  rw [hwrap]
  refine holds_returns_bind reads_enclavePrivateKey ?_
  rintro enclaveKey d₁ ⟨hkey, henclave, hkeychain, hfile, -, hrandom, hdrawn⟩
  rw [derivedKey, hwrap, Option.bind_some, ← hkey, ← hkeychain, ← hrandom, ← hdrawn]
  cases hunwrap : env.unwrap enclaveKey wrapped with
  | none => exact ⟨rfl, hfile, _, rfl⟩
  | some seed =>
    have hseed : HasSeed env d₁ seed :=
      ⟨enclaveKey, wrapped, henclave, hkeychain.symm ▸ hwrap, hunwrap⟩
    refine holds_returns_bind (reads_loadOrCreateSalt hseed) ?_
    rintro salt d₂ ⟨hfile₂, hsalt, hderives⟩
    refine holds_returns_bind reads_persistParams fun {_ d₃} hsame => ?_
    refine ⟨rfl, hsame.file.trans (hfile₂.trans hfile), ?_, ?_⟩
    · rw [hsalt]
    · rw [← hsalt]
      exact hsame.derives hderives

/-- Opening under the key that the rows derive goes through. -/
theorem reads_init {rows : δ} {key : κ} (hd : Sound env rows d) (hkey : Derives env d key) :
    (readRegime κ δ).Holds (Returns openedOnly fun _ => Opened env rows key)
      (Database.init key) untouched d := by
  refine holds_bind.mpr (reads_steady rfl ?_)
  refine holds_bind.mpr (reads_plain rfl rfl rfl ?_)
  exact holds_pragmas quiet_readRegime (hd.connect hkey)

/-- Under any other key than the file's, the third pragma fails. -/
theorem reads_init_mismatch {key fileKey : κ} {content : Content δ}
    (hfile : d.file = .keyed fileKey content) (hne : key ≠ fileKey) :
    (readRegime κ δ).Holds (fun r w _ => w = openedOnly ∧
        r = .error (.database (.executeFailed .notADb .journalModeWAL)))
      (Database.init key) untouched d := by
  refine holds_bind.mpr (reads_steady rfl ?_)
  refine holds_bind.mpr (reads_plain rfl rfl rfl ?_)
  generalize hd' : ((d.act .openFile false).2.act (.key key) false).2 = d'
  have hhandle : d'.handle = some key := by
    rw [← hd']
    rfl
  have hfile' : d'.file = .keyed fileKey content := by
    rw [← hd']
    simp only [Device.act, hfile]
  have hjournal : d'.sql .journalModeWAL = ((.notADb, 0), d') := by
    simp only [Device.sql, Stmt.readsPage, hhandle, hfile', if_neg hne, not_true_eq_false, if_false]
  -- two pragmas that read no page, and then the one that does
  refine holds_bind.mpr (holds_bind.mpr (holds_bind.mpr (reads_plain rfl rfl rfl ?_)))
  refine holds_bind.mpr (holds_bind.mpr (reads_plain rfl rfl rfl ?_))
  refine holds_bind.mpr (holds_bind.mpr (reads_plain rfl rfl rfl ?_))
  show Regime.Holds _ _ (if (d'.sql .journalModeWAL).1.1 = .ok then _ else _) _ _
  rw [hjournal, if_neg (by rintro ⟨⟩)]
  refine ⟨rfl, ?_⟩
  show Except.error (BootError.database (.executeFailed (d'.sql .journalModeWAL).1.1 _)) = _
  rw [hjournal]

/-- The key that the rows derive is the file's, if that has pages. -/
def Openable (env : KeyEnv κ) (d : Device κ δ) : Prop :=
  ∃ key, derivedKey env d = some key ∧
    ∀ fileKey content, d.file = .keyed fileKey content → key = fileKey

/-- The walk opens an openable database, and throws on any other without destroying it. -/
theorem reads_openWithRecovery (h : Present d) (hahead : ¬ AheadOfCode d) :
    (readRegime κ δ).Holds (fun r w d' =>
        (Openable env d ∧ w = openedOnly ∧ r = .ok () ∧ IsOpen env d.file.rows d') ∨
          (¬ Openable env d ∧ w.destroyed = false ∧ ∃ e, r = .error e))
      (SQLiteStorage.openWithRecovery env .production true) untouched d := by
  refine holds_bind.mpr (holds_attempt.mpr ((reads_deriveKey h).mono ?_))
  rintro derived w d₁ ⟨rfl, hfile, hderived⟩
  cases hkey : derivedKey env d with
  | none =>
    rw [hkey] at hderived
    obtain ⟨e, rfl⟩ := hderived
    refine .inr ⟨?_, rfl, _, rfl⟩
    rintro ⟨key, hsome, -⟩
    rw [hkey] at hsome
    cases hsome
  | some key =>
    rw [hkey] at hderived
    obtain ⟨rfl, hderives⟩ := hderived
    by_cases hopen : ∀ fileKey content, d.file = .keyed fileKey content → key = fileKey
    · have hsound : Sound env d.file.rows d₁ := by
        refine ⟨by rw [hfile], fun _ => ?_, ?_⟩
        · obtain ⟨seed, _, hseed, -⟩ := hderives
          exact ⟨seed, hseed⟩
        · intro fileKey content hkeyed
          obtain rfl := hopen fileKey content (hfile.symm.trans hkeyed)
          refine ⟨hderives, Int.not_lt.mp fun hlt => hahead ⟨key, content, ?_, hlt⟩⟩
          exact hfile.symm.trans hkeyed
      refine holds_bind.mpr (holds_attempt.mpr ((reads_init hsound hderives).mono ?_))
      rintro _ _ d₂ ⟨rfl, a, rfl, h₂⟩
      exact .inl ⟨⟨key, hkey, hopen⟩, rfl, rfl, key, h₂⟩
    · obtain ⟨fileKey, hopen⟩ := not_forall.mp hopen
      obtain ⟨content, hopen⟩ := not_forall.mp hopen
      obtain ⟨hkeyed, hne⟩ := Classical.not_imp.mp hopen
      refine holds_bind.mpr (holds_attempt.mpr
        ((reads_init_mismatch (hfile.trans hkeyed) hne).mono ?_))
      rintro _ _ d₂ ⟨rfl, rfl⟩
      refine .inr ⟨?_, rfl, _, rfl⟩
      rintro ⟨key', hkey', hall⟩
      rw [hkey] at hkey'
      exact hne ((Option.some.inj hkey').trans (hall fileKey content hkeyed))

/-- The seed of a rotation: that of the wrap row, or a fresh one. -/
theorem reads_unwrapOrCreateSeed {seed : Bytes} (hseed : HasSeed env d seed) :
    (readRegime κ δ).Holds (Returns openedOnly fun seed' d' => HasSeed env d' seed' ∧
        d'.file = d.file ∧ d'.handle = d.handle)
      (DBKey.unwrapOrCreateSeed env) openedOnly d := by
  obtain ⟨enclaveKey, wrapped, henclave, hwrap, hunwrap⟩ := hseed
  have hkey : wrappingKey d = enclaveKey := by rw [wrappingKey, henclave]; rfl
  refine holds_bind.mpr (reads_any ?_ ?_)
  · rw [hwrap]
    refine holds_returns_bind reads_enclavePrivateKey ?_
    rintro key d₁ ⟨hkey₁, henclave₁, hkeychain, hfile, hhandle, -, -⟩
    rw [hkey₁, hkey, hunwrap]
    refine .mk ⟨⟨enclaveKey, wrapped, ?_, ?_, hunwrap⟩, hfile, hhandle⟩
    · rw [henclave₁, hkey₁, hkey]
    · rw [hkeychain, hwrap]
  · refine holds_bind.mpr (reads_plain rfl rfl rfl ?_)
    refine holds_bind.mpr (holds_returns_bind reads_enclavePrivateKey ?_)
    rintro key d₁ ⟨-, henclave₁, -, hfile, hhandle, -, -⟩
    refine holds_bind.mpr (reads_plain rfl rfl rfl ?_)
    exact .mk ⟨⟨key, _, henclave₁, Device.setRow_self _ _ _, env.unwrap_wrap _ _⟩, hfile, hhandle⟩

/-- A rotation from whatever seed leaves the device sound. -/
theorem reads_rotateKeyMaterial {rows : δ} {now : Nat} (h : IsOpen env rows d) :
    (readRegime κ δ).Holds (Returns openedOnly fun _ => Sound env rows)
      (DBKey.rotateKeyMaterial env .production now) openedOnly d := by
  obtain ⟨key, hopened⟩ := h
  obtain ⟨content, hfile⟩ := hopened.pages
  obtain ⟨⟨seed, salt, hseed, -⟩, hversion⟩ := hopened.sound.keyed _ _ hfile
  have hrows : content.rows = rows := by
    rw [← hopened.sound.rows, hfile]
    rfl
  refine holds_returns_bind (reads_unwrapOrCreateSeed hseed) ?_
  rintro seed' d₁ ⟨hseed₁, hfile₁, hhandle₁⟩
  refine holds_bind.mpr (reads_plain rfl rfl rfl ?_)
  have hrandom : d₁.act (.random 32) false =
      (some (d₁.random d₁.drawn 32), { d₁ with drawn := d₁.drawn + 1 }) := rfl
  rw [hrandom]
  dsimp only
  generalize d₁.random d₁.drawn 32 = newSalt
  generalize hkey : env.argon2id seed' newSalt.1 .production = newKey
  refine holds_bind.mpr (reads_plain rfl rfl rfl ?_)
  generalize hd₂ : (Device.act (.write .stagedSalt newSalt.1) false
    ({ d₁ with drawn := d₁.drawn + 1 } : Device κ δ)).2 = d₂
  have hsame : SameCore d₁ d₂ := by
    rw [← hd₂]
    exact ⟨rfl, rfl, rfl, rfl⟩
  have hhandle : d₂.handle = some key := by
    rw [← hd₂]
    exact hhandle₁.trans hopened.handle
  refine holds_bind.mpr (reads_plain rfl rfl rfl ?_)
  show Regime.Holds _ _ (if (d₂.rekey newKey).1 ≠ .ok then _ else _) _ (d₂.rekey newKey).2
  rw [rekey_of_keyed hhandle (hsame.file.trans (hfile₁.trans hfile)), if_neg (not_not.mpr rfl)]
  refine holds_bind.mpr (reads_plain rfl rfl rfl ?_)
  show Regime.Holds _ _ (if ((d₂.rekeyed newKey content).sql .vacuum).1.1 ≠ .ok then _ else _) _
    ((d₂.rekeyed newKey content).sql .vacuum).2
  rw [vacuum_rekeyed, if_neg (not_not.mpr rfl)]
  -- with the new salt the rows derive the new key
  have hpromoted : Opened env rows newKey
      ((d₂.rekeyed newKey content).setRow .salt (some newSalt.1)) :=
    opened_of_newSalt hkey.symm rfl rfl (hsame.hasSeed hseed₁) hrows hversion
  have hdeleted := hpromoted.setRow .stagedSalt (by decide) (by decide) none
  refine holds_bind.mpr (reads_plain rfl rfl rfl ?_)
  refine holds_bind.mpr (reads_plain rfl rfl rfl ?_)
  refine holds_bind.mpr (reads_plain rfl rfl rfl ?_)
  exact .mk (hdeleted.setRow .lastRotation (by decide) (by decide) _).sound

theorem reads_rotateIfDue {rows : δ} {now : Nat} (h : IsOpen env rows d) :
    (readRegime κ δ).Holds (Returns openedOnly fun _ => Sound env rows)
      (SQLiteStorage.rotateIfDue env .production now) openedOnly d := by
  have hdue : (readRegime κ δ).Holds (Returns openedOnly fun _ d' => d' = d)
      (DBKey.rotationDue now) openedOnly d := by
    refine holds_bind.mpr (reads_any ?_ (.mk rfl))
    dsimp only
    split
    · exact .mk rfl
    · split
      · exact .mk rfl
      · exact .mk rfl
  refine holds_returns_bind hdue ?_
  rintro due d' hsame
  rw [hsame]
  cases due with
  | false =>
    obtain ⟨key, hopened⟩ := h
    exact .mk hopened.sound
  | true =>
    refine holds_bind.mpr (holds_attempt.mpr ((reads_rotateKeyMaterial h).mono ?_))
    rintro _ _ d'' ⟨rfl, a, rfl, hsound⟩
    exact .mk hsound

/-- A launch on a device with the file and both rows, whose schema is not ahead. -/
theorem reads_bootstrap {now : Nat} (h : Present d) (hahead : ¬ AheadOfCode d) :
    (readRegime κ δ).Holds (fun r w d' => w.destroyed = false ∧
        ((Openable env d ∧ r = .ok () ∧ Sound env d.file.rows d') ∨
          (¬ Openable env d ∧ ∃ e, r = .error e)))
      (SQLiteStorage.bootstrap env now) untouched d := by
  have hafter : ∀ {d'}, d' = d → (readRegime κ δ).Holds (fun r w d' => w.destroyed = false ∧
        ((Openable env d ∧ r = .ok () ∧ Sound env d.file.rows d') ∨
          (¬ Openable env d ∧ ∃ e, r = .error e)))
      (do
        let params ← DBKey.loadStoredParams env
        let dbFileExists : Bool ← call .fileExists
        SQLiteStorage.openWithRecovery env params dbFileExists
        SQLiteStorage.migrateOrStartOver env
        SQLiteStorage.rotateIfDue env params now) untouched d' := by
    rintro d' hsame
    rw [hsame]
    refine holds_returns_bind reads_loadStoredParams ?_
    rintro params d₁ ⟨hparams, hsame₁⟩
    rw [hparams, hsame₁]
    refine holds_returns_bind (reads_fileExists h) ?_
    rintro dbFileExists d₂ ⟨hexists, hsame₂⟩
    rw [hexists, hsame₂]
    refine (reads_openWithRecovery h hahead).bind ?_ ?_
    · rintro _ w d₃ (⟨hopenable, rfl, -, hopen⟩ | ⟨-, -, e, he⟩)
      · refine holds_returns_bind (holds_migrateOrStartOver quiet_readRegime hopen) fun h₄ => ?_
        refine (reads_rotateIfDue h₄).mono ?_
        rintro _ _ d₅ ⟨rfl, a, rfl, hsound⟩
        exact ⟨rfl, .inl ⟨hopenable, rfl, hsound⟩⟩
      · cases he
    · rintro e w d₃ (⟨-, -, he, -⟩ | ⟨hnot, hdestroyed, -⟩)
      · cases he
      · exact ⟨hdestroyed, .inr ⟨hnot, e, rfl⟩⟩
  refine holds_returns_bind (reads_orphanCheck1 h) ?_
  rintro _ d₁ hsame₁
  rw [hsame₁]
  refine holds_returns_bind (reads_skipped h) ?_
  rintro _ d₂ hsame₂
  rw [hsame₂]
  exact holds_returns_bind (reads_skipped h) hafter

end Launch

/-! ## The result -/

/-- A trace in which only reads fail, and none of the key rows before the file is open, is
one of the regime. -/
theorem allowed_of_reads : ∀ {trace : List (Op κ × Bool)} {w : Watch}, OnlyReadsFail trace →
    (w.opened = false → ReadsKeyRows trace) → (readRegime κ δ).Allowed w trace
  | [], _, _, _ => trivial
  | (o, fails) :: trace, w, hreads, hkeys => by
    refine ⟨fun hfails => ⟨hreads _ (List.mem_cons_self ..) hfails, fun hclosed => ?_⟩, ?_⟩
    · cases hopen : o.isOpenFile with
      | false => exact hkeys hclosed (o, fails) (by simp [hopen]) hfails
      | true => cases o <;> first | rfl | cases hopen
    · refine allowed_of_reads (fun e he => hreads e (List.mem_cons_of_mem _ he)) fun hclosed => ?_
      obtain ⟨hw, hopen⟩ := Bool.or_eq_false_iff.mp hclosed
      intro e he
      refine hkeys hw e ?_
      rw [List.takeWhile_cons_of_pos (by simp [hopen])]
      exact List.mem_cons_of_mem _ he

/-- The watch shows whether something was destroyed. -/
theorem monitor_destroyed {w : Watch} (trace : List (Op κ × Bool))
    (h : ((readRegime κ δ).monitor w trace).destroyed = false) :
    ∀ e ∈ trace, e.1.destroys = false := by
  induction trace generalizing w with
  | nil => exact nofun
  | cons e trace ih =>
    have hkept : ∀ (trace : List (Op κ × Bool)) {w : Watch},
        ((readRegime κ δ).monitor w trace).destroyed = false → w.destroyed = false := by
      intro trace
      induction trace with
      | nil => exact id
      | cons e trace ih => exact fun h => (Bool.or_eq_false_iff.mp (ih h)).1
    intro e' he'
    rcases List.mem_cons.mp he' with rfl | he'
    · exact (Bool.or_eq_false_iff.mp (hkept trace h)).2
    · exact ih h e' he'

/-- A database that a launch without faults opens has the key that its rows derive. -/
theorem OpensNext.openable {d : Device κ δ} (h : OpensNext env d) (hd : Present d)
    (hahead : ¬ AheadOfCode d) : Openable env d.relaunched := by
  obtain ⟨d', key, content, hrun, -⟩ := h 0
  have hlaunch : (readRegime κ δ).Holds _ (SQLiteStorage.bootstrap env 0) untouched
      d.relaunched := reads_bootstrap ⟨hd.file, hd.wrap, hd.salt⟩ hahead
  obtain ⟨w, -, ⟨hopenable, -⟩ | ⟨-, e, he⟩⟩ := hlaunch.runClean fun _ _ => nofun
  · exact hopenable
  · have hrun' : (runClean (readRegime κ δ).act (SQLiteStorage.bootstrap env 0) d.relaunched).1 =
        .ok () := congrArg Prod.fst hrun
    rw [hrun'] at he
    cases he

/-- On a device with the file, the wrap row and the salt row, a launch in which only reads
fail, and none of the two rows before the file is open, spares the database, unless the
schema is newer than the code's. -/
theorem bootstrap_spares_database {d : Device κ δ} {now : Nat} {schedule : List Bool}
    (hpresent : Present d) (hreads : OnlyReadsFail (launchUnder env d now schedule).trace)
    (hkeys : ReadsKeyRows (launchUnder env d now schedule).trace)
    (hends : (launchUnder env d now schedule).outcome ≠ none) :
    AheadOfCode d ∨ SparesDatabase env d now schedule := by
  refine Classical.or_iff_not_imp_left.mpr fun hahead => ?_
  have hlaunch : (readRegime κ δ).Holds _ (SQLiteStorage.bootstrap env now) untouched
      d.relaunched := reads_bootstrap ⟨hpresent.file, hpresent.wrap, hpresent.salt⟩ hahead
  have hend := hlaunch.run schedule (allowed_of_reads hreads fun _ => hkeys)
  split at hend
  · next hnone => exact absurd hnone hends
  · obtain ⟨hdestroyed, hcases⟩ := hend
    refine ⟨monitor_destroyed _ hdestroyed, fun hopens => ?_⟩
    obtain ⟨-, -, hsound⟩ | ⟨hnot, -⟩ := hcases
    · have hrows : (launchUnder env d now schedule).state.file.rows = d.file.rows := hsound.rows
      refine ⟨hrows, Sound.opensNext ?_⟩
      rw [hrows]
      exact hsound
    · exact absurd (hopens.openable hpresent hahead) hnot

/-! ## Sample launches -/

/-- The failing calls of a launch: those at the positions `fails`. -/
def failingAt (fails : List Nat) : List Bool := (List.range 60).map fun n => fails.contains n

/-- The install with three messages, under a schema that the code does not know. -/
def newerDevice : Device (Bytes × Bytes) (List Nat) :=
  match usedDevice.file with
  | .keyed key content => { usedDevice with file := .keyed key { content with userVersion := 2 } }
  | _ => usedDevice

theorem present_of_isSome {d : Device (Bytes × Bytes) (List Nat)}
    (h : d.file.isPresent = true ∧ (d.keychain .wrap).isSome = true ∧
      (d.keychain .salt).isSome = true) : Present d := by
  refine ⟨?_, Option.isSome_iff_ne_none.mp h.2.1, Option.isSome_iff_ne_none.mp h.2.2⟩
  intro habsent
  rw [habsent] at h
  cases h.1

/-- The reads of the parameters, of the rotation stamp and, in the rotation, of the wrap row
fail: the database is spared. -/
theorem bootstrap_spares_usedDevice :
    AheadOfCode usedDevice ∨
      SparesDatabase sampleKeyEnv usedDevice (8 * 24 * 3600 * 1000) (failingAt [5, 20, 21]) :=
  bootstrap_spares_database (present_of_isSome (by decide +kernel))
    (by unfold OnlyReadsFail; decide +kernel) (by unfold ReadsKeyRows; decide +kernel)
    (by decide +kernel)

/-- The database under a newer schema is unlinked though the file and both rows are there and
no read fails. With the known schema, a failing read of the wrap row in orphan check #1
unlinks the file with its three messages, and one in the derivation of the key puts a fresh
wrap in place of the row: no later launch opens the database. -/
theorem bootstrap_destroys_present :
    Present newerDevice ∧
      (∃ e ∈ (launchUnder sampleKeyEnv newerDevice 0 (failingAt [])).trace, e.1 = .unlink) ∧
    Present usedDevice ∧
      OnlyReadsFail (launchUnder sampleKeyEnv usedDevice 0 (failingAt [1])).trace ∧
      (∃ e ∈ (launchUnder sampleKeyEnv usedDevice 0 (failingAt [1])).trace, e.1 = .unlink) ∧
      usedDevice.file.rows = [1, 2, 3] ∧
      (launchUnder sampleKeyEnv usedDevice 0 (failingAt [1])).state.file.rows = [] ∧
      OnlyReadsFail (launchUnder sampleKeyEnv usedDevice 0 (failingAt [7])).trace ∧
      (launchUnder sampleKeyEnv usedDevice 0 (failingAt [])).outcome = some (.ok ()) ∧
      ¬ OpensNext sampleKeyEnv
        (launchUnder sampleKeyEnv usedDevice 0 (failingAt [7])).state := by
  refine ⟨present_of_isSome (by decide +kernel), by decide +kernel,
    present_of_isSome (by decide +kernel), by unfold OnlyReadsFail; decide +kernel,
    by decide +kernel, by decide +kernel, by decide +kernel,
    by unfold OnlyReadsFail; decide +kernel, by decide +kernel, fun hopens => ?_⟩
  obtain ⟨d', key, content, hrun, -⟩ := hopens 0
  -- the launch without faults ends in an error
  have hnot : (runClean Device.act (SQLiteStorage.bootstrap sampleKeyEnv 0)
      (launchUnder sampleKeyEnv usedDevice 0 (failingAt [7])).state.relaunched).1 ≠ .ok () := by
    decide +kernel
  exact hnot (congrArg Prod.fst hrun)

end Pizzini.App
