import Pizzini.App.Bootstrap

/-!
# Sound devices and open connections

A device is `Sound` for `rows` when its file holds them and is encrypted under the key that
the wrap row and the salt row derive. `Connected` and `Opened` add the open connection; every
statement of start-up keeps them (`Connected.sql`). What the opening pragmas and the schema
step do on a connection is stated for every regime that lets statements through (`Quiet`).
-/

namespace Pizzini.App

open Wire Interruptible

variable {κ δ γ : Type} {env : KeyEnv κ}

/-! ## Sound devices -/

/-- The wrap row of the device unwraps to `seed`. -/
def HasSeed (env : KeyEnv κ) (d : Device κ δ) (seed : Bytes) : Prop :=
  ∃ enclaveKey wrapped, d.enclave = some enclaveKey ∧ d.keychain .wrap = some wrapped ∧
    env.unwrap enclaveKey wrapped = some seed

/-- The wrap row and the salt row derive `key`. -/
def Derives (env : KeyEnv κ) (d : Device κ δ) (key : κ) : Prop :=
  ∃ seed salt, HasSeed env d seed ∧ d.keychain .salt = some salt ∧ 16 ≤ salt.length ∧
    key = env.argon2id seed salt .production

/-- The device holds `rows`, and its key material opens the file. -/
structure Sound [Inhabited δ] (env : KeyEnv κ) (rows : δ) (d : Device κ δ) : Prop where
  rows : d.file.rows = rows
  wrap : d.keychain .wrap ≠ none → ∃ seed, HasSeed env d seed
  keyed : ∀ key content, d.file = .keyed key content →
    Derives env d key ∧ content.userVersion ≤ Migrator.currentVersion

/-- Nothing that `Sound` is about differs. -/
structure SameCore (d d' : Device κ δ) : Prop where
  file : d'.file = d.file
  enclave : d'.enclave = d.enclave
  wrap : d'.keychain .wrap = d.keychain .wrap
  salt : d'.keychain .salt = d.keychain .salt

namespace SameCore

variable {d d' d'' : Device κ δ} {rows : δ} {key : κ}

theorem refl : SameCore d d := ⟨rfl, rfl, rfl, rfl⟩

theorem trans (h : SameCore d d') (h' : SameCore d' d'') : SameCore d d'' :=
  ⟨h'.file.trans h.file, h'.enclave.trans h.enclave, h'.wrap.trans h.wrap, h'.salt.trans h.salt⟩

theorem setRow (account : Account) (hwrap : account ≠ .wrap) (hsalt : account ≠ .salt)
    (row : Option Bytes) : SameCore d (d.setRow account row) :=
  ⟨rfl, rfl, d.setRow_of_ne hwrap.symm row, d.setRow_of_ne hsalt.symm row⟩

theorem hasSeed {seed : Bytes} (h : SameCore d d') (hseed : HasSeed env d seed) :
    HasSeed env d' seed := by
  obtain ⟨enclaveKey, wrapped, he, hw, hunwrap⟩ := hseed
  exact ⟨enclaveKey, wrapped, h.enclave.trans he, h.wrap.trans hw, hunwrap⟩

theorem derives (h : SameCore d d') (hkey : Derives env d key) : Derives env d' key := by
  obtain ⟨seed, salt, hseed, hsalt, hlen, hk⟩ := hkey
  exact ⟨seed, salt, h.hasSeed hseed, h.salt.trans hsalt, hlen, hk⟩

theorem sound [Inhabited δ] (h : SameCore d d') (hd : Sound env rows d) : Sound env rows d' where
  rows := (congrArg DbFile.rows h.file).trans hd.rows
  wrap := by
    intro hwrap
    rw [h.wrap] at hwrap
    obtain ⟨seed, hseed⟩ := hd.wrap hwrap
    exact ⟨seed, h.hasSeed hseed⟩
  keyed := by
    intro key content hfile
    obtain ⟨hkey, hversion⟩ := hd.keyed key content (h.file.symm.trans hfile)
    exact ⟨h.derives hkey, hversion⟩

end SameCore

theorem HasSeed.unique {d : Device κ δ} {seed seed' : Bytes} (h : HasSeed env d seed)
    (h' : HasSeed env d seed') : seed = seed' := by
  obtain ⟨enclaveKey, wrapped, he, hw, hunwrap⟩ := h
  obtain ⟨enclaveKey', wrapped', he', hw', hunwrap'⟩ := h'
  obtain rfl : enclaveKey = enclaveKey' := Option.some.inj (he.symm.trans he')
  obtain rfl : wrapped = wrapped' := Option.some.inj (hw.symm.trans hw')
  exact Option.some.inj (hunwrap.symm.trans hunwrap')

/-- The rows and the wrapping key derive one key only. -/
theorem Derives.unique {d : Device κ δ} {key key' : κ} (h : Derives env d key)
    (h' : Derives env d key') : key = key' := by
  obtain ⟨seed, salt, hseed, hsalt, _, rfl⟩ := h
  obtain ⟨seed', salt', hseed', hsalt', _, rfl⟩ := h'
  obtain rfl : salt = salt' := Option.some.inj (hsalt.symm.trans hsalt')
  rw [hseed.unique hseed']

/-! ## Files without pages -/

section Files

variable [Inhabited δ] {rows : δ} {d : Device κ δ}

/-- Without an encrypted file, only the wrap row matters. -/
theorem sound_of_unkeyed (hfile : ∀ key content, d.file ≠ .keyed key content)
    (hrows : rows = default)
    (hwrap : d.keychain .wrap ≠ none → ∃ seed, HasSeed env d seed) : Sound env rows d := by
  refine ⟨?_, hwrap, fun key content hkeyed => absurd hkeyed (hfile key content)⟩
  cases hd : d.file with
  | keyed key content => exact absurd hd (hfile key content)
  | absent => exact hrows.symm
  | empty => exact hrows.symm

theorem Sound.rows_eq_default (hd : Sound env rows d)
    (hfile : ∀ key content, d.file ≠ .keyed key content) : rows = default := by
  rw [← hd.rows]
  cases h : d.file with
  | keyed key content => exact absurd h (hfile key content)
  | absent => rfl
  | empty => rfl

/-- An encrypted file comes with a wrap row and a salt row. -/
theorem Sound.unkeyed_of_not_initialized (hd : Sound env rows d)
    (hnone : d.keychain .wrap = none ∨ DBKey.usableSalt (d.keychain .salt) = none) :
    ∀ key content, d.file ≠ .keyed key content := by
  intro key content hfile
  obtain ⟨⟨seed, salt, ⟨_, _, -, hwrap, -⟩, hsalt, hlen, -⟩, -⟩ := hd.keyed key content hfile
  rcases hnone with hnone | hnone
  · rw [hwrap] at hnone
    cases hnone
  · rw [hsalt, DBKey.usableSalt, Option.filter_some, if_pos (by simpa using hlen)] at hnone
    cases hnone

/-! ## Connections -/

/-- The open connection of a sound device has the key that the rows derive. -/
structure Connected (env : KeyEnv κ) (rows : δ) (key : κ) (d : Device κ δ) : Prop where
  sound : Sound env rows d
  handle : d.handle = some key
  derives : Derives env d key

/-- A connection to a database with pages. -/
structure Opened (env : KeyEnv κ) (rows : δ) (key : κ) (d : Device κ δ) : Prop extends
    Connected env rows key d where
  pages : ∃ content, d.file = .keyed key content

theorem Connected.file_cases {key : κ} (h : Connected env rows key d) :
    (∀ k content, d.file ≠ .keyed k content) ∨ Opened env rows key d := by
  by_cases hkeyed : ∃ k content, d.file = .keyed k content
  · obtain ⟨k, content, hfile⟩ := hkeyed
    obtain rfl := (h.sound.keyed k content hfile).1.unique h.derives
    exact .inr ⟨h, content, hfile⟩
  · exact .inl fun k content hfile => hkeyed ⟨k, content, hfile⟩

/-- The device with other pages under the same key. -/
theorem Connected.setFile {key : κ} {content : Content δ} (h : Connected env rows key d)
    (hrows : content.rows = rows) (hversion : content.userVersion ≤ Migrator.currentVersion) :
    Opened env rows key { d with file := .keyed key content } where
  sound :=
    { rows := hrows
      wrap := h.sound.wrap
      keyed := by
        intro k content' hfile
        obtain ⟨rfl, rfl⟩ := DbFile.keyed.inj hfile
        exact ⟨h.derives, hversion⟩ }
  handle := h.handle
  derives := h.derives
  pages := ⟨content, rfl⟩

theorem Opened.setRow {key : κ} (h : Opened env rows key d) (account : Account)
    (hwrap : account ≠ .wrap) (hsalt : account ≠ .salt) (row : Option Bytes) :
    Opened env rows key (d.setRow account row) := by
  have hsame : SameCore d (d.setRow account row) := SameCore.setRow account hwrap hsalt row
  exact ⟨⟨hsame.sound h.sound, h.handle, hsame.derives h.derives⟩, h.pages⟩

/-- Once the live salt is the one that the new key derives from, the device is sound again. -/
theorem opened_of_newSalt {seed : Bytes} {newSalt : FixedBytes 32} {newKey : κ}
    {content : Content δ} (hkey : newKey = env.argon2id seed newSalt.1 .production)
    (hfile : d.file = .keyed newKey content) (hhandle : d.handle = some newKey)
    (hseed : HasSeed env d seed) (hrows : content.rows = rows)
    (hversion : content.userVersion ≤ Migrator.currentVersion) :
    Opened env rows newKey (d.setRow .salt (some newSalt.1)) := by
  have hlen : 16 ≤ newSalt.1.length := by
    rw [newSalt.2]
    decide
  have hseed' : HasSeed env (d.setRow .salt (some newSalt.1)) seed := hseed
  have hderives : Derives env (d.setRow .salt (some newSalt.1)) newKey :=
    ⟨seed, newSalt.1, hseed', Device.setRow_self _ _ _, hlen, hkey⟩
  refine ⟨⟨⟨?_, fun _ => ⟨seed, hseed'⟩, ?_⟩, hhandle, hderives⟩, content, hfile⟩
  · exact (congrArg DbFile.rows hfile).trans hrows
  · intro k content' hk
    obtain ⟨rfl, rfl⟩ := DbFile.keyed.inj (hfile.symm.trans hk)
    exact ⟨hderives, hversion⟩

/-- The device whose file is encrypted anew, under the key of the connection. -/
def Device.rekeyed (d : Device κ δ) (key : κ) (content : Content δ) : Device κ δ :=
  { d with file := .keyed key content, handle := some key }

omit [Inhabited δ] in
/-- The statements of start-up keep the rows of a database, and its version is not beyond
that of the code. -/
theorem runStmt_keeps {stmt : Stmt} (content : Content δ)
    (hstmt : ∀ target, stmt = .migrate target → target ≤ Migrator.currentVersion)
    (hversion : content.userVersion ≤ Migrator.currentVersion) :
    (Device.runStmt stmt content).2.rows = content.rows ∧
      (Device.runStmt stmt content).2.userVersion ≤ Migrator.currentVersion := by
  cases stmt with
  | migrate target => exact ⟨rfl, hstmt target rfl⟩
  | _ => exact ⟨rfl, hversion⟩

variable [DecidableEq κ]

/-- A statement on a database with pages. -/
theorem sql_of_keyed {key : κ} {content : Content δ} {stmt : Stmt} (hhandle : d.handle = some key)
    (hfile : d.file = .keyed key content) (hreads : stmt.readsPage = true) :
    d.sql stmt = ((.ok, (Device.runStmt stmt content).1),
      { d with file := .keyed key (Device.runStmt stmt content).2 }) := by
  simp only [Device.sql, hreads, hhandle, hfile, not_true_eq_false, if_false, if_true]

omit [Inhabited δ] in
theorem rekey_of_keyed {key newKey : κ} {content : Content δ} (hhandle : d.handle = some key)
    (hfile : d.file = .keyed key content) :
    d.rekey newKey = (.ok, d.rekeyed newKey content) := by
  simp only [Device.rekey, Device.rekeyed, hhandle, hfile, if_true]

theorem vacuum_rekeyed (key : κ) (content : Content δ) :
    (d.rekeyed key content).sql .vacuum = ((.ok, 0), d.rekeyed key content) := by
  rw [sql_of_keyed rfl rfl rfl]
  rfl

/-- Every statement of start-up goes through, and the connection stays; one that writes
pages makes them. -/
theorem Connected.sql {key : κ} (h : Connected env rows key d) (stmt : Stmt)
    (hstmt : ∀ target, stmt = .migrate target → target ≤ Migrator.currentVersion) :
    (d.sql stmt).1.1 = .ok ∧ Connected env rows key (d.sql stmt).2 ∧
      (Opened env rows key d ∨ stmt.writesPage = true → Opened env rows key (d.sql stmt).2) := by
  by_cases hreads : stmt.readsPage = true
  · rcases h.file_cases with hfile | hopened
    · have hrows : (default : δ) = rows := (h.sound.rows_eq_default hfile).symm
      have hnew : d.sql stmt = if stmt.writesPage then
          ((.ok, 0), { d with file := .keyed key (Device.runStmt stmt ⟨0, default⟩).2 })
          else ((.ok, 0), d) := by
        unfold Device.sql
        rw [if_neg (not_not.mpr hreads), h.handle]
        cases hd : d.file with
        | keyed k content => exact absurd hd (hfile k content)
        | absent => rfl
        | empty => rfl
      rw [hnew]
      split
      · obtain ⟨hkept, hversion⟩ := runStmt_keeps ⟨0, (default : δ)⟩ hstmt
          (by show (0 : Int) ≤ 1; decide)
        have hopen := h.setFile (hkept.trans hrows) hversion
        exact ⟨rfl, hopen.toConnected, fun _ => hopen⟩
      · next hwrites =>
        exact ⟨rfl, h, fun hor => hor.resolve_right hwrites⟩
    · obtain ⟨content, hfile⟩ := hopened.pages
      obtain ⟨hkept, hversion⟩ := runStmt_keeps content hstmt (h.sound.keyed _ _ hfile).2
      have hrows : content.rows = rows := by
        rw [← h.sound.rows, hfile]
        rfl
      have hopen := h.setFile (hkept.trans hrows) hversion
      rw [sql_of_keyed h.handle hfile hreads]
      exact ⟨rfl, hopen.toConnected, fun _ => hopen⟩
  · have hsame : d.sql stmt = ((.ok, 0), d) := by
      unfold Device.sql
      rw [if_pos hreads]
    rw [hsame]
    refine ⟨rfl, h, fun hor => hor.resolve_right ?_⟩
    cases stmt <;> first | decide | exact absurd rfl hreads

end Files

/-! ## Programs on a connection -/

section Programs

variable [Inhabited δ] {rows : δ} {R : Regime (Op κ) Ans (Device κ δ) γ} {g : γ} {d : Device κ δ}

/-- The program does not throw, the monitor is at `g`, and `P` holds of its result and the
device. -/
def Returns {α : Type} (g : γ) (P : α → Device κ δ → Prop) (r : Except BootError α) (g' : γ)
    (d : Device κ δ) : Prop :=
  g' = g ∧ ∃ a, r = .ok a ∧ P a d

omit [Inhabited δ] in
theorem Returns.mk {α : Type} {P : α → Device κ δ → Prop} {a : α} (h : P a d) :
    Returns g P (.ok a) g d :=
  ⟨rfl, a, rfl, h⟩

omit [Inhabited δ] in
/-- What follows a program that does not throw. -/
theorem holds_returns_bind {α β : Type} {p : Boot κ α} {f : α → Boot κ β} {g' : γ}
    {P : α → Device κ δ → Prop} {Q : Except BootError β → γ → Device κ δ → Prop}
    (h : R.Holds (Returns g P) p g' d)
    (hnext : ∀ {a d'}, P a d' → R.Holds Q (f a) g d') : R.Holds Q (p >>= f) g' d := by
  refine h.bind ?_ ?_
  · rintro a _ d' ⟨rfl, a', ha, hd'⟩
    obtain rfl := Except.ok.inj ha
    exact hnext hd'
  · rintro e _ d' ⟨-, a, ha, -⟩
    cases ha

/-- A regime that asks nothing of statements beyond soundness, and does not remember them. -/
structure Quiet (env : KeyEnv κ) (rows : δ) [DecidableEq κ]
    (R : Regime (Op κ) Ans (Device κ δ) γ) (g : γ) : Prop where
  act : R.act = Device.act
  mon : ∀ stmt fails, R.mon g (.sql stmt) fails = g
  inv : ∀ {d}, Sound env rows d → R.inv g d

variable [DecidableEq κ]

theorem Quiet.holds_sql (hR : Quiet env rows R g) {stmt : Stmt}
    {Q : Except BootError (Ans (Op.sql stmt : Op κ)) → γ → Device κ δ → Prop}
    (hd : Sound env rows d) (h : Q (.ok (d.sql stmt).1) g (d.sql stmt).2) :
    R.Holds Q (call (.sql stmt)) g d := by
  refine ⟨hR.inv hd, fun fails _ => ?_⟩
  rw [hR.mon, hR.act]
  exact h

theorem holds_execute (hR : Quiet env rows R g) {key : κ} {stmt : Stmt}
    (h : Connected env rows key d)
    (hstmt : ∀ target, stmt = .migrate target → target ≤ Migrator.currentVersion) :
    R.Holds (Returns g fun _ d' => Connected env rows key d' ∧
        (Opened env rows key d ∨ stmt.writesPage = true → Opened env rows key d'))
      (Database.execute stmt) g d := by
  obtain ⟨hrc, hconnected, hpages⟩ := h.sql stmt hstmt
  refine holds_bind.mpr (hR.holds_sql h.sound ?_)
  show Regime.Holds _ _ (if (d.sql stmt).1.1 = .ok then _ else _) _ _
  rw [if_pos hrc]
  exact .mk ⟨hconnected, hpages⟩

/-- The opening pragmas and the smoke test go through; `journal_mode` makes the first page. -/
theorem holds_pragmas (hR : Quiet env rows R g) {key : κ} (h : Connected env rows key d) :
    R.Holds (Returns g fun _ => Opened env rows key)
      (do
        Database.executeAll Database.opening
        let _ ← Database.prepare .countMaster
        pure ()) g d := by
  have hpragma : ∀ {stmt : Stmt} {d : Device κ δ}, (∀ target, stmt ≠ .migrate target) →
      Connected env rows key d →
      R.Holds (Returns g fun _ d' => Connected env rows key d' ∧
          (Opened env rows key d ∨ stmt.writesPage = true → Opened env rows key d'))
        (Database.execute stmt) g d :=
    fun hne h => holds_execute hR h fun target heq => absurd heq (hne target)
  refine holds_returns_bind (g := g) ?_ fun {_ d₆} (h₆ : Opened env rows key d₆) => ?_
  · refine holds_returns_bind (hpragma (fun _ => nofun) h) fun h₁ => ?_
    refine holds_returns_bind (hpragma (fun _ => nofun) h₁.1) fun h₂ => ?_
    refine holds_returns_bind (hpragma (fun _ => nofun) h₂.1) fun h₃ => ?_
    refine holds_returns_bind (hpragma (fun _ => nofun) h₃.1) fun h₄ => ?_
    refine holds_returns_bind (hpragma (fun _ => nofun) h₄.1) fun h₅ => ?_
    exact .mk (h₅.2 (.inl (h₄.2 (.inl (h₃.2 (.inr rfl))))))
  · obtain ⟨hrc, -, hpages⟩ := h₆.toConnected.sql .countMaster fun _ => nofun
    refine holds_bind.mpr (holds_bind.mpr (hR.holds_sql h₆.sound ?_))
    show Regime.Holds _ _ (if (d₆.sql .countMaster).1.1 = .ok then _ else _) _ _
    rw [if_pos hrc]
    exact .mk (hpages (.inl h₆))

/-- Opening the file of a sound device leaves it sound. -/
theorem Sound.openFile (hd : Sound env rows d) : Sound env rows (d.act .openFile false).2 := by
  cases hfile : d.file with
  | keyed k content =>
    refine ⟨?_, hd.wrap, ?_⟩
    · simp only [Device.act, hfile, ← hd.rows]
    · intro k' content' hkeyed
      simp only [Device.act, hfile] at hkeyed
      obtain ⟨rfl, rfl⟩ := DbFile.keyed.inj hkeyed
      exact hd.keyed _ _ hfile
  | absent =>
    refine sound_of_unkeyed ?_ (hd.rows_eq_default (by rw [hfile]; exact fun _ _ => nofun)) hd.wrap
    simp only [Device.act, hfile]
    exact fun _ _ => nofun
  | empty =>
    refine sound_of_unkeyed ?_ (hd.rows_eq_default (by rw [hfile]; exact fun _ _ => nofun)) hd.wrap
    simp only [Device.act, hfile]
    exact fun _ _ => nofun

theorem Sound.connect {key : κ} (hd : Sound env rows d) (hkey : Derives env d key) :
    Connected env rows key { (d.act .openFile false).2 with handle := some key } := by
  have hopened := hd.openFile
  exact ⟨⟨hopened.rows, hopened.wrap, hopened.keyed⟩, rfl, hkey⟩

/-- A connection to a database with pages, under some key. -/
def IsOpen (env : KeyEnv κ) (rows : δ) (d : Device κ δ) : Prop := ∃ key, Opened env rows key d

/-- The migration of a database that is not ahead of the code. -/
theorem holds_migratorRun (hR : Quiet env rows R g) {key : κ} (h : Opened env rows key d) :
    R.Holds (Returns g fun _ => Opened env rows key) Migrator.run g d := by
  obtain ⟨content, hfile⟩ := h.pages
  have hversion := (h.sound.keyed _ _ hfile).2
  refine holds_returns_bind (g := g) (P := fun (current : Int) d' =>
    current ≤ Migrator.currentVersion ∧ Opened env rows key d') ?_ ?_
  · refine holds_bind.mpr (hR.holds_sql h.sound ?_)
    have hopen := (h.toConnected.sql .userVersion fun _ => nofun).2.2 (.inl h)
    show Regime.Holds _ _ (if (d.sql .userVersion).1.1 = .ok then pure (d.sql .userVersion).1.2
      else _) _ (d.sql .userVersion).2
    rw [sql_of_keyed h.handle hfile rfl] at hopen ⊢
    exact .mk ⟨hversion, hopen⟩
  · rintro current d' ⟨hcurrent, hopen⟩
    rw [if_neg (by omega)]
    split
    · refine (holds_execute hR hopen.toConnected ?_).mono ?_
      · rintro target htarget
        exact Int.le_of_eq (Stmt.migrate.inj htarget).symm
      · rintro _ _ d'' ⟨rfl, a, rfl, -, hpages⟩
        exact .mk (hpages (.inl hopen))
    · exact .mk hopen

/-- The schema step of a database that is not ahead of the code. -/
theorem holds_migrateOrStartOver (hR : Quiet env rows R g) (h : IsOpen env rows d) :
    R.Holds (Returns g fun _ => IsOpen env rows) (SQLiteStorage.migrateOrStartOver env) g d := by
  obtain ⟨key, hopened⟩ := h
  refine holds_bind.mpr (holds_attempt.mpr ((holds_migratorRun hR hopened).mono ?_))
  rintro _ _ d' ⟨rfl, a, rfl, hopen⟩
  exact .mk ⟨key, hopen⟩

end Programs

end Pizzini.App
