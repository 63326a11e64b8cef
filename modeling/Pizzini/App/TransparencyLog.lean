import Mathlib.Data.List.MinMax
import Pizzini.Lib.Fields
import Pizzini.Lib.Runs

/-!
# The transparency log and its rollback floor

`TransparencyLog.swift` fetches a public log of signed release entries and
caches it. A fetched log replaces the cached one only if it passes three
checks: it has as many verified entries as the cached log, it names every
binary the cached log names, and its newest `signed_at` is not below a stored
watermark. The cache may be evicted by the system; the watermark is kept with
the app's settings. They are written one after the other.

JSON, signatures, timestamps and case folding are parameters (`LogEnv`), over
any linear order of dates. `log_floor_holds` says what any sequence of
fetches, evictions and process stops keeps, and `KeepsFloor` under which
condition on the stops.
-/

namespace Pizzini.App

open Wire Runs

/-! ## Entries (TransparencyLog.swift:28–125) -/

/-- `TransparencyLog.Entry`. -/
structure LogEntry where
  gitSha : String
  binarySha256Hex : String
  binarySize : Int
  canonicalJSON : Bytes
  deriving DecidableEq, Repr

/-- `SignedEntry`. -/
structure SignedEntry where
  entry : LogEntry
  signedAt : String
  signatureBase64 : String
  deriving DecidableEq, Repr

/-- `VerificationResult`. -/
inductive VerificationResult where
  | valid
  | malformedEntry (why : String)
  | badSignature
  | operatorKeyMissing
  deriving DecidableEq, Repr

/-- What the log takes from Foundation and CryptoKit. -/
structure LogEnv (Date : Type) where
  parseSignedEntry : Bytes → Option SignedEntry
  verify : SignedEntry → VerificationResult
  parseSignedAt : String → Option Date
  lowercased : String → String

/-- `FetchError`. -/
inductive FetchError where
  | urlNotConfigured
  | http (why : String)
  | empty
  | rollback
  | cache (why : String)
  deriving DecidableEq, Repr

/-- What stands in front of the checks: the configuration, and the answer to
the request. -/
inductive Response where
  | urlNotConfigured
  | torNotReady (why : String)
  | networkError (why : String)
  | nonHTTP
  | http (statusCode : Nat) (data : Bytes)
  deriving DecidableEq, Repr

/-- The body of a good answer (TransparencyLog.swift:440–488). -/
def Response.body : Response → Except FetchError Bytes
  | .urlNotConfigured => .error .urlNotConfigured
  | .torNotReady why => .error (.http s!"Tor not ready: {why}")
  | .networkError why => .error (.http s!"network error: {why}")
  | .nonHTTP => .error (.http "non-HTTP response")
  | .http statusCode data =>
    if 200 ≤ statusCode ∧ statusCode ≤ 299 then .ok data else .error (.http s!"HTTP {statusCode}")

variable {Date : Type}

/-- Where the log and its floor are kept: the cache file and the legacy
watermark file, both in a directory the system may empty, and the watermark in
the app's settings. -/
structure LogStorage (Date : Type) where
  cache : Option Bytes
  legacyWatermark : Option Date
  watermark : Option Date
  deriving DecidableEq

/-- A durable write of `fetchAndCache`. Both are atomic. -/
inductive LogWrite (Date : Type) where
  | cache (data : Bytes)
  | watermark (date : Date)

/-- `loadWatermark` (TransparencyLog.swift:388–399). -/
def LogStorage.loadWatermark (storage : LogStorage Date) : Option Date :=
  match storage.watermark with
  | some date => some date
  | none => storage.legacyWatermark

namespace LogEnv

variable (env : LogEnv Date)

/-- The loop of `parseLog`: `line` is what was read since the last newline. -/
def parseLines : Bytes → Bytes → List SignedEntry
  | [], line => if line.isEmpty then [] else (env.parseSignedEntry line).toList
  | b :: rest, line =>
    if b = 0x0A then
      (if line.isEmpty then [] else (env.parseSignedEntry line).toList) ++ parseLines rest []
    else parseLines rest (line ++ [b])

/-- `parseLog`. -/
def parseLog (data : Bytes) : List SignedEntry := env.parseLines data []

/-- `log.filter { verify($0) == .valid }`. -/
def validEntries (log : List SignedEntry) : List SignedEntry :=
  log.filter fun entry => decide (env.verify entry = .valid)

/-- `verifiedCount`. -/
def verifiedCount (log : List SignedEntry) : Nat := (env.validEntries log).length

/-- The binaries the verified entries name. -/
def verifiedShas (log : List SignedEntry) : List String :=
  (env.validEntries log).map fun entry => env.lowercased entry.entry.binarySha256Hex

variable [LinearOrder Date]

/-- `maxSignedAt`. -/
def maxSignedAt (log : List SignedEntry) : Option Date :=
  ((env.validEntries log).filterMap fun entry => env.parseSignedAt entry.signedAt).max?

/-- `loadCachedLog`. -/
def loadCachedLog (storage : LogStorage Date) : List SignedEntry :=
  match storage.cache with
  | some data => env.parseLog data
  | none => []

/-- `fetchAndCache` (TransparencyLog.swift:430–553): its result, and the writes
it makes on the way there. `diskError` is why the cache file cannot be
written, if it cannot. -/
def fetchAndCache (response : Response) (diskError : Option String) (storage : LogStorage Date) :
    Except FetchError (List SignedEntry) × List (LogWrite Date) :=
  match response.body with
  | .error e => (.error e, [])
  | .ok data =>
    let entries := env.parseLog data
    if entries.isEmpty then (.error .empty, [])
    else if (env.validEntries entries).isEmpty then (.error .empty, [])
    else
      let cached := env.loadCachedLog storage
      -- fewer entries than cached, or a binary that is no longer named
      if !(env.validEntries cached).isEmpty ∧
          (env.verifiedCount entries < env.verifiedCount cached ∨
            ∃ sha ∈ env.verifiedShas cached, sha ∉ env.verifiedShas entries) then
        (.error .rollback, [])
      else
        match env.maxSignedAt entries with
        | none => (.error .rollback, [])
        | some newMax =>
          if ∃ watermark ∈ storage.loadWatermark, newMax < watermark then (.error .rollback, [])
          else
            match diskError with
            | some why => (.error (.cache s!"write failed: {why}"), [])
            | none => (.ok entries, [.cache data, .watermark newMax])

/-- A log that passes the checks of `fetchAndCache`. -/
structure Accepts (storage : LogStorage Date) (data : Bytes) (newMax : Date) : Prop where
  newest : env.maxSignedAt (env.parseLog data) = some newMax
  count : env.verifiedCount (env.loadCachedLog storage) ≤ env.verifiedCount (env.parseLog data)
  shas : ∀ sha ∈ env.verifiedShas (env.loadCachedLog storage),
    sha ∈ env.verifiedShas (env.parseLog data)
  floor : ∀ watermark, storage.loadWatermark = some watermark → watermark ≤ newMax

/-- A fetch fails before it writes, or writes a log that passes the checks and
then its newest `signed_at`. -/
theorem fetchAndCache_cases (response : Response) (diskError : Option String)
    (storage : LogStorage Date) :
    (∃ e, env.fetchAndCache response diskError storage = (.error e, [])) ∨
      ∃ data newMax, response.body = .ok data ∧ env.Accepts storage data newMax ∧
        env.fetchAndCache response diskError storage =
          (.ok (env.parseLog data), [.cache data, .watermark newMax]) := by
  unfold fetchAndCache
  cases hbody : response.body with
  | error e => exact .inl ⟨e, rfl⟩
  | ok data =>
    simp only
    split
    · exact .inl ⟨_, rfl⟩
    split
    · exact .inl ⟨_, rfl⟩
    split
    · exact .inl ⟨_, rfl⟩
    next hcached =>
    cases hmax : env.maxSignedAt (env.parseLog data) with
    | none => exact .inl ⟨_, rfl⟩
    | some newMax =>
      simp only
      split
      · exact .inl ⟨_, rfl⟩
      next hfloor =>
      cases diskError with
      | some why => exact .inl ⟨_, rfl⟩
      | none =>
        refine .inr ⟨data, newMax, rfl, ⟨hmax, ?_, ?_, fun w hw => ?_⟩, rfl⟩
        · by_contra hlt
          refine hcached ⟨?_, .inl (Nat.lt_of_not_le hlt)⟩
          have hpos : 0 < (env.validEntries (env.loadCachedLog storage)).length :=
            Nat.lt_of_le_of_lt (Nat.zero_le _) (Nat.lt_of_not_le hlt)
          rw [Bool.not_eq_true', List.isEmpty_eq_false_iff]
          exact List.ne_nil_of_length_pos hpos
        · intro sha hsha
          by_contra hmissing
          refine hcached ⟨?_, .inr ⟨sha, hsha, hmissing⟩⟩
          rw [Bool.not_eq_true', List.isEmpty_eq_false_iff]
          rintro hnil
          rw [verifiedShas, hnil] at hsha
          cases hsha
        · exact le_of_not_gt fun hlt => hfloor ⟨w, hw, hlt⟩

end LogEnv

/-! ## Runs -/

/-- The storage, and which logs were accepted: all of them, and those since the
cache was last evicted. -/
structure LogHistory (Date : Type) where
  storage : LogStorage Date
  accepted : List (List SignedEntry)
  sinceEviction : List (List SignedEntry)
  deriving DecidableEq

/-- A fetch that runs to its end, one that stops after some of its writes, and
the eviction of a file from the caches directory. -/
inductive LogEvent where
  | fetch (response : Response) (diskError : Option String)
  | stopped (response : Response) (diskError : Option String) (writesDone : Nat)
  | evictCache
  | evictLegacyWatermark

namespace LogHistory

variable (env : LogEnv Date)

/-- A log is accepted when it is written to the cache. -/
def write (h : LogHistory Date) : LogWrite Date → LogHistory Date
  | .cache data =>
    { storage := { h.storage with cache := some data }
      accepted := h.accepted ++ [env.parseLog data]
      sinceEviction := h.sinceEviction ++ [env.parseLog data] }
  | .watermark date => { h with storage := { h.storage with watermark := some date } }

variable [LinearOrder Date]

def exec (h : LogHistory Date) : LogEvent → LogHistory Date
  | .fetch response diskError =>
    (env.fetchAndCache response diskError h.storage).2.foldl (write env) h
  | .stopped response diskError writesDone =>
    ((env.fetchAndCache response diskError h.storage).2.take writesDone).foldl (write env) h
  | .evictCache => { h with storage := { h.storage with cache := none }, sinceEviction := [] }
  | .evictLegacyWatermark => { h with storage := { h.storage with legacyWatermark := none } }

/-- No stop falls between the cache write and the watermark write of a log whose
newest `signed_at` is not the watermark already. -/
def KeepsFloor (h : LogHistory Date) : LogEvent → Prop
  | .stopped response _ 1 => ∀ data, response.body = .ok data →
    ∀ newMax, env.maxSignedAt (env.parseLog data) = some newMax → h.storage.watermark = some newMax
  | _ => True

/-- The newest `signed_at` of the second log is not before that of the first. -/
def NoOlder (first second : List SignedEntry) : Prop :=
  ∃ m m', env.maxSignedAt first = some m ∧ env.maxSignedAt second = some m' ∧ m ≤ m'

/-- The second log has as many verified entries, and names every binary. -/
def NoSmaller (first second : List SignedEntry) : Prop :=
  env.verifiedCount first ≤ env.verifiedCount second ∧
    ∀ sha ∈ env.verifiedShas first, sha ∈ env.verifiedShas second

/-- What every event keeps. The cache holds the log accepted last, unless it was
evicted, and the stored watermark is a ceiling of all accepted logs. -/
structure Floored (h : LogHistory Date) : Prop where
  dates : h.accepted.Pairwise (NoOlder env)
  sizes : h.sinceEviction.Pairwise (NoSmaller env)
  cached : ∀ log ∈ h.sinceEviction, NoSmaller env log (env.loadCachedLog h.storage)
  ceiling : ∀ log ∈ h.accepted, ∃ m watermark, env.maxSignedAt log = some m ∧
    h.storage.watermark = some watermark ∧ m ≤ watermark

variable {env}

theorem pairwise_concat {α : Type} {R : α → α → Prop} {l : List α} {a : α} (h : l.Pairwise R)
    (hlast : ∀ b ∈ l, R b a) : (l ++ [a]).Pairwise R := by
  rw [List.pairwise_append]
  refine ⟨h, List.pairwise_singleton R a, fun b hb c hc => ?_⟩
  rw [List.mem_singleton.mp hc]
  exact hlast b hb

omit [LinearOrder Date] in
theorem NoSmaller.trans {a b c : List SignedEntry} (h : NoSmaller env a b)
    (h' : NoSmaller env b c) : NoSmaller env a c :=
  ⟨Nat.le_trans h.1 h'.1, fun sha hsha => h'.2 sha (h.2 sha hsha)⟩

/-- A log that passes the checks may be written, if its newest `signed_at`
becomes the watermark or is it already. -/
theorem Floored.accept {h : LogHistory Date} (hfloored : Floored env h) {data : Bytes}
    {newMax : Date} (haccepts : env.Accepts h.storage data newMax) :
    Floored env ⟨{ h.storage with cache := some data, watermark := some newMax },
      h.accepted ++ [env.parseLog data], h.sinceEviction ++ [env.parseLog data]⟩ := by
  have hsmaller : ∀ log ∈ h.sinceEviction, NoSmaller env log (env.parseLog data) := fun log hlog =>
    (hfloored.cached log hlog).trans ⟨haccepts.count, haccepts.shas⟩
  have hceiling : ∀ log ∈ h.accepted, ∃ m, env.maxSignedAt log = some m ∧ m ≤ newMax := by
    intro log hlog
    obtain ⟨m, watermark, hm, hwatermark, hle⟩ := hfloored.ceiling log hlog
    have hload : h.storage.loadWatermark = some watermark := by
      rw [LogStorage.loadWatermark, hwatermark]
    exact ⟨m, hm, hle.trans (haccepts.floor watermark hload)⟩
  refine ⟨pairwise_concat hfloored.dates fun log hlog => ?_, pairwise_concat hfloored.sizes hsmaller,
    fun log hlog => ?_, fun log hlog => ?_⟩
  · obtain ⟨m, hm, hle⟩ := hceiling log hlog
    exact ⟨m, newMax, hm, haccepts.newest, hle⟩
  · show NoSmaller env log (env.parseLog data)
    rcases List.mem_append.mp hlog with hlog | hlog
    · exact hsmaller log hlog
    · rw [List.mem_singleton.mp hlog]
      exact ⟨Nat.le_refl _, fun _ hsha => hsha⟩
  · rcases List.mem_append.mp hlog with hlog | hlog
    · obtain ⟨m, hm, hle⟩ := hceiling log hlog
      exact ⟨m, newMax, hm, rfl, hle⟩
    · rw [List.mem_singleton.mp hlog]
      exact ⟨newMax, newMax, haccepts.newest, rfl, le_refl _⟩

theorem Floored.exec {h : LogHistory Date} (hfloored : Floored env h) {event : LogEvent}
    (hkeeps : KeepsFloor env h event) : Floored env (h.exec env event) := by
  cases event with
  | fetch response diskError =>
    show Floored env ((env.fetchAndCache response diskError h.storage).2.foldl (write env) h)
    rcases env.fetchAndCache_cases response diskError h.storage with ⟨e, heq⟩ | ⟨data, newMax, _,
      haccepts, heq⟩
    · rw [heq]
      exact hfloored
    · rw [heq]
      exact hfloored.accept haccepts
  | stopped response diskError writesDone =>
    show Floored env
      (((env.fetchAndCache response diskError h.storage).2.take writesDone).foldl (write env) h)
    rcases env.fetchAndCache_cases response diskError h.storage with ⟨e, heq⟩ | ⟨data, newMax,
      hbody, haccepts, heq⟩
    · rw [heq, List.take_nil]
      exact hfloored
    · rw [heq]
      -- no write, the cache write alone, or both
      match writesDone, hkeeps with
      | 0, _ => exact hfloored
      | 1, hkeeps =>
        have hwatermark : h.storage.watermark = some newMax :=
          hkeeps data hbody newMax haccepts.newest
        have haccepted := hfloored.accept haccepts
        rw [← hwatermark] at haccepted
        exact haccepted
      | _ + 2, _ =>
        simp only [List.take_succ_cons, List.take_nil, List.foldl_cons, List.foldl_nil]
        exact hfloored.accept haccepts
  | evictCache =>
    refine ⟨hfloored.dates, List.Pairwise.nil, ?_, hfloored.ceiling⟩
    intro log hlog
    cases hlog
  | evictLegacyWatermark => exact ⟨hfloored.dates, hfloored.sizes, hfloored.cached, hfloored.ceiling⟩

/-- In every sequence of fetches, evictions and stops that keep the floor, the
newest `signed_at` of accepted logs does not decrease, between two evictions
accepted logs do not lose entries or binaries, and a fetch that throws leaves
cache and watermark as they were. -/
theorem log_floor_holds {h₀ h : LogHistory Date} (hnone : h₀.accepted = [])
    (hsince : h₀.sinceEviction = [])
    (hrun : Reach (fun h event h' => h' = h.exec env event) (KeepsFloor env) h₀ h) :
    h.accepted.Pairwise (NoOlder env) ∧ h.sinceEviction.Pairwise (NoSmaller env) ∧
      ∀ response diskError e, (env.fetchAndCache response diskError h.storage).1 = .error e →
        h.exec env (.fetch response diskError) = h := by
  have hstart : Floored env h₀ := by
    refine ⟨?_, ?_, fun log hlog => ?_, fun log hlog => ?_⟩
    · rw [hnone]
      exact List.Pairwise.nil
    · rw [hsince]
      exact List.Pairwise.nil
    · rw [hsince] at hlog
      cases hlog
    · rw [hnone] at hlog
      cases hlog
  have hfloored : Floored env h := hrun.invariant (Floored env)
    (fun hfloored hkeeps hstep => by rw [hstep]; exact hfloored.exec hkeeps) hstart
  refine ⟨hfloored.dates, hfloored.sizes, fun response diskError e herr => ?_⟩
  show (env.fetchAndCache response diskError h.storage).2.foldl (write env) h = h
  rcases env.fetchAndCache_cases response diskError h.storage with ⟨e', heq⟩ | ⟨data, newMax, _, _,
    heq⟩
  · rw [heq]
    rfl
  · rw [heq] at herr
    cases herr

/-! ## A log that goes back -/

/-- The entry of one binary, signed on a day of February. -/
def sampleEntry (signedAt : String) : SignedEntry := ⟨⟨"c0ffee", "ab12", 1, []⟩, signedAt, ""⟩

/-- Two lines are entries, and both verify. -/
def sampleLogEnv : LogEnv Nat where
  parseSignedEntry line :=
    if line = [1] then some (sampleEntry "2026-02-15T00:00:00Z")
    else if line = [2] then some (sampleEntry "2026-02-20T00:00:00Z")
    else none
  verify _ := .valid
  parseSignedAt text :=
    if text = "2026-02-15T00:00:00Z" then some 15
    else if text = "2026-02-20T00:00:00Z" then some 20
    else none
  lowercased text := text

/-- A first launch. -/
def freshLog : LogHistory Nat := ⟨⟨none, none, none⟩, [], []⟩

theorem log_floor_holds_for_newer_log :
    ((freshLog.exec sampleLogEnv (.fetch (.http 200 [1]) none)).exec sampleLogEnv
      (.fetch (.http 200 [2, 10]) none)).accepted.Pairwise (NoOlder sampleLogEnv) ∧
    ((freshLog.exec sampleLogEnv (.fetch (.http 200 [1]) none)).exec sampleLogEnv
      (.fetch (.http 200 [2, 10]) none)).accepted.length = 2 :=
  ⟨(log_floor_holds (show freshLog.accepted = [] from rfl) rfl
    ((Reach.refl.snoc rfl
        (show KeepsFloor sampleLogEnv freshLog (.fetch (.http 200 [1]) none) from trivial)).snoc rfl
      (show KeepsFloor sampleLogEnv (freshLog.exec sampleLogEnv (.fetch (.http 200 [1]) none))
        (.fetch (.http 200 [2, 10]) none) from trivial))).1, by decide +kernel⟩

/-- The process stops between the two writes of a log signed on the 20th. The
next fetch accepts a log signed on the 15th. -/
theorem log_floor_lost_between_writes :
    ((freshLog.exec sampleLogEnv (.stopped (.http 200 [2]) none 1)).exec sampleLogEnv
      (.fetch (.http 200 [1]) none)).accepted.map sampleLogEnv.maxSignedAt = [some 20, some 15] := by
  decide +kernel

end LogHistory

end Pizzini.App
