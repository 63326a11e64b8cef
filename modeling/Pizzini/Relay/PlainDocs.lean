import Pizzini.Relay.BundleReqRateStore
import Pizzini.Relay.PlainEnv
import Pizzini.Relay.PushTokenStore

/-!
# A concrete environment for document files

The cipher of `PlainEnv`, and a codec for documents that spells each row as one
of that module's records, given how a value is spelled as an entry.
-/

namespace Pizzini.Relay

open Wire

variable {W : Type}

/-- The codec of documents whose values are spelled by `entry`. -/
def plainDocSerde (entry : W → StoredEntry) (value : StoredEntry → W) : DocSerde W where
  toVec d := plainRecords (d.entries.map fun e => ⟨e.1, entry e.2⟩)
  fromSlice bs := do
    let rs ← takeRecords bs.length bs
    let entries : List (Sigma fun _ : Bytes => W) := rs.map fun r => ⟨r.key, value r.entry⟩
    if h : (entries.map Sigma.fst).Nodup then some ⟨entries, h⟩ else none

theorem plainDocSerde_lawful (entry : W → StoredEntry) (value : StoredEntry → W)
    (hvalue : ∀ w, value (entry w) = w) : (plainDocSerde entry value).Lawful where
  round := by
    intro d
    refine ⟨d, ?_, List.Perm.refl _⟩
    have hentries : ((d.entries.map fun e => (⟨e.1, entry e.2⟩ : JournalRecord)).map
        fun r => (⟨r.key, value r.entry⟩ : Sigma fun _ : Bytes => W)) = d.entries := by
      rw [List.map_map]
      refine (List.map_congr_left fun e _ => ?_).trans (List.map_id _)
      simp only [Function.comp_apply, hvalue]
      rfl
    simp only [plainDocSerde, takeRecords_plainRecords _ (length_le_plainRecords _),
      Option.bind_eq_bind, Option.bind_some, hentries]
    rw [dif_pos (show (d.entries.map Sigma.fst).Nodup from d.nodupKeys)]

/-- An entry that spells a text and a number. -/
def textEntry (text : Bytes) (n : UInt64) : StoredEntry where
  rootHex := text
  length := 0
  lastIndex := 0
  lastValueHex := []
  registeredUnix := n
  lastUsedUnix := 0

/-- A token as an entry, and back. -/
def tokenEntry (t : StoredToken) : StoredEntry := textEntry t.tokenHex t.lastRefreshedUnix
def entryToken (e : StoredEntry) : StoredToken := ⟨e.rootHex, e.registeredUnix⟩

/-- A counter as an entry, and back. -/
def countEntry (count : UInt32) : StoredEntry := textEntry [] count.toUInt64
def entryCount (e : StoredEntry) : UInt32 := e.registeredUnix.toUInt32

def plainTokenEnv : DocEnv StoredToken := ⟨plainCipher, plainDocSerde tokenEntry entryToken⟩

def plainCountEnv : DocEnv UInt32 := ⟨plainCipher, plainDocSerde countEntry entryCount⟩

theorem plainTokenEnv_lawful : plainTokenEnv.Lawful where
  cipher := plainCipher_lawful
  serde := plainDocSerde_lawful tokenEntry entryToken fun _ => rfl

theorem plainCountEnv_lawful : plainCountEnv.Lawful where
  cipher := plainCipher_lawful
  serde := plainDocSerde_lawful countEntry entryCount fun count => UInt32.toUInt32_toUInt64 count

end Pizzini.Relay
