import Pizzini.Relay.ChainValidatorStore

/-!
# A concrete environment for the chain-validator store

The store is modelled over any cipher and JSON codec that are lawful. This
module gives one such pair that computes: a cipher that appends a tag derived
from key and associated data and checks it, and a self-delimiting binary codec
for the two documents. `plainEnv_lawful` shows that the assumptions of the
development hold of it, so that its theorems can be used on concrete runs.
-/

namespace Pizzini.Relay

open Wire

/-! ## The cipher -/

/-- A tag that depends on the key and the associated data. -/
def plainTag (key : Key) (aad : Bytes) : Bytes :=
  (key.1.zipWith (· ^^^ ·) (aad.reverse ++ List.replicate KEY_LEN 0)).take TAG_LEN

/-- The message in the clear, behind which the tag stands. -/
def plainCipher : Cipher where
  encrypt key _ msg aad := msg ++ plainTag key aad
  decrypt key _ ct aad :=
    if ct.drop (ct.length - TAG_LEN) = plainTag key aad then some (ct.take (ct.length - TAG_LEN))
    else none

theorem length_plainTag (key : Key) (aad : Bytes) : (plainTag key aad).length = TAG_LEN := by
  have hkey : key.1.length = 32 := key.2
  simp only [plainTag, List.length_take, List.length_zipWith, List.length_append,
    List.length_replicate, hkey, KEY_LEN, TAG_LEN]
  omega

theorem plainCipher_lawful : plainCipher.Lawful where
  decrypt_iff := by
    intro key nonce ct msg aad
    have htag := length_plainTag key aad
    simp only [plainCipher]
    constructor
    · intro h
      split at h
      · next hdrop =>
        cases h
        rw [← hdrop, List.take_append_drop]
      · cases h
    · rintro rfl
      have hlen : (msg ++ plainTag key aad).length - TAG_LEN = msg.length := by
        rw [List.length_append, htag]
        omega
      rw [hlen, List.drop_left, if_pos rfl, List.take_left]
  length_encrypt := by
    intro key nonce msg aad
    show (msg ++ plainTag key aad).length = _
    rw [List.length_append, length_plainTag]

/-! ## The codec -/

/-- A byte string with a mark before each byte and a zero at its end. -/
def escape : Bytes → Bytes
  | [] => [0]
  | b :: bs => 1 :: b :: escape bs

/-- Read an escaped string off the front. -/
def unescape : Bytes → Option (Bytes × Bytes)
  | 0 :: rest => some ([], rest)
  | 1 :: b :: rest => (unescape rest).map fun r => (b :: r.1, r.2)
  | _ => none

theorem unescape_escape_append (bs rest : Bytes) :
    unescape (escape bs ++ rest) = some (bs, rest) := by
  induction bs with
  | nil => rfl
  | cons b bs ih =>
    show (unescape (escape bs ++ rest)).map _ = _
    rw [ih]
    rfl

theorem length_escape (bs : Bytes) : (escape bs).length = 2 * bs.length + 1 := by
  induction bs with
  | nil => rfl
  | cons b bs ih =>
    rw [escape, List.length_cons, List.length_cons, List.length_cons, ih]
    omega

/-- A journal record: its strings escaped, then its numbers. -/
def plainRecord (r : JournalRecord) : Bytes :=
  escape r.key ++ (escape r.entry.rootHex ++ (escape r.entry.lastValueHex ++
    (beBytes 4 r.entry.length.toNat ++ (beBytes 4 r.entry.lastIndex.toNat ++
      (beBytes 8 r.entry.registeredUnix.toNat ++ beBytes 8 r.entry.lastUsedUnix.toNat)))))

/-- Read a record off the front. -/
def takeRecord (bs : Bytes) : Option (JournalRecord × Bytes) := do
  let (key, bs) ← unescape bs
  let (rootHex, bs) ← unescape bs
  let (lastValueHex, bs) ← unescape bs
  let (length, bs) ← takeNat 4 bs
  let (lastIndex, bs) ← takeNat 4 bs
  let (registeredUnix, bs) ← takeNat 8 bs
  let (lastUsedUnix, bs) ← takeNat 8 bs
  return (⟨key,
    { rootHex, lastValueHex
      length := .ofNat length
      lastIndex := .ofNat lastIndex
      registeredUnix := .ofNat registeredUnix
      lastUsedUnix := .ofNat lastUsedUnix }⟩, bs)

theorem takeRecord_plainRecord_append (r : JournalRecord) (rest : Bytes) :
    takeRecord (plainRecord r ++ rest) = some (r, rest) := by
  have h4 : ∀ n : UInt32, n.toNat < 256 ^ 4 := fun n => n.toNat_lt
  have h8 : ∀ n : UInt64, n.toNat < 256 ^ 8 := fun n => n.toNat_lt
  simp [takeRecord, plainRecord, List.append_assoc, unescape_escape_append,
    takeNat_append (h4 _), takeNat_append (h8 _)]

/-- Read marked records until the end mark. -/
def takeRecords : Nat → Bytes → Option (List JournalRecord)
  | 0, _ => none
  | _ + 1, [0] => some []
  | fuel + 1, 1 :: bs => do
    let (r, bs) ← takeRecord bs
    let rs ← takeRecords fuel bs
    return r :: rs
  | _, _ => none

/-- A sequence of records, each marked, and an end mark. -/
def plainRecords (rs : List JournalRecord) : Bytes :=
  rs.foldr (fun r out => 1 :: plainRecord r ++ out) [0]

theorem takeRecords_plainRecords (rs : List JournalRecord) :
    ∀ {fuel : Nat}, rs.length < fuel → takeRecords fuel (plainRecords rs) = some rs := by
  induction rs with
  | nil =>
    intro fuel h
    obtain ⟨fuel, rfl⟩ : ∃ n, fuel = n + 1 := ⟨fuel - 1, by simp at h; omega⟩
    rfl
  | cons r rs ih =>
    intro fuel h
    rw [List.length_cons] at h
    obtain ⟨fuel, rfl⟩ : ∃ n, fuel = n + 1 := ⟨fuel - 1, by omega⟩
    show takeRecords (fuel + 1) (1 :: (plainRecord r ++ plainRecords rs)) = _
    have htail : takeRecords fuel (plainRecords rs) = some rs := ih (by omega)
    simp only [takeRecords, takeRecord_plainRecord_append, Option.bind_eq_bind, Option.bind_some,
      htail]
    rfl

theorem length_le_plainRecords (rs : List JournalRecord) : rs.length < (plainRecords rs).length := by
  induction rs with
  | nil => exact Nat.one_pos
  | cons r rs ih =>
    show _ < (1 :: (plainRecord r ++ plainRecords rs)).length
    rw [List.length_cons, List.length_cons, List.length_append]
    omega

/-- The codec of both documents. -/
def plainSerde : Serde where
  recordToVec := plainRecord
  recordFromSlice bs :=
    match takeRecord bs with
    | some (r, []) => some r
    | _ => none
  docToVec d := plainRecords (d.entries.entries.map fun e => ⟨e.1, e.2⟩)
  docFromSlice bs := do
    let rs ← takeRecords bs.length bs
    let entries : List (Sigma fun _ : Bytes => StoredEntry) := rs.map fun r => ⟨r.key, r.entry⟩
    if h : (entries.map Sigma.fst).Nodup then some ⟨⟨entries, h⟩⟩ else none

theorem plainSerde_lawful : plainSerde.Lawful where
  record_round := by
    intro r
    have h := takeRecord_plainRecord_append r []
    rw [List.append_nil] at h
    simp only [plainSerde, h]
  record_size := by
    intro r
    simp only [plainSerde, plainRecord, List.length_append, length_escape, length_beBytes]
    omega
  doc_round := by
    intro d
    refine ⟨d, ?_, List.Perm.refl _⟩
    have hentries : ((d.entries.entries.map fun e => (⟨e.1, e.2⟩ : JournalRecord)).map
        fun r => (⟨r.key, r.entry⟩ : Sigma fun _ : Bytes => StoredEntry)) = d.entries.entries := by
      rw [List.map_map]
      exact List.map_id _
    simp only [plainSerde, takeRecords_plainRecords _ (length_le_plainRecords _),
      Option.bind_eq_bind, Option.bind_some, hentries]
    rw [dif_pos (show (d.entries.entries.map Sigma.fst).Nodup from d.entries.nodupKeys)]

/-- The environment; its hash step adds one to each byte. -/
def plainEnv : ChainEnv where
  cipher := plainCipher
  serde := plainSerde
  blake3 v := ⟨v.1.map (· + 1), by rw [List.length_map]; exact v.2⟩

theorem plainEnv_lawful : plainEnv.Lawful where
  cipher := plainCipher_lawful
  serde := plainSerde_lawful

end Pizzini.Relay
