import Pizzini.Lib.Rows
import Pizzini.Relay.EncryptedFile

/-!
# Encrypted document files

The push tokens and the bundle-request counters are kept in the same kind of
file: one JSON object whose keys are text, encrypted under a key in a file
beside it. This module has what their stores share, the object's codec
(`DocSerde`), the file (`sealDoc`, `openDoc`), and the two files as they lie in
the state directory (`StoreFiles`).
-/

namespace Pizzini.Relay

open Wire

/-- `serde_json` at a document type: an object with records of type `W`. -/
structure DocSerde (W : Type) where
  toVec : Dict Bytes W → Bytes
  fromSlice : Bytes → Option (Dict Bytes W)

/-- A document round trips, its entries in any order. -/
structure DocSerde.Lawful {W : Type} (s : DocSerde W) : Prop where
  round : ∀ d, ∃ d', s.fromSlice (s.toVec d) = some d' ∧ d'.entries.Perm d.entries

/-- The surroundings of a store with such a file. -/
structure DocEnv (W : Type) where
  cipher : Cipher
  serde : DocSerde W

structure DocEnv.Lawful {W : Type} (env : DocEnv W) : Prop where
  cipher : env.cipher.Lawful
  serde : env.serde.Lawful

variable {W : Type} (env : DocEnv W)

/-- The bytes a `persist` writes. -/
def sealDoc (aad : Bytes) (key : Key) (nonce : Nonce) (doc : Dict Bytes W) : Bytes :=
  encryptWithAad env.cipher key nonce (env.serde.toVec doc) aad

/-- The document a `load_or_create` reads, with the fallback for files that
were written without associated data. -/
def openDoc (aad : Bytes) (key : Key) (bytes : Bytes) : Except IoError (Dict Bytes W) := do
  let plaintext ← match decryptWithAad env.cipher key bytes aad with
    | .ok p => .ok p
    | .error _ => decrypt env.cipher key bytes
  match env.serde.fromSlice plaintext with
  | some doc => .ok doc
  | none => .error .json

variable {env}

theorem openDoc_sealDoc (henv : env.Lawful) (aad : Bytes) (key : Key) (nonce : Nonce)
    (doc : Dict Bytes W) :
    ∃ doc', openDoc env aad key (sealDoc env aad key nonce doc) = .ok doc' ∧
      doc'.entries.Perm doc.entries := by
  obtain ⟨doc', hdoc, hperm⟩ := henv.serde.round doc
  refine ⟨doc', ?_, hperm⟩
  unfold openDoc sealDoc
  simp only [decryptWithAad_encryptWithAad henv.cipher]
  show (match env.serde.fromSlice (env.serde.toVec doc) with
    | some doc => Except.ok doc
    | none => .error IoError.json) = _
  rw [hdoc]

/-- A store's key file and data file; `none` is a missing file. -/
structure StoreFiles where
  keyFile : Option Bytes
  data : Option Bytes
  deriving DecidableEq, Repr

/-- A state directory nothing has been written to. -/
def StoreFiles.fresh : StoreFiles := ⟨none, none⟩

/-- `write_atomic` (encrypted_file.rs:163–187) replaces a file whole, or fails
before the rename and leaves it as it is. A write is the nonce it encrypts
under, or `none` if one of its steps fails. -/
abbrev Write := Option Nonce

end Pizzini.Relay
