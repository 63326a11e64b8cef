import Pizzini.Lib.Bytes

/-!
# `encrypted_file.rs`: the AEAD envelope and the hex helpers

The relay's stores keep their files as `[12-byte nonce ‖ ciphertext + tag]`
under a key in a sibling file (encrypted_file.rs:97–157), and spell binary
JSON fields in lower-case hex (encrypted_file.rs:245–276).

The cipher itself (ChaCha20-Poly1305) is a parameter, `Cipher`. What the code
relies on is `Cipher.Lawful`: decryption under a key, nonce and associated
data succeeds exactly on what encryption produced under them, and a
ciphertext is sixteen bytes longer than its plaintext. Rust strings that only
ever hold ASCII are modelled by their bytes.
-/

namespace Pizzini.Relay

open Wire

/-- The ways a store's file operations fail without the disk being at fault. -/
inductive IoError where
  /-- the key file is not `KEY_LEN` bytes -/
  | wrongKeyLength (kind : String) (len : Nat)
  /-- "encrypted file truncated before nonce" -/
  | truncatedBeforeNonce
  /-- "encrypted file failed to decrypt — wrong key file, or file tampered with" -/
  | failedToDecrypt
  /-- the plaintext is not the JSON document it should be -/
  | json
  /-- "journal record too large" -/
  | recordTooLarge
  deriving DecidableEq, Repr

/-- encrypted_file.rs:44 -/
def KEY_LEN : Nat := 32

/-- encrypted_file.rs:48 -/
def NONCE_LEN : Nat := 12

/-- ChaCha20-Poly1305's tag. -/
def TAG_LEN : Nat := 16

abbrev Key := FixedBytes KEY_LEN
abbrev Nonce := FixedBytes NONCE_LEN

/-- The AEAD primitive of the `chacha20poly1305` crate. -/
structure Cipher where
  encrypt (key : Key) (nonce msg aad : Bytes) : Bytes
  decrypt (key : Key) (nonce ct aad : Bytes) : Option Bytes

/-- Correctness, authenticity and size of the AEAD. -/
structure Cipher.Lawful (c : Cipher) : Prop where
  decrypt_iff : ∀ key nonce ct msg aad,
    c.decrypt key nonce ct aad = some msg ↔ ct = c.encrypt key nonce msg aad
  length_encrypt : ∀ key nonce msg aad,
    (c.encrypt key nonce msg aad).length = msg.length + TAG_LEN

variable (c : Cipher)

/-- `encrypt_with_aad` (encrypted_file.rs:102–121); the random nonce is drawn
by the caller of the model. -/
def encryptWithAad (key : Key) (nonce : Nonce) (plaintext aad : Bytes) : Bytes :=
  nonce.1 ++ c.encrypt key nonce.1 plaintext aad

/-- `decrypt_with_aad` (encrypted_file.rs:131–154). -/
def decryptWithAad (key : Key) (bytes aad : Bytes) : Except IoError Bytes :=
  if bytes.length < NONCE_LEN then .error .truncatedBeforeNonce
  else
    match c.decrypt key (bytes.take NONCE_LEN) (bytes.drop NONCE_LEN) aad with
    | some plaintext => .ok plaintext
    | none => .error .failedToDecrypt

/-- `decrypt` (encrypted_file.rs:127–129): the legacy form without associated data. -/
def decrypt (key : Key) (bytes : Bytes) : Except IoError Bytes :=
  decryptWithAad c key bytes []

/-- `load_or_create_key` (encrypted_file.rs:59–88): the key on disk, or the
freshly generated one. -/
def loadOrCreateKey (kind : String) (keyFile : Option Bytes) (fresh : Key) : Except IoError Key :=
  match keyFile with
  | some bytes =>
    if h : bytes.length = KEY_LEN then .ok ⟨bytes, h⟩
    else .error (.wrongKeyLength kind bytes.length)
  | none => .ok fresh

/-- A key file that is there is read. -/
theorem loadOrCreateKey_found (kind : String) (key fresh : Key) :
    loadOrCreateKey kind (some key.1) fresh = .ok key := by
  rw [loadOrCreateKey, dif_pos key.2]

variable {c}

theorem decryptWithAad_encryptWithAad (hc : c.Lawful) (key : Key) (nonce : Nonce)
    (plaintext aad : Bytes) :
    decryptWithAad c key (encryptWithAad c key nonce plaintext aad) aad = .ok plaintext := by
  have hlen : ¬ (encryptWithAad c key nonce plaintext aad).length < NONCE_LEN := by
    rw [encryptWithAad, List.length_append, nonce.2]
    omega
  have htake : (encryptWithAad c key nonce plaintext aad).take NONCE_LEN = nonce.1 :=
    List.take_left' nonce.2
  have hdrop : (encryptWithAad c key nonce plaintext aad).drop NONCE_LEN
      = c.encrypt key nonce.1 plaintext aad := List.drop_left' nonce.2
  rw [decryptWithAad, if_neg hlen, htake, hdrop, (hc.decrypt_iff _ _ _ _ _).mpr rfl]

theorem length_encryptWithAad (hc : c.Lawful) (key : Key) (nonce : Nonce)
    (plaintext aad : Bytes) :
    (encryptWithAad c key nonce plaintext aad).length = plaintext.length + 28 := by
  rw [encryptWithAad, List.length_append, nonce.2, hc.length_encrypt, NONCE_LEN, TAG_LEN]
  omega

/-! ## Cutoffs -/

/-- `u64::saturating_sub`. -/
def saturatingSub (a b : UInt64) : UInt64 := if a ≤ b then 0 else a - b

theorem toNat_saturatingSub (a b : UInt64) : (saturatingSub a b).toNat = a.toNat - b.toNat := by
  unfold saturatingSub
  split
  · next h =>
    have := UInt64.le_iff_toNat_le.mp h
    show 0 = a.toNat - b.toNat
    omega
  · next h =>
    rw [UInt64.le_iff_toNat_le] at h
    exact UInt64.toNat_sub_of_le _ _ (UInt64.le_iff_toNat_le.mpr (by omega))

theorem saturatingSub_mono {a a' : UInt64} (h : a ≤ a') (b : UInt64) :
    saturatingSub a b ≤ saturatingSub a' b := by
  rw [UInt64.le_iff_toNat_le] at h ⊢
  rw [toNat_saturatingSub, toNat_saturatingSub]
  exact Nat.sub_le_sub_right h _

theorem saturatingSub_le (a b : UInt64) : saturatingSub a b ≤ a := by
  rw [UInt64.le_iff_toNat_le, toNat_saturatingSub]
  exact Nat.sub_le _ _

/-! ## Hex -/

/-- One digit of `{b:02x}`. -/
def hexDigit (n : UInt8) : UInt8 := if n < 10 then 48 + n else 87 + n

/-- `hex_encode` (encrypted_file.rs:245–251). -/
def hexEncode (bytes : Bytes) : Bytes :=
  bytes.flatMap fun b => [hexDigit (b / 16), hexDigit (b % 16)]

/-- `hex_nibble` (encrypted_file.rs:266–273). -/
def hexNibble (ch : UInt8) : Option UInt8 :=
  if 48 ≤ ch ∧ ch ≤ 57 then some (ch - 48)
  else if 97 ≤ ch ∧ ch ≤ 102 then some (ch - 97 + 10)
  else if 65 ≤ ch ∧ ch ≤ 70 then some (ch - 65 + 10)
  else none

/-- `hex_decode` (encrypted_file.rs:253–264): an odd length is refused. -/
def hexDecode : Bytes → Option Bytes
  | [] => some []
  | [_] => none
  | hi :: lo :: rest => do
    let h ← hexNibble hi
    let l ← hexNibble lo
    let tail ← hexDecode rest
    return (h <<< 4 ||| l) :: tail

/-- Both digits of a byte read back as its nibbles, which make it up. -/
theorem hexNibble_digits (b : UInt8) :
    hexNibble (hexDigit (b / 16)) = some (b / 16) ∧
      hexNibble (hexDigit (b % 16)) = some (b % 16) ∧
      ((b / 16) <<< 4 ||| (b % 16)) = b := by
  revert b
  exact forall_byte (by decide +kernel)

theorem hexDecode_hexEncode (bytes : Bytes) : hexDecode (hexEncode bytes) = some bytes := by
  induction bytes with
  | nil => rfl
  | cons b rest ih =>
    obtain ⟨hhi, hlo, hbyte⟩ := hexNibble_digits b
    show hexDecode (hexDigit (b / 16) :: hexDigit (b % 16) :: hexEncode rest) = some (b :: rest)
    rw [hexDecode, hhi, hlo, ih]
    show some (((b / 16) <<< 4 ||| (b % 16)) :: rest) = some (b :: rest)
    rw [hbyte]

theorem hexEncode_injective : Function.Injective hexEncode := fun bytes bytes' h => by
  have hdec := hexDecode_hexEncode bytes
  rw [h, hexDecode_hexEncode] at hdec
  exact (Option.some.inj hdec).symm

theorem length_hexEncode (bytes : Bytes) : (hexEncode bytes).length = 2 * bytes.length := by
  induction bytes with
  | nil => rfl
  | cons b rest ih =>
    show (hexDigit (b / 16) :: hexDigit (b % 16) :: hexEncode rest).length = _
    rw [List.length_cons, List.length_cons, List.length_cons, ih]
    omega

/-- Hex never contains the separator of composite keys. -/
theorem colon_notMem_hexEncode (bytes : Bytes) : (58 : UInt8) ∉ hexEncode bytes := by
  have hdigit : ∀ n : UInt8, hexDigit (n / 16) ≠ 58 ∧ hexDigit (n % 16) ≠ 58 :=
    forall_byte (by decide +kernel)
  intro hmem
  obtain ⟨b, _, hb⟩ := List.mem_flatMap.mp hmem
  simp only [List.mem_cons, List.not_mem_nil, or_false] at hb
  obtain hb | hb := hb
  · exact (hdigit b).1 hb.symm
  · exact (hdigit b).2 hb.symm

end Pizzini.Relay
