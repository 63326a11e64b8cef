import Mathlib.Tactic.SplitIfs
import Pizzini.Group.ChatGroup

/-!
# Signed group ops (`pizzini/pizzini/GroupOp.swift`)

The seven op kinds, the wire format of a signed op and its reader.

- `GroupOp.encoded` is the signed wire form: a header (the bytes under the
  signature) and the signature. It throws, with the source's texts, when a field
  has the wrong size.
- `GroupOp.decode` reads the wire form; what an op encodes to is read back as
  that op (`GroupOp.decode_encoded`). The queue of parked ops rests on this: it
  keeps bytes and decodes them again for every attempt.
- `GroupOp.decode_sizes`: a decoded op has all field sizes right.
-/

namespace Pizzini.Group

open Wire

/-- `GroupOpError`. -/
inductive GroupOpError where
  | malformed (reason : String)
deriving DecidableEq

/-- `guard c else { throw GroupOpError.malformed(reason) }`. -/
def require (c : Prop) [Decidable c] (reason : String) : Except GroupOpError Unit :=
  if c then .ok () else .error (.malformed reason)

@[simp] theorem require_eq_ok {c : Prop} [Decidable c] {reason : String} {u : Unit} :
    require c reason = .ok u ↔ c := by
  rw [require]
  split <;> simp [*]

/-- Putting one step in front of a reader that may fail. -/
theorem bind_eq_some {α β : Type} {x : Option α} {f : α → Option β} {a : α} {b : β}
    (hx : x = some a) (hf : f a = some b) : (x >>= f) = some b :=
  Option.bind_eq_some_iff.mpr ⟨a, hx, hf⟩

/-- `writeUTF8U16LenBlob` (`GroupOp.swift:422`). -/
def writeUTF8U16LenBlob (s : String) : Except GroupOpError Bytes := do
  require ((utf8 s).length ≤ 65535) "string exceeds 65535 UTF-8 bytes"
  return textBytes s

theorem writeUTF8U16LenBlob_eq_ok {s : String} {bs : Bytes}
    (h : writeUTF8U16LenBlob s = .ok bs) : (utf8 s).length ≤ 65535 ∧ bs = textBytes s := by
  obtain ⟨_, hlen, heq⟩ := bind_eq_ok.mp h
  rw [require_eq_ok] at hlen
  cases heq
  exact ⟨hlen, rfl⟩

/-- A text that was written is read back. -/
theorem takeText_written {s : String} {bs : Bytes} (h : writeUTF8U16LenBlob s = .ok bs)
    (rest : Bytes) : takeText (bs ++ rest) = some (s, rest) := by
  obtain ⟨hlen, rfl⟩ := writeUTF8U16LenBlob_eq_ok h
  exact takeText_append (by omega) rest

theorem length_written {s : String} {bs : Bytes} (h : writeUTF8U16LenBlob s = .ok bs) :
    bs.length ≤ 65537 := by
  obtain ⟨hlen, rfl⟩ := writeUTF8U16LenBlob_eq_ok h
  rw [textBytes, List.length_append, length_beBytes]
  omega

/-! ## Op kinds -/

/-- `GroupOpInitialMember`. -/
structure GroupOpInitialMember where
  peerId : Bytes
  role : GroupRole
  displayName : String
deriving DecidableEq

/-- `GroupOpKind`. -/
inductive GroupOpKind where
  | create (name : String) (initialMembers : List GroupOpInitialMember)
  | addMember (peerId : Bytes) (role : GroupRole) (displayName : String)
  | removeMember (peerId : Bytes)
  | rename (newName : String)
  | promoteAdmin (peerId : Bytes)
  | demoteAdmin (peerId : Bytes)
  | rotateSenderKey (newDistributionId : UUID)
deriving DecidableEq

/-- One initial member on the wire. -/
def GroupOpInitialMember.encoded (m : GroupOpInitialMember) : Except GroupOpError Bytes := do
  require (m.peerId.length = identityKeySize) "member peerId must be 33 bytes"
  let name ← writeUTF8U16LenBlob m.displayName
  return m.peerId ++ m.role.wireByte :: name

/-- Read one initial member. -/
def GroupOpInitialMember.take (bs : Bytes) : Option (GroupOpInitialMember × Bytes) := do
  let (peerId, bs) ← takeBytes identityKeySize bs
  let (roleByte, bs) ← takeByte bs
  let role ← GroupRole.ofWireByte roleByte
  let (display, bs) ← takeText bs
  return (⟨peerId, role, display⟩, bs)

namespace GroupOpKind

/-- `kindByte` (`GroupOp.swift:262`). -/
def kindByte : GroupOpKind → UInt8
  | create .. => 0x01
  | addMember .. => 0x02
  | removeMember .. => 0x03
  | rename .. => 0x04
  | promoteAdmin .. => 0x05
  | demoteAdmin .. => 0x06
  | rotateSenderKey .. => 0x07

/-- The payload of the three kinds that name one peer. -/
def peerPayload (peerId : Bytes) : Except GroupOpError Bytes := do
  require (peerId.length = identityKeySize) "peerId must be 33 bytes"
  return peerId

/-- `encodedPayload()` (`GroupOp.swift:274`). -/
def encodedPayload : GroupOpKind → Except GroupOpError Bytes
  | create name initialMembers => do
    let nameBytes ← writeUTF8U16LenBlob name
    require (initialMembers.length ≤ maxMembers) "Create exceeds maxMembers (50)"
    let rows ← initialMembers.mapM GroupOpInitialMember.encoded
    return nameBytes ++ UInt8.ofNat initialMembers.length :: rows.flatten
  | addMember peerId role displayName => do
    require (peerId.length = identityKeySize) "peerId must be 33 bytes"
    let nameBytes ← writeUTF8U16LenBlob displayName
    return peerId ++ role.wireByte :: nameBytes
  | removeMember peerId => peerPayload peerId
  | promoteAdmin peerId => peerPayload peerId
  | demoteAdmin peerId => peerPayload peerId
  | rename newName => writeUTF8U16LenBlob newName
  | rotateSenderKey newDistributionId => .ok newDistributionId.1

/-- The reader of the three kinds that name one peer. -/
def decodePeer (payload : Bytes) : Option Bytes := do
  let (peerId, bs) ← takeBytes identityKeySize payload
  guard (bs = [])
  return peerId

/-- `GroupOpKind.decode(kindByte:payload:)` (`GroupOp.swift:313`). -/
def decode (kindByte : UInt8) (payload : Bytes) : Option GroupOpKind :=
  match kindByte with
  | 0x01 => do
    let (name, bs) ← takeText payload
    let (count, bs) ← takeByte bs
    guard (count.toNat ≤ maxMembers)
    let (initialMembers, bs) ← takeMany GroupOpInitialMember.take count.toNat bs
    guard (bs = [])
    return create name initialMembers
  | 0x02 => do
    let (peerId, bs) ← takeBytes identityKeySize payload
    let (roleByte, bs) ← takeByte bs
    let role ← GroupRole.ofWireByte roleByte
    let (display, bs) ← takeText bs
    guard (bs = [])
    return addMember peerId role display
  | 0x03 => (decodePeer payload).map removeMember
  | 0x04 => do
    let (name, bs) ← takeText payload
    guard (bs = [])
    return rename name
  | 0x05 => (decodePeer payload).map promoteAdmin
  | 0x06 => (decodePeer payload).map demoteAdmin
  | 0x07 =>
    -- `c.read(16)` and `c.isExhausted` together
    if h : payload.length = distributionIdSize then some (rotateSenderKey ⟨payload, h⟩) else none
  | _ => none

theorem decodePeer_peerPayload {peerId payload : Bytes} (h : peerPayload peerId = .ok payload) :
    payload.length = identityKeySize ∧ decodePeer payload = some peerId := by
  obtain ⟨_, hlen, heq⟩ := bind_eq_ok.mp h
  rw [require_eq_ok] at hlen
  cases heq
  have htake := takeBytes_append hlen []
  rw [List.append_nil] at htake
  refine ⟨hlen, ?_⟩
  rw [decodePeer, htake]
  rfl

theorem takeMember_encoded {m : GroupOpInitialMember} {bs : Bytes} (h : m.encoded = .ok bs)
    (rest : Bytes) : GroupOpInitialMember.take (bs ++ rest) = some (m, rest) := by
  obtain ⟨_, hlen, h⟩ := bind_eq_ok.mp h
  obtain ⟨name, hname, heq⟩ := bind_eq_ok.mp h
  rw [require_eq_ok] at hlen
  cases heq
  rw [GroupOpInitialMember.take, List.append_assoc, takeBytes_append hlen]
  simp [takeText_written hname]

theorem length_memberEncoded {m : GroupOpInitialMember} {bs : Bytes} (h : m.encoded = .ok bs) :
    bs.length ≤ 65571 := by
  obtain ⟨_, hlen, h⟩ := bind_eq_ok.mp h
  obtain ⟨name, hname, heq⟩ := bind_eq_ok.mp h
  rw [require_eq_ok] at hlen
  cases heq
  have hlt := length_written hname
  rw [List.length_append, List.length_cons, hlen, identityKeySize]
  omega

theorem mapM_eq_ok {ε α β : Type} {f : α → Except ε β} :
    ∀ {as : List α} {bs : List β}, as.mapM f = .ok bs → List.Forall₂ (fun a b => f a = .ok b) as bs
  | [], bs, h => by
    rw [List.mapM_nil] at h
    cases h
    exact .nil
  | a :: as, bs, h => by
    rw [List.mapM_cons] at h
    obtain ⟨b, hb, h⟩ := bind_eq_ok.mp h
    obtain ⟨bs', hbs, heq⟩ := bind_eq_ok.mp h
    cases heq
    exact .cons hb (mapM_eq_ok hbs)

theorem length_rows_le {ms : List GroupOpInitialMember} {rows : List Bytes}
    (h : List.Forall₂ (fun m bs => m.encoded = .ok bs) ms rows) :
    rows.flatten.length ≤ ms.length * 65571 := by
  induction h with
  | nil => simp
  | cons hm _ ih =>
    have hlt := length_memberEncoded hm
    rw [List.flatten_cons, List.length_append, List.length_cons]
    omega

/-- A payload always fits its `u32` length: the conversion in `encodedHeader`
cannot trap. -/
theorem length_encodedPayload {k : GroupOpKind} {payload : Bytes}
    (h : k.encodedPayload = .ok payload) : payload.length < 256 ^ 4 := by
  cases k with
  | create name ms =>
    obtain ⟨nameBytes, hname, h⟩ := bind_eq_ok.mp h
    obtain ⟨_, hcount, h⟩ := bind_eq_ok.mp h
    obtain ⟨rows, hrows, heq⟩ := bind_eq_ok.mp h
    rw [require_eq_ok, maxMembers] at hcount
    cases heq
    have hname := length_written hname
    have hrows := length_rows_le (mapM_eq_ok hrows)
    rw [List.length_append, List.length_cons]
    omega
  | addMember peerId role displayName =>
    obtain ⟨_, hlen, h⟩ := bind_eq_ok.mp h
    obtain ⟨name, hname, heq⟩ := bind_eq_ok.mp h
    rw [require_eq_ok, identityKeySize] at hlen
    cases heq
    have hname := length_written hname
    rw [List.length_append, List.length_cons]
    omega
  | rename newName =>
    have hname := length_written h
    omega
  | rotateSenderKey dist =>
    cases h
    rw [dist.2]
    decide
  | removeMember peerId | promoteAdmin peerId | demoteAdmin peerId =>
    rw [(decodePeer_peerPayload h).1]
    decide

/-- What a kind encodes to is read back as that kind. -/
theorem decode_encodedPayload {k : GroupOpKind} {payload : Bytes}
    (h : k.encodedPayload = .ok payload) : decode k.kindByte payload = some k := by
  cases k with
  | create name ms =>
    obtain ⟨nameBytes, hname, h⟩ := bind_eq_ok.mp h
    obtain ⟨_, hcount, h⟩ := bind_eq_ok.mp h
    obtain ⟨rows, hrows, heq⟩ := bind_eq_ok.mp h
    rw [require_eq_ok] at hcount
    cases heq
    have hcount' : (UInt8.ofNat ms.length).toNat = ms.length := by
      rw [maxMembers] at hcount
      rw [UInt8.toNat_ofNat']
      omega
    have hmany := takeMany_append
      ((mapM_eq_ok hrows).imp fun m bs hm => takeMember_encoded hm) []
    rw [List.append_nil] at hmany
    simp [decode, kindByte, takeText_written hname, hcount', hcount, hmany, guard]
  | addMember peerId role displayName =>
    obtain ⟨_, hlen, h⟩ := bind_eq_ok.mp h
    obtain ⟨name, hname, heq⟩ := bind_eq_ok.mp h
    rw [require_eq_ok] at hlen
    cases heq
    have hread := takeText_written hname []
    rw [List.append_nil] at hread
    simp [decode, kindByte, takeBytes_append hlen, hread, guard]
  | rename newName =>
    have hread := takeText_written h []
    rw [List.append_nil] at hread
    simp [decode, kindByte, hread, guard]
  | rotateSenderKey dist =>
    cases h
    exact dif_pos dist.2
  | removeMember peerId | promoteAdmin peerId | demoteAdmin peerId =>
    simp [decode, kindByte, (decodePeer_peerPayload h).2]

/-- A decoded initial member has a whole identity key. -/
theorem takeMember_size {bs rest : Bytes} {m : GroupOpInitialMember}
    (h : GroupOpInitialMember.take bs = some (m, rest)) : m.peerId.length = identityKeySize := by
  simp only [GroupOpInitialMember.take, Option.bind_eq_bind, Option.bind_eq_some_iff,
    Option.pure_def, Option.some.injEq, Prod.mk.injEq, Prod.exists] at h
  obtain ⟨peerId, _, htake, _, _, _, _, _, _, _, _, rfl, _⟩ := h
  exact takeBytes_length htake

theorem decode_create_sizes {kindByte : UInt8} {payload : Bytes} {name : String}
    {ms : List GroupOpInitialMember} (h : decode kindByte payload = some (create name ms)) :
    ∀ m ∈ ms, m.peerId.length = identityKeySize := by
  unfold decode at h
  split at h
  case h_1 =>
    simp only [Option.bind_eq_bind, Option.bind_eq_some_iff, Option.pure_def, Option.some.injEq,
      Prod.exists] at h
    obtain ⟨_, _, _, _, _, _, _, _, initialMembers, _, hmany, _, _, heq⟩ := h
    cases heq
    exact takeMany_forall takeMember_size hmany
  -- no other kind byte yields a `create`
  all_goals simp [Option.bind_eq_some_iff] at h

end GroupOpKind

/-! ## Signed ops -/

/-- `GroupOp` (`GroupOp.swift:84`). -/
structure GroupOp where
  groupId : Bytes
  epoch : UInt64
  parentDigest : Bytes
  operatorIdentity : Bytes
  timestampMillis : UInt64
  priorMemberSetRoot : Bytes
  kind : GroupOpKind
  signature : Bytes
deriving DecidableEq

namespace GroupOp

/-- `GroupOp.opVersion`. -/
def opVersion : UInt8 := 2

/-- `GroupOp.zeroParentDigest`. -/
def zeroParentDigest : Bytes := List.replicate parentDigestSize 0

/-- `encodedHeader()` (`GroupOp.swift:154`): the bytes under the signature. -/
def encodedHeader (op : GroupOp) : Except GroupOpError Bytes := do
  require (op.groupId.length = groupIdSize) "groupId must be 16 bytes"
  require (op.parentDigest.length = parentDigestSize) "parentDigest must be 32 bytes"
  require (op.operatorIdentity.length = identityKeySize) "operatorIdentity must be 33 bytes"
  require (op.priorMemberSetRoot.length = memberSetRootSize) "priorMemberSetRoot must be 32 bytes"
  let payload ← op.kind.encodedPayload
  return opVersion :: (op.groupId ++ (u64Bytes op.epoch ++ (op.parentDigest ++
    (op.operatorIdentity ++ (u64Bytes op.timestampMillis ++ (op.priorMemberSetRoot ++
      op.kind.kindByte :: (beBytes 4 payload.length ++ payload)))))))

/-- The signature is not under itself. -/
theorem encodedHeader_signature (op : GroupOp) (signature : Bytes) :
    encodedHeader { op with signature := signature } = op.encodedHeader := rfl

/-- `encoded()` (`GroupOp.swift:142`): the signed wire bytes. -/
def encoded (op : GroupOp) : Except GroupOpError Bytes := do
  let out ← op.encodedHeader
  require (op.signature.length = signatureSize) "signature must be 64 bytes"
  return out ++ op.signature

/-- `try? op.verifySignature()` yields `true` (`GroupOp.swift:131`). -/
def verifySignature (env : GroupEnv) (op : GroupOp) : Bool :=
  match op.encodedHeader with
  | .ok header => env.verifyGroupOp op.operatorIdentity header op.signature
  | .error _ => false

/-- `GroupOp.decode(_:)` (`GroupOp.swift:208`). -/
def decode (bytes : Bytes) : Option GroupOp := do
  let (version, bs) ← takeByte bytes
  guard (version = opVersion)
  let (groupId, bs) ← takeBytes groupIdSize bs
  let (epoch, bs) ← takeU64 bs
  let (parentDigest, bs) ← takeBytes parentDigestSize bs
  let (operatorIdentity, bs) ← takeBytes identityKeySize bs
  let (timestampMillis, bs) ← takeU64 bs
  let (priorMemberSetRoot, bs) ← takeBytes memberSetRootSize bs
  let (kindByte, bs) ← takeByte bs
  let (payloadLen, bs) ← takeNat 4 bs
  let (payload, bs) ← takeBytes payloadLen bs
  let kind ← GroupOpKind.decode kindByte payload
  let (signature, bs) ← takeBytes signatureSize bs
  guard (bs = [])
  return ⟨groupId, epoch, parentDigest, operatorIdentity, timestampMillis, priorMemberSetRoot,
    kind, signature⟩

/-- An op is read back from its wire bytes. -/
theorem decode_encoded {op : GroupOp} {bytes : Bytes} (h : op.encoded = .ok bytes) :
    decode bytes = some op := by
  obtain ⟨header, hheader, h⟩ := bind_eq_ok.mp h
  obtain ⟨_, hsig, heq⟩ := bind_eq_ok.mp h
  obtain ⟨_, hgid, h⟩ := bind_eq_ok.mp hheader
  obtain ⟨_, hparent, h⟩ := bind_eq_ok.mp h
  obtain ⟨_, hoperator, h⟩ := bind_eq_ok.mp h
  obtain ⟨_, hroot, h⟩ := bind_eq_ok.mp h
  obtain ⟨payload, hpayload, hheq⟩ := bind_eq_ok.mp h
  rw [require_eq_ok] at hsig hgid hparent hoperator hroot
  cases heq
  cases hheq
  have hread := takeBytes_append hsig []
  rw [List.append_nil] at hread
  simp only [List.cons_append, List.append_assoc]
  refine bind_eq_some (takeByte_cons _ _) ?_
  refine bind_eq_some rfl ?_
  refine bind_eq_some (takeBytes_append hgid _) ?_
  refine bind_eq_some (takeU64_append _ _) ?_
  refine bind_eq_some (takeBytes_append hparent _) ?_
  refine bind_eq_some (takeBytes_append hoperator _) ?_
  refine bind_eq_some (takeU64_append _ _) ?_
  refine bind_eq_some (takeBytes_append hroot _) ?_
  refine bind_eq_some (takeByte_cons _ _) ?_
  refine bind_eq_some (takeNat_append (GroupOpKind.length_encodedPayload hpayload) _) ?_
  refine bind_eq_some (takeBytes_append rfl _) ?_
  refine bind_eq_some (GroupOpKind.decode_encodedPayload hpayload) ?_
  refine bind_eq_some hread ?_
  exact bind_eq_some rfl rfl

/-- A decoded op has the field sizes that the member table relies on. -/
theorem decode_sizes {bytes : Bytes} {op : GroupOp} (h : decode bytes = some op) :
    op.operatorIdentity.length = identityKeySize ∧
      ∀ {name ms}, op.kind = .create name ms → ∀ m ∈ ms, m.peerId.length = identityKeySize := by
  obtain ⟨_, _, h⟩ := Option.bind_eq_some_iff.mp h
  obtain ⟨_, _, h⟩ := Option.bind_eq_some_iff.mp h
  obtain ⟨_, _, h⟩ := Option.bind_eq_some_iff.mp h
  obtain ⟨_, _, h⟩ := Option.bind_eq_some_iff.mp h
  obtain ⟨_, _, h⟩ := Option.bind_eq_some_iff.mp h
  obtain ⟨_, hoperator, h⟩ := Option.bind_eq_some_iff.mp h
  obtain ⟨_, _, h⟩ := Option.bind_eq_some_iff.mp h
  obtain ⟨_, _, h⟩ := Option.bind_eq_some_iff.mp h
  obtain ⟨_, _, h⟩ := Option.bind_eq_some_iff.mp h
  obtain ⟨_, _, h⟩ := Option.bind_eq_some_iff.mp h
  obtain ⟨_, _, h⟩ := Option.bind_eq_some_iff.mp h
  obtain ⟨_, hkind, h⟩ := Option.bind_eq_some_iff.mp h
  obtain ⟨_, _, h⟩ := Option.bind_eq_some_iff.mp h
  obtain ⟨_, _, h⟩ := Option.bind_eq_some_iff.mp h
  cases h
  refine ⟨takeBytes_length hoperator, fun hcreate => ?_⟩
  exact GroupOpKind.decode_create_sizes (hkind.trans (congrArg some hcreate))

/-- The signed wire bytes; empty if the op does not encode. -/
def wire (op : GroupOp) : Bytes :=
  match op.encoded with
  | .ok bytes => bytes
  | .error _ => []

theorem wire_eq {op : GroupOp} {bytes : Bytes} (h : op.encoded = .ok bytes) : op.wire = bytes := by
  rw [wire, h]

theorem encoded_of_isOk {op : GroupOp} (h : op.encoded.isOk = true) :
    op.encoded = .ok op.wire := by
  rw [wire]
  cases hencoded : op.encoded with
  | ok bytes => rfl
  | error e =>
    rw [hencoded] at h
    cases h

/-- The wire bytes determine the op. -/
theorem encoded_inj {op op' : GroupOp} {bytes : Bytes} (h : op.encoded = .ok bytes)
    (h' : op'.encoded = .ok bytes) : op = op' :=
  Option.some.inj ((decode_encoded h).symm.trans (decode_encoded h'))

end GroupOp

end Pizzini.Group
