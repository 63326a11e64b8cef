import Pizzini.Group.GroupApply

/-!
# A concrete environment for groups

`sampleEnv` instantiates the crypto core: the digest is a polynomial checksum of
the bytes, and a signature is a pair of digests over a context byte, the identity
and the message. Signatures made by `sampleSignature` verify, and the digests of
the runs built from them are distinct, which is all that those runs rely on.
-/

namespace Pizzini.Group

open Wire

/-- A 32-byte checksum. -/
def sampleDigest (bs : Bytes) : FixedBytes 32 :=
  ⟨beBytes 32 (bs.foldl (fun acc b => (acc * 257 + b.toNat + 1) % 2 ^ 256) 7),
    length_beBytes 32 _⟩

/-- The signature of `identity` under a context byte. -/
def sampleSignature (context : UInt8) (identity message : Bytes) : Bytes :=
  (sampleDigest (context :: (identity ++ message))).1 ++
    (sampleDigest (context :: (message ++ identity))).1

theorem length_sampleSignature (context : UInt8) (identity message : Bytes) :
    (sampleSignature context identity message).length = signatureSize := by
  rw [sampleSignature, List.length_append, (sampleDigest _).2, (sampleDigest _).2]
  rfl

/-- The environment of the sample runs. -/
def sampleEnv : GroupEnv where
  blake3 := sampleDigest
  verifyGroupOp := fun identity message signature =>
    signature = sampleSignature 1 identity message
  verifyGroupBootstrap := fun identity message signature =>
    signature = sampleSignature 2 identity message

/-- An op with the signature of its operator. -/
def sampleSigned (op : GroupOp) : GroupOp :=
  match op.encodedHeader with
  | .ok header => { op with signature := sampleSignature 1 op.operatorIdentity header }
  | .error _ => op

/-- An op that has a header can be signed: it encodes, and the signature verifies. -/
theorem sampleSigned_ok {op : GroupOp} {header : Bytes} (h : op.encodedHeader = .ok header) :
    (sampleSigned op).encoded = .ok (sampleSigned op).wire ∧
      (sampleSigned op).verifySignature sampleEnv = true := by
  obtain ⟨signature, hsig⟩ : ∃ s, s = sampleSignature 1 op.operatorIdentity header := ⟨_, rfl⟩
  have hsigned : sampleSigned op = { op with signature := signature } := by
    rw [sampleSigned, h, hsig]
  have hheader : (sampleSigned op).encodedHeader = .ok header := by
    rw [hsigned, GroupOp.encodedHeader_signature, h]
  have hlen : signature.length = signatureSize := by
    rw [hsig, length_sampleSignature]
  have hencoded : (sampleSigned op).encoded = .ok (header ++ signature) := by
    refine bind_eq_ok.mpr ⟨header, hheader, bind_eq_ok.mpr ⟨(), ?_, ?_⟩⟩
    · rw [require_eq_ok, hsigned]
      exact hlen
    · rw [hsigned]
      rfl
  constructor
  · rw [GroupOp.wire_eq hencoded]
    exact hencoded
  · rw [GroupOp.verifySignature, hheader, hsigned]
    exact decide_eq_true hsig

/-- The identity key made of one byte value. -/
def samplePeer (b : UInt8) : Bytes := List.replicate identityKeySize b

/-- The sample group's id. -/
def sampleGroupId : Bytes := List.replicate groupIdSize 7

/-- Peer 1 creates the sample group with peers `1, 2, …`. -/
def sampleCreate (peers : List UInt8) : GroupOp :=
  sampleSigned
    { groupId := sampleGroupId
      epoch := 0
      parentDigest := GroupOp.zeroParentDigest
      operatorIdentity := samplePeer 1
      timestampMillis := 1000
      priorMemberSetRoot := List.replicate memberSetRootSize 0
      kind := .create "trip" (peers.map fun b => ⟨samplePeer b, .member, ""⟩)
      signature := [] }

/-- Peer `operator`'s next op in a group. -/
def sampleNext (g : ChatGroup) (operator : UInt8) (kind : GroupOpKind) : GroupOp :=
  sampleSigned
    { groupId := g.id
      epoch := g.currentEpoch + 1
      parentDigest := g.lastOpDigest
      operatorIdentity := samplePeer operator
      timestampMillis := 2000
      priorMemberSetRoot := (g.memberSetRoot sampleEnv).getD []
      kind := kind
      signature := [] }

/-- The sample group of peers 1 and 2. -/
def sampleGroup : ChatGroup :=
  (ChatGroup.create sampleEnv (sampleCreate [1, 2]) (sampleCreate [1, 2]).wire).get
    (by decide +kernel)

/-- The group after a call of `apply`; the same group if the call traps. -/
def sampleApplied (op : GroupOp) (g : ChatGroup) : ChatGroup :=
  match ChatGroup.apply sampleEnv op g {} with
  | some r => r.2.1
  | none => g

/-- Peer 1 adds peer 3 to the sample group. -/
def sampleAdd : GroupOp := sampleNext sampleGroup 1 (.addMember (samplePeer 3) .member "carol")

/-- Peer 1 renames the group that has peer 3. -/
def sampleRename : GroupOp := sampleNext (sampleApplied sampleAdd sampleGroup) 1 (.rename "hike")

end Pizzini.Group
