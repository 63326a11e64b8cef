import Pizzini.Group.GroupBootstrap

/-!
# One encoding for every op and snapshot

`GroupOp.decode` and `GroupBootstrap.decode` read what `encoded` writes
(`decode_encoded`). Here is the other direction: whatever bytes they accept are
the ones that the value they return encodes to. So `encoded` and `decode` are
inverse to each other (`codecs_exact`), no two byte strings stand for one op,
and the digest that names an op in the hash chain names its bytes.

The proofs follow the readers field by field, with the `_eq_some` lemmas of the
field readers.
-/

namespace Pizzini.Group

open Wire

/-! ## Bytes for roles, statuses and texts -/

theorem guard_eq_some {c : Prop} [Decidable c] {u : Unit} (h : (guard c : Option Unit) = some u) :
    c := by
  by_contra hc
  rw [guard, if_neg hc] at h
  cases h

theorem GroupRole.ofWireByte_eq_some {b : UInt8} {r : GroupRole} (h : ofWireByte b = some r) :
    b = r.wireByte := by
  unfold ofWireByte at h
  split at h
  next hb =>
    cases h
    exact hb
  split at h
  next hb =>
    cases h
    exact hb
  · cases h

theorem MemberStatus.ofWireByte_eq_some {b : UInt8} {s : MemberStatus}
    (h : ofWireByte b = some s) : b = s.wireByte := by
  unfold ofWireByte at h
  split at h
  next hb =>
    cases h
    exact hb
  split at h
  next hb =>
    cases h
    exact hb
  split at h
  next hb =>
    cases h
    exact hb
  · cases h

/-- A text that was read can be written, and to the bytes it was read from. -/
theorem written_of_takeText {s : String} {bs rest : Bytes} (h : takeText bs = some (s, rest)) :
    ∃ front, writeUTF8U16LenBlob s = .ok front ∧ bs = front ++ rest := by
  obtain ⟨hbs, hlt⟩ := takeText_eq_some h
  have hfits : (utf8 s).length ≤ 65535 := Nat.le_of_lt_succ hlt
  exact ⟨textBytes s, bind_eq_ok.mpr ⟨(), require_eq_ok.mpr hfits, rfl⟩, hbs⟩

theorem mapM_of_forall₂ {ε α β : Type} {f : α → Except ε β} {as : List α} {bs : List β}
    (h : List.Forall₂ (fun a b => f a = .ok b) as bs) : as.mapM f = .ok bs := by
  induction h with
  | nil => rfl
  | cons ha _ ih =>
    rw [List.mapM_cons]
    exact bind_eq_ok.mpr ⟨_, ha, bind_eq_ok.mpr ⟨_, ih, rfl⟩⟩

/-! ## Ops -/

theorem encoded_of_takeMember {m : GroupOpInitialMember} {bs rest : Bytes}
    (h : GroupOpInitialMember.take bs = some (m, rest)) :
    ∃ front, m.encoded = .ok front ∧ bs = front ++ rest := by
  obtain ⟨⟨peerId, _⟩, hpeer, h⟩ := Option.bind_eq_some_iff.mp h
  obtain ⟨⟨roleByte, _⟩, hbyte, h⟩ := Option.bind_eq_some_iff.mp h
  obtain ⟨role, hrole, h⟩ := Option.bind_eq_some_iff.mp h
  obtain ⟨⟨display, _⟩, hname, h⟩ := Option.bind_eq_some_iff.mp h
  cases h
  obtain ⟨name, hwritten, hrest⟩ := written_of_takeText hname
  refine ⟨peerId ++ role.wireByte :: name, ?_, ?_⟩
  · refine bind_eq_ok.mpr ⟨(), require_eq_ok.mpr (takeBytes_length hpeer), ?_⟩
    exact bind_eq_ok.mpr ⟨name, hwritten, rfl⟩
  · rw [takeBytes_eq_some hpeer, takeByte_eq_some hbyte, GroupRole.ofWireByte_eq_some hrole, hrest,
      List.append_assoc, List.cons_append]

namespace GroupOpKind

theorem peerPayload_of_decodePeer {peerId payload : Bytes} (h : decodePeer payload = some peerId) :
    peerPayload peerId = .ok payload := by
  obtain ⟨⟨_, rest⟩, hpeer, h⟩ := Option.bind_eq_some_iff.mp h
  obtain ⟨_, hend, h⟩ := Option.bind_eq_some_iff.mp h
  cases h
  have hend : rest = [] := guard_eq_some hend
  rw [takeBytes_eq_some hpeer, hend, List.append_nil]
  exact bind_eq_ok.mpr ⟨(), require_eq_ok.mpr (takeBytes_length hpeer), rfl⟩

/-- A payload that is accepted for a kind byte is the payload of the kind read. -/
theorem encodedPayload_of_decode {kindByte : UInt8} {payload : Bytes} {k : GroupOpKind}
    (h : decode kindByte payload = some k) :
    k.kindByte = kindByte ∧ k.encodedPayload = .ok payload := by
  unfold decode at h
  split at h
  · obtain ⟨⟨name, _⟩, hname, h⟩ := Option.bind_eq_some_iff.mp h
    obtain ⟨⟨count, _⟩, hbyte, h⟩ := Option.bind_eq_some_iff.mp h
    obtain ⟨_, hcount, h⟩ := Option.bind_eq_some_iff.mp h
    obtain ⟨⟨members, rest⟩, hmany, h⟩ := Option.bind_eq_some_iff.mp h
    obtain ⟨_, hend, h⟩ := Option.bind_eq_some_iff.mp h
    cases h
    have hend : rest = [] := guard_eq_some hend
    have hcount : count.toNat ≤ maxMembers := guard_eq_some hcount
    obtain ⟨nameBytes, hwritten, hpayload⟩ := written_of_takeText hname
    obtain ⟨rows, hrows, hbody⟩ := takeMany_eq_some encoded_of_takeMember hmany
    have hlen : members.length = count.toNat := takeMany_length hmany
    refine ⟨rfl, bind_eq_ok.mpr ⟨nameBytes, hwritten, ?_⟩⟩
    refine bind_eq_ok.mpr ⟨(), require_eq_ok.mpr (hlen ▸ hcount), ?_⟩
    refine bind_eq_ok.mpr ⟨rows, mapM_of_forall₂ hrows, congrArg Except.ok ?_⟩
    rw [hpayload, takeByte_eq_some hbyte, hbody, hend, List.append_nil, hlen, UInt8.ofNat_toNat]
  · obtain ⟨⟨peerId, _⟩, hpeer, h⟩ := Option.bind_eq_some_iff.mp h
    obtain ⟨⟨roleByte, _⟩, hbyte, h⟩ := Option.bind_eq_some_iff.mp h
    obtain ⟨role, hrole, h⟩ := Option.bind_eq_some_iff.mp h
    obtain ⟨⟨display, rest⟩, hname, h⟩ := Option.bind_eq_some_iff.mp h
    obtain ⟨_, hend, h⟩ := Option.bind_eq_some_iff.mp h
    cases h
    have hend : rest = [] := guard_eq_some hend
    obtain ⟨name, hwritten, hrest⟩ := written_of_takeText hname
    refine ⟨rfl, bind_eq_ok.mpr ⟨(), require_eq_ok.mpr (takeBytes_length hpeer), ?_⟩⟩
    refine bind_eq_ok.mpr ⟨name, hwritten, congrArg Except.ok ?_⟩
    rw [takeBytes_eq_some hpeer, takeByte_eq_some hbyte, GroupRole.ofWireByte_eq_some hrole, hrest,
      hend, List.append_nil]
  · obtain ⟨peerId, hpeer, rfl⟩ := Option.map_eq_some_iff.mp h
    exact ⟨rfl, peerPayload_of_decodePeer hpeer⟩
  · obtain ⟨⟨name, rest⟩, hname, h⟩ := Option.bind_eq_some_iff.mp h
    obtain ⟨_, hend, h⟩ := Option.bind_eq_some_iff.mp h
    cases h
    have hend : rest = [] := guard_eq_some hend
    obtain ⟨front, hwritten, hpayload⟩ := written_of_takeText hname
    rw [hpayload, hend, List.append_nil]
    exact ⟨rfl, hwritten⟩
  · obtain ⟨peerId, hpeer, rfl⟩ := Option.map_eq_some_iff.mp h
    exact ⟨rfl, peerPayload_of_decodePeer hpeer⟩
  · obtain ⟨peerId, hpeer, rfl⟩ := Option.map_eq_some_iff.mp h
    exact ⟨rfl, peerPayload_of_decodePeer hpeer⟩
  · split at h
    · cases h
      exact ⟨rfl, rfl⟩
    · cases h
  · cases h

end GroupOpKind

namespace GroupOp

theorem encodedHeader_eq {op : GroupOp} {payload : Bytes} (hid : op.groupId.length = groupIdSize)
    (hparent : op.parentDigest.length = parentDigestSize)
    (hoperator : op.operatorIdentity.length = identityKeySize)
    (hroot : op.priorMemberSetRoot.length = memberSetRootSize)
    (hpayload : op.kind.encodedPayload = .ok payload) :
    op.encodedHeader = .ok (opVersion :: (op.groupId ++ (u64Bytes op.epoch ++ (op.parentDigest ++
      (op.operatorIdentity ++ (u64Bytes op.timestampMillis ++ (op.priorMemberSetRoot ++
        op.kind.kindByte :: (beBytes 4 payload.length ++ payload)))))))) := by
  refine bind_eq_ok.mpr ⟨(), require_eq_ok.mpr hid, ?_⟩
  refine bind_eq_ok.mpr ⟨(), require_eq_ok.mpr hparent, ?_⟩
  refine bind_eq_ok.mpr ⟨(), require_eq_ok.mpr hoperator, ?_⟩
  refine bind_eq_ok.mpr ⟨(), require_eq_ok.mpr hroot, ?_⟩
  exact bind_eq_ok.mpr ⟨payload, hpayload, rfl⟩

/-- The signed wire bytes are a header, the only one of the op, and the signature. -/
theorem encoded_eq_ok_iff {op : GroupOp} {bytes : Bytes} :
    op.encoded = .ok bytes ↔ ∃ header, op.encodedHeader = .ok header ∧
      op.signature.length = signatureSize ∧ bytes = header ++ op.signature := by
  constructor
  · intro h
    obtain ⟨header, hheader, h⟩ := bind_eq_ok.mp h
    obtain ⟨_, hsig, h⟩ := bind_eq_ok.mp h
    exact ⟨header, hheader, require_eq_ok.mp hsig, (Except.ok.inj h).symm⟩
  · rintro ⟨header, hheader, hsig, rfl⟩
    exact bind_eq_ok.mpr ⟨header, hheader, bind_eq_ok.mpr ⟨(), require_eq_ok.mpr hsig, rfl⟩⟩

/-- An op that was decoded encodes to the bytes it came in. -/
theorem encoded_of_decode {bytes : Bytes} {op : GroupOp} (h : decode bytes = some op) :
    op.encoded = .ok bytes := by
  obtain ⟨⟨version, _⟩, hversion, h⟩ := Option.bind_eq_some_iff.mp h
  obtain ⟨_, hcurrent, h⟩ := Option.bind_eq_some_iff.mp h
  obtain ⟨⟨groupId, _⟩, hid, h⟩ := Option.bind_eq_some_iff.mp h
  obtain ⟨⟨epoch, _⟩, hepoch, h⟩ := Option.bind_eq_some_iff.mp h
  obtain ⟨⟨parentDigest, _⟩, hparent, h⟩ := Option.bind_eq_some_iff.mp h
  obtain ⟨⟨operatorIdentity, _⟩, hoperator, h⟩ := Option.bind_eq_some_iff.mp h
  obtain ⟨⟨timestampMillis, _⟩, htime, h⟩ := Option.bind_eq_some_iff.mp h
  obtain ⟨⟨priorMemberSetRoot, _⟩, hroot, h⟩ := Option.bind_eq_some_iff.mp h
  obtain ⟨⟨kindByte, _⟩, hbyte, h⟩ := Option.bind_eq_some_iff.mp h
  obtain ⟨⟨payloadLen, _⟩, hlen, h⟩ := Option.bind_eq_some_iff.mp h
  obtain ⟨⟨payload, _⟩, hpayload, h⟩ := Option.bind_eq_some_iff.mp h
  obtain ⟨kind, hkind, h⟩ := Option.bind_eq_some_iff.mp h
  obtain ⟨⟨signature, rest⟩, hsig, h⟩ := Option.bind_eq_some_iff.mp h
  obtain ⟨_, hend, h⟩ := Option.bind_eq_some_iff.mp h
  cases h
  have hversion' : version = opVersion := guard_eq_some hcurrent
  have hend : rest = [] := guard_eq_some hend
  obtain ⟨rfl, hencoded⟩ := GroupOpKind.encodedPayload_of_decode hkind
  obtain ⟨hlenBytes, -⟩ := takeNat_eq_some hlen
  refine encoded_eq_ok_iff.mpr ⟨_, encodedHeader_eq (takeBytes_length hid)
    (takeBytes_length hparent) (takeBytes_length hoperator) (takeBytes_length hroot) hencoded,
    takeBytes_length hsig, ?_⟩
  rw [takeByte_eq_some hversion, hversion', takeBytes_eq_some hid, takeU64_eq_some hepoch,
    takeBytes_eq_some hparent, takeBytes_eq_some hoperator, takeU64_eq_some htime,
    takeBytes_eq_some hroot, takeByte_eq_some hbyte, hlenBytes, takeBytes_eq_some hpayload,
    takeBytes_eq_some hsig, hend, takeBytes_length hpayload]
  simp only [List.append_assoc, List.cons_append, List.append_nil]

end GroupOp

/-! ## Snapshots -/

theorem encoded_of_takeAddedBy {addedBy : Option Bytes} {bs rest : Bytes}
    (h : takeAddedBy bs = some (addedBy, rest)) :
    ∃ front, encodedAddedBy addedBy = .ok front ∧ bs = front ++ rest := by
  obtain ⟨⟨flag, _⟩, hflag, h⟩ := Option.bind_eq_some_iff.mp h
  simp only at h
  split at h
  next hzero =>
    cases h
    rw [takeByte_eq_some hflag, hzero]
    exact ⟨[0], rfl, rfl⟩
  split at h
  next hone =>
    obtain ⟨⟨added, _⟩, hadded, h⟩ := Option.bind_eq_some_iff.mp h
    cases h
    refine ⟨1 :: added, ?_, ?_⟩
    · exact bind_eq_ok.mpr ⟨(), requireB_eq_ok.mpr (takeBytes_length hadded), rfl⟩
    · rw [takeByte_eq_some hflag, hone, takeBytes_eq_some hadded, List.cons_append]
  · cases h

theorem encoded_of_takeRow {m : GroupMember} {bs rest : Bytes}
    (h : GroupMember.take bs = some (m, rest)) : ∃ front, m.encoded = .ok front ∧ bs = front ++ rest := by
  obtain ⟨⟨peerId, _⟩, hpeer, h⟩ := Option.bind_eq_some_iff.mp h
  obtain ⟨⟨roleByte, _⟩, hroleByte, h⟩ := Option.bind_eq_some_iff.mp h
  obtain ⟨role, hrole, h⟩ := Option.bind_eq_some_iff.mp h
  obtain ⟨⟨statusByte, _⟩, hstatusByte, h⟩ := Option.bind_eq_some_iff.mp h
  obtain ⟨status, hstatus, h⟩ := Option.bind_eq_some_iff.mp h
  obtain ⟨⟨joinedAtEpoch, _⟩, hjoined, h⟩ := Option.bind_eq_some_iff.mp h
  obtain ⟨⟨addedBy, _⟩, hadded, h⟩ := Option.bind_eq_some_iff.mp h
  obtain ⟨⟨display, _⟩, hname, h⟩ := Option.bind_eq_some_iff.mp h
  cases h
  obtain ⟨added, haddedBytes, haddedRest⟩ := encoded_of_takeAddedBy hadded
  obtain ⟨name, hwritten, hrest⟩ := written_of_takeText hname
  refine ⟨peerId ++ role.wireByte :: status.wireByte :: (u64Bytes joinedAtEpoch ++
    (added ++ name)), ?_, ?_⟩
  · refine bind_eq_ok.mpr ⟨(), requireB_eq_ok.mpr (takeBytes_length hpeer), ?_⟩
    refine bind_eq_ok.mpr ⟨added, haddedBytes, ?_⟩
    exact bind_eq_ok.mpr ⟨name, writeText_eq_ok.mpr hwritten, rfl⟩
  · rw [takeBytes_eq_some hpeer, takeByte_eq_some hroleByte, GroupRole.ofWireByte_eq_some hrole,
      takeByte_eq_some hstatusByte, MemberStatus.ofWireByte_eq_some hstatus,
      takeU64_eq_some hjoined, haddedRest, hrest]
    simp only [List.append_assoc, List.cons_append]

namespace GroupBootstrap

theorem encodedHeader_eq {b : GroupBootstrap} {name : Bytes} {rows : List Bytes}
    (hid : b.groupId.length = groupIdSize) (hlast : b.lastOpDigest.length = parentDigestSize)
    (hoperator : b.operatorIdentity.length = identityKeySize)
    (hcount : b.members.length ≤ maxMembers) (hroot : b.memberSetRoot.length = memberSetRootSize)
    (hname : writeUTF8U16LenBlob b.displayName = .ok name)
    (hrows : List.Forall₂ (fun m row => m.encoded = .ok row) b.members rows) :
    b.encodedHeader = .ok (bootstrapVersion :: (b.groupId ++ (u64Bytes b.currentEpoch ++
      (b.lastOpDigest ++ (b.operatorIdentity ++ (u64Bytes b.timestampMillis ++ (b.memberSetRoot ++
        (name ++ UInt8.ofNat b.members.length :: rows.flatten)))))))) := by
  refine bind_eq_ok.mpr ⟨(), requireB_eq_ok.mpr hid, ?_⟩
  refine bind_eq_ok.mpr ⟨(), requireB_eq_ok.mpr hlast, ?_⟩
  refine bind_eq_ok.mpr ⟨(), requireB_eq_ok.mpr hoperator, ?_⟩
  refine bind_eq_ok.mpr ⟨(), requireB_eq_ok.mpr hcount, ?_⟩
  refine bind_eq_ok.mpr ⟨(), requireB_eq_ok.mpr hroot, ?_⟩
  refine bind_eq_ok.mpr ⟨name, writeText_eq_ok.mpr hname, ?_⟩
  exact bind_eq_ok.mpr ⟨rows, mapM_of_forall₂ hrows, rfl⟩

theorem encoded_eq_ok_iff {b : GroupBootstrap} {bytes : Bytes} :
    b.encoded = .ok bytes ↔ ∃ header, b.encodedHeader = .ok header ∧
      b.signature.length = signatureSize ∧ bytes = header ++ b.signature := by
  constructor
  · intro h
    obtain ⟨header, hheader, h⟩ := bind_eq_ok.mp h
    obtain ⟨_, hsig, h⟩ := bind_eq_ok.mp h
    exact ⟨header, hheader, requireB_eq_ok.mp hsig, (Except.ok.inj h).symm⟩
  · rintro ⟨header, hheader, hsig, rfl⟩
    exact bind_eq_ok.mpr ⟨header, hheader, bind_eq_ok.mpr ⟨(), requireB_eq_ok.mpr hsig, rfl⟩⟩

/-- A snapshot that was decoded encodes to the bytes it came in. -/
theorem encoded_of_decode {bytes : Bytes} {b : GroupBootstrap} (h : decode bytes = some b) :
    b.encoded = .ok bytes := by
  obtain ⟨⟨version, _⟩, hversion, h⟩ := Option.bind_eq_some_iff.mp h
  obtain ⟨_, hcurrent, h⟩ := Option.bind_eq_some_iff.mp h
  obtain ⟨⟨groupId, _⟩, hid, h⟩ := Option.bind_eq_some_iff.mp h
  obtain ⟨⟨currentEpoch, _⟩, hepoch, h⟩ := Option.bind_eq_some_iff.mp h
  obtain ⟨⟨lastOpDigest, _⟩, hlast, h⟩ := Option.bind_eq_some_iff.mp h
  obtain ⟨⟨operatorIdentity, _⟩, hoperator, h⟩ := Option.bind_eq_some_iff.mp h
  obtain ⟨⟨timestampMillis, _⟩, htime, h⟩ := Option.bind_eq_some_iff.mp h
  obtain ⟨⟨memberSetRoot, _⟩, hroot, h⟩ := Option.bind_eq_some_iff.mp h
  obtain ⟨⟨displayName, _⟩, hname, h⟩ := Option.bind_eq_some_iff.mp h
  obtain ⟨⟨memberCount, _⟩, hbyte, h⟩ := Option.bind_eq_some_iff.mp h
  obtain ⟨_, hcount, h⟩ := Option.bind_eq_some_iff.mp h
  obtain ⟨⟨members, _⟩, hmany, h⟩ := Option.bind_eq_some_iff.mp h
  obtain ⟨⟨signature, rest⟩, hsig, h⟩ := Option.bind_eq_some_iff.mp h
  obtain ⟨_, hend, h⟩ := Option.bind_eq_some_iff.mp h
  cases h
  have hversion' : version = bootstrapVersion := guard_eq_some hcurrent
  have hend : rest = [] := guard_eq_some hend
  have hcount : memberCount.toNat ≤ maxMembers := guard_eq_some hcount
  have hlen : members.length = memberCount.toNat := takeMany_length hmany
  obtain ⟨name, hwritten, hnameRest⟩ := written_of_takeText hname
  obtain ⟨rows, hrows, hbody⟩ := takeMany_eq_some encoded_of_takeRow hmany
  refine encoded_eq_ok_iff.mpr ⟨_, encodedHeader_eq (takeBytes_length hid)
    (takeBytes_length hlast) (takeBytes_length hoperator) (hlen ▸ hcount) (takeBytes_length hroot)
    hwritten hrows, takeBytes_length hsig, ?_⟩
  rw [takeByte_eq_some hversion, hversion', takeBytes_eq_some hid, takeU64_eq_some hepoch,
    takeBytes_eq_some hlast, takeBytes_eq_some hoperator, takeU64_eq_some htime,
    takeBytes_eq_some hroot, hnameRest, takeByte_eq_some hbyte, hbody, takeBytes_eq_some hsig,
    hend, hlen, UInt8.ofNat_toNat]
  simp only [List.append_assoc, List.cons_append, List.append_nil]

end GroupBootstrap

/-! ## Both codecs -/

/-- A value encodes to exactly the bytes that decode to it, and they are the
header under the signature and the signature. -/
theorem codecs_exact :
    (∀ (op : GroupOp) (bytes : Bytes),
      (op.encoded = .ok bytes ↔ GroupOp.decode bytes = some op) ∧
      (GroupOp.decode bytes = some op ↔ ∃ header, op.encodedHeader = .ok header ∧
        op.signature.length = signatureSize ∧ bytes = header ++ op.signature)) ∧
    ∀ (b : GroupBootstrap) (bytes : Bytes),
      (b.encoded = .ok bytes ↔ GroupBootstrap.decode bytes = some b) ∧
      (GroupBootstrap.decode bytes = some b ↔ ∃ header, b.encodedHeader = .ok header ∧
        b.signature.length = signatureSize ∧ bytes = header ++ b.signature) := by
  constructor
  · intro op bytes
    have hexact : op.encoded = .ok bytes ↔ GroupOp.decode bytes = some op :=
      ⟨GroupOp.decode_encoded, GroupOp.encoded_of_decode⟩
    exact ⟨hexact, hexact.symm.trans GroupOp.encoded_eq_ok_iff⟩
  · intro b bytes
    have hexact : b.encoded = .ok bytes ↔ GroupBootstrap.decode bytes = some b :=
      ⟨GroupBootstrap.decode_encoded, GroupBootstrap.encoded_of_decode⟩
    exact ⟨hexact, hexact.symm.trans GroupBootstrap.encoded_eq_ok_iff⟩

end Pizzini.Group
