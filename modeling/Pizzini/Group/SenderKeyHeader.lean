import Pizzini.Lib.Protobuf
import Pizzini.Group.Splice

/-!
# The distribution id in a sender-key header (GroupEnvelope.swift:114)

The gates of a group take a `SenderKeyMessage` by the distribution id in its header, and
libsignal looks the chain up by the distribution id it decodes. The two are read by
different code: `distributionId` looks at fixed offsets, libsignal decodes a version
byte, a protobuf body and a signature, and in the body the last field 1 wins.

`SenderKeyFormat` is libsignal's reading: the length of the signature is a parameter,
and so are its other checks (the version, the fields that must be there).
`distributionId_agrees_iff` says on which messages the gates test the id of the chain
that decrypts: on all but those whose body repeats field 1 with another id behind a
first field 1 in the shape the gates look for. `second_id_wins` is such a message.
-/

namespace Pizzini.Group

open Wire Protobuf

/-! ## The two readers -/

/-- `UUID(uuid:)` of sixteen bytes. -/
def uuidOf? (bs : Bytes) : Option UUID :=
  if h : bs.length = 16 then some ⟨bs, h⟩ else none

/-- The header has the shape that the gates look for: a version byte, the key of field 1
as a byte string, the length 16, and sixteen bytes. -/
def HeaderShape (skm : Bytes) : Prop :=
  19 ≤ skm.length ∧ skm[1]? = some 0x0a ∧ skm[2]? = some 0x10

instance (skm : Bytes) : Decidable (HeaderShape skm) :=
  inferInstanceAs (Decidable (_ ∧ _ ∧ _))

/-- The sixteen bytes at the offset of the distribution id. -/
def headerBytes (skm : Bytes) : Bytes := (skm.drop 3).take 16

/-- `GroupEnvelope.distributionId(fromSenderKeyMessage:)` (`GroupEnvelope.swift:142`). -/
def distributionId (skm : Bytes) : Option UUID :=
  if ¬ 19 ≤ skm.length then none
  else if ¬ (skm[1]? = some 0x0a ∧ skm[2]? = some 0x10) then none
  else uuidOf? (headerBytes skm)

/-- How libsignal reads a `SenderKeyMessage`: the length of the signature at its end, and
what it asks of the version byte and of the fields. -/
structure SenderKeyFormat where
  signatureLength : Nat
  accepts : UInt8 → List Field → Bool

namespace SenderKeyFormat

variable (F : SenderKeyFormat)

/-- The protobuf body: what stands between the version byte and the signature. -/
def body (skm : Bytes) : Bytes := (skm.drop 1).take (skm.length - 1 - F.signatureLength)

/-- The distribution id of a message that libsignal takes: the last field 1 of its body. -/
def decode (skm : Bytes) : Option UUID :=
  match skm with
  | [] => none
  | version :: _ =>
    if skm.length < 1 + F.signatureLength then none
    else
      match parse (F.body skm) with
      | none => none
      | some fields =>
        if F.accepts version fields then (lastBytes 1 fields).bind uuidOf? else none

/-- The fields of the body behind its first eighteen bytes: key, length and id of a first
field 1 in the shape that the gates look for. -/
def laterFields (skm : Bytes) : Option (List Field) := parse ((F.body skm).drop 18)

/-- No field 1 behind the first field names another id: there is none, or the last one
repeats the sixteen bytes of the header. -/
def NamesOneId (skm : Bytes) : Prop :=
  ∀ later, F.laterFields skm = some later →
    lastBytes 1 later = none ∨ lastBytes 1 later = some (headerBytes skm)

end SenderKeyFormat

/-! ## The offset reader -/

theorem length_headerBytes {skm : Bytes} (h : 19 ≤ skm.length) :
    (headerBytes skm).length = 16 := by
  rw [headerBytes, List.length_take, List.length_drop]
  omega

theorem uuidOf?_eq_some {bs : Bytes} {u : UUID} : uuidOf? bs = some u ↔ bs = u.1 := by
  constructor
  · intro h
    rw [uuidOf?] at h
    split at h
    · rw [← Option.some.inj h]
    · exact absurd h (by simp)
  · rintro rfl
    rw [uuidOf?, dif_pos u.2]

/-- The offset reader answers exactly where the header has the shape. -/
theorem distributionId_eq_some {skm : Bytes} {u : UUID} :
    distributionId skm = some u ↔ HeaderShape skm ∧ headerBytes skm = u.1 := by
  rw [distributionId]
  by_cases hlen : 19 ≤ skm.length
  · rw [if_neg (not_not.mpr hlen)]
    by_cases htag : skm[1]? = some 0x0a ∧ skm[2]? = some 0x10
    · rw [if_neg (not_not.mpr htag), uuidOf?_eq_some]
      exact ⟨fun h => ⟨⟨hlen, htag⟩, h⟩, fun h => h.2⟩
    · rw [if_pos htag]
      exact ⟨fun h => absurd h (by simp), fun h => absurd h.1.2 htag⟩
  · rw [if_pos hlen]
    exact ⟨fun h => absurd h (by simp), fun h => absurd h.1.1 hlen⟩

theorem distributionId_eq_none {skm : Bytes} :
    distributionId skm = none ↔ ¬ HeaderShape skm := by
  rw [Option.eq_none_iff_forall_ne_some]
  constructor
  · intro hnone hshape
    exact hnone ⟨headerBytes skm, length_headerBytes hshape.1⟩
      (distributionId_eq_some.mpr ⟨hshape, rfl⟩)
  · intro hshape u hu
    exact hshape (distributionId_eq_some.mp hu).1

/-! ## The first field of the body -/

namespace SenderKeyFormat

variable {F : SenderKeyFormat}

/-- What libsignal has checked of a message it takes. -/
theorem decode_eq_some {skm : Bytes} {u : UUID} (h : F.decode skm = some u) :
    1 + F.signatureLength ≤ skm.length ∧
      ∃ fields, parse (F.body skm) = some fields ∧ lastBytes 1 fields = some u.1 := by
  unfold decode at h
  split at h
  · exact absurd h (by simp)
  · split at h
    · exact absurd h (by simp)
    · next hlen =>
      refine ⟨Nat.le_of_not_lt hlen, ?_⟩
      split at h
      · exact absurd h (by simp)
      · next fields hparse =>
        split at h
        · obtain ⟨bytes, hlast, hbytes⟩ := Option.bind_eq_some_iff.mp h
          rw [uuidOf?_eq_some.mp hbytes] at hlast
          exact ⟨fields, hparse, hlast⟩
        · exact absurd h (by simp)

/-- The front of a body that starts where a header of that shape has its field 1: the key,
the length, and, where the body is long enough, the sixteen bytes of the header. -/
theorem body_of_shape {skm : Bytes} (hshape : HeaderShape skm)
    (hsig : F.signatureLength + 3 ≤ skm.length) :
    ∃ rest, F.body skm = 0x0a :: 0x10 :: rest ∧ (F.body skm).drop 18 = rest.drop 16 ∧
      (16 ≤ rest.length → rest.take 16 = headerBytes skm) := by
  obtain ⟨-, htag, hcount⟩ := hshape
  rcases skm with _ | ⟨v, _ | ⟨a, _ | ⟨b, bs⟩⟩⟩
  · simp at htag
  · simp at htag
  · simp at hcount
  · obtain rfl : a = 0x0a := by simpa using htag
    obtain rfl : b = 0x10 := by simpa using hcount
    simp only [List.length_cons] at hsig
    have hbody : F.body (v :: 0x0a :: 0x10 :: bs) =
        0x0a :: 0x10 :: bs.take (bs.length - F.signatureLength) := by
      have htake : bs.length + 1 + 1 + 1 - 1 - F.signatureLength =
          (bs.length - F.signatureLength) + 1 + 1 := by omega
      rw [body, List.drop_succ_cons, List.drop_zero, List.length_cons, List.length_cons,
        List.length_cons, htake, List.take_succ_cons, List.take_succ_cons]
    refine ⟨bs.take (bs.length - F.signatureLength), hbody, ?_, ?_⟩
    · rw [hbody]
      rfl
    · intro hlong
      rw [List.length_take] at hlong
      rw [headerBytes, List.take_take, Nat.min_eq_left (by omega)]
      rfl

/-- Where a message that libsignal takes has the shape the gates look for, its first field
is a field 1 with the bytes of the header, and the last field 1 decides. -/
theorem decode_of_shape {skm : Bytes} {u : UUID} (h : F.decode skm = some u)
    (hshape : HeaderShape skm) :
    ∃ later, F.laterFields skm = some later ∧
      (lastBytes 1 later).or (some (headerBytes skm)) = some u.1 := by
  obtain ⟨hlen, fields, hparse, hlast⟩ := decode_eq_some h
  by_cases hsig : F.signatureLength + 3 ≤ skm.length
  · obtain ⟨rest, hbody, hdrop, htake⟩ := body_of_shape hshape hsig
    rw [hbody, parse_len_cons (by decide) (by decide) (by decide) (by decide)] at hparse
    split at hparse
    · exact absurd hparse (by simp)
    · next hlong =>
      obtain ⟨later, hlater, rfl⟩ := Option.map_eq_some_iff.mp hparse
      refine ⟨later, ?_, ?_⟩
      · rw [laterFields, hdrop]
        exact hlater
      · rw [← htake (Nat.le_of_not_lt hlong)]
        exact (lastBytes_cons_len 1 _ later).symm.trans hlast
  · -- a body of at most one byte has no field at all
    have hshort : (F.body skm).length ≤ 1 := by
      rw [body, List.length_take, List.length_drop]
      omega
    rcases hb : F.body skm with _ | ⟨b, _ | ⟨c, bs⟩⟩
    · rw [hb] at hparse
      obtain rfl : [] = fields := Option.some.inj hparse
      exact absurd hlast (by simp [lastBytes])
    · rw [hb, parse_singleton] at hparse
      exact absurd hparse (by simp)
    · rw [hb] at hshort
      simp at hshort

end SenderKeyFormat

/-! ## When the two agree -/

variable {F : SenderKeyFormat} {skm : Bytes} {u : UUID}

/-- The gates test the id of the chain that decrypts, or refuse the message. -/
def ReadsTheChain (skm : Bytes) (u : UUID) : Prop :=
  distributionId skm = none ∨ distributionId skm = some u

/-- On the messages that libsignal takes, the two readers agree exactly where the header
does not have the shape, or no later field 1 names another id. -/
theorem distributionId_agrees_iff (h : F.decode skm = some u) :
    ReadsTheChain skm u ↔ ¬ HeaderShape skm ∨ F.NamesOneId skm := by
  rw [ReadsTheChain, distributionId_eq_none]
  refine or_congr_right' fun hshape => ?_
  have hshape : HeaderShape skm := not_not.mp hshape
  obtain ⟨later, hlater, hlast⟩ := SenderKeyFormat.decode_of_shape h hshape
  constructor
  · intro hread later' hlater'
    obtain rfl : later = later' := Option.some.inj (hlater.symm.trans hlater')
    rw [(distributionId_eq_some.mp hread).2]
    cases hid : lastBytes 1 later with
    | none => exact .inl rfl
    | some bytes =>
      rw [hid] at hlast
      exact .inr hlast
  · intro hone
    refine distributionId_eq_some.mpr ⟨hshape, ?_⟩
    rcases hone later hlater with hnone | hsame
    · rw [hnone] at hlast
      exact Option.some.inj hlast
    · rw [hsame] at hlast
      exact Option.some.inj hlast

/-- What passes the gates then passes them under the id of the chain. -/
theorem ReadsTheChain.passes (h : ReadsTheChain skm u) {groups : List ChatGroup}
    {groupId sender : Bytes} (hpass : passesGates groups groupId sender (distributionId skm)) :
    passesGates groups groupId sender (some u) := by
  rcases h with hnone | hsome
  · rw [hnone, passesGates] at hpass
    split at hpass
    · exact absurd hpass (by simp)
    · simp at hpass
  · rwa [hsome] at hpass

/-! ## A message with two ids -/

/-- libsignal's format: the version in the upper half of the first byte is 3, there are a
chain id, an iteration and a ciphertext, and the signature has 64 bytes. -/
def sampleFormat : SenderKeyFormat where
  signatureLength := 64
  accepts version fields :=
    version.toNat / 16 = 3 && [2, 3, 4].all fun number => fields.any fun f => f.number = number

/-- A message of chain 1 at iteration 0 whose field 1 stands in it once for each id. -/
def sampleMessage (ids : List UUID) : Bytes :=
  [0x33] ++ ids.flatMap (fun id => 0x0a :: 0x10 :: id.1) ++
    [0x10, 0x01, 0x18, 0x00, 0x22, 0x01, 0xff] ++ List.replicate 64 0x55

/-- Peer 1's keys: the first id in one group, the second id in the other. -/
def keyedGroups : List ChatGroup :=
  [sampleGroup.installKey (sampleDist 1) (samplePeer 1),
    otherGroup.installKey (sampleDist 2) (samplePeer 1)]

/-- A message with one id: the gates test the id of its chain. -/
theorem distributionId_agrees_one :
    HeaderShape (sampleMessage [sampleDist 1]) ∧
      ReadsTheChain (sampleMessage [sampleDist 1]) (sampleDist 1) ∧
      sampleFormat.NamesOneId (sampleMessage [sampleDist 1]) := by
  have hshape : HeaderShape (sampleMessage [sampleDist 1]) := by decide +kernel
  have hread : ReadsTheChain (sampleMessage [sampleDist 1]) (sampleDist 1) :=
    .inr (by decide +kernel)
  have hagrees := (distributionId_agrees_iff (F := sampleFormat) (by decide +kernel)).mp hread
  exact ⟨hshape, hread, hagrees.resolve_left (not_not.mpr hshape)⟩

/-- A message with two ids passes the gates of the first id's group, and libsignal decrypts
it with the second id's chain, which is not a chain of that group. -/
theorem second_id_wins :
    sampleFormat.decode (sampleMessage [sampleDist 1, sampleDist 2]) = some (sampleDist 2) ∧
      ¬ ReadsTheChain (sampleMessage [sampleDist 1, sampleDist 2]) (sampleDist 2) ∧
      passesGates keyedGroups sampleGroup.id (samplePeer 1)
        (distributionId (sampleMessage [sampleDist 1, sampleDist 2])) = true ∧
      passesGates keyedGroups sampleGroup.id (samplePeer 1) (some (sampleDist 2)) = false := by
  refine ⟨by decide +kernel, ?_, by decide +kernel, by decide +kernel⟩
  rintro (hnone | hsome)
  · exact absurd hnone (by decide +kernel)
  · exact absurd hsome (by decide +kernel)

end Pizzini.Group
