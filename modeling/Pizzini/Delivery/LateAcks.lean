import Pizzini.Chat.AttachmentRollup
import Pizzini.Delivery.IssuedTokens
import Pizzini.Delivery.RelayedRows

/-!
# Acknowledgements that come late (`handleAckPayload`, ChatStore.swift:4692)

An acknowledgement stamps `deliveredAt` whatever else is stamped; the expiry of a walk leaves
delivered rows alone. So a row has both ends only when its acknowledgement came after it had
failed (`oneEnd_step`). Then the roll-ups of its attachment part, and a row that is overdue at
the time of the question is the other way for them to part (`rollups_agree`).
-/

namespace Pizzini.Delivery

open Wire Relay Chat
open Pizzini.Attachments (AttachmentId)

namespace Outbound

variable {blake3 : Bytes → ChainValue} {me : Bytes} {d d' : Outbound}

/-- No row has both ends. -/
def OneEnd (outbox : Outbox) : Prop :=
  ∀ id e, outbox.lookup id = some e → e.deliveredAt = none ∨ e.failedAt = none

/-- No acknowledgement comes for a row that has failed. -/
def AckInTime (d : Outbound) : Event → Prop
  | .handleAckPayload payload fromPeer =>
    payload.length = 16 → ∀ e, d.outbox.lookup payload = some e → e.recipientPeerId = fromPeer →
      e.failedAt = none
  | _ => True

/-! ## What the paths do to a row's ends -/

theorem OneEnd.insert {outbox : Outbox} (h : OneEnd outbox) {id : Bytes} {e : OutboxEntry}
    (hend : e.deliveredAt = none ∨ e.failedAt = none) : OneEnd (outbox.insert id e) := by
  intro id' e' hlookup
  rcases AList.lookup_insert_cases hlookup with ⟨-, rfl⟩ | ⟨-, hlookup⟩
  · exact hend
  · exact h id' e' hlookup

theorem OneEnd.sub {outbox outbox' : Outbox} (h : OneEnd outbox)
    (hrows : ∀ id e', outbox'.lookup id = some e' → ∃ e, outbox.lookup id = some e ∧
      ((e.deliveredAt = none ∨ e.failedAt = none) → e'.deliveredAt = none ∨ e'.failedAt = none)) :
    OneEnd outbox' := by
  intro id e' hlookup
  obtain ⟨e, he, hend⟩ := hrows id e' hlookup
  exact hend (h id e he)

/-- A move gives no row a second end, unless it is a revision that does. -/
theorem OneEnd.move (h : OneEnd d.outbox) {m : Move}
    (hm : ∀ outbox, m = .revise outbox → OneEnd outbox) (hstep : Move.Step blake3 d m d') :
    OneEnd d'.outbox := by
  have hpending : ∀ {e : OutboxEntry}, e.status = .pending → e.deliveredAt = none :=
    fun hpending => (OutboxEntry.status_eq_pending_iff.mp hpending).1
  cases hstep with
  | spend hmint _ =>
    rw [← (mint_frame hmint).2.1] at h
    exact h
  | burn hmint =>
    rw [← (mint_frame hmint).2.1] at h
    exact h
  | fail hrow =>
    have hdelivered := hpending hrow.pending
    exact h.insert (.inl hdelivered)
  | queue hmint _ hrow =>
    rw [← (mint_frame hmint).2.1] at h
    exact h.insert (.inl (hpending hrow.pending))
  | ship hmint hrow =>
    have hdelivered := hpending hrow.pending
    rw [← (mint_frame hmint).2.1] at h
    exact h.insert (.inl hdelivered)
  | hold hmint _ hrow =>
    rw [← (mint_frame hmint).2.1] at h
    exact h.insert (.inl (hpending hrow.pending))
  | deliver hleg =>
    refine h.sub fun id e' hlookup => ?_
    obtain ⟨e, he, ⟨-, rfl⟩ | ⟨-, rfl⟩⟩ := lookup_stamp hlookup
    · exact ⟨e, he, fun hend => hend⟩
    · exact ⟨e', he, fun hend => hend⟩
  | strand i => exact h
  | resend hmint hlookup hstatus =>
    have hdelivered := hpending hstatus
    rw [← (mint_frame hmint).2.1] at h
    exact h.insert (.inl hdelivered)
  | retry hmint hlookup hstatus =>
    have hdelivered := hpending hstatus
    rw [← (mint_frame hmint).2.1] at h
    exact h.insert (.inl hdelivered)
  | revise hrev => exact hm _ rfl
  | install _ _ => exact h
  | tick => exact h

/-- The user's retry counts and stamps a row that has no end. -/
theorem OneEnd.userRetry (h : OneEnd d.outbox) (id : Bytes) (connected : Bool) (ready : Nat) :
    OneEnd (d.userRetry blake3 id connected ready).outbox := by
  refine h.sub fun id' e' hlookup => ?_
  by_cases hid : id' = id
  · subst hid
    unfold Outbound.userRetry at hlookup
    cases hrow : d.outbox.lookup id' with
    | none =>
      simp only [hrow] at hlookup
      cases hlookup
    | some e =>
      refine ⟨e, rfl, fun hend => ?_⟩
      simp only [hrow] at hlookup
      split at hlookup
      · cases hmint : d.mintV2DeliveryToken blake3 e.recipientPeerId with
        | none =>
          simp only [hmint, hrow] at hlookup
          cases hlookup
          exact hend
        | some minted =>
          simp only [hmint, AList.lookup_insert] at hlookup
          cases hlookup
          split
          · exact hend
          · exact hend
      · rw [hrow] at hlookup
        cases hlookup
        exact hend
  · rw [lookup_userRetry hid] at hlookup
    exact ⟨e', hlookup, fun hend => hend⟩

theorem OneEnd.expire (h : OneEnd d.outbox) : OneEnd d.expire.outbox := by
  refine h.sub fun id e' hlookup => ?_
  rw [Outbound.expire, AList.lookup_mapVals, Option.map_eq_some_iff] at hlookup
  obtain ⟨e, he, rfl⟩ := hlookup
  refine ⟨e, he, fun hend => ?_⟩
  split
  · next hexpired => exact .inl (OutboxEntry.hasExpired_iff.mp hexpired).1
  · exact hend

/-- What the revision leaves of a row is the row, but for what does not count here. -/
theorem OneEnd.kept {outbox outbox' : Outbox} (h : OneEnd outbox)
    (hrows : ∀ id e, outbox'.lookup id = some e → outbox.lookup id = some e) : OneEnd outbox' :=
  h.sub fun id e hlookup => ⟨e, hrows id e hlookup, fun hend => hend⟩

theorem OneEnd.acknowledge {payload fromPeer : Bytes} (h : OneEnd d.outbox)
    (hok : AckInTime d (.handleAckPayload payload fromPeer)) :
    OneEnd (d.outbox.acknowledge payload fromPeer d.now) := by
  unfold Outbox.acknowledge
  split
  · exact h
  · next hlength =>
    split
    · exact h
    · next e he =>
      split
      · next hpeer => exact h.insert (.inr (hok (not_not.mp hlength) e he hpeer))
      · exact h

/-- The moves that give no row a second end. -/
def KeepsOneEnd (d : Outbound) (m : Move) : Prop :=
  ∀ outbox, m = .revise outbox → OneEnd d.outbox → OneEnd outbox

theorem AckInTime.allowed {ev : Event} (h : AckInTime d ev)
    (huser : ∀ id connected ready, ev ≠ .userRetry id connected ready)
    (husers : ∀ id connected ready, ev ≠ .userRetryAttachment id connected ready) :
    Allowed blake3 KeepsOneEnd d ev := by
  have hburn : ∀ d, KeepsOneEnd d .burn := fun _ _ heq => nomatch heq
  cases ev with
  | send peer ttl text a => exact fun _ _ _ => hburn
  | shipPreparedAttachment peer ttl attachmentId chunks => exact fun _ _ _ _ => hburn
  | sendGroupMessage groupMessageId body legs => exact fun _ _ _ _ => hburn
  | shipPreparedGroupAttachment groupMessageId attachmentId chunkCount chunks =>
    exact fun _ _ _ _ => hburn
  | sendChainRefreshRequest peer a => exact fun _ _ => hburn
  | broadcastGroupOp peer signedBytes a => exact fun _ _ => hburn
  | broadcastSenderKeyDistribution peer body a => exact fun _ _ => hburn
  | broadcastGroupBootstrap peer body a => exact fun _ _ => hburn
  | runRetryWalk connected ready =>
    refine ⟨?_, fun d => ?_, fun _ _ _ _ _ _ _ _ _ _ heq => nomatch heq⟩
    · rintro _ ⟨⟩ hone
      exact hone.expire
    · rintro _ ⟨⟩ hone
      refine hone.kept fun id e hlookup => ?_
      rw [collect, AList.lookup_retain, Option.filter_eq_some_iff] at hlookup
      exact hlookup.1
  | userRetry id connected ready => exact absurd rfl (huser id connected ready)
  | userRetryAttachment id connected ready => exact absurd rfl (husers id connected ready)
  | userTryAgainExpired id =>
    rintro _ ⟨⟩ hone
    refine hone.kept fun id' e hlookup => ?_
    unfold userTryAgainExpired at hlookup
    split at hlookup
    · exact hlookup
    · split at hlookup
      · by_cases hid : id' = id
        · rw [hid, AList.lookup_erase] at hlookup
          cases hlookup
        · rwa [AList.lookup_erase_ne hid] at hlookup
      · exact hlookup
  | handleAckPayload payload fromPeer =>
    rintro _ ⟨⟩ hone
    exact hone.acknowledge h
  | handleReadReceiptPayload peer cutoff =>
    rintro _ ⟨⟩ hone
    refine hone.sub fun id e' hlookup => ?_
    rw [Outbox.stampLegs, AList.lookup_mapVals, Option.map_eq_some_iff] at hlookup
    obtain ⟨e, he, rfl⟩ := hlookup
    refine ⟨e, he, fun hend => ?_⟩
    split
    · exact hend
    · exact hend
  | releaseLeg index ready => trivial
  | emitAck peer acked a => trivial
  | emitReadReceipt peer highest a => trivial
  | handleChainSeedDelivery peer payload => trivial
  | tick seconds => trivial

/-- Along one event. -/
theorem oneEnd_step {ev : Event} (hfiled : d.Filed) (h : OneEnd d.outbox) (hdrawn : d.Drawn ev)
    (hok : AckInTime d ev) : OneEnd (d.step blake3 me ev).outbox := by
  by_cases hretry : ∃ id connected ready, ev = .userRetry id connected ready
  · obtain ⟨id, connected, ready, rfl⟩ := hretry
    exact h.userRetry id connected ready
  by_cases hretries : ∃ id connected ready, ev = .userRetryAttachment id connected ready
  · obtain ⟨id, connected, ready, rfl⟩ := hretries
    refine List.foldlRecOn (motive := fun d : Outbound => OneEnd d.outbox) _ _ h fun d hone e _ => ?_
    exact hone.userRetry e.messageId connected (ready e.messageId)
  have hrun : Moves blake3 KeepsOneEnd d (d.step blake3 me ev) := by
    refine step_moves (fun d m hharmless => ?_) hfiled.named hdrawn (hok.allowed ?_ ?_)
    · rintro _ rfl
      cases hharmless
    · exact fun id connected ready heq => hretry ⟨id, connected, ready, heq⟩
    · exact fun id connected ready heq => hretries ⟨id, connected, ready, heq⟩
  exact hrun.invariant (fun d => OneEnd d.outbox)
    (fun hone hm hstep => hone.move (fun outbox heq => hm outbox heq hone) hstep) h

theorem OneEnd.failureStands {outbox : Outbox} (h : OneEnd outbox) (attachmentId : AttachmentId) :
    outbox.FailureStands attachmentId := by
  rintro ⟨e, he, hfailed⟩
  refine ⟨e, he, OutboxEntry.status_eq_failed_iff.mpr ⟨?_, hfailed⟩⟩
  obtain ⟨⟨id, _⟩, hmem, rfl⟩ := List.mem_map.mp (List.mem_filter.mp he).1
  refine (h id _ (AList.lookup_eq_some_iff.mpr hmem)).resolve_right ?_
  exact Option.isSome_iff_ne_none.mp hfailed

/-! ## Runs -/

/-- In every state of a run the roll-ups of an attachment agree exactly when its failed chunks
are not all acknowledged late and it is no relayed single chunk that is overdue; and where no
acknowledgement comes late, only the second can happen. -/
theorem rollups_agree {now₀ : Int} {ok : Outbound → Event → Prop}
    (h : Reaches blake3 me ok (start now₀) d) (attachmentId : AttachmentId) (now : Int)
    (peerHasRead : Bool) :
    (d.outbox.RollupsAgree attachmentId now peerHasRead ↔
      d.outbox.FailureStands attachmentId ∧ d.outbox.NoneOverdue attachmentId now) ∧
    ((∀ d ev, ok d ev → AckInTime d ev) → (d.outbox.RollupsAgree attachmentId now peerHasRead ↔
      d.outbox.NoneOverdue attachmentId now)) := by
  refine ⟨Outbox.rollupsAgree_iff, fun hok => ?_⟩
  have hinv : (d.Filed ∧ d.Issued) ∧ OneEnd d.outbox := by
    refine h.invariant (fun d => (d.Filed ∧ d.Issued) ∧ OneEnd d.outbox) ?_
      ⟨⟨start_filed now₀, start_issued now₀⟩, ?_⟩
    · rintro d ev _ ⟨⟨hfiled, hissued⟩, hone⟩ hev ⟨hdrawn, rfl⟩
      exact ⟨filed_issued_step hfiled hissued hdrawn,
        oneEnd_step hfiled hone hdrawn (hok d ev hev)⟩
    · intro id e hlookup
      rw [lookup_start] at hlookup
      cases hlookup
  rw [Outbox.rollupsAgree_iff]
  exact and_iff_right (hinv.2.failureStands attachmentId)

/-! ## A late acknowledgement -/

/-- The id of an attachment. -/
def sampleAttachmentId : AttachmentId := FixedBytes.replicate 16 6

/-- The id of its one chunk's frame. -/
def sampleChunkId : Bytes := List.replicate 16 7

/-- An attachment of one chunk that a relay takes, and keeps for a minute. -/
def sampleUpload : Event :=
  .shipPreparedAttachment samplePeer.1 60 sampleAttachmentId
    [([5], { messageId := sampleChunkId, encrypts := true, persists := true, ready := 1 })]

/-- The chunk is with the relay. -/
def sampleUploaded : Outbound := sampleChained.step plainBlake3 [2] sampleUpload

/-- Its time is up, and a walk has failed it. -/
def sampleExpired : Outbound :=
  (sampleUploaded.step plainBlake3 [2] (.tick 61)).step plainBlake3 [2]
    (.runRetryWalk false fun _ => 0)

/-- The acknowledgement comes after all. -/
def sampleAcknowledged : Outbound :=
  sampleExpired.step plainBlake3 [2] (.handleAckPayload sampleChunkId samplePeer.1)

theorem sampleChained_drawn_sampleUpload : sampleChained.Drawn sampleUpload where
  nodup := List.nodup_singleton _
  unused id hid := by
    cases List.mem_singleton.mp (show id ∈ [sampleChunkId] from hid)
    exact ⟨by decide +kernel, by decide +kernel, by decide +kernel⟩
  chain _ _ _ heq := by cases heq

theorem reaches_sampleExpired {ok : Outbound → Event → Prop}
    (hdelivery : ok (start 0) sampleDelivery) (hupload : ok sampleChained sampleUpload)
    (htick : ok sampleUploaded (.tick 61))
    (hwalk : ok (sampleUploaded.step plainBlake3 [2] (.tick 61)) (.runRetryWalk false fun _ => 0)) :
    Reaches plainBlake3 [2] ok (start 0) sampleExpired :=
  (((Runs.Reach.refl.snoc ⟨start_drawn_sampleDelivery, rfl⟩ hdelivery).snoc
    ⟨sampleChained_drawn_sampleUpload, rfl⟩ hupload).snoc
    ⟨drawn_of_ids_eq_nil rfl (by simp), rfl⟩ htick).snoc
    ⟨drawn_of_ids_eq_nil rfl (by simp), rfl⟩ hwalk

/-- The attachment whose time is up: its roll-ups agree. -/
theorem rollups_agree_expired :
    sampleExpired.outbox.RollupsAgree sampleAttachmentId 62 false := by
  have hreach : Reaches plainBlake3 [2] AckInTime (start 0) sampleExpired :=
    reaches_sampleExpired trivial trivial trivial trivial
  obtain ⟨-, hagree⟩ := rollups_agree hreach sampleAttachmentId 62 false
  refine (hagree fun _ _ hev => hev).mpr fun e hchunks _ hrelayed => ?_
  have hfailed : ∀ e ∈ sampleExpired.outbox.chunksOf sampleAttachmentId, e.status = .failed := by
    decide +kernel
  rw [hfailed e (hchunks ▸ List.mem_singleton_self e)] at hrelayed
  cases hrelayed

/-- The acknowledged attachment is delivered by one roll-up, and failed by the other. -/
theorem late_ack_parts_rollups :
    ¬∀ d, Reaches plainBlake3 [2] (fun _ _ => True) (start 0) d →
      ∀ attachmentId now peerHasRead, d.outbox.RollupsAgree attachmentId now peerHasRead := by
  intro h
  have hreach : Reaches plainBlake3 [2] (fun _ _ => True) (start 0) sampleAcknowledged :=
    (reaches_sampleExpired trivial trivial trivial trivial).snoc
      ⟨drawn_of_ids_eq_nil rfl (by simp), rfl⟩ trivial
  have htier := (h _ hreach sampleAttachmentId 62 false).tier
  revert htier
  decide +kernel

end Outbound

end Pizzini.Delivery
