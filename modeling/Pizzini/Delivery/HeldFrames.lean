import Pizzini.Delivery.Moves

/-!
# What the outbound paths make of rows and frames

`Meets row frame d`: every row of the outbox is named by its key and has `row`; every frame in
a waiting leg, and every frame that a relay took, has `frame`.

A path changes neither the frame of a row nor what the row says of its send (`SameSend`); it
takes frames from rows and legs, or seals new ones (`Event.seals`), with rows nobody has
answered (`FreshRow`). Only the two handlers of a peer's answer stamp a row delivered or read
(`Answered`). So whatever is closed under these holds along every run (`Meets.step`).
-/

namespace Pizzini.Chat.Sealed

/-- The inner kind byte. -/
def kind (f : Sealed) : Option InnerEnvelopeKind := f.plaintext.head?.bind InnerEnvelopeKind.ofRawValue

/-- What follows the kind byte. -/
def payload (f : Sealed) : Wire.Bytes := f.plaintext.tail

end Pizzini.Chat.Sealed

namespace Pizzini.Delivery

open Wire Relay Chat

namespace Outbound

/-! ## Rows -/

/-- Nothing that a peer sees of a send, and nothing that a peer said of it, has changed. -/
structure SameSend (e e' : OutboxEntry) : Prop where
  messageId : e'.messageId = e.messageId
  recipientPeerId : e'.recipientPeerId = e.recipientPeerId
  sealedCiphertext : e'.sealedCiphertext = e.sealedCiphertext
  sentAt : e'.sentAt = e.sentAt
  groupMessageId : e'.groupMessageId = e.groupMessageId
  deliveredAt : e'.deliveredAt = e.deliveredAt
  readAt : e'.readAt = e.readAt

/-- The kinds of the frames that go to a group. -/
def isGroupKind (kind : Option InnerEnvelopeKind) : Prop :=
  kind = some .groupChat ∨ kind = some .groupFileChunk

/-- The row of a frame that has just been sealed. -/
structure FreshRow (now : Int) (f : Sealed) (e : OutboxEntry) : Prop where
  messageId : e.messageId = f.messageId
  recipientPeerId : e.recipientPeerId = f.recipient
  sealedCiphertext : e.sealedCiphertext = f
  sentAt : e.sentAt = now
  deliveredAt : e.deliveredAt = none
  readAt : e.readAt = none
  group : e.groupMessageId.isSome = true ↔ isGroupKind f.kind

/-! ## The frames of an event -/

@[simp] theorem kind_encryptSealed (me peer id : Bytes) (kind : InnerEnvelopeKind) (body : Bytes) :
    (encryptSealed me peer id kind body).kind = some kind :=
  InnerEnvelopeKind.ofRawValue_rawValue kind

@[simp] theorem payload_encryptSealed (me peer id : Bytes) (kind : InnerEnvelopeKind)
    (body : Bytes) : (encryptSealed me peer id kind body).payload = body := rfl

/-- What an event seals, each frame under the message id drawn for it. -/
def Event.seals (me : Bytes) : Event → List Sealed
  | .send peer _ text a => [encryptSealed me peer a.messageId .chat text]
  | .shipPreparedAttachment peer _ _ chunks =>
    chunks.map fun c => encryptSealed me peer c.2.messageId .fileChunk c.1
  | .sendGroupMessage _ body legs =>
    legs.map fun l => encryptSealed me l.recipient l.attempt.messageId .groupChat body
  | .shipPreparedGroupAttachment _ _ _ chunks =>
    (chunkTurns chunks).map fun turn =>
      encryptSealed me turn.leg.recipient turn.leg.attempt.messageId .groupFileChunk turn.body
  | .emitAck peer acked a => [encryptSealed me peer a.messageId .ack acked]
  | .emitReadReceipt peer highest a => [encryptSealed me peer a.messageId .readReceipt highest]
  | .sendChainRefreshRequest peer a => [encryptSealed me peer a.messageId .chainRefreshRequest []]
  | .broadcastGroupOp peer signedBytes a =>
    [encryptSealed me peer a.messageId .groupOp signedBytes]
  | .broadcastSenderKeyDistribution peer body a =>
    [encryptSealed me peer a.messageId .groupKeyDistribution body]
  | .broadcastGroupBootstrap peer body a =>
    [encryptSealed me peer a.messageId .groupBootstrap body]
  | _ => []

/-- A peer's answer stamps the rows it speaks of. -/
def Answered (row : OutboxEntry → Prop) (now : Int) : Event → Prop
  | .handleAckPayload payload fromPeer =>
    payload.length = 16 → ∀ e, row e → e.messageId = payload → e.recipientPeerId = fromPeer →
      row { e with deliveredAt := some now }
  | .handleReadReceiptPayload peer cutoff =>
    ∀ e, row e → e.recipientPeerId = peer → e.groupMessageId.isSome = true → e.sentAt ≤ cutoff →
      row { e with readAt := some now }
  | _ => True

/-! ## The clock -/

section Clock

variable {blake3 : Bytes → ChainValue} {me : Bytes} {d d₁ : Outbound} {peer : Bytes}
  {token : Token}

theorem now_mint (hmint : d.mintV2DeliveryToken blake3 peer = some (token, d₁)) :
    d₁.now = d.now := by
  obtain ⟨chain, -, -, -, rfl⟩ := mint_eq_some_iff.mp hmint
  rfl

@[simp] theorem now_handOver (d : Outbound) (e : OutboxEntry) (token : Token) (ready : Nat) :
    (d.handOver e token ready).now = d.now := by
  unfold handOver sendSealedToRelays
  split <;> rfl

theorem now_holdLeg (d : Outbound) (groupMessageId body : Bytes) (l : GroupLeg) :
    (d.holdLeg blake3 me groupMessageId body l).now = d.now := by
  unfold holdLeg
  cases hmint : d.mintV2DeliveryToken blake3 l.recipient with
  | none => rfl
  | some minted =>
    have hnow : minted.2.now = d.now := now_mint hmint
    simp only
    split
    · exact hnow
    · exact hnow

theorem now_shipGroupChunk (d : Outbound) (groupMessageId : Bytes)
    (attachmentId : Pizzini.Attachments.AttachmentId) (chunkCount : Nat) (turn : ChunkTurn) :
    (d.shipGroupChunk blake3 me groupMessageId attachmentId chunkCount turn).now = d.now := by
  unfold shipGroupChunk
  cases hmint : d.mintV2DeliveryToken blake3 turn.leg.recipient with
  | none => rfl
  | some minted =>
    simp only
    split
    · rw [now_handOver, now_mint hmint]
    · exact now_mint hmint

end Clock

/-! ## The invariant -/

/-- The rows have `row`, the frames under way have `frame`. -/
structure Meets (row : OutboxEntry → Prop) (frame : Sealed → Prop) (d : Outbound) : Prop where
  rows : ∀ id e, d.outbox.lookup id = some e → e.messageId = id ∧ row e
  legs : ∀ leg ∈ d.legs, frame leg.sealed
  carried : ∀ x ∈ d.carried, frame x.frame

theorem meets_start (row : OutboxEntry → Prop) (frame : Sealed → Prop) (now : Int) :
    (start now).Meets row frame where
  rows id e h := by cases h
  legs leg h := by cases h
  carried x h := by cases h

namespace Meets

variable {blake3 : Bytes → ChainValue} {me : Bytes} {row row' : OutboxEntry → Prop}
  {frame frame' : Sealed → Prop} {d d₁ : Outbound} {peer : Bytes} {token : Token}
  {e : OutboxEntry}

theorem imp (h : d.Meets row frame) (hrow : ∀ e, row e → row' e)
    (hframe : ∀ f, frame f → frame' f) : d.Meets row' frame' where
  rows id e hlookup := ⟨(h.rows id e hlookup).1, hrow e (h.rows id e hlookup).2⟩
  legs leg hleg := hframe _ (h.legs leg hleg)
  carried x hx := hframe _ (h.carried x hx)

/-- Chains and clocks are not looked at. -/
theorem of_eq (h : d.Meets row frame) (houtbox : d₁.outbox = d.outbox) (hlegs : d₁.legs = d.legs)
    (hcarried : d₁.carried = d.carried) : d₁.Meets row frame where
  rows := by
    rw [houtbox]
    exact h.rows
  legs := by
    rw [hlegs]
    exact h.legs
  carried := by
    rw [hcarried]
    exact h.carried

theorem mint (h : d.Meets row frame)
    (hmint : d.mintV2DeliveryToken blake3 peer = some (token, d₁)) : d₁.Meets row frame := by
  obtain ⟨chain, -, -, -, rfl⟩ := mint_eq_some_iff.mp hmint
  exact h.of_eq rfl rfl rfl

theorem rollback (h : d.Meets row frame) (peer : Bytes) (mintedIndex : Nat) :
    (d.rollbackV2DeliveryToken peer mintedIndex).Meets row frame := by
  unfold rollbackV2DeliveryToken
  split
  · exact h
  · exact h.of_eq rfl rfl rfl

theorem insert (h : d.Meets row frame) {id : Bytes} (hid : e.messageId = id) (he : row e) :
    ({ d with outbox := d.outbox.insert id e } : Outbound).Meets row frame where
  rows id' e' hlookup := by
    rcases AList.lookup_insert_cases hlookup with ⟨rfl, rfl⟩ | ⟨-, hlookup⟩
    · exact ⟨hid, he⟩
    · exact h.rows id' e' hlookup
  legs := h.legs
  carried := h.carried

theorem store (h : d.Meets row frame) (he : row e) : (d.store e).Meets row frame := h.insert rfl he

theorem send (h : d.Meets row frame) {f : Sealed} (hf : frame f) (peer : Bytes) (token : Token)
    (ready : Nat) : (d.sendSealedToRelays peer f token ready).Meets row frame := by
  unfold sendSealedToRelays
  split
  · refine { rows := h.rows, legs := h.legs, carried := fun x hx => ?_ }
    rcases List.mem_append.mp hx with hx | hx
    · exact h.carried x hx
    · cases List.mem_singleton.mp hx
      exact hf
  · exact h

/-- Rows that are revised or dropped. -/
theorem revise (h : d.Meets row frame) {outbox : Outbox}
    (hrows : ∀ id e', outbox.lookup id = some e' → ∃ e, d.outbox.lookup id = some e ∧
      e'.messageId = e.messageId ∧ (row e → row e')) :
    ({ d with outbox := outbox } : Outbound).Meets row frame where
  rows id e' hlookup := by
    obtain ⟨e, he, hid, hrow⟩ := hrows id e' hlookup
    exact ⟨hid.trans (h.rows id e he).1, hrow (h.rows id e he).2⟩
  legs := h.legs
  carried := h.carried

/-! ## Each path -/

section Paths

variable (hsame : ∀ {e e'}, row e → SameSend e e' → row e')
  (hframe : ∀ {e}, row e → frame e.sealedCiphertext)
include hsame hframe

theorem handOver (h : d.Meets row frame) (he : row e) (token : Token) (ready : Nat) :
    (d.handOver e token ready).Meets row frame := by
  refine (h.send (hframe he) _ token ready).store ?_
  split
  · exact hsame he ⟨rfl, rfl, rfl, rfl, rfl, rfl, rfl⟩
  · exact he

theorem sendText (h : d.Meets row frame) {ttl : Int} {text : Bytes} {a : Attempt}
    (hnew : ∀ e, FreshRow d.now (encryptSealed me peer a.messageId .chat text) e → row e) :
    (d.send blake3 me peer ttl text a).Meets row frame := by
  unfold Outbound.send
  cases hmint : d.mintV2DeliveryToken blake3 peer with
  | none => exact h
  | some minted =>
    obtain ⟨token, d₁⟩ := minted
    have hrow : ∀ failedAt, row
        { d₁.newEntry (encryptSealed me peer a.messageId .chat text) token ttl with
          failedAt := failedAt } :=
      fun failedAt => hnew _ ⟨rfl, rfl, rfl, now_mint hmint, rfl, rfl, by simp [newEntry, isGroupKind]⟩
    simp only [sendV2]
    split
    · split
      · exact (h.mint hmint).handOver hsame hframe (hrow none) token a.ready
      · exact (h.mint hmint).store (hrow _)
    · exact (h.mint hmint).rollback peer token.index

theorem shipChunks {ttl : Int} {attachmentId : Pizzini.Attachments.AttachmentId}
    {chunkCount : Nat} {chunks : List (Bytes × Attempt)} :
    ∀ {i : Nat} {d : Outbound}, d.Meets row frame →
      (∀ c ∈ chunks, ∀ e,
        FreshRow d.now (encryptSealed me peer c.2.messageId .fileChunk c.1) e → row e) →
      (d.shipChunks blake3 me peer ttl attachmentId chunkCount i chunks).Meets row frame := by
  induction chunks with
  | nil => exact fun h _ => h
  | cons c chunks ih =>
    obtain ⟨body, a⟩ := c
    intro i d h hnew
    unfold Outbound.shipChunks
    cases hencrypts : a.encrypts with
    | false => exact h
    | true =>
      rw [if_pos rfl]
      cases hmint : d.mintV2DeliveryToken blake3 peer with
      | none => exact h
      | some minted =>
        obtain ⟨token, d₁⟩ := minted
        have hrow : ∀ failedAt, row
            { d₁.newEntry (encryptSealed me peer a.messageId .fileChunk body) token ttl with
              attachmentId := some attachmentId
              chunkIndex := some i
              chunkCount := some chunkCount
              failedAt := failedAt } := fun failedAt =>
          hnew (body, a) (List.mem_cons_self ..) _
            ⟨rfl, rfl, rfl, now_mint hmint, rfl, rfl, by simp [newEntry, isGroupKind]⟩
        simp only
        split
        · refine ih ((h.mint hmint).handOver hsame hframe (hrow none) token a.ready)
            fun c hc e he => hnew c (List.mem_cons_of_mem _ hc) e ?_
          rwa [now_handOver, now_mint hmint] at he
        · exact (h.mint hmint).store (hrow _)

omit hsame in
theorem holdLeg (h : d.Meets row frame) {groupMessageId body : Bytes} {l : GroupLeg}
    (hnew : ∀ e,
      FreshRow d.now (encryptSealed me l.recipient l.attempt.messageId .groupChat body) e →
        row e) :
    (d.holdLeg blake3 me groupMessageId body l).Meets row frame := by
  unfold Outbound.holdLeg
  cases hmint : d.mintV2DeliveryToken blake3 l.recipient with
  | none => exact h
  | some minted =>
    obtain ⟨token, d₁⟩ := minted
    simp only
    split
    · obtain ⟨chain, -, -, -, rfl⟩ := mint_eq_some_iff.mp hmint
      have hrow := hnew
        { d.newEntry (encryptSealed me l.recipient l.attempt.messageId .groupChat body) token
            l.ttl with groupMessageId := some groupMessageId }
        ⟨rfl, rfl, rfl, rfl, rfl, rfl, by simp [isGroupKind]⟩
      refine { rows := (h.store hrow).rows, legs := fun leg hleg => ?_, carried := h.carried }
      rcases List.mem_append.mp hleg with hleg | hleg
      · exact h.legs leg hleg
      · cases List.mem_singleton.mp hleg
        exact hframe hrow
    · exact h.mint hmint

omit hframe in
theorem releaseLeg (h : d.Meets row frame) (index ready : Nat) :
    (d.releaseLeg index ready).Meets row frame := by
  unfold Outbound.releaseLeg
  cases hleg : d.legs[index]? with
  | none => exact h
  | some leg =>
    have hrest : ({ d with legs := d.legs.eraseIdx index } : Outbound).Meets row frame :=
      { rows := h.rows
        legs := fun l hl => h.legs l (List.mem_of_mem_eraseIdx hl)
        carried := h.carried }
    have hsent := hrest.send (h.legs leg (List.mem_of_getElem? hleg)) leg.recipient leg.token ready
    simp only
    split
    · cases hrow : d.outbox.lookup leg.messageId with
      | none => exact hsent
      | some entry =>
        exact hsent.insert (h.rows _ _ hrow).1
          (hsame (h.rows _ _ hrow).2 ⟨rfl, rfl, rfl, rfl, rfl, rfl, rfl⟩)
    · exact hsent

theorem shipGroupChunk (h : d.Meets row frame) {groupMessageId : Bytes}
    {attachmentId : Pizzini.Attachments.AttachmentId} {chunkCount : Nat} {turn : ChunkTurn}
    (hnew : ∀ e, FreshRow d.now (encryptSealed me turn.leg.recipient
      turn.leg.attempt.messageId .groupFileChunk turn.body) e → row e) :
    (d.shipGroupChunk blake3 me groupMessageId attachmentId chunkCount turn).Meets row frame := by
  unfold Outbound.shipGroupChunk
  cases hmint : d.mintV2DeliveryToken blake3 turn.leg.recipient with
  | none => exact h
  | some minted =>
    obtain ⟨token, d₁⟩ := minted
    simp only
    split
    · obtain ⟨chain, -, -, -, rfl⟩ := mint_eq_some_iff.mp hmint
      exact (h.mint hmint).handOver hsame hframe
        (hnew _ ⟨rfl, rfl, rfl, rfl, rfl, rfl, by simp [isGroupKind]⟩) token _
    · exact h.mint hmint

theorem resend (h : d.Meets row frame) (hrow : row e) (ready : Nat) :
    (d.resend blake3 e ready).Meets row frame := by
  unfold Outbound.resend
  cases hmint : d.mintV2DeliveryToken blake3 e.recipientPeerId with
  | none => exact h
  | some minted =>
    obtain ⟨token, d₁⟩ := minted
    have hsent := (h.mint hmint).send (hframe hrow) e.recipientPeerId token ready
    simp only
    split
    · exact hsent.store (hsame hrow ⟨rfl, rfl, rfl, rfl, rfl, rfl, rfl⟩)
    · exact hsent.rollback _ _

omit hframe in
theorem expire (h : d.Meets row frame) : d.expire.Meets row frame := by
  refine h.revise fun id e' hlookup => ?_
  rw [AList.lookup_mapVals, Option.map_eq_some_iff] at hlookup
  obtain ⟨e, he, rfl⟩ := hlookup
  refine ⟨e, he, ?_⟩
  split
  · exact ⟨rfl, fun hrow => hsame hrow ⟨rfl, rfl, rfl, rfl, rfl, rfl, rfl⟩⟩
  · exact ⟨rfl, fun hrow => hrow⟩

omit hsame hframe in
theorem collect (h : d.Meets row frame) : d.collect.Meets row frame := by
  refine h.revise fun id e hlookup => ?_
  rw [AList.lookup_retain, Option.filter_eq_some_iff] at hlookup
  exact ⟨e, hlookup.1, rfl, fun hrow => hrow⟩

/-- The rows to be sent again are rows of the outbox. -/
theorem runRetryWalk (h : d.Meets row frame) (connected : Bool) (ready : Bytes → Nat) :
    (d.runRetryWalk blake3 connected ready).Meets row frame := by
  have hexpired : d.expire.Meets row frame := h.expire hsame
  unfold Outbound.runRetryWalk
  refine collect ?_
  cases connected with
  | false => exact hexpired
  | true =>
    have hdue : ∀ e ∈ retryableEntries d.expire.outbox d.expire.now, row e := by
      intro e he
      obtain ⟨⟨id, e⟩, hmem, rfl⟩ := List.mem_map.mp
        (List.mem_filter.mp ((List.mem_insertionSort _).mp he)).1
      exact (hexpired.rows id e (AList.lookup_eq_some_iff.mpr hmem)).2
    simp only [if_true]
    exact List.foldlRecOn _ _ hexpired fun d hd e he => hd.resend hsame hframe (hdue e he) _

theorem userRetry (h : d.Meets row frame) (messageId : Bytes) (connected : Bool) (ready : Nat) :
    (d.userRetry blake3 messageId connected ready).Meets row frame := by
  unfold Outbound.userRetry
  cases hlookup : d.outbox.lookup messageId with
  | none => exact h
  | some entry =>
    obtain ⟨hid, hrow⟩ := h.rows _ _ hlookup
    simp only
    split
    · cases hmint : d.mintV2DeliveryToken blake3 entry.recipientPeerId with
      | none => exact h
      | some minted =>
        obtain ⟨token, d₁⟩ := minted
        have hsent := (h.mint hmint).send (hframe hrow) entry.recipientPeerId token ready
        refine hsent.insert ?_ ?_
        · split <;> exact hid
        · split <;> exact hsame hrow ⟨rfl, rfl, rfl, rfl, rfl, rfl, rfl⟩
    · exact h

omit hsame hframe in
theorem emit (h : d.Meets row frame) {kind : InnerEnvelopeKind} {body : Bytes} {a : Attempt}
    (hnew : frame (encryptSealed me peer a.messageId kind body)) :
    (d.emit blake3 me peer kind body a).Meets row frame := by
  unfold Outbound.emit
  cases hmint : d.mintV2DeliveryToken blake3 peer with
  | none => exact h
  | some minted =>
    obtain ⟨token, d₁⟩ := minted
    simp only
    split
    · split
      · exact ((h.mint hmint).send hnew ..).rollback ..
      · exact (h.mint hmint).send hnew ..
    · exact (h.mint hmint).rollback ..

omit hsame hframe in
theorem broadcast (h : d.Meets row frame) {kind : InnerEnvelopeKind} {body : Bytes} {a : Attempt}
    (hnew : frame (encryptSealed me peer a.messageId kind body)) :
    (d.broadcast blake3 me peer kind body a).Meets row frame := by
  unfold Outbound.broadcast
  cases hmint : d.mintV2DeliveryToken blake3 peer with
  | none => exact h
  | some minted =>
    simp only
    split
    · exact (h.mint hmint).send hnew ..
    · exact h.mint hmint

omit hsame hframe in
theorem sendChainRefreshRequest (h : d.Meets row frame) {a : Attempt}
    (hnew : frame (encryptSealed me peer a.messageId .chainRefreshRequest [])) :
    (d.sendChainRefreshRequest blake3 me peer a).Meets row frame := by
  unfold Outbound.sendChainRefreshRequest
  cases hmint : d.mintV2DeliveryToken blake3 peer with
  | none => exact h
  | some minted =>
    simp only
    split
    · split
      · exact (h.mint hmint).send hnew ..
      · exact h.mint hmint
    · exact h.mint hmint

omit hsame hframe in
theorem userTryAgainExpired (h : d.Meets row frame) (messageId : Bytes) :
    (d.userTryAgainExpired messageId).Meets row frame := by
  unfold Outbound.userTryAgainExpired
  split
  · exact h
  · split
    · refine h.revise fun id e hlookup => ?_
      have hne : id ≠ messageId := by
        rintro rfl
        rw [AList.lookup_erase] at hlookup
        cases hlookup
      rw [AList.lookup_erase_ne hne] at hlookup
      exact ⟨e, hlookup, rfl, fun hrow => hrow⟩
    · exact h

omit hsame hframe in
theorem acknowledge (h : d.Meets row frame) {payload fromPeer : Bytes}
    (hanswer : Answered row d.now (.handleAckPayload payload fromPeer)) :
    (d.handleAckPayload payload fromPeer).Meets row frame := by
  unfold handleAckPayload Outbox.acknowledge
  split
  · exact h
  · next hlen =>
    cases hlookup : d.outbox.lookup payload with
    | none => exact h
    | some entry =>
      obtain ⟨hid, hrow⟩ := h.rows _ _ hlookup
      simp only
      split
      · next hpeer =>
        exact h.insert hid (hanswer (by simpa using hlen) entry hrow hid hpeer)
      · exact h

omit hsame hframe in
theorem stampLegs (h : d.Meets row frame) {peer : Bytes} {cutoff : Int}
    (hanswer : Answered row d.now (.handleReadReceiptPayload peer cutoff)) :
    (d.handleReadReceiptPayload peer cutoff).Meets row frame := by
  refine h.revise fun id e' hlookup => ?_
  rw [Outbox.stampLegs, AList.lookup_mapVals, Option.map_eq_some_iff] at hlookup
  obtain ⟨e, he, rfl⟩ := hlookup
  refine ⟨e, he, ?_⟩
  split
  · next hleg => exact ⟨rfl, fun hrow => hanswer e hrow hleg.1 hleg.2.1 hleg.2.2.1⟩
  · exact ⟨rfl, fun hrow => hrow⟩

/-- One event. -/
theorem step (h : d.Meets row frame) {ev : Event}
    (hseals : ∀ f ∈ ev.seals me, frame f ∧ ∀ e, FreshRow d.now f e → row e)
    (hanswer : Answered row d.now ev) : (d.step blake3 me ev).Meets row frame := by
  cases ev with
  | send peer ttl text a =>
    exact h.sendText hsame hframe (hseals _ (List.mem_singleton_self _)).2
  | shipPreparedAttachment peer ttl attachmentId chunks =>
    simp only [Outbound.step, Outbound.shipPreparedAttachment]
    split
    · exact h
    · exact shipChunks hsame hframe h fun c hc => (hseals _ (List.mem_map_of_mem hc)).2
  | sendGroupMessage groupMessageId body legs =>
    refine (List.foldlRecOn legs _
      (motive := fun d' : Outbound => d'.Meets row frame ∧ d'.now = d.now) ⟨h, rfl⟩
      fun d' hd l hl => ⟨hd.1.holdLeg hframe ?_, (now_holdLeg ..).trans hd.2⟩).1
    rw [hd.2]
    exact (hseals _ (List.mem_map_of_mem hl)).2
  | releaseLeg index ready => exact h.releaseLeg hsame index ready
  | shipPreparedGroupAttachment groupMessageId attachmentId chunkCount chunks =>
    refine (List.foldlRecOn (chunkTurns chunks) _
      (motive := fun d' : Outbound => d'.Meets row frame ∧ d'.now = d.now) ⟨h, rfl⟩
      fun d' hd turn hturn =>
        ⟨hd.1.shipGroupChunk hsame hframe ?_, (now_shipGroupChunk ..).trans hd.2⟩).1
    rw [hd.2]
    exact (hseals _ (List.mem_map_of_mem hturn)).2
  | emitAck peer acked a => exact h.emit (hseals _ (List.mem_singleton_self _)).1
  | emitReadReceipt peer highest a => exact h.emit (hseals _ (List.mem_singleton_self _)).1
  | sendChainRefreshRequest peer a =>
    exact h.sendChainRefreshRequest (hseals _ (List.mem_singleton_self _)).1
  | broadcastGroupOp peer signedBytes a =>
    exact h.broadcast (hseals _ (List.mem_singleton_self _)).1
  | broadcastSenderKeyDistribution peer body a =>
    exact h.broadcast (hseals _ (List.mem_singleton_self _)).1
  | broadcastGroupBootstrap peer body a =>
    exact h.broadcast (hseals _ (List.mem_singleton_self _)).1
  | runRetryWalk connected ready => exact h.runRetryWalk hsame hframe connected ready
  | userRetry messageId connected ready => exact h.userRetry hsame hframe messageId connected ready
  | userRetryAttachment attachmentId connected ready =>
    exact List.foldlRecOn _ _ h fun d hd e _ => hd.userRetry hsame hframe e.messageId connected _
  | userTryAgainExpired messageId => exact h.userTryAgainExpired messageId
  | handleAckPayload payload fromPeer => exact h.acknowledge hanswer
  | handleReadReceiptPayload peer cutoff => exact h.stampLegs hanswer
  | handleChainSeedDelivery peer payload =>
    simp only [Outbound.step, Outbound.handleChainSeedDelivery]
    split
    · exact h
    · exact h.of_eq rfl rfl rfl
  | tick seconds => exact h.of_eq rfl rfl rfl

end Paths

end Meets

end Outbound

end Pizzini.Delivery
