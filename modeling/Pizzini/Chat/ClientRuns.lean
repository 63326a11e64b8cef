import Pizzini.Chat.Records

/-!
# The handlers keep the records

One lemma for each handler of `ChatStore`. `Within me before c hand`: in the course of a call
that began with the history `before`, the records are kept, what was sent is still on record,
and no other frame has come in. A handler that only emits also leaves the conversations alone
(`Quiet`), so what an emission cites is still there when the next one follows.
-/

namespace Pizzini.Chat

open Wire Relay Delivery
open Delivery.Outbound (Answered encryptSealed)
open Pizzini.Attachments (AttachmentReassembler FileChunkEnvelope Foundation)
open Pizzini.Group.ChatStore (splitGroupId)

/-- The calls that answer nobody and take no answer. -/
def plain : Outbound.Event → Prop
  | .emitAck .. | .emitReadReceipt .. | .handleAckPayload .. | .handleReadReceiptPayload .. => False
  | _ => True

theorem plain_kind {ev : Outbound.Event} {me : Bytes} (hplain : plain ev) :
    ∀ f ∈ ev.seals me, f.kind ≠ some .ack ∧ f.kind ≠ some .readReceipt := by
  intro f hf
  cases ev <;> simp only [plain] at hplain <;> simp [Outbound.Event.seals] at hf <;>
    grind [Outbound.kind_encryptSealed]

/-- `readReceiptCutoff` is the date of a message of ours with that id. -/
theorem cutoff_sent {me : Bytes} {c : ChatStore} {hand : Option Sealed} (h : c.SoundWith me hand)
    {payload peer : Bytes} {cutoff : Int}
    (hcutoff : Outbox.readReceiptCutoff payload (c.chats.log (.oneOnOne peer)) c.out.outbox =
      some cutoff) :
    ∃ f, (f, cutoff) ∈ c.history.sent ∧ f.messageId = payload := by
  unfold Outbox.readReceiptCutoff at hcutoff
  split at hcutoff
  · next row hrow =>
    -- an own row of the log; where there is none, the entry of the outbox
    cases hcutoff
    have hmem := List.mem_reverse.mp (List.mem_of_find?_eq_some hrow)
    have hmine := List.find?_some hrow
    simp only [decide_eq_true_eq] at hmine
    obtain ⟨-, f, -, -, hf, hid, -⟩ := (h.backed.own _ row (.inl hmem) hmine.1).text payload hmine.2
    exact ⟨f, hf, hid⟩
  · obtain ⟨e, he, rfl⟩ := Option.map_eq_some_iff.mp hcutoff
    obtain ⟨hkey, hrow⟩ := h.backed.held.rows _ _ he
    exact ⟨_, hrow.sent, hrow.messageId.trans hkey⟩

/-- What the scan of `markGroupRead` finds are rows of the log. -/
theorem mem_highestPerSender {log : List PersistedMessage} {sender : Bytes} {v : Bytes × Int}
    (hlookup : (ChatStore.highestPerSender log).lookup sender = some v) :
    ∃ row ∈ log, row.side = .peer ∧ row.senderPeerId = some sender ∧ row.messageId = some v.1 := by
  revert sender v
  refine List.foldlRecOn log _
    (motive := fun d : Dict Bytes (Bytes × Int) => ∀ {sender : Bytes} {v : Bytes × Int},
      d.lookup sender = some v →
        ∃ row ∈ log, row.side = .peer ∧ row.senderPeerId = some sender ∧
          row.messageId = some v.1)
    (fun hnone => by simp at hnone) fun d hd row hrow sender v hlookup => ?_
  split at hlookup
  · next hpeer =>
    split at hlookup
    · next from' mid hfrom hmid =>
      split at hlookup
      · exact hd hlookup
      · rcases AList.lookup_insert_cases hlookup with ⟨rfl, rfl⟩ | ⟨-, hlookup⟩
        · exact ⟨row, hrow, hpeer.1, hfrom, hmid⟩
        · exact hd hlookup
    · exact hd hlookup
  · exact hd hlookup

namespace ChatStore

/-- A call is under way. -/
structure Within (me : Bytes) (before : History) (c : ChatStore) (hand : Option Sealed) : Prop where
  records : c.SoundWith me hand
  sent : before.sent ⊆ c.history.sent
  taken : c.history.taken = before.taken

variable {blake3 : Bytes → ChainValue} {F : Foundation} {me : Bytes} {c c' c'' : ChatStore}
  {before : History} {hand : Option Sealed} {peer : Bytes} {f : Sealed}

theorem Sound.within (h : c.Sound me) : c.Within me c.history none :=
  ⟨h, List.Subset.refl _, rfl⟩

/-! ## Emissions -/

/-- No conversation has changed. -/
structure Quiet (c c' : ChatStore) : Prop where
  chats : c'.chats = c.chats
  shown : c'.history.shown = c.history.shown

namespace Quiet

theorem refl (c : ChatStore) : Quiet c c := ⟨rfl, rfl⟩

theorem trans (h : Quiet c c') (h' : Quiet c' c'') : Quiet c c'' :=
  ⟨h'.chats.trans h.chats, h'.shown.trans h.shown⟩

theorem emitReadReceipt (c : ChatStore) (s : Surface) (peer highest : Bytes) (connected : Bool)
    (a : Attempt) : Quiet c (c.emitReadReceipt blake3 me s peer highest connected a) := by
  unfold ChatStore.emitReadReceipt
  split
  · exact .refl c
  · split
    · exact ⟨rfl, rfl⟩
    · exact .refl c

end Quiet

namespace Within

/-- The parts that no record speaks of are free. -/
theorem of_eq (h : c.Within me before hand) (hout : c'.out = c.out) (hseeds : c'.seeds = c.seeds)
    (hchats : c'.chats = c.chats) (hhistory : c'.history = c.history)
    (hdecrypted : c'.decrypted = c.decrypted) : c'.Within me before hand := by
  obtain ⟨hrec, hsent, htaken⟩ := h
  refine ⟨?_, hhistory ▸ hsent, hhistory ▸ htaken⟩
  rw [SoundWith, hout, hseeds, hchats, hhistory, hdecrypted]
  exact hrec

theorem call (h : c.Within me before hand) (ev : Outbound.Event)
    (hvouched : ∀ f ∈ ev.seals me, c.history.Vouches f)
    (hanswer : Answered (c.call blake3 me ev).history.RowEvidence c.out.now ev) :
    (c.call blake3 me ev).Within me before hand where
  records := h.records.call ev hvouched hanswer
  sent := List.subset_append_of_subset_left _ h.sent
  taken := h.taken

theorem callPlain (h : c.Within me before hand) (ev : Outbound.Event) (hplain : plain ev) :
    (c.call blake3 me ev).Within me before hand := by
  refine h.call ev (fun f hf => ?_) ?_
  · exact ⟨fun hkind => absurd hkind (plain_kind hplain f hf).1,
      fun hkind => absurd hkind (plain_kind hplain f hf).2⟩
  · cases ev <;> simp only [plain] at hplain <;> exact trivial

theorem updateContact (h : c.Within me before hand) (peer : Bytes) (g : Contact → Contact) :
    (c.updateContact peer g).Within me before hand := by
  unfold ChatStore.updateContact
  split
  · exact h
  · exact h.of_eq rfl rfl rfl rfl rfl

/-- A row of the user. -/
theorem addOwn (h : c.Within me before hand) {s : Surface} {m : PersistedMessage}
    (hside : m.side = .me) (hown : OwnRow c.history s { m with id := c.chats.nextId }) :
    (c.addRow s m).Within me before hand :=
  ⟨h.records.addRow hside hown, h.sent, h.taken⟩

/-- A row without a message id. -/
theorem addRow (h : c.Within me before hand) {s : Surface} {m : PersistedMessage}
    (hside : m.side = .me) (hid : m.messageId = none) (hread : m.readAt = none) :
    (c.addRow s m).Within me before hand :=
  h.addOwn hside
    ⟨fun id hsome => by simp [hid] at hsome, fun hsome => by simp [hread] at hsome⟩

theorem appendSystem (h : c.Within me before hand) (text : String) (peer : Bytes) :
    (c.appendSystem text peer).Within me before hand := h.addRow rfl rfl rfl

theorem appendGroupSystem (h : c.Within me before hand) (groupId : Bytes) (text : String) :
    (c.appendGroupSystem groupId text).Within me before hand := h.addRow rfl rfl rfl

theorem empty (h : c.Within me before hand) (s : Surface) :
    (c.empty s).Within me before hand :=
  ⟨h.records.empty s, h.sent, h.taken⟩

theorem maybeRequestProactiveChainRotation (h : c.Within me before hand) (peer : Bytes)
    (a : Attempt) :
    (c.maybeRequestProactiveChainRotation blake3 me peer a).Within me before hand := by
  have hcall : (c.call blake3 me (.sendChainRefreshRequest peer a)).Within me before hand :=
    h.callPlain _ trivial
  unfold ChatStore.maybeRequestProactiveChainRotation
  split
  · exact h
  · split
    · exact h
    · simp only
      split
      · exact hcall.of_eq rfl rfl rfl rfl rfl
      · exact hcall

theorem serveChain (h : c.Within me before hand) (peer : Bytes) (cooldown : Int) (s : Serving) :
    (c.serveChain me peer cooldown s).Within me before hand := by
  unfold ChatStore.serveChain
  split
  · exact h
  · split
    · exact h
    · split
      · exact h
      · split
        · have hsent := h.records.send
            [(encryptSealed me peer s.attempt.messageId .chainSeedDelivery s.seed, c.out.now)]
            (by simp [encryptSealed])
            (by
              intro x hx
              cases List.mem_singleton.mp hx
              exact ⟨by simp, by simp⟩)
          refine ⟨{ hsent with backed := { hsent.backed with seeds := fun f hf => ?_ } },
            List.subset_append_of_subset_left _ h.sent, h.taken⟩
          -- the seed is on the wire where a relay was ready
          simp only at hf
          split at hf
          · rcases List.mem_append.mp hf with hf | hf
            · exact hsent.backed.seeds f hf
            · cases List.mem_singleton.mp hf
              exact ⟨c.out.now, List.mem_append_right _ (List.mem_singleton_self _)⟩
          · exact hsent.backed.seeds f hf
        · exact h

theorem maybeServePendingChain (h : c.Within me before hand) (peer : Bytes) (s : Serving) :
    (c.maybeServePendingChain me peer s).Within me before hand := by
  unfold ChatStore.maybeServePendingChain
  split
  · exact h
  · split
    · exact h.serveChain ..
    · exact h

/-- An acknowledgement of a frame that came in. -/
theorem emitAck (h : c.Within me before hand) (hf : f ∈ before.taken) (hacked : f.Acked)
    (a : Attempt) : (c.emitAck blake3 me f.sender f.messageId a).Within me before hand := by
  unfold ChatStore.emitAck
  split
  · exact h
  · split
    · refine h.call _ (fun g hg => ?_) trivial
      cases List.mem_singleton.mp hg
      exact ⟨fun _ => ⟨f, h.taken ▸ hf, rfl, rfl, hacked⟩, by simp⟩
    · split
      · exact h
      · exact h.of_eq rfl rfl rfl rfl rfl

/-- A receipt for a message that is shown. -/
theorem emitReadReceipt (h : c.Within me before hand) {s : Surface} {highest : Bytes}
    (hmark : ∃ x ∈ c.history.shown, x.surface = s ∧ x.frame.sender = peer ∧
      x.frame.messageId = highest) (connected : Bool) (a : Attempt) :
    (c.emitReadReceipt blake3 me s peer highest connected a).Within me before hand := by
  unfold ChatStore.emitReadReceipt
  split
  · exact h
  · split
    · have hmarked := h.records.mark ⟨s, peer, highest⟩ hmark
      refine ⟨hmarked.call (.emitReadReceipt peer highest a) (fun g hg => ?_) trivial,
        List.subset_append_of_subset_left _ h.sent, h.taken⟩
      cases List.mem_singleton.mp hg
      exact ⟨by simp, fun _ =>
        ⟨_, List.mem_append_right _ (List.mem_singleton_self _), rfl, rfl⟩⟩
    · exact h

theorem emitReadReceiptIfEnabled (h : c.Within me before hand) (peer : Bytes) (connected : Bool)
    (a : Attempt) :
    (c.emitReadReceiptIfEnabled blake3 me peer connected a).Within me before hand := by
  unfold ChatStore.emitReadReceiptIfEnabled
  split
  · exact h
  · next last hlast =>
    have hmem := List.mem_reverse.mp (List.mem_of_find?_eq_some hlast)
    have hpeer := List.find?_some hlast
    simp only [decide_eq_true_eq] at hpeer
    obtain ⟨id, hid⟩ := Option.isSome_iff_exists.mp hpeer.2
    -- a row of the peer is one that was shown, so its frame is on record
    obtain ⟨x, hx, hs, hlast⟩ := h.records.peers _ last (.inl hmem) hpeer.1
    have hrow : x.row.messageId = some id := by
      rcases hlast with rfl | rfl <;> exact hid
    obtain ⟨hsender, hmid⟩ := (hs ▸ (h.records.shows x hx).2).messageId_of_oneOnOne hrow
    refine h.emitReadReceipt ⟨x, hx, hs, hsender, ?_⟩ connected a
    rw [hid, hmid]
    rfl

theorem markRead (h : c.Within me before hand) (peer : Bytes) (connected : Bool) (a : Attempt) :
    (c.markRead blake3 me peer connected a).Within me before hand :=
  (h.updateContact peer _).emitReadReceiptIfEnabled peer connected a

/-- The receipts go out one after the other; the rows that they cite stay. -/
theorem markGroupRead (h : c.Within me before hand) (groupId : Bytes) (connected : Bool)
    (a : Bytes → Attempt) :
    (c.markGroupRead blake3 me groupId connected a).Within me before hand := by
  unfold ChatStore.markGroupRead
  split
  · exact h
  · refine (List.foldlRecOn (highestPerSender (c.chats.log (.group groupId))).entries _
      (motive := fun c' : ChatStore => c'.Within me before hand ∧ Quiet c c') ⟨h, .refl c⟩
      fun c' hc e he => ?_).1
    obtain ⟨hwithin, hquiet⟩ := hc
    obtain ⟨row, hrow, hside, hsender, hid⟩ :=
      mem_highestPerSender (AList.lookup_eq_some_iff.mpr he)
    obtain ⟨x, hx, hs, hrow⟩ := h.records.peers _ row (.inl hrow) hside
    have hsame : x.row.senderPeerId = some e.1 ∧ x.row.messageId = some e.2.1 := by
      rcases hrow with rfl | rfl <;> exact ⟨hsender, hid⟩
    obtain ⟨hfrom, hmid⟩ := (hs ▸ (h.records.shows x hx).2).messageId_of_group hsame.1 hsame.2
    exact ⟨hwithin.emitReadReceipt ⟨x, hquiet.shown ▸ hx, hs, hfrom, hmid⟩ connected _,
      hquiet.trans (.emitReadReceipt ..)⟩

/-! ## Sending -/

theorem refreshChainAndQueue (h : c.Within me before hand) (text : String) (peer : Bytes) :
    (c.refreshChainAndQueue text peer).Within me before hand := by
  unfold ChatStore.refreshChainAndQueue
  simp only
  split
  · exact h.appendSystem ..
  · have hqueued : ∀ queues : Dict Bytes (List String),
        ({ c with pendingV2Sends := queues } : ChatStore).Within me before hand :=
      fun _ => h.of_eq rfl rfl rfl rfl rfl
    exact (hqueued _).appendSystem ..

/-- The row of a text cites the frame that was sealed with it. -/
theorem sendV2 (h : c.Within me before hand) (text : String) (peer : Bytes) (contact : Contact)
    (a : Draft) : (c.sendV2 blake3 me text peer contact a).Within me before hand := by
  have hsent : (c.call blake3 me
      (.send peer contact.ttlSeconds (utf8 text) a.attempt)).Within me before hand :=
    h.callPlain _ trivial
  unfold ChatStore.sendV2
  simp only
  split
  · exact hsent.appendSystem ..
  · split
    · exact hsent.appendSystem ..
    · refine Within.maybeRequestProactiveChainRotation (updateContact (hsent.addOwn rfl ?_) ..) ..
      refine ⟨fun id hid => ?_, fun hread => by simp at hread⟩
      -- the frame that the call before has put on record
      refine ⟨peer, encryptSealed me peer a.attempt.messageId .chat (utf8 text), text, rfl,
        List.mem_append_right _ (List.mem_singleton_self _), Option.some.inj hid, rfl, ?_, rfl,
        .inl rfl⟩
      exact Outbound.kind_encryptSealed ..

theorem send (h : c.Within me before hand) (text : String) (peer : Bytes) (a : Draft) :
    (c.send blake3 me text peer a).Within me before hand := by
  unfold ChatStore.send
  split
  · exact h
  · split
    · exact h
    · split
      · exact h.appendSystem ..
      · split
        · exact h.sendV2 ..
        · exact h.refreshChainAndQueue ..

theorem drainPendingV2Sends (h : c.Within me before hand) (peer : Bytes) (drain : Nat → Draft) :
    (c.drainPendingV2Sends blake3 me peer drain).Within me before hand := by
  unfold ChatStore.drainPendingV2Sends
  exact List.foldlRecOn _ _ (motive := fun c' : ChatStore => c'.Within me before hand)
    (h.of_eq rfl rfl rfl rfl rfl) fun c' hc x _ => hc.send ..

theorem shipPreparedAttachment (h : c.Within me before hand) (peer : Bytes) (upload : Upload)
    (chunks : List (Bytes × Attempt)) (error : String) (rotation : Attempt) :
    (c.shipPreparedAttachment blake3 me peer upload chunks error rotation).Within me before
      hand := by
  unfold ChatStore.shipPreparedAttachment
  split
  · exact h
  · next contact _ =>
    have hsent : (c.call blake3 me (.shipPreparedAttachment peer contact.ttlSeconds
        upload.info.attachmentId chunks)).Within me before hand := h.callPlain _ trivial
    simp only
    split
    · exact h.appendSystem ..
    · split
      · exact hsent.appendSystem ..
      · exact Within.maybeRequestProactiveChainRotation
          (updateContact (hsent.addRow rfl rfl rfl) ..) ..

theorem fanOut {groupMessageId body : Bytes} {attempt : Bytes → Attempt}
    {x : ChatStore × List String} (h : x.1.Within me before hand) (recipient : Bytes) :
    (fanOut blake3 me groupMessageId body attempt x recipient).1.Within me before hand := by
  unfold ChatStore.fanOut
  simp only
  split
  · exact h
  · split
    · exact h.callPlain _ trivial
    · exact h

theorem groupWork (h : c.Within me before hand) (w : GroupWork) :
    (c.groupWork blake3 me w).Within me before hand := by
  unfold ChatStore.groupWork
  refine List.foldlRecOn w.broadcasts _
    (motive := fun c' : ChatStore => c'.Within me before hand) ?_ fun c' hc b _ =>
      hc.callPlain _ ?_
  · exact List.foldlRecOn w.notices _ (motive := fun c' : ChatStore => c'.Within me before hand)
      (h.of_eq rfl rfl rfl rfl rfl) fun c' hc x _ => hc.appendGroupSystem ..
  · cases b <;> trivial

theorem shipGroupMessage (h : c.Within me before hand) (groupId : Bytes) (text : String)
    (g : Group.ChatGroup) (ciphertext : Bytes) (d : GroupDraft) :
    (c.shipGroupMessage blake3 me groupId text g ciphertext d).Within me before hand := by
  have hsent : ((Group.ChatStore.others g me).foldl
      (ChatStore.fanOut blake3 me d.groupMessageId (groupId ++ ciphertext) d.attempt)
      (c, [])).1.Within me before hand :=
    List.foldlRecOn _ _ (motive := fun x : ChatStore × List String => x.1.Within me before hand) h
      fun x hx recipient _ => hx.fanOut recipient
  unfold ChatStore.shipGroupMessage
  simp only
  split
  · exact hsent.addRow rfl rfl rfl
  · exact (hsent.addRow rfl rfl rfl).appendGroupSystem ..

theorem sendGroupMessage (h : c.Within me before hand) (groupId : Bytes) (text : String)
    (d : GroupDraft) : (c.sendGroupMessage blake3 me groupId text d).Within me before hand := by
  unfold ChatStore.sendGroupMessage
  split
  · exact h
  · split
    · exact h
    · split
      · exact h.appendGroupSystem ..
      · split
        · exact h
        · have hrotated : (c.groupWork blake3 me d.rotation).Within me before hand :=
            h.groupWork d.rotation
          simp only
          split
          · exact hrotated
          · split
            · exact hrotated.appendGroupSystem ..
            · split
              · exact hrotated.appendGroupSystem ..
              · exact hrotated.shipGroupMessage ..

theorem shipPreparedGroupAttachment (h : c.Within me before hand) (groupId groupMessageId : Bytes)
    (upload : Upload) (chunks : List GroupChunk) :
    (c.shipPreparedGroupAttachment blake3 me groupId groupMessageId upload chunks).Within me before
      hand := by
  unfold ChatStore.shipPreparedGroupAttachment
  split
  · exact h
  · split
    · exact h.appendGroupSystem ..
    · split
      · exact h
      · split
        · exact h.appendGroupSystem ..
        · have hsent : ∀ attachmentId chunkCount legs, (c.call blake3 me
              (.shipPreparedGroupAttachment groupMessageId attachmentId chunkCount legs)).Within me
                before hand := fun _ _ _ => h.callPlain _ trivial
          simp only
          split
          · exact (hsent ..).appendGroupSystem ..
          · exact (hsent ..).addRow rfl rfl rfl

/-! ## Frames that come in -/

theorem stampRead (h : c.Within me before hand) {touched : PersistedMessage → Bool}
    (htouched : ∀ m, touched m = true → m.side = .me ∧ c.history.ReadAfter peer m.timestamp) :
    ({ c with
        chats := c.chats.updateWhere (.oneOnOne peer) touched fun m =>
          { m with readAt := some c.out.now } } : ChatStore).Within me before hand :=
  ⟨h.records.stampRead htouched, h.sent, h.taken⟩

/-- The receipt itself is what the stamps rest on. -/
theorem handleReadReceiptPayload (h : c.Within me before hand) (hf : f ∈ before.taken)
    (hkind : f.kind = some .readReceipt) (contact : Contact) :
    (c.handleReadReceiptPayload blake3 me f.payload f.sender contact).Within me before hand := by
  unfold ChatStore.handleReadReceiptPayload
  split
  · exact h
  · split
    · exact h
    · split
      · exact h
      · next cutoff hcutoff =>
        obtain ⟨g, hg, hid⟩ := cutoff_sent h.records hcutoff
        have hafter : ∀ date ≤ cutoff, c.history.ReadAfter f.sender date := fun date hdate =>
          ⟨f, h.taken ▸ hf, rfl, hkind, g, cutoff, hg, hid, hdate⟩
        have htouched : ∀ m : PersistedMessage,
            decide (m.side = .me ∧ m.timestamp ≤ cutoff ∧ m.readAt = none) = true →
              m.side = .me ∧ c.history.ReadAfter f.sender m.timestamp := by
          intro m hm
          simp only [decide_eq_true_eq] at hm
          exact ⟨hm.1, hafter _ hm.2.1⟩
        refine (h.stampRead htouched).call _ (by simp [Outbound.Event.seals]) ?_
        intro e he hpeer hgroup hdate
        refine { he with read := fun _ => ?_ }
        rw [hpeer]
        exact (hafter _ hdate).mono ⟨List.subset_append_left .., List.Subset.refl _⟩

theorem handleAckPayload (h : c.Within me before hand) (hf : f ∈ before.taken)
    (hkind : f.kind = some .ack) :
    (c.call blake3 me (.handleAckPayload f.payload f.sender)).Within me before hand := by
  refine h.call _ (by simp [Outbound.Event.seals]) ?_
  intro _ e he hid hpeer
  exact { he with delivered := fun _ => ⟨f, h.taken ▸ hf, hpeer.symm, hkind, hid.symm⟩ }

/-- A frame leaves its row. -/
theorem addShown (h : c.Within me before (some f)) {s : Surface} {m : PersistedMessage}
    (hf : f ∈ before.taken) (hshows : Shows s f m) (hsaved : ¬Unsaved s m) :
    (c.addShown s f m).Within me before none :=
  ⟨h.records.addShown (h.records.saved.add hsaved) (fun _ _ => Chats.mem_log_add)
    (fun _ _ => h.records.saved.holds_add) Chats.unwritten_add (h.taken ▸ hf) hshows,
    h.sent, h.taken⟩

theorem showUnsaved (h : c.Within me before (some f)) {s : Surface} {m : PersistedMessage}
    (hf : f ∈ before.taken) (hshows : Shows s f m) (hunsaved : Unsaved s m) :
    (c.showUnsaved s f m).Within me before none :=
  ⟨h.records.addShown (h.records.saved.append_unsaved hunsaved) (fun _ _ => Chats.mem_log_append)
    (fun _ _ hm => (Chats.holds_append hm).imp_right fun hnew => ⟨hnew.1, .inl hnew.2⟩)
    (List.Subset.refl _) (h.taken ▸ hf) hshows, h.sent, h.taken⟩

theorem putDown (h : c.Within me before (some f)) (hkind : f.kind ≠ some .chat) :
    c.Within me before none :=
  ⟨h.records.putDown hkind, h.sent, h.taken⟩

theorem handleChatPayload (h : c.Within me before (some f)) (hf : f ∈ before.taken)
    (hkind : f.kind = some .chat) (r : Reception) :
    (c.handleChatPayload blake3 me f r).Within me before none := by
  have hshown := h.addShown hf (.chat hkind rfl rfl rfl rfl)
    (m := { side := .peer
            text := chatText f.payload
            kind := .whisper
            bytes := r.sealedSize
            timestamp := c.out.now
            messageId := some f.messageId }) (by rintro ⟨⟨groupId, hs⟩, -⟩; cases hs)
  unfold ChatStore.handleChatPayload
  simp only
  have hserved := (hshown.updateContact f.sender fun contact =>
    { contact with
      lastMessageAt := some c.out.now
      sessionEstablished := true }).maybeServePendingChain f.sender r.serving
  refine emitAck ?_ hf (.inl hkind) r.ack
  split
  · exact hserved.markRead ..
  · exact hserved

/-- A chunk leaves a row when it is the last of its attachment. -/
theorem handleFileChunkPayload (h : c.Within me before (some f)) (hf : f ∈ before.taken)
    (hkind : f.kind = some .fileChunk)
    (contact : Contact) (r : Reception) :
    (c.handleFileChunkPayload blake3 F me f contact r).Within me before none := by
  have hnochat : f.kind ≠ some .chat := by simp [hkind]
  unfold ChatStore.handleFileChunkPayload
  simp only
  refine emitAck ?_ hf (.inr hkind) r.ack
  split
  · exact (h.putDown hnochat).appendSystem ..
  · next envelope _ =>
    have hfed : ∀ reassembler sandbox, ({ c with
        reassembler := reassembler
        sandbox := sandbox } : ChatStore).Within me before (some f) :=
      fun _ _ => h.of_eq rfl rfl rfl rfl rfl
    split
    · exact (hfed ..).putDown hnochat
    · exact (hfed ..).putDown hnochat
    · next completion _ =>
      refine maybeServePendingChain (updateContact ?_ ..) ..
      refine (hfed ..).addShown hf (.attachment hkind rfl rfl rfl) ?_
      rintro ⟨⟨groupId, hs⟩, -⟩
      cases hs

theorem openGroupFrame_groupId {r : Reception} {groupId ciphertext : Bytes} {plaintext : Option Bytes}
    (hopen : c.openGroupFrame f r = some (groupId, ciphertext, plaintext)) :
    (splitGroupId f.payload).map Prod.fst = some groupId := by
  unfold ChatStore.openGroupFrame at hopen
  split at hopen
  · cases hopen
  · next hsplit =>
    split at hopen
    · split at hopen
      · cases hopen
      · cases hopen
        rw [hsplit]
        rfl
    · cases hopen

theorem surfaceUndecryptable (h : c.Within me before hand) (groupId sender : Bytes) :
    (c.surfaceUndecryptable me groupId sender).Within me before hand := by
  unfold ChatStore.surfaceUndecryptable
  simp only
  split
  · exact h
  · exact h.appendGroupSystem ..

theorem handleGroupChat (h : c.Within me before (some f)) (hf : f ∈ before.taken)
    (hkind : f.kind = some .groupChat)
    (r : Reception) : (c.handleGroupChat blake3 me f r).Within me before none := by
  have hdown := h.putDown (by simp [hkind])
  unfold ChatStore.handleGroupChat
  split
  · exact hdown
  · exact hdown.surfaceUndecryptable ..
  · next groupId ciphertext plaintext hopen =>
    have hshown : ∀ text, (c.addShown (.group groupId) f
        { side := .peer
          text := text
          kind := .whisper
          bytes := ciphertext.length
          timestamp := c.out.now
          messageId := some f.messageId
          senderPeerId := some f.sender }).Within me before none := fun text =>
      h.addShown hf (.groupChat hkind rfl rfl rfl rfl (openGroupFrame_groupId hopen))
        (by rintro ⟨-, -, hattachment⟩; cases hattachment)
    simp only
    split
    · exact (hshown _).markGroupRead ..
    · exact hshown _

theorem handleGroupFileChunk (h : c.Within me before (some f)) (hf : f ∈ before.taken)
    (hkind : f.kind = some .groupFileChunk)
    (r : Reception) : (c.handleGroupFileChunk F me f r).Within me before none := by
  have hdown := h.putDown (by simp [hkind])
  unfold ChatStore.handleGroupFileChunk
  split
  · exact hdown
  · exact hdown.surfaceUndecryptable ..
  · next groupId _ plaintext hopen =>
    split
    · exact hdown
    · simp only
      split
      · exact hdown.of_eq rfl rfl rfl rfl rfl
      · split
        · exact hdown.of_eq rfl rfl rfl rfl rfl
        · exact hdown.of_eq rfl rfl rfl rfl rfl
        · next completion _ =>
          have hunsaved : Unsaved (.group groupId) (c.completionRow completion (some f.sender)) :=
            ⟨⟨groupId, rfl⟩, rfl, rfl⟩
          refine showUnsaved ?_ hf ?_ hunsaved
          · exact h.of_eq rfl rfl rfl rfl rfl
          · exact .groupAttachment hkind rfl rfl rfl rfl (openGroupFrame_groupId hopen)

theorem handleChainSeedDelivery (h : c.Within me before hand) (f : Sealed) (r : Reception) :
    (c.handleChainSeedDelivery blake3 me f r).Within me before hand := by
  unfold ChatStore.handleChainSeedDelivery
  split
  · exact h
  · exact (h.callPlain (.handleChainSeedDelivery f.sender f.payload) trivial).drainPendingV2Sends ..

/-- One case for each inner kind. -/
theorem handle (h : c.Within me before (some f)) (hf : f ∈ before.taken)
    (contact : Contact) (r : Reception)
    {kind : InnerEnvelopeKind} (hkind : f.kind = some kind) :
    (c.handle blake3 F me f contact r kind).Within me before none := by
  have hdown : kind ≠ .chat → c.Within me before none := fun hne =>
    h.putDown fun hchat => hne (Option.some.inj (hkind.symm.trans hchat))
  cases kind with
  | chat => exact h.handleChatPayload hf hkind r
  | ack => exact (hdown (by simp)).handleAckPayload hf hkind
  | readReceipt => exact (hdown (by simp)).handleReadReceiptPayload hf hkind contact
  | fileChunk => exact h.handleFileChunkPayload hf hkind contact r
  | groupChat => exact h.handleGroupChat hf hkind r
  | groupKeyDistribution => exact (hdown (by simp)).groupWork r.work
  | groupOp => exact (hdown (by simp)).groupWork r.work
  | groupBootstrap => exact (hdown (by simp)).groupWork r.work
  | groupFileChunk => exact h.handleGroupFileChunk hf hkind r
  | chainSeedDelivery => exact (hdown (by simp)).handleChainSeedDelivery f r
  | chainRefreshRequest => exact (hdown (by simp)).serveChain ..

/-! ## The user and the timers -/

theorem runRetryWalk (h : c.Within me before hand) (connected : Bool) (ready : Bytes → Nat) :
    (c.runRetryWalk blake3 me connected ready).Within me before hand :=
  (h.callPlain (.runRetryWalk connected ready) trivial).of_eq rfl rfl rfl rfl rfl

theorem userTryAgainExpired (h : c.Within me before hand) (messageId : Bytes) (a : Draft) :
    (c.userTryAgainExpired blake3 me messageId a).Within me before hand := by
  unfold ChatStore.userTryAgainExpired
  split
  · exact h
  · split
    · split
      · exact h
      · split
        · exact h
        · exact (h.callPlain (.userTryAgainExpired messageId) trivial).send ..
    · exact h

/-- Rows and frames under way are as they were, or fewer. -/
theorem of_out (h : c.Within me before hand) {out : Outbound} (houtbox : out.outbox = c.out.outbox)
    (hlegs : out.legs ⊆ c.out.legs) (hcarried : out.carried = c.out.carried) :
    ({ c with out := out } : ChatStore).Within me before hand :=
  ⟨h.records.of_out fun held =>
    { rows := houtbox ▸ held.rows
      legs := fun leg hleg => held.legs leg (hlegs hleg)
      carried := hcarried ▸ held.carried }, h.sent, h.taken⟩

theorem removeContact (h : c.Within me before hand) (peer : Bytes) :
    (c.removeContact peer).Within me before hand := by
  have hchain : ({ c with out := { c.out with chain := Function.update c.out.chain peer none } } :
      ChatStore).Within me before hand := h.of_out rfl (List.Subset.refl _) rfl
  refine empty ?_ _
  exact hchain.of_eq rfl rfl rfl rfl rfl

theorem deleteChat (h : c.Within me before hand) (peer : Bytes) :
    (c.deleteChat peer).Within me before hand := by
  unfold ChatStore.deleteChat
  split
  · exact (h.empty _).updateContact ..
  · exact h

theorem blockIdentity (h : c.Within me before hand) (peer : Bytes) :
    (c.blockIdentity peer).Within me before hand := by
  have hblocked : (if peer ∈ c.blockedIdentities then c
      else { c with blockedIdentities := c.blockedIdentities ++ [peer] }).Within me before hand := by
    split
    · exact h
    · exact h.of_eq rfl rfl rfl rfl rfl
  unfold ChatStore.blockIdentity
  simp only
  split
  · exact hblocked.removeContact peer
  · exact hblocked

/-- A new process holds what was saved. -/
theorem relaunch (h : c.Within me before hand) {disk : Disk} (hdisk : disk.Of c) :
    (c.act blake3 me (.relaunch disk)).Within me before hand := by
  have hread : ({ c with out := { c.out with
      chain := disk.chain
      outbox := disk.outbox
      legs := [] } } : ChatStore).SoundWith me hand := h.records.of_out fun held =>
    { rows := fun id e he => by
        obtain ⟨e', hrow, hsame⟩ := hdisk.outbox id e he
        obtain ⟨hid, hevidence⟩ := h.records.backed.rows _ hrow
        exact ⟨hsame.messageId.trans hid, hevidence.same hsame⟩
      legs := fun leg hleg => absurd hleg List.not_mem_nil
      carried := held.carried }
  have hloaded := hread.load (fun s => (hdisk.log s).1) fun s => (hdisk.log s).2.1
  exact ⟨hloaded.forget hdisk.session, h.sent, h.taken⟩

/-- One case for each call. -/
theorem act (h : c.Within me before hand) {ev : Event} (hreads : ev.Reads c) :
    (c.act blake3 me ev).Within me before hand := by
  cases ev with
  | send text peer a => exact h.send ..
  | shipPreparedAttachment peer upload chunks error rotation => exact h.shipPreparedAttachment ..
  | sendGroupMessage groupId text d => exact h.sendGroupMessage ..
  | shipPreparedGroupAttachment groupId groupMessageId upload chunks =>
    exact h.shipPreparedGroupAttachment ..
  | releaseLeg index ready => exact h.callPlain _ trivial
  | runRetryWalk connected ready => exact h.runRetryWalk ..
  | userRetry messageId connected ready => exact h.callPlain _ trivial
  | userRetryAttachment attachmentId connected ready => exact h.callPlain _ trivial
  | userTryAgainExpired messageId a => exact h.userTryAgainExpired ..
  | markRead peer connected a => exact h.markRead ..
  | markGroupRead groupId connected a => exact h.markGroupRead ..
  | newlyReady ready receipt =>
    have hwalked : (c.runRetryWalk blake3 me true ready).Within me before hand :=
      h.runRetryWalk true ready
    simp only [ChatStore.act]
    split
    · exact hwalked
    · exact hwalked.emitReadReceiptIfEnabled ..
    · exact hwalked.markGroupRead ..
  | setActiveSurface s => exact h.of_eq rfl rfl rfl rfl rfl
  | addContact peer displayName =>
    simp only [ChatStore.act]
    split
    · exact h
    · exact h.of_eq rfl rfl rfl rfl rfl
  | rename peer newName =>
    simp only [ChatStore.act]
    split
    · exact h
    · exact h.updateContact ..
  | bundleResponse peer dropsChain s =>
    have hdropped : (if dropsChain then
        { c with out := { c.out with chain := Function.update c.out.chain peer none } }
        else c).Within me before hand := by
      split
      · exact h.of_out rfl (List.Subset.refl _) rfl
      · exact h
    exact (hdropped.updateContact ..).maybeServePendingChain ..
  | bundleServed peer s => exact (h.updateContact ..).serveChain ..
  | setContactTTL peer seconds => exact h.updateContact ..
  | setReadReceiptsMode peer mode => exact h.updateContact ..
  | setDefaultReadReceipts enabled => exact h.of_eq rfl rfl rfl rfl rfl
  | deleteChat peer => exact h.deleteChat peer
  | deleteAllChats =>
    exact List.foldlRecOn _ _ (motive := fun c' : ChatStore => c'.Within me before hand) h
      fun c' hc peer _ => hc.deleteChat peer
  | deleteContact peer =>
    simp only [ChatStore.act]
    split
    · exact h.removeContact peer
    · exact h
  | blockIdentity peer => exact h.blockIdentity peer
  | unblockIdentity peer => exact h.of_eq rfl rfl rfl rfl rfl
  | deleteGroupChat groupId =>
    simp only [ChatStore.act]
    split
    · exact h.empty _
    · exact h
  | removeGroup groupId =>
    simp only [ChatStore.act]
    split
    · refine empty ?_ _
      exact h.of_eq rfl rfl rfl rfl rfl
    · exact h
  | groupWork w => exact h.groupWork w
  | tick seconds => exact h.callPlain _ trivial
  | relaunch disk => exact h.relaunch hreads

end Within

/-! ## Calls and frames -/

/-- What follows a call. -/
theorem act_within (h : c.Sound me) {ev : Event} (hreads : ev.Reads c) :
    (c.act blake3 me ev).Within me c.history none := h.within.act hreads

/-- What follows a frame: it has come to its handler, or nothing has come in. -/
theorem receive_within (h : c.Sound me) (pipe : Pipe) (f : Sealed) (r : Reception) :
    (c.receive blake3 F me pipe f r).Within me c.history none ∨
      (c.receive blake3 F me pipe f r).Within me
        { c.history with taken := c.history.taken ++ [f] } none := by
  unfold ChatStore.receive
  split
  · exact .inl h.within
  · by_cases hknown : f ∈ c.decrypted
    · -- a copy: the session is as it was
      simp only [if_pos hknown]
      have hopened : ∀ durable, ({ c with durable := durable } : ChatStore).Within me c.history
          none := fun _ => h.within.of_eq rfl rfl rfl rfl rfl
      split
      · exact .inl (hopened _)
      · split
        · exact .inl (hopened _)
        · split <;> exact .inl (hopened _)
    · simp only [if_neg hknown]
      have hopened : ∀ durable, ({ c with
          decrypted := f :: c.decrypted
          durable := durable } : ChatStore).Within me c.history none := fun _ =>
        ⟨h.drop hknown, List.Subset.refl _, rfl⟩
      split
      · exact .inl (hopened _)
      · split
        · exact .inl (hopened _)
        · split
          · exact .inl (hopened _)
          · next contact _ =>
            have htook : ∀ durable, ({ c with
                decrypted := f :: c.decrypted
                durable := durable
                history := { c.history with taken := c.history.taken ++ [f] } } :
                ChatStore).Within me { c.history with taken := c.history.taken ++ [f] }
                  (some f) := fun _ => ⟨h.take hknown, List.Subset.refl _, rfl⟩
            have hf : f ∈ c.history.taken ++ [f] :=
              List.mem_append_right _ (List.mem_singleton_self f)
            unfold ChatStore.dispatch
            simp only
            split
            · next kind hkind => exact .inr ((htook _).handle hf contact r hkind)
            · exact .inl ((hopened _).appendSystem ..)
            · next hkind =>
              exact .inr (((htook _).putDown (by simp [hkind])).handleChainSeedDelivery f r)
            · exact .inl (hopened _)

end ChatStore

end Pizzini.Chat
