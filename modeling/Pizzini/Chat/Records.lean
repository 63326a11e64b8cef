import Pizzini.Chat.SavedRows

/-!
# What a client's records rest on

`Records` is the invariant of one client. Each thing that it shows of a peer, or says to a
peer, has a frame behind it:

- a row of the peer is what a frame of the peer left, and each frame left at most one row each
  time it was taken, which is once and again after each new process that did not know of it;
- a row of an own text is the frame that was sealed for it, at its date;
- an acknowledgement that goes out names a text or a chunk that came in, and a receipt a
  message of a conversation that was read (`Vouches`);
- an outbox row is delivered because an acknowledgement of its peer came in, and read because
  a receipt for a message sent no earlier did (`RowEvidence`, `ReadAfter`).

The invariant is proved for the few changes that handlers are made of; the handlers themselves
are in `ClientRuns`.
-/

namespace Pizzini.Chat

open Wire Relay Delivery
open Delivery.Outbound (Answered FreshRow Meets SameSend encryptSealed isGroupKind)
open Pizzini.Group.ChatStore (splitGroupId)
open Pizzini.Storage (cString cString_cString)

/-! ## Evidence -/

/-- A text or a chunk: what the receiving handler acknowledges. -/
def Sealed.Acked (f : Sealed) : Prop := f.kind = some .chat ∨ f.kind = some .fileChunk

namespace History

/-- More was sent and taken. -/
structure Grows (h h' : History) : Prop where
  sent : h.sent ⊆ h'.sent
  taken : h.taken ⊆ h'.taken

/-- The peer's receipt for a message of ours that was sent at `date` or later has come in. -/
def ReadAfter (h : History) (peer : Bytes) (date : Int) : Prop :=
  ∃ g ∈ h.taken, g.sender = peer ∧ g.kind = some .readReceipt ∧
    ∃ f t, (f, t) ∈ h.sent ∧ f.messageId = g.payload ∧ date ≤ t

/-- What an outbox row says of its send and of the peer's answers. -/
structure RowEvidence (h : History) (e : OutboxEntry) : Prop where
  sent : (e.sealedCiphertext, e.sentAt) ∈ h.sent
  messageId : e.sealedCiphertext.messageId = e.messageId
  recipient : e.sealedCiphertext.recipient = e.recipientPeerId
  group : e.groupMessageId.isSome = true ↔ isGroupKind e.sealedCiphertext.kind
  delivered : e.deliveredAt.isSome = true →
    ∃ g ∈ h.taken, g.sender = e.recipientPeerId ∧ g.kind = some .ack ∧ g.payload = e.messageId
  read : e.readAt.isSome = true → h.ReadAfter e.recipientPeerId e.sentAt

/-- What an answer that goes out rests on. -/
structure Vouches (h : History) (f : Sealed) : Prop where
  ack : f.kind = some .ack →
    ∃ g ∈ h.taken, g.sender = f.recipient ∧ g.messageId = f.payload ∧ g.Acked
  receipt : f.kind = some .readReceipt →
    ∃ mark ∈ h.marks, mark.peer = f.recipient ∧ mark.highest = f.payload

variable {h h' : History}

theorem ReadAfter.mono {peer : Bytes} {date : Int} (hread : h.ReadAfter peer date)
    (hgrows : h.Grows h') : h'.ReadAfter peer date := by
  obtain ⟨g, hg, hsender, hkind, f, t, hf, hid, hdate⟩ := hread
  exact ⟨g, hgrows.taken hg, hsender, hkind, f, t, hgrows.sent hf, hid, hdate⟩

theorem RowEvidence.mono {e : OutboxEntry} (he : h.RowEvidence e) (hgrows : h.Grows h') :
    h'.RowEvidence e where
  sent := hgrows.sent he.sent
  messageId := he.messageId
  recipient := he.recipient
  group := he.group
  delivered hd := by
    obtain ⟨g, hg, hrest⟩ := he.delivered hd
    exact ⟨g, hgrows.taken hg, hrest⟩
  read hr := (he.read hr).mono hgrows

theorem RowEvidence.same {e e' : OutboxEntry} (he : h.RowEvidence e) (hsame : SameSend e e') :
    h.RowEvidence e' := by
  obtain ⟨hid, hpeer, hframe, hsent, hgroup, hdelivered, hread⟩ := hsame
  exact
    { sent := by rw [hframe, hsent]; exact he.sent
      messageId := by rw [hframe, hid]; exact he.messageId
      recipient := by rw [hframe, hpeer]; exact he.recipient
      group := by rw [hframe, hgroup]; exact he.group
      delivered := by rw [hdelivered, hpeer, hid]; exact he.delivered
      read := by rw [hread, hpeer, hsent]; exact he.read }

theorem RowEvidence.fresh {f : Sealed} {now : Int} {e : OutboxEntry} (hf : (f, now) ∈ h.sent)
    (he : FreshRow now f e) : h.RowEvidence e where
  sent := by rw [he.sealedCiphertext, he.sentAt]; exact hf
  messageId := by rw [he.sealedCiphertext, he.messageId]
  recipient := by rw [he.sealedCiphertext, he.recipientPeerId]
  group := by rw [he.sealedCiphertext]; exact he.group
  delivered hd := by simp [he.deliveredAt] at hd
  read hr := by simp [he.readAt] at hr

theorem Vouches.mono {f : Sealed} (hf : h.Vouches f) (htaken : h.taken ⊆ h'.taken)
    (hmarks : h.marks ⊆ h'.marks) : h'.Vouches f where
  ack hkind := by
    obtain ⟨g, hg, hrest⟩ := hf.ack hkind
    exact ⟨g, htaken hg, hrest⟩
  receipt hkind := by
    obtain ⟨mark, hmark, hrest⟩ := hf.receipt hkind
    exact ⟨mark, hmarks hmark, hrest⟩

end History

/-- The row that a text leaves at its recipient. -/
def chatText (payload : Bytes) : String :=
  (ofUtf8? payload).getD ("<" ++ toString payload.length ++ " non-utf8 bytes>")

/-- Which rows a frame may leave, and where. -/
inductive Shows : Surface → Sealed → PersistedMessage → Prop
  | chat {f : Sealed} {row : PersistedMessage} (hkind : f.kind = some .chat)
      (hside : row.side = .peer) (hrow : row.kind = .whisper)
      (hid : row.messageId = some f.messageId) (htext : row.text = chatText f.payload) :
      Shows (.oneOnOne f.sender) f row
  | attachment {f : Sealed} {row : PersistedMessage} (hkind : f.kind = some .fileChunk)
      (hside : row.side = .peer) (hrow : row.kind = .attachment) (hid : row.messageId = none) :
      Shows (.oneOnOne f.sender) f row
  | groupChat {f : Sealed} {row : PersistedMessage} {groupId : Bytes}
      (hkind : f.kind = some .groupChat) (hside : row.side = .peer) (hrow : row.kind = .whisper)
      (hid : row.messageId = some f.messageId) (hsender : row.senderPeerId = some f.sender)
      (hgroup : (splitGroupId f.payload).map Prod.fst = some groupId) :
      Shows (.group groupId) f row
  | groupAttachment {f : Sealed} {row : PersistedMessage} {groupId : Bytes}
      (hkind : f.kind = some .groupFileChunk) (hside : row.side = .peer)
      (hrow : row.kind = .attachment) (hid : row.messageId = none)
      (hsender : row.senderPeerId = some f.sender)
      (hgroup : (splitGroupId f.payload).map Prod.fst = some groupId) :
      Shows (.group groupId) f row

namespace Shows

variable {s : Surface} {f : Sealed} {row : PersistedMessage}

theorem side (h : Shows s f row) : row.side = .peer := by cases h <;> assumption

theorem withId (h : Shows s f row) (id : Nat) : Shows s f { row with id := id } := by
  cases h with
  | chat hkind hside hrow hid htext => exact .chat hkind hside hrow hid htext
  | attachment hkind hside hrow hid => exact .attachment hkind hside hrow hid
  | groupChat hkind hside hrow hid hsender hgroup =>
    exact .groupChat hkind hside hrow hid hsender hgroup
  | groupAttachment hkind hside hrow hid hsender hgroup =>
    exact .groupAttachment hkind hside hrow hid hsender hgroup

/-- A row of a peer that carries a message id names the frame that left it. -/
theorem messageId_of_oneOnOne {peer id : Bytes} (h : Shows (.oneOnOne peer) f row)
    (hid : row.messageId = some id) : f.sender = peer ∧ f.messageId = id := by
  cases h with
  | chat _ _ _ hrow _ => exact ⟨rfl, Option.some.inj (hrow.symm.trans hid)⟩
  | attachment _ _ _ hrow =>
    rw [hrow] at hid
    cases hid

theorem messageId_of_group {groupId sender id : Bytes} (h : Shows (.group groupId) f row)
    (hsender : row.senderPeerId = some sender) (hid : row.messageId = some id) :
    f.sender = sender ∧ f.messageId = id := by
  cases h with
  | groupChat _ _ _ hrow hfrom _ =>
    exact ⟨Option.some.inj (hfrom.symm.trans hsender), Option.some.inj (hrow.symm.trans hid)⟩
  | groupAttachment _ _ _ hrow _ _ =>
    rw [hrow] at hid
    cases hid

end Shows

/-! ## The invariant -/

/-- A row of the local user or of the app. A row that was read from the disk has lost what
follows the first NUL of its text. -/
structure OwnRow (h : History) (s : Surface) (m : PersistedMessage) : Prop where
  text : ∀ id, m.messageId = some id → ∃ peer f text, s = .oneOnOne peer ∧
    (f, m.timestamp) ∈ h.sent ∧ f.messageId = id ∧ f.recipient = peer ∧ f.kind = some .chat ∧
    f.payload = utf8 text ∧ (m.text = text ∨ m.text = cString text)
  read : m.readAt.isSome = true → ∃ peer, s = .oneOnOne peer ∧ h.ReadAfter peer m.timestamp

namespace OwnRow

variable {h h' : History} {s : Surface} {m : PersistedMessage}

theorem mono (hm : OwnRow h s m) (hgrows : h.Grows h') : OwnRow h' s m where
  text id hid := by
    obtain ⟨peer, f, text, hs, hf, hrest⟩ := hm.text id hid
    exact ⟨peer, f, text, hs, hgrows.sent hf, hrest⟩
  read hread := by
    obtain ⟨peer, hs, hafter⟩ := hm.read hread
    exact ⟨peer, hs, hafter.mono hgrows⟩

theorem saved (hm : OwnRow h s m) : OwnRow h s m.saved where
  text id hid := by
    obtain ⟨peer, f, text, hs, hf, hmid, hto, hkind, hpayload, htext⟩ := hm.text id hid
    refine ⟨peer, f, text, hs, hf, hmid, hto, hkind, hpayload, .inr ?_⟩
    rcases htext with heq | heq <;> simp [heq]
  read := hm.read

end OwnRow

/-- What a client holds and has said, with the evidence for it in `h`. -/
structure Backed (out : Outbound) (seeds : List Sealed) (chats : Chats)
    (sent : List (Sealed × Int)) (rows : List (Bytes × OutboxEntry)) (h : History) : Prop where
  vouched : ∀ f t, (f, t) ∈ sent → h.Vouches f
  held : out.Meets h.RowEvidence fun f => ∃ t, (f, t) ∈ h.sent
  rows : ∀ x ∈ rows, x.2.messageId = x.1 ∧ h.RowEvidence x.2
  seeds : ∀ f ∈ seeds, ∃ t, (f, t) ∈ h.sent
  own : ∀ s m, chats.Holds s m → m.side = .me → OwnRow h s m

/-- The invariant of a client, on the parts of its state that it speaks of. `hand` is a frame
that has come to its handler and may not have left its row yet. -/
structure Records (me : Bytes) (out : Outbound) (seeds : List Sealed) (chats : Chats)
    (h : History) (decrypted : List Sealed) (hand : Option Sealed) : Prop where
  sender : ∀ f t, (f, t) ∈ h.sent → f.sender = me
  backed : Backed out seeds chats h.sent h.rows h
  saved : chats.Saved
  peers : ∀ s m, chats.Holds s m → m.side = .peer →
    ∃ x ∈ h.shown, x.surface = s ∧ (m = x.row ∨ m = x.row.saved)
  kept : ∀ x ∈ h.shown, x.emptied = false → x.row.id ∉ chats.unwritten →
    ¬Unsaved x.surface x.row →
      x.row ∈ chats.log x.surface ∨ x.row.saved ∈ chats.log x.surface
  shows : ∀ x ∈ h.shown, x.frame ∈ h.taken ∧ Shows x.surface x.frame x.row
  once : ∀ f, (hand.toList ++ h.shown.map Shown.frame).count f ≤ h.taken.count f
  marks : ∀ mark ∈ h.marks, ∃ x ∈ h.shown, x.surface = mark.surface ∧
    x.frame.sender = mark.peer ∧ x.frame.messageId = mark.highest
  texts : ∀ g ∈ h.taken, g.kind = some .chat → hand = some g ∨ ∃ x ∈ h.shown, x.frame = g
  fresh : ∀ f, h.taken.count f ≤ decrypted.count f + h.lost.count f
  nodup : decrypted.Nodup

/-- The invariant of a client with a frame in hand. -/
abbrev ChatStore.SoundWith (me : Bytes) (c : ChatStore) (hand : Option Sealed) : Prop :=
  Records me c.out c.seeds c.chats c.history c.decrypted hand

/-- The invariant of a client between its calls. -/
abbrev ChatStore.Sound (me : Bytes) (c : ChatStore) : Prop := c.SoundWith me none

theorem sound_start (me : Bytes) (now : Int) (throws : Nat → Bool) :
    (ChatStore.start now throws).Sound me where
  sender f t h := by cases h
  backed :=
    { vouched := fun f t h => by cases h
      held := Outbound.meets_start ..
      rows := fun x h => by cases h
      seeds := fun f h => by cases h
      own := fun s m h => by rcases h with h | h <;> cases h }
  saved := Chats.saved_start throws
  peers s m h := by rcases h with h | h <;> cases h
  kept x h := by cases h
  shows x h := by cases h
  once f := Nat.le_refl _
  marks mark h := by cases h
  texts g h := by cases h
  fresh f := Nat.zero_le _
  nodup := List.nodup_nil

/-! ## The changes -/

section Changes

variable {blake3 : Bytes → ChainValue} {me : Bytes} {out : Outbound} {seeds : List Sealed}
  {chats : Chats} {h h' : History} {decrypted : List Sealed} {s : Surface} {m : PersistedMessage}
  {f : Sealed} {hand : Option Sealed} {sent : List (Sealed × Int)}
  {rows : List (Bytes × OutboxEntry)}

/-- More evidence does no harm. -/
theorem Backed.mono (hback : Backed out seeds chats sent rows h) (hgrows : h.Grows h')
    (hmarks : h.marks ⊆ h'.marks) : Backed out seeds chats sent rows h' where
  vouched f t hf := (hback.vouched f t hf).mono hgrows.taken hmarks
  held := hback.held.imp (fun e he => he.mono hgrows) fun f ⟨t, hf⟩ => ⟨t, hgrows.sent hf⟩
  rows x hx := ⟨(hback.rows x hx).1, (hback.rows x hx).2.mono hgrows⟩
  seeds f hf := by
    obtain ⟨t, hsent⟩ := hback.seeds f hf
    exact ⟨t, hgrows.sent hsent⟩
  own s m hm hside := (hback.own s m hm hside).mono hgrows

/-- Other conversations, with no row of the user's that is new. -/
theorem Backed.withChats (hback : Backed out seeds chats sent rows h) {chats' : Chats}
    (hown : ∀ s m, chats'.Holds s m → m.side = .me → chats.Holds s m ∨ OwnRow h s m) :
    Backed out seeds chats' sent rows h :=
  { hback with
    own := fun s m hm hside => by
      rcases hown s m hm hside with hold | hnew
      · exact hback.own s m hold hside
      · exact hnew }

namespace Records

/-- More frames are sent. -/
theorem send (hrec : Records me out seeds chats h decrypted hand) (fs : List (Sealed × Int))
    (hsender : ∀ f ∈ fs, f.1.sender = me) (hvouched : ∀ f ∈ fs, h.Vouches f.1) :
    Records me out seeds chats { h with sent := h.sent ++ fs } decrypted hand := by
  have hgrows : h.Grows { h with sent := h.sent ++ fs } :=
    ⟨List.subset_append_left .., List.Subset.refl _⟩
  have hback := hrec.backed.mono hgrows (List.Subset.refl _)
  exact
    { hrec with
      sender := fun f t hf => by
        rcases List.mem_append.mp hf with hf | hf
        · exact hrec.sender f t hf
        · exact hsender _ hf
      backed :=
        { hback with
          vouched := fun f t hf => by
            rcases List.mem_append.mp hf with hf | hf
            · exact hback.vouched f t hf
            · exact (hvouched _ hf).mono (List.Subset.refl _) (List.Subset.refl _) } }

theorem seal_sender {ev : Outbound.Event} (hf : f ∈ ev.seals me) : f.sender = me := by
  cases ev <;> simp [Outbound.Event.seals, encryptSealed] at hf <;> grind

/-- One call of an outbound path. -/
theorem call (hrec : Records me out seeds chats h decrypted hand) (ev : Outbound.Event)
    (hvouched : ∀ f ∈ ev.seals me, h.Vouches f)
    (hanswer : Answered
      (History.RowEvidence { h with
        sent := h.sent ++ (ev.seals me).map fun f => (f, out.now)
        rows := h.rows ++ (out.step blake3 me ev).outbox.entries.map fun e => (e.1, e.2) })
      out.now ev) :
    Records me (out.step blake3 me ev) seeds chats
      { h with
        sent := h.sent ++ (ev.seals me).map fun f => (f, out.now)
        rows := h.rows ++ (out.step blake3 me ev).outbox.entries.map fun e => (e.1, e.2) }
      decrypted hand := by
  have hsent := hrec.send ((ev.seals me).map fun f => (f, out.now))
    (fun x hx => by
      obtain ⟨f, hf, rfl⟩ := List.mem_map.mp hx
      exact seal_sender hf)
    (fun x hx => by
      obtain ⟨f, hf, rfl⟩ := List.mem_map.mp hx
      exact hvouched f hf)
  have hmem : ∀ f ∈ ev.seals me,
      (f, out.now) ∈ h.sent ++ (ev.seals me).map fun f => (f, out.now) :=
    fun f hf => List.mem_append_right _ (List.mem_map_of_mem hf)
  -- the history after the call by a name, so that no step below unfolds it
  generalize hafter : ({ h with
    sent := h.sent ++ (ev.seals me).map fun f => (f, out.now)
    rows := h.rows ++ (out.step blake3 me ev).outbox.entries.map fun e => (e.1, e.2) } :
      History) = after at hanswer ⊢
  have hback : Backed out seeds chats after.sent h.rows after := by
    subst hafter
    exact hsent.backed.mono ⟨List.Subset.refl _, List.Subset.refl _⟩ (List.Subset.refl _)
  have hheld : (out.step blake3 me ev).Meets after.RowEvidence
      fun f => ∃ t, (f, t) ∈ after.sent := by
    subst hafter
    exact Meets.step (fun he hsame => he.same hsame) (fun he => ⟨_, he.sent⟩) hback.held
      (fun f hf => ⟨⟨_, hmem f hf⟩, fun e he => .fresh (hmem f hf) he⟩) hanswer
  subst hafter
  exact
    { hsent with
      backed :=
        { hback with
          held := hheld
          rows := fun x hx => by
            rcases List.mem_append.mp hx with hx | hx
            · exact hback.rows x hx
            · obtain ⟨e, he, rfl⟩ := List.mem_map.mp hx
              exact hheld.rows e.1 e.2 (AList.lookup_eq_some_iff.mpr he) } }

/-- Chains, clocks and delayed legs are not looked at. -/
theorem of_out (hrec : Records me out seeds chats h decrypted hand) {out' : Outbound}
    (hheld : out.Meets h.RowEvidence (fun f => ∃ t, (f, t) ∈ h.sent) →
      out'.Meets h.RowEvidence fun f => ∃ t, (f, t) ∈ h.sent) :
    Records me out' seeds chats h decrypted hand :=
  { hrec with backed := { hrec.backed with held := hheld hrec.backed.held } }

/-- A row of the user or of the app is added. -/
theorem addRow (hrec : Records me out seeds chats h decrypted hand) (hside : m.side = .me)
    (hown : OwnRow h s { m with id := chats.nextId }) :
    Records me out seeds (chats.add s m) h decrypted hand := by
  have hsaved : ¬Unsaved s m := fun hunsaved => by cases hside.symm.trans hunsaved.2.1
  exact
    { hrec with
      backed := hrec.backed.withChats fun s' m' hm _ =>
        (hrec.saved.holds_add hm).imp_right fun ⟨hs, hnew⟩ => by
          subst hs
          rcases hnew with rfl | rfl
          · exact hown
          · exact hown.saved
      saved := hrec.saved.add hsaved
      peers := fun s' m' hm hpeer => by
        rcases hrec.saved.holds_add hm with hold | ⟨-, rfl | rfl⟩
        · exact hrec.peers s' m' hold hpeer
        · cases hside.symm.trans hpeer
        · cases hside.symm.trans hpeer
      kept := fun x hx hemptied hwritten hnot =>
        (hrec.kept x hx hemptied (fun hmem => hwritten (Chats.unwritten_add hmem)) hnot).imp
          (fun hm => Chats.mem_log_add.mpr (.inl hm))
          fun hm => Chats.mem_log_add.mpr (.inl hm) }

/-- A frame that has come to its handler leaves a row; `chats'` are the conversations with it,
saved or not. -/
theorem addShown (hrec : Records me out seeds chats h decrypted (some f)) {chats' : Chats}
    (hsaved : chats'.Saved)
    (hlog : ∀ s' m', m' ∈ chats'.log s' ↔
      m' ∈ chats.log s' ∨ s' = s ∧ m' = { m with id := chats.nextId })
    (hholds : ∀ s' m', chats'.Holds s' m' → chats.Holds s' m' ∨ s' = s ∧
      (m' = { m with id := chats.nextId } ∨
        m' = PersistedMessage.saved { m with id := chats.nextId }))
    (hunwritten : chats.unwritten ⊆ chats'.unwritten) (hf : f ∈ h.taken) (hshows : Shows s f m) :
    Records me out seeds chats'
      { h with shown := h.shown ++ [⟨s, f, { m with id := chats.nextId }, false⟩] } decrypted
      none where
  sender := hrec.sender
  backed := by
    refine Backed.mono (hrec.backed.withChats fun s' m' hm hside => ?_)
      ⟨List.Subset.refl _, List.Subset.refl _⟩ (List.Subset.refl _)
    rcases hholds s' m' hm with hold | ⟨-, rfl | rfl⟩
    · exact .inl hold
    · cases hside.symm.trans hshows.side
    · cases hside.symm.trans hshows.side
  saved := hsaved
  peers s' m' hm hside := by
    rcases hholds s' m' hm with hold | ⟨rfl, hnew⟩
    · obtain ⟨x, hx, hrest⟩ := hrec.peers s' m' hold hside
      exact ⟨x, List.mem_append_left _ hx, hrest⟩
    · exact ⟨_, List.mem_append_right _ (List.mem_singleton_self _), rfl, hnew⟩
  kept x hx hemptied hwritten hnot := by
    rcases List.mem_append.mp hx with hx | hx
    · exact (hrec.kept x hx hemptied (fun hmem => hwritten (hunwritten hmem)) hnot).imp
        (fun hm => (hlog _ _).mpr (.inl hm)) fun hm => (hlog _ _).mpr (.inl hm)
    · cases List.mem_singleton.mp hx
      exact .inl ((hlog _ _).mpr (.inr ⟨rfl, rfl⟩))
  shows x hx := by
    rcases List.mem_append.mp hx with hx | hx
    · exact hrec.shows x hx
    · cases List.mem_singleton.mp hx
      exact ⟨hf, hshows.withId _⟩
  once g := by
    have hone := hrec.once g
    -- the frame goes from the hand to the rows shown: its count is the same
    simp only [Option.toList_some, Option.toList_none, List.nil_append, List.map_append,
      List.map_cons, List.map_nil, List.count_append] at hone ⊢
    omega
  marks mark hmark := by
    obtain ⟨x, hx, hrest⟩ := hrec.marks mark hmark
    exact ⟨x, List.mem_append_left _ hx, hrest⟩
  texts g hg hkind := by
    rcases hrec.texts g hg hkind with hhand | ⟨x, hx, hframe⟩
    · cases hhand
      exact .inr ⟨_, List.mem_append_right _ (List.mem_singleton_self _), rfl⟩
    · exact .inr ⟨x, List.mem_append_left _ hx, hframe⟩
  fresh := hrec.fresh
  nodup := hrec.nodup

/-- A frame comes to its handler. -/
theorem take (hrec : Records me out seeds chats h decrypted none) (hnew : f ∉ decrypted) :
    Records me out seeds chats { h with taken := h.taken ++ [f] } (f :: decrypted) (some f) := by
  have hgrows : h.Grows { h with taken := h.taken ++ [f] } :=
    ⟨List.Subset.refl _, List.subset_append_left ..⟩
  exact
    { hrec with
      backed := hrec.backed.mono hgrows (List.Subset.refl _)
      shows := fun x hx => ⟨hgrows.taken (hrec.shows x hx).1, (hrec.shows x hx).2⟩
      once := fun g => by
        have hone := hrec.once g
        simp only [Option.toList_some, Option.toList_none, List.nil_append, List.singleton_append,
          List.count_cons, List.count_append, List.count_nil] at hone ⊢
        omega
      texts := fun g hg hchat => by
        rcases List.mem_append.mp hg with hg | hg
        · exact .inr ((hrec.texts g hg hchat).resolve_left (by simp))
        · cases List.mem_singleton.mp hg
          exact .inl rfl
      fresh := fun g => by
        have hone := hrec.fresh g
        -- one copy more was taken, and one more decrypted
        simp only [List.count_cons, List.count_append, List.count_nil] at hone ⊢
        omega
      nodup := List.nodup_cons.mpr ⟨hnew, hrec.nodup⟩ }

/-- A frame is decrypted and dropped. -/
theorem drop (hrec : Records me out seeds chats h decrypted hand) (hnew : f ∉ decrypted) :
    Records me out seeds chats h (f :: decrypted) hand :=
  { hrec with
    fresh := fun g => (hrec.fresh g).trans
      (Nat.add_le_add_right List.count_le_count_cons _)
    nodup := List.nodup_cons.mpr ⟨hnew, hrec.nodup⟩ }

/-- A frame that is no text need not leave a row. -/
theorem putDown (hrec : Records me out seeds chats h decrypted (some f))
    (hkind : f.kind ≠ some .chat) : Records me out seeds chats h decrypted none :=
  { hrec with
    once := fun g => by
      have hone := hrec.once g
      rw [List.count_append] at hone
      exact (Nat.le_add_left ..).trans hone
    texts := fun g hg hchat => by
      rcases hrec.texts g hg hchat with heq | hshown
      · cases heq
        exact absurd hchat hkind
      · exact .inr hshown }

/-- A receipt is due for a message of a conversation. -/
theorem mark (hrec : Records me out seeds chats h decrypted hand) (mark : Mark)
    (hmark : ∃ x ∈ h.shown, x.surface = mark.surface ∧ x.frame.sender = mark.peer ∧
      x.frame.messageId = mark.highest) :
    Records me out seeds chats { h with marks := h.marks ++ [mark] } decrypted hand :=
  { hrec with
    backed := hrec.backed.mono ⟨List.Subset.refl _, List.Subset.refl _⟩
      (List.subset_append_left ..)
    marks := fun mark' hmark' => by
      rcases List.mem_append.mp hmark' with hmark' | hmark'
      · exact hrec.marks mark' hmark'
      · cases List.mem_singleton.mp hmark'
        exact hmark }

/-- Own rows of a conversation are stamped read. -/
theorem stampRead (hrec : Records me out seeds chats h decrypted hand) {peer : Bytes}
    {touched : PersistedMessage → Bool} {now : Int}
    (htouched : ∀ m, touched m = true → m.side = .me ∧ h.ReadAfter peer m.timestamp) :
    Records me out seeds
      (chats.updateWhere (.oneOnOne peer) touched fun m => { m with readAt := some now }) h
      decrypted hand := by
  have hnot : ∀ m, touched m = true →
      ¬Unsaved (.oneOnOne peer) { m with readAt := some now } := by
    rintro m - ⟨⟨groupId, hs⟩, -⟩
    cases hs
  have hid : ∀ m : PersistedMessage, { m with readAt := some now }.id = m.id := fun _ => rfl
  have hspec := hrec.saved.updateWhere_spec hid hnot
  refine
    { hrec with
      backed := hrec.backed.withChats fun s' m' hm _ => ?_
      saved := hspec.1
      peers := fun s' m' hm hpeer => ?_
      kept := fun x hx hemptied hwritten hunsaved => ?_ }
  · refine (hrec.saved.holds_updateWhere hid hnot hm).imp_right ?_
    rintro ⟨rfl, k, hk, ht, hnew⟩
    obtain ⟨hside, hafter⟩ := htouched k ht
    have hstamped : OwnRow h (.oneOnOne peer) { k with readAt := some now } :=
      ⟨(hrec.backed.own _ k (.inl hk) hside).text, fun _ => ⟨peer, rfl, hafter⟩⟩
    rcases hnew with rfl | rfl
    · exact hstamped
    · exact hstamped.saved
  · rcases hrec.saved.holds_updateWhere hid hnot hm with hold | ⟨-, k, -, ht, rfl | rfl⟩
    · exact hrec.peers s' m' hold hpeer
    · cases (htouched k ht).1.symm.trans hpeer
    · cases (htouched k ht).1.symm.trans hpeer
  · -- a row of a peer is not touched
    have hpeer := (hrec.shows x hx).2.side
    have hstays : ∀ m, m.side = .peer → m ∈ chats.log x.surface →
        m ∈ (chats.updateWhere (.oneOnOne peer) touched
          fun m => { m with readAt := some now }).log x.surface := by
      intro m hside hm
      refine (hrec.saved.mem_log_updateWhere hid hnot).mpr ?_
      by_cases hs : x.surface = .oneOnOne peer
      · refine .inr ⟨hs, m, hs ▸ hm, if_neg fun ht => ?_⟩
        cases (htouched m ht).1.symm.trans hside
      · exact .inl ⟨hs, hm⟩
    exact (hrec.kept x hx hemptied (fun hmem => hwritten (hspec.2.2.2.1 hmem)) hunsaved).imp
      (hstays _ hpeer) (hstays _ hpeer)

/-- A conversation is emptied. -/
theorem empty (hrec : Records me out seeds chats h decrypted hand) (s : Surface) :
    Records me out seeds (chats.removeAll s)
      { h with shown := h.shown.map fun x => { x with emptied := x.emptied || x.surface = s } }
      decrypted hand where
  sender := hrec.sender
  backed := Backed.mono
    (hrec.backed.withChats fun s' m' hm _ => .inl (Chats.holds_removeAll hm))
    ⟨List.Subset.refl _, List.Subset.refl _⟩ (List.Subset.refl _)
  saved := hrec.saved.removeAll s
  peers s' m' hm hside := by
    obtain ⟨x, hx, hrest⟩ := hrec.peers s' m' (Chats.holds_removeAll hm) hside
    exact ⟨_, List.mem_map_of_mem hx, hrest⟩
  kept x' hx' hemptied hwritten hnot := by
    obtain ⟨x, hx, rfl⟩ := List.mem_map.mp hx'
    obtain ⟨hemptied, hs⟩ := Bool.or_eq_false_iff.mp hemptied
    have hs : x.surface ≠ s := of_decide_eq_false hs
    exact (hrec.kept x hx hemptied (fun hmem => hwritten (Chats.unwritten_removeAll hmem))
      hnot).imp (fun hm => Chats.mem_log_removeAll.mpr ⟨hs, hm⟩)
        fun hm => Chats.mem_log_removeAll.mpr ⟨hs, hm⟩
  shows x' hx' := by
    obtain ⟨x, hx, rfl⟩ := List.mem_map.mp hx'
    exact hrec.shows x hx
  once g := by
    rw [List.map_map]
    exact hrec.once g
  marks mark hmark := by
    obtain ⟨x, hx, hrest⟩ := hrec.marks mark hmark
    exact ⟨_, List.mem_map_of_mem hx, hrest⟩
  texts g hg hkind := by
    rcases hrec.texts g hg hkind with hhand | ⟨x, hx, hframe⟩
    · exact .inl hhand
    · exact .inr ⟨_, List.mem_map_of_mem hx, hframe⟩
  fresh := hrec.fresh
  nodup := hrec.nodup

/-- A new process reads the logs. -/
theorem load (hrec : Records me out seeds chats h decrypted hand)
    {loaded : Surface → List PersistedMessage} (hnodup : ∀ s, (loaded s).Nodup)
    (hloaded : ∀ s m, m ∈ loaded s ↔ chats.stored s m) :
    Records me out seeds { chats with log := loaded } h decrypted hand := by
  have hholds : ∀ s m, ({ chats with log := loaded } : Chats).Holds s m → chats.Holds s m := by
    rintro s m (hlog | hstored)
    · exact .inr ((hloaded s m).mp hlog)
    · exact .inr hstored
  refine
    { hrec with
      backed := hrec.backed.withChats fun s m hm _ => .inl (hholds s m hm)
      saved := hrec.saved.load hnodup hloaded
      peers := fun s m hm hside => hrec.peers s m (hholds s m hm) hside
      kept := fun x hx hemptied hwritten hnot => .inr ((hloaded _ _).mpr ?_) }
  -- the row, as it is or as it was saved, is written under its id
  obtain ⟨m, hm, hid, hsaved⟩ : ∃ m ∈ chats.log x.surface, m.id = x.row.id ∧
      m.saved = x.row.saved ∧ ¬Unsaved x.surface m := by
    rcases hrec.kept x hx hemptied hwritten hnot with hm | hm
    · exact ⟨_, hm, rfl, rfl, hnot⟩
    · exact ⟨_, hm, rfl, by simp, hnot⟩
  exact (hrec.saved.stored_iff _ hwritten List.not_mem_nil _ _).mpr
    ⟨m, hm, hid, hsaved.2, hsaved.1.symm⟩

/-- A new process reads a session that knows of fewer frames. -/
theorem forget (hrec : Records me out seeds chats h decrypted hand) {session : List Sealed}
    (hsession : session <:+ decrypted) :
    Records me out seeds chats
      { h with lost := h.lost ++ decrypted.filter fun f => f ∉ session } session hand where
  sender := hrec.sender
  backed := hrec.backed.mono ⟨List.Subset.refl _, List.Subset.refl _⟩ (List.Subset.refl _)
  saved := hrec.saved
  peers := hrec.peers
  kept := hrec.kept
  shows := hrec.shows
  once := hrec.once
  marks := hrec.marks
  texts := hrec.texts
  fresh g := by
    refine (hrec.fresh g).trans ?_
    rw [List.count_append]
    -- a frame that the session knows is there once; any other is lost now
    by_cases hg : g ∈ session
    · have hone := List.nodup_iff_count_le_one.mp hrec.nodup g
      have hknown := List.one_le_count_iff.mpr hg
      omega
    · have hgone : (decrypted.filter fun f => f ∉ session).count g = decrypted.count g :=
        List.count_filter (decide_eq_true hg)
      omega
  nodup := hrec.nodup.sublist hsession.sublist

end Records

end Changes

end Pizzini.Chat
