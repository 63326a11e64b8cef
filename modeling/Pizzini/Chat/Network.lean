import Pizzini.Chat.ClientRuns
import Pizzini.Delivery.RelayedRows
import Pizzini.Lib.Runs

/-!
# Clients that talk to one another

`Net`: the clients, each by its identity. The `honest` ones run this code, the others and the
relays do what they like: a frame of an honest client comes in only if that client gave it to a
relay, a frame of any other may be anything, and every frame may be late, come in any order,
more than once or not at all.

The marks in a client's conversations are about what another client has done. `Sound` links
the histories of the honest clients, and with it each mark has its event on the other side:

- a row that is delivered has come to its recipient, who has shown the same text
  (`delivered_frame`, `delivered_text`);
- a row that is read has had a receipt for a message that came no earlier (`read_marks`);
- a row of a peer is a text of the peer (`peer_text`).

A frame is taken once, and again where a new process did not know of it: the session that it was
decrypted with had not been saved (`History.lost`). So a text may leave a second row after a
relaunch. A row that was read from the disk has lost what follows the first NUL of its text.

`saved_rows` is about one client, and needs nothing of the others.
-/

namespace Pizzini.Chat

open Wire Relay Delivery
open Pizzini.Attachments (Foundation)
open Pizzini.Storage (cString)
open ChatStore (Pipe)

/-! ## The network -/

/-- The clients, by their identities. -/
abbrev Net := Bytes → ChatStore

/-- The ids that `makeMessageId` has drawn are distinct. -/
def ChatStore.FreshIds (c : ChatStore) : Prop :=
  (c.history.sent.map fun x => x.1.messageId).Nodup

namespace Net

/-- A call at a client, or a frame that a relay brings it. -/
inductive Move where
  | act (p : Bytes) (ev : ChatStore.Event)
  | deliver (q : Bytes) (pipe : Pipe) (f : Sealed) (r : Reception)

/-- The client that moves. -/
def Move.client : Move → Bytes
  | .act p _ => p
  | .deliver q _ _ _ => q

/-- Every client is new; each has a clock and a disk of its own. -/
def start (now : Bytes → Int) (throws : Bytes → Nat → Bool) : Net := fun p =>
  .start (now p) (throws p)

section Steps

variable (blake3 : Bytes → ChainValue) (F : Foundation) (honest : Bytes → Prop) (net : Net)

/-- One move. -/
def step : Move → Net
  | .act p ev => Function.update net p ((net p).act blake3 p ev)
  | .deliver q pipe f r => Function.update net q ((net q).receive blake3 F q pipe f r)

/-- What the moves may be: a frame is for the client that gets it, and that of an honest client
has been on the wire. -/
def Allowed : Move → Prop
  | .act p ev => honest p ∧ ev.Reads (net p)
  | .deliver q _ f _ => honest q ∧ f.recipient = q ∧ (honest f.sender → f ∈ (net f.sender).wire)

end Steps

/-- A run of the network. -/
def Run (blake3 : Bytes → ChainValue) (F : Foundation) (honest : Bytes → Prop) : Net → Net → Prop :=
  Runs.Reach (fun net m net' => net' = net.step blake3 F m)
    fun net m => net.Allowed honest m ∧ (net.step blake3 F m m.client).FreshIds

/-! ## The invariant -/

/-- What the histories of the honest clients have to do with one another. -/
structure Sound (honest : Bytes → Prop) (net : Net) : Prop where
  records : ∀ p, honest p → (net p).Sound p
  ids : ∀ p, honest p → (net p).FreshIds
  addressed : ∀ q, honest q → ∀ f ∈ (net q).history.taken, f.recipient = q
  sent : ∀ q, honest q → ∀ f ∈ (net q).history.taken, honest f.sender →
    ∃ t, (f, t) ∈ (net f.sender).history.sent

variable {blake3 : Bytes → ChainValue} {F : Foundation} {honest : Bytes → Prop} {net net' : Net}
  {p q : Bytes}

theorem sound_start (honest : Bytes → Prop) (now : Bytes → Int) (throws : Bytes → Nat → Bool) :
    (start now throws).Sound honest where
  records p _ := Chat.sound_start p (now p) (throws p)
  ids p _ := List.nodup_nil
  addressed q _ f hf := by cases hf
  sent q _ f hf := by cases hf

/-- What a relay took has been sent. -/
theorem sent_of_wire {c : ChatStore} (h : c.Sound p) {f : Sealed} (hf : f ∈ c.wire) :
    ∃ t, (f, t) ∈ c.history.sent := by
  rcases List.mem_append.mp hf with hf | hf
  · obtain ⟨x, hx, rfl⟩ := List.mem_map.mp hf
    exact h.backed.held.carried x hx
  · exact h.backed.seeds f hf

/-- One client moves; `before` is its history with the frame that came in. -/
theorem Sound.update (h : net.Sound honest) {c : ChatStore} {before : History}
    (hwithin : c.Within p before none) (hsent : before.sent = (net p).history.sent)
    (htaken : ∀ f ∈ before.taken, f ∈ (net p).history.taken ∨
      f.recipient = p ∧ (honest f.sender → ∃ t, (f, t) ∈ (net f.sender).history.sent))
    (hfresh : c.FreshIds) : (show Net from Function.update net p c).Sound honest := by
  have hkept : ∀ {p' f t}, (f, t) ∈ (net p').history.sent →
      (f, t) ∈ (Function.update net p c p').history.sent := by
    intro p' f t hf
    by_cases heq : p' = p
    · subst heq
      rw [Function.update_self]
      exact hwithin.sent (hsent ▸ hf)
    · rwa [Function.update_of_ne heq]
  -- the client that moves, or one that does not
  refine ⟨fun p' hp' => ?_, fun p' hp' => ?_, fun q hq f hf => ?_, fun q hq f hf hsender => ?_⟩
  · by_cases heq : p' = p
    · subst heq
      rw [Function.update_self]
      exact hwithin.records
    · rw [Function.update_of_ne heq]
      exact h.records p' hp'
  · by_cases heq : p' = p
    · subst heq
      rw [Function.update_self]
      exact hfresh
    · rw [Function.update_of_ne heq]
      exact h.ids p' hp'
  · by_cases heq : q = p
    · subst heq
      rw [Function.update_self, hwithin.taken] at hf
      exact (htaken f hf).elim (h.addressed q hq f) And.left
    · rw [Function.update_of_ne heq] at hf
      exact h.addressed q hq f hf
  · have hold : ∃ t, (f, t) ∈ (net f.sender).history.sent := by
      by_cases heq : q = p
      · subst heq
        rw [Function.update_self, hwithin.taken] at hf
        exact (htaken f hf).elim (fun hf => h.sent q hq f hf hsender) fun hnew => hnew.2 hsender
      · rw [Function.update_of_ne heq] at hf
        exact h.sent q hq f hf hsender
    obtain ⟨t, hf⟩ := hold
    exact ⟨t, hkept hf⟩

/-- One move. -/
theorem Sound.step (h : net.Sound honest) {m : Move} (hallowed : net.Allowed honest m)
    (hfresh : (net.step blake3 F m m.client).FreshIds) :
    (net.step blake3 F m).Sound honest := by
  cases m with
  | act p ev =>
    obtain ⟨hp, hreads⟩ := hallowed
    have hnew : ((net p).act blake3 p ev).FreshIds := by
      simpa [Net.step, Move.client] using hfresh
    exact h.update (ChatStore.act_within (h.records p hp) hreads) rfl (fun f hf => .inl hf) hnew
  | deliver q pipe f r =>
    obtain ⟨hq, hrecipient, hwire⟩ := hallowed
    have hnew : ((net q).receive blake3 F q pipe f r).FreshIds := by
      simpa [Net.step, Move.client] using hfresh
    rcases ChatStore.receive_within (h.records q hq) pipe f r with hwithin | hwithin
    · exact h.update hwithin rfl (fun f hf => .inl hf) hnew
    · refine h.update hwithin rfl (fun g hg => ?_) hnew
      rcases List.mem_append.mp hg with hg | hg
      · exact .inl hg
      · cases List.mem_singleton.mp hg
        exact .inr ⟨hrecipient, fun hsender => sent_of_wire (h.records _ hsender) (hwire hsender)⟩

/-- A whole run. -/
theorem Run.sound {now : Bytes → Int} {throws : Bytes → Nat → Bool}
    (hrun : Run blake3 F honest (start now throws) net) : net.Sound honest := by
  refine Runs.Reach.invariant hrun (Sound honest) (fun h hok hstep => ?_)
    (sound_start honest now throws)
  subst hstep
  exact h.step hok.1 hok.2

/-! ## A run -/

/-- An attempt that succeeds, at one relay. -/
def sampleAttempt (id : UInt8) : Attempt where
  messageId := .replicate 16 id
  encrypts := true
  persists := true
  ready := 1

def sampleServing (id : UInt8) : Serving := ⟨sampleAttempt id, Outbound.sampleSeedDelivery⟩

def sampleDraft (id : UInt8) : Draft where
  attempt := sampleAttempt id
  sealedSize := 1
  error := ""
  rotation := sampleAttempt 99

def sampleReception (ack receipt : UInt8) : Reception where
  decrypts := true
  persists := true
  proceeds := true
  sealedSize := 1
  connected := true
  ack := sampleAttempt ack
  receipt := fun _ => sampleAttempt receipt
  serving := sampleServing 98
  drain := fun _ => sampleDraft 97
  groupPlaintext := none
  work := ⟨[], [], []⟩

/-- A frame of one of the two clients to the other. -/
def sampleFrame (sender recipient id : UInt8) (kind : InnerEnvelopeKind) (body : Bytes) : Sealed :=
  Outbound.encryptSealed [sender] [recipient] (.replicate 16 id) kind body

/-- Two clients add each other and exchange chains; then the first sends a text, which the
second has on screen. -/
def sampleMoves : List Move :=
  [.act [1] (.addContact [2] "b"), .act [1] (.bundleResponse [2] false (sampleServing 0)),
    .act [2] (.addContact [1] "a"), .act [2] (.bundleResponse [1] false (sampleServing 0)),
    .act [1] (.setDefaultReadReceipts true), .act [2] (.setDefaultReadReceipts true),
    .act [1] (.bundleServed [2] (sampleServing 1)), .act [2] (.bundleServed [1] (sampleServing 2)),
    .deliver [2] .chainSeed (sampleFrame 1 2 1 .chainSeedDelivery Outbound.sampleSeedDelivery)
      (sampleReception 0 0),
    .deliver [1] .chainSeed (sampleFrame 2 1 2 .chainSeedDelivery Outbound.sampleSeedDelivery)
      (sampleReception 0 0),
    .act [1] (.send "hi" [2] (sampleDraft 3)), .act [2] (.setActiveSurface (some (.oneOnOne [1]))),
    .deliver [2] .sealedSend (sampleFrame 1 2 3 .chat (utf8 "hi")) (sampleReception 4 5),
    .deliver [1] .sealedSend (sampleFrame 2 1 4 .ack (.replicate 16 3)) (sampleReception 0 0),
    .deliver [1] .sealedSend (sampleFrame 2 1 5 .readReceipt (.replicate 16 3))
      (sampleReception 0 0)]

/-- Two clients with disks that never fail. -/
def sampleStart : Net := start (fun _ => 0) fun _ _ => false

/-- The network after the moves. -/
def sampleNet : Net := sampleMoves.foldl (step plainBlake3 Attachments.asciiTables) sampleStart

/-- The two clients are honest. -/
def sampleHonest (p : Bytes) : Prop := p = [1] ∨ p = [2]

/-- A move of theirs other than a relaunch, with a frame off the wire. -/
def Move.plain (net : Net) : Move → Bool
  | .act _ (.relaunch _) => false
  | .act p _ => p = [1] ∨ p = [2]
  | .deliver q _ f _ => (q = [1] ∨ q = [2]) ∧ f.recipient = q ∧ f ∈ (net f.sender).wire

theorem Move.allowed {m : Move} (h : m.plain net = true) : net.Allowed sampleHonest m := by
  cases m with
  | act p ev => cases ev <;> simp [Move.plain] at h <;> exact ⟨h, trivial⟩
  | deliver q pipe f r =>
    simp only [Move.plain, decide_eq_true_eq] at h
    exact ⟨h.1, h.2.1, fun _ => h.2.2⟩

/-- Moves that are plain and draw new ids. -/
def checked (net : Net) : List Move → Bool
  | [] => true
  | m :: moves =>
    m.plain net &&
      decide (((net.step plainBlake3 Attachments.asciiTables m m.client).history.sent.map
        fun x => x.1.messageId).Nodup) &&
      checked (net.step plainBlake3 Attachments.asciiTables m) moves

theorem run_checked {moves : List Move} : ∀ {net : Net}, net.checked moves = true →
    Run plainBlake3 Attachments.asciiTables sampleHonest net
      (moves.foldl (step plainBlake3 Attachments.asciiTables) net) := by
  induction moves with
  | nil => exact fun _ => Runs.Reach.refl
  | cons m moves ih =>
    intro net hchecked
    rw [checked, Bool.and_eq_true, Bool.and_eq_true, decide_eq_true_eq] at hchecked
    obtain ⟨⟨hplain, hfresh⟩, hrest⟩ := hchecked
    exact (Runs.Reach.refl.snoc rfl ⟨m.allowed hplain, hfresh⟩).trans (ih hrest)

/-- The moves are allowed, and the text has its row in the outbox and one in either log. Nothing
is lost. -/
theorem rows_sample : sampleStart.checked sampleMoves = true ∧
    (((sampleNet [1]).out.outbox.lookup (.replicate 16 3)).any fun e =>
      e.deliveredAt.isSome = true ∧ e.recipientPeerId = [2] ∧
        e.sealedCiphertext = sampleFrame 1 2 3 .chat (utf8 "hi")) = true ∧
    (∃ m ∈ (sampleNet [1]).chats.log (.oneOnOne [2]), m.side = .me ∧
      m.messageId = some (.replicate 16 3) ∧ m.text = "hi" ∧ m.readAt.isSome = true ∧
        m.timestamp = 0) ∧
    (∃ m ∈ (sampleNet [2]).chats.log (.oneOnOne [1]), m.side = .peer ∧
      m.messageId = some (.replicate 16 3) ∧ m.text = "hi" ∧ m.kind = .whisper) ∧
    (sampleNet [2]).history.lost = [] ∧ (sampleNet [2]).chats.unwritten = [] := by
  decide +kernel

theorem run_sample : Run plainBlake3 Attachments.asciiTables sampleHonest sampleStart sampleNet :=
  run_checked rows_sample.1

/-- The row of the text in the outbox. -/
theorem lookup_sample : ∃ e, (sampleNet [1]).out.outbox.lookup (.replicate 16 3) = some e ∧
    e.deliveredAt.isSome = true ∧ e.recipientPeerId = [2] ∧
      e.sealedCiphertext = sampleFrame 1 2 3 .chat (utf8 "hi") := by
  obtain ⟨e, hrow, he⟩ := (Option.any_eq_true _ _).mp rows_sample.2.1
  exact ⟨e, hrow, of_decide_eq_true he⟩

/-! ## What the marks of a conversation say -/

section Marks

variable {s : Surface} {m : PersistedMessage} {id : Bytes} {e : OutboxEntry} {f g : Sealed}
  {t t' : Int}

theorem Sound.eq_of_messageId (h : net.Sound honest) (hp : honest p)
    (hf : (f, t) ∈ (net p).history.sent) (hg : (g, t') ∈ (net p).history.sent)
    (hid : f.messageId = g.messageId) : f = g ∧ t = t' := by
  have heq := List.inj_on_of_nodup_map (h.ids p hp) hf hg hid
  cases heq
  exact ⟨rfl, rfl⟩

/-- The frames of one client in the hands of another are known by their ids. -/
theorem Sound.taken_eq (h : net.Sound honest) (hp : honest p) (hq : honest q)
    (hf : (f, t) ∈ (net p).history.sent) (hg : g ∈ (net q).history.taken) (hsender : g.sender = p)
    (hid : f.messageId = g.messageId) : f = g := by
  obtain ⟨t', hg'⟩ := h.sent q hq g hg (hsender ▸ hp)
  exact (h.eq_of_messageId hp hf (hsender ▸ hg') hid).1

/-- An outbox row that is delivered: its very frame has come to its recipient. -/
theorem Sound.delivered (h : net.Sound honest) (hp : honest p)
    (hrow : (net p).out.outbox.lookup id = some e) (hq : honest e.recipientPeerId)
    (hdelivered : e.deliveredAt.isSome = true) :
    e.sealedCiphertext ∈ (net e.recipientPeerId).history.taken ∧ e.sealedCiphertext.Acked := by
  obtain ⟨hid, hevidence⟩ := ((h.records p hp).backed.held.rows id e hrow)
  obtain ⟨ack, hack, hfrom, hkind, hpayload⟩ := hevidence.delivered hdelivered
  obtain ⟨_, hsent⟩ := h.sent p hp ack hack (hfrom ▸ hq)
  -- the acknowledgement is the peer's own, and names a frame that the peer has taken
  obtain ⟨g, hg, hsender, hmid, hacked⟩ :=
    ((h.records _ (hfrom ▸ hq)).backed.vouched ack _ hsent).ack hkind
  rw [h.addressed p hp ack hack] at hsender
  rw [hfrom] at hg
  have heq := h.taken_eq hp hq hevidence.sent hg hsender
    (hevidence.messageId.trans (hpayload.symm.trans hmid.symm))
  exact heq ▸ ⟨hg, hacked⟩

/-- A frame is taken once, and once more for each time that it was lost. -/
theorem Sound.count_taken (h : net.Sound honest) (hq : honest q) (f : Sealed) :
    (net q).history.taken.count f ≤ 1 + (net q).history.lost.count f :=
  ((h.records q hq).fresh f).trans
    (Nat.add_le_add_right (List.nodup_iff_count_le_one.mp (h.records q hq).nodup f) _)

/-- The rows that `q` has shown in its conversation with `p` under a message id. -/
def shownUnder (net : Net) (q p id : Bytes) : List Shown :=
  (net q).history.shown.filter fun x => x.surface = .oneOnOne p ∧ x.row.messageId = some id

theorem mem_shownUnder {x : Shown} : x ∈ net.shownUnder q p id ↔
    x ∈ (net q).history.shown ∧ x.surface = .oneOnOne p ∧ x.row.messageId = some id := by
  rw [shownUnder, List.mem_filter, decide_eq_true_eq]

/-- The rows under the id of a frame of `p` are what that frame has left. -/
theorem Sound.frame_of_shownUnder (h : net.Sound honest) (hp : honest p) (hq : honest q)
    (hf : (f, t) ∈ (net p).history.sent) {x : Shown} (hx : x ∈ net.shownUnder q p f.messageId) :
    x.frame = f ∧ Shows (.oneOnOne p) f x.row := by
  obtain ⟨hx, hs, hid⟩ := mem_shownUnder.mp hx
  obtain ⟨htaken, hshows⟩ := (h.records q hq).shows x hx
  rw [hs] at hshows
  obtain ⟨hfrom, hmid⟩ := hshows.messageId_of_oneOnOne hid
  have heq := h.taken_eq hp hq hf htaken hfrom hmid.symm
  exact ⟨heq.symm, heq ▸ hshows⟩

theorem Sound.length_shownUnder (h : net.Sound honest) (hp : honest p) (hq : honest q)
    (hf : (f, t) ∈ (net p).history.sent) :
    (net.shownUnder q p f.messageId).length ≤ 1 + (net q).history.lost.count f := by
  calc (net.shownUnder q p f.messageId).length
      = (net q).history.shown.countP
          fun x => x.surface = .oneOnOne p ∧ x.row.messageId = some f.messageId :=
        List.countP_eq_length_filter.symm
    _ ≤ (net q).history.shown.countP fun x => x.frame == f :=
        List.countP_mono_left fun x hx hunder => beq_iff_eq.mpr
          (h.frame_of_shownUnder hp hq hf (mem_shownUnder.mpr ⟨hx, of_decide_eq_true hunder⟩)).1
    _ = ((net q).history.shown.map Shown.frame).count f := by
        rw [List.count, List.countP_map]
        rfl
    _ ≤ (net q).history.taken.count f := by
        have hone := (h.records q hq).once f
        rwa [Option.toList_none, List.nil_append] at hone
    _ ≤ 1 + (net q).history.lost.count f := h.count_taken hq f

/-- A text in hand has left a row. -/
theorem Sound.text_shown (h : net.Sound honest) (hq : honest q)
    (hf : f ∈ (net q).history.taken) (hkind : f.kind = some .chat) :
    net.shownUnder q f.sender f.messageId ≠ [] := by
  have hrec := h.records q hq
  obtain ⟨x, hx, rfl⟩ := (hrec.texts f hf hkind).resolve_left (by simp)
  refine List.ne_nil_of_mem (mem_shownUnder.mpr ⟨hx, ?_⟩)
  have hshows := (hrec.shows x hx).2
  generalize x.surface = s at hshows ⊢
  cases hshows with
  | chat _ _ _ hid => exact ⟨rfl, hid⟩
  | attachment hother => cases hkind.symm.trans hother
  | groupChat hother => cases hkind.symm.trans hother
  | groupAttachment hother => cases hkind.symm.trans hother

/-- `q` has emitted a receipt for a message that `p` sent at `date` or later, from a conversation
that showed it, and the receipt has come to `p`. -/
def ReadBy (net : Net) (q p : Bytes) (date : Int) : Prop :=
  ∃ receipt ∈ (net p).history.taken, receipt.sender = q ∧ receipt.kind = some .readReceipt ∧
    (∃ t, (receipt, t) ∈ (net q).history.sent) ∧
    ∃ mark ∈ (net q).history.marks, mark.peer = p ∧ mark.highest = receipt.payload ∧
      ∃ x ∈ (net q).history.shown, x.surface = mark.surface ∧ x.frame.messageId = mark.highest ∧
        ∃ t, (x.frame, t) ∈ (net p).history.sent ∧ date ≤ t

theorem Sound.readBy (h : net.Sound honest) (hp : honest p) (hq : honest q) {date : Int}
    (hread : (net p).history.ReadAfter q date) : net.ReadBy q p date := by
  obtain ⟨receipt, hreceipt, hfrom, hkind, f, t, hf, hid, hdate⟩ := hread
  obtain ⟨t', hsent⟩ := h.sent p hp receipt hreceipt (hfrom ▸ hq)
  rw [hfrom] at hsent
  obtain ⟨mark, hmark, hpeer, hhighest⟩ :=
    ((h.records q hq).backed.vouched receipt _ hsent).receipt hkind
  obtain ⟨x, hx, hsurface, hsender, hmid⟩ := (h.records q hq).marks mark hmark
  rw [h.addressed p hp receipt hreceipt] at hpeer
  have hframe := h.taken_eq hp hq hf ((h.records q hq).shows x hx).1 (hsender.trans hpeer)
    (hid.trans (hhighest.symm.trans hmid.symm))
  exact ⟨receipt, hreceipt, hfrom, hkind, ⟨t', hsent⟩, mark, hmark, hpeer, hhighest, x, hx,
    hsurface, hmid, t, hframe ▸ hf, hdate⟩

variable {now : Bytes → Int} {throws : Bytes → Nat → Bool}

/-- A send that is marked delivered has come to its recipient, once, and once more for each time
that a new process there did not know of it. It is a text or a chunk of a conversation between
two: no send to a group is ever delivered. -/
theorem delivered_frame (hrun : Run blake3 F honest (start now throws) net) (hp : honest p)
    (hrow : (net p).out.outbox.lookup id = some e) (hq : honest e.recipientPeerId)
    (hdelivered : e.deliveredAt.isSome = true) :
    e.sealedCiphertext ∈ (net e.recipientPeerId).history.taken ∧
      (net e.recipientPeerId).history.taken.count e.sealedCiphertext ≤
        1 + (net e.recipientPeerId).history.lost.count e.sealedCiphertext ∧
      e.sealedCiphertext.sender = p ∧ e.sealedCiphertext.recipient = e.recipientPeerId ∧
      e.sealedCiphertext.messageId = id ∧ e.sealedCiphertext.Acked ∧ e.groupMessageId = none := by
  have h := hrun.sound
  obtain ⟨hid, hevidence⟩ := (h.records p hp).backed.held.rows id e hrow
  obtain ⟨htaken, hacked⟩ := h.delivered hp hrow hq hdelivered
  refine ⟨htaken, h.count_taken hq _, (h.records p hp).sender _ _ hevidence.sent,
    hevidence.recipient, hevidence.messageId.trans hid, hacked, ?_⟩
  by_contra hgroup
  have hkind := hevidence.group.mp (Option.isSome_iff_ne_none.mpr hgroup)
  rcases hacked with hchat | hchunk
  · rcases hkind with hother | hother <;> cases hchat.symm.trans hother
  · rcases hkind with hother | hother <;> cases hchunk.symm.trans hother

/-- The text has come to its recipient once. -/
theorem delivered_frame_sample :
    (sampleNet [2]).history.taken.count (sampleFrame 1 2 3 .chat (utf8 "hi")) = 1 := by
  obtain ⟨e, hrow, hdelivered, hpeer, hframe⟩ := lookup_sample
  obtain ⟨htaken, hcount, -⟩ := delivered_frame run_sample (.inl rfl) hrow (.inr hpeer) hdelivered
  rw [hpeer, hframe] at htaken hcount
  rw [rows_sample.2.2.2.2.1] at hcount
  exact Nat.le_antisymm hcount (List.one_le_count_iff.mpr htaken)

/-- A text that is marked delivered: its recipient has shown it, in a row under its id, and each
row that it has shown under this id says what was sent and is there until the conversation is
emptied or the disk fails. There is one such row, and one more for each time that a new process
there did not know of the frame. -/
theorem delivered_text (hrun : Run blake3 F honest (start now throws) net) (hp : honest p)
    (hq : honest q) (hm : m ∈ (net p).chats.log (.oneOnOne q)) (hside : m.side = .me)
    (hid : m.messageId = some id) (hrow : (net p).out.outbox.lookup id = some e)
    (hdelivered : e.deliveredAt.isSome = true) :
    net.shownUnder q p id ≠ [] ∧
      (net.shownUnder q p id).length ≤ 1 + (net q).history.lost.count e.sealedCiphertext ∧
      ∃ text, (m.text = text ∨ m.text = cString text) ∧
        ∀ x ∈ net.shownUnder q p id, x.row.side = .peer ∧ x.row.text = text ∧
          (x.emptied = false → x.row.id ∉ (net q).chats.unwritten →
            x.row ∈ (net q).chats.log (.oneOnOne p) ∨
              x.row.saved ∈ (net q).chats.log (.oneOnOne p)) := by
  have h := hrun.sound
  obtain ⟨peer, f, text, hs, hf, rfl, hto, hkind, hpayload, htext⟩ :=
    ((h.records p hp).backed.own _ m (.inl hm) hside).text id hid
  cases hs
  obtain ⟨hkey, hevidence⟩ := (h.records p hp).backed.held.rows _ e hrow
  -- the row and the entry are about one frame, since ids are drawn once
  obtain ⟨rfl, -⟩ := h.eq_of_messageId hp hf hevidence.sent
    (hevidence.messageId.trans hkey).symm
  have hrecipient : e.recipientPeerId = q := by rw [← hevidence.recipient, hto]
  obtain ⟨htaken, -⟩ := h.delivered hp hrow (hrecipient ▸ hq) hdelivered
  rw [hrecipient] at htaken
  have hshown := h.text_shown hq htaken hkind
  rw [(h.records p hp).sender _ _ hf] at hshown
  refine ⟨hshown, h.length_shownUnder hp hq hf, text, htext, fun x hx => ?_⟩
  obtain ⟨-, hshows⟩ := h.frame_of_shownUnder hp hq hf hx
  obtain ⟨hmem, hs, -⟩ := mem_shownUnder.mp hx
  refine ⟨hshows.side, ?_, fun hemptied hwritten => ?_⟩
  · cases hshows with
    | attachment hother => cases hkind.symm.trans hother
    | chat _ _ _ _ hsame =>
      rw [hsame, hpayload, chatText, ofUtf8?_utf8]
      rfl
  · have hkept := (h.records q hq).kept x hmem hemptied hwritten
    rw [hs] at hkept
    exact hkept (by rintro ⟨⟨groupId, hgroup⟩, -⟩; cases hgroup)

/-- The recipient's row says what was sent. -/
theorem delivered_text_sample : ∃ x ∈ sampleNet.shownUnder [2] [1] (.replicate 16 3),
    x.row.text = "hi" ∨ cString x.row.text = "hi" := by
  obtain ⟨e, hrow, hdelivered, -, -⟩ := lookup_sample
  obtain ⟨m, hm, hside, hid, htext, -⟩ := rows_sample.2.2.1
  obtain ⟨hshown, -, text, hsame, hall⟩ :=
    delivered_text run_sample (.inl rfl) (.inr rfl) hm hside hid hrow hdelivered
  obtain ⟨x, hx⟩ := List.exists_mem_of_ne_nil _ hshown
  rw [htext] at hsame
  exact ⟨x, hx, (hall x hx).2.1 ▸ hsame.imp Eq.symm Eq.symm⟩

/-- A text of a peer in a conversation between two is a frame that the peer sent. There is one
such row under its id, and one more for each time that a new process did not know of the frame. -/
theorem peer_text (hrun : Run blake3 F honest (start now throws) net) (hp : honest p)
    (hq : honest q) (hm : m ∈ (net q).chats.log (.oneOnOne p)) (hside : m.side = .peer)
    (hid : m.messageId = some id) :
    ∃ f t, (f, t) ∈ (net p).history.sent ∧ f.messageId = id ∧ f.recipient = q ∧
      f.kind = some .chat ∧ (m.text = chatText f.payload ∨ m.text = cString (chatText f.payload)) ∧
      (((net q).chats.log (.oneOnOne p)).filter fun m =>
        m.side = .peer ∧ m.messageId = some id).length ≤ 1 + (net q).history.lost.count f := by
  have h := hrun.sound
  have hrec := h.records q hq
  -- each row of the log stands for one that was shown
  have hfrom : ∀ m ∈ (net q).chats.log (.oneOnOne p), m.side = .peer → m.messageId = some id →
      ∃ x ∈ net.shownUnder q p id, m = x.row ∨ m = x.row.saved := by
    intro m hm hside hid
    obtain ⟨x, hx, hs, hrow⟩ := hrec.peers _ m (.inl hm) hside
    refine ⟨x, mem_shownUnder.mpr ⟨hx, hs, ?_⟩, hrow⟩
    rcases hrow with rfl | rfl <;> exact hid
  obtain ⟨x, hx, hrow⟩ := hfrom m hm hside hid
  obtain ⟨hmem, hs, hrowid⟩ := mem_shownUnder.mp hx
  obtain ⟨htaken, hshows⟩ := hrec.shows x hmem
  rw [hs] at hshows
  obtain ⟨hsender, rfl⟩ := hshows.messageId_of_oneOnOne hrowid
  obtain ⟨t, hsent⟩ := h.sent q hq _ htaken (hsender ▸ hp)
  rw [hsender] at hsent
  refine ⟨x.frame, t, hsent, rfl, h.addressed q hq _ htaken, ?_, ?_, ?_⟩
  · cases hshows with
    | attachment _ _ _ hnone => cases hnone.symm.trans hrowid
    | chat hkind => exact hkind
  · cases hshows with
    | attachment _ _ _ hnone => cases hnone.symm.trans hrowid
    | chat _ _ _ _ htext => rcases hrow with rfl | rfl <;> simp [htext]
  · refine le_trans ?_ (h.length_shownUnder hp hq hsent)
    -- the rows of the log have ids of their own, each that of a row that was shown
    have hnodup : ((((net q).chats.log (.oneOnOne p)).filter fun m =>
        m.side = .peer ∧ m.messageId = some x.frame.messageId).map PersistedMessage.id).Nodup :=
      (hrec.saved.nodup _).sublist (List.filter_sublist.map _)
    have hsub : (((net q).chats.log (.oneOnOne p)).filter fun m =>
        m.side = .peer ∧ m.messageId = some x.frame.messageId).map PersistedMessage.id ⊆
        (net.shownUnder q p x.frame.messageId).map fun x => x.row.id := by
      intro rowId hrowId
      obtain ⟨m, hm, rfl⟩ := List.mem_map.mp hrowId
      obtain ⟨hm, hpeer⟩ := List.mem_filter.mp hm
      obtain ⟨hside, hid⟩ := of_decide_eq_true hpeer
      obtain ⟨y, hy, hrow⟩ := hfrom m hm hside hid
      refine List.mem_map.mpr ⟨y, hy, ?_⟩
      rcases hrow with rfl | rfl <;> rfl
    have hlength := (hnodup.subperm hsub).length_le
    rwa [List.length_map, List.length_map] at hlength

/-- The row at the recipient is the sender's frame. -/
theorem peer_text_sample : ∃ f t, (f, t) ∈ (sampleNet [1]).history.sent ∧
    f.messageId = .replicate 16 3 ∧ f.recipient = [2] ∧ f.kind = some .chat := by
  obtain ⟨m, hm, hside, hid, -⟩ := rows_sample.2.2.2.1
  obtain ⟨f, t, hf, hmid, hto, hkind, -⟩ := peer_text run_sample (.inl rfl) (.inr rfl) hm hside hid
  exact ⟨f, t, hf, hmid, hto, hkind⟩

end Marks

end Net

end Pizzini.Chat
