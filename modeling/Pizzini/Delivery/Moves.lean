import Pizzini.Delivery.Outbound

/-!
# The moves of a delivery chain and its rows

Every call of `Outbound.step` is a run of a few moves (`Move.Step`): an index leaves on a
frame, waits in a row, or goes to nothing; a waiting frame is delivered; rows are revised.
`Moves` is such a run, and the lemma of each path says which moves it makes, and when it
makes those that are not `harmless`. What holds of a chain or a row along all runs is then
proved for each move once.
-/

namespace Pizzini.Delivery

open Wire Relay Chat

namespace Outbound

variable {blake3 : Bytes → ChainValue} {d d₁ : Outbound} {peer : Bytes} {token : Token}

/-! ## Minting -/

theorem mint_eq_some_iff :
    d.mintV2DeliveryToken blake3 peer = some (token, d₁) ↔
      ∃ chain, d.chain peer = some chain ∧ chain.nextIndex ≤ chain.length ∧
        token = tokenAt blake3 chain chain.nextIndex ∧
        d₁ = { d with
          chain := Function.update d.chain peer
            (some { chain with nextIndex := chain.nextIndex + 1 }) } := by
  unfold mintV2DeliveryToken
  cases hchain : d.chain peer with
  | none => simp
  | some chain =>
    by_cases hleft : chain.nextIndex ≤ chain.length
    · simp only [nextToken_eq hleft, Option.some.injEq, Prod.mk.injEq]
      constructor
      · rintro ⟨rfl, rfl⟩
        exact ⟨chain, rfl, hleft, rfl, rfl⟩
      · rintro ⟨_, rfl, -, rfl, rfl⟩
        exact ⟨rfl, rfl⟩
    · simp only [nextToken_exhausted (by omega : chain.length < chain.nextIndex), Option.some.injEq]
      constructor
      · intro h
        cases h
      · rintro ⟨_, rfl, h, -⟩
        exact absurd h hleft

/-- The chains behind the update of one. -/
theorem chain_update_cases {chains : Bytes → Option Chain} {o : Option Chain} {peer' : Bytes}
    {chain : Chain} (h : Function.update chains peer o peer' = some chain) :
    (peer' = peer ∧ o = some chain) ∨ (peer' ≠ peer ∧ chains peer' = some chain) := by
  by_cases hpeer : peer' = peer
  · subst hpeer
    rw [Function.update_self] at h
    exact .inl ⟨rfl, h⟩
  · rw [Function.update_of_ne hpeer] at h
    exact .inr ⟨hpeer, h⟩

/-- Minting moves the chain's cursor, and nothing else. -/
theorem mint_frame (h : d.mintV2DeliveryToken blake3 peer = some (token, d₁)) :
    d₁.now = d.now ∧ d₁.outbox = d.outbox ∧ d₁.legs = d.legs ∧ d₁.carried = d.carried := by
  obtain ⟨chain, -, -, -, rfl⟩ := mint_eq_some_iff.mp h
  exact ⟨rfl, rfl, rfl, rfl⟩

/-- A rollback right after the mint undoes it. -/
theorem rollback_mint (h : d.mintV2DeliveryToken blake3 peer = some (token, d₁)) :
    d₁.rollbackV2DeliveryToken peer token.index = d := by
  obtain ⟨chain, hchain, -, rfl, rfl⟩ := mint_eq_some_iff.mp h
  have hself : Function.update d.chain peer (some chain) = d.chain := by
    rw [← hchain, Function.update_eq_self]
  simp [rollbackV2DeliveryToken, Delivery.rollbackV2DeliveryToken, tokenAt, hself]

section SendSealed

variable (d : Outbound) (peer : Bytes) (frame : Sealed) (token : Token) (ready : Nat)

@[simp] theorem sendSealedToRelays_zero : d.sendSealedToRelays peer frame token 0 = d := rfl

@[simp] theorem sendSealedToRelays_chain :
    (d.sendSealedToRelays peer frame token ready).chain = d.chain := by
  unfold sendSealedToRelays
  split <;> rfl

@[simp] theorem sendSealedToRelays_outbox :
    (d.sendSealedToRelays peer frame token ready).outbox = d.outbox := by
  unfold sendSealedToRelays
  split <;> rfl

theorem subset_sendSealedToRelays :
    d.carried ⊆ (d.sendSealedToRelays peer frame token ready).carried := by
  unfold sendSealedToRelays
  split
  · exact List.subset_append_left _ _
  · exact List.Subset.refl _

end SendSealed

/-! ## Turns of a loop -/

/-- What the turns of a loop leave as it was: no chain is replaced, and what has been sent
stays sent. -/
structure Later (d d' : Outbound) : Prop where
  chain : ∀ peer chain', d'.chain peer = some chain' → ∃ chain, d.chain peer = some chain ∧
    chain.nextIndex ≤ chain'.nextIndex ∧ chain' = { chain with nextIndex := chain'.nextIndex }
  carried : d.carried ⊆ d'.carried

namespace Later

variable {d' d'' : Outbound}

theorem of_chain_eq (hchain : d'.chain = d.chain) (hcarried : d.carried ⊆ d'.carried) :
    Later d d' :=
  ⟨fun peer chain h => ⟨chain, by rw [← hchain]; exact h, le_refl _, rfl⟩, hcarried⟩

theorem refl (d : Outbound) : Later d d := of_chain_eq rfl (List.Subset.refl _)

theorem trans (h : Later d d') (h' : Later d' d'') : Later d d'' where
  chain peer chain'' hchain := by
    obtain ⟨chain', hchain', hle', heq'⟩ := h'.chain peer chain'' hchain
    obtain ⟨chain, hchain, hle, heq⟩ := h.chain peer chain' hchain'
    refine ⟨chain, hchain, hle.trans hle', ?_⟩
    rw [heq', heq]
  carried := List.Subset.trans h.carried h'.carried

theorem mint (hmint : d.mintV2DeliveryToken blake3 peer = some (token, d₁)) : Later d d₁ := by
  obtain ⟨chain, hchain, -, -, rfl⟩ := mint_eq_some_iff.mp hmint
  refine ⟨fun peer' chain' h => ?_, List.Subset.refl _⟩
  rcases chain_update_cases h with ⟨rfl, heq⟩ | ⟨-, h⟩
  · cases heq
    exact ⟨chain, hchain, Nat.le_succ _, rfl⟩
  · exact ⟨chain', h, le_refl _, rfl⟩

theorem sendSealedToRelays (d : Outbound) (peer : Bytes) (frame : Sealed) (token : Token)
    (ready : Nat) : Later d (d.sendSealedToRelays peer frame token ready) :=
  of_chain_eq (sendSealedToRelays_chain ..) (subset_sendSealedToRelays ..)

theorem handOver (d : Outbound) (e : OutboxEntry) (token : Token) (ready : Nat) :
    Later d (d.handOver e token ready) :=
  (sendSealedToRelays d e.recipientPeerId e.sealedCiphertext token ready).trans
    (of_chain_eq rfl (List.Subset.refl _))

/-- A chain that can give a token later could give one before. -/
theorem minted (h : Later d d') (hmint : (d'.mintV2DeliveryToken blake3 peer).isSome) :
    (d.mintV2DeliveryToken blake3 peer).isSome := by
  obtain ⟨⟨token, d₁⟩, hmint⟩ := Option.isSome_iff_exists.mp hmint
  obtain ⟨chain', hchain', hleft, -, -⟩ := mint_eq_some_iff.mp hmint
  obtain ⟨chain, hchain, hle, heq⟩ := h.chain peer chain' hchain'
  refine Option.isSome_iff_exists.mpr ⟨_, mint_eq_some_iff.mpr ⟨chain, hchain, ?_, rfl, rfl⟩⟩
  have : chain'.length = chain.length := by rw [heq]
  omega

end Later

/-! ## Rows -/

/-- What may become of a row besides a hand-over: its retries are counted, it ends, it is read.
It fails only when its time is up. -/
structure Revised (now : Int) (e e' : OutboxEntry) : Prop where
  eq : e' = { e with
    retries := e'.retries
    deliveredAt := e'.deliveredAt
    failedAt := e'.failedAt
    readAt := e'.readAt }
  failed : e'.failedAt = e.failedAt ∨ e.hasExpired now = true

theorem Revised.refl (now : Int) (e : OutboxEntry) : Revised now e e := ⟨rfl, .inl rfl⟩

/-- Every row of `o'` is a row of `o`, revised. -/
def Revision (now : Int) (o o' : Outbox) : Prop :=
  ∀ id e', o'.lookup id = some e' → ∃ e, o.lookup id = some e ∧ Revised now e e'

/-- The row `e` of a frame that is about to go out for the first time. -/
structure NewRow (d : Outbound) (e : OutboxEntry) : Prop where
  named : e.sealedCiphertext.messageId = e.messageId
  pending : e.status = .pending
  unused : d.Unused e.messageId

/-- The outbox behind the stamp of a row, if it is still there. -/
def stamp (outbox : Outbox) (id : Bytes) (now : Int) : Outbox :=
  match outbox.lookup id with
  | none => outbox
  | some e => outbox.insert id (e.relayed now)

end Outbound

/-! ## Moves -/

open Outbound

/-- The moves of a chain and its rows. -/
inductive Move where
  /-- an index leaves on a frame without a row -/
  | spend
  /-- an index goes to nothing -/
  | burn
  /-- a new row that has failed -/
  | fail
  /-- an index waits in a new row -/
  | queue
  /-- an index leaves on a frame with a row -/
  | ship
  /-- an index waits in a new row and with its leg -/
  | hold
  /-- a waiting leg goes out -/
  | deliver
  /-- a waiting leg finds no relay -/
  | strand
  /-- the retry walk sends a row again, with a new index -/
  | resend (id : Bytes)
  /-- the user sends a row again, with a new index -/
  | retry (id : Bytes)
  /-- rows end or are dropped -/
  | revise (outbox : Outbox)
  /-- a peer's new chain -/
  | install
  | tick

namespace Move

/-- The moves that lose no index, revise no row and send none a second time. -/
def harmless : Move → Bool
  | .burn | .resend _ | .retry _ | .revise _ => false
  | _ => true

/-- One move. -/
inductive Step (blake3 : Bytes → ChainValue) : Outbound → Move → Outbound → Prop
  | spend {d d₁ : Outbound} {peer : Bytes} {token : Token} {frame : Sealed}
      (hmint : d.mintV2DeliveryToken blake3 peer = some (token, d₁))
      (hnew : d.Unused frame.messageId) :
      Step blake3 d .spend { d₁ with carried := d₁.carried ++ [⟨peer, token, frame⟩] }
  | burn {d d₁ : Outbound} {peer : Bytes} {token : Token}
      (hmint : d.mintV2DeliveryToken blake3 peer = some (token, d₁)) : Step blake3 d .burn d₁
  | fail {d : Outbound} {e : OutboxEntry} {t : Int} (hrow : d.NewRow e) :
      Step blake3 d .fail (d.store { e with failedAt := some t })
  | queue {d d₁ : Outbound} {e : OutboxEntry} {token : Token}
      (hmint : d.mintV2DeliveryToken blake3 e.recipientPeerId = some (token, d₁))
      (htoken : e.token = encode token) (hrow : d.NewRow e) :
      Step blake3 d .queue (d₁.store e)
  | ship {d d₁ : Outbound} {e : OutboxEntry} {token : Token} {t : Int}
      (hmint : d.mintV2DeliveryToken blake3 e.recipientPeerId = some (token, d₁))
      (hrow : d.NewRow e) :
      Step blake3 d .ship
        (Outbound.store
          { d₁ with carried := d₁.carried ++ [⟨e.recipientPeerId, token, e.sealedCiphertext⟩] }
          (e.relayed t))
  | hold {d d₁ : Outbound} {e : OutboxEntry} {token : Token}
      (hmint : d.mintV2DeliveryToken blake3 e.recipientPeerId = some (token, d₁))
      (htoken : e.token = encode token) (hrow : d.NewRow e) :
      Step blake3 d .hold
        { d₁.store e with
          legs := d₁.legs ++ [⟨e.messageId, e.recipientPeerId, e.sealedCiphertext, token⟩] }
  | deliver {d : Outbound} {i : Nat} {leg : LegContext} {t : Int} (hleg : d.legs[i]? = some leg) :
      Step blake3 d .deliver
        { d with
          legs := d.legs.eraseIdx i
          carried := d.carried ++ [⟨leg.recipient, leg.token, leg.sealed⟩]
          outbox := stamp d.outbox leg.messageId t }
  | strand {d : Outbound} (i : Nat) :
      Step blake3 d .strand { d with legs := d.legs.eraseIdx i }
  | resend {d d₁ : Outbound} {id : Bytes} {e : OutboxEntry} {token : Token}
      (hmint : d.mintV2DeliveryToken blake3 e.recipientPeerId = some (token, d₁))
      (hlookup : d.outbox.lookup id = some e) (hpending : e.status = .pending) :
      Step blake3 d (.resend id)
        { d₁ with
          carried := d₁.carried ++ [⟨e.recipientPeerId, token, e.sealedCiphertext⟩]
          outbox := d₁.outbox.insert id { e with retries := e.retries + 1 } }
  | retry {d d₁ : Outbound} {id : Bytes} {e : OutboxEntry} {token : Token} {t : Int}
      (hmint : d.mintV2DeliveryToken blake3 e.recipientPeerId = some (token, d₁))
      (hlookup : d.outbox.lookup id = some e) (hpending : e.status = .pending) :
      Step blake3 d (.retry id)
        { d₁ with
          carried := d₁.carried ++ [⟨e.recipientPeerId, token, e.sealedCiphertext⟩]
          outbox := d₁.outbox.insert id
            (OutboxEntry.relayed { e with retries := e.retries + 1 } t) }
  | revise {d : Outbound} {outbox : Outbox} (h : Revision d.now d.outbox outbox) :
      Step blake3 d (.revise outbox) { d with outbox := outbox }
  | install {d : Outbound} {peer payload : Bytes} {chain : Chain}
      (hchain : decodeSeedDelivery payload = some chain)
      (hnew : d.UnusedChain peer chain.chainID) :
      Step blake3 d .install { d with chain := Function.update d.chain peer (some chain) }
  | tick (d : Outbound) (seconds : Nat) : Step blake3 d .tick { d with now := d.now + seconds }

end Move

/-- A run of moves that meet `ok`. -/
abbrev Moves (blake3 : Bytes → ChainValue) (ok : Outbound → Move → Prop) :
    Outbound → Outbound → Prop :=
  Runs.Reach (Move.Step blake3) ok

theorem Moves.one {blake3 : Bytes → ChainValue} {ok : Outbound → Move → Prop} {d d' : Outbound}
    {m : Move} (hstep : Move.Step blake3 d m d') (hok : ok d m) : Moves blake3 ok d d' :=
  Runs.Reach.snoc .refl hstep hok

/-! ## Ids that stay unused -/

namespace Outbound

variable {blake3 : Bytes → ChainValue} {me : Bytes} {d d₁ : Outbound} {peer id : Bytes}
  {token : Token} {e : OutboxEntry} {frame : Sealed}

theorem Unused.mint (h : d.Unused id)
    (hmint : d.mintV2DeliveryToken blake3 peer = some (token, d₁)) : d₁.Unused id := by
  obtain ⟨-, houtbox, hlegs, hcarried⟩ := mint_frame hmint
  exact ⟨by rw [houtbox]; exact h.row, by rw [hlegs]; exact h.leg, by rw [hcarried]; exact h.frame⟩

theorem Unused.store (h : d.Unused id) (hne : id ≠ e.messageId) : (d.store e).Unused id where
  row := by
    rw [Outbound.store, AList.lookup_insert_ne hne]
    exact h.row
  leg := h.leg
  frame := h.frame

theorem Unused.sendSealedToRelays (h : d.Unused id) (hne : id ≠ frame.messageId) (ready : Nat) :
    (d.sendSealedToRelays peer frame token ready).Unused id := by
  unfold Outbound.sendSealedToRelays
  split
  · refine ⟨h.row, h.leg, fun x hx => ?_⟩
    rcases List.mem_append.mp hx with hx | hx
    · exact h.frame x hx
    · cases List.mem_singleton.mp hx
      exact hne.symm
  · exact h

theorem Unused.handOver (h : d.Unused id) (hnamed : e.sealedCiphertext.messageId = e.messageId)
    (hne : id ≠ e.messageId) (ready : Nat) : (d.handOver e token ready).Unused id := by
  refine Unused.store (h.sendSealedToRelays (by rw [hnamed]; exact hne) ready) ?_
  split
  · exact hne
  · exact hne

theorem Unused.holdLeg {groupMessageId body : Bytes} {l : GroupLeg} (h : d.Unused id)
    (hne : id ≠ l.attempt.messageId) : (d.holdLeg blake3 me groupMessageId body l).Unused id := by
  unfold Outbound.holdLeg
  cases hmint : d.mintV2DeliveryToken blake3 l.recipient with
  | none => exact h
  | some minted =>
    obtain ⟨token, d₁⟩ := minted
    simp only
    split
    · have hrow := (h.mint hmint).store (e :=
        { d₁.newEntry (encryptSealed me l.recipient l.attempt.messageId .groupChat body) token
            l.ttl with groupMessageId := some groupMessageId }) hne
      refine ⟨hrow.row, fun leg hleg => ?_, hrow.frame⟩
      rcases List.mem_append.mp hleg with hleg | hleg
      · exact hrow.leg leg hleg
      · cases List.mem_singleton.mp hleg
        exact hne.symm
    · exact h.mint hmint

theorem Unused.shipGroupChunk {groupMessageId : Bytes}
    {attachmentId : Pizzini.Attachments.AttachmentId} {chunkCount : Nat}
    {turn : ChunkTurn} (h : d.Unused id) (hne : id ≠ turn.leg.attempt.messageId) :
    (d.shipGroupChunk blake3 me groupMessageId attachmentId chunkCount turn).Unused id := by
  unfold Outbound.shipGroupChunk
  cases hmint : d.mintV2DeliveryToken blake3 turn.leg.recipient with
  | none => exact h
  | some minted =>
    simp only
    split
    · exact (h.mint hmint).handOver rfl hne _
    · exact h.mint hmint

theorem later_holdLeg {groupMessageId body : Bytes} {l : GroupLeg} :
    Later d (d.holdLeg blake3 me groupMessageId body l) := by
  unfold holdLeg
  cases hmint : d.mintV2DeliveryToken blake3 l.recipient with
  | none => exact .refl d
  | some minted =>
    simp only
    split
    · exact (Later.mint hmint).trans (.of_chain_eq rfl (List.Subset.refl _))
    · exact .mint hmint

theorem later_shipGroupChunk {groupMessageId : Bytes}
    {attachmentId : Pizzini.Attachments.AttachmentId} {chunkCount : Nat} {turn : ChunkTurn} :
    Later d (d.shipGroupChunk blake3 me groupMessageId attachmentId chunkCount turn) := by
  unfold shipGroupChunk
  cases hmint : d.mintV2DeliveryToken blake3 turn.leg.recipient with
  | none => exact .refl d
  | some minted =>
    simp only
    split
    · exact (Later.mint hmint).trans (.handOver ..)
    · exact .mint hmint

/-! ## The moves of each path -/

/-- A pending row stays new when its token is minted. -/
theorem NewRow.mint (h : d.NewRow e)
    (hmint : d.mintV2DeliveryToken blake3 peer = some (token, d₁)) : d₁.NewRow e :=
  ⟨h.named, h.pending, h.unused.mint hmint⟩

section Paths

variable {ok : Outbound → Move → Prop} (hok : ∀ d m, Move.harmless m = true → ok d m)
include hok

theorem moves_handOver (hmint : d.mintV2DeliveryToken blake3 e.recipientPeerId = some (token, d₁))
    (htoken : e.token = encode token) (hrow : d.NewRow e) (ready : Nat) :
    Moves blake3 ok d (d₁.handOver e token ready) := by
  unfold handOver sendSealedToRelays
  by_cases hready : 0 < ready
  · rw [if_pos hready, if_pos hready]
    exact .one (.ship hmint hrow) (hok _ _ rfl)
  · rw [if_neg hready, if_neg hready]
    exact .one (.queue hmint htoken hrow) (hok _ _ rfl)

/-- A frame without a row. -/
theorem moves_sendSealedToRelays
    (hmint : d.mintV2DeliveryToken blake3 peer = some (token, d₁))
    (hnew : d.Unused frame.messageId) {ready : Nat} (hburn : ready = 0 → ∀ d, ok d .burn) :
    Moves blake3 ok d (d₁.sendSealedToRelays peer frame token ready) := by
  unfold sendSealedToRelays
  by_cases hready : 0 < ready
  · rw [if_pos hready]
    exact .one (.spend hmint hnew) (hok _ _ rfl)
  · rw [if_neg hready]
    exact .one (.burn hmint) (hburn (by omega) _)

/-- A text burns its index when `persistSession` fails. -/
theorem moves_send {ttl : Int} {text : Bytes} {a : Attempt} (hnew : d.Unused a.messageId)
    (hburn : (d.mintV2DeliveryToken blake3 peer).isSome → a.encrypts = true →
      a.persists = false → ∀ d, ok d .burn) :
    Moves blake3 ok d (d.send blake3 me peer ttl text a) := by
  unfold send
  cases hmint : d.mintV2DeliveryToken blake3 peer with
  | none => exact .refl
  | some minted =>
    obtain ⟨token, d₁⟩ := minted
    simp only [sendV2]
    cases hencrypts : a.encrypts with
    | false =>
      rw [if_neg (by simp), rollback_mint hmint]
      exact .refl
    | true =>
      have hrow : d.NewRow (d₁.newEntry (encryptSealed me peer a.messageId .chat text) token ttl) :=
        ⟨rfl, rfl, hnew⟩
      rw [if_pos rfl]
      cases hpersists : a.persists with
      | true => exact moves_handOver hok hmint rfl hrow a.ready
      | false =>
        exact (Moves.one (.burn hmint) (hburn (by rw [hmint]; rfl) hencrypts hpersists _)).snoc
          (.fail (hrow.mint hmint)) (hok _ _ rfl)

/-- The chunks burn an index when `persistSession` is what ends the loop. -/
theorem moves_shipChunks {ttl : Int} {attachmentId : Pizzini.Attachments.AttachmentId}
    {chunkCount : Nat} {chunks : List (Bytes × Attempt)}
    (hburn : ∀ c ∈ chunks.find? fun c => !(c.2.encrypts && c.2.persists),
      c.2.encrypts = true → ∀ d, ok d .burn) :
    ∀ {i : Nat} {d : Outbound}, (chunks.map fun c => c.2.messageId).Nodup →
      (∀ id ∈ chunks.map fun c => c.2.messageId, d.Unused id) →
      Moves blake3 ok d (d.shipChunks blake3 me peer ttl attachmentId chunkCount i chunks) := by
  induction chunks with
  | nil => exact fun _ _ => .refl
  | cons c chunks ih =>
    obtain ⟨body, a⟩ := c
    intro i d hnodup hnew
    obtain ⟨hfirst, hrest⟩ := List.nodup_cons.mp hnodup
    unfold shipChunks
    cases hencrypts : a.encrypts with
    | false => exact .refl
    | true =>
      rw [if_pos rfl]
      cases hmint : d.mintV2DeliveryToken blake3 peer with
      | none => exact .refl
      | some minted =>
        obtain ⟨token, d₁⟩ := minted
        have hrow : d.NewRow
            { d₁.newEntry (encryptSealed me peer a.messageId .fileChunk body) token ttl with
              attachmentId := some attachmentId
              chunkIndex := some i
              chunkCount := some chunkCount } :=
          ⟨rfl, rfl, hnew _ (List.mem_cons_self ..)⟩
        simp only
        cases hpersists : a.persists with
        | true =>
          rw [if_pos rfl]
          refine (moves_handOver hok hmint rfl hrow a.ready).trans (ih ?_ hrest fun id hid => ?_)
          · simpa [List.find?_cons, hencrypts, hpersists] using hburn
          · refine ((hnew id (List.mem_cons_of_mem _ hid)).mint hmint).handOver rfl ?_ _
            rintro rfl
            exact hfirst hid
        | false =>
          have hthis := hburn (body, a) (by simp [hencrypts, hpersists])
          exact (Moves.one (.burn hmint) (hthis hencrypts _)).snoc (.fail (hrow.mint hmint))
            (hok _ _ rfl)

/-- A leg burns its index when it cannot be sealed. -/
theorem moves_holdLeg {groupMessageId body : Bytes} {l : GroupLeg}
    (hnew : d.Unused l.attempt.messageId)
    (hburn : (d.mintV2DeliveryToken blake3 l.recipient).isSome → l.attempt.encrypts = false →
      ∀ d, ok d .burn) :
    Moves blake3 ok d (d.holdLeg blake3 me groupMessageId body l) := by
  unfold holdLeg
  cases hmint : d.mintV2DeliveryToken blake3 l.recipient with
  | none => exact .refl
  | some minted =>
    obtain ⟨token, d₁⟩ := minted
    simp only
    cases hencrypts : l.attempt.encrypts with
    | false => exact .one (.burn hmint) (hburn (by rw [hmint]; rfl) hencrypts _)
    | true =>
      rw [if_pos rfl]
      exact .one (.hold (e :=
        { d₁.newEntry (encryptSealed me l.recipient l.attempt.messageId .groupChat body) token
            l.ttl with groupMessageId := some groupMessageId }) hmint rfl ⟨rfl, rfl, hnew⟩)
        (hok _ _ rfl)

/-- The end of a delay hands the leg over, or leaves its row pending. -/
theorem moves_releaseLeg (index ready : Nat) : Moves blake3 ok d (d.releaseLeg index ready) := by
  unfold releaseLeg
  cases hleg : d.legs[index]? with
  | none => exact .refl
  | some leg =>
    by_cases hready : 0 < ready
    · have hdeliver : Move.Step blake3 d .deliver _ := .deliver (t := d.now) hleg
      simp only [sendSealedToRelays, if_pos hready]
      unfold stamp at hdeliver
      cases hrow : d.outbox.lookup leg.messageId with
      | none => exact .one (by simpa [hrow] using hdeliver) (hok _ .deliver rfl)
      | some entry => exact .one (by simpa [hrow] using hdeliver) (hok _ .deliver rfl)
    · simp only [sendSealedToRelays, if_neg hready]
      exact .one (.strand index) (hok _ _ rfl)

/-- A chunk to a member burns its index when it cannot be sealed. -/
theorem moves_shipGroupChunk {groupMessageId : Bytes}
    {attachmentId : Pizzini.Attachments.AttachmentId} {chunkCount : Nat}
    {turn : ChunkTurn} (hnew : d.Unused turn.leg.attempt.messageId)
    (hburn : (d.mintV2DeliveryToken blake3 turn.leg.recipient).isSome →
      turn.leg.attempt.encrypts = false → ∀ d, ok d .burn) :
    Moves blake3 ok d
      (d.shipGroupChunk blake3 me groupMessageId attachmentId chunkCount turn) := by
  unfold shipGroupChunk
  cases hmint : d.mintV2DeliveryToken blake3 turn.leg.recipient with
  | none => exact .refl
  | some minted =>
    obtain ⟨token, d₁⟩ := minted
    simp only
    cases hencrypts : turn.leg.attempt.encrypts with
    | false => exact .one (.burn hmint) (hburn (by rw [hmint]; rfl) hencrypts _)
    | true => exact moves_handOver hok hmint rfl ⟨rfl, rfl, hnew⟩ _

/-- An acknowledgement or a receipt burns no index. -/
theorem moves_emit {kind : InnerEnvelopeKind} {body : Bytes} {a : Attempt}
    (hnew : d.Unused a.messageId) : Moves blake3 ok d (d.emit blake3 me peer kind body a) := by
  unfold emit
  cases hmint : d.mintV2DeliveryToken blake3 peer with
  | none => exact .refl
  | some minted =>
    obtain ⟨token, d₁⟩ := minted
    simp only
    split
    · split
      · next hready =>
        rw [hready, sendSealedToRelays_zero, rollback_mint hmint]
        exact .refl
      · next hready => exact moves_sendSealedToRelays hok hmint hnew (absurd · hready)
    · rw [rollback_mint hmint]
      exact .refl

/-- A refresh request burns its index unless all three steps succeed. -/
theorem moves_sendChainRefreshRequest {a : Attempt} (hnew : d.Unused a.messageId)
    (hburn : (d.mintV2DeliveryToken blake3 peer).isSome →
      ¬(a.encrypts = true ∧ a.persists = true ∧ 0 < a.ready) → ∀ d, ok d .burn) :
    Moves blake3 ok d (d.sendChainRefreshRequest blake3 me peer a) := by
  unfold sendChainRefreshRequest
  cases hmint : d.mintV2DeliveryToken blake3 peer with
  | none => exact .refl
  | some minted =>
    obtain ⟨token, d₁⟩ := minted
    replace hburn := hburn (by rw [hmint]; rfl)
    simp only
    cases hencrypts : a.encrypts with
    | false => exact .one (.burn hmint) (hburn (by simp [hencrypts]) _)
    | true =>
      cases hpersists : a.persists with
      | false => exact .one (.burn hmint) (hburn (by simp [hpersists]) _)
      | true =>
        exact moves_sendSealedToRelays hok hmint hnew fun hready => hburn (by simp [hready])

/-- A group broadcast burns its index when it cannot be sealed, and when no relay is ready. -/
theorem moves_broadcast {kind : InnerEnvelopeKind} {body : Bytes} {a : Attempt}
    (hnew : d.Unused a.messageId)
    (hburn : (d.mintV2DeliveryToken blake3 peer).isSome →
      ¬(a.encrypts = true ∧ 0 < a.ready) → ∀ d, ok d .burn) :
    Moves blake3 ok d (d.broadcast blake3 me peer kind body a) := by
  unfold broadcast
  cases hmint : d.mintV2DeliveryToken blake3 peer with
  | none => exact .refl
  | some minted =>
    obtain ⟨token, d₁⟩ := minted
    replace hburn := hburn (by rw [hmint]; rfl)
    simp only
    cases hencrypts : a.encrypts with
    | false => exact .one (.burn hmint) (hburn (by simp [hencrypts]) _)
    | true =>
      exact moves_sendSealedToRelays hok hmint hnew fun hready => hburn (by simp [hready])

/-- The fan-out of a group message. -/
theorem moves_sendGroupMessage {groupMessageId body : Bytes} {legs : List GroupLeg}
    (hnodup : (legs.map fun l => l.attempt.messageId).Nodup)
    (hnew : ∀ id ∈ legs.map fun l => l.attempt.messageId, d.Unused id)
    (hburn : ∀ l ∈ legs, (d.mintV2DeliveryToken blake3 l.recipient).isSome →
      l.attempt.encrypts = false → ∀ d, ok d .burn) :
    Moves blake3 ok d (d.sendGroupMessage blake3 me groupMessageId body legs) := by
  refine Runs.Reach.foldl (fun d' rest => Later d d' ∧ rest ⊆ legs ∧
    (rest.map fun l => l.attempt.messageId).Nodup ∧
    ∀ id ∈ rest.map fun l => l.attempt.messageId, d'.Unused id) ?_
    ⟨.refl d, List.Subset.refl _, hnodup, hnew⟩
  rintro d' l rest ⟨hlater, hsub, hnodup, hnew⟩
  obtain ⟨hfirst, hrest⟩ := List.nodup_cons.mp hnodup
  refine ⟨moves_holdLeg hok (hnew _ (List.mem_cons_self ..)) fun hmint =>
      hburn l (hsub (List.mem_cons_self ..)) (hlater.minted hmint),
    hlater.trans later_holdLeg, fun l' hl' => hsub (List.mem_cons_of_mem _ hl'), hrest,
    fun id hid => (hnew id (List.mem_cons_of_mem _ hid)).holdLeg ?_⟩
  rintro rfl
  exact hfirst hid

/-- The fan-out of a group attachment. -/
theorem moves_shipGroupChunks {groupMessageId : Bytes}
    {attachmentId : Pizzini.Attachments.AttachmentId} {chunkCount : Nat} {turns : List ChunkTurn}
    (hnodup : (turns.map fun turn => turn.leg.attempt.messageId).Nodup)
    (hnew : ∀ id ∈ turns.map fun turn => turn.leg.attempt.messageId, d.Unused id)
    (hburn : ∀ turn ∈ turns, (d.mintV2DeliveryToken blake3 turn.leg.recipient).isSome →
      turn.leg.attempt.encrypts = false → ∀ d, ok d .burn) :
    Moves blake3 ok d
      (turns.foldl (shipGroupChunk blake3 me groupMessageId attachmentId chunkCount) d) := by
  refine Runs.Reach.foldl (fun d' rest => Later d d' ∧ rest ⊆ turns ∧
    (rest.map fun turn => turn.leg.attempt.messageId).Nodup ∧
    ∀ id ∈ rest.map fun turn => turn.leg.attempt.messageId, d'.Unused id) ?_
    ⟨.refl d, List.Subset.refl _, hnodup, hnew⟩
  rintro d' turn rest ⟨hlater, hsub, hnodup, hnew⟩
  obtain ⟨hfirst, hrest⟩ := List.nodup_cons.mp hnodup
  refine ⟨moves_shipGroupChunk hok (hnew _ (List.mem_cons_self ..)) fun hmint =>
      hburn turn (hsub (List.mem_cons_self ..)) (hlater.minted hmint),
    hlater.trans later_shipGroupChunk, fun turn' hturn' => hsub (List.mem_cons_of_mem _ hturn'),
    hrest, fun id hid => (hnew id (List.mem_cons_of_mem _ hid)).shipGroupChunk ?_⟩
  rintro rfl
  exact hfirst hid

end Paths

/-! ## Revisions -/

theorem revision_expire (d : Outbound) : Revision d.now d.outbox d.expire.outbox := by
  intro id e' h
  rw [expire, AList.lookup_mapVals, Option.map_eq_some_iff] at h
  obtain ⟨e, he, rfl⟩ := h
  refine ⟨e, he, ?_⟩
  by_cases hexpired : e.hasExpired d.now = true
  · rw [if_pos hexpired]
    exact ⟨rfl, .inr hexpired⟩
  · rw [if_neg hexpired]
    exact .refl _ e

theorem revision_collect (d : Outbound) : Revision d.now d.outbox d.collect.outbox := by
  intro id e h
  rw [collect, AList.lookup_retain, Option.filter_eq_some_iff] at h
  exact ⟨e, h.1, .refl _ e⟩

theorem revision_acknowledge (outbox : Outbox) (payload fromPeer : Bytes) (now t : Int) :
    Revision now outbox (outbox.acknowledge payload fromPeer t) := by
  intro id e' h
  unfold Outbox.acknowledge at h
  split at h
  · exact ⟨e', h, .refl _ e'⟩
  · cases hrow : outbox.lookup payload with
    | none => exact ⟨e', by simpa [hrow] using h, .refl _ e'⟩
    | some entry =>
      simp only [hrow] at h
      split at h
      · rw [AList.lookup_insert_of_eq_or_ne] at h
        split at h
        · next hid =>
          cases h
          exact ⟨entry, hid ▸ hrow, rfl, .inl rfl⟩
        · exact ⟨e', h, .refl _ e'⟩
      · exact ⟨e', h, .refl _ e'⟩

theorem revision_stampLegs (outbox : Outbox) (peer : Bytes) (cutoff now t : Int) :
    Revision now outbox (outbox.stampLegs peer cutoff t) := by
  intro id e' h
  rw [Outbox.stampLegs, AList.lookup_mapVals, Option.map_eq_some_iff] at h
  obtain ⟨e, he, rfl⟩ := h
  refine ⟨e, he, ?_⟩
  split
  · exact ⟨rfl, .inl rfl⟩
  · exact .refl _ e

theorem revision_erase (outbox : Outbox) (id : Bytes) (now : Int) :
    Revision now outbox (outbox.erase id) := by
  intro id' e h
  by_cases hid : id' = id
  · subst hid
    rw [AList.lookup_erase] at h
    cases h
  · rw [AList.lookup_erase_ne hid] at h
    exact ⟨e, h, .refl _ e⟩

end Outbound

end Pizzini.Delivery
