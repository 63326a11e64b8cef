import Pizzini.Delivery.IssuedTokens
import Pizzini.Delivery.RelayedRows

/-!
# What becomes of a chain's indices (`rollbackV2DeliveryToken`, ChatStore.swift:2896–2912)

"A chain index is consumed iff a frame carrying it actually reached the wire path." An index
below the cursor should have gone out, or wait in a row for its first send (`Accounted`).
`emitAck` and `emitReadReceipt` see to it: whatever fails, they roll the index back. The
others do so in part. A text rolls back when it cannot be sealed, not when the session cannot
be saved; attachments, group frames and refresh requests never do; the retry walk does when no
relay is ready, but when one is, the row's own index is lost beside the one it minted, and so
it is when a row expires.

`indices_accounted` names these ways out (`Clean`): in every run without them every index is
accounted for.
-/

namespace Pizzini.Delivery

open Wire Relay Chat

namespace Outbound

/-- The row waits for its first send: it is pending, and no relay has had its frame. -/
def Waiting (d : Outbound) (e : OutboxEntry) : Prop := e.status = .pending ∧ ¬d.Handed e

/-- A frame with the token has gone out to the peer, or a row waits with it. -/
def AccountedAt (d : Outbound) (peer : Bytes) (token : Token) : Prop :=
  (∃ x ∈ d.carried, x.peer = peer ∧ x.token = token) ∨
    ∃ id e, d.outbox.lookup id = some e ∧ e.recipientPeerId = peer ∧ d.Waiting e ∧
      e.token = encode token

section Accounts

variable (blake3 : Bytes → ChainValue) (d : Outbound)

/-- Every index below the cursor of a current chain is accounted for. -/
def Accounted : Prop :=
  ∀ peer chain, d.chain peer = some chain → ∀ i, 0 < i → i < chain.nextIndex →
    d.AccountedAt peer (tokenAt blake3 chain i)

/-- The token is one of the peer's current chain. -/
def Current (peer : Bytes) (token : Token) : Prop :=
  ∃ chain i, d.chain peer = some chain ∧ token = tokenAt blake3 chain i ∧ 0 < i ∧
    i ≤ chain.length

/-- The row waits with an index of its recipient's current chain. -/
def Holds (e : OutboxEntry) : Prop :=
  d.Waiting e ∧ ∃ token, d.Current blake3 e.recipientPeerId token ∧ e.token = encode token

/-- No index is lost: where a minted index is not rolled back, nothing fails; and a row that
waits with one is not sent again, and neither ends nor is dropped. -/
def Clean : Event → Prop
  | .send peer _ _ a =>
    (d.mintV2DeliveryToken blake3 peer).isSome → a.encrypts = true → a.persists = true
  | .shipPreparedAttachment peer _ _ chunks =>
    -- the first failure is of the seal, before the mint
    ¬d.remaining peer < chunks.length →
      ∀ c ∈ chunks.find? fun c => !(c.2.encrypts && c.2.persists), c.2.encrypts = false
  | .sendGroupMessage _ _ legs =>
    ∀ l ∈ legs, (d.mintV2DeliveryToken blake3 l.recipient).isSome → l.attempt.encrypts = true
  | .shipPreparedGroupAttachment _ _ _ chunks =>
    ∀ turn ∈ chunkTurns chunks, (d.mintV2DeliveryToken blake3 turn.leg.recipient).isSome →
      turn.leg.attempt.encrypts = true
  | .sendChainRefreshRequest peer a =>
    (d.mintV2DeliveryToken blake3 peer).isSome →
      a.encrypts = true ∧ a.persists = true ∧ 0 < a.ready
  | .broadcastGroupOp peer _ a | .broadcastSenderKeyDistribution peer _ a
  | .broadcastGroupBootstrap peer _ a =>
    (d.mintV2DeliveryToken blake3 peer).isSome → a.encrypts = true ∧ 0 < a.ready
  | .runRetryWalk connected ready =>
    ∀ id e, d.outbox.lookup id = some e → d.Holds blake3 e → e.hasExpired d.now = false ∧
      (connected = true → e.shouldRetry d.now = true →
        (d.mintV2DeliveryToken blake3 e.recipientPeerId).isSome → ready id = 0)
  | .userRetry id connected ready =>
    connected = true → ∀ e, d.outbox.lookup id = some e → e.status = .pending →
      (d.mintV2DeliveryToken blake3 e.recipientPeerId).isSome → 0 < ready ∧ ¬d.Holds blake3 e
  | .userRetryAttachment attachmentId connected ready =>
    connected = true → ∀ id e, d.outbox.lookup id = some e →
      e.attachmentId = some attachmentId → e.status = .pending →
      (d.mintV2DeliveryToken blake3 e.recipientPeerId).isSome → 0 < ready id ∧ ¬d.Holds blake3 e
  | .userTryAgainExpired id =>
    ∀ e, d.outbox.lookup id = some e → d.Holds blake3 e → e.hasExpired d.now = false
  | .handleAckPayload payload fromPeer =>
    payload.length = 16 → ∀ e, d.outbox.lookup payload = some e → d.Holds blake3 e →
      e.recipientPeerId ≠ fromPeer
  | _ => True

/-- The moves that lose no index. -/
def CleanMove : Move → Prop
  | .burn => False
  | .resend id | .retry id => ∀ e, d.outbox.lookup id = some e → ¬d.Holds blake3 e
  | .revise outbox => ∀ id e, d.outbox.lookup id = some e → d.Holds blake3 e →
    ∃ e', outbox.lookup id = some e' ∧ e'.status = .pending ∧ Revised d.now e e'
  | _ => True

end Accounts

variable {blake3 : Bytes → ChainValue} {me : Bytes} {d d₁ d' : Outbound} {peer : Bytes}
  {token : Token} {e : OutboxEntry}

/-! ## Legs and their rows -/

/-- Chains are as long as four bytes can say, and the row of a waiting leg has the leg's
token, or has been scrubbed of it. -/
structure Paired (d : Outbound) : Prop where
  chain : ∀ peer chain, d.chain peer = some chain →
    chain.length < 2 ^ 32 ∧ 0 < chain.nextIndex ∧ chain.nextIndex ≤ chain.length + 1
  leg : ∀ leg ∈ d.legs, 0 < leg.token.index ∧ leg.token.index < 2 ^ 32
  row : ∀ leg ∈ d.legs, ∀ e, d.outbox.lookup leg.messageId = some e →
    e.recipientPeerId = leg.recipient ∧ (e.token = encode leg.token ∨ e.token = [])

namespace Paired

/-- Minting keeps to the chain's length. -/
theorem mint (h : d.Paired) (hmint : d.mintV2DeliveryToken blake3 peer = some (token, d₁)) :
    d₁.Paired ∧ 0 < token.index ∧ token.index < 2 ^ 32 := by
  obtain ⟨chain, hchain, hleft, rfl, rfl⟩ := mint_eq_some_iff.mp hmint
  obtain ⟨hlength, hpos, -⟩ := h.chain peer chain hchain
  refine ⟨⟨fun peer' chain' h' => ?_, h.leg, h.row⟩, hpos, lt_of_le_of_lt hleft hlength⟩
  rcases chain_update_cases h' with ⟨-, heq⟩ | ⟨-, h'⟩
  · cases heq
    exact ⟨hlength, Nat.succ_pos _, Nat.succ_le_succ hleft⟩
  · exact h.chain peer' chain' h'

/-- Chains and legs as before, and the rows of the legs too, but for fields that do not
count here. -/
theorem of_rows (h : d.Paired) (hchain : d'.chain = d.chain) (hlegs : ∀ leg ∈ d'.legs, leg ∈ d.legs)
    (hrows : ∀ leg ∈ d'.legs, ∀ e', d'.outbox.lookup leg.messageId = some e' →
      ∃ e, d.outbox.lookup leg.messageId = some e ∧ e'.recipientPeerId = e.recipientPeerId ∧
        (e'.token = e.token ∨ e'.token = [])) : d'.Paired := by
  refine ⟨by rw [hchain]; exact h.chain, fun leg hleg => h.leg leg (hlegs leg hleg),
    fun leg hleg e' he' => ?_⟩
  obtain ⟨e, he, hrecipient, htoken⟩ := hrows leg hleg e' he'
  obtain ⟨hrow, hrowToken⟩ := h.row leg (hlegs leg hleg) e he
  refine ⟨hrecipient.trans hrow, ?_⟩
  rcases htoken with htoken | htoken
  · rw [htoken]
    exact hrowToken
  · exact .inr htoken

/-- A row at an id that no leg has. -/
theorem of_insert (h : d.Paired) {id : Bytes} {e' : OutboxEntry} (hchain : d'.chain = d.chain)
    (hlegs : d'.legs = d.legs) (houtbox : d'.outbox = d.outbox.insert id e')
    (hid : ∀ leg ∈ d.legs, leg.messageId = id → ∃ e, d.outbox.lookup id = some e ∧
      e'.recipientPeerId = e.recipientPeerId ∧ (e'.token = e.token ∨ e'.token = [])) :
    d'.Paired := by
  refine h.of_rows hchain (fun leg hleg => hlegs ▸ hleg) fun leg hleg e'' he'' => ?_
  rw [hlegs] at hleg
  rw [houtbox] at he''
  rcases AList.lookup_insert_cases he'' with ⟨rfl, rfl⟩ | ⟨-, he''⟩
  · exact hid leg hleg rfl
  · exact ⟨e'', he'', rfl, .inl rfl⟩

theorem move (h : d.Paired) {m : Move} (hstep : Move.Step blake3 d m d') : d'.Paired := by
  cases hstep with
  | spend hmint _ => exact (h.mint hmint).1.of_rows rfl (fun _ h => h) fun _ _ e he => ⟨e, he, rfl, .inl rfl⟩
  | burn hmint => exact (h.mint hmint).1
  | fail hrow => exact h.of_insert rfl rfl rfl fun leg hleg hid => absurd hid (hrow.unused.leg leg hleg)
  | queue hmint _ hrow =>
    have hrow := hrow.mint hmint
    exact (h.mint hmint).1.of_insert rfl rfl rfl fun leg hleg hid =>
      absurd hid (hrow.unused.leg leg hleg)
  | ship hmint hrow =>
    have hrow := hrow.mint hmint
    exact (h.mint hmint).1.of_insert rfl rfl rfl fun leg hleg hid =>
      absurd hid (hrow.unused.leg leg hleg)
  | @hold d₁ e token hmint htoken hrow =>
    have hrow := hrow.mint hmint
    obtain ⟨hpaired, hpos, hlt⟩ := h.mint hmint
    have hstored : (d₁.store e).Paired :=
      hpaired.of_insert rfl rfl rfl fun leg hleg hid => absurd hid (hrow.unused.leg leg hleg)
    refine ⟨hstored.chain, fun leg hleg => ?_, fun leg hleg e' he' => ?_⟩
    · rcases List.mem_append.mp hleg with hleg | hleg
      · exact hstored.leg leg hleg
      · cases List.mem_singleton.mp hleg
        exact ⟨hpos, hlt⟩
    · rcases List.mem_append.mp hleg with hleg | hleg
      · exact hstored.row leg hleg e' he'
      · cases List.mem_singleton.mp hleg
        rw [show (d₁.store e).outbox.lookup e.messageId = some e from AList.lookup_insert _] at he'
        cases he'
        exact ⟨rfl, .inl htoken⟩
  | deliver hleg =>
    refine h.of_rows rfl (fun leg hmem => List.mem_of_mem_eraseIdx hmem) fun leg _ e' he' => ?_
    obtain ⟨e, he, ⟨-, rfl⟩ | ⟨-, rfl⟩⟩ := lookup_stamp he'
    · exact ⟨e, he, rfl, .inr rfl⟩
    · exact ⟨e', he, rfl, .inl rfl⟩
  | strand i =>
    exact h.of_rows rfl (fun leg hmem => List.mem_of_mem_eraseIdx hmem) fun _ _ e he =>
      ⟨e, he, rfl, .inl rfl⟩
  | @resend d₁ id e token hmint hlookup _ =>
    rw [← (mint_frame hmint).2.1] at hlookup
    exact (h.mint hmint).1.of_insert rfl rfl rfl fun _ _ _ => ⟨e, hlookup, rfl, .inl rfl⟩
  | @retry d₁ id e token t hmint hlookup _ =>
    rw [← (mint_frame hmint).2.1] at hlookup
    exact (h.mint hmint).1.of_insert rfl rfl rfl fun _ _ _ => ⟨e, hlookup, rfl, .inr rfl⟩
  | revise hrev =>
    refine h.of_rows rfl (fun _ h => h) fun leg _ e' he' => ?_
    obtain ⟨e, he, hrevised⟩ := hrev leg.messageId e' he'
    refine ⟨e, he, ?_, .inl ?_⟩
    · rw [hrevised.eq]
    · rw [hrevised.eq]
  | install hchain _ =>
    refine ⟨fun peer' chain' h' => ?_, h.leg, h.row⟩
    rcases chain_update_cases h' with ⟨-, heq⟩ | ⟨-, h'⟩
    · cases heq
      obtain ⟨hfirst, hlength⟩ := decodeSeedDelivery_eq_some hchain
      exact ⟨hlength, by omega, by omega⟩
    · exact h.chain peer' chain' h'
  | tick => exact h.of_rows rfl (fun _ h => h) fun _ _ e he => ⟨e, he, rfl, .inl rfl⟩

/-- The tokens of a current chain are told apart by their wire form. -/
theorem current_bounds (h : d.Paired) (hcurrent : d.Current blake3 peer token) :
    0 < token.index ∧ token.index < 2 ^ 32 := by
  obtain ⟨chain, i, hchain, rfl, hpos, hle⟩ := hcurrent
  exact ⟨hpos, lt_of_le_of_lt hle (h.chain peer chain hchain).1⟩

end Paired

theorem start_paired (now : Int) : (start now).Paired where
  chain := nofun
  leg := by
    intro leg h
    cases h
  row := by
    intro leg h
    cases h

/-! ## One index -/

theorem lookup_stamp_ne {outbox : Outbox} {id id' : Bytes} {t : Int} (hne : id' ≠ id)
    (h : outbox.lookup id' = some e) : (stamp outbox id t).lookup id' = some e := by
  unfold stamp
  split
  · exact h
  · rw [AList.lookup_insert_ne hne]
    exact h

/-- A row stays waiting when what goes out is under another id. -/
theorem Waiting.of_ne {id id₀ : Bytes} {xs : List Carried} (h : d.Waiting e) (hfiled : d.Filed)
    (hlookup : d.outbox.lookup id = some e) (hne : id ≠ id₀)
    (hcarried : d'.carried = d.carried ++ xs) (hframes : ∀ x ∈ xs, x.frame.messageId = id₀) :
    d'.Waiting e := by
  refine ⟨h.1, fun hhanded => ?_⟩
  rw [Handed, hcarried, List.map_append, List.mem_append] at hhanded
  rcases hhanded with hhanded | hhanded
  · exact h.2 hhanded
  · obtain ⟨x, hx, hframe⟩ := List.mem_map.mp hhanded
    refine hne ?_
    rw [← hframes x hx, hframe, hfiled.frame id e hlookup]

namespace AccountedAt

/-- A frame that goes out accounts for its token. -/
theorem of_carried (frame : Sealed) (hcarried : d'.carried = d.carried ++ [⟨peer, token, frame⟩]) :
    d'.AccountedAt peer token := by
  refine .inl ⟨⟨peer, token, frame⟩, ?_, rfl, rfl⟩
  rw [hcarried]
  exact List.mem_append_right _ (List.mem_singleton_self _)

/-- A new row accounts for its token. -/
theorem of_row (hrow : d.NewRow e) (htoken : e.token = encode token)
    (hcarried : d'.carried = d.carried) (houtbox : d'.outbox = d.outbox.insert e.messageId e) :
    d'.AccountedAt e.recipientPeerId token := by
  refine .inr ⟨e.messageId, e, ?_, rfl, ⟨hrow.pending, ?_⟩, htoken⟩
  · rw [houtbox, AList.lookup_insert]
  · rw [Handed, hcarried]
    exact Filed.not_handed hrow

/-- Frames and rows as before. -/
theorem of_same (h : d.AccountedAt peer token) (hcarried : d'.carried = d.carried)
    (houtbox : d'.outbox = d.outbox) : d'.AccountedAt peer token := by
  unfold AccountedAt Waiting Handed
  rw [hcarried, houtbox]
  exact h

/-- What goes out is under one id, and so is the row that changes. -/
theorem of_other (h : d.AccountedAt peer token) (hfiled : d.Filed) (id₀ : Bytes)
    (xs : List Carried) (hcarried : d'.carried = d.carried ++ xs)
    (hframes : ∀ x ∈ xs, x.frame.messageId = id₀)
    (hrows : ∀ id e, id ≠ id₀ → d.outbox.lookup id = some e → d'.outbox.lookup id = some e)
    (hself : ∀ e, d.outbox.lookup id₀ = some e → e.recipientPeerId = peer → d.Waiting e →
      e.token = encode token → d'.AccountedAt peer token) : d'.AccountedAt peer token := by
  rcases h with ⟨x, hx, hx'⟩ | ⟨id, e, hlookup, hrecipient, hwaiting, htoken⟩
  · refine .inl ⟨x, ?_, hx'⟩
    rw [hcarried]
    exact List.mem_append_left _ hx
  · by_cases hid : id = id₀
    · subst hid
      exact hself e hlookup hrecipient hwaiting htoken
    · exact .inr ⟨id, e, hrows id e hid hlookup, hrecipient,
        hwaiting.of_ne hfiled hlookup hid hcarried hframes, htoken⟩

/-- A new row, and perhaps its frame. -/
theorem of_new (h : d.AccountedAt peer token) (hfiled : d.Filed) {id : Bytes} {e' : OutboxEntry}
    (hunused : d.Unused id) (xs : List Carried) (hcarried : d'.carried = d.carried ++ xs)
    (hframes : ∀ x ∈ xs, x.frame.messageId = id) (houtbox : d'.outbox = d.outbox.insert id e') :
    d'.AccountedAt peer token := by
  refine h.of_other hfiled id xs hcarried hframes (fun id' e hne hlookup => ?_) fun e hlookup => ?_
  · rw [houtbox, AList.lookup_insert_ne hne]
    exact hlookup
  · rw [hunused.row] at hlookup
    cases hlookup

end AccountedAt

/-! ## All indices -/

namespace Accounted

/-- No chain is another: the accounts are kept token by token. -/
theorem of_chain (h : d.Accounted blake3) (hpaired : d.Paired) (hchain : d'.chain = d.chain)
    (hkeep : ∀ peer token, d.Current blake3 peer token → d.AccountedAt peer token →
      d'.AccountedAt peer token) : d'.Accounted blake3 := by
  intro peer chain hpeer i hpos hlt
  rw [hchain] at hpeer
  have hle := (hpaired.chain peer chain hpeer).2.2
  exact hkeep peer _ ⟨chain, i, hpeer, rfl, hpos, by omega⟩ (h peer chain hpeer i hpos hlt)

/-- The minted index is accounted for, and the older ones stay so. -/
theorem of_mint (h : d.Accounted blake3) (hpaired : d.Paired)
    (hmint : d.mintV2DeliveryToken blake3 peer = some (token, d₁)) (hchain : d'.chain = d₁.chain)
    (hnew : d'.AccountedAt peer token)
    (hkeep : ∀ peer token, d.Current blake3 peer token → d.AccountedAt peer token →
      d'.AccountedAt peer token) : d'.Accounted blake3 := by
  obtain ⟨chain, hpeer, hleft, rfl, rfl⟩ := mint_eq_some_iff.mp hmint
  intro peer' chain' hpeer' i hpos hlt
  rw [hchain] at hpeer'
  have hold : ∀ chain, d.chain peer' = some chain → i < chain.nextIndex →
      d'.AccountedAt peer' (tokenAt blake3 chain i) := by
    intro chain hchain hlt
    have hle := (hpaired.chain peer' chain hchain).2.2
    exact hkeep peer' _ ⟨chain, i, hchain, rfl, hpos, by omega⟩ (h peer' chain hchain i hpos hlt)
  rcases chain_update_cases hpeer' with ⟨rfl, heq⟩ | ⟨-, hpeer'⟩
  · cases heq
    rcases Nat.lt_succ_iff_lt_or_eq.mp hlt with hlt | rfl
    · exact hold chain hpeer hlt
    · exact hnew
  · exact hold chain' hpeer' hlt

/-- A row that no index waits with goes out again, and its new index with it. -/
theorem of_again (h : d.Accounted blake3) (hfiled : d.Filed) (hpaired : d.Paired) {id : Bytes}
    {e' : OutboxEntry}
    (hmint : d.mintV2DeliveryToken blake3 e.recipientPeerId = some (token, d₁))
    (hlookup : d.outbox.lookup id = some e) (hnot : ¬d.Holds blake3 e)
    (hchain : d'.chain = d₁.chain) (houtbox : d'.outbox = d.outbox.insert id e')
    (hcarried : d'.carried = d.carried ++ [⟨e.recipientPeerId, token, e.sealedCiphertext⟩]) :
    d'.Accounted blake3 := by
  refine h.of_mint hpaired hmint hchain (.of_carried e.sealedCiphertext hcarried)
    fun peer' token' hcurrent haccounted => ?_
  refine haccounted.of_other hfiled id _ hcarried (fun x hx => ?_) (fun id' e₁ hne h₁ => ?_) ?_
  · cases List.mem_singleton.mp hx
    exact hfiled.frame id e hlookup
  · rw [houtbox, AList.lookup_insert_ne hne]
    exact h₁
  · intro e₁ h₁ hrecipient hwaiting htoken
    obtain rfl : e = e₁ := Option.some.inj (hlookup.symm.trans h₁)
    exact absurd ⟨hwaiting, token', hrecipient ▸ hcurrent, htoken⟩ hnot

/-- No clean move loses an index. -/
theorem move (h : d.Accounted blake3) (hfiled : d.Filed) (hpaired : d.Paired) {m : Move}
    (hclean : CleanMove blake3 d m) (hstep : Move.Step blake3 d m d') : d'.Accounted blake3 := by
  cases hstep with
  | @spend d₁ peer token frame hmint hnew =>
    obtain ⟨chain, -, -, -, rfl⟩ := mint_eq_some_iff.mp hmint
    refine h.of_mint hpaired hmint rfl (.of_carried frame rfl) fun _ _ _ haccounted => ?_
    refine haccounted.of_other hfiled frame.messageId _ rfl ?_ (fun _ _ _ hlookup => hlookup) ?_
    · rintro x hx
      cases List.mem_singleton.mp hx
      rfl
    · intro e hlookup
      rw [hnew.row] at hlookup
      cases hlookup
  | burn => exact hclean.elim
  | fail hrow =>
    exact h.of_chain hpaired rfl fun _ _ _ haccounted =>
      haccounted.of_new hfiled hrow.unused [] (List.append_nil _).symm nofun rfl
  | @queue d₁ e token hmint htoken hrow =>
    obtain ⟨chain, -, -, -, rfl⟩ := mint_eq_some_iff.mp hmint
    exact h.of_mint hpaired hmint rfl (.of_row hrow htoken rfl rfl) fun _ _ _ haccounted =>
      haccounted.of_new hfiled hrow.unused [] (List.append_nil _).symm nofun rfl
  | @ship d₁ e token t hmint hrow =>
    obtain ⟨chain, -, -, -, rfl⟩ := mint_eq_some_iff.mp hmint
    refine h.of_mint hpaired hmint rfl (.of_carried e.sealedCiphertext rfl)
      fun _ _ _ haccounted => ?_
    refine haccounted.of_new hfiled hrow.unused _ rfl ?_ rfl
    rintro x hx
    cases List.mem_singleton.mp hx
    exact hrow.named
  | @hold d₁ e token hmint htoken hrow =>
    obtain ⟨chain, -, -, -, rfl⟩ := mint_eq_some_iff.mp hmint
    exact h.of_mint hpaired hmint rfl (.of_row hrow htoken rfl rfl) fun _ _ _ haccounted =>
      haccounted.of_new hfiled hrow.unused [] (List.append_nil _).symm nofun rfl
  | @deliver i leg t hleg =>
    have hmem : leg ∈ d.legs := List.mem_of_getElem? hleg
    refine h.of_chain hpaired rfl fun peer token hcurrent haccounted => ?_
    refine haccounted.of_other hfiled leg.messageId _ rfl ?_ ?_ ?_
    · rintro x hx
      cases List.mem_singleton.mp hx
      exact hfiled.leg leg hmem
    · intro id e hne hlookup
      exact lookup_stamp_ne hne hlookup
    · -- the row waits with the leg's own index
      intro e hlookup hrecipient hwaiting htoken
      obtain ⟨hrow, hwire⟩ := hpaired.row leg hmem e hlookup
      obtain ⟨hpos, hlt⟩ := hpaired.current_bounds hcurrent
      obtain ⟨hpos', hlt'⟩ := hpaired.leg leg hmem
      rcases hwire with hwire | hwire
      · obtain rfl : token = leg.token := encode_inj hpos hlt hpos' hlt' (htoken.symm.trans hwire)
        rw [← hrecipient, hrow]
        exact .of_carried leg.sealed rfl
      · exact absurd (htoken.symm.trans hwire) (encode_ne_nil token)
  | strand i => exact h.of_chain hpaired rfl fun _ _ _ haccounted => haccounted.of_same rfl rfl
  | resend hmint hlookup _ =>
    obtain ⟨-, houtbox, -, hcarried⟩ := mint_frame hmint
    exact h.of_again hfiled hpaired hmint hlookup (hclean _ hlookup) rfl (by rw [houtbox])
      (by rw [hcarried])
  | retry hmint hlookup _ =>
    obtain ⟨-, houtbox, -, hcarried⟩ := mint_frame hmint
    exact h.of_again hfiled hpaired hmint hlookup (hclean _ hlookup) rfl (by rw [houtbox])
      (by rw [hcarried])
  | revise hrev =>
    refine h.of_chain hpaired rfl fun peer token hcurrent haccounted => ?_
    rcases haccounted with hcarried | ⟨id, e, hlookup, hrecipient, hwaiting, htoken⟩
    · exact .inl hcarried
    · obtain ⟨e', hlookup', hpending, hrevised⟩ :=
        hclean id e hlookup ⟨hwaiting, token, hrecipient.symm ▸ hcurrent, htoken⟩
      refine .inr ⟨id, e', hlookup', ?_, ⟨hpending, ?_⟩, ?_⟩
      · rw [hrevised.eq]
        exact hrecipient
      · rw [hrevised.eq]
        exact hwaiting.2
      · rw [hrevised.eq]
        exact htoken
  | install hchain hnew =>
    -- no index of the new chain is below its cursor
    intro peer' chain' hpeer' i hpos hlt
    rcases chain_update_cases hpeer' with ⟨-, heq⟩ | ⟨-, hpeer'⟩
    · cases heq
      have hfirst := (decodeSeedDelivery_eq_some hchain).1
      omega
    · exact (h peer' chain' hpeer' i hpos hlt).of_same rfl rfl
  | tick => exact h.of_chain hpaired rfl fun _ _ _ haccounted => haccounted.of_same rfl rfl

end Accounted

/-! ## Clean events -/

/-- What a row holds after some turns, it held before them. -/
theorem Holds.later (h : d'.Holds blake3 e) (hlater : Later d d') : d.Holds blake3 e := by
  obtain ⟨⟨hpending, hnot⟩, token, ⟨chain', i, hchain', rfl, hpos, hle⟩, htoken⟩ := h
  obtain ⟨chain, hchain, -, heq⟩ := hlater.chain _ chain' hchain'
  refine ⟨⟨hpending, fun hhanded => hnot (List.map_subset _ hlater.carried hhanded)⟩,
    tokenAt blake3 chain' i, ⟨chain, i, hchain, ?_, hpos, ?_⟩, htoken⟩
  · rw [heq]
    rfl
  · rw [heq] at hle
    exact hle

/-- The revisions that leave the rows that hold an index as they are. -/
theorem cleanMove_revise {outbox : Outbox}
    (h : ∀ id e, d.outbox.lookup id = some e → d.Holds blake3 e → outbox.lookup id = some e) :
    CleanMove blake3 d (.revise outbox) :=
  fun id e hlookup hholds => ⟨e, h id e hlookup hholds, hholds.1.1, .refl _ e⟩

theorem cleanMove_expire
    (h : ∀ id e, d.outbox.lookup id = some e → d.Holds blake3 e → e.hasExpired d.now = false) :
    CleanMove blake3 d (.revise d.expire.outbox) := by
  refine cleanMove_revise fun id e hlookup hholds => ?_
  rw [expire, AList.lookup_mapVals, hlookup]
  simp [h id e hlookup hholds]

/-- The clean-up keeps what waits. -/
theorem cleanMove_collect (d : Outbound) : CleanMove blake3 d (.revise d.collect.outbox) := by
  refine cleanMove_revise fun id e hlookup hholds => ?_
  obtain ⟨hdelivered, hfailed, -⟩ := OutboxEntry.status_eq_pending_iff.mp hholds.1.1
  rw [collect, AList.lookup_retain, hlookup]
  simp [Option.filter, Outbox.outlived, hdelivered, hfailed]

theorem cleanMove_userTryAgainExpired {id : Bytes}
    (h : ∀ e, d.outbox.lookup id = some e → d.Holds blake3 e → e.hasExpired d.now = false) :
    CleanMove blake3 d (.revise (d.userTryAgainExpired id).outbox) := by
  refine cleanMove_revise fun id' e hlookup hholds => ?_
  unfold userTryAgainExpired
  split
  · exact hlookup
  · next entry hentry =>
    split
    · next hguard =>
      by_cases hid : id' = id
      · -- a row that waits has not failed, and this one is not late
        subst hid
        obtain rfl : entry = e := Option.some.inj (hentry.symm.trans hlookup)
        obtain ⟨-, hfailed, -⟩ := OutboxEntry.status_eq_pending_iff.mp hholds.1.1
        simp [hfailed, h entry hlookup hholds] at hguard
      · rw [AList.lookup_erase_ne hid]
        exact hlookup
    · exact hlookup

theorem cleanMove_acknowledge {payload fromPeer : Bytes}
    (h : payload.length = 16 → ∀ e, d.outbox.lookup payload = some e → d.Holds blake3 e →
      e.recipientPeerId ≠ fromPeer) :
    CleanMove blake3 d (.revise (d.outbox.acknowledge payload fromPeer d.now)) := by
  refine cleanMove_revise fun id e hlookup hholds => ?_
  unfold Outbox.acknowledge
  split
  · exact hlookup
  · next hlength =>
    split
    · exact hlookup
    · next entry hentry =>
      split
      · next hpeer =>
        have hne : id ≠ payload := by
          rintro rfl
          obtain rfl : entry = e := Option.some.inj (hentry.symm.trans hlookup)
          exact h (not_not.mp hlength) entry hlookup hholds hpeer
        rw [AList.lookup_insert_ne hne]
        exact hlookup
      · exact hlookup

/-- A receipt marks rows as read, which leaves them waiting. -/
theorem cleanMove_stampLegs (d : Outbound) (peer : Bytes) (cutoff : Int) :
    CleanMove blake3 d (.revise (d.outbox.stampLegs peer cutoff d.now)) := by
  intro id e hlookup hholds
  have hpending := OutboxEntry.status_eq_pending_iff.mp hholds.1.1
  rw [Outbox.stampLegs, AList.lookup_mapVals, hlookup, Option.map_some]
  refine ⟨_, rfl, ?_⟩
  split
  · exact ⟨OutboxEntry.status_eq_pending_iff.mpr hpending, rfl, .inl rfl⟩
  · exact ⟨hholds.1.1, .refl _ e⟩

/-- Of the moves that lose an index, clean events make none. -/
theorem Clean.allowed {ev : Event} (h : Clean blake3 d ev) :
    Allowed blake3 (CleanMove blake3) d ev := by
  cases ev with
  | send peer ttl text a =>
    intro hmint hencrypts hpersists
    rw [h hmint hencrypts] at hpersists
    cases hpersists
  | shipPreparedAttachment peer ttl attachmentId chunks =>
    intro hguard c hc hencrypts
    rw [h hguard c hc] at hencrypts
    cases hencrypts
  | sendGroupMessage groupMessageId body legs =>
    intro l hl hmint hencrypts
    rw [h l hl hmint] at hencrypts
    cases hencrypts
  | shipPreparedGroupAttachment groupMessageId attachmentId chunkCount chunks =>
    intro turn hturn hmint hencrypts
    rw [h turn hturn hmint] at hencrypts
    cases hencrypts
  | sendChainRefreshRequest peer a => exact fun hmint hnot => absurd (h hmint) hnot
  | broadcastGroupOp peer signedBytes a => exact fun hmint hnot => absurd (h hmint) hnot
  | broadcastSenderKeyDistribution peer body a => exact fun hmint hnot => absurd (h hmint) hnot
  | broadcastGroupBootstrap peer body a => exact fun hmint hnot => absurd (h hmint) hnot
  | runRetryWalk connected ready =>
    refine ⟨cleanMove_expire fun id e hlookup hholds => (h id e hlookup hholds).1,
      cleanMove_collect, ?_⟩
    intro hconnected e hretry hready d' hlater hmint hrow' hrow e' hlookup' hholds
    obtain rfl : e = e' := Option.some.inj (hrow'.symm.trans hlookup')
    have hpending := OutboxEntry.status_of_shouldRetry hretry
    have hrow₀ := ((lookup_expire_iff hpending).mp hrow).1
    have hlater₀ : Later d d' := (later_expire d).trans hlater
    have hzero := (h _ e hrow₀ (hholds.later hlater₀)).2 hconnected hretry (hlater₀.minted hmint)
    omega
  | userRetry id connected ready =>
    intro e hlookup hpending hconnected hmint
    obtain ⟨hready, hnot⟩ := h hconnected e hlookup hpending hmint
    rw [if_pos hready]
    intro e' hlookup'
    obtain rfl : e = e' := Option.some.inj (hlookup.symm.trans hlookup')
    exact hnot
  | userRetryAttachment attachmentId connected ready =>
    intro e hlookup hattachment hpending hconnected d' hlater hmint hrow
    obtain ⟨hready, hnot⟩ :=
      h hconnected _ e hlookup hattachment hpending (hlater.minted hmint)
    rw [if_pos hready]
    intro e' hlookup' hholds
    obtain rfl : e = e' := Option.some.inj (hrow.symm.trans hlookup')
    exact hnot (hholds.later hlater)
  | userTryAgainExpired id => exact cleanMove_userTryAgainExpired h
  | handleAckPayload payload fromPeer => exact cleanMove_acknowledge h
  | handleReadReceiptPayload peer cutoff => exact cleanMove_stampLegs d peer cutoff
  | releaseLeg index ready => trivial
  | emitAck peer acked a => trivial
  | emitReadReceipt peer highest a => trivial
  | handleChainSeedDelivery peer payload => trivial
  | tick seconds => trivial

/-! ## Runs -/

theorem start_accounted (now : Int) : (start now).Accounted blake3 := nofun

/-- In every run, whatever fails in it, no index goes out on two frames; and when its steps are
clean, every index below a cursor has gone out or waits for it. -/
theorem indices_accounted {now : Int} {ok : Outbound → Event → Prop}
    (h : Reaches blake3 me ok (start now) d) :
    d.CarriedOnce ∧ ((∀ d ev, ok d ev → Clean blake3 d ev) → d.Accounted blake3) := by
  refine ⟨(filed_issued h).2.carriedOnce, fun hok => ?_⟩
  have hinv : d.Filed ∧ d.Paired ∧ d.Accounted blake3 := by
    refine h.invariant (fun d => d.Filed ∧ d.Paired ∧ d.Accounted blake3) ?_
      ⟨start_filed now, start_paired now, start_accounted now⟩
    rintro d ev _ ⟨hfiled, hpaired, h⟩ hev ⟨hdrawn, rfl⟩
    have hclean := hok d ev hev
    have hrun : Moves blake3 (CleanMove blake3) d (d.step blake3 me ev) :=
      step_moves (fun d m hharmless => by cases m <;> trivial) hfiled.named hdrawn hclean.allowed
    refine hrun.invariant (fun d => d.Filed ∧ d.Paired ∧ d.Accounted blake3) ?_ ⟨hfiled, hpaired, h⟩
    rintro d m d' ⟨hfiled, hpaired, h⟩ hm hstep
    exact ⟨hfiled.move hstep, hpaired.move hstep, h.move hfiled hpaired hm hstep⟩
  exact hinv.2.2

/-- The leg of the sample message goes out: a clean run with one index, used once. -/
theorem indices_accounted_leg :
    (sampleHeld.step plainBlake3 [2] (.releaseLeg 0 1)).CarriedOnce ∧
      (sampleHeld.step plainBlake3 [2] (.releaseLeg 0 1)).Accounted plainBlake3 := by
  have hdrawn : sampleHeld.Drawn (.releaseLeg 0 1) := drawn_of_ids_eq_nil rfl (by simp)
  have hsealed : Clean plainBlake3 sampleChained sampleMessage := by
    intro l hl _
    cases List.mem_singleton.mp hl
    rfl
  have hrun : Reaches plainBlake3 [2] (Clean plainBlake3) (start 0) _ :=
    (reaches_sampleHeld trivial hsealed).snoc ⟨hdrawn, rfl⟩ trivial
  obtain ⟨honce, haccounted⟩ := indices_accounted hrun
  exact ⟨honce, haccounted fun _ _ hclean => hclean⟩

/-- A group op that is sealed while no relay is ready. -/
def sampleGroupOp : Event := .broadcastGroupOp samplePeer.1 [4] sampleLeg.attempt

theorem sampleChained_drawn_sampleGroupOp : sampleChained.Drawn sampleGroupOp where
  nodup := List.nodup_singleton _
  unused := sampleChained_drawn_sampleMessage.unused
  chain _ _ _ heq := by cases heq

/-- The index of the op is consumed: no frame has it, and there is no row. -/
theorem unsent_groupOp_consumes :
    ¬∀ d, Reaches plainBlake3 [2] (fun _ _ => True) (start 0) d →
      d.Accounted plainBlake3 ∧ d.CarriedOnce := by
  intro h
  have hreach : Reaches plainBlake3 [2] (fun _ _ => True) (start 0)
      (sampleChained.step plainBlake3 [2] sampleGroupOp) :=
    (Runs.Reach.refl.snoc ⟨start_drawn_sampleDelivery, rfl⟩ trivial).snoc
      ⟨sampleChained_drawn_sampleGroupOp, rfl⟩ trivial
  obtain ⟨haccounted, -⟩ := h _ hreach
  have hchain : ∃ chain, (sampleChained.step plainBlake3 [2] sampleGroupOp).chain samplePeer.1 =
      some chain := by
    rw [← Option.isSome_iff_exists]
    decide +kernel
  obtain ⟨chain, hchain⟩ := hchain
  have hcursor : ∀ chain ∈ (sampleChained.step plainBlake3 [2] sampleGroupOp).chain samplePeer.1,
      1 < chain.nextIndex := by decide +kernel
  have hcarried : (sampleChained.step plainBlake3 [2] sampleGroupOp).carried = [] := by
    decide +kernel
  have hrows : (sampleChained.step plainBlake3 [2] sampleGroupOp).outbox.entries = [] := by
    rw [← List.isEmpty_iff]
    decide +kernel
  rcases haccounted _ chain hchain 1 Nat.one_pos (hcursor chain hchain) with
    ⟨x, hx, -⟩ | ⟨id, e, hrow, -⟩
  · rw [hcarried] at hx
    cases hx
  · have hmem := AList.lookup_eq_some_iff.mp hrow
    rw [hrows] at hmem
    cases hmem

end Outbound

end Pizzini.Delivery
