import Pizzini.Delivery.Resends
import Pizzini.Delivery.SampleChain

/-!
# A relayed row is not sent again (`Outbox.swift:154–177`, `ChatStore.swift:4741–4778`)

`shouldRetry` rests on `relayedAt`: a relay that took a frame keeps it until its time is up, so
a row with that stamp is never sent again, and its glyph says that it is on its way. Each path
that hands a row over sets the stamp, but the retry walk: it counts the retry and leaves
`relayedAt` as it is, so a row whose first relay is found by a walk stays pending, and the next
walks send it again until its retries are used up and it shows as failed.

`relayed_never_unsent` says that this is the only way: in every run in which no walk finds a
relay for a row (`NoneTaken`), rows that were handed over are neither sent again nor shown as
unsent, and the first walk that does breaks it.
-/

namespace Pizzini.Delivery

open Wire Relay Chat

namespace Outbound

variable {blake3 : Bytes → ChainValue} {me : Bytes} {d d' : Outbound} {e : OutboxEntry}

/-- No later walk sends the row again, it is not pending, and until its time is up its glyph
is neither of the two for what has not left. -/
structure ShownSent (outbox : Outbox) (now : Int) (e : OutboxEntry) : Prop where
  not_resent : ∀ later, e ∉ retryableEntries outbox later
  not_pending : e.status ≠ .pending
  sent : ¬e.ttl < now - e.sentAt → ∀ peerHasRead,
    (rowStatus (.fromEntry e now peerHasRead)).unsent = false

/-- Every row that a relay has taken is shown so. -/
def RelayedShown (d : Outbound) : Prop :=
  ∀ id e, d.outbox.lookup id = some e → d.Handed e → ShownSent d.outbox d.now e

/-- For no row that it sends again does the walk find a relay. -/
def NoneTaken (blake3 : Bytes → ChainValue) (d : Outbound) : Event → Prop
  | .runRetryWalk connected ready =>
    connected = true → ∀ e ∈ retryableEntries d.outbox d.now, e.hasExpired d.now = false →
      ready e.messageId = 0 ∨ d.mintV2DeliveryToken blake3 e.recipientPeerId = none
  | _ => True

/-! ## The invariant -/

/-- What was handed over is stamped; what has failed is late, or never went and never will. -/
structure Stamped (d : Outbound) : Prop where
  relayed : ∀ id e, d.outbox.lookup id = some e → d.Handed e → e.relayedAt.isSome
  failed : ∀ id e, d.outbox.lookup id = some e → e.failedAt.isSome →
    e.ttl < d.now - e.sentAt ∨ (¬d.Handed e ∧ ∀ leg ∈ d.legs, leg.messageId ≠ id)

theorem Stamped.relayedShown (h : d.Stamped) : d.RelayedShown := by
  intro id e hlookup hhanded
  have hrelayed := h.relayed id e hlookup hhanded
  have hpending : e.status ≠ .pending := by
    intro hpending
    rw [(OutboxEntry.status_eq_pending_iff.mp hpending).2.2] at hrelayed
    cases hrelayed
  refine ⟨fun later hmem => hpending ?_, hpending, fun hactive peerHasRead => ?_⟩
  · exact OutboxEntry.status_of_shouldRetry (mem_retryableEntries.mp hmem).2
  · rw [Bool.eq_false_iff, Ne, unsent_rowStatus_iff hactive]
    rintro (h' | hfailed)
    · exact hpending h'
    · rcases h.failed id e hlookup (OutboxEntry.failedAt_of_status hfailed) with hlate | ⟨hnot, -⟩
      · exact hactive hlate
      · exact hnot hhanded

namespace Stamped

/-- Frames and rows as before; legs at most as before. -/
theorem of_same (h : d.Stamped) (hnow : d.now ≤ d'.now) (houtbox : d'.outbox = d.outbox)
    (hcarried : d'.carried = d.carried) (hlegs : ∀ leg ∈ d'.legs, leg ∈ d.legs) : d'.Stamped := by
  have hhanded : ∀ e, d'.Handed e ↔ d.Handed e := by
    intro e
    rw [Handed, Handed, hcarried]
  refine ⟨fun id e hlookup hh => ?_, fun id e hlookup hf => ?_⟩
  · rw [houtbox] at hlookup
    exact h.relayed id e hlookup ((hhanded e).mp hh)
  · rw [houtbox] at hlookup
    rcases h.failed id e hlookup hf with hlate | ⟨hnot, hno⟩
    · exact .inl (by omega)
    · exact .inr ⟨fun hh => hnot ((hhanded e).mp hh), fun leg hleg => hno leg (hlegs leg hleg)⟩

/-- A new row that waits or has failed: no relay has seen it. -/
theorem of_new (h : d.Stamped) (hrow : d.NewRow e) {e' : OutboxEntry} {id : Bytes}
    (houtbox : d'.outbox = d.outbox.insert id e') (hid : id = e.messageId)
    (heq : e'.sealedCiphertext = e.sealedCiphertext) (hnow : d'.now = d.now)
    (hcarried : d'.carried = d.carried)
    (hlegs : ∀ leg ∈ d'.legs, leg ∈ d.legs ∨ (leg.messageId = e.messageId ∧ e'.failedAt = none)) :
    d'.Stamped := by
  have hhanded : ∀ e, d'.Handed e ↔ d.Handed e := by
    intro e
    rw [Handed, Handed, hcarried]
  have hfresh : ¬d'.Handed e' := by
    rw [hhanded, Handed, heq]
    exact Filed.not_handed hrow
  rw [hid] at houtbox
  refine ⟨fun id x hlookup hh => ?_, fun id x hlookup hf => ?_⟩
  · rw [houtbox] at hlookup
    rcases AList.lookup_insert_cases hlookup with ⟨rfl, rfl⟩ | ⟨-, hlookup⟩
    · exact absurd hh hfresh
    · exact h.relayed id x hlookup ((hhanded x).mp hh)
  · rw [houtbox] at hlookup
    rcases AList.lookup_insert_cases hlookup with ⟨rfl, rfl⟩ | ⟨hne, hlookup⟩
    · refine .inr ⟨hfresh, fun leg hleg => ?_⟩
      rcases hlegs leg hleg with hleg | ⟨-, hnone⟩
      · exact hrow.unused.leg leg hleg
      · rw [hnone] at hf
        cases hf
    · rw [hnow]
      rcases h.failed id x hlookup hf with hlate | ⟨hnot, hno⟩
      · exact .inl hlate
      · refine .inr ⟨fun hh => hnot ((hhanded x).mp hh), fun leg hleg => ?_⟩
        rcases hlegs leg hleg with hleg | ⟨hleg, -⟩
        · exact hno leg hleg
        · rw [hleg]
          exact hne.symm

/-- A frame goes out, and the one row it may belong to is stamped. -/
theorem of_stamped (h : d.Stamped) (hfiled : d.Filed) {x : Carried} {id : Bytes}
    (hframe : x.frame.messageId = id) (hnow : d'.now = d.now)
    (hcarried : d'.carried = d.carried ++ [x]) (hlegs : ∀ leg ∈ d'.legs, leg ∈ d.legs)
    (hsame : ∀ id' e, id' ≠ id → d'.outbox.lookup id' = some e → d.outbox.lookup id' = some e)
    (hstamp : ∀ e', d'.outbox.lookup id = some e' → e'.relayedAt.isSome ∧
      (e'.failedAt.isSome → e'.ttl < d.now - e'.sentAt)) : d'.Stamped := by
  -- the frame's id leaves the rows under other ids as they were
  have hother : ∀ {id' e}, id' ≠ id → d.outbox.lookup id' = some e →
      (d'.Handed e ↔ d.Handed e) := by
    intro id' e hne hlookup
    rw [handed_append hcarried, or_iff_left]
    intro hxe
    refine hne ?_
    rw [← hframe, ← hxe, hfiled.frame id' e hlookup]
  refine ⟨fun id' e hlookup hh => ?_, fun id' e hlookup hf => ?_⟩
  · by_cases hid : id' = id
    · subst hid
      exact (hstamp e hlookup).1
    · have hold := hsame id' e hid hlookup
      exact h.relayed id' e hold ((hother hid hold).mp hh)
  · rw [hnow]
    by_cases hid : id' = id
    · subst hid
      exact .inl ((hstamp e hlookup).2 hf)
    · have hold := hsame id' e hid hlookup
      rcases h.failed id' e hold hf with hlate | ⟨hnot, hno⟩
      · exact .inl hlate
      · exact .inr ⟨fun hh => hnot ((hother hid hold).mp hh),
          fun leg hleg => hno leg (hlegs leg hleg)⟩

/-- Every move but the walk's keeps the stamps. -/
theorem move (h : d.Stamped) (hfiled : d.Filed) {m : Move} (hm : ∀ id, m ≠ .resend id)
    (hstep : Move.Step blake3 d m d') : d'.Stamped := by
  cases hstep with
  | spend hmint hnew =>
    obtain ⟨chain, -, -, -, rfl⟩ := mint_eq_some_iff.mp hmint
    refine h.of_stamped hfiled rfl rfl rfl (fun _ hleg => hleg) (fun _ _ _ h => h) ?_
    intro e' hlookup
    rw [hnew.row] at hlookup
    cases hlookup
  | burn hmint =>
    obtain ⟨chain, -, -, -, rfl⟩ := mint_eq_some_iff.mp hmint
    exact h.of_same le_rfl rfl rfl fun _ hleg => hleg
  | fail hrow => exact h.of_new hrow rfl rfl rfl rfl rfl fun _ hleg => .inl hleg
  | queue hmint _ hrow =>
    obtain ⟨chain, -, -, -, rfl⟩ := mint_eq_some_iff.mp hmint
    exact h.of_new hrow rfl rfl rfl rfl rfl fun _ hleg => .inl hleg
  | @ship d₁ e token t hmint hrow =>
    obtain ⟨chain, -, -, -, rfl⟩ := mint_eq_some_iff.mp hmint
    refine h.of_stamped hfiled hrow.named rfl rfl (fun _ hleg => hleg) ?_ ?_
    · intro id' e' hne hlookup
      rcases AList.lookup_insert_cases hlookup with ⟨rfl, -⟩ | ⟨-, hlookup⟩
      · exact absurd rfl hne
      · exact hlookup
    · intro e' hlookup
      have hself : e' = e.relayed t := by
        rw [store, OutboxEntry.relayed, AList.lookup_insert] at hlookup
        exact (Option.some.inj hlookup).symm
      subst hself
      refine ⟨rfl, fun hf => ?_⟩
      change e.failedAt.isSome = true at hf
      rw [(OutboxEntry.status_eq_pending_iff.mp hrow.pending).2.1] at hf
      cases hf
  | hold hmint _ hrow =>
    obtain ⟨chain, -, -, -, rfl⟩ := mint_eq_some_iff.mp hmint
    refine h.of_new hrow rfl rfl rfl rfl rfl fun leg hleg => ?_
    rcases List.mem_append.mp hleg with hleg | hleg
    · exact .inl hleg
    · cases List.mem_singleton.mp hleg
      exact .inr ⟨rfl, (OutboxEntry.status_eq_pending_iff.mp hrow.pending).2.1⟩
  | @deliver i leg t hleg =>
    have hmem : leg ∈ d.legs := List.mem_of_getElem? hleg
    refine h.of_stamped hfiled (hfiled.leg leg hmem) rfl rfl
      (fun leg hleg => List.mem_of_mem_eraseIdx hleg) ?_ ?_
    · intro id' e' hne hlookup
      obtain ⟨e, he, ⟨heq, -⟩ | ⟨-, rfl⟩⟩ := lookup_stamp hlookup
      · exact absurd heq hne
      · exact he
    · intro e' hlookup
      obtain ⟨e, he, ⟨-, rfl⟩ | ⟨hne, -⟩⟩ := lookup_stamp hlookup
      · refine ⟨rfl, fun hf => ?_⟩
        rcases h.failed _ e he hf with hlate | ⟨-, hno⟩
        · exact hlate
        · exact absurd rfl (hno leg hmem)
      · exact absurd rfl hne
  | strand i => exact h.of_same le_rfl rfl rfl fun _ hleg => List.mem_of_mem_eraseIdx hleg
  | resend => exact absurd rfl (hm _)
  | @retry d₁ id e token t hmint hlookup hpending =>
    obtain ⟨chain, -, -, -, rfl⟩ := mint_eq_some_iff.mp hmint
    refine h.of_stamped hfiled (hfiled.frame id e hlookup) rfl rfl (fun _ hleg => hleg) ?_ ?_
    · intro id' e' hne hlookup
      rcases AList.lookup_insert_cases hlookup with ⟨rfl, -⟩ | ⟨-, hlookup⟩
      · exact absurd rfl hne
      · exact hlookup
    · intro e' hlookup'
      rcases AList.lookup_insert_cases hlookup' with ⟨-, rfl⟩ | ⟨hne, -⟩
      · refine ⟨rfl, fun hf => ?_⟩
        change e.failedAt.isSome = true at hf
        rw [(OutboxEntry.status_eq_pending_iff.mp hpending).2.1] at hf
        cases hf
      · exact absurd rfl hne
  | revise hrev =>
    refine ⟨fun id e' hlookup hh => ?_, fun id e' hlookup hf => ?_⟩
    · obtain ⟨e, he, hrevised⟩ := hrev id e' hlookup
      rw [hrevised.eq] at hh ⊢
      exact h.relayed id e he hh
    · obtain ⟨e, he, hrevised⟩ := hrev id e' hlookup
      have hlate : e'.ttl = e.ttl ∧ e'.sentAt = e.sentAt ∧
          e'.sealedCiphertext = e.sealedCiphertext := by
        rw [hrevised.eq]
        exact ⟨rfl, rfl, rfl⟩
      obtain ⟨httl, hsent, hsealed⟩ := hlate
      rw [httl, hsent, Handed, hsealed]
      rcases hrevised.failed with hsame | hexpired
      · exact h.failed id e he (hsame ▸ hf)
      · exact .inl (OutboxEntry.hasExpired_iff.mp hexpired).2.2
  | install _ _ => exact h.of_same le_rfl rfl rfl fun _ hleg => hleg
  | tick =>
    refine h.of_same ?_ rfl rfl fun _ hleg => hleg
    show d.now ≤ d.now + _
    omega

end Stamped

/-! ## A walk that finds no relay -/

theorem NoneTaken.allowed {ev : Event} (h : NoneTaken blake3 d ev) :
    Allowed blake3 (fun _ m => ∀ id, m ≠ .resend id) d ev := by
  cases ev with
  | runRetryWalk connected ready =>
    refine ⟨nofun, fun _ => nofun, fun hconnected e hretry hready d' hlater hmint _ hrow => ?_⟩
    have hmem : e ∈ retryableEntries d.expire.outbox d.now :=
      mem_retryableEntries.mpr ⟨⟨_, hrow⟩, hretry⟩
    obtain ⟨hold, hactive⟩ := mem_retryable_expire.mp hmem
    rcases h hconnected e hold hactive with hzero | hnone
    · omega
    · have hsome := ((later_expire d).trans hlater).minted hmint
      rw [hnone] at hsome
      cases hsome
  | send peer ttl text a => exact fun _ _ _ _ => nofun
  | shipPreparedAttachment peer ttl attachmentId chunks => exact fun _ _ _ _ _ => nofun
  | sendGroupMessage groupMessageId body legs => exact fun _ _ _ _ _ => nofun
  | shipPreparedGroupAttachment groupMessageId attachmentId chunkCount chunks =>
    exact fun _ _ _ _ _ => nofun
  | sendChainRefreshRequest peer a => exact fun _ _ _ => nofun
  | broadcastGroupOp peer signedBytes a => exact fun _ _ _ => nofun
  | broadcastSenderKeyDistribution peer body a => exact fun _ _ _ => nofun
  | broadcastGroupBootstrap peer body a => exact fun _ _ _ => nofun
  | userRetry id connected ready =>
    intro e _ _ _ _
    split
    · exact nofun
    · exact fun _ => ⟨nofun, fun _ => nofun⟩
  | userRetryAttachment attachmentId connected ready =>
    intro e _ _ _ _ d' _ _ _
    split
    · exact nofun
    · exact fun _ => ⟨nofun, fun _ => nofun⟩
  | userTryAgainExpired id => exact nofun
  | handleAckPayload payload fromPeer => exact nofun
  | handleReadReceiptPayload peer cutoff => exact nofun
  | releaseLeg index ready => trivial
  | emitAck peer acked a => trivial
  | emitReadReceipt peer highest a => trivial
  | handleChainSeedDelivery peer payload => trivial
  | tick seconds => trivial

/-- The two invariants along one event. -/
theorem stamped_step {ev : Event} (hfiled : d.Filed) (h : d.Stamped) (hdrawn : d.Drawn ev)
    (hnone : NoneTaken blake3 d ev) :
    (d.step blake3 me ev).Filed ∧ (d.step blake3 me ev).Stamped := by
  have hrun : Moves blake3 (fun _ m => ∀ id, m ≠ .resend id) d (d.step blake3 me ev) := by
    refine step_moves (fun d m hharmless id => ?_) hfiled.named hdrawn hnone.allowed
    rintro rfl
    cases hharmless
  refine hrun.invariant (fun d => d.Filed ∧ d.Stamped) ?_ ⟨hfiled, h⟩
  rintro d m d' ⟨hfiled, h⟩ hm hstep
  exact ⟨hfiled.move hstep, h.move hfiled hm hstep⟩

/-! ## A walk that finds one -/

/-- A row that a relay has taken, and that is pending. -/
def Exposed (d : Outbound) (id : Bytes) : Prop :=
  ∃ e, d.outbox.lookup id = some e ∧ e.status = .pending ∧ d.Handed e

theorem Exposed.not_relayedShown {id : Bytes} (h : d.Exposed id) : ¬d.RelayedShown := by
  obtain ⟨e, hlookup, hpending, hhanded⟩ := h
  exact fun hshown => (hshown id e hlookup hhanded).not_pending hpending

/-- What a later turn does with other rows leaves the row exposed. -/
theorem Exposed.later {id : Bytes} (h : d.Exposed id) (hlater : Later d d')
    (hlookup : d'.outbox.lookup id = d.outbox.lookup id) : d'.Exposed id := by
  obtain ⟨e, he, hpending, hhanded⟩ := h
  exact ⟨e, by rw [hlookup]; exact he, hpending, List.map_subset _ hlater.carried hhanded⟩

theorem Exposed.resendLoop {id : Bytes} {ready : Bytes → Nat} {es : List OutboxEntry} :
    ∀ {d : Outbound}, d.Exposed id → (∀ e ∈ es, e.messageId ≠ id) →
      (es.foldl (fun d e => d.resend blake3 e (ready e.messageId)) d).Exposed id := by
  induction es with
  | nil => exact fun h _ => h
  | cons e es ih =>
    intro d h hne
    refine ih (h.later later_resend (lookup_resend ?_)) fun e' he' =>
      hne e' (List.mem_cons_of_mem _ he')
    exact (hne e (List.mem_cons_self ..)).symm

/-- A turn that finds a token and a relay leaves its row exposed. -/
theorem exposed_resend {ready : Nat} (hpending : e.status = .pending) (hready : 0 < ready)
    (hmint : (d.mintV2DeliveryToken blake3 e.recipientPeerId).isSome) :
    (d.resend blake3 e ready).Exposed e.messageId := by
  obtain ⟨⟨token, d₁⟩, hmint⟩ := Option.isSome_iff_exists.mp hmint
  unfold resend
  rw [hmint]
  simp only [sendSealedToRelays, if_pos hready]
  refine ⟨_, AList.lookup_insert _, ?_, ?_⟩
  · exact OutboxEntry.status_eq_pending_iff.mpr (OutboxEntry.status_eq_pending_iff.mp hpending)
  · show e.sealedCiphertext ∈ List.map Carried.frame (d₁.carried ++ [_])
    rw [List.map_append, List.mem_append]
    exact .inr (List.mem_singleton_self _)

/-- A turn that does not find both changes nothing. -/
theorem resend_eq_self {ready : Nat}
    (h : ¬(0 < ready ∧ (d.mintV2DeliveryToken blake3 e.recipientPeerId).isSome)) :
    d.resend blake3 e ready = d := by
  unfold resend
  cases hmint : d.mintV2DeliveryToken blake3 e.recipientPeerId with
  | none => rfl
  | some minted =>
    obtain ⟨token, d₁⟩ := minted
    have hready : ready = 0 := by
      by_contra hne
      exact h ⟨by omega, by rw [hmint]; rfl⟩
    subst hready
    exact rollback_mint hmint

/-- The first turn of the loop that finds a token and a relay exposes its row for good. -/
theorem exposed_resendLoop (ready : Bytes → Nat) {es : List OutboxEntry}
    (hpending : ∀ e ∈ es, e.status = .pending) (hnodup : (es.map OutboxEntry.messageId).Nodup)
    (htaken : ∃ e ∈ es, 0 < ready e.messageId ∧
      (d.mintV2DeliveryToken blake3 e.recipientPeerId).isSome) :
    ∃ id, (es.foldl (fun d e => d.resend blake3 e (ready e.messageId)) d).Exposed id := by
  induction es with
  | nil =>
    obtain ⟨e, he, -⟩ := htaken
    cases he
  | cons e es ih =>
    obtain ⟨hfirst, hrest⟩ := List.nodup_cons.mp hnodup
    rw [List.foldl_cons]
    by_cases hthis : 0 < ready e.messageId ∧
        (d.mintV2DeliveryToken blake3 e.recipientPeerId).isSome
    · have hexposed := exposed_resend (hpending e (List.mem_cons_self ..)) hthis.1 hthis.2
      refine ⟨e.messageId, hexposed.resendLoop fun e' he' heq => hfirst ?_⟩
      rw [← heq]
      exact List.mem_map_of_mem he'
    · rw [resend_eq_self hthis]
      refine ih (fun e' he' => hpending e' (List.mem_cons_of_mem _ he')) hrest ?_
      obtain ⟨e', he', hready⟩ := htaken
      rcases List.mem_cons.mp he' with rfl | he'
      · exact absurd hready hthis
      · exact ⟨e', he', hready⟩

/-- The clean-up keeps pending rows. -/
theorem Exposed.collect {id : Bytes} (h : d.Exposed id) : d.collect.Exposed id := by
  obtain ⟨e, hlookup, hpending, hhanded⟩ := h
  obtain ⟨hdelivered, hfailed, -⟩ := OutboxEntry.status_eq_pending_iff.mp hpending
  refine ⟨e, ?_, hpending, hhanded⟩
  rw [Outbound.collect, AList.lookup_retain, hlookup]
  simp [Option.filter, Outbox.outlived, hdelivered, hfailed]

/-- An event after which every row that a relay has taken is shown so takes none. -/
theorem noneTaken_of_relayedShown {ev : Event} (hfiled : d.Filed)
    (h : (d.step blake3 me ev).RelayedShown) : NoneTaken blake3 d ev := by
  cases ev with
  | runRetryWalk connected ready =>
    rintro rfl e hmem hactive
    by_contra htaken
    obtain ⟨hready, hmint⟩ := not_or.mp htaken
    have hlisted := (hfiled.named.revise (revision_expire d)).retryable
    have hback : Later d.expire d := .of_chain_eq rfl (List.Subset.refl _)
    have hmint' := hback.minted (Option.ne_none_iff_isSome.mp hmint)
    obtain ⟨id, hexposed⟩ := exposed_resendLoop ready
      (fun e he => OutboxEntry.status_of_shouldRetry (mem_retryableEntries.mp he).2)
      hlisted.nodup ⟨e, mem_retryable_expire.mpr ⟨hmem, hactive⟩, by omega, hmint'⟩
    exact hexposed.collect.not_relayedShown h
  | _ => trivial

/-! ## Runs -/

/-- In a run whose walks find a relay for no row, what a relay has taken is neither sent again
nor shown as unsent; and from any state of such a run, an event keeps it so exactly when it is
no walk that finds one. -/
theorem relayed_never_unsent {now : Int}
    (h : Reaches blake3 me (NoneTaken blake3) (start now) d) :
    d.RelayedShown ∧ ∀ ev, d.Drawn ev →
      ((d.step blake3 me ev).RelayedShown ↔ NoneTaken blake3 d ev) := by
  have hinv : d.Filed ∧ d.Stamped := by
    refine h.invariant (fun d => d.Filed ∧ d.Stamped) ?_ ⟨start_filed now, ?_⟩
    · rintro d ev _ ⟨hfiled, hstamped⟩ hnone ⟨hdrawn, rfl⟩
      exact stamped_step hfiled hstamped hdrawn hnone
    · refine ⟨fun id e hlookup => ?_, fun id e hlookup => ?_⟩
      · rw [lookup_start] at hlookup
        cases hlookup
      · rw [lookup_start] at hlookup
        cases hlookup
  refine ⟨hinv.2.relayedShown, fun ev hdrawn => ⟨noneTaken_of_relayedShown hinv.1, fun hnone => ?_⟩⟩
  exact (stamped_step hinv.1 hinv.2 hdrawn hnone).2.relayedShown

/-! ## Two runs -/

/-- The payload that delivers the sample chain, unused and with three tokens. -/
def sampleSeedDelivery : Bytes :=
  sampleChainID.1 ++ sampleSeed.1 ++ (sampleChain 3).root.1 ++ beBytes 4 3 ++ beBytes 4 1

/-- A member's leg of a group message that is sealed, and keeps for a day. -/
def sampleLeg : GroupLeg where
  recipient := samplePeer.1
  ttl := 86400
  attempt := { messageId := [1], encrypts := true, persists := true, ready := 0 }

/-- The arrival of the sample chain. -/
def sampleDelivery : Event := .handleChainSeedDelivery samplePeer.1 sampleSeedDelivery

/-- A group message of one leg. -/
def sampleMessage : Event := .sendGroupMessage [3] [4] [sampleLeg]

/-- The chain is there. -/
def sampleChained : Outbound := (start 0).step plainBlake3 [2] sampleDelivery

/-- The leg is sealed and waits. -/
def sampleHeld : Outbound := sampleChained.step plainBlake3 [2] sampleMessage

/-- Events that draw no id. -/
theorem drawn_of_ids_eq_nil {ev : Event} (hids : ev.ids = [])
    (hchain : ∀ peer payload, ev ≠ .handleChainSeedDelivery peer payload) : d.Drawn ev where
  nodup := by
    rw [hids]
    exact List.nodup_nil
  unused := by
    rw [hids]
    intro id hid
    cases hid
  chain peer payload _ heq := absurd heq (hchain peer payload)

theorem start_drawn_sampleDelivery : (start 0).Drawn sampleDelivery where
  nodup := List.nodup_nil
  unused id hid := by cases hid
  chain _ _ _ _ _ := by
    refine ⟨fun leg hleg => ?_, fun x hx => ?_⟩
    · cases hleg
    · cases hx

theorem sampleChained_drawn_sampleMessage : sampleChained.Drawn sampleMessage where
  nodup := by decide
  unused id hid := by
    cases List.mem_singleton.mp (show id ∈ [[1]] from hid)
    exact ⟨by decide +kernel, by decide +kernel, by decide +kernel⟩
  chain _ _ _ heq := by cases heq

theorem reaches_sampleHeld {ok : Outbound → Event → Prop} (hdelivery : ok (start 0) sampleDelivery)
    (hmessage : ok sampleChained sampleMessage) :
    Reaches plainBlake3 [2] ok (start 0) sampleHeld :=
  (Runs.Reach.refl.snoc ⟨start_drawn_sampleDelivery, rfl⟩ hdelivery).snoc
    ⟨sampleChained_drawn_sampleMessage, rfl⟩ hmessage

/-- The leg goes out to one relay: it is shown as sent, and only a walk that finds a relay
would change that. -/
theorem relayed_never_unsent_leg :
    (sampleHeld.step plainBlake3 [2] (.releaseLeg 0 1)).RelayedShown ∧
      ∀ ev, (sampleHeld.step plainBlake3 [2] (.releaseLeg 0 1)).Drawn ev →
        (((sampleHeld.step plainBlake3 [2] (.releaseLeg 0 1)).step plainBlake3 [2] ev).RelayedShown ↔
          NoneTaken plainBlake3 (sampleHeld.step plainBlake3 [2] (.releaseLeg 0 1)) ev) :=
  relayed_never_unsent ((reaches_sampleHeld trivial trivial).snoc
    ⟨drawn_of_ids_eq_nil rfl (by simp), rfl⟩ trivial)

/-- The leg finds no relay, and after half a minute the walk does. -/
def sampleRetried : Outbound :=
  ((sampleHeld.step plainBlake3 [2] (.releaseLeg 0 0)).step plainBlake3 [2] (.tick 31)).step
    plainBlake3 [2] (.runRetryWalk true fun _ => 1)

/-- The walk's frame is with a relay, and its row is pending. -/
theorem sampleRetried_exposed : sampleRetried.Exposed [1] := by
  have hrow : ∃ e, sampleRetried.outbox.lookup [1] = some e := by
    rw [← Option.isSome_iff_exists]
    decide +kernel
  obtain ⟨e, he⟩ := hrow
  have hfacts : ∀ e ∈ sampleRetried.outbox.lookup [1],
      e.status = .pending ∧ sampleRetried.Handed e := by decide +kernel
  exact ⟨e, he, hfacts e he⟩

theorem retried_leg_pending :
    ¬∀ d, Reaches plainBlake3 [2] (fun _ _ => True) (start 0) d → d.RelayedShown := by
  intro h
  refine sampleRetried_exposed.not_relayedShown (h _ ?_)
  exact (((reaches_sampleHeld trivial trivial).snoc ⟨drawn_of_ids_eq_nil rfl (by simp), rfl⟩
    trivial).snoc ⟨drawn_of_ids_eq_nil rfl (by simp), rfl⟩ trivial).snoc
    ⟨drawn_of_ids_eq_nil rfl (by simp), rfl⟩ trivial

end Outbound

end Pizzini.Delivery
