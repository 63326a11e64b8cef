import Pizzini.Delivery.Moves

/-!
# Sending rows again (`runRetryWalk`, `userRetry`)

The retry walk expires rows, sends the retryable ones again in turn, and drops old rows. Each
turn mints a token of its own, so a turn sees chains that earlier turns have moved on
(`Later`), and rows that they have left alone (`Listed`).

`step_moves` puts the paths together: every event is a run of moves, each harmless or one that
the event makes for the reason that `Allowed` names.
-/

namespace Pizzini.Delivery

open Wire Relay Chat

namespace Outbound

variable {blake3 : Bytes → ChainValue} {d d₁ : Outbound} {peer : Bytes} {token : Token}
  {e : OutboxEntry}

/-! ## The retry walk -/

section Again

variable {ok : Outbound → Move → Prop} {ready : Nat}

/-- A turn of the retry loop sends the row again if a relay is ready, or changes nothing. -/
theorem moves_resend (hlookup : d.outbox.lookup e.messageId = some e)
    (hpending : e.status = .pending)
    (hresend : 0 < ready → (d.mintV2DeliveryToken blake3 e.recipientPeerId).isSome →
      ok d (.resend e.messageId)) :
    Moves blake3 ok d (d.resend blake3 e ready) := by
  unfold resend
  cases hmint : d.mintV2DeliveryToken blake3 e.recipientPeerId with
  | none => exact .refl
  | some minted =>
    obtain ⟨token, d₁⟩ := minted
    by_cases hready : 0 < ready
    · simp only [sendSealedToRelays, if_pos hready]
      exact .one (.resend hmint hlookup hpending) (hresend hready (by rw [hmint]; rfl))
    · obtain rfl : ready = 0 := by omega
      simp only [sendSealedToRelays_zero, if_neg hready, rollback_mint hmint]
      exact .refl

theorem later_resend : Later d (d.resend blake3 e ready) := by
  unfold resend
  cases hmint : d.mintV2DeliveryToken blake3 e.recipientPeerId with
  | none => exact .refl d
  | some minted =>
    obtain ⟨token, d₁⟩ := minted
    by_cases hready : 0 < ready
    · simp only [sendSealedToRelays, if_pos hready]
      exact (Later.mint hmint).trans (.of_chain_eq rfl (List.subset_append_left _ _))
    · obtain rfl : ready = 0 := by omega
      simp only [sendSealedToRelays_zero, if_neg hready, rollback_mint hmint]
      exact .refl d

theorem lookup_resend {id : Bytes} (hne : id ≠ e.messageId) :
    (d.resend blake3 e ready).outbox.lookup id = d.outbox.lookup id := by
  unfold resend
  cases hmint : d.mintV2DeliveryToken blake3 e.recipientPeerId with
  | none => rfl
  | some minted =>
    obtain ⟨token, d₁⟩ := minted
    by_cases hready : 0 < ready
    · simp only [sendSealedToRelays, if_pos hready]
      rw [store, AList.lookup_insert_ne hne, (mint_frame hmint).2.1]
    · obtain rfl : ready = 0 := by omega
      simp only [sendSealedToRelays_zero, if_neg hready, rollback_mint hmint]

/-- The rows that `es` lists, each once. -/
structure Listed (d : Outbound) (es : List OutboxEntry) : Prop where
  nodup : (es.map OutboxEntry.messageId).Nodup
  row : ∀ e ∈ es, d.outbox.lookup e.messageId = some e

/-- A turn that touches no other row leaves the rest of the list as it was. -/
theorem Listed.tail {es : List OutboxEntry} {d' : Outbound} (h : d.Listed (e :: es))
    (hlookup : ∀ id, id ≠ e.messageId → d'.outbox.lookup id = d.outbox.lookup id) :
    d'.Listed es := by
  obtain ⟨hfirst, hrest⟩ := List.nodup_cons.mp h.nodup
  refine ⟨hrest, fun e' he' => ?_⟩
  rw [hlookup, h.row e' (List.mem_cons_of_mem _ he')]
  intro heq
  exact hfirst (heq ▸ List.mem_map_of_mem he')

/-- The retry loop. -/
theorem moves_resendLoop {ready : Bytes → Nat} {es : List OutboxEntry} (hlisted : d.Listed es)
    (hpending : ∀ e ∈ es, e.status = .pending)
    (hresend : ∀ e ∈ es, 0 < ready e.messageId → ∀ d', Later d d' →
      (d'.mintV2DeliveryToken blake3 e.recipientPeerId).isSome →
      d'.outbox.lookup e.messageId = some e → ok d' (.resend e.messageId)) :
    Moves blake3 ok d (es.foldl (fun d e => d.resend blake3 e (ready e.messageId)) d) := by
  refine Runs.Reach.foldl (fun d' rest => Later d d' ∧ rest ⊆ es ∧ d'.Listed rest) ?_
    ⟨.refl d, List.Subset.refl _, hlisted⟩
  rintro d' e rest ⟨hlater, hsub, hrows⟩
  have hmem : e ∈ es := hsub (List.mem_cons_self ..)
  have hrow := hrows.row e (List.mem_cons_self ..)
  exact ⟨moves_resend hrow (hpending e hmem) fun hready hmint =>
      hresend e hmem hready d' hlater hmint hrow,
    hlater.trans later_resend, fun e' he' => hsub (List.mem_cons_of_mem _ he'),
    hrows.tail fun id hne => lookup_resend hne⟩

/-- What the walk sends again is pending, and there. -/
theorem mem_retryableEntries {outbox : Outbox} {now : Int} :
    e ∈ retryableEntries outbox now ↔
      (∃ id, outbox.lookup id = some e) ∧ e.shouldRetry now = true := by
  rw [retryableEntries, List.mem_insertionSort, List.mem_filter, List.mem_map]
  constructor
  · rintro ⟨⟨⟨id, _⟩, hmem, rfl⟩, hretry⟩
    exact ⟨⟨id, AList.lookup_eq_some_iff.mpr hmem⟩, hretry⟩
  · rintro ⟨⟨id, hlookup⟩, hretry⟩
    exact ⟨⟨⟨id, e⟩, AList.lookup_eq_some_iff.mp hlookup, rfl⟩, hretry⟩

theorem later_expire (d : Outbound) : Later d d.expire := .of_chain_eq rfl (List.Subset.refl _)

/-- Behind the expiry, the pending rows are those that have not expired. -/
theorem lookup_expire_iff {id : Bytes} (hpending : e.status = .pending) :
    d.expire.outbox.lookup id = some e ↔
      d.outbox.lookup id = some e ∧ e.hasExpired d.now = false := by
  rw [expire, AList.lookup_mapVals, Option.map_eq_some_iff]
  constructor
  · rintro ⟨e₀, hlookup, rfl⟩
    by_cases hexpired : e₀.hasExpired d.now = true
    · rw [if_pos hexpired] at hpending
      cases (OutboxEntry.status_eq_pending_iff.mp hpending).2.1
    · rw [if_neg hexpired]
      exact ⟨hlookup, Bool.eq_false_iff.mpr hexpired⟩
  · rintro ⟨hlookup, hactive⟩
    exact ⟨e, hlookup, by simp [hactive]⟩

theorem mem_retryable_expire :
    e ∈ retryableEntries d.expire.outbox d.now ↔
      e ∈ retryableEntries d.outbox d.now ∧ e.hasExpired d.now = false := by
  rw [mem_retryableEntries, mem_retryableEntries]
  constructor
  · rintro ⟨⟨id, hlookup⟩, hretry⟩
    obtain ⟨hlookup, hactive⟩ :=
      (lookup_expire_iff (OutboxEntry.status_of_shouldRetry hretry)).mp hlookup
    exact ⟨⟨⟨id, hlookup⟩, hretry⟩, hactive⟩
  · rintro ⟨⟨⟨id, hlookup⟩, hretry⟩, hactive⟩
    have hpending := OutboxEntry.status_of_shouldRetry hretry
    exact ⟨⟨id, (lookup_expire_iff hpending).mpr ⟨hlookup, hactive⟩⟩, hretry⟩

/-- Every row stands under its own message id. -/
def Named (d : Outbound) : Prop :=
  ∀ id e, d.outbox.lookup id = some e → e.messageId = id

theorem Named.lookup (h : d.Named) {id : Bytes} (hlookup : d.outbox.lookup id = some e) :
    d.outbox.lookup e.messageId = some e := by
  rw [h id e hlookup]
  exact hlookup

/-- A list of rows in the dictionary's order, and its sublists, list each row once. -/
theorem Named.listed (h : d.Named) {es : List OutboxEntry}
    (hsub : es.Sublist (d.outbox.entries.map fun e => e.2)) : d.Listed es := by
  have hrow : ∀ e ∈ d.outbox.entries.map fun e => e.2, d.outbox.lookup e.messageId = some e := by
    intro e he
    obtain ⟨⟨id, _⟩, hmem, rfl⟩ := List.mem_map.mp he
    exact h.lookup (AList.lookup_eq_some_iff.mpr hmem)
  have hnames : (d.outbox.entries.map fun e => e.2).map OutboxEntry.messageId =
      d.outbox.entries.map Sigma.fst := by
    rw [List.map_map]
    refine List.map_congr_left fun ⟨id, e⟩ hmem => ?_
    exact h id e (AList.lookup_eq_some_iff.mpr hmem)
  refine ⟨List.Nodup.sublist (hsub.map _) ?_, fun e he => hrow e (hsub.subset he)⟩
  rw [hnames]
  exact d.outbox.nodupKeys

theorem Listed.perm {es es' : List OutboxEntry} (h : d.Listed es) (hperm : es'.Perm es) :
    d.Listed es' :=
  ⟨(hperm.map _).nodup_iff.mpr h.nodup, fun e he => h.row e (hperm.mem_iff.mp he)⟩

theorem Named.retryable (h : d.Named) : d.Listed (retryableEntries d.outbox d.now) :=
  (h.listed List.filter_sublist).perm (List.perm_insertionSort ..)

/-- Revised rows keep their ids. -/
theorem Named.revise (h : d.Named) {outbox : Outbox} (hrev : Revision d.now d.outbox outbox) :
    Named { d with outbox := outbox } := by
  intro id e' hlookup
  obtain ⟨e, he, hrevised⟩ := hrev id e' hlookup
  rw [hrevised.eq]
  exact h id e he

/-- The walk: rows expire, the retryable ones are sent again, old rows go. -/
theorem moves_runRetryWalk {connected : Bool} {ready : Bytes → Nat} (hnamed : d.Named)
    (hexpire : ok d (.revise d.expire.outbox))
    (hcollect : ∀ d : Outbound, ok d (.revise d.collect.outbox))
    (hresend : connected = true → ∀ e, e.shouldRetry d.now = true → 0 < ready e.messageId →
      ∀ d', Later d.expire d' → (d'.mintV2DeliveryToken blake3 e.recipientPeerId).isSome →
      d'.outbox.lookup e.messageId = some e → d.expire.outbox.lookup e.messageId = some e →
      ok d' (.resend e.messageId)) :
    Moves blake3 ok d (d.runRetryWalk blake3 connected ready) := by
  have hfirst : Moves blake3 ok d d.expire := .one (.revise (revision_expire d)) hexpire
  have hlisted : d.expire.Listed (retryableEntries d.expire.outbox d.now) :=
    (hnamed.revise (revision_expire d)).retryable
  unfold runRetryWalk
  refine (hfirst.trans ?_).snoc (.revise (revision_collect _)) (hcollect _)
  cases connected with
  | false => exact .refl
  | true =>
    refine moves_resendLoop hlisted (fun e he => ?_) fun e he hready d' hlater hmint hrow => ?_
    · exact OutboxEntry.status_of_shouldRetry (mem_retryableEntries.mp he).2
    · exact hresend rfl e (mem_retryableEntries.mp he).2 hready d' hlater hmint hrow
        (hlisted.row e he)

/-! ## The user's retry -/

/-- A retry by the user burns an index when no relay is ready. -/
theorem moves_userRetry {id : Bytes} {connected : Bool}
    (hretry : ∀ e, d.outbox.lookup id = some e → e.status = .pending → connected = true →
      (d.mintV2DeliveryToken blake3 e.recipientPeerId).isSome →
      if 0 < ready then ok d (.retry id)
      else ∀ d, ok d .burn ∧ ∀ outbox, ok d (.revise outbox)) :
    Moves blake3 ok d (d.userRetry blake3 id connected ready) := by
  unfold userRetry
  cases hlookup : d.outbox.lookup id with
  | none => exact .refl
  | some e =>
    simp only
    split
    · next hguard =>
      obtain ⟨hdelivered, hfailed, hrelayed, hconnected⟩ := hguard
      rw [Option.isNone_iff_eq_none] at hdelivered hfailed hrelayed
      have hpending : e.status = .pending :=
        OutboxEntry.status_eq_pending_iff.mpr ⟨hdelivered, hfailed, hrelayed⟩
      cases hmint : d.mintV2DeliveryToken blake3 e.recipientPeerId with
      | none => exact .refl
      | some minted =>
        obtain ⟨token, d₁⟩ := minted
        have hthis := hretry e hlookup hpending hconnected (by rw [hmint]; rfl)
        by_cases hready : 0 < ready
        · rw [if_pos hready] at hthis
          simp only [sendSealedToRelays, if_pos hready]
          exact .one (.retry hmint hlookup hpending) hthis
        · rw [if_neg hready] at hthis
          simp only [sendSealedToRelays, if_neg hready]
          -- the index is lost, and the retry is counted in the row
          refine (Moves.one (.burn hmint) (hthis _).1).snoc (.revise fun id' e' h => ?_)
            ((hthis _).2 _)
          rw [AList.lookup_insert_of_eq_or_ne] at h
          split at h
          · next hid =>
            cases h
            exact ⟨e, by rw [hid, (mint_frame hmint).2.1]; exact hlookup, rfl, .inl rfl⟩
          · exact ⟨e', h, .refl _ e'⟩
    · exact .refl

theorem later_userRetry {id : Bytes} {connected : Bool} :
    Later d (d.userRetry blake3 id connected ready) := by
  unfold userRetry
  cases hlookup : d.outbox.lookup id with
  | none => exact .refl d
  | some e =>
    simp only
    split
    · cases hmint : d.mintV2DeliveryToken blake3 e.recipientPeerId with
      | none => exact .refl d
      | some minted =>
        obtain ⟨token, d₁⟩ := minted
        exact (Later.mint hmint).trans
          (.of_chain_eq (sendSealedToRelays_chain ..) (subset_sendSealedToRelays ..))
    · exact .refl d

theorem lookup_userRetry {id id' : Bytes} {connected : Bool} (hne : id' ≠ id) :
    (d.userRetry blake3 id connected ready).outbox.lookup id' = d.outbox.lookup id' := by
  unfold userRetry
  cases hlookup : d.outbox.lookup id with
  | none => rfl
  | some e =>
    simp only
    split
    · cases hmint : d.mintV2DeliveryToken blake3 e.recipientPeerId with
      | none => rfl
      | some minted =>
        obtain ⟨token, d₁⟩ := minted
        simp only
        rw [AList.lookup_insert_ne hne, sendSealedToRelays_outbox, (mint_frame hmint).2.1]
    · rfl

/-- The user's retry of an attachment is a retry of each stuck chunk. -/
theorem moves_userRetryAttachment {attachmentId : Pizzini.Attachments.AttachmentId}
    {connected : Bool} {ready : Bytes → Nat} (hnamed : d.Named)
    (hretry : ∀ e, d.outbox.lookup e.messageId = some e → e.attachmentId = some attachmentId →
      e.status = .pending → connected = true → ∀ d', Later d d' →
      (d'.mintV2DeliveryToken blake3 e.recipientPeerId).isSome →
      d'.outbox.lookup e.messageId = some e →
      if 0 < ready e.messageId then ok d' (.retry e.messageId)
      else ∀ d, ok d .burn ∧ ∀ outbox, ok d (.revise outbox)) :
    Moves blake3 ok d (d.userRetryAttachment blake3 attachmentId connected ready) := by
  unfold userRetryAttachment
  set stuck := (d.outbox.chunksOf attachmentId).filter fun e =>
    e.deliveredAt.isNone && e.failedAt.isNone && e.relayedAt.isNone with hstuck
  have hlisted : d.Listed stuck :=
    hnamed.listed (List.filter_sublist.trans List.filter_sublist)
  refine Runs.Reach.foldl (fun d' rest => Later d d' ∧ rest ⊆ stuck ∧ d'.Listed rest) ?_
    ⟨.refl d, List.Subset.refl _, hlisted⟩
  rintro d' e rest ⟨hlater, hsub, hrows⟩
  have hmem : e ∈ stuck := hsub (List.mem_cons_self ..)
  have hrow := hrows.row e (List.mem_cons_self ..)
  obtain ⟨hchunk, -⟩ := List.mem_filter.mp hmem
  have hattachment : e.attachmentId = some attachmentId := by
    simpa using (List.mem_filter.mp hchunk).2
  refine ⟨moves_userRetry fun e' he' hpending hconnected hmint => ?_,
    hlater.trans later_userRetry, fun e' he' => hsub (List.mem_cons_of_mem _ he'),
    hrows.tail fun id hne => lookup_userRetry hne⟩
  obtain rfl : e = e' := by
    rw [hrow] at he'
    exact Option.some.inj he'
  exact hretry e (hlisted.row e hmem) hattachment hpending hconnected d' hlater hmint hrow

end Again

/-! ## Every event -/

/-- What `ok` has to allow for an event: the moves it makes that are not `harmless`. -/
def Allowed (blake3 : Bytes → ChainValue) (ok : Outbound → Move → Prop) (d : Outbound) :
    Event → Prop
  | .send peer _ _ a =>
    (d.mintV2DeliveryToken blake3 peer).isSome → a.encrypts = true → a.persists = false →
      ∀ d, ok d .burn
  | .shipPreparedAttachment peer _ _ chunks =>
    ¬d.remaining peer < chunks.length → ∀ c ∈ chunks.find? fun c => !(c.2.encrypts && c.2.persists),
      c.2.encrypts = true → ∀ d, ok d .burn
  | .sendGroupMessage _ _ legs =>
    ∀ l ∈ legs, (d.mintV2DeliveryToken blake3 l.recipient).isSome → l.attempt.encrypts = false →
      ∀ d, ok d .burn
  | .shipPreparedGroupAttachment _ _ _ chunks =>
    ∀ turn ∈ chunkTurns chunks, (d.mintV2DeliveryToken blake3 turn.leg.recipient).isSome →
      turn.leg.attempt.encrypts = false → ∀ d, ok d .burn
  | .sendChainRefreshRequest peer a =>
    (d.mintV2DeliveryToken blake3 peer).isSome →
      ¬(a.encrypts = true ∧ a.persists = true ∧ 0 < a.ready) → ∀ d, ok d .burn
  | .broadcastGroupOp peer _ a | .broadcastSenderKeyDistribution peer _ a
  | .broadcastGroupBootstrap peer _ a =>
    (d.mintV2DeliveryToken blake3 peer).isSome → ¬(a.encrypts = true ∧ 0 < a.ready) →
      ∀ d, ok d .burn
  | .runRetryWalk connected ready =>
    ok d (.revise d.expire.outbox) ∧ (∀ d : Outbound, ok d (.revise d.collect.outbox)) ∧
      (connected = true → ∀ e, e.shouldRetry d.now = true → 0 < ready e.messageId →
        ∀ d', Later d.expire d' → (d'.mintV2DeliveryToken blake3 e.recipientPeerId).isSome →
        d'.outbox.lookup e.messageId = some e → d.expire.outbox.lookup e.messageId = some e →
        ok d' (.resend e.messageId))
  | .userRetry id connected ready =>
    ∀ e, d.outbox.lookup id = some e → e.status = .pending → connected = true →
      (d.mintV2DeliveryToken blake3 e.recipientPeerId).isSome →
      if 0 < ready then ok d (.retry id)
      else ∀ d, ok d .burn ∧ ∀ outbox, ok d (.revise outbox)
  | .userRetryAttachment attachmentId connected ready =>
    ∀ e, d.outbox.lookup e.messageId = some e → e.attachmentId = some attachmentId →
      e.status = .pending → connected = true → ∀ d', Later d d' →
      (d'.mintV2DeliveryToken blake3 e.recipientPeerId).isSome →
      d'.outbox.lookup e.messageId = some e →
      if 0 < ready e.messageId then ok d' (.retry e.messageId)
      else ∀ d, ok d .burn ∧ ∀ outbox, ok d (.revise outbox)
  | .userTryAgainExpired id => ok d (.revise (d.userTryAgainExpired id).outbox)
  | .handleAckPayload payload fromPeer =>
    ok d (.revise (d.outbox.acknowledge payload fromPeer d.now))
  | .handleReadReceiptPayload peer cutoff =>
    ok d (.revise (d.outbox.stampLegs peer cutoff d.now))
  | _ => True

theorem moves_userTryAgainExpired {ok : Outbound → Move → Prop} {id : Bytes}
    (hrevise : ok d (.revise (d.userTryAgainExpired id).outbox)) :
    Moves blake3 ok d (d.userTryAgainExpired id) := by
  unfold userTryAgainExpired at hrevise ⊢
  cases hlookup : d.outbox.lookup id with
  | none => exact .refl
  | some e =>
    simp only [hlookup] at hrevise ⊢
    split
    · next hguard =>
      rw [if_pos hguard] at hrevise
      exact .one (.revise (revision_erase d.outbox id d.now)) hrevise
    · exact .refl

/-- Every event is a run of moves, harmless or allowed. -/
theorem step_moves {me : Bytes} {ok : Outbound → Move → Prop} {ev : Event}
    (hok : ∀ d m, Move.harmless m = true → ok d m) (hnamed : d.Named) (hdrawn : d.Drawn ev)
    (hallowed : Allowed blake3 ok d ev) : Moves blake3 ok d (d.step blake3 me ev) := by
  cases ev with
  | send peer ttl text a =>
    exact moves_send hok (hdrawn.unused _ (List.mem_singleton_self _)) hallowed
  | shipPreparedAttachment peer ttl attachmentId chunks =>
    show Moves blake3 ok d (d.shipPreparedAttachment blake3 me peer ttl attachmentId chunks)
    unfold shipPreparedAttachment
    split
    · exact .refl
    · next hguard => exact moves_shipChunks hok (hallowed hguard) hdrawn.nodup hdrawn.unused
  | sendGroupMessage groupMessageId body legs =>
    exact moves_sendGroupMessage hok hdrawn.nodup hdrawn.unused hallowed
  | releaseLeg index ready => exact moves_releaseLeg hok index ready
  | shipPreparedGroupAttachment groupMessageId attachmentId chunkCount chunks =>
    exact moves_shipGroupChunks hok hdrawn.nodup hdrawn.unused hallowed
  | emitAck peer acked a => exact moves_emit hok (hdrawn.unused _ (List.mem_singleton_self _))
  | emitReadReceipt peer highest a =>
    exact moves_emit hok (hdrawn.unused _ (List.mem_singleton_self _))
  | sendChainRefreshRequest peer a =>
    exact moves_sendChainRefreshRequest hok (hdrawn.unused _ (List.mem_singleton_self _)) hallowed
  | broadcastGroupOp peer signedBytes a =>
    exact moves_broadcast hok (hdrawn.unused _ (List.mem_singleton_self _)) hallowed
  | broadcastSenderKeyDistribution peer body a =>
    exact moves_broadcast hok (hdrawn.unused _ (List.mem_singleton_self _)) hallowed
  | broadcastGroupBootstrap peer body a =>
    exact moves_broadcast hok (hdrawn.unused _ (List.mem_singleton_self _)) hallowed
  | runRetryWalk connected ready =>
    obtain ⟨hexpire, hcollect, hresend⟩ := hallowed
    exact moves_runRetryWalk hnamed hexpire hcollect hresend
  | userRetry id connected ready => exact moves_userRetry hallowed
  | userRetryAttachment attachmentId connected ready =>
    exact moves_userRetryAttachment hnamed hallowed
  | userTryAgainExpired id => exact moves_userTryAgainExpired hallowed
  | handleAckPayload payload fromPeer =>
    exact .one (.revise (revision_acknowledge d.outbox payload fromPeer d.now d.now)) hallowed
  | handleReadReceiptPayload peer cutoff =>
    exact .one (.revise (revision_stampLegs d.outbox peer cutoff d.now d.now)) hallowed
  | handleChainSeedDelivery peer payload =>
    show Moves blake3 ok d (d.handleChainSeedDelivery peer payload)
    unfold handleChainSeedDelivery
    cases hchain : decodeSeedDelivery payload with
    | none => exact .refl
    | some chain =>
      exact .one (.install hchain (hdrawn.chain peer payload chain rfl hchain)) (hok _ .install rfl)
  | tick seconds => exact .one (.tick d seconds) (hok _ .tick rfl)

/-! ## Rows and frames under their ids -/

/-- A send or a retry of the row was handed to at least one relay. -/
def Handed (d : Outbound) (e : OutboxEntry) : Prop :=
  e.sealedCiphertext ∈ d.carried.map Carried.frame

instance (d : Outbound) (e : OutboxEntry) : Decidable (d.Handed e) :=
  inferInstanceAs (Decidable (_ ∈ _))

theorem handed_append {x : Carried} {d' : Outbound} (h : d'.carried = d.carried ++ [x]) :
    d'.Handed e ↔ d.Handed e ∨ e.sealedCiphertext = x.frame := by
  rw [Handed, h, List.map_append, List.mem_append, List.map_singleton, List.mem_singleton]
  rfl

/-- Rows stand under their message ids, and frames are sealed under them. -/
structure Filed (d : Outbound) : Prop where
  named : d.Named
  frame : ∀ id e, d.outbox.lookup id = some e → e.sealedCiphertext.messageId = id
  leg : ∀ leg ∈ d.legs, leg.sealed.messageId = leg.messageId

theorem lookup_stamp {outbox : Outbox} {id id' : Bytes} {t : Int} {e' : OutboxEntry}
    (h : (stamp outbox id t).lookup id' = some e') :
    ∃ e, outbox.lookup id' = some e ∧
      ((id' = id ∧ e' = e.relayed t) ∨ (id' ≠ id ∧ e' = e)) := by
  unfold stamp at h
  cases hrow : outbox.lookup id with
  | none =>
    simp only [hrow] at h
    refine ⟨e', h, .inr ⟨?_, rfl⟩⟩
    rintro rfl
    rw [hrow] at h
    cases h
  | some e =>
    simp only [hrow] at h
    rcases AList.lookup_insert_cases h with ⟨rfl, rfl⟩ | ⟨hne, h⟩
    · exact ⟨e, hrow, .inl ⟨rfl, rfl⟩⟩
    · exact ⟨e', h, .inr ⟨hne, rfl⟩⟩

namespace Filed

variable {d' : Outbound}

/-- A row that is new has not been handed over. -/
theorem not_handed {e : OutboxEntry} (hrow : d.NewRow e) : ¬d.Handed e := by
  intro hhanded
  obtain ⟨x, hx, hframe⟩ := List.mem_map.mp hhanded
  exact hrow.unused.frame x hx (by rw [hframe, hrow.named])

theorem insert (h : d.Filed) {e' : OutboxEntry} {id : Bytes}
    (houtbox : d'.outbox = d.outbox.insert id e') (hlegs : d'.legs = d.legs)
    (hname : e'.messageId = id) (hframe : e'.sealedCiphertext.messageId = id) : d'.Filed := by
  refine ⟨fun id' e hlookup => ?_, fun id' e hlookup => ?_, by rw [hlegs]; exact h.leg⟩
  · rw [houtbox] at hlookup
    rcases AList.lookup_insert_cases hlookup with ⟨rfl, rfl⟩ | ⟨-, hlookup⟩
    · exact hname
    · exact h.named id' e hlookup
  · rw [houtbox] at hlookup
    rcases AList.lookup_insert_cases hlookup with ⟨rfl, rfl⟩ | ⟨-, hlookup⟩
    · exact hframe
    · exact h.frame id' e hlookup

theorem move (h : d.Filed) {m : Move} (hstep : Move.Step blake3 d m d') : d'.Filed := by
  have hsame : ∀ {d' : Outbound}, d'.outbox = d.outbox → d'.legs = d.legs → d'.Filed := by
    intro d' houtbox hlegs
    exact ⟨by rw [Named, houtbox]; exact h.named, by rw [houtbox]; exact h.frame,
      by rw [hlegs]; exact h.leg⟩
  cases hstep with
  | spend hmint hnew => exact hsame (mint_frame hmint).2.1 (mint_frame hmint).2.2.1
  | burn hmint => exact hsame (mint_frame hmint).2.1 (mint_frame hmint).2.2.1
  | fail hrow => exact h.insert rfl rfl rfl hrow.named
  | queue hmint _ hrow =>
    obtain ⟨chain, -, -, -, rfl⟩ := mint_eq_some_iff.mp hmint
    exact h.insert rfl rfl rfl hrow.named
  | ship hmint hrow =>
    obtain ⟨chain, -, -, -, rfl⟩ := mint_eq_some_iff.mp hmint
    exact h.insert rfl rfl rfl hrow.named
  | @hold d₁ e token hmint _ hrow =>
    obtain ⟨chain, -, -, -, rfl⟩ := mint_eq_some_iff.mp hmint
    have hstored : (d.store e).Filed := h.insert rfl rfl rfl hrow.named
    refine ⟨hstored.named, hstored.frame, fun leg hleg => ?_⟩
    rcases List.mem_append.mp hleg with hleg | hleg
    · exact h.leg leg hleg
    · cases List.mem_singleton.mp hleg
      exact hrow.named
  | deliver hleg =>
    refine ⟨fun id e' hlookup => ?_, fun id e' hlookup => ?_,
      fun leg hmem => h.leg leg (List.mem_of_mem_eraseIdx hmem)⟩
    · obtain ⟨e, he, ⟨-, rfl⟩ | ⟨-, rfl⟩⟩ := lookup_stamp hlookup
      · exact h.named id e he
      · exact h.named id e' he
    · obtain ⟨e, he, ⟨-, rfl⟩ | ⟨-, rfl⟩⟩ := lookup_stamp hlookup
      · exact h.frame id e he
      · exact h.frame id e' he
  | strand i =>
    exact ⟨h.named, h.frame, fun leg hmem => h.leg leg (List.mem_of_mem_eraseIdx hmem)⟩
  | resend hmint hlookup _ =>
    obtain ⟨chain, -, -, -, rfl⟩ := mint_eq_some_iff.mp hmint
    have hname := h.named _ _ hlookup
    have hframe := h.frame _ _ hlookup
    exact h.insert rfl rfl hname hframe
  | retry hmint hlookup _ =>
    obtain ⟨chain, -, -, -, rfl⟩ := mint_eq_some_iff.mp hmint
    have hname := h.named _ _ hlookup
    have hframe := h.frame _ _ hlookup
    exact h.insert rfl rfl hname hframe
  | revise hrev =>
    refine ⟨h.named.revise hrev, fun id e' hlookup => ?_, h.leg⟩
    obtain ⟨e, he, hrevised⟩ := hrev id e' hlookup
    rw [hrevised.eq]
    exact h.frame id e he
  | install _ _ => exact hsame rfl rfl
  | tick => exact hsame rfl rfl

end Filed

theorem lookup_start (now : Int) (id : Bytes) : (start now).outbox.lookup id = none := rfl

theorem start_filed (now : Int) : (start now).Filed where
  named id e h := by
    rw [lookup_start] at h
    cases h
  frame id e h := by
    rw [lookup_start] at h
    cases h
  leg := by
    intro leg h
    cases h

end Outbound

end Pizzini.Delivery
