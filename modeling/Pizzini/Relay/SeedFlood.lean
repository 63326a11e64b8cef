import Pizzini.Relay.PendingBounds

/-!
# Seed floods and authorised frames

CHAIN_SEED_DELIVERY frames need no token, so their recipients can be made up.
`enqueue_seed` may therefore fill only three quarters of the distinct-peer
slots. The frame and the byte ceiling have no such reserve. This module says
exactly when a frame for a new recipient still gets in after a flood of seeds
(`seed_flood_admits_iff`): the distinct-peer check never refuses it, the other
two checks do as soon as the seeds have used up what they measure.
-/

namespace Pizzini.Relay

open Wire

/-! ## The relay's caps (main.rs:428–461) -/

def MAX_FRAME_BYTES : Nat := 1024 * 1024
def MAX_PENDING_PER_PEER : Nat := 100
def MAX_PENDING_DISTINCT_PEERS : Nat := 1024
def MAX_PENDING_TOTAL_FRAMES : Nat := 16384
def MAX_PENDING_TOTAL_BYTES : Nat := 64 * 1024 * 1024

theorem MAX_PENDING_PER_PEER_pos : 0 < MAX_PENDING_PER_PEER := by decide

namespace PendingStore

/-- The empty store of the relay (main.rs:944–951). -/
def production (key : Key) : PendingStore PendingFrame where
  key := key
  queues := ∅
  maxPerPeer := MAX_PENDING_PER_PEER
  maxDistinctPeers := MAX_PENDING_DISTINCT_PEERS
  maxTotalFrames := MAX_PENDING_TOTAL_FRAMES
  maxTotalBytes := MAX_PENDING_TOTAL_BYTES
  dirty := false
  perPeerPos := MAX_PENDING_PER_PEER_pos

/-- `enqueue_seed` calls, one after the other. -/
def enqueueSeeds (seeds : List (PeerId × PendingFrame)) (store : PendingStore PendingFrame) :
    PendingStore PendingFrame :=
  seeds.foldl (fun store seed => (store.enqueueSeed seed.1 seed.2).1) store

theorem enqueueSeeds_concat (seeds : List (PeerId × PendingFrame)) (seed : PeerId × PendingFrame)
    (store : PendingStore PendingFrame) :
    enqueueSeeds (seeds ++ [seed]) store =
      ((enqueueSeeds seeds store).enqueueSeed seed.1 seed.2).1 := by
  rw [enqueueSeeds, List.foldl_append]
  rfl

/-- An enqueue opens a queue only below the cap of its class. -/
theorem len_enqueueInner_le (store : PendingStore PendingFrame) (peerId : PeerId)
    (frame : PendingFrame) (cap : Nat) (h : store.queues.len ≤ cap) :
    (store.enqueueInner peerId frame cap).1.queues.len ≤ cap := by
  unfold enqueueInner
  split
  · exact h
  next hdistinct =>
  split
  · exact h
  split
  · exact h
  refine AList.len_insert_le h (fun hnone => ?_) _
  have hnew : store.isNewPeer peerId = true := by
    rw [isNewPeer, hnone]
    rfl
  exact Nat.lt_of_not_le fun hfull => hdistinct ⟨hnew, hfull⟩

/-- Seeds occupy at most three quarters of the distinct-peer slots, and leave
the caps as they are. -/
theorem enqueueSeeds_spec (seeds : List (PeerId × PendingFrame)) (store : PendingStore PendingFrame)
    (h : store.queues.len ≤ seedDistinctPeersCap store.maxDistinctPeers) :
    (enqueueSeeds seeds store).caps = store.caps ∧
      (enqueueSeeds seeds store).queues.len ≤ seedDistinctPeersCap store.maxDistinctPeers := by
  induction seeds using List.reverseRecOn with
  | nil => exact ⟨rfl, h⟩
  | append_singleton seeds seed ih =>
    obtain ⟨hcaps, hlen⟩ := ih
    have hmax : (enqueueSeeds seeds store).maxDistinctPeers = store.maxDistinctPeers :=
      congrArg Caps.maxDistinctPeers hcaps
    rw [enqueueSeeds_concat]
    refine ⟨(enqueueInner_fields _ _ _ _).2.trans hcaps, ?_⟩
    rw [← hmax] at hlen ⊢
    exact len_enqueueInner_le _ _ _ _ hlen

/-- After any seeds, an authorised frame for a recipient without a queue is
stored exactly if the seeds have left a frame slot and the bytes it needs. -/
theorem seed_flood_admits_iff (key : Key) (seeds : List (PeerId × PendingFrame))
    (peerId : PeerId) (frame : PendingFrame)
    (hnew : (enqueueSeeds seeds (production key)).queues.lookup peerId = none) :
    ((enqueueSeeds seeds (production key)).enqueue peerId frame).2 = .stored ↔
      (enqueueSeeds seeds (production key)).totalFrames < MAX_PENDING_TOTAL_FRAMES ∧
        (enqueueSeeds seeds (production key)).totalBytes + (frame.byteLen + peerId.length) ≤
          MAX_PENDING_TOTAL_BYTES := by
  obtain ⟨hcaps, hlen⟩ := enqueueSeeds_spec seeds (production key) (Nat.zero_le _)
  generalize enqueueSeeds seeds (production key) = store at hnew hcaps hlen ⊢
  have hframes : store.maxTotalFrames = MAX_PENDING_TOTAL_FRAMES :=
    congrArg Caps.maxTotalFrames hcaps
  have hbytes : store.maxTotalBytes = MAX_PENDING_TOTAL_BYTES :=
    congrArg Caps.maxTotalBytes hcaps
  have hpeers : store.maxDistinctPeers = MAX_PENDING_DISTINCT_PEERS :=
    congrArg Caps.maxDistinctPeers hcaps
  -- the reserve: seeds hold 768 of the 1024 slots at most
  have hreserve : store.queues.len < store.maxDistinctPeers := by
    rw [hpeers]
    have hshare : seedDistinctPeersCap MAX_PENDING_DISTINCT_PEERS < MAX_PENDING_DISTINCT_PEERS := by
      decide
    exact Nat.lt_of_le_of_lt hlen hshare
  rw [enqueue, enqueueInner_fresh hnew, hframes, hbytes]
  exact ⟨fun h => h.2, fun h => ⟨hreserve, h⟩⟩

theorem seed_flood_admits_after_one_seed :
    ((enqueueSeeds [([8], PendingFrame.new [1, 2] 9)]
      (production (FixedBytes.replicate KEY_LEN 0))).enqueue [7] (PendingFrame.new [3] 9)).2 =
        .stored :=
  (seed_flood_admits_iff _ [([8], PendingFrame.new [1, 2] 9)] [7] (PendingFrame.new [3] 9)
    (by decide +kernel)).mpr (by decide +kernel)

/-! ## A flood that shuts authorised frames out -/

/-- A made-up recipient. -/
def fabricatedId (i : Nat) : PeerId := List.replicate 33 (UInt8.ofNat i)

/-- A frame of zeros that expires after a week. -/
def zeroFrame (len : Nat) : PendingFrame := PendingFrame.new (List.replicate len 0) 604800

/-- The same frame for each of `n` made-up recipients. -/
def flood (frame : PendingFrame) (n : Nat) : List (PeerId × PendingFrame) :=
  (List.range n).map fun i => (fabricatedId i, frame)

theorem byteLen_zeroFrame (len : Nat) : (zeroFrame len).byteLen = len := by
  show (hexEncode (List.replicate len 0)).length / 2 = len
  rw [length_hexEncode, List.length_replicate]
  omega

theorem fabricatedId_injective {i j : Nat} (hi : i < 256) (hj : j < 256)
    (h : fabricatedId i = fabricatedId j) : i = j := by
  have hbyte : UInt8.ofNat i = UInt8.ofNat j := (List.replicate_inj.mp h).2.resolve_left (by decide)
  have hnat := congrArg UInt8.toNat hbyte
  rw [UInt8.toNat_ofNat_of_lt' hi, UInt8.toNat_ofNat_of_lt' hj] at hnat
  exact hnat

/-- Up to 256 seeds are all stored, each in a queue of its own, if their bytes fit. -/
theorem enqueueSeeds_flood (key : Key) (frame : PendingFrame) {n : Nat} (hn : n ≤ 256)
    (hroom : n * (frame.byteLen + 33) ≤ MAX_PENDING_TOTAL_BYTES) :
    (enqueueSeeds (flood frame n) (production key)).queues.len = n ∧
      (enqueueSeeds (flood frame n) (production key)).totalFrames = n ∧
      (enqueueSeeds (flood frame n) (production key)).totalBytes = n * (frame.byteLen + 33) ∧
      ∀ i, n ≤ i → i < 256 →
        (enqueueSeeds (flood frame n) (production key)).queues.lookup (fabricatedId i) = none := by
  induction n with
  | zero => exact ⟨rfl, rfl, (Nat.zero_mul _).symm, fun _ _ _ => rfl⟩
  | succ n ih =>
    rw [Nat.succ_mul] at hroom ⊢
    obtain ⟨hlen, hframes, hbytes, hnone⟩ := ih (Nat.le_of_succ_le hn) (by omega)
    have hsplit : flood frame (n + 1) = flood frame n ++ [(fabricatedId n, frame)] := by
      rw [flood, List.range_succ, List.map_append]
      rfl
    obtain ⟨hcaps, _⟩ := enqueueSeeds_spec (flood frame n) (production key) (Nat.zero_le _)
    rw [hsplit, enqueueSeeds_concat]
    generalize enqueueSeeds (flood frame n) (production key) = store
      at hlen hframes hbytes hnone hcaps ⊢
    have hlook := hnone n (Nat.le_refl n) hn
    have hmax : store.maxDistinctPeers = 1024 ∧ store.maxTotalFrames = 16384 ∧
        store.maxTotalBytes = MAX_PENDING_TOTAL_BYTES :=
      ⟨congrArg Caps.maxDistinctPeers hcaps, congrArg Caps.maxTotalFrames hcaps,
        congrArg Caps.maxTotalBytes hcaps⟩
    have hid : (fabricatedId n).length = 33 := List.length_replicate
    have hstored : (store.enqueueSeed (fabricatedId n) frame).2 = .stored := by
      have hcap : seedDistinctPeersCap 1024 = 768 := rfl
      rw [enqueueSeed, enqueueInner_fresh hlook, hmax.1, hmax.2.1, hmax.2.2, hcap, hid, hlen,
        hframes, hbytes]
      omega
    have hshape := enqueueInner_enqueued store (fabricatedId n)
      (fun q hq => by rw [hlook] at hq; cases hq) frame
      (seedDistinctPeersCap store.maxDistinctPeers)
    rw [enqueueSeed] at hstored ⊢
    generalize store.enqueueInner (fabricatedId n) frame
      (seedDistinctPeersCap store.maxDistinctPeers) = r at hshape hstored ⊢
    cases hshape with
    | refused => cases hstored
    | room hlook' _ _ _ => rw [hlook] at hlook'; cases hlook'
    | full hlook' _ _ => rw [hlook] at hlook'; cases hlook'
    | fresh =>
      have hqueues := AList.total_insert (fun _ _ => 1) store.queues (fabricatedId n) [frame]
      have hcount := AList.total_insert (fun _ q => q.length) store.queues (fabricatedId n) [frame]
      have htotal := AList.total_insert queueBytes store.queues (fabricatedId n) [frame]
      rw [← AList.len_eq_total, ← AList.len_eq_total] at hqueues
      have hnew : queueBytes (fabricatedId n) [frame] = frame.byteLen + 33 := by
        rw [queueBytes, List.map_singleton, List.sum_singleton, hid]
      have hframes' : store.queues.total (fun _ q => q.length) = n := hframes
      rw [totalBytes_eq] at hbytes
      rw [hlook] at hqueues hcount htotal
      simp only [Option.map_none, Option.getD_none, List.length_singleton] at hqueues hcount htotal
      rw [totalBytes_eq]
      refine ⟨?_, ?_, ?_, fun i hi hlt => ?_⟩
      · show (store.queues.insert _ _).len = n + 1
        omega
      · show (store.queues.insert _ _).total (fun _ q => q.length) = n + 1
        omega
      · show (store.queues.insert _ _).total queueBytes = _
        omega
      · show (store.queues.insert _ _).lookup _ = none
        rw [AList.lookup_insert_of_eq_or_ne, if_neg, hnone i (by omega) hlt]
        intro heq
        have := fabricatedId_injective hlt (by omega) heq
        omega

/-- A flood that leaves less than a frame needs keeps that frame out. -/
theorem flood_shuts_out (key : Key) (seed frame : PendingFrame) {n i : Nat} (hn : n ≤ i)
    (hi : i < 256) (hroom : n * (seed.byteLen + 33) ≤ MAX_PENDING_TOTAL_BYTES)
    (hfull : MAX_PENDING_TOTAL_BYTES < n * (seed.byteLen + 33) + (frame.byteLen + 33)) :
    (enqueueSeeds (flood seed n) (production key)).queues.lookup (fabricatedId i) = none ∧
      ((enqueueSeeds (flood seed n) (production key)).enqueue (fabricatedId i) frame).2 =
        .rejectedGlobalCap := by
  obtain ⟨_, _, hbytes, hnone⟩ :=
    enqueueSeeds_flood key seed (Nat.le_of_lt (Nat.lt_of_le_of_lt hn hi)) hroom
  obtain ⟨hcaps, _⟩ := enqueueSeeds_spec (flood seed n) (production key) (Nat.zero_le _)
  generalize enqueueSeeds (flood seed n) (production key) = store at hbytes hnone hcaps ⊢
  have hlook := hnone i hn hi
  have hmax : store.maxTotalBytes = MAX_PENDING_TOTAL_BYTES := congrArg Caps.maxTotalBytes hcaps
  have hid : (fabricatedId i).length = 33 := List.length_replicate
  have hrefused : (store.enqueue (fabricatedId i) frame).2 ≠ .stored := by
    rw [enqueue, Ne, enqueueInner_fresh hlook, hbytes, hmax, hid]
    rintro ⟨_, _, hfits⟩
    omega
  refine ⟨hlook, ?_⟩
  cases houtcome : (store.enqueue (fabricatedId i) frame).2 with
  | stored => exact absurd houtcome hrefused
  | rejectedGlobalCap => rfl

/-- 64 seeds of a mebibyte less 100 bytes each, for 64 recipients, leave 4288 of
the 67108864 bytes: a token-authorised frame of 8192 bytes for a recipient
without a queue is refused. -/
theorem seed_flood_shuts_out_authorised_frame :
    ((zeroFrame 1048476).byteLen ≤ MAX_FRAME_BYTES ∧ (zeroFrame 8192).byteLen ≤ MAX_FRAME_BYTES) ∧
      (enqueueSeeds (flood (zeroFrame 1048476) 64)
        (production (FixedBytes.replicate KEY_LEN 0))).queues.lookup (fabricatedId 200) = none ∧
      ((enqueueSeeds (flood (zeroFrame 1048476) 64)
          (production (FixedBytes.replicate KEY_LEN 0))).enqueue
        (fabricatedId 200) (zeroFrame 8192)).2 = .rejectedGlobalCap := by
  have hmib : MAX_FRAME_BYTES = 1048576 := rfl
  have hcap : MAX_PENDING_TOTAL_BYTES = 67108864 := rfl
  refine ⟨?_, flood_shuts_out _ _ _ (by decide) (by decide) ?_ ?_⟩
  · rw [byteLen_zeroFrame, byteLen_zeroFrame, hmib]
    omega
  · rw [byteLen_zeroFrame, hcap]
    omega
  · rw [byteLen_zeroFrame, byteLen_zeroFrame, hcap]
    omega

end PendingStore

end Pizzini.Relay
