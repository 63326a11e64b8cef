import Mathlib.Algebra.Order.BigOperators.Group.List
import Mathlib.Algebra.Order.Ring.Nat
import Pizzini.Relay.PlainPending

/-!
# The ceilings of the offline queue

`Within caps queues`: the queues respect the per-peer cap and the three global
ceilings. Removing frames keeps that (`Within.thin`), and so do `drain`,
`gc_expired` and a restart; an enqueue keeps it because its three checks add up
(`enqueueInner_within`): a refused distinct peer, a frame that takes no new
slot when its recipient's queue is full, and bytes counted with the key of a
new recipient and without the frame that an eviction frees. By induction over
the run, every reachable store is within its caps (`offline_queue_bounded`).

The checks add sizes as `usize`. With caps near its end the sum of the byte check
could leave that type, and the release build, with overflow checks, would abort;
the model adds in `Nat`.
-/

namespace Pizzini.Relay

open Runs Wire

namespace PendingStore

/-! ## Eviction -/

theorem evict_of_lt {F : Type} {cap : Nat} {q : List F} (h : q.length < cap) :
    evict cap q = q := by
  cases q with
  | nil => rfl
  | cons f rest =>
    rw [List.length_cons] at h
    unfold evict
    rw [if_neg (Nat.not_le_of_lt h)]

/-- A full queue loses its oldest frame. -/
theorem evict_full {F : Type} {cap : Nat} {f : F} {rest : List F} (h : rest.length + 1 = cap) :
    evict cap (f :: rest) = rest := by
  unfold evict
  rw [if_pos (Nat.le_of_eq h.symm)]
  exact evict_of_lt (by omega)

/-! ## Queues within caps -/

/-- What a queue adds to `total_bytes`: its frames, and its key once. -/
def queueBytes (peerId : PeerId) (q : List PendingFrame) : Nat :=
  (q.map PendingFrame.byteLen).sum + peerId.length

/-- The queues respect the caps, and hold frames made by `PendingFrame::new`. -/
structure Within (caps : Caps) (queues : Dict PeerId (List PendingFrame)) : Prop where
  distinct : queues.len ≤ caps.maxDistinctPeers
  perPeer : ∀ p q, queues.lookup p = some q → q.length ≤ caps.maxPerPeer
  frames : queues.total (fun _ q => q.length) ≤ caps.maxTotalFrames
  bytes : queues.total queueBytes ≤ caps.maxTotalBytes
  made : ∀ p q, queues.lookup p = some q → ∀ f ∈ q, ∃ a : Arrival, f = a.frame

theorem totalBytes_eq (store : PendingStore PendingFrame) :
    store.totalBytes = store.queues.total queueBytes := by
  show (store.queues.entries.map fun e => (e.2.map PendingFrame.byteLen).sum).sum +
    (store.queues.entries.map fun e => e.1.length).sum = (store.queues.entries.map _).sum
  induction store.queues.entries with
  | nil => rfl
  | cons e entries ih =>
    simp only [List.map_cons, List.sum_cons, queueBytes] at ih ⊢
    omega

theorem within_empty (caps : Caps) : Within caps ∅ where
  distinct := Nat.zero_le _
  perPeer _ _ h := by cases h
  frames := Nat.zero_le _
  bytes := Nat.zero_le _
  made _ _ h := by cases h

/-- Queues that lost frames, or whole queues, stay within the caps. -/
theorem Within.thin {caps : Caps} {queues queues' : Dict PeerId (List PendingFrame)}
    (h : Within caps queues)
    (hsub : ∀ p q, queues'.lookup p = some q →
      ∃ q', queues.lookup p = some q' ∧ q.Sublist q') : Within caps queues' := by
  refine ⟨?_, fun p q hq => ?_, ?_, ?_, fun p q hq f hf => ?_⟩
  · rw [AList.len_eq_total]
    refine Nat.le_trans (AList.total_le fun p q hq => ?_)
      (by rw [← AList.len_eq_total]; exact h.distinct)
    obtain ⟨q', hq', _⟩ := hsub p q hq
    exact ⟨q', hq', Nat.le_refl _⟩
  · obtain ⟨q', hq', hle⟩ := hsub p q hq
    exact Nat.le_trans hle.length_le (h.perPeer p q' hq')
  · refine Nat.le_trans (AList.total_le fun p q hq => ?_) h.frames
    obtain ⟨q', hq', hle⟩ := hsub p q hq
    exact ⟨q', hq', hle.length_le⟩
  · refine Nat.le_trans (AList.total_le fun p q hq => ?_) h.bytes
    obtain ⟨q', hq', hle⟩ := hsub p q hq
    exact ⟨q', hq', Nat.add_le_add_right ((hle.map _).sum_le_sum fun _ _ => Nat.zero_le _) _⟩
  · obtain ⟨q', hq', hle⟩ := hsub p q hq
    exact h.made p q' hq' f (hle.subset hf)

/-- The live part of queues within caps is within caps. -/
theorem Within.live {caps : Caps} {queues loaded : Dict PeerId (List PendingFrame)}
    (h : Within caps queues) {now : UInt64}
    (hload : ∀ p, loaded.lookup p = liveQueue now (queues.lookup p)) : Within caps loaded := by
  refine h.thin fun p q hq => ?_
  rw [hload] at hq
  obtain ⟨q', hq', rfl, _⟩ := liveQueue_eq_some.mp hq
  exact ⟨q', hq', List.filter_sublist⟩

/-! ## One call -/

/-- What an enqueue finds, and what it does then, in a store whose queues are
no longer than its cap: it refuses the frame, or the recipient is new, or its
queue has room, or its queue is full. -/
inductive Enqueued (store : PendingStore PendingFrame) (peerId : PeerId) (frame : PendingFrame)
    (cap : Nat) : PendingStore PendingFrame × EnqueueOutcome → Prop where
  | refused : Enqueued store peerId frame cap (store, .rejectedGlobalCap)
  | fresh (hlook : store.queues.lookup peerId = none) (hdistinct : store.queues.len < cap)
      (hframes : store.totalFrames < store.maxTotalFrames)
      (hbytes : store.totalBytes + (frame.byteLen + peerId.length) ≤ store.maxTotalBytes) :
      Enqueued store peerId frame cap
        ({ store with
            queues := store.queues.insert peerId [frame]
            dirty := true }, .stored)
  | room {q : List PendingFrame} (hlook : store.queues.lookup peerId = some q)
      (hroom : q.length < store.maxPerPeer) (hframes : store.totalFrames < store.maxTotalFrames)
      (hbytes : store.totalBytes + frame.byteLen ≤ store.maxTotalBytes) :
      Enqueued store peerId frame cap
        ({ store with
            queues := store.queues.insert peerId (q ++ [frame])
            dirty := true }, .stored)
  | full {oldest : PendingFrame} {rest : List PendingFrame}
      (hlook : store.queues.lookup peerId = some (oldest :: rest))
      (hfull : rest.length + 1 = store.maxPerPeer)
      (hbytes : store.totalBytes + frame.byteLen ≤ store.maxTotalBytes + oldest.byteLen) :
      Enqueued store peerId frame cap
        ({ store with
            queues := store.queues.insert peerId (rest ++ [frame])
            dirty := true }, .stored)

theorem enqueueInner_enqueued (store : PendingStore PendingFrame) (peerId : PeerId)
    (hlen : ∀ q, store.queues.lookup peerId = some q → q.length ≤ store.maxPerPeer)
    (frame : PendingFrame) (cap : Nat) :
    Enqueued store peerId frame cap (store.enqueueInner peerId frame cap) := by
  have hpos := store.perPeerPos
  have hentry : Queued.entry frame = frame := rfl
  unfold enqueueInner
  split
  · exact .refused
  next hdistinct =>
  split
  · exact .refused
  next hframes =>
  split
  · exact .refused
  next hbytes =>
  cases hlook : store.queues.lookup peerId with
  | none =>
    simp only [isNewPeer, perPeerEviction, incoming, reclaimed, queue, hlook, hentry,
      Option.isNone_none, Option.getD_none, List.length_nil, Nat.not_le_of_lt hpos, decide_false,
      Bool.false_eq_true, not_false_eq_true, true_and, if_true, if_false] at hdistinct hframes hbytes
    have hevict : evict store.maxPerPeer (store.queue peerId) = [] := by
      rw [queue, hlook]
      rfl
    rw [hevict]
    exact .fresh hlook (by omega) (by omega) (by omega)
  | some q =>
    have hq : store.queue peerId = q := by
      rw [queue, hlook]
      rfl
    rw [hq]
    simp only [isNewPeer, perPeerEviction, incoming, reclaimed, hq, hlook, hentry,
      Option.isNone_some] at hdistinct hframes hbytes
    by_cases hfull : store.maxPerPeer ≤ q.length
    · cases q with
      | nil => exact absurd hfull (Nat.not_le_of_lt hpos)
      | cons oldest rest =>
        have hcap : rest.length + 1 = store.maxPerPeer := by
          have := hlen _ hlook
          rw [List.length_cons] at this hfull
          omega
        rw [evict_full hcap]
        refine .full hlook hcap ?_
        have hoption : ((some oldest).map fun f => (Queued.entry f).byteLen).getD 0 =
            oldest.byteLen := rfl
        simp only [hfull, decide_true, if_true, List.head?_cons, hoption, Bool.false_eq_true,
          if_false] at hbytes
        omega
    · rw [evict_of_lt (Nat.lt_of_not_le hfull)]
      simp only [hfull, decide_false, Bool.false_eq_true, not_false_eq_true, true_and,
        if_false] at hframes hbytes
      exact .room hlook (Nat.lt_of_not_le hfull) (by omega) (by omega)

/-- The first frame for a peer is stored exactly if there is a slot for its
queue, one for the frame, and room for the bytes of both. -/
theorem enqueueInner_fresh {store : PendingStore PendingFrame} {peerId : PeerId}
    (hlook : store.queues.lookup peerId = none) (frame : PendingFrame) (cap : Nat) :
    (store.enqueueInner peerId frame cap).2 = .stored ↔
      store.queues.len < cap ∧ store.totalFrames < store.maxTotalFrames ∧
        store.totalBytes + (frame.byteLen + peerId.length) ≤ store.maxTotalBytes := by
  have hentry : Queued.entry frame = frame := rfl
  have hroom : ¬ store.maxPerPeer ≤ 0 := Nat.not_le_of_lt store.perPeerPos
  unfold enqueueInner
  simp only [isNewPeer, perPeerEviction, incoming, reclaimed, queue, hlook, hentry,
    Option.isNone_none, Option.getD_none, List.length_nil, hroom, decide_false, Bool.false_eq_true,
    not_false_eq_true, true_and, if_true, if_false]
  split
  · exact ⟨fun h => (by cases h), fun h => absurd h.1 (by omega)⟩
  · split
    · exact ⟨fun h => (by cases h), fun h => absurd h.2.1 (by omega)⟩
    · split
      · exact ⟨fun h => (by cases h), fun h => absurd h.2.2 (by omega)⟩
      · exact ⟨fun _ => ⟨by omega, by omega, by omega⟩, fun _ => rfl⟩

/-- A queue put in the place of another one, measured in queues, in frames and
in bytes. -/
theorem Within.insert {caps : Caps} {queues : Dict PeerId (List PendingFrame)}
    (h : Within caps queues) {peerId : PeerId} {kept : List PendingFrame} {a : Arrival}
    (hkept : ∀ f ∈ kept, ∃ a : Arrival, f = a.frame) (hlen : kept.length < caps.maxPerPeer)
    (hdistinct : queues.len + 1 ≤
      caps.maxDistinctPeers + ((queues.lookup peerId).map fun _ => 1).getD 0)
    (hframes : queues.total (fun _ q => q.length) + (kept.length + 1) ≤
      caps.maxTotalFrames + ((queues.lookup peerId).map fun q => q.length).getD 0)
    (hbytes : queues.total queueBytes +
        ((kept.map PendingFrame.byteLen).sum + a.frame.byteLen + peerId.length) ≤
      caps.maxTotalBytes + ((queues.lookup peerId).map (queueBytes peerId)).getD 0) :
    Within caps (queues.insert peerId (kept ++ [a.frame])) := by
  have hqueues := AList.total_insert (fun _ _ => 1) queues peerId (kept ++ [a.frame])
  have hcount := AList.total_insert (fun _ q => q.length) queues peerId (kept ++ [a.frame])
  have hsize := AList.total_insert queueBytes queues peerId (kept ++ [a.frame])
  rw [← AList.len_eq_total, ← AList.len_eq_total] at hqueues
  have hlength : (kept ++ [a.frame]).length = kept.length + 1 := List.length_append
  have hnew : queueBytes peerId (kept ++ [a.frame]) =
      (kept.map PendingFrame.byteLen).sum + a.frame.byteLen + peerId.length := by
    rw [queueBytes, List.map_append, List.sum_append]
    rfl
  refine ⟨by omega, fun p q hq => ?_, by omega, by omega, fun p q hq => ?_⟩
  · rw [AList.lookup_insert_of_eq_or_ne] at hq
    split at hq
    · cases hq
      omega
    · exact h.perPeer p q hq
  · rw [AList.lookup_insert_of_eq_or_ne] at hq
    split at hq
    · cases hq
      intro f hf
      rcases List.mem_append.mp hf with hf | hf
      · exact hkept f hf
      · exact ⟨a, List.mem_singleton.mp hf⟩
    · exact h.made p q hq

/-- The three checks of `enqueue_inner` keep every cap. -/
theorem enqueueInner_within {store : PendingStore PendingFrame}
    (h : Within store.caps store.queues) (peerId : PeerId) (a : Arrival) {cap : Nat}
    (hcap : cap ≤ store.maxDistinctPeers) :
    Within store.caps (store.enqueueInner peerId a.frame cap).1.queues := by
  have hshape := enqueueInner_enqueued store peerId (h.perPeer peerId) a.frame cap
  generalize store.enqueueInner peerId a.frame cap = r at hshape ⊢
  have hmax : store.caps.maxPerPeer = store.maxPerPeer ∧
      store.caps.maxDistinctPeers = store.maxDistinctPeers ∧
      store.caps.maxTotalFrames = store.maxTotalFrames ∧
      store.caps.maxTotalBytes = store.maxTotalBytes := ⟨rfl, rfl, rfl, rfl⟩
  have hpos := store.perPeerPos
  have hlen := h.distinct
  have hframes' := h.frames
  have hframes : store.totalFrames = store.queues.total fun _ q => q.length := rfl
  cases hshape with
  | refused => exact h
  | fresh hlook hdistinct hcount hbytes =>
    rw [totalBytes_eq] at hbytes
    have hnone : ∀ f ∈ ([] : List PendingFrame), ∃ a : Arrival, f = a.frame := by
      intro f hf
      cases hf
    refine h.insert hnone (by simp only [List.length_nil]; omega) ?_ ?_ ?_ <;> rw [hlook] <;>
      simp only [Option.map_none, Option.getD_none, List.length_nil, List.map_nil, List.sum_nil] <;>
      omega
  | room hlook hroom hcount hbytes =>
    rw [totalBytes_eq] at hbytes
    refine h.insert (h.made peerId _ hlook) (by omega) ?_ ?_ ?_ <;> rw [hlook] <;>
      simp only [Option.map_some, Option.getD_some, queueBytes] <;> omega
  | full hlook hfull hbytes =>
    rw [totalBytes_eq] at hbytes
    refine h.insert (fun f hf => h.made peerId _ hlook f (List.mem_cons_of_mem _ hf)) (by omega)
      ?_ ?_ ?_ <;> rw [hlook] <;>
      simp only [Option.map_some, Option.getD_some, queueBytes, List.length_cons, List.map_cons,
        List.sum_cons] <;> omega

theorem drain_within {store : PendingStore PendingFrame} {caps : Caps}
    (h : Within caps store.queues) (now : UInt64) (peerId : PeerId) :
    Within caps (store.drain now peerId).1.queues := by
  unfold drain
  cases store.queues.lookup peerId with
  | none => exact h
  | some _ =>
    refine h.thin fun p q hq => ⟨q, ?_, List.Sublist.refl q⟩
    by_cases hp : p = peerId
    · subst hp
      rw [AList.lookup_erase] at hq
      cases hq
    · rw [AList.lookup_erase_ne hp] at hq
      exact hq

theorem gcExpired_within {store : PendingStore PendingFrame} {caps : Caps}
    (h : Within caps store.queues) (now : UInt64) :
    Within caps (store.gcExpired now).1.queues := by
  refine h.thin fun p q hq => ?_
  simp only [gcExpired, AList.lookup_retain, AList.lookup_mapVals, Option.filter_eq_some_iff,
    Option.map_eq_some_iff] at hq
  obtain ⟨⟨q', hq', rfl⟩, _⟩ := hq
  exact ⟨q', hq', List.filter_sublist⟩

end PendingStore

/-! ## Every run -/

namespace OfflineQueue

open PendingStore

variable {env : PendingEnv}

/-- The queues in memory and those on disk are within the caps. -/
structure Bounded (env : PendingEnv) (caps : Caps) (s : OfflineQueue) : Prop where
  caps_eq : s.store.caps = caps
  memory : Within caps s.store.queues
  disk : ∃ saved, Saved env s.disk s.store.key saved ∧ Within caps saved

theorem Started.bounded {s : OfflineQueue} (h : Started s) : Bounded env s.store.caps s where
  caps_eq := rfl
  memory := by
    rw [h.queues]
    exact within_empty _
  disk := ⟨∅, h.saved, within_empty _⟩

/-- A call that only changes the queues in memory, within the caps. -/
theorem Bounded.withStore {caps : Caps} {s s' : OfflineQueue} (h : Bounded env caps s)
    (hdisk : s'.disk = s.disk) (hkey : s'.store.key = s.store.key)
    (hcaps : s'.store.caps = s.store.caps) (hwithin : Within caps s'.store.queues) :
    Bounded env caps s' where
  caps_eq := hcaps.trans h.caps_eq
  memory := hwithin
  disk := by
    rw [hdisk, hkey]
    exact h.disk

/-- What a flush or a drop leaves on disk is within the caps. -/
theorem Bounded.written {caps : Caps} {s : OfflineQueue} (h : Bounded env caps s)
    {saved : Dict PeerId (List PendingFrame)} (hsaved : Within caps saved) :
    Within caps (s.store.written saved) := by
  unfold PendingStore.written
  split
  · exact h.memory
  · exact hsaved

theorem Bounded.step (henv : env.Lawful) {caps : Caps} {s s' : OfflineQueue} {call : QueueCall}
    (h : Bounded env caps s) (hstep : Step env s call s') : Bounded env caps s' := by
  have hwithin : Within s.store.caps s.store.queues := by
    rw [h.caps_eq]
    exact h.memory
  cases hstep with
  | @enqueue peerId a =>
    obtain ⟨hkey, hcaps⟩ := s.store.enqueueInner_fields peerId a.frame s.store.maxDistinctPeers
    refine h.withStore rfl hkey hcaps ?_
    rw [← h.caps_eq]
    exact enqueueInner_within hwithin peerId a (Nat.le_refl _)
  | @enqueueSeed peerId a =>
    obtain ⟨hkey, hcaps⟩ := s.store.enqueueInner_fields peerId a.frame
      (seedDistinctPeersCap s.store.maxDistinctPeers)
    refine h.withStore rfl hkey hcaps ?_
    rw [← h.caps_eq]
    exact enqueueInner_within hwithin peerId a (Nat.sub_le _ _)
  | @drain peerId now =>
    obtain ⟨hkey, hcaps, _⟩ := s.store.drain_fields now peerId
    exact h.withStore rfl hkey hcaps (drain_within h.memory now peerId)
  | @gcExpired now => exact h.withStore rfl rfl rfl (gcExpired_within h.memory now)
  | @flush nonce =>
    obtain ⟨saved, hsaved, hbounded⟩ := h.disk
    rw [flush_eq]
    exact ⟨h.caps_eq, h.memory, _, saved_drop hsaved nonce, h.written hbounded⟩
  | @reload now nonce fresh store disk hopen =>
    obtain ⟨saved, hsaved, hbounded⟩ := h.disk
    obtain ⟨loaded, hload, heq⟩ := reopen_saved henv hsaved nonce fresh now
    rw [heq] at hopen
    cases hopen
    exact ⟨h.caps_eq, (h.written hbounded).live hload, _, saved_drop hsaved nonce,
      h.written hbounded⟩

/-- The bytes a relay holds for its offline peers: the frames as they will be
forwarded, and each queue's key. -/
def decodedBytes (queues : Dict PeerId (List PendingFrame)) : Nat :=
  queues.total fun p q => (q.map fun f => f.bytes.length).sum + p.length

/-- The length that `byte_len` reads off the hex text is that of the frame. -/
theorem byteLen_frame (a : Arrival) : a.frame.byteLen = a.frame.bytes.length := by
  show (hexEncode a.1).length / 2 = (PendingFrame.new a.1 a.2).bytes.length
  rw [PendingFrame.bytes_new, length_hexEncode]
  omega

theorem decodedBytes_eq_of_within {caps : Caps} {queues : Dict PeerId (List PendingFrame)}
    (h : Within caps queues) : queues.total queueBytes = decodedBytes queues := by
  unfold AList.total decodedBytes AList.total
  refine congrArg List.sum (List.map_congr_left fun e he => ?_)
  unfold queueBytes
  refine congrArg (fun n => List.sum n + e.1.length) (List.map_congr_left fun f hf => ?_)
  obtain ⟨a, rfl⟩ := h.made e.1 e.2 (AList.lookup_eq_some_iff.mpr he) f hf
  exact byteLen_frame a

/-- In every state that a run reaches from an empty store, the four caps hold;
a frame refused there changes nothing, and a frame for one peer leaves the
other peers' queues alone. -/
theorem offline_queue_bounded (henv : env.Lawful) {s₀ s : OfflineQueue} (h₀ : Started s₀)
    (hrun : Reach (Step env) (fun _ _ => True) s₀ s) :
    s.store.queues.len ≤ s₀.store.maxDistinctPeers ∧
      (∀ p q, s.store.queues.lookup p = some q → q.length ≤ s₀.store.maxPerPeer) ∧
      s.store.totalFrames ≤ s₀.store.maxTotalFrames ∧
      s.store.totalBytes ≤ s₀.store.maxTotalBytes ∧
      s.store.totalBytes = decodedBytes s.store.queues ∧
      ∀ peerId frame r,
        r = s.store.enqueue peerId frame ∨ r = s.store.enqueueSeed peerId frame →
        (r.2 = .rejectedGlobalCap → r.1 = s.store) ∧
          ∀ p ≠ peerId, r.1.queues.lookup p = s.store.queues.lookup p := by
  have hbounded : Bounded env s₀.store.caps s :=
    hrun.invariant (Bounded env s₀.store.caps) (fun h _ hstep => h.step henv hstep) h₀.bounded
  have hmemory := hbounded.memory
  refine ⟨hmemory.distinct, hmemory.perPeer, hmemory.frames, ?_, ?_, ?_⟩
  · rw [totalBytes_eq]
    exact hmemory.bytes
  · rw [totalBytes_eq]
    exact decodedBytes_eq_of_within hmemory
  · rintro peerId frame r (rfl | rfl)
    · exact ⟨enqueueInner_rejected, fun p hne => s.store.enqueueInner_lookup_ne hne frame _⟩
    · exact ⟨enqueueInner_rejected, fun p hne => s.store.enqueueInner_lookup_ne hne frame _⟩

/-- At its byte ceiling the full queue still rotates, and another recipient is
refused. -/
theorem offline_queue_bounded_at_byte_ceiling :
    ((enqueued (enqueued (enqueued smallStart [7] 1) [7] 2) [7] 3).store.totalBytes ≤ 5 ∧
      ((enqueued (enqueued smallStart [7] 1) [7] 2).store.queue [7]).map PendingFrame.bytes =
        [[1, 1], [2, 2]] ∧
      ((enqueued (enqueued (enqueued smallStart [7] 1) [7] 2) [7] 3).store.queue [7]).map
        PendingFrame.bytes = [[2, 2], [3, 3]]) ∧
      (enqueued (enqueued (enqueued smallStart [7] 1) [7] 2) [8] 3).store.queues.lookup [8] =
        none := by
  have hrun : Reach (Step plainPendingEnv) (fun _ _ => True) smallStart
      (enqueued (enqueued (enqueued smallStart [7] 1) [7] 2) [7] 3) :=
    ((Reach.refl.snoc .enqueue trivial).snoc .enqueue trivial).snoc .enqueue trivial
  have hbounded := offline_queue_bounded plainPendingEnv_lawful (started_started ..) hrun
  exact ⟨⟨hbounded.2.2.2.1, by decide +kernel, by decide +kernel⟩, by decide +kernel⟩

end OfflineQueue

end Pizzini.Relay
