import Pizzini.Lib.Thinned
import Pizzini.Relay.PlainPending

/-!
# Order and completeness of the offline queue

What was `Stored` for a peer since its last drain splits into an evicted front
and a kept rest, and its queue is the rest without frames that have expired
(`Arranged`). A full queue evicts its oldest frame only when it holds, with the
new one, as many frames as the per-peer cap, so at least that many frames were
stored after an evicted one. Expired frames may have been removed anywhere in
the rest, since senders choose the expiries. A restart loads the live part of
what was last written, which is what the memory holds, less expired frames
(`Orderly`).
-/

namespace Pizzini.Relay

open Runs Wire

/-! ## Eviction -/

namespace PendingStore

theorem length_evict_lt {F : Type} {cap : Nat} (hpos : 0 < cap) (q : List F) :
    (evict cap q).length < cap := by
  induction q with
  | nil => exact hpos
  | cons f rest ih =>
    unfold evict
    split
    · exact ih
    · next hroom => exact Nat.lt_of_not_le hroom

/-- The loop pops frames only until one slot is free. -/
theorem evict_split {F : Type} {cap : Nat} (hpos : 0 < cap) (q : List F) :
    ∃ gone, q = gone ++ evict cap q ∧ (gone ≠ [] → (evict cap q).length + 1 = cap) := by
  induction q with
  | nil => exact ⟨[], rfl, fun h => absurd rfl h⟩
  | cons f rest ih =>
    unfold evict
    split
    · next hfull =>
      obtain ⟨gone, hsplit, hlen⟩ := ih
      refine ⟨f :: gone, by rw [List.cons_append, ← hsplit], fun _ => ?_⟩
      cases gone with
      | nil =>
        rw [List.nil_append] at hsplit
        have hlt := length_evict_lt hpos rest
        rw [← hsplit] at hlt ⊢
        omega
      | cons _ _ => exact hlen (List.cons_ne_nil _ _)
    · exact ⟨[], rfl, fun h => absurd rfl h⟩

end PendingStore

/-! ## The queue of one peer -/

/-- A frame has expired by `now`. -/
def Dead (now : UInt64) (f : PendingFrame) : Prop := f.isExpired now = true

theorem Dead.later {now now' : UInt64} (h : now ≤ now') {f : PendingFrame} (hf : Dead now f) :
    Dead now' f := by
  unfold Dead PendingFrame.isExpired at hf ⊢
  rw [decide_eq_true_iff] at hf ⊢
  exact UInt64.le_trans hf h

/-- Removing expired frames removes dead ones only. -/
theorem thinned_live (now : UInt64) (q : List PendingFrame) :
    Thinned (Dead now) q (q.filter fun f => !f.isExpired now) :=
  Thinned.filter (fun f hf => by rwa [Bool.not_eq_false'] at hf) q

/-- A test for live frames does not see what was dead before. -/
theorem live_eq_of_thinned {now now' : UInt64} (hnow : now ≤ now') {l q : List PendingFrame}
    (h : Thinned (Dead now) l q) :
    (q.filter fun f => !f.isExpired now') = l.filter fun f => !f.isExpired now' :=
  h.filter_eq fun f hf => by
    have hlate : f.isExpired now' = true := Dead.later hnow hf
    rw [hlate]
    rfl

/-- `queue` holds the last of `arrivals`, less expired frames. An evicted
arrival was followed by `cap` others at least. -/
def Arranged (cap : Nat) (now : UInt64) (arrivals : List Arrival) (queue : List PendingFrame) :
    Prop :=
  ∃ evicted kept, arrivals = evicted ++ kept ∧ Thinned (Dead now) (kept.map Arrival.frame) queue ∧
    (evicted ≠ [] → cap ≤ kept.length)

namespace Arranged

variable {cap : Nat} {now now' : UInt64} {arrivals : List Arrival} {queue queue' : List PendingFrame}

theorem nil (cap : Nat) (now : UInt64) : Arranged cap now [] [] :=
  ⟨[], [], rfl, .nil, fun h => absurd rfl h⟩

/-- More frames expire, and may be removed. -/
theorem thin (h : Arranged cap now arrivals queue) (hnow : now ≤ now')
    (hqueue : Thinned (Dead now') queue queue') : Arranged cap now' arrivals queue' := by
  obtain ⟨evicted, kept, harr, hthin, hcap⟩ := h
  exact ⟨evicted, kept, harr, (hthin.mono fun f hf => hf.later hnow).trans hqueue, hcap⟩

/-- A stored frame: a queue below its cap just grows, a full one loses its
oldest frame, and with it the arrivals up to that frame. -/
theorem store (h : Arranged cap now arrivals queue) (hcap : 0 < cap) (a : Arrival) :
    Arranged cap now (arrivals ++ [a]) (PendingStore.evict cap queue ++ [a.frame]) := by
  obtain ⟨evicted, kept, rfl, hthin, hevicted⟩ := h
  obtain ⟨gone, hgone, hlen⟩ := PendingStore.evict_split hcap queue
  have hnew : Thinned (Dead now) ([a].map Arrival.frame) [a.frame] := Thinned.refl _
  cases hgone' : gone with
  | nil =>
    -- room in the queue: nothing is evicted
    rw [hgone', List.nil_append] at hgone
    rw [← hgone]
    refine ⟨evicted, kept ++ [a], (List.append_assoc _ _ _).symm ▸ rfl, ?_, fun hne => ?_⟩
    · rw [List.map_append]
      exact hthin.append hnew
    · rw [List.length_append]
      exact Nat.le_add_right_of_le (hevicted hne)
  | cons oldest more =>
    -- a full queue: cut the arrivals where the queue is cut
    have hfull := hlen (by rw [hgone']; exact List.cons_ne_nil _ _)
    rw [hgone] at hthin
    obtain ⟨l₁, l₂, hcut, -, hrest⟩ := hthin.split
    obtain ⟨k₁, k₂, rfl, rfl, rfl⟩ := List.map_eq_append_iff.mp hcut
    refine ⟨evicted ++ k₁, k₂ ++ [a], by simp only [List.append_assoc], ?_, fun _ => ?_⟩
    · rw [List.map_append]
      exact hrest.append hnew
    · have hle := hrest.length_le
      rw [List.length_map] at hle
      rw [List.length_append, List.length_singleton]
      omega

/-- What a drain returns. -/
theorem drained (h : Arranged cap now arrivals queue) (hnow : now ≤ now') :
    ∃ evicted kept, arrivals = evicted ++ kept ∧
      (queue.filter fun f => !f.isExpired now').map (fun f => (f.bytes, f.expiresAtUnix)) =
        kept.filter (fun a => !decide (a.2 ≤ now')) ∧
      (evicted ≠ [] → cap ≤ kept.length) := by
  obtain ⟨evicted, kept, harr, hthin, hcap⟩ := h
  refine ⟨evicted, kept, harr, ?_, hcap⟩
  rw [live_eq_of_thinned hnow hthin, List.filter_map, List.map_map]
  have hround : ∀ a : Arrival, (a.frame.bytes, a.frame.expiresAtUnix) = a := fun a =>
    Prod.ext (PendingFrame.bytes_new a.1 a.2) rfl
  refine (List.map_congr_left fun a _ => hround a).trans ?_
  rw [List.map_id']
  rfl

end Arranged

/-! ## Every run -/

namespace OfflineQueue

open PendingStore

variable {env : PendingEnv} {cap : Nat} {s s' : OfflineQueue}

/-- Every peer's queue is arranged, and a clean store's file holds its queues,
with frames that have expired perhaps. -/
structure Orderly (env : PendingEnv) (cap : Nat) (s : OfflineQueue) : Prop where
  cap_eq : s.store.maxPerPeer = cap
  queues : ∀ p, Arranged cap s.clock (s.arrivals p) (s.store.queue p)
  disk : ∃ saved, Saved env s.disk s.store.key saved ∧
    (s.store.dirty = false →
      ∀ p, Thinned (Dead s.clock) ((saved.lookup p).getD []) (s.store.queue p))

theorem Started.orderly (h : Started s) : Orderly env s.store.maxPerPeer s where
  cap_eq := rfl
  queues p := by
    rw [h.arrivals, queue, h.queues]
    exact .nil _ _
  disk := ⟨∅, h.saved, fun _ p => by
    rw [queue, h.queues]
    exact .nil⟩

/-- A frame that was offered is refused, or stored at the end of its queue. -/
theorem Orderly.offered (h : Orderly env cap s) (peerId : PeerId) (a : Arrival)
    (distinctPeerCap : Nat) :
    Orderly env cap
      (s.offered peerId a (s.store.enqueueInner peerId a.frame distinctPeerCap)) := by
  rcases enqueueInner_eq s.store peerId a.frame distinctPeerCap with heq | heq
  · rw [heq]
    exact ⟨h.cap_eq, h.queues, h.disk⟩
  · rw [heq]
    obtain ⟨saved, hsaved, _⟩ := h.disk
    refine ⟨h.cap_eq, fun p => ?_, saved, hsaved, fun hclean => by cases hclean⟩
    show Arranged cap s.clock (Function.update s.arrivals peerId (s.arrivals peerId ++ [a]) p)
      (((s.store.queues.insert peerId _).lookup p).getD [])
    by_cases hp : p = peerId
    · subst hp
      rw [Function.update_self, AList.lookup_insert, h.cap_eq]
      refine (h.queues p).store ?_ a
      rw [← h.cap_eq]
      exact s.store.perPeerPos
    · rw [Function.update_of_ne hp, AList.lookup_insert_ne hp]
      exact h.queues p

/-- The frames a restart loads for a peer: the live ones of those on disk. -/
theorem getD_liveQueue (now : UInt64) (queue : Option (List PendingFrame)) :
    (liveQueue now queue).getD [] = (queue.getD []).filter fun f => !f.isExpired now := by
  cases queue with
  | none => rfl
  | some q =>
    cases hlive : liveQueue now (some q) with
    | some live =>
      obtain ⟨q', hq', rfl, _⟩ := liveQueue_eq_some.mp hlive
      cases hq'
      rfl
    | none =>
      rw [Option.getD_none, Option.getD_some]
      by_contra hne
      have hsome := liveQueue_eq_some.mpr ⟨q, rfl, rfl, fun hnil => hne hnil.symm⟩
      rw [hlive] at hsome
      cases hsome

/-- The live frames on disk, after a flush or a drop, are those in memory. -/
theorem live_written {saved : Dict PeerId (List PendingFrame)}
    (hclean : s.store.dirty = false →
      ∀ p, Thinned (Dead s.clock) ((saved.lookup p).getD []) (s.store.queue p))
    {now : UInt64} (hnow : s.clock ≤ now) (p : PeerId) :
    (((s.store.written saved).lookup p).getD []).filter (fun f => !f.isExpired now) =
      (s.store.queue p).filter fun f => !f.isExpired now := by
  unfold PendingStore.written
  cases hdirty : s.store.dirty with
  | true => rfl
  | false => exact (live_eq_of_thinned hnow (hclean hdirty p)).symm

theorem Orderly.step (henv : env.Lawful) {call : QueueCall} (h : Orderly env cap s)
    (hforward : s.Forward call) (hstep : Step env s call s') : Orderly env cap s' := by
  cases hstep with
  | @enqueue peerId a => exact h.offered peerId a _
  | @enqueueSeed peerId a => exact h.offered peerId a _
  | @drain peerId now =>
    obtain ⟨_, hempty, hother⟩ := queue_drain now s.store peerId
    obtain ⟨hkey, hcaps, hchange⟩ := s.store.drain_fields now peerId
    obtain ⟨saved, hsaved, hclean⟩ := h.disk
    refine ⟨(congrArg Caps.maxPerPeer hcaps).trans h.cap_eq, fun p => ?_, saved,
      hkey.symm ▸ hsaved, fun hdirty p => ?_⟩
    · show Arranged cap now (Function.update s.arrivals peerId [] p) _
      by_cases hp : p = peerId
      · subst hp
        rw [Function.update_self, hempty]
        exact .nil _ _
      · rw [Function.update_of_ne hp, hother p hp]
        exact (h.queues p).thin hforward (Thinned.refl _)
    · rcases hchange with heq | hdirty'
      · show Thinned (Dead now) _ ((s.store.drain now peerId).1.queue p)
        rw [heq] at hdirty ⊢
        exact (hclean hdirty p).mono fun f hf => hf.later hforward
      · rw [hdirty'] at hdirty
        cases hdirty
  | @gcExpired now =>
    obtain ⟨saved, hsaved, hclean⟩ := h.disk
    have hqueue := queue_gcExpired now s.store
    refine ⟨h.cap_eq, fun p => ?_, saved, hsaved, fun hdirty p => ?_⟩
    · show Arranged cap now (s.arrivals p) ((s.store.gcExpired now).1.queue p)
      rw [hqueue]
      exact (h.queues p).thin hforward (thinned_live now _)
    · have hdirty' : s.store.dirty = false := by
        cases hold : s.store.dirty with
        | false => rfl
        | true =>
          rw [show (s.store.gcExpired now).1.dirty = (s.store.dirty || _) from rfl, hold] at hdirty
          cases hdirty
      show Thinned (Dead now) _ ((s.store.gcExpired now).1.queue p)
      rw [hqueue]
      exact ((hclean hdirty' p).mono fun f hf => hf.later hforward).trans (thinned_live now _)
  | @flush nonce =>
    obtain ⟨saved, hsaved, hclean⟩ := h.disk
    rw [flush_eq]
    refine ⟨h.cap_eq, h.queues, _, saved_drop hsaved nonce, fun _ p => ?_⟩
    show Thinned (Dead s.clock) (((s.store.written saved).lookup p).getD []) (s.store.queue p)
    unfold PendingStore.written
    cases hdirty : s.store.dirty with
    | true => exact Thinned.refl _
    | false => exact hclean hdirty p
  | @reload now nonce fresh store disk hopen =>
    obtain ⟨saved, hsaved, hclean⟩ := h.disk
    obtain ⟨loaded, hload, heq⟩ := reopen_saved henv hsaved nonce fresh now
    rw [heq] at hopen
    cases hopen
    have hqueue : ∀ p, (loaded.lookup p).getD [] =
        (((s.store.written saved).lookup p).getD []).filter fun f => !f.isExpired now := by
      intro p
      rw [hload, getD_liveQueue]
    refine ⟨h.cap_eq, fun p => ?_, _, saved_drop hsaved nonce, fun _ p => ?_⟩
    · show Arranged cap now (s.arrivals p) ((loaded.lookup p).getD [])
      rw [hqueue, live_written hclean hforward]
      exact (h.queues p).thin hforward (thinned_live now _)
    · show Thinned (Dead now) _ ((loaded.lookup p).getD [])
      rw [hqueue]
      exact thinned_live now _

/-- What `drain` hands to the recipient: each frame's bytes, and its expiry. -/
def delivered (s : OfflineQueue) (now : UInt64) (p : PeerId) : List Arrival :=
  (s.store.drain now p).2.map fun f => (f.bytes, f.expiresAtUnix)

/-- In every run under a clock that does not go back, a drain returns some of
the frames stored for the peer since its previous drain, as they were and in
the order they came; none of them has expired, and a live frame is missing only
if it was evicted, after which at least `max_per_peer` frames were stored. -/
theorem drain_returns_recent_arrivals (henv : env.Lawful) {s₀ : OfflineQueue} (h₀ : Started s₀)
    (hrun : Reach (Step env) Forward s₀ s) (p : PeerId) {now : UInt64} (hnow : s.clock ≤ now) :
    (s.delivered now p).Sublist (s.arrivals p) ∧ (∀ a ∈ s.delivered now p, now < a.2) ∧
      ∃ evicted kept, s.arrivals p = evicted ++ kept ∧
        s.delivered now p = kept.filter (fun a => !decide (a.2 ≤ now)) ∧
        (evicted ≠ [] → s₀.store.maxPerPeer ≤ kept.length) := by
  have horderly : Orderly env s₀.store.maxPerPeer s :=
    hrun.invariant (Orderly env s₀.store.maxPerPeer)
      (fun h hforward hstep => h.step henv hforward hstep) h₀.orderly
  obtain ⟨evicted, kept, harr, hdrained, hcap⟩ := (horderly.queues p).drained hnow
  have hdelivered : s.delivered now p = kept.filter fun a => !decide (a.2 ≤ now) := by
    rw [delivered, (queue_drain now s.store p).1]
    exact hdrained
  refine ⟨?_, fun a ha => ?_, evicted, kept, harr, hdelivered, hcap⟩
  · rw [hdelivered, harr]
    exact List.filter_sublist.trans (List.sublist_append_right evicted kept)
  · rw [hdelivered] at ha
    have hlive := (List.mem_filter.mp ha).2
    rw [Bool.not_eq_true', decide_eq_false_iff_not] at hlive
    exact UInt64.not_le.mp hlive

/-- The third frame evicts the first, and the drain returns the last two. -/
theorem drain_returns_recent_arrivals_after_eviction :
    (delivered (enqueued (enqueued (enqueued smallStart [7] 1) [7] 2) [7] 3) 5 [7]).Sublist
        [([1, 1], 9), ([2, 2], 9), ([3, 3], 9)] ∧
      delivered (enqueued (enqueued (enqueued smallStart [7] 1) [7] 2) [7] 3) 5 [7] =
        [([2, 2], 9), ([3, 3], 9)] := by
  have hrun : Reach (Step plainPendingEnv) Forward smallStart
      (enqueued (enqueued (enqueued smallStart [7] 1) [7] 2) [7] 3) :=
    ((Reach.refl.snoc .enqueue trivial).snoc .enqueue trivial).snoc .enqueue trivial
  have hdrain := drain_returns_recent_arrivals plainPendingEnv_lawful (started_started ..) hrun [7]
    (show (0 : UInt64) ≤ 5 by decide)
  have harr : (enqueued (enqueued (enqueued smallStart [7] 1) [7] 2) [7] 3).arrivals [7] =
      [([1, 1], 9), ([2, 2], 9), ([3, 3], 9)] := by decide +kernel
  rw [harr] at hdrain
  exact ⟨hdrain.1, by decide +kernel⟩

end OfflineQueue

end Pizzini.Relay
