import Pizzini.Relay.Routing

/-!
# What becomes of an accepted frame

Three invariants of the relay's interleaved handlers, each proved for one lock
region (`exec_covered`, `exec_accounted`, `exec_occ`) and then for every run.

- `Covered`: a peer that is reachable and still has frames queued has a
  handler on its way to drain them. So no frame is left behind once the
  handlers are done (`no_stranded_frame`).
- `Accounted`: a stored frame is queued, in a drained batch, handed to a
  channel, expired, evicted, or was drained and then found no open channel.
  The last case happens (`drained_frame_lost`).
- `occ`: a frame is in one place only, so it is handed over at most once.
-/

namespace Pizzini.Relay

open Wire Runs

/-! ## The tables, region by region -/

namespace Tables

variable (t : Tables)

/-- `enqueue_pending` refuses and changes nothing, or it stores the frame at the
end of its recipient's queue and evicts some of the oldest. -/
theorem enqueuePending_cases (now : UInt64) (a : Accepted) :
    t.enqueuePending now a = t ∨
      ∃ pending evicted kept, t.enqueuePending now a =
          { t with
            pending
            history := { t.history with
              stored := t.history.stored ++ [a]
              evicted := t.history.evicted ++ evicted.map QueuedFrame.origin } } ∧
        t.pending.queue a.toId = evicted ++ kept ∧
        pending.queue a.toId = kept ++ [a.entry now] ∧
        ∀ p ≠ a.toId, pending.queue p = t.pending.queue p := by
  -- both classes are `enqueue_inner`, at different distinct-peer caps
  obtain ⟨cap, hinner⟩ : ∃ cap, a.enqueue now t.pending =
      t.pending.enqueueInner a.toId (a.entry now) cap := by
    unfold Accepted.enqueue
    cases a.pclass with
    | authorized => exact ⟨_, rfl⟩
    | seed => exact ⟨_, rfl⟩
  rcases t.pending.enqueueInner_cases a.toId (a.entry now) cap with
    hrefused | ⟨pending, evicted, kept, hstored, hbefore, hafter, hother⟩
  · left
    simp only [enqueuePending, hinner, hrefused]
  · right
    refine ⟨pending, evicted, kept, ?_, hbefore, hafter, hother⟩
    simp only [enqueuePending, hinner, hstored, hbefore, hafter]
    have htake : (evicted ++ kept).take ((evicted ++ kept).length + 1 -
        (kept ++ [a.entry now]).length) = evicted := by
      have hlen : (evicted ++ kept).length + 1 - (kept ++ [a.entry now]).length =
          evicted.length := by
        simp only [List.length_append, List.length_singleton]
        omega
      rw [hlen, List.take_left]
    rw [htake]

theorem enqueuePending_routes (now : UInt64) (a : Accepted) :
    (t.enqueuePending now a).routes = t.routes ∧ (t.enqueuePending now a).closed = t.closed := by
  rcases t.enqueuePending_cases now a with heq | ⟨_, _, _, heq, _⟩
  · rw [heq]
    exact ⟨rfl, rfl⟩
  · rw [heq]
    exact ⟨rfl, rfl⟩

/-- The forward loop touches neither the routes nor the queues, and closes no
channel but the one it writes to. -/
theorem forward_frame (p : PeerId) (batch : List Accepted) (sends : Nat) :
    (t.forward p batch sends).routes = t.routes ∧
      (t.forward p batch sends).pending = t.pending ∧
      t.closed ⊆ (t.forward p batch sends).closed := by
  unfold forward
  split
  · exact ⟨rfl, rfl, List.Subset.refl _⟩
  · split
    · exact ⟨rfl, rfl, List.Subset.refl _⟩
    · exact ⟨rfl, rfl, List.subset_cons_self _ _⟩

/-- A route can only be live if it was installed and its channel not closed. -/
theorem routeIsLive_of_subset {t t' : Tables} {p : PeerId}
    (hroutes : t'.routes.lookup p = t.routes.lookup p) (hclosed : t.closed ⊆ t'.closed)
    (h : t'.routeIsLive p = true) : t.routeIsLive p = true := by
  simp only [routeIsLive, liveRoute, hroutes, Option.isSome_filter, Option.any_eq_true,
    decide_eq_true_eq] at h ⊢
  obtain ⟨ch, hch, hopen⟩ := h
  exact ⟨ch, hch, fun hin => hopen (hclosed hin)⟩

end Tables

/-! ## No frame is left behind -/

/-- `p` is reachable and has frames queued. -/
def Tables.Waiting (t : Tables) (p : PeerId) : Prop :=
  t.routeIsLive p = true ∧ t.pending.queue p ≠ []

/-- The handler is on its way to drain `p`'s queue, or to find `p` offline. -/
def Handler.Covers (p : PeerId) : Handler → Prop
  | .rechecking p' => p' = p
  | .draining p' _ => p' = p
  | _ => False

/-- Every peer that is reachable and has frames queued is being looked after. -/
def Covered (s : RelayState) : Prop :=
  ∀ p, s.tables.Waiting p → ∃ h ∈ s.handlers, h.Covers p

/-- One lock region: a peer with frames waiting after it is covered by what is
left of the handler, or was waiting before and not covered by the handler. -/
theorem exec_waiting (h : Handler) (t : Tables) (now : UInt64) (sends : Nat) {p : PeerId}
    (hw : (h.exec t now sends).1.Waiting p) :
    (∃ h' ∈ (h.exec t now sends).2, h'.Covers p) ∨ ¬ h.Covers p ∧ t.Waiting p := by
  cases h with
  | queueing a =>
    obtain ⟨hroutes, hclosed⟩ := t.enqueuePending_routes now a
    by_cases hp : p = a.toId
    · subst hp
      exact .inl ⟨_, rfl, rfl⟩
    · refine .inr ⟨id, ?_, ?_⟩
      · exact Tables.routeIsLive_of_subset (congrArg (AList.lookup p) hroutes)
          (fun _ hin => hclosed.symm ▸ hin) hw.1
      · rcases t.enqueuePending_cases now a with heq | ⟨_, _, _, heq, _, _, hother⟩
        · have hq := hw.2
          simp only [Handler.exec, heq] at hq
          exact hq
        · have hq := hw.2
          simp only [Handler.exec, heq, hother p hp] at hq
          exact hq
  | rechecking p' =>
    by_cases hp : p' = p
    · subst hp
      refine .inl ⟨.draining p' none, ?_, rfl⟩
      have hlive : t.routeIsLive p' = true := hw.1
      simp only [Handler.exec, if_pos hlive]
      rfl
    · exact .inr ⟨hp, hw⟩
  | draining p' conn =>
    obtain ⟨_, hempty, hother⟩ := PendingStore.queue_drain now t.pending p'
    have hqueue : (Handler.exec t now sends (.draining p' conn)).1.pending =
        (t.pending.drain now p').1 := by
      simp only [Handler.exec]
      split <;> rfl
    have hlive : t.routeIsLive p = true := by
      refine Tables.routeIsLive_of_subset ?_ ?_ hw.1
      · simp only [Handler.exec]
        split <;> rfl
      · simp only [Handler.exec]
        split <;> exact fun _ h => h
    by_cases hp : p' = p
    · subst hp
      exact absurd (by rw [hqueue]; exact hempty) hw.2
    · refine .inr ⟨hp, hlive, ?_⟩
      rw [← hother p (Ne.symm hp), ← hqueue]
      exact hw.2
  | forwarding p' conn batch =>
    obtain ⟨hroutes, hpending, hclosed⟩ := t.forward_frame p' batch sends
    refine .inr ⟨id, ?_, ?_⟩
    · exact Tables.routeIsLive_of_subset (congrArg (AList.lookup p) hroutes) hclosed hw.1
    · have hq : (t.forward p' batch sends).pending.queue p ≠ [] := hw.2
      rw [hpending] at hq
      exact hq

theorem step_covered {s s' : RelayState} {ev : RelayEvent} (h : Covered s)
    (hstep : RelayStep s ev s') : Covered s' := by
  intro p hw
  cases hstep with
  | @send a _ =>
    unfold RelayState.lookupAndSend at hw ⊢
    split at hw
    · exact h p hw
    · obtain ⟨h', hmem, hcov⟩ := h p hw
      exact ⟨h', List.mem_append_left _ hmem, hcov⟩
  | @hello p' =>
    by_cases hp : p = p'
    · subst hp
      exact ⟨.draining p (some s.nextChan), by simp [RelayState.hello], rfl⟩
    · have hlook : (s.hello p').tables.routes.lookup p = s.tables.routes.lookup p :=
        AList.lookup_insert_ne hp
      obtain ⟨h', hmem, hcov⟩ :=
        h p ⟨Tables.routeIsLive_of_subset hlook (fun _ h => h) hw.1, hw.2⟩
      exact ⟨h', List.mem_append_left _ hmem, hcov⟩
  | @exec pre post h₀ now sends hs =>
    rcases exec_waiting h₀ s.tables now sends hw with ⟨h', hmem, hcov⟩ | ⟨hnot, hbefore⟩
    · refine ⟨h', ?_, hcov⟩
      rw [List.mem_append, List.mem_append, Option.mem_toList]
      exact .inl (.inr hmem)
    · -- the handler that covered `p` before is another one, and still there
      obtain ⟨h', hmem, hcov⟩ := h p hbefore
      refine ⟨h', ?_, hcov⟩
      rw [hs, List.mem_append, List.mem_cons] at hmem
      rw [List.mem_append, List.mem_append]
      rcases hmem with hpre | rfl | hpost
      · exact .inl (.inl hpre)
      · exact absurd hcov hnot
      · exact .inr hpost
  | @disconnect p' ch _ =>
    refine h p ⟨?_, hw.2⟩
    have hlive := hw.1
    simp only [Tables.routeIsLive, Tables.liveRoute, Tables.disconnect] at hlive ⊢
    split at hlive
    · by_cases hp : p = p'
      · subst hp
        rw [AList.lookup_erase] at hlive
        cases hlive
      · rw [AList.lookup_erase_ne hp] at hlive
        exact hlive
    · exact hlive
  | writerExit _ =>
    refine h p ⟨Tables.routeIsLive_of_subset ?_ ?_ hw.1, hw.2⟩
    · rfl
    · exact List.subset_cons_self _ _
  | @collect now =>
    refine h p ⟨hw.1, fun hempty => hw.2 ?_⟩
    show (s.tables.pending.gcExpired now).1.queue p = []
    rw [PendingStore.queue_gcExpired, hempty]
    rfl

/-! ## A frame is in one place -/

/-- The accepted frames a handler has in hand. -/
def Handler.held : Handler → List Accepted
  | .queueing a => [a]
  | .forwarding _ _ batch => batch
  | _ => []

/-- How often `a` is in its recipient's queue or has been handed over. -/
def Tables.occ (t : Tables) (a : Accepted) : Nat :=
  ((t.pending.queue a.toId).map QueuedFrame.origin).count a +
    (t.history.handed.map Prod.snd).count a

/-- How often `a` is anywhere. -/
def RelayState.occ (s : RelayState) (a : Accepted) : Nat :=
  (s.handlers.flatMap Handler.held).count a + s.tables.occ a

/-- Every queued frame is in its recipient's queue. -/
def Tables.Homed (t : Tables) : Prop :=
  ∀ p, ∀ f ∈ t.pending.queue p, f.origin.toId = p

theorem Tables.occ_hand (t : Tables) (ch : ChanId) (frames : List Accepted) (a : Accepted) :
    (t.hand ch frames).occ a = t.occ a + frames.count a := by
  have hmap : (frames.map fun a => (ch, a)).map Prod.snd = frames := by
    rw [List.map_map]
    exact List.map_id _
  simp only [occ, hand, List.map_append, List.count_append, hmap]
  omega

theorem Tables.occ_drop (t : Tables) (frames : List Accepted) (a : Accepted) :
    (t.drop frames).occ a = t.occ a := rfl

theorem Tables.occ_finish (t : Tables) (p : PeerId) (conn : Option ChanId) (a : Accepted) :
    (t.finish p conn).occ a = t.occ a := rfl

/-- Draining moves frames from a queue into the handler's hands. -/
theorem Tables.occ_drainQueue {t : Tables} (hhomed : t.Homed) (now : UInt64) (p : PeerId)
    (a : Accepted) :
    ((t.drainQueue now p).2.map QueuedFrame.origin).count a + (t.drainQueue now p).1.occ a ≤
      t.occ a := by
  obtain ⟨hbatch, hempty, hother⟩ := PendingStore.queue_drain now t.pending p
  show ((t.pending.drain now p).2.map QueuedFrame.origin).count a +
    ((((t.pending.drain now p).1.queue a.toId).map QueuedFrame.origin).count a +
      (t.history.handed.map Prod.snd).count a) ≤ t.occ a
  unfold occ
  by_cases hto : a.toId = p
  · have hle : ((t.pending.drain now p).2.map QueuedFrame.origin).count a ≤
        ((t.pending.queue p).map QueuedFrame.origin).count a := by
      rw [hbatch]
      exact (List.filter_sublist.map _).count_le _
    rw [hto, hempty, List.map_nil, List.count_nil]
    omega
  · -- nothing in `p`'s queue is for another recipient
    have habsent : a ∉ (t.pending.drain now p).2.map QueuedFrame.origin := by
      rw [hbatch]
      intro hin
      obtain ⟨f, hf, rfl⟩ := List.mem_map.mp hin
      exact hto (hhomed p f (List.mem_filter.mp hf).1)
    rw [hother a.toId hto, List.count_eq_zero_of_not_mem habsent]
    omega

/-- Forwarding hands over at most what was in hand. -/
theorem Tables.occ_forward (t : Tables) (p : PeerId) (batch : List Accepted) (sends : Nat)
    (a : Accepted) : (t.forward p batch sends).occ a ≤ batch.count a + t.occ a := by
  unfold forward
  split
  · rw [occ_drop]
    omega
  · next ch _ =>
    split
    · rw [occ_hand]
      omega
    · show ((t.hand ch (batch.take sends)).drop (batch.drop sends)).occ a ≤ _
      have hle : (batch.take sends).count a ≤ batch.count a :=
        (List.take_sublist _ _).count_le _
      rw [occ_drop, occ_hand]
      omega

/-- One lock region neither makes a second copy of a frame nor puts one into
another's queue. -/
theorem exec_occ (h : Handler) {t : Tables} (hhomed : t.Homed) (now : UInt64) (sends : Nat)
    (a : Accepted) :
    ((h.exec t now sends).2.toList.flatMap Handler.held).count a + (h.exec t now sends).1.occ a ≤
      h.held.count a + t.occ a := by
  cases h with
  | queueing b =>
    rcases t.enqueuePending_cases now b with heq | ⟨pending, evicted, kept, heq, hbefore, hafter,
      hother⟩
    · simp only [Handler.exec, heq, Option.toList_some, List.flatMap_cons, List.flatMap_nil,
        Handler.held, List.append_nil, List.count_nil]
      omega
    · simp only [Handler.exec, heq, Option.toList_some, List.flatMap_cons, List.flatMap_nil,
        Handler.held, List.append_nil, List.count_nil, Tables.occ]
      by_cases hto : a.toId = b.toId
      · rw [hto, hbefore, hafter]
        simp only [List.map_append, List.count_append, List.map_singleton, Accepted.entry]
        omega
      · rw [hother a.toId hto]
        omega
  | rechecking p =>
    simp only [Handler.exec]
    split <;> simp [Handler.held]
  | draining p conn =>
    have hdrain := Tables.occ_drainQueue hhomed now p a
    simp only [Handler.exec]
    split
    · simp only [Option.toList_none, List.flatMap_nil, List.count_nil, Handler.held,
        Tables.occ_finish]
      omega
    · simp only [Option.toList_some, List.flatMap_cons, List.flatMap_nil, List.append_nil,
        Handler.held, List.count_nil, Nat.zero_add]
      exact hdrain
  | forwarding p conn batch =>
    have hforward := t.occ_forward p batch sends a
    simp only [Handler.exec, Option.toList_none, List.flatMap_nil, List.count_nil, Handler.held,
      Tables.occ_finish]
    omega

theorem exec_homed (h : Handler) {t : Tables} (hhomed : t.Homed) (now : UInt64) (sends : Nat) :
    (h.exec t now sends).1.Homed := by
  cases h with
  | queueing b =>
    rcases t.enqueuePending_cases now b with heq | ⟨pending, evicted, kept, heq, hbefore, hafter,
      hother⟩
    · simp only [Handler.exec, heq]
      exact hhomed
    · simp only [Handler.exec, heq]
      intro p f hf
      by_cases hp : p = b.toId
      · subst hp
        rw [hafter, List.mem_append, List.mem_singleton] at hf
        rcases hf with hkept | rfl
        · refine hhomed b.toId f ?_
          rw [hbefore]
          exact List.mem_append_right _ hkept
        · rfl
      · rw [hother p hp] at hf
        exact hhomed p f hf
  | rechecking p => exact hhomed
  | draining p conn =>
    obtain ⟨_, hempty, hother⟩ := PendingStore.queue_drain now t.pending p
    have hqueue : (Handler.exec t now sends (.draining p conn)).1.pending =
        (t.pending.drain now p).1 := by
      simp only [Handler.exec]
      split <;> rfl
    intro p' f hf
    rw [hqueue] at hf
    by_cases hp : p' = p
    · subst hp
      rw [hempty] at hf
      cases hf
    · rw [hother p' hp] at hf
      exact hhomed p' f hf
  | forwarding p conn batch =>
    obtain ⟨_, hpending, _⟩ := t.forward_frame p batch sends
    intro p' f hf
    have hf' : f ∈ (t.forward p batch sends).pending.queue p' := hf
    rw [hpending] at hf'
    exact hhomed p' f hf'

/-- Frames are where they belong, in one place, and numbered below `nextTag`. -/
structure Single (s : RelayState) : Prop where
  homed : s.tables.Homed
  once : ∀ a, s.occ a ≤ 1
  numbered : ∀ a, s.nextTag ≤ a.tag → s.occ a = 0

/-- A step that creates no copies keeps the invariant. -/
theorem Single.of_occ_le {s s' : RelayState} (h : Single s) (hhomed : s'.tables.Homed)
    (htag : s'.nextTag = s.nextTag) (hocc : ∀ a, s'.occ a ≤ s.occ a) : Single s' where
  homed := hhomed
  once a := Nat.le_trans (hocc a) (h.once a)
  numbered a ha := Nat.le_zero.mp (h.numbered a (htag ▸ ha) ▸ hocc a)

theorem single_lookupAndSend {s : RelayState} (h : Single s) {a : Accepted}
    (htag : a.tag = s.nextTag) : Single (s.lookupAndSend a) := by
  have hocc : ∀ b, (s.lookupAndSend a).occ b = s.occ b + [a].count b := by
    intro b
    unfold RelayState.lookupAndSend
    split
    · simp only [RelayState.occ, Tables.occ_hand]
      omega
    · simp only [RelayState.occ, List.flatMap_append, List.count_append, List.flatMap_cons,
        List.flatMap_nil, List.append_nil, Handler.held]
      omega
  have hnext : (s.lookupAndSend a).nextTag = s.nextTag + 1 := by
    unfold RelayState.lookupAndSend
    split <;> rfl
  refine ⟨?_, fun b => ?_, fun b hb => ?_⟩
  · unfold RelayState.lookupAndSend
    split <;> exact h.homed
  · rw [hocc]
    by_cases hab : a = b
    · subst hab
      rw [h.numbered a (Nat.le_of_eq htag.symm), List.count_singleton_self]
    · rw [List.count_singleton]
      simp only [beq_iff_eq, if_neg hab]
      exact h.once b
  · rw [hnext] at hb
    have hab : ¬ a = b := by
      rintro rfl
      omega
    rw [hocc, h.numbered b (by omega), List.count_singleton]
    simp only [beq_iff_eq, if_neg hab]

theorem step_single {s s' : RelayState} {ev : RelayEvent} (h : Single s)
    (hstep : RelayStep s ev s') : Single s' := by
  cases hstep with
  | send htag => exact single_lookupAndSend h htag
  | hello =>
    refine h.of_occ_le h.homed rfl fun a => ?_
    simp only [RelayState.hello, RelayState.occ, List.flatMap_append, List.flatMap_cons,
      List.flatMap_nil, Handler.held, List.append_nil]
    exact Nat.le_refl _
  | @exec pre post h₀ now sends hs =>
    refine h.of_occ_le (exec_homed h₀ h.homed now sends) rfl fun a => ?_
    have hexec := exec_occ h₀ h.homed now sends a
    simp only [RelayState.occ, hs, List.flatMap_append, List.flatMap_cons, List.count_append]
    omega
  | disconnect _ => exact h.of_occ_le h.homed rfl fun a => Nat.le_refl _
  | writerExit _ => exact h.of_occ_le h.homed rfl fun a => Nat.le_refl _
  | @collect now =>
    have hqueue : ∀ p, (s.tables.collect now).pending.queue p =
        (s.tables.pending.queue p).filter fun f => !Queued.isExpired now f :=
      fun p => PendingStore.queue_gcExpired now s.tables.pending p
    refine h.of_occ_le (fun p f hf => ?_) rfl fun a => ?_
    · rw [hqueue] at hf
      exact h.homed p f (List.mem_filter.mp hf).1
    · have hle : (((s.tables.collect now).pending.queue a.toId).map QueuedFrame.origin).count a ≤
          ((s.tables.pending.queue a.toId).map QueuedFrame.origin).count a := by
        rw [hqueue]
        exact (List.filter_sublist.map _).count_le _
      show (s.handlers.flatMap Handler.held).count a +
        ((((s.tables.collect now).pending.queue a.toId).map QueuedFrame.origin).count a +
          (s.tables.history.handed.map Prod.snd).count a) ≤ s.occ a
      unfold RelayState.occ Tables.occ
      omega

theorem single_started {s : RelayState} (h : Started s) : Single s := by
  have hocc : ∀ a, s.occ a = ((s.tables.pending.queue a.toId).map QueuedFrame.origin).count a := by
    intro a
    simp only [RelayState.occ, Tables.occ, h.handlers, h.history, History.empty, List.flatMap_nil,
      List.count_nil, List.map_nil, Nat.zero_add, Nat.add_zero]
  refine ⟨fun p f hf => (h.homed p f hf).1, fun a => ?_, fun a ha => ?_⟩
  · rw [hocc]
    exact List.nodup_iff_count_le_one.mp (h.once a.toId) a
  · rw [hocc]
    refine List.count_eq_zero_of_not_mem fun hin => ?_
    obtain ⟨f, hf, rfl⟩ := List.mem_map.mp hin
    have hlt := (h.homed _ f hf).2
    omega

/-! ## Running forward

Executable forms of the steps, for runs on concrete inputs. -/

/-- The `i`-th handler runs its next lock region. -/
def RelayState.execAt (i : Nat) (now : UInt64) (sends : Nat) (s : RelayState) : RelayState :=
  match s.handlers[i]? with
  | some h =>
    { s with
      tables := (h.exec s.tables now sends).1
      handlers := s.handlers.take i ++ (h.exec s.tables now sends).2.toList ++
        s.handlers.drop (i + 1) }
  | none => s

theorem step_execAt {s : RelayState} (i : Nat) (now : UInt64) (sends : Nat)
    (hi : i < s.handlers.length) :
    RelayStep s (.exec now sends) (s.execAt i now sends) := by
  rw [RelayState.execAt, List.getElem?_eq_getElem hi]
  refine .exec ?_
  rw [List.getElem_cons_drop, List.take_append_drop]

/-- A relay with the production caps (main.rs:443–461) and nothing queued. -/
def emptyRelay : RelayState where
  tables :=
    { routes := ∅
      closed := []
      conns := []
      pending :=
        { key := .replicate _ 0
          queues := ∅
          maxPerPeer := 100
          maxDistinctPeers := 1024
          maxTotalFrames := 16384
          maxTotalBytes := 67108864
          dirty := false
          perPeerPos := by decide }
      history := History.empty }
  handlers := []
  nextChan := 0
  nextTag := 0

theorem started_emptyRelay : Started emptyRelay where
  routes := rfl
  handlers := rfl
  history := rfl
  homed := by
    intro p f hf
    cases hf
  once _ := List.nodup_nil

/-- A frame for the peer `[1]`. -/
def sampleFrame : Accepted where
  tag := 0
  toId := [1]
  pclass := .authorized
  ttlSeconds := 60
  bytes := [7]

/-- The frame is sent while its recipient is offline; before it is queued the
recipient connects, finds nothing to drain, and enters its read loop. The
sender's handler then queues the frame and finds the recipient online. -/
def racedRelay : RelayState :=
  (((emptyRelay.lookupAndSend sampleFrame).hello [1]).execAt 1 0 0).execAt 0 0 0 |>.execAt 0 0 0

theorem reach_racedRelay : Reach RelayStep (fun _ _ => True) emptyRelay racedRelay := by
  have hsend : RelayStep emptyRelay (.send sampleFrame) (emptyRelay.lookupAndSend sampleFrame) :=
    .send rfl
  refine ((((Reach.refl.snoc hsend trivial).snoc .hello trivial).snoc (step_execAt 1 0 0 ?_)
    trivial).snoc (step_execAt 0 0 0 ?_) trivial).snoc (step_execAt 0 0 0 ?_) trivial
  all_goals decide

/-- **No stranded and no doubled frame.** In every state a run can reach, every
accepted frame has been handed to a writer channel at most once; and if no
handler is under way, a peer with an open route has nothing queued. -/
theorem no_stranded_no_doubled {s₀ s : RelayState} (hstart : Started s₀)
    (hrun : Reach RelayStep (fun _ _ => True) s₀ s) :
    (s.handlers = [] → ∀ p, s.tables.routeIsLive p = true → s.tables.pending.queue p = []) ∧
      ∀ a, (s.tables.history.handed.map Prod.snd).count a ≤ 1 := by
  constructor
  · have hcovered : Covered s := by
      refine hrun.invariant Covered (fun h _ hstep => step_covered h hstep) fun p hw => ?_
      have hlive := hw.1
      rw [Tables.routeIsLive, Tables.liveRoute, hstart.routes] at hlive
      cases hlive
    intro hidle p hlive
    by_contra hne
    obtain ⟨h, hmem, _⟩ := hcovered p ⟨hlive, hne⟩
    rw [hidle] at hmem
    cases hmem
  · have hsingle : Single s :=
      hrun.invariant Single (fun h _ hstep => step_single h hstep) (single_started hstart)
    intro a
    have honce := hsingle.once a
    unfold RelayState.occ Tables.occ at honce
    omega

/-- After the race is over: the sender's handler drains and forwards. -/
theorem no_stranded_no_doubled_raced :
    let s := (racedRelay.execAt 0 0 0).execAt 0 0 1
    s.tables.routeIsLive [1] = true ∧ s.tables.pending.queue [1] = [] ∧
      (s.tables.history.handed.map Prod.snd).count sampleFrame = 1 := by
  have hrun : Reach RelayStep (fun _ _ => True) emptyRelay
      ((racedRelay.execAt 0 0 0).execAt 0 0 1) :=
    (reach_racedRelay.snoc (step_execAt 0 0 0 (by decide)) trivial).snoc
      (step_execAt 0 0 1 (by decide)) trivial
  obtain ⟨hstranded, hdoubled⟩ := no_stranded_no_doubled started_emptyRelay hrun
  refine ⟨by decide, hstranded (by decide) [1] (by decide), ?_⟩
  have hle := hdoubled sampleFrame
  have hpos : 0 < ((((racedRelay.execAt 0 0 0).execAt 0 0 1).tables.history.handed.map
      Prod.snd).count sampleFrame) := by decide
  omega

/-! ## Every stored frame is accounted for -/

/-- The handler has drained `a` and not finished forwarding it. -/
def Handler.Forwards (a : Accepted) : Handler → Prop
  | .forwarding _ _ batch => a ∈ batch
  | _ => False

/-- `a` is in its recipient's queue. -/
def Tables.Queues (t : Tables) (a : Accepted) : Prop :=
  ∃ f ∈ t.pending.queue a.toId, f.origin = a

/-- `a` has been handed to an open channel, or was removed because it expired
or because its recipient's queue was full. -/
def Tables.Delivered (t : Tables) (a : Accepted) : Prop :=
  (∃ ch, (ch, a) ∈ t.history.handed) ∨ a ∈ t.history.expired ∨ a ∈ t.history.evicted

/-- `a` is queued, held by a handler that has drained it, or gone for one of
the reasons of `Delivered`. -/
def RelayState.Accounted (s : RelayState) (a : Accepted) : Prop :=
  s.tables.Queues a ∨ (∃ h ∈ s.handlers, h.Forwards a) ∨ s.tables.Delivered a

/-- The ways `a` can have left the queue for good: `Delivered`, or a forward
step that found no route for it or a closed channel. -/
def Tables.Settled (t : Tables) (a : Accepted) : Prop :=
  t.Delivered a ∨ a ∈ t.history.dropped

/-- The history only grows. -/
structure History.Grows (before after : History) : Prop where
  handed : before.handed ⊆ after.handed
  evicted : before.evicted ⊆ after.evicted
  expired : before.expired ⊆ after.expired
  dropped : before.dropped ⊆ after.dropped

theorem History.Grows.refl (h : History) : h.Grows h :=
  ⟨fun _ h => h, fun _ h => h, fun _ h => h, fun _ h => h⟩

theorem Tables.Settled.mono {t t' : Tables} {a : Accepted} (h : t.Settled a)
    (hgrows : t.history.Grows t'.history) : t'.Settled a := by
  rcases h with (⟨ch, hch⟩ | hexp | hev) | hdrop
  · exact .inl (.inl ⟨ch, hgrows.handed hch⟩)
  · exact .inl (.inr (.inl (hgrows.expired hexp)))
  · exact .inl (.inr (.inr (hgrows.evicted hev)))
  · exact .inr (hgrows.dropped hdrop)

/-- The forward loop settles the whole batch. -/
theorem Tables.forward_settles (t : Tables) (p : PeerId) (batch : List Accepted) (sends : Nat) :
    t.history.Grows (t.forward p batch sends).history ∧
      (t.forward p batch sends).history.stored = t.history.stored ∧
      ∀ a ∈ batch, (t.forward p batch sends).Settled a := by
  unfold forward
  split
  · refine ⟨⟨fun _ h => h, fun _ h => h, fun _ h => h, List.subset_append_left _ _⟩, rfl,
      fun a ha => .inr (List.mem_append_right _ ha)⟩
  · next ch _ =>
    split
    · refine ⟨⟨List.subset_append_left _ _, fun _ h => h, fun _ h => h, fun _ h => h⟩, rfl,
        fun a ha => .inl (.inl ⟨ch, List.mem_append_right _ (List.mem_map_of_mem ha)⟩)⟩
    · refine ⟨⟨List.subset_append_left _ _, fun _ h => h, fun _ h => h,
        List.subset_append_left _ _⟩, rfl, fun a ha => ?_⟩
      rw [← List.take_append_drop sends batch, List.mem_append] at ha
      rcases ha with htake | hdrop
      · exact .inl (.inl ⟨ch, List.mem_append_right _ (List.mem_map_of_mem htake)⟩)
      · exact .inr (List.mem_append_right _ hdrop)

/-- Draining keeps a queued frame in the batch unless it has expired. -/
theorem Tables.drainQueue_queues (t : Tables) (now : UInt64) (p : PeerId) {a : Accepted}
    (h : t.Queues a) :
    (t.drainQueue now p).1.Queues a ∨ a ∈ (t.drainQueue now p).2.map QueuedFrame.origin ∨
      a ∈ (t.drainQueue now p).1.history.expired := by
  obtain ⟨f, hf, rfl⟩ := h
  obtain ⟨hbatch, _, hother⟩ := PendingStore.queue_drain now t.pending p
  by_cases hto : f.origin.toId = p
  · subst hto
    by_cases hexp : Queued.isExpired now f = true
    · refine .inr (.inr (List.mem_append_right _ (List.mem_map_of_mem ?_)))
      exact List.mem_filter.mpr ⟨hf, hexp⟩
    · refine .inr (.inl (List.mem_map_of_mem ?_))
      show f ∈ (t.pending.drain now f.origin.toId).2
      rw [hbatch]
      exact List.mem_filter.mpr ⟨hf, by simpa using hexp⟩
  · refine .inl ⟨f, ?_, rfl⟩
    show f ∈ (t.pending.drain now p).1.queue f.origin.toId
    rw [hother _ hto]
    exact hf

/-- What one lock region does to the stored frames. -/
theorem exec_accounted (h : Handler) (t : Tables) (now : UInt64) (sends : Nat) (a : Accepted) :
    t.history.Grows (h.exec t now sends).1.history ∧
      (a ∈ (h.exec t now sends).1.history.stored →
        a ∈ t.history.stored ∨ (h.exec t now sends).1.Queues a) ∧
      (t.Queues a ∨ h.Forwards a → (h.exec t now sends).1.Queues a ∨
        (∃ h' ∈ (h.exec t now sends).2, h'.Forwards a) ∨ (h.exec t now sends).1.Settled a) := by
  cases h with
  | queueing b =>
    rcases t.enqueuePending_cases now b with heq | ⟨pending, evicted, kept, heq, hbefore, hafter,
      hother⟩
    · simp only [Handler.exec, heq]
      exact ⟨.refl _, .inl, fun hq => .inl (hq.resolve_right id)⟩
    · simp only [Handler.exec, heq]
      refine ⟨⟨fun _ h => h, List.subset_append_left _ _, fun _ h => h, fun _ h => h⟩, ?_, ?_⟩
      · intro hin
        rcases List.mem_append.mp hin with hold | hnew
        · exact .inl hold
        · cases List.mem_singleton.mp hnew
          refine .inr ⟨a.entry now, ?_, rfl⟩
          show a.entry now ∈ pending.queue a.toId
          rw [hafter]
          exact List.mem_append_right _ (List.mem_singleton_self _)
      · rintro (⟨f, hf, rfl⟩ | hno)
        · by_cases hto : f.origin.toId = b.toId
          · rw [hto, hbefore, List.mem_append] at hf
            rcases hf with hev | hkept
            · refine .inr (.inr (.inl (.inr (.inr ?_))))
              exact List.mem_append_right _ (List.mem_map_of_mem hev)
            · refine .inl ⟨f, ?_, rfl⟩
              show f ∈ pending.queue f.origin.toId
              rw [hto, hafter]
              exact List.mem_append_left _ hkept
          · refine .inl ⟨f, ?_, rfl⟩
            show f ∈ pending.queue f.origin.toId
            rw [hother _ hto]
            exact hf
        · exact hno.elim
  | rechecking p => exact ⟨.refl _, .inl, fun hq => .inl (hq.resolve_right id)⟩
  | draining p conn =>
    have hgrows : t.history.Grows (t.drainQueue now p).1.history :=
      ⟨fun _ h => h, fun _ h => h, List.subset_append_left _ _, fun _ h => h⟩
    simp only [Handler.exec]
    split
    · next hempty =>
      refine ⟨hgrows, .inl, fun hq => ?_⟩
      rcases t.drainQueue_queues now p (hq.resolve_right id) with hqueue | hbatch | hexp
      · exact .inl hqueue
      · rw [List.isEmpty_iff.mp hempty] at hbatch
        cases hbatch
      · exact .inr (.inr (.inl (.inr (.inl hexp))))
    · refine ⟨hgrows, .inl, fun hq => ?_⟩
      rcases t.drainQueue_queues now p (hq.resolve_right id) with hqueue | hbatch | hexp
      · exact .inl hqueue
      · exact .inr (.inl ⟨_, rfl, hbatch⟩)
      · exact .inr (.inr (.inl (.inr (.inl hexp))))
  | forwarding p conn batch =>
    obtain ⟨hgrows, hstored, hsettles⟩ := t.forward_settles p batch sends
    obtain ⟨_, hpending, _⟩ := t.forward_frame p batch sends
    refine ⟨hgrows, fun hin => .inl ?_, ?_⟩
    · have hin' : a ∈ (t.forward p batch sends).history.stored := hin
      rw [hstored] at hin'
      exact hin'
    · rintro (⟨f, hf, rfl⟩ | hbatch)
      · refine .inl ⟨f, ?_, rfl⟩
        show f ∈ (t.forward p batch sends).pending.queue f.origin.toId
        rw [hpending]
        exact hf
      · exact .inr (.inr (hsettles a hbatch))

/-- `a` is queued, in a handler's hands, or settled. -/
def RelayState.Placed (s : RelayState) (a : Accepted) : Prop :=
  s.tables.Queues a ∨ (∃ h ∈ s.handlers, h.Forwards a) ∨ s.tables.Settled a

theorem placed_iff {s : RelayState} {a : Accepted} :
    s.Placed a ↔ s.Accounted a ∨ a ∈ s.tables.history.dropped := by
  simp only [RelayState.Placed, RelayState.Accounted, Tables.Settled, or_assoc]

/-- Steps that take no frame out of a queue or a handler's hands. -/
theorem RelayState.Placed.mono {s s' : RelayState} {a : Accepted} (h : s.Placed a)
    (hqueue : s.tables.Queues a → s'.tables.Queues a) (hhandlers : s.handlers ⊆ s'.handlers)
    (hgrows : s.tables.history.Grows s'.tables.history) : s'.Placed a := by
  rcases h with hq | ⟨h, hmem, hf⟩ | hsettled
  · exact .inl (hqueue hq)
  · exact .inr (.inl ⟨h, hhandlers hmem, hf⟩)
  · exact .inr (.inr (hsettled.mono hgrows))

/-- Every stored frame has its place. -/
def StoredPlaced (s : RelayState) : Prop :=
  ∀ a ∈ s.tables.history.stored, s.Placed a

theorem step_storedPlaced {s s' : RelayState} {ev : RelayEvent} (h : StoredPlaced s)
    (hstep : RelayStep s ev s') : StoredPlaced s' := by
  intro a hstored
  cases hstep with
  | @send b _ =>
    unfold RelayState.lookupAndSend at hstored ⊢
    cases hroute : s.tables.liveRoute b.toId with
    | some ch =>
      rw [hroute] at hstored
      exact (h a hstored).mono id (fun _ h => h)
        ⟨List.subset_append_left _ _, fun _ h => h, fun _ h => h, fun _ h => h⟩
    | none =>
      rw [hroute] at hstored
      exact (h a hstored).mono id (List.subset_append_left _ _) (.refl _)
  | hello => exact (h a hstored).mono id (List.subset_append_left _ _) (.refl _)
  | @exec pre post h₀ now sends hs =>
    obtain ⟨hgrows, hstored', hplace⟩ := exec_accounted h₀ s.tables now sends a
    -- what the handler leaves behind is placed in the new state
    have hlift : (h₀.exec s.tables now sends).1.Queues a ∨
        (∃ h' ∈ (h₀.exec s.tables now sends).2, h'.Forwards a) ∨
          (h₀.exec s.tables now sends).1.Settled a →
        RelayState.Placed { s with
          tables := (h₀.exec s.tables now sends).1
          handlers := pre ++ (h₀.exec s.tables now sends).2.toList ++ post } a := by
      rintro (hq | ⟨h', hmem, hf⟩ | hsettled)
      · exact .inl hq
      · refine .inr (.inl ⟨h', ?_, hf⟩)
        rw [List.mem_append, List.mem_append, Option.mem_toList]
        exact .inl (.inr hmem)
      · exact .inr (.inr hsettled)
    rcases hstored' hstored with hold | hq
    · rcases h a hold with hq | ⟨h', hmem, hf⟩ | hsettled
      · exact hlift (hplace (.inl hq))
      · rw [hs, List.mem_append, List.mem_cons] at hmem
        rcases hmem with hpre | rfl | hpost
        · refine .inr (.inl ⟨h', ?_, hf⟩)
          rw [List.mem_append, List.mem_append]
          exact .inl (.inl hpre)
        · exact hlift (hplace (.inr hf))
        · exact .inr (.inl ⟨h', List.mem_append_right _ hpost, hf⟩)
      · exact hlift (.inr (.inr (hsettled.mono hgrows)))
    · exact .inl hq
  | disconnect _ => exact (h a hstored).mono id (fun _ h => h) (.refl _)
  | writerExit _ => exact (h a hstored).mono id (fun _ h => h) (.refl _)
  | @collect now =>
    rcases h a hstored with ⟨f, hf, rfl⟩ | hhand | hsettled
    · by_cases hexp : Queued.isExpired now f = true
      · refine .inr (.inr (.inl (.inr (.inl ?_))))
        refine List.mem_append_right _ (List.mem_map_of_mem (List.mem_flatMap.mpr ?_))
        cases hlook : s.tables.pending.queues.lookup f.origin.toId with
        | none =>
          rw [PendingStore.queue, hlook] at hf
          cases hf
        | some q =>
          rw [PendingStore.queue, hlook] at hf
          exact ⟨_, AList.lookup_eq_some_iff.mp hlook, List.mem_filter.mpr ⟨hf, hexp⟩⟩
      · refine .inl ⟨f, ?_, rfl⟩
        show f ∈ (s.tables.pending.gcExpired now).1.queue f.origin.toId
        rw [PendingStore.queue_gcExpired]
        exact List.mem_filter.mpr ⟨hf, by simpa using hexp⟩
    · exact .inr (.inl hhand)
    · refine .inr (.inr (hsettled.mono ?_))
      exact ⟨fun _ h => h, fun _ h => h, List.subset_append_left _ _, fun _ h => h⟩

/-- **Where a stored frame is.** In every state a run can reach, a frame for
which `enqueue` returned `Stored` is in its recipient's queue, or held by a
handler that has drained it, or was handed to an open channel, or expired, or
was evicted at the per-peer cap, or was dropped by a drain whose forward step
found the recipient's route gone or its channel closed. -/
theorem stored_accounted_or_dropped {s₀ s : RelayState} (hstart : Started s₀)
    (hrun : Reach RelayStep (fun _ _ => True) s₀ s) {a : Accepted}
    (hstored : a ∈ s.tables.history.stored) :
    s.Accounted a ∨ a ∈ s.tables.history.dropped := by
  rw [← placed_iff]
  refine hrun.invariant StoredPlaced (fun h _ hstep => step_storedPlaced h hstep) ?_ a hstored
  intro b hb
  rw [hstart.history] at hb
  cases hb

/-- The raced frame, still queued. -/
theorem stored_accounted_or_dropped_raced :
    sampleFrame ∈ racedRelay.tables.history.stored ∧
      (racedRelay.Accounted sampleFrame ∨ sampleFrame ∈ racedRelay.tables.history.dropped) :=
  have hstored : sampleFrame ∈ racedRelay.tables.history.stored := by decide
  ⟨hstored, stored_accounted_or_dropped started_emptyRelay reach_racedRelay hstored⟩

/-- The recipient disconnects before the sender's handler drains; the drained
frame finds no route. -/
def lostRelay : RelayState :=
  ({ racedRelay with tables := racedRelay.tables.disconnect [1] 0 }.execAt 0 0 0).execAt 0 0 0

/-- A stored frame can be lost: it is in no queue and in no handler's hands, it
was handed to no channel, and it neither expired nor was evicted. -/
theorem drained_frame_lost :
    ∃ s a, Reach RelayStep (fun _ _ => True) emptyRelay s ∧ a ∈ s.tables.history.stored ∧
      ¬ s.Accounted a := by
  refine ⟨lostRelay, sampleFrame, ?_, by decide, ?_⟩
  · have hdisconnect : RelayStep racedRelay (.disconnect [1] 0)
        { racedRelay with tables := racedRelay.tables.disconnect [1] 0 } :=
      .disconnect (by decide)
    exact ((reach_racedRelay.snoc hdisconnect trivial).snoc (step_execAt 0 0 0 (by decide))
      trivial).snoc (step_execAt 0 0 0 (by decide)) trivial
  · have hqueue : lostRelay.tables.pending.queue [1] = [] := by decide
    have hhandlers : lostRelay.handlers = [] := by
      refine List.isEmpty_iff.mp ?_
      decide
    have hhistory : lostRelay.tables.history.handed = [] ∧
        lostRelay.tables.history.expired = [] ∧ lostRelay.tables.history.evicted = [] := by
      decide
    obtain ⟨hhanded, hexpired, hevicted⟩ := hhistory
    rintro (⟨f, hf, _⟩ | ⟨h, hmem, _⟩ | ⟨ch, hch⟩ | hexp | hev)
    · have hf' : f ∈ lostRelay.tables.pending.queue [1] := hf
      rw [hqueue] at hf'
      cases hf'
    · rw [hhandlers] at hmem
      cases hmem
    · rw [hhanded] at hch
      cases hch
    · rw [hexpired] at hexp
      cases hexp
    · rw [hevicted] at hev
      cases hev

end Pizzini.Relay
