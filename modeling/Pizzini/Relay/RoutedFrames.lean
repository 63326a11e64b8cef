import Pizzini.Relay.RoutingSafety

/-!
# What the routing tables hold

Whatever holds of every frame that enters the routing tables holds of every
frame in them, and whatever holds of a peer and the channel of its HELLO holds
of its routes: `Holds P Q` says so of all places at once, and one lock region
keeps it (`Holds.step`). That a frame goes to a channel of its own recipient is
part of it: a queue is only ever handed to its owner's route.
-/

namespace Pizzini.Relay

open Wire

variable (P : Accepted → Prop) (Q : ChanId → PeerId → Prop)

/-- The tables hold frames that meet `P`, and channels that meet `Q` with the
peer they stand for. -/
structure Tables.Holds (t : Tables) : Prop where
  routes : ∀ p ch, t.routes.lookup p = some ch → Q ch p
  conns : ∀ c ∈ t.conns, Q c.2 c.1
  queued : ∀ p, ∀ f ∈ t.pending.queue p, f.origin.toId = p ∧ P f.origin
  handed : ∀ x ∈ t.history.handed, Q x.1 x.2.toId ∧ P x.2

/-- So does a handler. -/
def Handler.Holds : Handler → Prop
  | .queueing a => P a
  | .rechecking _ => True
  | .draining p conn => ∀ ch ∈ conn, Q ch p
  | .forwarding p conn batch => (∀ ch ∈ conn, Q ch p) ∧ ∀ a ∈ batch, a.toId = p ∧ P a

structure RelayState.Holds (r : RelayState) : Prop where
  tables : r.tables.Holds P Q
  handlers : ∀ h ∈ r.handlers, h.Holds P Q

/-- What an event has to bring in. -/
def RelayEvent.Brings (r : RelayState) : RelayEvent → Prop
  | .send a => P a
  | .hello p => Q r.nextChan p
  | .exec _ _ | .disconnect _ _ | .writerExit _ | .collect _ => True

variable {P Q} {P' : Accepted → Prop} {Q' : ChanId → PeerId → Prop} {t : Tables} {r r' : RelayState}

theorem Tables.Holds.mono (h : t.Holds P Q) (hP : ∀ a, P a → P' a) (hQ : ∀ ch p, Q ch p → Q' ch p) :
    t.Holds P' Q' where
  routes := fun p ch hlook => hQ ch p (h.routes p ch hlook)
  conns := fun c hc => hQ _ _ (h.conns c hc)
  queued := fun p f hf => ⟨(h.queued p f hf).1, hP _ (h.queued p f hf).2⟩
  handed := fun x hx => ⟨hQ _ _ (h.handed x hx).1, hP _ (h.handed x hx).2⟩

theorem Handler.Holds.mono {h : Handler} (hh : h.Holds P Q) (hP : ∀ a, P a → P' a)
    (hQ : ∀ ch p, Q ch p → Q' ch p) : h.Holds P' Q' := by
  cases h with
  | queueing a => exact hP a hh
  | rechecking p => trivial
  | draining p conn => exact fun ch hch => hQ ch p (hh ch hch)
  | forwarding p conn batch =>
    exact ⟨fun ch hch => hQ ch p (hh.1 ch hch), fun a ha => ⟨(hh.2 a ha).1, hP a (hh.2 a ha).2⟩⟩

theorem RelayState.Holds.mono (h : r.Holds P Q) (hP : ∀ a, P a → P' a)
    (hQ : ∀ ch p, Q ch p → Q' ch p) : r.Holds P' Q' where
  tables := h.tables.mono hP hQ
  handlers := fun hnd hmem => (h.handlers hnd hmem).mono hP hQ

namespace Tables.Holds

theorem hand (h : t.Holds P Q) {ch : ChanId} {frames : List Accepted}
    (hframes : ∀ a ∈ frames, Q ch a.toId ∧ P a) : (t.hand ch frames).Holds P Q where
  routes := h.routes
  conns := h.conns
  queued := h.queued
  handed := by
    intro x hx
    rcases List.mem_append.mp hx with hold | hnew
    · exact h.handed x hold
    · obtain ⟨a, ha, rfl⟩ := List.mem_map.mp hnew
      exact hframes a ha

/-- A frame is stored in its own recipient's queue. -/
theorem enqueuePending (h : t.Holds P Q) (now : UInt64) {a : Accepted} (ha : P a) :
    (t.enqueuePending now a).Holds P Q := by
  rcases t.enqueuePending_cases now a with heq | ⟨pending, evicted, kept, heq, hbefore, hafter, hother⟩
  · rw [heq]
    exact h
  · rw [heq]
    refine ⟨h.routes, h.conns, ?_, h.handed⟩
    intro p f hf
    by_cases hp : p = a.toId
    · subst hp
      have hf' : f ∈ kept ++ [a.entry now] := hafter ▸ hf
      rcases List.mem_append.mp hf' with hkept | hnew
      · refine h.queued a.toId f ?_
        rw [hbefore]
        exact List.mem_append_right _ hkept
      · cases List.mem_singleton.mp hnew
        exact ⟨rfl, ha⟩
    · exact h.queued p f (hother p hp ▸ hf)

theorem drainQueue (h : t.Holds P Q) (now : UInt64) (p : PeerId) :
    (t.drainQueue now p).1.Holds P Q ∧
      ∀ f ∈ (t.drainQueue now p).2, f.origin.toId = p ∧ P f.origin := by
  obtain ⟨hbatch, hempty, hother⟩ := PendingStore.queue_drain now t.pending p
  refine ⟨⟨h.routes, h.conns, fun p' f hf => ?_, h.handed⟩, fun f hf => ?_⟩
  · have hf' : f ∈ (t.pending.drain now p).1.queue p' := hf
    by_cases hp : p' = p
    · rw [hp, hempty] at hf'
      cases hf'
    · rw [hother p' hp] at hf'
      exact h.queued p' f hf'
  · have hf' : f ∈ (t.pending.drain now p).2 := hf
    rw [hbatch] at hf'
    exact h.queued p f (List.mem_filter.mp hf').1

/-- A batch of `p`'s frames goes to `p`'s route. -/
theorem forward (h : t.Holds P Q) {p : PeerId} {batch : List Accepted} (sends : Nat)
    (hbatch : ∀ a ∈ batch, a.toId = p ∧ P a) : (t.forward p batch sends).Holds P Q := by
  have hroute : ∀ {ch : ChanId}, t.liveRoute p = some ch → ∀ a ∈ batch, Q ch a.toId ∧ P a := by
    intro ch hch a ha
    obtain ⟨hlook, -⟩ := Option.filter_eq_some_iff.mp hch
    rw [(hbatch a ha).1]
    exact ⟨h.routes p ch hlook, (hbatch a ha).2⟩
  unfold Tables.forward
  split
  · exact ⟨h.routes, h.conns, h.queued, h.handed⟩
  · next ch hch =>
    split
    · exact h.hand (hroute hch)
    · have hsome : (t.hand ch (batch.take sends)).Holds P Q :=
        h.hand fun a ha => hroute hch a (List.mem_of_mem_take ha)
      exact ⟨hsome.routes, hsome.conns, hsome.queued, hsome.handed⟩

theorem finish (h : t.Holds P Q) {p : PeerId} {conn : Option ChanId}
    (hconn : ∀ ch ∈ conn, Q ch p) : (t.finish p conn).Holds P Q where
  routes := h.routes
  conns := by
    intro c hc
    rcases List.mem_append.mp hc with hold | hnew
    · exact h.conns c hold
    · obtain ⟨ch, hch, rfl⟩ := Option.map_eq_some_iff.mp (Option.mem_toList.mp hnew)
      exact hconn ch hch
  queued := h.queued
  handed := h.handed

theorem disconnect (h : t.Holds P Q) (p : PeerId) (ch : ChanId) :
    (t.disconnect p ch).Holds P Q where
  routes := by
    intro p' ch' hlook
    have hlook' : AList.lookup p' (if t.routes.lookup p = some ch then t.routes.erase p
        else t.routes) = some ch' := hlook
    split at hlook'
    · by_cases hp : p' = p
      · rw [hp, AList.lookup_erase] at hlook'
        cases hlook'
      · rw [AList.lookup_erase_ne hp] at hlook'
        exact h.routes p' ch' hlook'
    · exact h.routes p' ch' hlook'
  conns := fun c hc => h.conns c (List.mem_of_mem_erase hc)
  queued := h.queued
  handed := h.handed

theorem collect (h : t.Holds P Q) (now : UInt64) : (t.collect now).Holds P Q where
  routes := h.routes
  conns := h.conns
  queued := by
    intro p f hf
    have hf' : f ∈ (t.pending.gcExpired now).1.queue p := hf
    rw [PendingStore.queue_gcExpired] at hf'
    exact h.queued p f (List.mem_filter.mp hf').1
  handed := h.handed

/-- One lock region. -/
theorem exec (ht : t.Holds P Q) {h : Handler} (hh : h.Holds P Q) (now : UInt64) (sends : Nat) :
    (h.exec t now sends).1.Holds P Q ∧ ∀ h' ∈ (h.exec t now sends).2, h'.Holds P Q := by
  cases h with
  | queueing a =>
    refine ⟨ht.enqueuePending now hh, fun h' hh' => ?_⟩
    cases hh'
    trivial
  | rechecking p =>
    refine ⟨ht, fun h' hh' => ?_⟩
    obtain ⟨_, rfl⟩ : t.routeIsLive p = true ∧ Handler.draining p none = h' := by
      simpa [Handler.exec] using hh'
    rintro ch ⟨⟩
  | draining p conn =>
    obtain ⟨hdrained, hbatch⟩ := ht.drainQueue now p
    simp only [Handler.exec]
    split
    · exact ⟨hdrained.finish hh, by rintro h' ⟨⟩⟩
    · refine ⟨hdrained, fun h' hh' => ?_⟩
      cases hh'
      refine ⟨hh, fun a ha => ?_⟩
      obtain ⟨f, hf, rfl⟩ := List.mem_map.mp ha
      exact hbatch f hf
  | forwarding p conn batch =>
    exact ⟨(ht.forward sends hh.2).finish hh.1, by rintro h' ⟨⟩⟩

end Tables.Holds

/-- One step of the routing tables. -/
theorem RelayState.Holds.step {ev : RelayEvent} (h : r.Holds P Q) (hev : ev.Brings P Q r)
    (hstep : RelayStep r ev r') : r'.Holds P Q := by
  cases hstep with
  | @send a _ =>
    unfold RelayState.lookupAndSend
    split
    · next ch hch =>
      obtain ⟨hlook, -⟩ := Option.filter_eq_some_iff.mp hch
      refine ⟨h.tables.hand fun b hb => ?_, h.handlers⟩
      cases List.mem_singleton.mp hb
      exact ⟨h.tables.routes a.toId ch hlook, hev⟩
    · refine ⟨h.tables, fun hnd hmem => ?_⟩
      rcases List.mem_append.mp hmem with hold | hnew
      · exact h.handlers hnd hold
      · cases List.mem_singleton.mp hnew
        exact hev
  | @hello p =>
    refine ⟨⟨fun p' ch hlook => ?_, h.tables.conns, h.tables.queued, h.tables.handed⟩,
      fun hnd hmem => ?_⟩
    · rcases AList.lookup_insert_cases hlook with ⟨rfl, rfl⟩ | ⟨-, hold⟩
      · exact hev
      · exact h.tables.routes p' ch hold
    · rcases List.mem_append.mp hmem with hold | hnew
      · exact h.handlers hnd hold
      · cases List.mem_singleton.mp hnew
        intro ch hch
        cases hch
        exact hev
  | @exec pre post hnd now sends hs =>
    have hmem : ∀ h' ∈ pre ++ hnd :: post, h'.Holds P Q := hs ▸ h.handlers
    obtain ⟨htables, hleft⟩ := h.tables.exec (hmem hnd (by simp)) now sends
    refine ⟨htables, fun h' hin => ?_⟩
    rcases List.mem_append.mp hin with hin | hpost
    · rcases List.mem_append.mp hin with hpre | hnew
      · exact hmem h' (List.mem_append_left _ hpre)
      · exact hleft h' (Option.mem_toList.mp hnew)
    · exact hmem h' (List.mem_append_right _ (List.mem_cons_of_mem _ hpost))
  | disconnect _ => exact ⟨h.tables.disconnect _ _, h.handlers⟩
  | writerExit _ =>
    exact ⟨⟨h.tables.routes, h.tables.conns, h.tables.queued, h.tables.handed⟩, h.handlers⟩
  | collect => exact ⟨h.tables.collect _, h.handlers⟩

end Pizzini.Relay
