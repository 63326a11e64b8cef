import Pizzini.Relay.ServerSafety

/-!
# A frame that was read is forwarded once

Of each frame that a connection has read, the relay hands on at most one copy:
it is in an arm, or at the lookup of its route, or handed over
(`Traffic.forwards`), and these places pass it on. The routing tables are those
of `Routing`, of which each step of the whole relay is a step or none
(`ServerStep.relayStep`), so what is proved there of every run holds here: a
frame is handed over once, and none is left behind (`forwarded_once`).
-/

namespace Pizzini.Relay

open Runs Wire Delivery Client

variable {K Pub : Type}

/-- The frames an arm still has, with those that got to the lookup of `Routing`
and the bundle frames handed over, each with the channel it was read from. -/
def Traffic.forwards (t : Traffic) : List (ChanId × Bytes) :=
  t.arms.map (fun x => (x.1, x.2.frame)) ++
    (t.log.routed.map (fun x => (x.1, x.2.bytes)) ++
      t.log.exchanged.map fun x => (x.1, x.2.2))

structure Traffic.Once (t : Traffic) : Prop where
  single : Single t.relay
  covered : Covered t.relay
  counted : ∀ x, t.forwards.count x ≤ t.log.read.count x

/-! ## The steps of `Routing` -/

section Steps

variable {env : ServerEnv Pub} {prior : List ChainRegistration} {loaded : Accepted → Prop}
  {t t' : Traffic} {ch : ChanId} {frame : Bytes} {s s' : Server K}

/-- The first region of an arm leaves the routing tables alone, and takes up its
frame at most once. -/
theorem Dispatched.once (h : Dispatched env prior ch frame t t') :
    t'.relay = t.relay ∧ t'.log.read = t.log.read ∧
      ∀ x, t'.forwards.count x ≤ t.forwards.count x + [(ch, frame)].count x := by
  cases h with
  | quiet => exact ⟨rfl, rfl, fun x => Nat.le_add_right _ _⟩
  | replied _ => exact ⟨rfl, rfl, fun x => Nat.le_add_right _ _⟩
  | registered _ _ => exact ⟨rfl, rfl, fun x => Nat.le_add_right _ _⟩
  | refused _ => exact ⟨rfl, rfl, fun x => Nat.le_add_right _ _⟩
  | proceeds _ _ hframe =>
    refine ⟨rfl, rfl, fun x => ?_⟩
    simp only [Traffic.forwards, List.map_append, List.map_cons, List.map_nil, List.count_append,
      hframe]
    omega

variable (env ch s) in
/-- The next region of an arm passes its frame on, or drops it. -/
theorem execArm_once [LinearOrder K] (oldest : SendDedupeKey) (now : K) (a : Arm) :
    let next := s.execArm env oldest now ch a
    ((∃ b, RelayStep s.relay (.send b) next.1.relay) ∨ next.1.relay = s.relay) ∧
      next.1.log.read = s.log.read ∧
        ∀ x, ((next.2.map fun a' => (ch, a'.frame)).toList ++
          (next.1.log.routed.map (fun x => (x.1, x.2.bytes)) ++
            next.1.log.exchanged.map fun x => (x.1, x.2.2))).count x ≤
          [(ch, a.frame)].count x + (s.log.routed.map (fun x => (x.1, x.2.bytes)) ++
            s.log.exchanged.map fun x => (x.1, x.2.2)).count x := by
  cases a with
  | dedupe selfId frameType body parsed =>
    simp only [Server.execArm]
    split
    · exact ⟨.inr rfl, rfl, fun x => Nat.le_add_left _ _⟩
    · refine ⟨.inr rfl, rfl, fun x => ?_⟩
      exact Nat.le_of_eq List.count_append
  | deliver f =>
    refine ⟨.inl ⟨_, .send rfl⟩, rfl, fun x => ?_⟩
    simp only [Server.execArm, Option.map_none, Option.toList_none, List.nil_append,
      List.map_append, List.map_cons, List.map_nil, List.count_append, Passed.accept, Arm.frame]
    omega
  | exchange toId bytes =>
    simp only [Server.execArm]
    split
    · exact ⟨.inr rfl, rfl, fun x => Nat.le_add_left _ _⟩
    · refine ⟨.inr rfl, rfl, fun x => ?_⟩
      simp only [Option.map_none, Option.toList_none, List.nil_append, List.map_append,
        List.map_cons, List.map_nil, List.count_append, Arm.frame]
      omega

variable [Ring K] [LinearOrder K] {e : ServerEvent K}

/-- Below the connections the relay is that of `Routing`. -/
theorem ServerStep.relayStep (h : s.traffic.Sound env prior loaded)
    (hstep : ServerStep env s e s') :
    s'.relay = s.relay ∨ ∃ ev, RelayStep s.relay ev s'.relay := by
  cases hstep with
  | @firstFrame nowSecs now frame =>
    left
    unfold Server.firstFrame
    split
    · rfl
    · split
      · rfl
      · split
        · rfl
        · split
          · rfl
          · rfl
  | @greet pre post o now hs =>
    cases o with
    | proven hello => exact .inl rfl
    | keyed hello => exact .inr ⟨_, .hello⟩
  | @read selfId ch at' frame hconn _ _ =>
    have hread : Traffic.Sound env prior loaded (Server.traffic
        { s with log := { s.log with read := s.log.read ++ [(ch, frame)] } }) := h.read frame
    exact .inl (dispatch_dispatched at' hread (List.mem_append_right _ (List.mem_singleton_self _))
      (h.tables.tables.conns _ hconn)).once.1
  | @arm pre post ch a oldest now hs _ =>
    rcases (execArm_once env ch s oldest now a).1 with ⟨b, hsend⟩ | hsame
    · exact .inr ⟨_, hsend⟩
    · exact .inl hsame
  | relay _ hstep => exact .inr ⟨_, hstep⟩
  | disconnect hconn _ => exact .inr ⟨_, .disconnect hconn⟩
  | @collect gc =>
    left
    cases gc <;> rfl

/-- One step. -/
theorem ServerStep.once (hsound : s.traffic.Sound env prior loaded) (h : s.traffic.Once)
    (hstep : ServerStep env s e s') : s'.traffic.Once := by
  have hsingle : Single s'.relay := by
    rcases hstep.relayStep hsound with hsame | ⟨ev, hrelay⟩
    · exact hsame ▸ h.single
    · exact step_single h.single hrelay
  have hcovered : Covered s'.relay := by
    rcases hstep.relayStep hsound with hsame | ⟨ev, hrelay⟩
    · exact hsame ▸ h.covered
    · exact step_covered h.covered hrelay
  refine ⟨hsingle, hcovered, fun x => ?_⟩
  cases hstep with
  | @firstFrame nowSecs now frame =>
    have hsame : (s.firstFrame env nowSecs now frame).arms = s.arms ∧
        (s.firstFrame env nowSecs now frame).log = s.log := by
      unfold Server.firstFrame
      split
      · exact ⟨rfl, rfl⟩
      · split
        · exact ⟨rfl, rfl⟩
        · split
          · exact ⟨rfl, rfl⟩
          · split
            · exact ⟨rfl, rfl⟩
            · exact ⟨rfl, rfl⟩
    have hcounted := h.counted x
    simp only [Traffic.forwards, Server.traffic, hsame.1, hsame.2] at hcounted ⊢
    exact hcounted
  | @greet pre post o now hs =>
    cases o with
    | proven hello => exact h.counted x
    | keyed hello => exact h.counted x
  | @read selfId ch at' frame hconn _ _ =>
    have hread : Traffic.Sound env prior loaded (Server.traffic
        { s with log := { s.log with read := s.log.read ++ [(ch, frame)] } }) := hsound.read frame
    obtain ⟨-, hreads, hforwards⟩ := (dispatch_dispatched at' hread
      (List.mem_append_right _ (List.mem_singleton_self _)) (hsound.tables.tables.conns _ hconn)).once
    calc ((s.readFrame env at' selfId ch frame).traffic.forwards).count x
        ≤ s.traffic.forwards.count x + [(ch, frame)].count x := hforwards x
      _ ≤ s.log.read.count x + [(ch, frame)].count x := Nat.add_le_add_right (h.counted x) _
      _ = (s.log.read ++ [(ch, frame)]).count x := List.count_append.symm
      _ = (s.readFrame env at' selfId ch frame).log.read.count x := by
        rw [show (s.readFrame env at' selfId ch frame).log.read = s.log.read ++ [(ch, frame)] from
          hreads]
  | @arm pre post ch a oldest now hs _ =>
    obtain ⟨-, hreads, hnext⟩ := execArm_once env ch s oldest now a
    have hcounted := h.counted x
    have hnext' := hnext x
    simp only [Traffic.forwards, Server.traffic, hs, List.map_append, List.map_cons,
      List.count_append, List.count_cons] at hcounted hnext' ⊢
    rw [hreads]
    simp only [List.count_nil, Nat.zero_add] at hnext'
    have hleft : (((s.execArm env oldest now ch a).2.map fun a' => (ch, a')).toList.map
        fun x => (x.1, x.2.frame)) =
          ((s.execArm env oldest now ch a).2.map fun a' => (ch, a'.frame)).toList := by
      cases (s.execArm env oldest now ch a).2 with
      | none => rfl
      | some a' => rfl
    rw [hleft]
    omega
  | relay _ _ => exact h.counted x
  | disconnect _ _ => exact h.counted x
  | @collect gc => cases gc <;> exact h.counted x

end Steps

/-! ## Runs -/

section Runs

variable {env : ServerEnv Pub} {prior : List ChainRegistration} {s₀ s : Server K}

theorem Server.Started.once (h : s₀.Started env prior) : s₀.traffic.Once where
  single := single_started h.relay
  covered := by
    intro p hw
    have hlive : s₀.relay.tables.routeIsLive p = true := hw.1
    rw [Tables.routeIsLive, Tables.liveRoute, h.relay.routes] at hlive
    cases hlive
  counted := by
    intro x
    simp [Traffic.forwards, Server.traffic, h.arms, h.log, ServerLog.empty]

variable [Ring K] [LinearOrder K]

/-- **No frame is multiplied, and none is left behind.** In every state of every
run of the whole relay, the frames with the bytes `bytes` that were read from
the channel `src` were handed on at most as often as they were read, to queues
or connections; and a peer whose route is open has nothing queued once the
handlers are done. -/
theorem forwarded_once (hstart : s₀.Started env prior)
    (hrun : Reach (ServerStep env) (fun _ _ => True) s₀ s) :
    (∀ src bytes, ((s.relay.tables.history.handed.map Prod.snd).filter fun a =>
        (src, a) ∈ s.log.routed ∧ a.bytes = bytes).length +
      (s.log.exchanged.map fun x => (x.1, x.2.2)).count (src, bytes) ≤
        s.log.read.count (src, bytes)) ∧
    (s.relay.handlers = [] → ∀ p, s.relay.tables.routeIsLive p = true →
      s.relay.tables.pending.queue p = []) := by
  obtain ⟨-, honce⟩ : s.traffic.Sound env prior s₀.loaded ∧ s.traffic.Once :=
    hrun.invariant (fun s => s.traffic.Sound env prior s₀.loaded ∧ s.traffic.Once)
      (fun h _ hstep => ⟨hstep.sound h.1, hstep.once h.1 h.2⟩) ⟨hstart.sound, hstart.once⟩
  constructor
  · intro src bytes
    -- a frame is handed over once, so the hand-overs are among the lookups
    have hnodup : (s.relay.tables.history.handed.map Prod.snd).Nodup := by
      refine List.nodup_iff_count_le_one.mpr fun a => ?_
      have hle := honce.single.once a
      simp only [RelayState.occ, Tables.occ, Server.traffic] at hle
      omega
    have hamong : ((s.relay.tables.history.handed.map Prod.snd).filter fun a =>
        (src, a) ∈ s.log.routed ∧ a.bytes = bytes).length ≤
          (s.log.routed.map fun x => (x.1, x.2.bytes)).count (src, bytes) := by
      have hsubset : ((s.relay.tables.history.handed.map Prod.snd).filter fun a =>
          (src, a) ∈ s.log.routed ∧ a.bytes = bytes) ⊆
            (s.log.routed.filter fun x => (x.1, x.2.bytes) == (src, bytes)).map Prod.snd := by
        intro a ha
        obtain ⟨hrouted, hbytes⟩ := of_decide_eq_true (List.mem_filter.mp ha).2
        refine List.mem_map.mpr ⟨(src, a), List.mem_filter.mpr ⟨hrouted, ?_⟩, rfl⟩
        rw [hbytes]
        exact beq_self_eq_true _
      calc _ ≤ ((s.log.routed.filter fun x => (x.1, x.2.bytes) == (src, bytes)).map
            Prod.snd).length := ((hnodup.filter _).subperm hsubset).length_le
        _ = (s.log.routed.map fun x => (x.1, x.2.bytes)).count (src, bytes) := by
          rw [List.length_map, List.count_eq_countP, List.countP_map, List.countP_eq_length_filter]
          rfl
    have hcounted := honce.counted (src, bytes)
    simp only [Traffic.forwards, List.count_append, Server.traffic] at hcounted
    omega
  · intro hidle p hlive
    by_contra hne
    obtain ⟨h, hmem, -⟩ := honce.covered p ⟨hlive, hne⟩
    rw [show s.traffic.relay.handlers = [] from hidle] at hmem
    cases hmem

/-- The sample peer's one frame. -/
theorem forwarded_once_sample :
    ((servedServer.relay.tables.history.handed.map Prod.snd).filter fun a =>
      (0, a) ∈ servedServer.log.routed ∧ a.bytes = FRAME_TYPE_SEND :: sampleBody 1).length = 1 := by
  have hread : servedServer.log.read.count (0, FRAME_TYPE_SEND :: sampleBody 1) = 1 := by
    decide +kernel
  have hpos : 0 < ((servedServer.relay.tables.history.handed.map Prod.snd).filter fun a =>
      (0, a) ∈ servedServer.log.routed ∧ a.bytes = FRAME_TYPE_SEND :: sampleBody 1).length := by
    decide +kernel
  have hle := (forwarded_once started_emptyServer reach_servedServer).1 0
    (FRAME_TYPE_SEND :: sampleBody 1)
  omega

end Runs

end Pizzini.Relay
