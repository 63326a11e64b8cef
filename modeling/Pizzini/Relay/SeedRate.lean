import Mathlib.Data.Finset.Card
import Mathlib.Algebra.Order.Field.Rat
import Pizzini.Lib.Runs
import Pizzini.Lib.SlidingWindow
import Pizzini.Relay.FrameParsers
import Pizzini.Relay.PendingStore
import Pizzini.Relay.SoftState

/-!
# The rate limit of CHAIN_SEED_DELIVERY

A chain seed needs no delivery token, so the relay limits how many it takes:
four for each pair of sender and recipient in a minute, 16384 pairs in all, and
256 recipients for one connection. The limits live in three places (a queue of
instants for each pair, the map of these queues, and a set that belongs to the
connection), and the garbage collector empties the queues as well.

`SeedRelay` is the map, the connections, and a record of every accepted frame.
Its events are the arms of `read_loop` and the collector, in the order in which
they take the map's lock.
-/

namespace Pizzini.Relay

open Runs SlidingWindow Wire

variable {K : Type} [Ring K] [LinearOrder K]

/-! ## Constants (main.rs:707–746) -/

def CHAIN_SEED_DELIVERY_RATE_CAP : Nat := 4
def CHAIN_SEED_DELIVERY_RATE_WINDOW : K := 60
def CHAIN_SEED_DELIVERY_MAX_DISTINCT_TO_IDS : Nat := 256
def CHAIN_SEED_RATE_MAX_ENTRIES : Nat := 16384

/-! ## The handler (main.rs:1904–2012) -/

/-- `ChainSeedRate`: the instants of recently accepted frames, oldest first. -/
abbrev ChainSeedRate (K : Type) := Dict (PeerId × PeerId) (List K)

/-- The instants held for a pair. -/
def ChainSeedRate.queue (rate : ChainSeedRate K) (pair : PeerId × PeerId) : List K :=
  (rate.lookup pair).getD []

/-- `RateOutcome`. -/
inductive RateOutcome where
  | ok
  | perPairCap
  | globalCardinalityCap
  deriving DecidableEq, Repr

/-- The block that computes `rate_outcome` (main.rs:1961–1987). -/
def ChainSeedRate.check (rate : ChainSeedRate K) (now : K) (pair : PeerId × PeerId) :
    RateOutcome × ChainSeedRate K :=
  let cutoff := instantCutoff now CHAIN_SEED_DELIVERY_RATE_WINDOW
  if (rate.lookup pair).isNone ∧ CHAIN_SEED_RATE_MAX_ENTRIES ≤ rate.len then
    (.globalCardinalityCap, rate)
  else
    let entry := prune cutoff (rate.queue pair)
    if CHAIN_SEED_DELIVERY_RATE_CAP ≤ entry.length then (.perPairCap, rate.insert pair entry)
    else (.ok, rate.insert pair (entry ++ [now]))

/-- What the arm keeps for its connection: the id of the HELLO, and
`chain_seed_to_ids`. -/
structure SeedConn where
  selfId : PeerId
  toIds : Finset PeerId

/-- What becomes of a frame. -/
inductive SeedVerdict where
  | malformed (reason : String)
  | spoofedFromId
  | distinctToIdsCap
  | perPairCap
  | globalCardinalityCap
  | accepted (toId : PeerId)
  deriving DecidableEq, Repr

/-- The arm of `read_loop` up to the acceptance of the frame. -/
def chainSeedDelivery (now : K) (body : Bytes) (conn : SeedConn) (rate : ChainSeedRate K) :
    SeedVerdict × SeedConn × ChainSeedRate K :=
  match parseRouted body with
  | .error reason => (.malformed reason, conn, rate)
  | .ok parsed =>
    if parsed.fromId ≠ conn.selfId then (.spoofedFromId, conn, rate)
    else if parsed.toId ∉ conn.toIds ∧
        CHAIN_SEED_DELIVERY_MAX_DISTINCT_TO_IDS ≤ conn.toIds.card then
      (.distinctToIdsCap, conn, rate)
    else match rate.check now (parsed.fromId, parsed.toId) with
      | (.perPairCap, rate) => (.perPairCap, conn, rate)
      | (.globalCardinalityCap, rate) => (.globalCardinalityCap, conn, rate)
      | (.ok, rate) =>
        (.accepted parsed.toId, { conn with toIds := insert parsed.toId conn.toIds }, rate)

/-- A tick of `spawn_chain_seed_rate_gc` (main.rs:2768–2800). -/
def ChainSeedRate.gc (rate : ChainSeedRate K) (now : K) : ChainSeedRate K :=
  let cutoff := instantCutoff now CHAIN_SEED_DELIVERY_RATE_WINDOW
  (rate.mapVals (prune cutoff)).retain fun _ queue => !queue.isEmpty

/-! ## The map through its queues -/

section Queues

variable (rate : ChainSeedRate K) (now : K) (pair : PeerId × PeerId)

omit [Ring K] [LinearOrder K] in
theorem queue_insert (queue : List K) (pair' : PeerId × PeerId) :
    ChainSeedRate.queue (AList.insert pair queue rate) pair' =
      if pair' = pair then queue else rate.queue pair' := by
  rw [ChainSeedRate.queue, AList.lookup_insert_of_eq_or_ne]
  split
  · rfl
  · rfl

/-- The collector prunes every queue; one that it empties goes, and reads as empty. -/
theorem queue_gc :
    (rate.gc now).queue pair =
      prune (instantCutoff now CHAIN_SEED_DELIVERY_RATE_WINDOW) (rate.queue pair) := by
  rw [ChainSeedRate.gc, ChainSeedRate.queue, AList.lookup_retain, AList.lookup_mapVals,
    ChainSeedRate.queue]
  cases rate.lookup pair with
  | none => rfl
  | some queue =>
    rw [Option.map_some, Option.getD_some, Option.filter_some]
    by_cases hempty : prune (instantCutoff now CHAIN_SEED_DELIVERY_RATE_WINDOW) queue = []
    · rw [hempty]
      rfl
    · rw [if_pos (by simpa using hempty)]
      rfl

/-- A refusal leaves the map alone or prunes the pair's queue; an acceptance
also appends to it, and found room. -/
theorem check_cases :
    rate.check now pair = (.globalCardinalityCap, rate) ∨
      (∃ queue, rate.lookup pair = some queue ∧
        rate.check now pair = (.perPairCap, rate.insert pair
          (prune (instantCutoff now CHAIN_SEED_DELIVERY_RATE_WINDOW) queue))) ∨
      rate.check now pair = (.ok, rate.insert pair
          (prune (instantCutoff now CHAIN_SEED_DELIVERY_RATE_WINDOW) (rate.queue pair) ++ [now])) ∧
        (prune (instantCutoff now CHAIN_SEED_DELIVERY_RATE_WINDOW) (rate.queue pair)).length <
          CHAIN_SEED_DELIVERY_RATE_CAP ∧
        (rate.lookup pair = none → rate.len < CHAIN_SEED_RATE_MAX_ENTRIES) := by
  unfold ChainSeedRate.check
  split
  · exact .inl rfl
  next hglobal =>
  simp only
  split
  next hfull =>
    -- an absent pair has an empty queue, which is not full
    refine .inr (.inl ?_)
    rw [ChainSeedRate.queue] at hfull ⊢
    cases hlook : rate.lookup pair with
    | none =>
      rw [hlook] at hfull
      exact absurd hfull (Nat.not_succ_le_zero 3)
    | some queue => exact ⟨queue, rfl, rfl⟩
  next hroom =>
    refine .inr (.inr ⟨rfl, Nat.lt_of_not_le hroom, fun hnone => Nat.lt_of_not_le fun hlen => ?_⟩)
    exact hglobal ⟨by rw [hnone]; rfl, hlen⟩

end Queues

/-! ## Connections, frames and ticks -/

/-- Ghost: a frame that was accepted, with its connection and its instant. -/
structure AcceptedSeed (K : Type) where
  conn : Nat
  fromId : PeerId
  toId : PeerId
  instant : K

/-- The map, and the connections in their read loops by a number of their own.
`clock` is the last instant, and `accepted` a ghost record. -/
structure SeedRelay (K : Type) where
  clock : K
  rate : ChainSeedRate K
  conns : Dict Nat SeedConn
  nextConn : Nat
  accepted : List (AcceptedSeed K)

inductive SeedEvent (K : Type) where
  | hello (selfId : PeerId)
  | frame (c : Nat) (body : Bytes) (now : K)
  | disconnect (c : Nat)
  | gc (now : K)

/-- A relay that has just started. -/
def SeedRelay.started (clock : K) : SeedRelay K := ⟨clock, ∅, ∅, 0, []⟩

/-- A frame on connection `c`. -/
def SeedRelay.frame (s : SeedRelay K) (c : Nat) (conn : SeedConn) (body : Bytes) (now : K) :
    SeedRelay K :=
  let (verdict, conn', rate) := chainSeedDelivery now body conn s.rate
  { s with
    clock := now
    rate
    conns := s.conns.insert c conn'
    accepted := s.accepted ++ match verdict with
      | .accepted toId => [⟨c, conn.selfId, toId, now⟩]
      | _ => [] }

/-- One arm of `read_loop`, or a tick; instants do not decrease. -/
inductive SeedStep : SeedRelay K → SeedEvent K → SeedRelay K → Prop where
  | hello {s : SeedRelay K} {selfId : PeerId} :
      SeedStep s (.hello selfId)
        { s with
          conns := s.conns.insert s.nextConn ⟨selfId, ∅⟩
          nextConn := s.nextConn + 1 }
  | frame {s : SeedRelay K} {c : Nat} {conn : SeedConn} {body : Bytes} {now : K}
      (hconn : s.conns.lookup c = some conn) (hclock : s.clock ≤ now) :
      SeedStep s (.frame c body now) (s.frame c conn body now)
  | disconnect {s : SeedRelay K} {c : Nat} :
      SeedStep s (.disconnect c) { s with conns := s.conns.erase c }
  | gc {s : SeedRelay K} {now : K} (hclock : s.clock ≤ now) :
      SeedStep s (.gc now)
        { s with
          clock := now
          rate := s.rate.gc now }

/-- The host has been up for longer than the window. -/
def UpForWindow (_ : SeedRelay K) : SeedEvent K → Prop
  | .frame _ _ now => CHAIN_SEED_DELIVERY_RATE_WINDOW ≤ now
  | .gc now => CHAIN_SEED_DELIVERY_RATE_WINDOW ≤ now
  | _ => True

/-- When frames of a pair were accepted. -/
def acceptedAt (accepted : List (AcceptedSeed K)) (pair : PeerId × PeerId) : List K :=
  (accepted.filter fun f => (f.fromId, f.toId) = pair).map AcceptedSeed.instant

/-- The recipients of the frames accepted on a connection. -/
def recipientsOf (accepted : List (AcceptedSeed K)) (c : Nat) : Finset PeerId :=
  ((accepted.filter fun f => f.conn = c).map AcceptedSeed.toId).toFinset

/-! ## What a frame does -/

/-- A frame that is not accepted leaves the connection's set alone, and the map
as it was for every later decision: the same pairs, and for each the same
instants that still count. -/
structure SameBudget (now : K) (conn conn' : SeedConn) (rate rate' : ChainSeedRate K) : Prop where
  conn : conn' = conn
  pairs : ∀ pair, rate'.lookup pair = none ↔ rate.lookup pair = none
  queues : ∀ pair later, now ≤ later →
    prune (later - CHAIN_SEED_DELIVERY_RATE_WINDOW) (rate'.queue pair) =
      prune (later - CHAIN_SEED_DELIVERY_RATE_WINDOW) (rate.queue pair)

theorem SameBudget.refl (now : K) (conn : SeedConn) (rate : ChainSeedRate K) :
    SameBudget now conn conn rate rate :=
  ⟨rfl, fun _ => Iff.rfl, fun _ _ _ => rfl⟩

variable [IsStrictOrderedRing K]

/-- What an arm of `read_loop` may do to the connection and the map. -/
inductive SeedHandled (now : K) (conn : SeedConn) (rate : ChainSeedRate K) :
    SeedVerdict × SeedConn × ChainSeedRate K → Prop where
  | untouched {verdict : SeedVerdict} (h : ∀ toId, verdict ≠ .accepted toId) :
      SeedHandled now conn rate (verdict, conn, rate)
  | pruned {toId : PeerId} {queue : List K} (hlook : rate.lookup (conn.selfId, toId) = some queue) :
      SeedHandled now conn rate
        (.perPairCap, conn, rate.insert (conn.selfId, toId)
          (prune (now - CHAIN_SEED_DELIVERY_RATE_WINDOW) queue))
  | accepted {toId : PeerId}
      (hroom : (prune (now - CHAIN_SEED_DELIVERY_RATE_WINDOW)
        (rate.queue (conn.selfId, toId))).length < CHAIN_SEED_DELIVERY_RATE_CAP)
      (hpairs : rate.lookup (conn.selfId, toId) = none → rate.len < CHAIN_SEED_RATE_MAX_ENTRIES)
      (hto : toId ∉ conn.toIds → conn.toIds.card < CHAIN_SEED_DELIVERY_MAX_DISTINCT_TO_IDS) :
      SeedHandled now conn rate
        (.accepted toId, { conn with toIds := insert toId conn.toIds },
          rate.insert (conn.selfId, toId)
            (prune (now - CHAIN_SEED_DELIVERY_RATE_WINDOW) (rate.queue (conn.selfId, toId)) ++
              [now]))

omit [IsStrictOrderedRing K] in
theorem chainSeedDelivery_handled {now : K} (hup : CHAIN_SEED_DELIVERY_RATE_WINDOW ≤ now)
    (body : Bytes) (conn : SeedConn) (rate : ChainSeedRate K) :
    SeedHandled now conn rate (chainSeedDelivery now body conn rate) := by
  unfold chainSeedDelivery
  split
  · exact .untouched fun _ h => SeedVerdict.noConfusion h
  next parsed _ =>
  split
  · exact .untouched fun _ h => SeedVerdict.noConfusion h
  next hself =>
  split
  · exact .untouched fun _ h => SeedVerdict.noConfusion h
  next hto =>
  obtain hglobal | ⟨queue, hlook, hpair⟩ | ⟨hok, hroom, hpairs⟩ :=
    check_cases rate now (parsed.fromId, parsed.toId)
  · rw [hglobal]
    exact .untouched fun _ h => SeedVerdict.noConfusion h
  · rw [instantCutoff_eq hup] at hpair
    rw [hpair]
    rw [not_not.mp hself] at hlook ⊢
    exact .pruned hlook
  · rw [instantCutoff_eq hup] at hok hroom
    rw [hok]
    rw [not_not.mp hself] at hroom hpairs ⊢
    exact .accepted hroom hpairs fun hnew => Nat.lt_of_not_le fun hfull => hto ⟨hnew, hfull⟩

/-- A refused frame consumes no budget. -/
theorem sameBudget_of_refused {now : K} (hup : CHAIN_SEED_DELIVERY_RATE_WINDOW ≤ now)
    (body : Bytes) (conn : SeedConn) (rate : ChainSeedRate K)
    (h : ∀ toId, (chainSeedDelivery now body conn rate).1 ≠ .accepted toId) :
    SameBudget now conn (chainSeedDelivery now body conn rate).2.1 rate
      (chainSeedDelivery now body conn rate).2.2 := by
  have hhandled := chainSeedDelivery_handled hup body conn rate
  generalize chainSeedDelivery now body conn rate = r at h hhandled ⊢
  cases hhandled with
  | untouched _ => exact .refl now conn rate
  | accepted _ _ _ => exact absurd rfl (h _)
  | @pruned toId queue hlook =>
    refine ⟨rfl, fun pair => ?_, fun pair later hlater => ?_⟩
    · rw [AList.lookup_insert_of_eq_or_ne]
      by_cases hpair : pair = (conn.selfId, toId)
      · rw [if_pos hpair, hpair, hlook]
        exact ⟨nofun, nofun⟩
      · rw [if_neg hpair]
    · rw [queue_insert]
      by_cases hpair : pair = (conn.selfId, toId)
      · rw [if_pos hpair, hpair, ChainSeedRate.queue, hlook, Option.getD_some]
        exact prune_prune (sub_le_sub_right hlater _) queue
      · rw [if_neg hpair]

/-! ## The invariant -/

omit [Ring K] [LinearOrder K] [IsStrictOrderedRing K] in
theorem acceptedAt_append (accepted : List (AcceptedSeed K)) (f : AcceptedSeed K)
    (pair : PeerId × PeerId) :
    acceptedAt (accepted ++ [f]) pair =
      acceptedAt accepted pair ++ if (f.fromId, f.toId) = pair then [f.instant] else [] := by
  rw [acceptedAt, List.filter_append, List.map_append]
  by_cases hpair : (f.fromId, f.toId) = pair
  · rw [if_pos hpair, List.filter_cons_of_pos (by simpa using hpair)]
    rfl
  · rw [if_neg hpair, List.filter_cons_of_neg (by simpa using hpair)]
    rfl

omit [Ring K] [LinearOrder K] [IsStrictOrderedRing K] in
theorem recipientsOf_append (accepted : List (AcceptedSeed K)) (f : AcceptedSeed K) (c : Nat) :
    recipientsOf (accepted ++ [f]) c =
      if f.conn = c then insert f.toId (recipientsOf accepted c) else recipientsOf accepted c := by
  rw [recipientsOf, List.filter_append, List.map_append, List.toFinset_append]
  by_cases hc : f.conn = c
  · rw [if_pos hc, List.filter_cons_of_pos (by simpa using hc), List.filter_nil]
    exact Finset.union_comm _ _
  · rw [if_neg hc, List.filter_cons_of_neg (by simpa using hc), List.filter_nil]
    exact Finset.union_empty _

/-- Every pair's queue tracks its accepted frames, and the map is within its cap. -/
structure RateInv (clock : K) (rate : ChainSeedRate K) (accepted : List (AcceptedSeed K)) :
    Prop where
  tracks : ∀ pair, Tracks CHAIN_SEED_DELIVERY_RATE_WINDOW CHAIN_SEED_DELIVERY_RATE_CAP clock
    (acceptedAt accepted pair) (rate.queue pair)
  pairs : rate.len ≤ CHAIN_SEED_RATE_MAX_ENTRIES

namespace RateInv

variable {clock now : K} {rate : ChainSeedRate K} {accepted : List (AcceptedSeed K)}

omit [IsStrictOrderedRing K] in
theorem mono (h : RateInv clock rate accepted) (hnow : clock ≤ now) :
    RateInv now rate accepted where
  tracks := fun pair => (h.tracks pair).mono hnow
  pairs := h.pairs

/-- A full pair's queue is pruned. -/
theorem prune (h : RateInv clock rate accepted) (hnow : clock ≤ now) {pair : PeerId × PeerId}
    {queue : List K} (hlook : rate.lookup pair = some queue) :
    RateInv now (rate.insert pair
      (SlidingWindow.prune (now - CHAIN_SEED_DELIVERY_RATE_WINDOW) queue)) accepted where
  tracks := by
    intro pair'
    rw [queue_insert]
    by_cases hpair : pair' = pair
    · have htracks := (h.tracks pair).prune hnow
      rw [ChainSeedRate.queue, hlook, Option.getD_some] at htracks
      rw [if_pos hpair, hpair]
      exact htracks
    · rw [if_neg hpair]
      exact (h.tracks pair').mono hnow
  pairs := AList.len_insert_le h.pairs (fun hnone => by rw [hlook] at hnone; cases hnone) _

/-- A frame is accepted for a pair with room. -/
theorem accept (h : RateInv clock rate accepted) (hnow : clock ≤ now) (f : AcceptedSeed K)
    (hf : f.instant = now)
    (hroom : (SlidingWindow.prune (now - CHAIN_SEED_DELIVERY_RATE_WINDOW)
      (rate.queue (f.fromId, f.toId))).length < CHAIN_SEED_DELIVERY_RATE_CAP)
    (hpairs : rate.lookup (f.fromId, f.toId) = none → rate.len < CHAIN_SEED_RATE_MAX_ENTRIES) :
    RateInv now (rate.insert (f.fromId, f.toId)
      (SlidingWindow.prune (now - CHAIN_SEED_DELIVERY_RATE_WINDOW)
        (rate.queue (f.fromId, f.toId)) ++ [now])) (accepted ++ [f]) where
  tracks := by
    intro pair
    rw [queue_insert, acceptedAt_append]
    by_cases hpair : pair = (f.fromId, f.toId)
    · rw [if_pos hpair, if_pos hpair.symm, hpair, hf]
      exact ((h.tracks _).prune hnow).accept le_rfl hroom
    · rw [if_neg hpair, if_neg (Ne.symm hpair), List.append_nil]
      exact (h.tracks pair).mono hnow
  pairs := AList.len_insert_le h.pairs hpairs _

/-- A tick of the collector. -/
theorem gc (h : RateInv clock rate accepted) (hnow : clock ≤ now)
    (hup : CHAIN_SEED_DELIVERY_RATE_WINDOW ≤ now) : RateInv now (rate.gc now) accepted where
  tracks := by
    intro pair
    rw [queue_gc, instantCutoff_eq hup]
    exact (h.tracks pair).prune hnow
  pairs := by
    refine (AList.len_retain_le _ _).trans ?_
    rw [AList.len, AList.mapVals, List.length_map]
    exact h.pairs

end RateInv

/-- A connection's set is the recipients of its accepted frames, within the cap. -/
structure ConnInv (conns : Dict Nat SeedConn) (nextConn : Nat) (accepted : List (AcceptedSeed K)) :
    Prop where
  toIds : ∀ c conn, conns.lookup c = some conn → recipientsOf accepted c = conn.toIds
  fresh : ∀ c, nextConn ≤ c → conns.lookup c = none ∧ recipientsOf accepted c = ∅
  recipients : ∀ c, (recipientsOf accepted c).card ≤ CHAIN_SEED_DELIVERY_MAX_DISTINCT_TO_IDS

namespace ConnInv

variable {conns conns' : Dict Nat SeedConn} {nextConn : Nat} {accepted : List (AcceptedSeed K)}

omit [Ring K] [LinearOrder K] [IsStrictOrderedRing K]

theorem hello (h : ConnInv conns nextConn accepted) (selfId : PeerId) :
    ConnInv (conns.insert nextConn ⟨selfId, ∅⟩) (nextConn + 1) accepted where
  toIds := by
    intro c conn hlook
    rw [AList.lookup_insert_of_eq_or_ne] at hlook
    by_cases hc : c = nextConn
    · rw [if_pos hc] at hlook
      cases hlook
      exact (h.fresh c (Nat.le_of_eq hc.symm)).2
    · rw [if_neg hc] at hlook
      exact h.toIds c conn hlook
  fresh := by
    intro c hc
    rw [AList.lookup_insert_of_eq_or_ne, if_neg (Nat.ne_of_gt hc)]
    exact h.fresh c (Nat.le_of_succ_le hc)
  recipients := h.recipients

/-- Connections may end, and those that go on are as they were. -/
theorem sub (h : ConnInv conns nextConn accepted)
    (hsub : ∀ c conn, conns'.lookup c = some conn → conns.lookup c = some conn) :
    ConnInv conns' nextConn accepted where
  toIds := fun c conn hlook => h.toIds c conn (hsub c conn hlook)
  fresh := by
    intro c hc
    obtain ⟨hnone, hrecipients⟩ := h.fresh c hc
    refine ⟨?_, hrecipients⟩
    cases hlook : conns'.lookup c with
    | none => rfl
    | some conn =>
      rw [hsub c conn hlook] at hnone
      cases hnone
  recipients := h.recipients

/-- A connection has a frame accepted. -/
theorem accept (h : ConnInv conns nextConn accepted) (f : AcceptedSeed K) {conn : SeedConn}
    (hconn : conns.lookup f.conn = some conn)
    (hto : f.toId ∉ conn.toIds → conn.toIds.card < CHAIN_SEED_DELIVERY_MAX_DISTINCT_TO_IDS) :
    ConnInv (conns.insert f.conn { conn with toIds := insert f.toId conn.toIds }) nextConn
      (accepted ++ [f]) where
  toIds := by
    intro c conn' hlook
    rw [AList.lookup_insert_of_eq_or_ne] at hlook
    rw [recipientsOf_append]
    by_cases hc : c = f.conn
    · rw [if_pos hc] at hlook
      cases hlook
      rw [if_pos hc.symm, hc, h.toIds _ _ hconn]
    · rw [if_neg hc] at hlook
      rw [if_neg (Ne.symm hc), h.toIds c conn' hlook]
  fresh := by
    intro c hc
    have hne : c ≠ f.conn := by
      rintro rfl
      rw [(h.fresh _ hc).1] at hconn
      cases hconn
    rw [AList.lookup_insert_of_eq_or_ne, if_neg hne, recipientsOf_append, if_neg (Ne.symm hne)]
    exact h.fresh c hc
  recipients := by
    intro c
    rw [recipientsOf_append]
    by_cases hc : f.conn = c
    · rw [if_pos hc, ← hc, h.toIds _ _ hconn]
      by_cases hmem : f.toId ∈ conn.toIds
      · rw [Finset.insert_eq_of_mem hmem, ← h.toIds _ _ hconn]
        exact h.recipients _
      · rw [Finset.card_insert_of_notMem hmem]
        exact hto hmem
    · rw [if_neg hc]
      exact h.recipients c

end ConnInv

/-- Between events. -/
structure SeedInv (s : SeedRelay K) : Prop where
  rate : RateInv s.clock s.rate s.accepted
  conns : ConnInv s.conns s.nextConn s.accepted

omit [IsStrictOrderedRing K] in
theorem seedInv_started (clock : K) : SeedInv (SeedRelay.started clock) where
  rate := ⟨fun _ => .empty _ _ _, Nat.zero_le _⟩
  conns := ⟨nofun, fun _ _ => ⟨rfl, rfl⟩, fun _ => Nat.zero_le _⟩

/-- A frame keeps the invariant. -/
theorem SeedInv.frame {s : SeedRelay K} (h : SeedInv s) {c : Nat} {conn : SeedConn}
    (hconn : s.conns.lookup c = some conn) (body : Bytes) {now : K} (hclock : s.clock ≤ now)
    (hup : CHAIN_SEED_DELIVERY_RATE_WINDOW ≤ now) : SeedInv (s.frame c conn body now) := by
  have hhandled := chainSeedDelivery_handled hup body conn s.rate
  have hsame : ConnInv (s.conns.insert c conn) s.nextConn s.accepted := by
    refine h.conns.sub fun c' conn' hlook => ?_
    rw [AList.lookup_insert_of_eq_or_ne] at hlook
    by_cases hc : c' = c
    · rw [if_pos hc] at hlook
      cases hlook
      rw [hc, hconn]
    · rw [if_neg hc] at hlook
      exact hlook
  unfold SeedRelay.frame
  generalize chainSeedDelivery now body conn s.rate = r at hhandled ⊢
  cases hhandled with
  | @untouched verdict hverdict =>
    cases verdict with
    | accepted toId => exact absurd rfl (hverdict toId)
    | _ =>
      simp only [List.append_nil]
      exact ⟨h.rate.mono hclock, hsame⟩
  | pruned hlook =>
    simp only [List.append_nil]
    exact ⟨h.rate.prune hclock hlook, hsame⟩
  | @accepted toId hroom hpairs hto =>
    exact ⟨h.rate.accept hclock ⟨c, conn.selfId, toId, now⟩ rfl hroom hpairs,
      h.conns.accept ⟨c, conn.selfId, toId, now⟩ hconn hto⟩

theorem SeedInv.step {s s' : SeedRelay K} {e : SeedEvent K} (h : SeedInv s)
    (hup : UpForWindow s e) (hstep : SeedStep s e s') : SeedInv s' := by
  cases hstep with
  | hello => exact ⟨h.rate, h.conns.hello _⟩
  | frame hconn hclock => exact h.frame hconn _ hclock hup
  | @disconnect c =>
    refine ⟨h.rate, h.conns.sub fun c' conn hlook => ?_⟩
    by_cases hc : c' = c
    · rw [hc, AList.lookup_erase] at hlook
      cases hlook
    · rwa [AList.lookup_erase_ne hc] at hlook
  | gc hclock => exact ⟨h.rate.gc hclock hup, h.conns⟩

/-- The limits of CHAIN_SEED_DELIVERY, in every reachable state: any minute has
at most four accepted frames of a pair, the map has at most 16384 pairs, a
connection has frames accepted for at most 256 recipients, and the next frame
consumes no budget if it is refused. -/
theorem chain_seed_limits {clock : K} {s : SeedRelay K}
    (hrun : Reach SeedStep UpForWindow (SeedRelay.started clock) s) :
    (∀ pair a, (inWindow CHAIN_SEED_DELIVERY_RATE_WINDOW a (acceptedAt s.accepted pair)).length ≤
        CHAIN_SEED_DELIVERY_RATE_CAP) ∧
      s.rate.len ≤ CHAIN_SEED_RATE_MAX_ENTRIES ∧
      (∀ c, (recipientsOf s.accepted c).card ≤ CHAIN_SEED_DELIVERY_MAX_DISTINCT_TO_IDS) ∧
      ∀ c conn body now, s.conns.lookup c = some conn → CHAIN_SEED_DELIVERY_RATE_WINDOW ≤ now →
        (∀ toId, (chainSeedDelivery now body conn s.rate).1 ≠ .accepted toId) →
        SameBudget now conn (chainSeedDelivery now body conn s.rate).2.1 s.rate
          (chainSeedDelivery now body conn s.rate).2.2 := by
  have hinv : SeedInv s := hrun.invariant SeedInv SeedInv.step (seedInv_started clock)
  refine ⟨fun pair a => (hinv.rate.tracks pair).law a, hinv.rate.pairs, hinv.conns.recipients, ?_⟩
  intro c conn body now _ hup hrefused
  exact sameBudget_of_refused hup body conn s.rate hrefused

/-! ## A run -/

/-- A frame from peer `[1]` to peer `[2]`. -/
def sampleSeedBody : Bytes := [0, 1, 2, 0, 1, 1]

/-- The relay after a HELLO and a frame at instant 60. -/
def sampleSeedRelay : SeedRelay ℚ :=
  SeedRelay.frame ⟨0, ∅, AList.insert 0 ⟨[1], ∅⟩ ∅, 1, []⟩ 0 ⟨[1], ∅⟩ sampleSeedBody 60

theorem reach_sampleSeedRelay :
    Reach SeedStep UpForWindow (SeedRelay.started (0 : ℚ)) sampleSeedRelay :=
  (Reach.refl.snoc .hello trivial).snoc (e := .frame 0 sampleSeedBody 60)
    (.frame rfl (by decide)) (le_refl (60 : ℚ))

theorem chain_seed_limits_sample :
    acceptedAt sampleSeedRelay.accepted ([1], [2]) = [60] ∧
      (∀ pair a, (inWindow CHAIN_SEED_DELIVERY_RATE_WINDOW a
          (acceptedAt sampleSeedRelay.accepted pair)).length ≤ CHAIN_SEED_DELIVERY_RATE_CAP) ∧
      sampleSeedRelay.rate.len ≤ CHAIN_SEED_RATE_MAX_ENTRIES :=
  have hlimits := chain_seed_limits reach_sampleSeedRelay
  ⟨by decide +kernel, hlimits.1, hlimits.2.1⟩

end Pizzini.Relay
