import Pizzini.Group.Traps

/-!
# One replay is enough (`replayPending`, GroupApply.swift:259–334)

`replayPending` walks once over the parked ops, sorted by epoch, while the ops that it applies
move `currentEpoch`. The walk finds what repeated scans would: an entry at most one above the
current epoch is tried or dropped, and the first entry beyond a gap ends the changes, as all
that follow lie beyond it too. So what stays parked is what lies beyond the gap after the last
op, and a second walk keeps all of it.

`replayVisits` is the drain loop with a record of what becomes of each entry.
-/

namespace Pizzini.Group

open Wire ChatGroup

/-! ## The walk and its record -/

/-- What becomes of an entry. -/
inductive Fate where
  /-- dropped: its epoch is taken -/
  | superseded
  /-- tried, and gone whatever the outcome -/
  | attempted (outcome : ApplyOutcome)
  /-- still parked: its parents are missing -/
  | kept
deriving DecidableEq

/-- An entry that the walk has come to. -/
structure Visit where
  op : GroupOp
  bytes : Bytes
  fate : Fate

namespace Visit

/-- The entry as the loop was given it. -/
def entry (v : Visit) : GroupOp × Bytes := (v.op, v.bytes)

/-- The epoch of an op that was applied. -/
def appliedEpoch (v : Visit) : Option UInt64 :=
  match v.fate with
  | .attempted (.applied e) => some e
  | _ => none

end Visit

/-- `keptBytes`. -/
def keptBytes (visits : List Visit) : List Bytes :=
  (visits.filter fun v => v.fate = .kept).map Visit.bytes

/-- The epochs of the ops that were applied, in the order of the walk. -/
def appliedEpochs (visits : List Visit) : List UInt64 := visits.filterMap Visit.appliedEpoch

/-- `replayLoop`, with what becomes of each entry. -/
def replayVisits (env : GroupEnv) :
    List (GroupOp × Bytes) → ChatGroup → ApplySideEffects →
      Option (List Visit × ChatGroup × ApplySideEffects)
  | [], g, sx => some ([], g, sx)
  | (op, bytes) :: rest, g, sx =>
    if op.epoch ≤ g.currentEpoch then
      (replayVisits env rest g sx).map fun r => (⟨op, bytes, .superseded⟩ :: r.1, r.2)
    else
      match nextEpoch g.currentEpoch with
      | none => none
      | some expected =>
        if op.epoch = expected then
          match applyAlreadyParked env op bytes g sx with
          | none => none
          | some (outcome, g', sx') =>
            (replayVisits env rest g' sx').map fun r => (⟨op, bytes, .attempted outcome⟩ :: r.1, r.2)
        else (replayVisits env rest g sx).map fun r => (⟨op, bytes, .kept⟩ :: r.1, r.2)

variable {env : GroupEnv} {g g' : ChatGroup} {sx sx' : ApplySideEffects}
  {entries : List (GroupOp × Bytes)} {visits : List Visit}

/-- The record is only a record. -/
theorem replayLoop_eq :
    replayLoop env entries g sx =
      (replayVisits env entries g sx).map fun r => (keptBytes r.1, r.2) := by
  induction entries generalizing g sx with
  | nil => rfl
  | cons e rest ih =>
    obtain ⟨op, bytes⟩ := e
    rw [replayLoop, replayVisits]
    by_cases hpast : op.epoch ≤ g.currentEpoch
    · rw [if_pos hpast, if_pos hpast, ih, Option.map_map]
      rfl
    rw [if_neg hpast, if_neg hpast]
    cases nextEpoch g.currentEpoch with
    | none => rfl
    | some expected =>
      dsimp only
      by_cases hexpected : op.epoch = expected
      · rw [if_pos hexpected, if_pos hexpected]
        cases applyAlreadyParked env op bytes g sx with
        | none => rfl
        | some r =>
          dsimp only
          rw [ih, Option.map_map]
          rfl
      · rw [if_neg hexpected, if_neg hexpected, ih, Option.map_map, Option.map_map]
        rfl

/-- What the walk does with its first entry. -/
theorem replayVisits_cons {op : GroupOp} {bytes : Bytes}
    (h : replayVisits env ((op, bytes) :: entries) g sx = some (visits, g', sx')) :
    ∃ fate rest g₁ sx₁, visits = ⟨op, bytes, fate⟩ :: rest ∧
      replayVisits env entries g₁ sx₁ = some (rest, g', sx') ∧
      ((fate = .superseded ∧ op.epoch.toNat ≤ g.currentEpoch.toNat ∧ g₁ = g ∧ sx₁ = sx) ∨
        (∃ outcome, fate = .attempted outcome ∧ op.epoch.toNat = g.currentEpoch.toNat + 1 ∧
          applyAlreadyParked env op bytes g sx = some (outcome, g₁, sx₁)) ∨
        (fate = .kept ∧ g.currentEpoch.toNat + 1 < op.epoch.toNat ∧ g₁ = g ∧ sx₁ = sx)) := by
  rw [replayVisits] at h
  split at h
  · next hpast =>
    obtain ⟨⟨rest, g₁, sx₁⟩, hrest, heq⟩ := Option.map_eq_some_iff.mp h
    cases heq
    exact ⟨_, _, _, _, rfl, hrest, .inl ⟨rfl, UInt64.le_iff_toNat_le.mp hpast, rfl, rfl⟩⟩
  next hfuture =>
  rw [UInt64.le_iff_toNat_le] at hfuture
  split at h
  · cases h
  next expected hnext =>
  rw [nextEpoch_eq_some_iff] at hnext
  split at h
  · next hexpected =>
    split at h
    · cases h
    next outcome g₁ sx₁ hattempt =>
    obtain ⟨⟨rest, g₂, sx₂⟩, hrest, heq⟩ := Option.map_eq_some_iff.mp h
    cases heq
    exact ⟨_, _, _, _, rfl, hrest, .inr (.inl ⟨outcome, rfl, hexpected ▸ hnext, hattempt⟩)⟩
  · next hne =>
    obtain ⟨⟨rest, g₁, sx₁⟩, hrest, heq⟩ := Option.map_eq_some_iff.mp h
    cases heq
    have hgap : op.epoch.toNat ≠ expected.toNat := fun h => hne (UInt64.toNat_inj.mp h)
    exact ⟨_, _, _, _, rfl, hrest, .inr (.inr ⟨rfl, by omega, rfl, rfl⟩)⟩

/-- The walk comes to each entry once, in their order. -/
theorem replayVisits_entries (h : replayVisits env entries g sx = some (visits, g', sx')) :
    visits.map Visit.entry = entries := by
  induction entries generalizing g sx visits with
  | nil =>
    cases h
    rfl
  | cons e entries ih =>
    obtain ⟨op, bytes⟩ := e
    obtain ⟨fate, rest, g₁, sx₁, rfl, hrest, -⟩ := replayVisits_cons h
    rw [List.map_cons, ih hrest]
    rfl

/-- Entries beyond the gap are all kept, and nothing changes. -/
theorem replayVisits_of_gap
    (h : ∀ e ∈ entries, g.currentEpoch.toNat + 1 < e.1.epoch.toNat) :
    replayVisits env entries g sx = some (entries.map fun e => ⟨e.1, e.2, .kept⟩, g, sx) := by
  induction entries with
  | nil => rfl
  | cons e entries ih =>
    obtain ⟨op, bytes⟩ := e
    have hgap : g.currentEpoch.toNat + 1 < op.epoch.toNat := h (op, bytes) List.mem_cons_self
    have hfuture : ¬op.epoch ≤ g.currentEpoch := by
      rw [UInt64.le_iff_toNat_le]
      omega
    obtain ⟨expected, hnext, -⟩ := nextEpoch_of_lt hfuture
    have hne : op.epoch ≠ expected := by
      rintro rfl
      rw [nextEpoch_eq_some_iff] at hnext
      omega
    rw [replayVisits, if_neg hfuture, hnext]
    dsimp only
    rw [if_neg hne, ih fun e he => h e (List.mem_cons_of_mem _ he)]
    rfl

/-! ## What a walk in the order of epochs leaves -/

/-- An attempt moves the group by one epoch, or not at all. -/
theorem applyAlreadyParked_epoch {op : GroupOp} {bytes : Bytes} {outcome : ApplyOutcome}
    (h : applyAlreadyParked env op bytes g sx = some (outcome, g', sx')) :
    outcome = .applied op.epoch ∧ g'.currentEpoch = op.epoch ∨
      (∀ e, outcome ≠ .applied e) ∧ g' = g := by
  rcases applyAlreadyParked_cases h with ⟨houtcome, happlies⟩ | ⟨houtcome, hsame, -⟩
  · obtain ⟨g₁, opDigest, -, rfl⟩ := happlies.mutated
    exact .inl ⟨houtcome, rfl⟩
  · exact .inr ⟨houtcome, hsame⟩

/-- A walk from one group to another. -/
structure Walked (g g' : ChatGroup) (visits : List Visit) : Prop where
  /-- the applied ops have the epochs in between, in their order -/
  epochs : (appliedEpochs visits).map UInt64.toNat =
    List.range' (g.currentEpoch.toNat + 1) (appliedEpochs visits).length
  last : g'.currentEpoch.toNat = g.currentEpoch.toNat + (appliedEpochs visits).length
  /-- what is kept lies beyond the gap after the last one -/
  kept : ∀ v ∈ visits, v.fate = .kept ↔ g'.currentEpoch.toNat + 1 < v.op.epoch.toNat

theorem Walked.cons_dropped {v : Visit} (h : Walked g g' visits) (happlied : v.appliedEpoch = none)
    (hfate : v.fate ≠ .kept) (hle : v.op.epoch.toNat ≤ g.currentEpoch.toNat + 1) :
    Walked g g' (v :: visits) := by
  have hlast := h.last
  refine ⟨?_, ?_, fun w hw => ?_⟩
  · rw [appliedEpochs, List.filterMap_cons_none happlied]
    exact h.epochs
  · rw [appliedEpochs, List.filterMap_cons_none happlied]
    exact hlast
  · rcases List.mem_cons.mp hw with rfl | hw
    · exact iff_of_false hfate (by omega)
    · exact h.kept w hw

theorem Walked.cons_applied {v : Visit} {g₁ : ChatGroup} (h : Walked g₁ g' visits)
    (happlied : v.appliedEpoch = some g₁.currentEpoch) (hfate : v.fate ≠ .kept)
    (hepoch : v.op.epoch = g₁.currentEpoch)
    (hnext : g₁.currentEpoch.toNat = g.currentEpoch.toNat + 1) : Walked g g' (v :: visits) := by
  have hlast := h.last
  have happlied : appliedEpochs (v :: visits) = g₁.currentEpoch :: appliedEpochs visits :=
    List.filterMap_cons_some happlied
  refine ⟨?_, ?_, fun w hw => ?_⟩
  · rw [happlied, List.map_cons, h.epochs, List.length_cons, List.range'_succ, hnext]
  · rw [happlied, List.length_cons]
    omega
  · rcases List.mem_cons.mp hw with rfl | hw
    · rw [hepoch]
      exact iff_of_false hfate (by omega)
    · exact h.kept w hw

/-- Entries beyond the gap: the walk is over. -/
theorem walked_of_gap (h : ∀ e ∈ entries, g.currentEpoch.toNat + 1 < e.1.epoch.toNat) :
    Walked g g (entries.map fun e => ⟨e.1, e.2, .kept⟩) := by
  have hnone : appliedEpochs (entries.map fun e => ⟨e.1, e.2, .kept⟩) = [] := by
    rw [appliedEpochs, List.filterMap_map]
    exact List.filterMap_eq_nil_iff.mpr fun _ _ => rfl
  refine ⟨by rw [hnone]; rfl, by rw [hnone]; rfl, fun v hv => ?_⟩
  obtain ⟨e, he, rfl⟩ := List.mem_map.mp hv
  exact iff_of_true rfl (h e he)

/-- The walk over entries in the order of their epochs. -/
theorem walked_of_sorted (hsorted : entries.Pairwise fun a b => a.1.epoch ≤ b.1.epoch)
    (h : replayVisits env entries g sx = some (visits, g', sx')) : Walked g g' visits := by
  induction entries generalizing g sx visits with
  | nil =>
    cases h
    exact ⟨rfl, rfl, nofun⟩
  | cons e entries ih =>
    obtain ⟨op, bytes⟩ := e
    obtain ⟨hle, hrestSorted⟩ := List.pairwise_cons.mp hsorted
    obtain ⟨fate, rest, g₁, sx₁, rfl, hrest, hcase⟩ := replayVisits_cons h
    rcases hcase with ⟨rfl, hpast, rfl, rfl⟩ | ⟨outcome, rfl, hnext, hattempt⟩ |
      ⟨rfl, hgap, rfl, rfl⟩
    · exact (ih hrestSorted hrest).cons_dropped rfl nofun (Nat.le_succ_of_le hpast)
    · rcases applyAlreadyParked_epoch hattempt with ⟨rfl, hepoch⟩ | ⟨hrefused, rfl⟩
      · rw [← hepoch] at hnext
        exact (ih hrestSorted hrest).cons_applied (congrArg some hepoch.symm) nofun hepoch.symm
          hnext
      · refine (ih hrestSorted hrest).cons_dropped ?_ nofun hnext.le
        cases outcome <;> first | rfl | exact absurd rfl (hrefused _)
    · -- the entries that follow have no smaller epoch, so nothing moves any more
      have hbeyond : ∀ e ∈ (op, bytes) :: entries,
          g₁.currentEpoch.toNat + 1 < e.1.epoch.toNat := by
        intro e he
        rcases List.mem_cons.mp he with rfl | he
        · exact hgap
        · have := UInt64.le_iff_toNat_le.mp (hle e he)
          dsimp only at this
          omega
      rw [replayVisits_of_gap hbeyond] at h
      cases h
      exact walked_of_gap hbeyond

/-! ## The queue -/

/-- The bytes decode to an op beyond the next epoch. -/
def Beyond (currentEpoch : UInt64) (bytes : Bytes) : Bool :=
  match GroupOp.decode bytes with
  | some op => currentEpoch.toNat + 1 < op.epoch.toNat
  | none => false

theorem sortByEpoch_sorted (decoded : List (GroupOp × Bytes)) :
    (sortByEpoch decoded).Pairwise fun a b => a.1.epoch ≤ b.1.epoch :=
  List.pairwise_insertionSort (fun a b : GroupOp × Bytes => a.1.epoch ≤ b.1.epoch) decoded

theorem decode_of_mem_decodePending {p : List Bytes} {e : GroupOp × Bytes}
    (h : e ∈ decodePending p) : GroupOp.decode e.2 = some e.1 := by
  obtain ⟨bytes, -, he⟩ := List.mem_filterMap.mp h
  obtain ⟨op, hop, rfl⟩ := Option.map_eq_some_iff.mp he
  exact hop

/-- Entries that were decoded once are decoded to the same again. -/
theorem decodePending_map_snd (h : ∀ e ∈ entries, GroupOp.decode e.2 = some e.1) :
    decodePending (entries.map Prod.snd) = entries := by
  induction entries with
  | nil => rfl
  | cons e entries ih =>
    have hhead := h e List.mem_cons_self
    have htail := ih fun e he => h e (List.mem_cons_of_mem _ he)
    rw [decodePending] at htail ⊢
    rw [List.map_cons, List.filterMap_cons_some (b := e) (by rw [hhead]; rfl), htail]

/-- What lies beyond an epoch can be told before decoding or after it. -/
theorem map_snd_filter_decodePending (currentEpoch : UInt64) (p : List Bytes) :
    ((decodePending p).filter fun e => currentEpoch.toNat + 1 < e.1.epoch.toNat).map Prod.snd =
      p.filter (Beyond currentEpoch) := by
  induction p with
  | nil => rfl
  | cons bytes p ih =>
    rw [decodePending] at ih ⊢
    cases hdecode : GroupOp.decode bytes with
    | none =>
      have hnot : Beyond currentEpoch bytes = false := by rw [Beyond, hdecode]
      rw [List.filterMap_cons_none (by rw [hdecode]; rfl), ih,
        List.filter_cons_of_neg (by rw [hnot]; exact Bool.false_ne_true)]
    | some op =>
      have hbeyond : Beyond currentEpoch bytes =
          decide (currentEpoch.toNat + 1 < op.epoch.toNat) := by
        rw [Beyond, hdecode]
      rw [List.filterMap_cons_some (b := (op, bytes)) (by rw [hdecode]; rfl)]
      by_cases hgap : currentEpoch.toNat + 1 < op.epoch.toNat
      · rw [List.filter_cons_of_pos (by simpa using hgap), List.map_cons, ih,
          List.filter_cons_of_pos (by rw [hbeyond]; exact decide_eq_true hgap)]
      · rw [List.filter_cons_of_neg (by simpa using hgap), ih,
          List.filter_cons_of_neg (by rw [hbeyond]; simpa using hgap)]

/-- The kept bytes are those of the entries beyond the gap. -/
theorem Walked.keptBytes_eq (h : Walked g g' visits) (hentries : visits.map Visit.entry = entries) :
    keptBytes visits =
      (entries.filter fun e => g'.currentEpoch.toNat + 1 < e.1.epoch.toNat).map Prod.snd := by
  have hfilter : (visits.filter fun v => v.fate = .kept) =
      visits.filter fun v => g'.currentEpoch.toNat + 1 < v.op.epoch.toNat :=
    List.filter_congr fun v hv => decide_eq_decide.mpr (h.kept v hv)
  rw [← hentries, keptBytes, hfilter, List.filter_map, List.map_map]
  rfl

/-- A queue in the order of epochs that lies beyond the gap is left alone. -/
theorem replayPending_of_gap {entries : List (GroupOp × Bytes)}
    (hpending : g.pendingOps = entries.map Prod.snd)
    (hdecode : ∀ e ∈ entries, GroupOp.decode e.2 = some e.1)
    (hsorted : entries.Pairwise fun a b => a.1.epoch ≤ b.1.epoch)
    (hgap : ∀ e ∈ entries, g.currentEpoch.toNat + 1 < e.1.epoch.toNat) :
    replayPending env g sx = some (g, sx) := by
  have hsort : sortByEpoch (decodePending g.pendingOps) = entries := by
    rw [hpending, decodePending_map_snd hdecode, sortByEpoch]
    exact hsorted.insertionSort_eq
  have hentries : (entries.map fun e => (⟨e.1, e.2, .kept⟩ : Visit)).map Visit.entry = entries := by
    rw [List.map_map]
    exact List.map_id entries
  have hkept : keptBytes (entries.map fun e => ⟨e.1, e.2, .kept⟩) = g.pendingOps := by
    rw [hpending, (walked_of_gap hgap).keptBytes_eq hentries,
      List.filter_eq_self.mpr fun e he => decide_eq_true (hgap e he)]
  rw [replayPending]
  split
  · rfl
  · rw [hsort, replayLoop_eq, replayVisits_of_gap hgap]
    show some ({ g with pendingOps := keptBytes _ }, sx) = some (g, sx)
    rw [hkept]

/-! ## The theorem -/

/-- What a replay has done. -/
structure Replayed (env : GroupEnv) (g : ChatGroup) (sx : ApplySideEffects) (g' : ChatGroup)
    (sx' : ApplySideEffects) : Prop where
  /-- the decodable ops beyond the gap stay parked, and no others -/
  remaining : g'.pendingOps.Perm (g.pendingOps.filter (Beyond g'.currentEpoch))
  /-- one walk came to each decodable op once, and either tried it, or dropped it, or kept it; the
  applied ones have the epochs from the old one on -/
  visits : ∃ visits g₁, replayVisits env (sortByEpoch (decodePending g.pendingOps)) g sx =
      some (visits, g₁, sx') ∧ g' = g₁.withPending (keptBytes visits) ∧
    (visits.map Visit.entry).Perm (decodePending g.pendingOps) ∧
    (appliedEpochs visits).map UInt64.toNat =
      List.range' (g.currentEpoch.toNat + 1) (appliedEpochs visits).length ∧
    g'.currentEpoch.toNat = g.currentEpoch.toNat + (appliedEpochs visits).length
  /-- another one does nothing -/
  again : ∀ sx₂, replayPending env g' sx₂ = some (g', sx₂)

theorem replayPending_visits (h : replayPending env g sx = some (g', sx')) :
    ∃ visits g₁, replayVisits env (sortByEpoch (decodePending g.pendingOps)) g sx =
      some (visits, g₁, sx') ∧ g' = g₁.withPending (keptBytes visits) := by
  rw [replayPending] at h
  split at h
  · next hempty =>
    cases h
    refine ⟨[], g, by rw [hempty]; rfl, ?_⟩
    rw [show keptBytes [] = g.pendingOps from hempty.symm, withPending_self]
  · rw [replayLoop_eq] at h
    obtain ⟨⟨kept, g₁, sx₁⟩, hloop, heq⟩ := Option.map_eq_some_iff.mp h
    obtain ⟨⟨visits, g₂, sx₂⟩, hvisits, hr⟩ := Option.map_eq_some_iff.mp hloop
    cases hr
    cases heq
    exact ⟨visits, g₁, hvisits, rfl⟩

theorem replayed_of_replayPending (h : replayPending env g sx = some (g', sx')) :
    Replayed env g sx g' sx' := by
  obtain ⟨visits, g₁, hvisits, rfl⟩ := replayPending_visits h
  have hentries := replayVisits_entries hvisits
  have hwalked := walked_of_sorted (sortByEpoch_sorted _) hvisits
  have hkept := hwalked.keptBytes_eq hentries
  have hperm : (sortByEpoch (decodePending g.pendingOps)).Perm (decodePending g.pendingOps) :=
    List.perm_insertionSort _ _
  refine ⟨?_, ⟨visits, g₁, hvisits, rfl, hentries ▸ hperm, hwalked.epochs, hwalked.last⟩,
    fun sx₂ => ?_⟩
  · show (keptBytes visits).Perm (g.pendingOps.filter (Beyond g₁.currentEpoch))
    rw [hkept, ← map_snd_filter_decodePending]
    exact (hperm.filter _).map _
  · refine replayPending_of_gap hkept (fun e he => ?_) ((sortByEpoch_sorted _).filter _) fun e he => ?_
    · exact decode_of_mem_decodePending (hperm.mem_iff.mp (List.mem_of_mem_filter he))
    · exact of_decide_eq_true (List.mem_filter.mp he).2

/-- A replay returns, as long as the member set has a root. -/
theorem replayPending_total (env : GroupEnv) (sx : ApplySideEffects) (hrows : WholeIds g.members)
    (hload : g.load ≤ 2 ^ 32) : ∃ g' sx', replayPending env g sx = some (g', sx') := by
  rw [ChatGroup.load] at hload
  have hlength : (sortByEpoch (decodePending g.pendingOps)).length ≤ g.pendingOps.length := by
    rw [sortByEpoch, List.length_insertionSort, decodePending]
    exact List.length_filterMap_le _ _
  obtain ⟨r, hdrain⟩ : ∃ r, drain env (sortByEpoch (decodePending g.pendingOps)) g = some r :=
    drain_total hrows (by omega)
  have hreplay : (replayPending env g sx).map Prod.fst = replay env g := replayPending_replay g sx
  rw [replay, hdrain] at hreplay
  obtain ⟨⟨g', sx'⟩, hpending, -⟩ := Option.map_eq_some_iff.mp hreplay
  exact ⟨g', sx', hpending⟩

/-- One replay of the queue is complete, and a second one does nothing, for every group and every
queue; it traps only where `memberSetRoot` has no root to compute. -/
theorem replayPending_complete (env : GroupEnv) (g : ChatGroup) (sx : ApplySideEffects) :
    match replayPending env g sx with
    | some (g', sx') => Replayed env g sx g' sx'
    | none => ¬(WholeIds g.members ∧ g.load ≤ 2 ^ 32) := by
  cases h : replayPending env g sx with
  | some r => exact replayed_of_replayPending h
  | none =>
    rintro ⟨hrows, hload⟩
    obtain ⟨g', sx', hsome⟩ := replayPending_total env sx hrows hload
    rw [h] at hsome
    cases hsome

/-- The renaming was parked before the addition that it follows, and something else between them. -/
example :
    (replayPending sampleEnv (sampleGroup.withPending [sampleRename.wire, [0], sampleAdd.wire])
      {}).map (fun r => (r.1.currentEpoch, r.1.displayName, r.1.pendingOps)) =
        some (2, "hike", []) := by
  decide +kernel

end Pizzini.Group
