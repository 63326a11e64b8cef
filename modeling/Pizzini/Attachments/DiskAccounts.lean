import Mathlib.Algebra.Order.BigOperators.Group.Finset
import Pizzini.Attachments.InFlight

/-!
# The tables account for the staged files

`in_flight_bounded`: the caps hold of the disk as long as the tables of both reassemblers
together stay within them and the app does not end with files staged. The tables account for
the disk (`Accounts`): every staged file has its entry, and an entry has at least the bytes of
its files on record. The caps of the code give the first condition while only one reassembler
has anything in flight (`clean_feed`). A relaunch forgets the entries and leaves the files
(`relaunch_leaves_chunk`).
-/

namespace Pizzini.Attachments

open Wire FileChunkEnvelope AttachmentReassembler Runs

variable {F : Foundation} {s : Store} {now : Int} {role role' : Role} {peer : Bytes}
  {e : FileChunkEnvelope} {entry : Pending}

/-! ## The tables account for the disk -/

/-- An entry lives for `partialTTL`, and has indices of its own chunks. -/
structure Pending.Sound (p : Pending) : Prop where
  lifetime : p.expiresAt = p.firstSeenAt + partialTTL
  indices : ∀ i ∈ p.receivedIndices, i < p.chunkCount

/-- Every staged file has its entry, which has the bytes on record. -/
structure Staging.Covered (w : Staging) : Prop where
  owned : ∀ a i o, w.staged a i = some o →
    ∃ p, (w.store.tables o.role).pending.lookup (tableKey o.peer a) = some p ∧
      i ∈ p.receivedIndices ∧ p.firstSeenAt = o.openedAt
  bytes : ∀ role peer a p, (w.store.tables role).pending.lookup (tableKey peer a) = some p →
    ∀ I : Finset Nat, (∀ i ∈ I, ∃ t, w.staged a i = some ⟨role, peer, t⟩) →
      ∑ i ∈ I, w.size a i ≤ p.bytesWritten

/-- The tables account for the disk, and their sums are within the caps. -/
structure Staging.Accounts (w : Staging) : Prop extends w.Covered where
  keyed : ∀ role, (w.store.tables role).Keyed
  sound : ∀ role key p, (w.store.tables role).pending.lookup key = some p → p.Sound
  budget : w.store.inFlightBytes ≤ globalInFlightByteBudget
  peers : ∀ peer, w.store.inFlightForPeer peer ≤ perPeerPendingCap

namespace Staging

variable {w : Staging}

/-- Discard transfers, and with them what is staged under their ids. -/
def drop (w : Staging) (role : Role) (stale : List (Bytes × AttachmentId)) : Staging where
  store := w.store.set role (discardAll (w.store.tables role) w.store.sandbox stale)
  staged a := if a ∈ stale.map Prod.snd then fun _ => none else w.staged a

theorem step_discard {a : AttachmentId} :
    w.step F (.event ⟨now, .discard role peer a⟩) = w.drop role [(peer, a)] := by
  have hstaged : (Function.update w.staged a fun _ => none) = (w.drop role [(peer, a)]).staged := by
    funext a'
    rw [Function.update_apply]
    simp only [drop, List.map_cons, List.map_nil, List.mem_singleton]
  exact congrArg (Staging.mk _) hstaged

theorem step_reap :
    w.step F (.event ⟨now, .reap⟩) =
      (w.drop .direct ((w.store.tables .direct).staleEntries now)).drop .group
        ((w.store.tables .group).staleEntries now) := by
  have hgroup : (w.store.reap .direct now).tables .group = w.store.tables .group :=
    Store.tables_set_ne (by decide) _
  have hstaged : w.restaged F (.event ⟨now, .reap⟩) =
      ((w.drop .direct ((w.store.tables .direct).staleEntries now)).drop .group
        ((w.store.tables .group).staleEntries now)).staged := by
    funext a
    simp only [restaged, drop, List.map_append, List.mem_append]
    split <;> split <;> grind
  have hstore : (w.store.reap .direct now).reap .group now =
      ((w.drop .direct ((w.store.tables .direct).staleEntries now)).drop .group
        ((w.store.tables .group).staleEntries now)).store := by
    rw [Store.reap, hgroup]
    exact congrArg (fun r => (w.store.reap .direct now).set .group
      (discardAll r (w.store.reap .direct now).sandbox
        ((w.store.tables .group).staleEntries now))) hgroup.symm
  show Staging.mk ((w.store.reap .direct now).reap .group now) _ = _
  rw [hstaged, hstore]

theorem lookup_drop {stale : List (Bytes × AttachmentId)} {key : Bytes} :
    ((w.drop role stale).store.tables role').pending.lookup key =
      if role' = role ∧ key ∈ stale.map (fun x => tableKey x.1 x.2) then none
      else (w.store.tables role').pending.lookup key := by
  by_cases hrole : role' = role
  · subst hrole
    have htables : (w.drop role' stale).store.tables role' =
        (discardAll (w.store.tables role') w.store.sandbox stale).1 := Function.update_self ..
    rw [htables, lookup_discardAll]
    simp only [true_and]
  · have htables : (w.drop role stale).store.tables role' = w.store.tables role' :=
      Store.tables_set_ne hrole _
    rw [htables, if_neg fun h => hrole h.1]

/-- What is still staged was so before, under an id that is not discarded. -/
theorem staged_drop {stale : List (Bytes × AttachmentId)} {a : AttachmentId} {i : Nat} {o : Opened}
    (h : (w.drop role stale).staged a i = some o) :
    a ∉ stale.map Prod.snd ∧ w.staged a i = some o := by
  simp only [drop] at h
  split at h
  · cases h
  · next ha => exact ⟨ha, h⟩

theorem Accounts.drop (h : w.Accounts) (role : Role) (stale : List (Bytes × AttachmentId)) :
    (w.drop role stale).Accounts where
  keyed := by
    intro role' key p hp
    rw [lookup_drop] at hp
    split at hp
    · cases hp
    · exact h.keyed role' key p hp
  sound := by
    intro role' key p hp
    rw [lookup_drop] at hp
    split at hp
    · cases hp
    · exact h.sound role' key p hp
  owned := by
    intro a i o ho
    obtain ⟨ha, ho⟩ := staged_drop ho
    obtain ⟨p, hp, hmem, hopened⟩ := h.owned a i o ho
    refine ⟨p, ?_, hmem, hopened⟩
    rw [lookup_drop, if_neg, hp]
    rintro ⟨-, hkey⟩
    obtain ⟨x, hx, heq⟩ := List.mem_map.mp hkey
    exact ha (List.mem_map.mpr ⟨x, hx, (tableKey_inj heq).2⟩)
  bytes := by
    intro role' peer a p hp I hI
    rw [lookup_drop] at hp
    split at hp
    · cases hp
    refine Nat.le_trans (Finset.sum_le_sum fun i hi => ?_)
      (h.bytes role' peer a p hp I fun i hi => ?_)
    · obtain ⟨t, ht⟩ := hI i hi
      have hdir : (w.drop role stale).store.sandbox a = w.store.sandbox a := by
        show (discardAll (w.store.tables role) w.store.sandbox stale).2 a = _
        rw [sandbox_discardAll, if_neg (staged_drop ht).1]
      rw [size, size, hdir]
    · obtain ⟨t, ht⟩ := hI i hi
      exact ⟨t, (staged_drop ht).2⟩
  budget := Nat.le_trans (Store.inFlightBytes_discardAll stale) h.budget
  peers := fun q => Nat.le_trans (Store.inFlightForPeer_discardAll stale q) (h.peers q)

/-! ## A chunk -/

/-- The entry a chunk leaves is the old one, a new one, or the old one with the chunk on
record. -/
theorem Accounts.entryAfter (h : w.Accounts) {p : Pending}
    (hp : w.store.entryAfter F now role peer e = some p) :
    p.Sound ∧ p.peer = peer ∧ p.attachmentId = e.attachmentId := by
  have hnew : (newEntry now peer e).Sound := ⟨rfl, nofun⟩
  have hold : ∀ {old}, (w.store.tables role).pending.lookup (tableKey peer e.attachmentId) =
      some old → old.Sound ∧ old.peer = peer ∧ old.attachmentId = e.attachmentId :=
    fun hsome => ⟨h.sound _ _ _ hsome, (h.keyed role).entry hsome⟩
  rw [Store.entryAfter] at hp
  cases htakes : w.store.takes F now role peer e with
  | none =>
    simp only [htakes] at hp
    split at hp
    · cases hp
      exact ⟨hnew, rfl, rfl⟩
    · exact hold hp
  | some entry =>
    simp only [htakes] at hp
    split at hp
    · cases hp
    · cases hp
      obtain ⟨old, rfl, hpass, hmet⟩ := Store.of_takes htakes
      have hof : old.Sound ∧ old.peer = peer ∧ old.attachmentId = e.attachmentId := by
        rcases hmet with hsome | ⟨-, -, rfl⟩
        · exact hold hsome
        · exact ⟨hnew, rfl, rfl⟩
      refine ⟨⟨hof.1.lifetime, fun i hi => ?_⟩, hof.2⟩
      obtain ⟨hcount, hlt, -⟩ := refusal_eq_none hpass
      rcases Finset.mem_insert.mp hi with rfl | hi
      · exact hcount ▸ hlt
      · exact hof.1.indices i hi

/-- With the last chunk, what stays staged is not the transfer's, and is left alone. -/
theorem written_last {dir : Directory} {staged : Nat → Option Opened} {i : Nat} {o : Opened}
    (hlast : entry.receivedIndices.card = entry.chunkCount)
    (h : written F role peer e entry dir staged i = some o) :
    staged i = some o ∧ entry.chunkCount ≤ i ∧
      (settle F entry (dir.insert (chunkName e.chunkIndex) e.chunkBytes)).lookup (chunkName i) =
        (dir.insert (chunkName e.chunkIndex) e.chunkBytes).lookup (chunkName i) := by
  rw [written, if_pos hlast] at h
  generalize dir.insert (chunkName e.chunkIndex) e.chunkBytes = dir' at h ⊢
  rw [settle, if_pos hlast]
  generalize hfin : finalize F entry dir' = out at h ⊢
  obtain ⟨result, dir''⟩ := out
  cases result with
  | error => cases h
  | ok c =>
    simp only at h ⊢
    split at h
    · cases h
    · next hapart =>
      rw [not_or, Nat.not_lt] at hapart
      refine ⟨h, hapart.1, lookup_finalize_ne hfin hapart.2 fun j hj heq => ?_⟩
      have := chunkName_injective heq
      omega

/-- What the files of a transfer come to, that a chunk meets or opens. -/
theorem Accounts.bytes_met (h : w.Accounts) {old : Pending}
    (hold : (w.store.tables role).pending.lookup (tableKey peer e.attachmentId) = some old ∨
      (w.store.tables role).pending.lookup (tableKey peer e.attachmentId) = none)
    {I : Finset Nat} (hI : ∀ i ∈ I, ∃ t, w.staged e.attachmentId i = some ⟨role, peer, t⟩) :
    ∑ i ∈ I, w.size e.attachmentId i ≤ old.bytesWritten := by
  rcases hold with hsome | hnone
  · exact h.bytes role peer _ _ hsome I hI
  · have hempty : I = ∅ := by
      refine Finset.eq_empty_of_forall_notMem fun i hi => ?_
      obtain ⟨t, ht⟩ := hI i hi
      obtain ⟨p, hp, -⟩ := h.owned _ i _ ht
      exact absurd (hp.symm.trans hnone) (Option.some_ne_none p)
    rw [hempty, Finset.sum_empty]
    exact Nat.zero_le _

/-- After a change to the entry of one transfer, the other transfers' files must be what they
were, and the transfer's own files must be on record in its entry. -/
theorem Covered.change {w' : Staging} {new : Option Pending} (h : w.Covered) (a₀ : AttachmentId)
    (hlook : ∀ {role' key}, (w'.store.tables role').pending.lookup key =
      if role' = role ∧ key = tableKey peer a₀ then new
      else (w.store.tables role').pending.lookup key)
    (hothers : ∀ {a i o}, w'.staged a i = some o → (o.role = role ∧ o.peer = peer ∧ a = a₀) ∨
      (w.staged a i = some o ∧ w'.size a i = w.size a i))
    (hown : ∀ {I : Finset Nat}, I.Nonempty →
      (∀ i ∈ I, ∃ t, w'.staged a₀ i = some ⟨role, peer, t⟩) →
      ∃ p, new = some p ∧ ∑ i ∈ I, w'.size a₀ i ≤ p.bytesWritten ∧
        ∀ i ∈ I, ∀ t, w'.staged a₀ i = some ⟨role, peer, t⟩ →
          i ∈ p.receivedIndices ∧ p.firstSeenAt = t) :
    w'.Covered where
  owned := by
    intro a i o ho
    by_cases hmine : o.role = role ∧ o.peer = peer ∧ a = a₀
    · obtain ⟨role', q, t⟩ := o
      obtain ⟨rfl, rfl, rfl⟩ := hmine
      obtain ⟨p, hp, -, hrec⟩ := hown (Finset.singleton_nonempty i)
        fun j hj => ⟨t, (Finset.mem_singleton.mp hj) ▸ ho⟩
      exact ⟨p, by rw [hlook, if_pos ⟨rfl, rfl⟩, hp],
        hrec i (Finset.mem_singleton_self i) t ho⟩
    · obtain ⟨hold, -⟩ := (hothers ho).resolve_left hmine
      obtain ⟨p, hp, hrec⟩ := h.owned a i o hold
      refine ⟨p, ?_, hrec⟩
      rw [hlook, if_neg, hp]
      rintro ⟨hrole, hkey⟩
      exact hmine ⟨hrole, tableKey_inj hkey⟩
  bytes := by
    intro role' q a p hp I hI
    by_cases hmine : role' = role ∧ q = peer ∧ a = a₀
    · obtain ⟨rfl, rfl, rfl⟩ := hmine
      rcases I.eq_empty_or_nonempty with rfl | hne
      · exact Nat.zero_le _
      · obtain ⟨p', hp', hle, -⟩ := hown hne hI
        rw [hlook, if_pos ⟨rfl, rfl⟩, hp'] at hp
        cases hp
        exact hle
    · have hold : ∀ i ∈ I, ∃ t, w.staged a i = some ⟨role', q, t⟩ ∧ w'.size a i = w.size a i := by
        intro i hi
        obtain ⟨t, ht⟩ := hI i hi
        exact ⟨t, (hothers ht).resolve_left hmine⟩
      rw [hlook, if_neg fun hsame => hmine ⟨hsame.1, tableKey_inj hsame.2⟩] at hp
      rw [Finset.sum_congr rfl fun i hi => (hold i hi).choose_spec.2]
      exact h.bytes role' q a p hp I fun i hi => (hold i hi).imp fun t ht => ht.1

theorem size_congr {w' : Staging} {a : AttachmentId} {i : Nat}
    (h : (w'.store.sandbox a).lookup (chunkName i) = (w.store.sandbox a).lookup (chunkName i)) :
    w'.size a i = w.size a i := by
  rw [size, size, h]

/-- Files under other ids are left alone. -/
theorem size_feed_ne {a : AttachmentId} (ha : a ≠ e.attachmentId) (i : Nat) :
    (w.step F (.event ⟨now, .feed role peer e⟩)).size a i = w.size a i :=
  size_congr (congrArg (AList.lookup (chunkName i))
    (feed_other_directory F (w.store.tables role) w.store.sandbox now peer ha))

/-- A chunk that is turned away may have opened its attachment, and does no more. -/
theorem Accounts.feed_refused (h : w.Accounts) (htakes : w.store.takes F now role peer e = none) :
    (w.step F (.event ⟨now, .feed role peer e⟩)).Covered := by
  have hstaged : (w.step F (.event ⟨now, .feed role peer e⟩)).staged = w.staged := by
    simp only [step, restaged, htakes]
  have hsize : ∀ a i, (w.step F (.event ⟨now, .feed role peer e⟩)).size a i = w.size a i := by
    intro a i
    by_cases ha : a = e.attachmentId
    · subst ha
      refine size_congr (congrArg (AList.lookup (chunkName i)) ?_)
      exact sandbox_feed.trans (by simp only [htakes])
    · exact size_feed_ne ha i
  refine h.toCovered.change e.attachmentId lookup_live_feed ?_ ?_
  · intro a i o ho
    exact .inr ⟨hstaged ▸ ho, hsize a i⟩
  · intro I hne hI
    rw [hstaged] at hI ⊢
    obtain ⟨i, hi⟩ := hne
    obtain ⟨t, ht⟩ := hI i hi
    obtain ⟨p, hp, -⟩ := h.owned _ i _ ht
    have hclosed : ¬ w.store.opens now role peer e = true := by
      intro hopens
      exact absurd (hp.symm.trans (Store.opens_lookup hopens)) (Option.some_ne_none p)
    refine ⟨p, ?_, ?_, ?_⟩
    · simp only [Store.entryAfter, htakes, if_neg hclosed]
      exact hp
    · rw [Finset.sum_congr rfl fun j _ => hsize e.attachmentId j]
      exact h.bytes role peer _ p hp I hI
    · intro j _ t' ht'
      obtain ⟨p', hp', hrec⟩ := h.owned _ j _ ht'
      cases hp.symm.trans hp'
      exact hrec

/-- A chunk that is not the last one adds its file, on record in its entry. -/
theorem Accounts.feed_staged (h : w.Accounts)
    (htakes : w.store.takes F now role peer e = some entry)
    (hlast : entry.receivedIndices.card ≠ entry.chunkCount) :
    (w.step F (.event ⟨now, .feed role peer e⟩)).Covered := by
  obtain ⟨old, rfl, -, hmet⟩ := Store.of_takes htakes
  have hstaged : (w.step F (.event ⟨now, .feed role peer e⟩)).staged =
      Function.update w.staged e.attachmentId (Function.update (w.staged e.attachmentId)
        e.chunkIndex (some ⟨role, peer, old.firstSeenAt⟩)) := by
    simp only [step, restaged, htakes, written, if_neg hlast]
    rfl
  have hdir : (w.step F (.event ⟨now, .feed role peer e⟩)).store.sandbox e.attachmentId =
      (w.store.sandbox e.attachmentId).insert (chunkName e.chunkIndex) e.chunkBytes := by
    refine sandbox_feed.trans ?_
    simp only [htakes, settle, if_neg hlast]
  have hsize : ∀ {i}, i ≠ e.chunkIndex →
      (w.step F (.event ⟨now, .feed role peer e⟩)).size e.attachmentId i =
        w.size e.attachmentId i := by
    intro i hi
    refine size_congr ?_
    rw [hdir, AList.lookup_insert_ne (chunkName_injective.ne hi)]
  have hnew : (w.step F (.event ⟨now, .feed role peer e⟩)).size e.attachmentId e.chunkIndex =
      e.chunkBytes.length := by
    rw [size, hdir, AList.lookup_insert]
    rfl
  have hother : ∀ {i}, i ≠ e.chunkIndex →
      (w.step F (.event ⟨now, .feed role peer e⟩)).staged e.attachmentId i =
        w.staged e.attachmentId i := by
    intro i hi
    rw [hstaged, Function.update_self, Function.update_of_ne hi]
  refine h.toCovered.change e.attachmentId lookup_live_feed ?_ ?_
  · intro a i o ho
    by_cases ha : a = e.attachmentId
    · subst ha
      by_cases hi : i = e.chunkIndex
      · subst hi
        rw [hstaged, Function.update_self, Function.update_self] at ho
        cases ho
        exact .inl ⟨rfl, rfl, rfl⟩
      · exact .inr ⟨(hother hi) ▸ ho, hsize hi⟩
    · rw [hstaged, Function.update_of_ne ha] at ho
      exact .inr ⟨ho, size_feed_ne ha i⟩
  · intro I _ hI
    -- the transfer's files but for the new one were on record before
    have hrest : ∑ i ∈ I.erase e.chunkIndex, w.size e.attachmentId i ≤ old.bytesWritten := by
      refine h.bytes_met (hmet.imp id fun hnone => hnone.1) fun i hi => ?_
      obtain ⟨hne, hi⟩ := Finset.mem_erase.mp hi
      obtain ⟨t, ht⟩ := hI i hi
      exact ⟨t, (hother hne) ▸ ht⟩
    refine ⟨old.receive e, ?_, ?_, ?_⟩
    · simp only [Store.entryAfter, htakes, if_neg hlast]
    · have hle : ∑ i ∈ I, (w.step F (.event ⟨now, .feed role peer e⟩)).size e.attachmentId i ≤
          e.chunkBytes.length + ∑ i ∈ I.erase e.chunkIndex, w.size e.attachmentId i := by
        rw [← Finset.sum_congr rfl fun i hi => hsize (Finset.ne_of_mem_erase hi), ← hnew]
        by_cases hmem : e.chunkIndex ∈ I
        · exact (Finset.add_sum_erase I _ hmem).ge
        · rw [Finset.erase_eq_of_notMem hmem]
          exact Nat.le_add_left _ _
      show _ ≤ old.bytesWritten + e.chunkBytes.length
      omega
    · intro i hi t ht
      by_cases hidx : i = e.chunkIndex
      · subst hidx
        rw [hstaged, Function.update_self, Function.update_self] at ht
        cases ht
        exact ⟨Finset.mem_insert_self _ _, rfl⟩
      · obtain ⟨p, hp, hmem, hopened⟩ := h.owned _ i _ ((hother hidx) ▸ ht)
        rcases hmet with hsome | ⟨hnone, -⟩
        · cases hp.symm.trans hsome
          exact ⟨Finset.mem_insert_of_mem hmem, hopened⟩
        · exact absurd (hp.symm.trans hnone) (Option.some_ne_none p)

/-- The last chunk ends the transfer, and no file of it stays. -/
theorem Accounts.feed_last (h : w.Accounts)
    (htakes : w.store.takes F now role peer e = some entry)
    (hlast : entry.receivedIndices.card = entry.chunkCount) :
    (w.step F (.event ⟨now, .feed role peer e⟩)).Covered := by
  obtain ⟨old, rfl, hpass, hmet⟩ := Store.of_takes htakes
  have hkept : ∀ {a i o}, (w.step F (.event ⟨now, .feed role peer e⟩)).staged a i = some o →
      w.staged a i = some o ∧
        (w.step F (.event ⟨now, .feed role peer e⟩)).size a i = w.size a i ∧
        (a = e.attachmentId → old.chunkCount ≤ i) := by
    intro a i o ho
    simp only [step, restaged, htakes] at ho
    by_cases ha : a = e.attachmentId
    · subst ha
      rw [Function.update_self] at ho
      obtain ⟨hold, hge, hlook⟩ := written_last hlast ho
      have hge : old.chunkCount ≤ i := hge
      refine ⟨hold, size_congr ?_, fun _ => hge⟩
      have hdir : (w.step F (.event ⟨now, .feed role peer e⟩)).store.sandbox e.attachmentId =
          settle F (old.receive e)
            ((w.store.sandbox e.attachmentId).insert (chunkName e.chunkIndex) e.chunkBytes) := by
        refine sandbox_feed.trans ?_
        simp only [htakes]
      obtain ⟨hcount, hlt, -⟩ := refusal_eq_none hpass
      have hne : i ≠ e.chunkIndex := by omega
      rw [hdir, hlook, AList.lookup_insert_ne (chunkName_injective.ne hne)]
    · rw [Function.update_of_ne ha] at ho
      exact ⟨ho, size_feed_ne ha i, fun heq => absurd heq ha⟩
  refine h.toCovered.change e.attachmentId lookup_live_feed ?_ ?_
  · intro a i o ho
    exact .inr ⟨(hkept ho).1, (hkept ho).2.1⟩
  · rintro I ⟨i, hi⟩ hI
    obtain ⟨t, ht⟩ := hI i hi
    obtain ⟨hold, -, hge⟩ := hkept ht
    obtain ⟨p, hp, hmem, -⟩ := h.owned _ i _ hold
    rcases hmet with hsome | ⟨hnone, -⟩
    · cases hp.symm.trans hsome
      exact absurd ((h.sound _ _ _ hsome).indices i hmem) (Nat.not_lt.mpr (hge rfl))
    · exact absurd (hp.symm.trans hnone) (Option.some_ne_none p)

theorem Accounts.feed (h : w.Accounts)
    (hclean : w.Clean F (.event ⟨now, .feed role peer e⟩)) :
    (w.step F (.event ⟨now, .feed role peer e⟩)).Accounts where
  toCovered := by
    cases htakes : w.store.takes F now role peer e with
    | none => exact h.feed_refused htakes
    | some entry =>
      by_cases hlast : entry.receivedIndices.card = entry.chunkCount
      · exact h.feed_last htakes hlast
      · exact h.feed_staged htakes hlast
  keyed := by
    intro role' key p hp
    have hp := lookup_live_feed.symm.trans hp
    split at hp
    · next hmine =>
      obtain ⟨-, hpeer, hid⟩ := h.entryAfter hp
      rw [hmine.2, hpeer, hid]
    · exact h.keyed role' key p hp
  sound := by
    intro role' key p hp
    have hp := lookup_live_feed.symm.trans hp
    split at hp
    · exact (h.entryAfter hp).1
    · exact h.sound role' key p hp
  budget := by
    have hsum := w.store.inFlightBytes_feed F now role peer e
    have hfits := hclean.2
    have hbudget := h.budget
    show (w.store.live F (.event ⟨now, .feed role peer e⟩)).inFlightBytes ≤ _
    cases htakes : w.store.takes F now role peer e with
    | none =>
      simp only [Store.entryAfter, htakes] at hsum
      split at hsum
      · next hopens =>
        rw [Store.opens_lookup hopens] at hsum
        simp only [Option.map_none, Option.map_some, Option.getD_none, Option.getD_some,
          newEntry] at hsum
        omega
      · omega
    | some entry =>
      have hfits := hfits (htakes ▸ rfl)
      obtain ⟨old, rfl, -, hmet⟩ := Store.of_takes htakes
      have hnew : ((w.store.entryAfter F now role peer e).map fun p => p.bytesWritten).getD 0 ≤
          old.bytesWritten + e.chunkBytes.length := by
        simp only [Store.entryAfter, htakes]
        split
        · exact Nat.zero_le _
        · exact Nat.le_refl _
      rcases hmet with hsome | ⟨hnone, -, rfl⟩
      · rw [hsome, Option.map_some, Option.getD_some] at hsum
        omega
      · rw [hnone, Option.map_none, Option.getD_none] at hsum
        simp only [newEntry] at hnew
        omega
  peers := by
    intro q
    have hsum := w.store.inFlightForPeer_feed F now role peer e q
    have hpeers := h.peers q
    show (w.store.live F (.event ⟨now, .feed role peer e⟩)).inFlightForPeer q ≤ _
    -- an entry that stays is still its peer's
    have hle : ∀ old : Pending, old.peer = peer →
        ((w.store.entryAfter F now role peer e).map fun p => if p.peer = q then 1 else 0).getD 0 ≤
          if old.peer = q then 1 else 0 := by
      intro old hof
      cases hafter : w.store.entryAfter F now role peer e with
      | none => exact Nat.zero_le _
      | some p =>
        rw [Option.map_some, Option.getD_some, (h.entryAfter hafter).2.1, hof]
    cases hlook : (w.store.tables role).pending.lookup (tableKey peer e.attachmentId) with
    | some old =>
      have hle := hle old ((h.keyed role).entry hlook).1
      rw [hlook, Option.map_some, Option.getD_some] at hsum
      omega
    | none =>
      rw [hlook, Option.map_none, Option.getD_none] at hsum
      by_cases hopens : w.store.opens now role peer e = true
      · have hroom := hclean.1 hopens
        have hle := hle (newEntry now peer e) rfl
        have hpeer : (newEntry now peer e).peer = peer := rfl
        by_cases hq : peer = q
        · subst hq
          rw [hpeer, if_pos rfl] at hle
          omega
        · rw [hpeer, if_neg hq] at hle
          omega
      · have hnone : w.store.entryAfter F now role peer e = none := by
          cases htakes : w.store.takes F now role peer e with
          | none => simp only [Store.entryAfter, htakes, if_neg hopens, hlook]
          | some entry =>
            obtain ⟨old, -, -, hmet⟩ := Store.of_takes htakes
            rcases hmet with hsome | ⟨-, hopens', -⟩
            · exact absurd (hlook.symm.trans hsome) (Option.some_ne_none old).symm
            · exact absurd hopens' hopens
        rw [hnone, Option.map_none, Option.getD_none] at hsum
        omega

/-- A new process accounts for a disk with nothing staged. -/
theorem accounts_launch (sandbox : Sandbox) (staged : AttachmentId → Nat → Option Opened)
    (hnone : ∀ a i, staged a i = none) : (Staging.mk (.launch sandbox) staged).Accounts where
  keyed := fun _ => keyed_fresh
  sound := nofun
  owned := by
    intro a i o ho
    exact absurd ((hnone a i).symm.trans ho) (Option.some_ne_none o).symm
  bytes := nofun
  budget := Nat.zero_le _
  peers := fun _ => Nat.zero_le _

theorem Accounts.step (h : w.Accounts) {l : Life} (hclean : w.Clean F l) :
    (w.step F l).Accounts := by
  match l with
  | .event ⟨_, .feed _ _ _⟩ => exact h.feed hclean
  | .event ⟨_, .discard role peer a⟩ =>
    rw [step_discard]
    exact h.drop role _
  | .event ⟨_, .reap⟩ =>
    rw [step_reap]
    exact (h.drop .direct _).drop .group _
  | .relaunch => exact accounts_launch _ _ hclean

/-! ## The caps on disk -/

/-- The files of one reassembler's transfers: sorted by transfer, each has its entry. -/
theorem Accounts.sum_le_role (h : w.Accounts) {T : Finset (AttachmentId × Nat)}
    (hT : ∀ x ∈ T, ∃ q t, w.staged x.1 x.2 = some ⟨role, q, t⟩) :
    ∑ x ∈ T, w.size x.1 x.2 ≤ (w.store.tables role).inFlightBytes := by
  -- the key of the entry that has the file on record
  let key := fun x : AttachmentId × Nat =>
    tableKey ((w.staged x.1 x.2).map Opened.peer |>.getD []) x.1
  have hfiber : ∀ k ∈ T.image key, ∑ x ∈ T with key x = k, w.size x.1 x.2 ≤
      (((w.store.tables role).pending.lookup k).map fun p => p.bytesWritten).getD 0 := by
    intro k hk
    obtain ⟨⟨a, i⟩, hi, rfl⟩ := Finset.mem_image.mp hk
    obtain ⟨q, t, ht⟩ := hT _ hi
    obtain ⟨p, hp, -⟩ := h.owned a i _ ht
    have hkey : key (a, i) = tableKey q a := by
      simp only [key, ht, Option.map_some, Option.getD_some]
    have hsame : ∀ x ∈ T.filter fun x => key x = key (a, i),
        x.1 = a ∧ ∃ t, w.staged x.1 x.2 = some ⟨role, q, t⟩ := by
      intro x hx
      obtain ⟨hx, hkeys⟩ := Finset.mem_filter.mp hx
      obtain ⟨q', t', ht'⟩ := hT x hx
      have hkey' : key x = tableKey q' x.1 := by
        simp only [key, ht', Option.map_some, Option.getD_some]
      obtain ⟨rfl, ha⟩ := tableKey_inj (hkey'.symm.trans (hkeys.trans hkey))
      exact ⟨ha, t', ht'⟩
    have hinj : Set.InjOn Prod.snd
        ((T.filter fun x => key x = key (a, i) : Finset (AttachmentId × Nat)) :
          Set (AttachmentId × Nat)) := by
      intro x hx y hy hsnd
      exact Prod.ext ((hsame x hx).1.trans (hsame y hy).1.symm) hsnd
    have hsum : ∑ x ∈ T with key x = key (a, i), w.size x.1 x.2 =
        ∑ j ∈ (T.filter fun x => key x = key (a, i)).image Prod.snd, w.size a j := by
      rw [Finset.sum_image hinj]
      exact Finset.sum_congr rfl fun x hx => by rw [(hsame x hx).1]
    rw [hsum, hkey, hp, Option.map_some, Option.getD_some]
    refine h.bytes role q a p hp _ fun j hj => ?_
    obtain ⟨x, hx, rfl⟩ := Finset.mem_image.mp hj
    obtain ⟨ha, t', ht'⟩ := hsame x (hkey ▸ hx)
    exact ⟨t', ha ▸ ht'⟩
  calc ∑ x ∈ T, w.size x.1 x.2
      = ∑ k ∈ T.image key, ∑ x ∈ T with key x = k, w.size x.1 x.2 :=
        (Finset.sum_fiberwise_of_maps_to (fun x hx => Finset.mem_image_of_mem key hx) _).symm
    _ ≤ ∑ k ∈ T.image key,
          (((w.store.tables role).pending.lookup k).map fun p => p.bytesWritten).getD 0 :=
        Finset.sum_le_sum hfiber
    _ ≤ (w.store.tables role).inFlightBytes :=
        AList.sum_le_total (fun _ p => p.bytesWritten) _ (w.store.tables role).pending

/-- The files add up to what the tables have on record. -/
theorem Accounts.sum_le (h : w.Accounts) {T : Finset (AttachmentId × Nat)}
    (hT : ∀ x ∈ T, (w.staged x.1 x.2).isSome) :
    ∑ x ∈ T, w.size x.1 x.2 ≤ w.store.inFlightBytes := by
  have hsplit := Finset.sum_filter_add_sum_filter_not T
    (fun x => (w.staged x.1 x.2).map Opened.role = some .direct) fun x => w.size x.1 x.2
  rw [← hsplit]
  refine Nat.add_le_add (h.sum_le_role fun x hx => ?_) (h.sum_le_role fun x hx => ?_)
  · obtain ⟨hx, hrole⟩ := Finset.mem_filter.mp hx
    obtain ⟨⟨role, q, t⟩, ho⟩ := Option.isSome_iff_exists.mp (hT x hx)
    rw [ho] at hrole
    cases hrole
    exact ⟨q, t, ho⟩
  · obtain ⟨hx, hrole⟩ := Finset.mem_filter.mp hx
    obtain ⟨⟨role, q, t⟩, ho⟩ := Option.isSome_iff_exists.mp (hT x hx)
    cases role with
    | direct => exact absurd (by rw [ho]; rfl) hrole
    | group => exact ⟨q, t, ho⟩

/-- A peer's attachments in one table are counted there. -/
theorem Accounts.card_le_role (h : w.Accounts) {T : Finset AttachmentId}
    (hT : ∀ a ∈ T, ((w.store.tables role).pending.lookup (tableKey peer a)).isSome) :
    T.card ≤ (w.store.tables role).inFlightForPeer peer := by
  have hinj : Function.Injective (tableKey peer) := fun a b hab => (tableKey_inj hab).2
  calc T.card
      = ∑ a ∈ T, 1 := Finset.card_eq_sum_ones T
    _ = ∑ a ∈ T, (((w.store.tables role).pending.lookup (tableKey peer a)).map
          fun p => if p.peer = peer then 1 else 0).getD 0 := by
        refine Finset.sum_congr rfl fun a ha => ?_
        obtain ⟨p, hp⟩ := Option.isSome_iff_exists.mp (hT a ha)
        rw [hp, Option.map_some, Option.getD_some, if_pos ((h.keyed role).entry hp).1]
    _ = ∑ k ∈ T.image (tableKey peer), (((w.store.tables role).pending.lookup k).map
          fun p => if p.peer = peer then 1 else 0).getD 0 := by
        rw [Finset.sum_image fun a _ b _ hab => hinj hab]
    _ ≤ (w.store.tables role).pending.total fun _ p => if p.peer = peer then 1 else 0 :=
        AList.sum_le_total _ _ _
    _ = (w.store.tables role).inFlightForPeer peer := (inFlightForPeer_eq_total _ peer).symm

/-- A peer's unfinished transfers are all in the tables. -/
theorem Accounts.card_le (h : w.Accounts) {T : Finset (Role × AttachmentId)}
    (hT : ∀ x ∈ T, w.Unfinished peer x.1 x.2) : T.card ≤ w.store.inFlightForPeer peer := by
  have hentry : ∀ x ∈ T,
      ((w.store.tables x.1).pending.lookup (tableKey peer x.2)).isSome := by
    intro x hx
    rcases hT x hx with hsome | ⟨i, t, ht⟩
    · exact hsome
    · obtain ⟨p, hp, -⟩ := h.owned _ i _ ht
      exact hp ▸ rfl
  have hrole : ∀ role, (T.filter fun x => x.1 = role).card ≤
      (w.store.tables role).inFlightForPeer peer := by
    intro role
    have hinj : Set.InjOn Prod.snd
        ((T.filter fun x => x.1 = role : Finset (Role × AttachmentId)) :
          Set (Role × AttachmentId)) := by
      intro x hx y hy hsnd
      exact Prod.ext ((Finset.mem_filter.mp hx).2.trans (Finset.mem_filter.mp hy).2.symm) hsnd
    rw [← Finset.card_image_of_injOn hinj]
    refine h.card_le_role fun a ha => ?_
    obtain ⟨x, hx, rfl⟩ := Finset.mem_image.mp ha
    obtain ⟨hmem, hrole⟩ := Finset.mem_filter.mp hx
    exact hrole ▸ hentry x hmem
  have hsplit := Finset.card_filter_add_card_filter_not (s := T) fun x => x.1 = Role.direct
  have hgroup : (T.filter fun x => ¬ x.1 = Role.direct) = T.filter fun x => x.1 = .group := by
    refine Finset.filter_congr fun x _ => ?_
    cases x.1 <;> simp
  rw [hgroup] at hsplit
  have hdirect := hrole .direct
  have hgroup := hrole .group
  show _ ≤ (w.store.tables .direct).inFlightForPeer peer +
    (w.store.tables .group).inFlightForPeer peer
  omega

/-- What the walk leaves staged belongs to an entry that is not stale. -/
theorem Accounts.removed (h : w.Accounts) {a : AttachmentId} {i : Nat} {o : Opened}
    (ho : (w.step F (.event ⟨now, .reap⟩)).staged a i = some o) :
    now ≤ o.openedAt + partialTTL := by
  rw [step_reap] at ho
  obtain ⟨hgroup, ho⟩ := staged_drop ho
  obtain ⟨hdirect, ho⟩ := staged_drop ho
  have hfresh : a ∉ ((w.store.tables o.role).staleEntries now).map Prod.snd := by
    cases o.role with
    | direct => exact hdirect
    | group => exact hgroup
  obtain ⟨p, hp, -, hopened⟩ := h.owned a i o ho
  have hid := ((h.keyed o.role).entry hp).2
  have hlife := (h.sound _ _ _ hp).lifetime
  by_contra hlate
  refine hfresh (List.mem_map.mpr ⟨(p.peer, p.attachmentId), ?_, hid⟩)
  exact (mem_staleEntries _).mpr ⟨_, p, hp, by omega, rfl⟩

theorem Accounts.bounded (h : w.Accounts) : w.Bounded F where
  bytes := fun _ hT => Nat.le_trans (h.sum_le hT) h.budget
  peers := fun q _ hT => Nat.le_trans (h.card_le hT) (h.peers q)
  removed := fun _ _ _ _ ho => h.removed ho

/-- In a run that keeps both tables together within the caps, and that ends the app with nothing
staged only, the caps hold of the disk. -/
theorem in_flight_bounded {sandbox : Sandbox}
    (hrun : Reach (fun w l w' => w' = w.step F l) (Clean F)
      ⟨.launch sandbox, fun _ _ => none⟩ w) : w.Bounded F := by
  have hinit := accounts_launch sandbox (fun _ _ => none) fun _ _ => rfl
  refine (hrun.invariant Accounts ?_ hinit).bounded
  rintro w l _ h hclean rfl
  exact h.step hclean

/-! ## One reassembler at a time -/

/-- A chunk that gets written fits the budget of its own reassembler. -/
theorem budget_of_takes (h : s.takes F now role peer e = some entry) :
    (s.tables role).inFlightBytes + e.chunkBytes.length ≤ globalInFlightByteBudget := by
  obtain ⟨old, -, hpass, -⟩ := Store.of_takes h
  simp only [refusal] at hpass
  split at hpass
  · cases hpass
  split at hpass
  · cases hpass
  split at hpass
  · cases hpass
  split at hpass
  · cases hpass
  split at hpass
  · cases hpass
  · next hfits =>
    have hfits : (s.tables role).inFlightBytes < globalInFlightByteBudget ∧
        e.chunkBytes.length ≤ globalInFlightByteBudget - (s.tables role).inFlightBytes := by
      simpa [wouldExceedDiskBudget] using hfits
    omega

/-- While only one reassembler has anything in flight, its own caps make every chunk for it
a clean step. -/
theorem clean_feed (hother : ∀ other, other ≠ role → (w.store.tables other).pending = ∅) :
    w.Clean F (.event ⟨now, .feed role peer e⟩) := by
  have hbytes : w.store.inFlightBytes = (w.store.tables role).inFlightBytes := by
    cases role with
    | direct =>
      show _ + ((w.store.tables .group).pending.entries.map fun p => p.2.bytesWritten).sum = _
      rw [hother .group (by decide)]
      rfl
    | group =>
      show ((w.store.tables .direct).pending.entries.map fun p => p.2.bytesWritten).sum + _ = _
      rw [hother .direct (by decide)]
      exact Nat.zero_add _
  have hpeer : w.store.inFlightForPeer peer = (w.store.tables role).inFlightForPeer peer := by
    cases role with
    | direct =>
      rw [Store.inFlightForPeer, inFlightForPeer_eq_total (w.store.tables .group),
        hother .group (by decide)]
      rfl
    | group =>
      rw [Store.inFlightForPeer, inFlightForPeer_eq_total (w.store.tables .direct),
        hother .direct (by decide)]
      exact Nat.zero_add _
  refine ⟨fun hopens => ?_, fun htakes => ?_⟩
  · rw [hpeer]
    simp only [Store.opens, Bool.and_eq_true, decide_eq_true_eq] at hopens
    exact hopens.2
  · obtain ⟨entry, hentry⟩ := Option.isSome_iff_exists.mp htakes
    rw [hbytes]
    exact budget_of_takes hentry

end Staging

/-! ## A chunk that is left behind -/

/-- The app as it is installed. -/
def Staging.installed : Staging := ⟨.launch fun _ => ∅, fun _ _ => none⟩

/-- The first of two chunks. -/
def firstChunk : Life := .event ⟨0, .feed .direct bob (sampleChunk 7 0 1)⟩

/-- The chunk is staged, and goes with the walk a day later. -/
theorem in_flight_bounded_first :
    (Staging.installed.step asciiTables firstChunk).Bounded asciiTables := by
  have hclean : Staging.installed.Clean asciiTables firstChunk :=
    Staging.clean_feed fun other _ => by cases other <;> rfl
  exact Staging.in_flight_bounded (Reach.refl.snoc rfl hclean)

/-- If the app ends before that, the walk does not know the chunk. -/
theorem relaunch_leaves_chunk :
    ¬ ([firstChunk, .relaunch].foldl (Staging.step asciiTables) Staging.installed).Bounded
      asciiTables := by
  intro h
  have hlate := h.removed 100000 (FixedBytes.replicate 16 7) 0 ⟨.direct, bob, 0⟩ (by decide +kernel)
  exact absurd hlate (by decide)

end Pizzini.Attachments
