import Pizzini.Lib.Dict

/-!
# A keyed map kept as a base image plus a monotone log

A store whose map is persisted as an occasionally rewritten *base* and an
append-only *log* of upserts, read back by folding the log over the base.
Each entry carries a `rank` (a cursor that only advances while the entry
lives) and a `stamp` (when it was last used, for expiry). Folding is
monotone: an upsert never replaces an entry of higher rank, so log records
that the base already subsumes do no harm.

The relation `Represents` says what it takes for base and log to stand for a
map, without mentioning the order of the log: every map entry is held, and
every held entry is expired or `Below` the map's entry for its key. Each
persistent operation keeps it (`append`, `rebase`, `truncate`, `retain`), and
reading back with expiry gives the map restricted to its live entries
(`lookup_recover`).
-/

namespace MonotoneLog

variable {K E : Type} [DecidableEq K] (rank stamp : E → Nat)

/-- Insert or overwrite unless that would lower the rank. -/
def upsert (m : Dict K E) (k : K) (e : E) : Dict K E :=
  match m.lookup k with
  | some old => if rank e < rank old then m else m.insert k e
  | none => m.insert k e

/-- Fold a log over a map. -/
def replay (m : Dict K E) (log : List (K × E)) : Dict K E :=
  log.foldl (fun acc r => upsert rank acc r.1 r.2) m

/-- Read back a base and a log: base entries stamped at or before `cutB` and
log records stamped at or before `cutL` are expired and skipped. -/
def recover (cutB cutL : Nat) (base : Dict K E) (log : List (K × E)) : Dict K E :=
  replay rank (base.retain fun _ e => decide (cutB < stamp e))
    (log.filter fun r => decide (cutL < stamp r.2))

/-- `e` is `top` itself or an earlier version of it. -/
def Below (e top : E) : Prop :=
  e = top ∨ rank e < rank top ∧ stamp e ≤ stamp top

/-- The base or the log holds `e` for `k`. -/
def Held (base : Dict K E) (log : List (K × E)) (k : K) (e : E) : Prop :=
  base.lookup k = some e ∨ (k, e) ∈ log

/-- Base and log stand for `map`, entries stamped at or before `cut` being
expired. -/
structure Represents (cut : Nat) (map base : Dict K E) (log : List (K × E)) : Prop where
  held : ∀ {k e}, map.lookup k = some e → Held base log k e
  below : ∀ {k e}, Held base log k e →
    stamp e ≤ cut ∨ ∃ top, map.lookup k = some top ∧ Below rank stamp e top

/-! ## Folding the log -/

theorem upsert_lookup_ne (m : Dict K E) {k k' : K} (h : k' ≠ k) (e : E) :
    (upsert rank m k e).lookup k' = m.lookup k' := by
  unfold upsert
  split
  · split
    · rfl
    · exact AList.lookup_insert_ne h
  · exact AList.lookup_insert_ne h

/-- The entry after an upsert is the new one or the old one. -/
theorem upsert_lookup_mem {m : Dict K E} {k : K} {e e' : E}
    (h : (upsert rank m k e).lookup k = some e') : e' = e ∨ m.lookup k = some e' := by
  unfold upsert at h
  split at h
  · split at h
    · exact .inr h
    · rw [AList.lookup_insert] at h
      exact .inl (Option.some.inj h).symm
  · rw [AList.lookup_insert] at h
    exact .inl (Option.some.inj h).symm

/-- The replayed map only holds entries of the start map or of the log. -/
theorem replay_lookup_mem {log : List (K × E)} :
    ∀ {m : Dict K E} {k : K} {e : E}, (replay rank m log).lookup k = some e →
      m.lookup k = some e ∨ (k, e) ∈ log := by
  induction log with
  | nil =>
    intro m k e h
    exact .inl h
  | cons r log ih =>
    intro m k e h
    obtain hm | hmem := ih h
    · by_cases hk : k = r.1
      · subst hk
        obtain rfl | hold := upsert_lookup_mem rank hm
        · exact .inr List.mem_cons_self
        · exact .inl hold
      · rw [upsert_lookup_ne rank m hk] at hm
        exact .inl hm
    · exact .inr (List.mem_cons_of_mem _ hmem)

/-- Replaying depends on the start map only through its lookups. -/
theorem replay_congr {log : List (K × E)} :
    ∀ {m m' : Dict K E}, (∀ k, m.lookup k = m'.lookup k) →
      ∀ k, (replay rank m log).lookup k = (replay rank m' log).lookup k := by
  induction log with
  | nil =>
    intro m m' h
    exact h
  | cons r log ih =>
    intro m m' h
    refine ih fun k => ?_
    show (upsert rank m r.1 r.2).lookup k = (upsert rank m' r.1 r.2).lookup k
    unfold upsert
    rw [h r.1]
    split
    · split
      · exact h k
      · rw [AList.lookup_insert_of_eq_or_ne, AList.lookup_insert_of_eq_or_ne, h k]
    · rw [AList.lookup_insert_of_eq_or_ne, AList.lookup_insert_of_eq_or_ne, h k]

variable {rank}

/-- An upsert of a dominated entry leaves the dominating one in place. -/
theorem upsert_lookup_top {m : Dict K E} {k : K} {e top : E}
    (hm : m.lookup k = some top) (he : e = top ∨ rank e < rank top) :
    (upsert rank m k e).lookup k = some top := by
  unfold upsert
  rw [hm]
  obtain rfl | hlt := he
  · simp
  · simp [hlt, hm]

/-- An upsert of the dominating entry installs it. -/
theorem upsert_lookup_self {m : Dict K E} {k : K} {top : E}
    (hm : ∀ e, m.lookup k = some e → e = top ∨ rank e < rank top) :
    (upsert rank m k top).lookup k = some top := by
  unfold upsert
  cases hl : m.lookup k with
  | none => simp
  | some old =>
    obtain rfl | hlt := hm old hl
    · simp
    · have hnot : ¬ rank top < rank old := by omega
      simp [hnot]

/-- **The fold finds the top entry**: if `top` occurs for `k` in the start map
or the log and dominates everything else that does, the replayed map holds it,
whatever the order of the log. -/
theorem replay_lookup_top {k : K} {top : E} {log : List (K × E)} :
    ∀ {m : Dict K E},
      (∀ e, m.lookup k = some e ∨ (k, e) ∈ log → e = top ∨ rank e < rank top) →
      (m.lookup k = some top ∨ (k, top) ∈ log) →
      (replay rank m log).lookup k = some top := by
  induction log with
  | nil =>
    intro m _ hmem
    obtain hm | hmem := hmem
    · exact hm
    · cases hmem
  | cons r log ih =>
    intro m hdom hmem
    show (replay rank (upsert rank m r.1 r.2) log).lookup k = some top
    by_cases hk : r.1 = k
    · subst hk
      -- the head of the log is about `k`: it is `top`, or dominated by it
      apply ih
      · rintro e (he | he)
        · obtain rfl | hold := upsert_lookup_mem rank he
          · exact hdom _ (.inr List.mem_cons_self)
          · exact hdom _ (.inl hold)
        · exact hdom _ (.inr (List.mem_cons_of_mem _ he))
      · obtain hm | hmem := hmem
        · exact .inl (upsert_lookup_top hm (hdom _ (.inr List.mem_cons_self)))
        · obtain heq | hin := List.mem_cons.mp hmem
          · rw [← heq]
            exact .inl (upsert_lookup_self fun e he => hdom e (.inl he))
          · exact .inr hin
    · have hne := upsert_lookup_ne rank m (Ne.symm hk) r.2
      apply ih
      · rintro e (he | he)
        · rw [hne] at he
          exact hdom _ (.inl he)
        · exact hdom _ (.inr (List.mem_cons_of_mem _ he))
      · obtain hm | hmem := hmem
        · rw [hne]
          exact .inl hm
        · obtain heq | hin := List.mem_cons.mp hmem
          · exact absurd (congrArg Prod.fst heq).symm hk
          · exact .inr hin

/-! ## Reading back -/

variable {stamp}

theorem Below.rank_or_eq {e top : E} (h : Below rank stamp e top) :
    e = top ∨ rank e < rank top :=
  h.imp id And.left

theorem Below.stamp_le {e top : E} (h : Below rank stamp e top) : stamp e ≤ stamp top := by
  obtain rfl | ⟨_, hle⟩ := h
  · exact Nat.le_refl _
  · exact hle

theorem Below.rank_le {e top : E} (h : Below rank stamp e top) : rank e ≤ rank top := by
  obtain rfl | ⟨hlt, _⟩ := h
  · exact Nat.le_refl _
  · exact Nat.le_of_lt hlt

theorem Below.trans {a b c : E} (hab : Below rank stamp a b) (hbc : Below rank stamp b c) :
    Below rank stamp a c := by
  obtain rfl | ⟨hr, hs⟩ := hab
  · exact hbc
  · exact .inr ⟨Nat.lt_of_lt_of_le hr hbc.rank_le, Nat.le_trans hs hbc.stamp_le⟩

/-- An entry survives the reading filters exactly when it is held and live. -/
theorem filtered_iff {cutB cutL : Nat} {base : Dict K E} {log : List (K × E)} {k : K} {e : E} :
    (base.retain fun _ e => decide (cutB < stamp e)).lookup k = some e ∨
        (k, e) ∈ log.filter (fun r => decide (cutL < stamp r.2)) ↔
      base.lookup k = some e ∧ cutB < stamp e ∨ (k, e) ∈ log ∧ cutL < stamp e := by
  simp [Option.filter_eq_some_iff, List.mem_filter]

/-- Everything read back was held. -/
theorem held_of_recover {cutB cutL : Nat} {base : Dict K E} {log : List (K × E)} {k : K} {e : E}
    (h : (recover rank stamp cutB cutL base log).lookup k = some e) : Held base log k e := by
  obtain ⟨hb, _⟩ | ⟨hl, _⟩ := filtered_iff.mp (replay_lookup_mem rank h)
  · exact .inl hb
  · exact .inr hl

namespace Represents

variable {cut : Nat} {map base : Dict K E} {log : List (K × E)}

/-- The live entries of the map are read back unchanged. -/
theorem recover_live (h : Represents rank stamp cut map base log) {cutB cutL : Nat}
    (hB : cut ≤ cutB) (hBL : cutB ≤ cutL) {k : K} {top : E}
    (htop : map.lookup k = some top) (hlive : cutL < stamp top) :
    (recover rank stamp cutB cutL base log).lookup k = some top := by
  refine replay_lookup_top ?_ ?_
  · intro e he
    have hcases := filtered_iff.mp he
    have hheld : Held base log k e := hcases.imp And.left And.left
    have hfresh : ¬ stamp e ≤ cut := by
      rcases hcases with ⟨_, hs⟩ | ⟨_, hs⟩ <;> omega
    obtain hdead | ⟨top', htop', hbelow⟩ := h.below hheld
    · exact absurd hdead hfresh
    · rw [htop] at htop'
      cases htop'
      exact hbelow.rank_or_eq
  · refine filtered_iff.mpr ?_
    obtain hb | hl := h.held htop
    · exact .inl ⟨hb, by omega⟩
    · exact .inr ⟨hl, hlive⟩

/-- What is read back stands for base and log again: recovery can be
interrupted and repeated. -/
theorem recovered (h : Represents rank stamp cut map base log) {cutB cutL : Nat}
    (hB : cut ≤ cutB) (hBL : cutB ≤ cutL) :
    Represents rank stamp cutL (recover rank stamp cutB cutL base log) base log where
  held := held_of_recover
  below := by
    intro k e hheld
    by_cases hlive : stamp e ≤ cutL
    · exact .inl hlive
    · obtain hdead | ⟨top, htop, hbelow⟩ := h.below hheld
      · exact absurd (show stamp e ≤ cutL by omega) hlive
      · have hstamp := hbelow.stamp_le
        exact .inr ⟨top, h.recover_live hB hBL htop (by omega), hbelow⟩

/-- Nothing is read back for a key unless the map has an entry for it that was
live at the earlier cutoff. -/
theorem lookup_of_recover (h : Represents rank stamp cut map base log) {cutB cutL : Nat}
    (hB : cut ≤ cutB) (hBL : cutB ≤ cutL) {k : K} {e : E}
    (hrec : (recover rank stamp cutB cutL base log).lookup k = some e) :
    ∃ top, map.lookup k = some top ∧ cutB < stamp top := by
  have hfresh : cutB < stamp e := by
    obtain ⟨_, hs⟩ | ⟨_, hs⟩ := filtered_iff.mp (replay_lookup_mem rank hrec)
    · exact hs
    · exact Nat.lt_of_le_of_lt hBL hs
  obtain hdead | ⟨top, htop, hbelow⟩ := h.below (held_of_recover hrec)
  · omega
  · exact ⟨top, htop, Nat.lt_of_lt_of_le hfresh hbelow.stamp_le⟩

/-- **Reading back gives the live part of the map**: every key is looked up to
its map entry, or to nothing if that entry is expired. -/
theorem lookup_recover (h : Represents rank stamp cut map base log) {c : Nat}
    (hc : cut ≤ c) (k : K) :
    (recover rank stamp c c base log).lookup k =
      (map.lookup k).filter (fun e => decide (c < stamp e)) := by
  refine Option.ext fun e => ?_
  rw [Option.filter_eq_some_iff, decide_eq_true_iff]
  constructor
  · intro hrec
    obtain ⟨top, htop, hlive⟩ := h.lookup_of_recover hc (Nat.le_refl _) hrec
    rw [h.recover_live hc (Nat.le_refl _) htop hlive] at hrec
    cases hrec
    exact ⟨htop, hlive⟩
  · rintro ⟨htop, hlive⟩
    exact h.recover_live hc (Nat.le_refl _) htop hlive

/-! ## The persistent operations -/

theorem empty (cut : Nat) : Represents rank stamp cut (∅ : Dict K E) ∅ [] where
  held := by
    intro k e h
    cases h
  below := by
    rintro k e (h | h)
    · cases h
    · cases h

theorem mono (h : Represents rank stamp cut map base log) {cut' : Nat} (hle : cut ≤ cut') :
    Represents rank stamp cut' map base log where
  held := h.held
  below hheld := (h.below hheld).imp (fun hd => Nat.le_trans hd hle) id

/-- The relation sees the map only through its lookups. -/
theorem congr (h : Represents rank stamp cut map base log) {map' : Dict K E}
    (hmap : ∀ k, map'.lookup k = map.lookup k) : Represents rank stamp cut map' base log where
  held := fun hl => h.held ((hmap _).symm.trans hl)
  below := by
    intro k e hheld
    rw [hmap k]
    exact h.below hheld

/-- Append an upsert that supersedes the current entry of its key, if any. -/
theorem append (h : Represents rank stamp cut map base log) {k : K} {e : E}
    (hsup : ∀ old, map.lookup k = some old → Below rank stamp old e) :
    Represents rank stamp cut (map.insert k e) base (log ++ [(k, e)]) where
  held := by
    intro k' e' hl
    rw [AList.lookup_insert_of_eq_or_ne] at hl
    split at hl
    · next heq =>
      cases Option.some.inj hl
      subst heq
      exact .inr (by simp)
    · obtain hb | hlog := h.held hl
      · exact .inl hb
      · exact .inr (List.mem_append_left _ hlog)
  below := by
    intro k' e' hheld
    have hcases : Held base log k' e' ∨ (k' = k ∧ e' = e) := by
      obtain hb | hlog := hheld
      · exact .inl (.inl hb)
      · obtain hin | hnew := List.mem_append.mp hlog
        · exact .inl (.inr hin)
        · rw [List.mem_singleton, Prod.mk.injEq] at hnew
          exact .inr hnew
    obtain hold | ⟨rfl, rfl⟩ := hcases
    · obtain hdead | ⟨top, htop, hbelow⟩ := h.below hold
      · exact .inl hdead
      · refine .inr ?_
        rw [AList.lookup_insert_of_eq_or_ne]
        split
        · next heq =>
          subst heq
          exact ⟨e, rfl, hbelow.trans (hsup top htop)⟩
        · exact ⟨top, htop, hbelow⟩
    · exact .inr ⟨e', AList.lookup_insert _, .inl rfl⟩

/-- Rewriting the base from the map leaves the log's records harmless. -/
theorem rebase (h : Represents rank stamp cut map base log) {base' : Dict K E}
    (hbase : ∀ k, base'.lookup k = map.lookup k) :
    Represents rank stamp cut map base' log where
  held := fun hl => .inl ((hbase _).trans hl)
  below := by
    rintro k e (hb | hl)
    · exact .inr ⟨e, (hbase k).symm.trans hb, .inl rfl⟩
    · exact h.below (.inr hl)

/-- With the base up to date, the log can be emptied. -/
theorem truncate (hbase : ∀ k, base.lookup k = map.lookup k) :
    Represents rank stamp cut map base [] where
  held := fun hl => .inl ((hbase _).trans hl)
  below := by
    rintro k e (hb | hl)
    · exact .inr ⟨e, (hbase k).symm.trans hb, .inl rfl⟩
    · cases hl

/-- Dropping expired entries from the map: what is still held of them is
expired too. -/
theorem retain (h : Represents rank stamp cut map base log) {c : Nat} (hc : cut ≤ c) :
    Represents rank stamp c (map.retain fun _ e => decide (c < stamp e)) base log where
  held := by
    intro k e hl
    rw [AList.lookup_retain, Option.filter_eq_some_iff] at hl
    exact h.held hl.1
  below := by
    intro k e hheld
    obtain hdead | ⟨top, htop, hbelow⟩ := h.below hheld
    · exact .inl (Nat.le_trans hdead hc)
    · by_cases hlive : c < stamp top
      · refine .inr ⟨top, ?_, hbelow⟩
        rw [AList.lookup_retain, htop]
        simp [hlive]
      · have := hbelow.stamp_le
        exact .inl (by omega)

end Represents

end MonotoneLog
