import Mathlib.Algebra.Order.Field.Rat
import Mathlib.Algebra.Order.Floor.Semiring
import Mathlib.Data.Rat.Floor
import Mathlib.Tactic.Linarith

/-!
# The frame throttle of a connection

`read_loop` charges every inbound frame against a token bucket and sleeps off
the deficit before it processes the frame. The bucket's balance may go
negative, so one call of `throttle` says little about the rate. What does is
the balance at the moment a frame is processed, when the deficit has been
slept off: it lies between zero and `capacity - 1`, and each frame processed
takes one token from it while the time between two frames adds its refill
(`level_throttle_le`). Counting frames against it bounds every window
(`processed_in_window_le`).

Numbers are exact; instants and durations are in seconds.
-/

namespace Pizzini.Relay

/-- `FrameRateLimiter` (main.rs:1434–1439). -/
structure FrameRateLimiter where
  capacity : ℚ
  refillPerSec : ℚ
  tokens : ℚ
  lastRefill : ℚ
  deriving DecidableEq, Repr

namespace FrameRateLimiter

/-- `FrameRateLimiter::new` (main.rs:1442–1449). -/
def new (capacity refillPerSec now : ℚ) : FrameRateLimiter where
  capacity := capacity
  refillPerSec := refillPerSec
  tokens := capacity
  lastRefill := now

/-- `throttle` (main.rs:1455–1466): the limiter after the call, and how long
the caller is to wait. -/
def throttle (l : FrameRateLimiter) (now : ℚ) : FrameRateLimiter × ℚ :=
  let elapsed := max (now - l.lastRefill) 0
  let tokens := min (l.tokens + elapsed * l.refillPerSec) l.capacity - 1
  ({ l with
      tokens
      lastRefill := now },
    if 0 ≤ tokens then 0 else -tokens / l.refillPerSec)

/-! ## The read loop's calls -/

/-- When the frames read at the instants `calls` are processed: each at its
call plus the wait it was told (main.rs:1517–1520). -/
def processed (l : FrameRateLimiter) : List ℚ → List ℚ
  | [] => []
  | now :: calls => (now + (l.throttle now).2) :: (l.throttle now).1.processed calls

/-- The waits of the same calls. -/
def waits (l : FrameRateLimiter) : List ℚ → List ℚ
  | [] => []
  | now :: calls => (l.throttle now).2 :: (l.throttle now).1.waits calls

/-- The read loop comes back for the next frame only after it has processed
the one before. -/
def Paced (l : FrameRateLimiter) : List ℚ → Prop
  | [] => True
  | now :: calls =>
    (∀ next ∈ calls.head?, now + (l.throttle now).2 ≤ next) ∧ (l.throttle now).1.Paced calls

/-! ## One call -/

section Call

variable (l : FrameRateLimiter)

@[simp] theorem capacity_throttle (now : ℚ) : (l.throttle now).1.capacity = l.capacity := rfl

@[simp] theorem refillPerSec_throttle (now : ℚ) :
    (l.throttle now).1.refillPerSec = l.refillPerSec := rfl

@[simp] theorem lastRefill_throttle (now : ℚ) : (l.throttle now).1.lastRefill = now := rfl

theorem tokens_throttle (now : ℚ) : (l.throttle now).1.tokens =
    min (l.tokens + max (now - l.lastRefill) 0 * l.refillPerSec) l.capacity - 1 := rfl

/-- A call leaves at most `capacity - 1` tokens. -/
theorem tokens_throttle_le (now : ℚ) : (l.throttle now).1.tokens ≤ l.capacity - 1 := by
  rw [tokens_throttle]
  exact sub_le_sub_right (min_le_right _ _) 1

/-- The balance once the deficit has been slept off. -/
def level (l : FrameRateLimiter) : ℚ := max l.tokens 0

variable {l}

/-- The wait is the time in which the refill makes up for the deficit. -/
theorem refill_wait (hr : 0 < l.refillPerSec) (now : ℚ) :
    l.refillPerSec * (l.throttle now).2 =
      (l.throttle now).1.level - (l.throttle now).1.tokens := by
  rw [level, throttle]
  simp only
  generalize min (l.tokens + max (now - l.lastRefill) 0 * l.refillPerSec) l.capacity - 1 = tokens
  by_cases hneg : 0 ≤ tokens
  · rw [if_pos hneg, max_eq_left hneg, mul_zero, sub_self]
  · rw [if_neg hneg, max_eq_right (le_of_not_ge hneg), mul_div_cancel₀ _ (ne_of_gt hr), zero_sub]

theorem wait_nonneg (hr : 0 < l.refillPerSec) (now : ℚ) : 0 ≤ (l.throttle now).2 := by
  have hlevel : (l.throttle now).1.tokens ≤ (l.throttle now).1.level := le_max_left _ _
  have hwait := refill_wait hr now
  by_contra hneg
  have := mul_neg_of_pos_of_neg hr (lt_of_not_ge hneg)
  linarith

/-- With room for one token, the balance at a processed frame is at most
`capacity - 1`. -/
theorem level_throttle_le_capacity (hc : 1 ≤ l.capacity) (now : ℚ) :
    (l.throttle now).1.level ≤ l.capacity - 1 :=
  max_le (tokens_throttle_le l now) (sub_nonneg.mpr hc)

/-- From one processed frame to the next: the time between adds its refill,
the frame takes one token. `ready` is when the earlier frame was processed, a
wait after the bucket was last refilled. -/
theorem level_throttle_le (hr : 0 < l.refillPerSec) {ready now : ℚ}
    (hready : l.tokens + l.refillPerSec * (ready - l.lastRefill) = l.level)
    (hlast : l.lastRefill ≤ ready) (hnow : ready ≤ now) :
    (l.throttle now).1.level + 1 ≤
      l.level + l.refillPerSec * (now + (l.throttle now).2 - ready) := by
  have helapsed : max (now - l.lastRefill) 0 = now - l.lastRefill :=
    max_eq_left (sub_nonneg.mpr (hlast.trans hnow))
  have htokens : (l.throttle now).1.tokens ≤
      l.tokens + l.refillPerSec * (now - l.lastRefill) - 1 := by
    rw [tokens_throttle, helapsed, mul_comm]
    exact sub_le_sub_right (min_le_left _ _) 1
  have hwait := refill_wait hr now
  have hsplit : l.refillPerSec * (now + (l.throttle now).2 - ready) =
      l.refillPerSec * (now - l.lastRefill) - l.refillPerSec * (ready - l.lastRefill) +
        l.refillPerSec * (l.throttle now).2 := by ring
  linarith

end Call

/-! ## Windows -/

variable {l : FrameRateLimiter}

/-- The limiter is as a call at `lastRefill` left it, and the frame of that
call was processed at `ready`. -/
structure ProcessedAt (l : FrameRateLimiter) (ready : ℚ) : Prop where
  balance : l.tokens + l.refillPerSec * (ready - l.lastRefill) = l.level
  last : l.lastRefill ≤ ready

theorem processedAt_throttle (hr : 0 < l.refillPerSec) (now : ℚ) :
    (l.throttle now).1.ProcessedAt (now + (l.throttle now).2) where
  balance := by
    rw [refillPerSec_throttle, lastRefill_throttle, add_sub_cancel_left, refill_wait hr]
    ring
  last := le_add_of_nonneg_right (wait_nonneg hr _)

/-- Frames are processed in order. -/
theorem le_of_mem_processed (hr : 0 < l.refillPerSec) {calls : List ℚ} (hpaced : l.Paced calls)
    {ready : ℚ} (hready : ∀ next ∈ calls.head?, ready ≤ next) :
    ∀ p ∈ l.processed calls, ready ≤ p := by
  induction calls generalizing l ready with
  | nil => exact fun p hp => absurd hp List.not_mem_nil
  | cons now calls ih =>
    intro p hp
    have hfirst : ready ≤ now + (l.throttle now).2 :=
      (hready now rfl).trans (le_add_of_nonneg_right (wait_nonneg hr _))
    cases List.mem_cons.mp hp with
    | inl heq => rw [heq]; exact hfirst
    | inr hmem => exact hfirst.trans (ih (l := (l.throttle now).1) hr hpaced.2 hpaced.1 p hmem)

/-- The frames processed until `b` are paid for by the balance at `ready` and
the refill from then on. -/
theorem processed_until_le (hr : 0 < l.refillPerSec) {calls : List ℚ} (hpaced : l.Paced calls)
    {ready b : ℚ} (hat : l.ProcessedAt ready) (hready : ∀ next ∈ calls.head?, ready ≤ next)
    (hb : ready ≤ b) :
    (((l.processed calls).filter fun p => p ≤ b).length : ℚ) ≤
      l.level + l.refillPerSec * (b - ready) := by
  have hlevel : 0 ≤ l.level := le_max_right _ _
  have hrefill : 0 ≤ l.refillPerSec * (b - ready) := mul_nonneg hr.le (sub_nonneg.mpr hb)
  induction calls generalizing l ready with
  | nil => simpa [processed] using add_nonneg hlevel hrefill
  | cons now calls ih =>
    by_cases hin : now + (l.throttle now).2 ≤ b
    · -- the first frame is in: it is paid from the balance before it
      have hstep := level_throttle_le hr hat.balance hat.last (hready now rfl)
      have hrest := ih (l := (l.throttle now).1) hr hpaced.2 (processedAt_throttle hr now) hpaced.1
        hin (le_max_right _ _) (mul_nonneg hr.le (sub_nonneg.mpr hin))
      rw [processed, List.filter_cons_of_pos (by simpa using hin), List.length_cons,
        Nat.cast_add, Nat.cast_one]
      rw [refillPerSec_throttle] at hrest
      have hsplit : l.refillPerSec * (b - ready) =
          l.refillPerSec * (b - (now + (l.throttle now).2)) +
            l.refillPerSec * (now + (l.throttle now).2 - ready) := by ring
      linarith
    · -- the first frame is past `b`, and so are the others
      have hlate := le_of_mem_processed (l := (l.throttle now).1) hr hpaced.2 hpaced.1
      have hnone : ((l.processed (now :: calls)).filter fun p => p ≤ b) = [] := by
        rw [List.filter_eq_nil_iff]
        intro p hp
        simp only [decide_eq_true_eq, not_le]
        cases List.mem_cons.mp hp with
        | inl heq => rw [heq]; exact lt_of_not_ge hin
        | inr hmem => exact (lt_of_not_ge hin).trans_le (hlate p hmem)
      rw [hnone, List.length_nil, Nat.cast_zero]
      exact add_nonneg hlevel hrefill

/-- In a window from `a` to `b` at most `capacity` frames and the window's
refill are processed, whatever the limiter did before. -/
theorem processed_in_window_le (hc : 1 ≤ l.capacity) (hr : 0 < l.refillPerSec) {calls : List ℚ}
    (hpaced : l.Paced calls) {a b : ℚ} (hab : a ≤ b) :
    (((l.processed calls).filter fun p => a ≤ p ∧ p ≤ b).length : ℚ) ≤
      l.capacity + l.refillPerSec * (b - a) := by
  induction calls generalizing l with
  | nil =>
    have := mul_nonneg hr.le (sub_nonneg.mpr hab)
    simp only [processed, List.filter_nil, List.length_nil, Nat.cast_zero]
    linarith
  | cons now calls ih =>
    rw [processed]
    by_cases hin : a ≤ now + (l.throttle now).2 ∧ now + (l.throttle now).2 ≤ b
    · -- the first frame of the window: the bucket holds `capacity - 1` after it at most
      have hlevel := level_throttle_le_capacity hc now
      have huntil := processed_until_le (l := (l.throttle now).1) hr hpaced.2
        (processedAt_throttle hr now) hpaced.1 hin.2
      have hsub : (((l.throttle now).1.processed calls).filter fun p => a ≤ p ∧ p ≤ b).length ≤
          (((l.throttle now).1.processed calls).filter fun p => p ≤ b).length := by
        refine (List.monotone_filter_right _ fun p hp => ?_).length_le
        simp only [decide_eq_true_eq] at hp ⊢
        exact hp.2
      have hsub' : ((((l.throttle now).1.processed calls).filter
          fun p => a ≤ p ∧ p ≤ b).length : ℚ) ≤ _ := (Nat.cast_le.mpr hsub).trans huntil
      have hstart := mul_le_mul_of_nonneg_left (sub_le_sub_left hin.1 b) hr.le
      rw [List.filter_cons_of_pos (by simpa using hin), List.length_cons, Nat.cast_add,
        Nat.cast_one]
      rw [refillPerSec_throttle] at hsub'
      linarith
    · rw [List.filter_cons_of_neg (by simpa using hin)]
      exact ih (l := (l.throttle now).1) hc hr hpaced.2

/-! ## Bursts -/

/-- Each call takes one token at most. -/
theorem sub_one_le_tokens_throttle (hr : 0 < l.refillPerSec) (now : ℚ) {n : ℚ}
    (hn : n ≤ l.tokens) (hcap : n ≤ l.capacity) : n - 1 ≤ (l.throttle now).1.tokens := by
  have hrefill : 0 ≤ max (now - l.lastRefill) 0 * l.refillPerSec :=
    mul_nonneg (le_max_right _ _) hr.le
  rw [tokens_throttle]
  exact sub_le_sub_right (le_min (by linarith) hcap) 1

/-- As many calls as there are whole tokens go without a wait. -/
theorem waits_eq_zero (hr : 0 < l.refillPerSec) {calls : List ℚ}
    (htokens : (calls.length : ℚ) ≤ l.tokens) (hcap : (calls.length : ℚ) ≤ l.capacity) :
    ∀ wait ∈ l.waits calls, wait = 0 := by
  induction calls generalizing l with
  | nil => exact fun wait hwait => absurd hwait List.not_mem_nil
  | cons now calls ih =>
    intro wait hwait
    rw [List.length_cons, Nat.cast_add, Nat.cast_one] at htokens hcap
    have hleft := sub_one_le_tokens_throttle hr now htokens hcap
    rw [add_sub_cancel_right] at hleft
    cases List.mem_cons.mp hwait with
    | inl heq =>
      rw [heq]
      have hpos : 0 ≤ (l.throttle now).1.tokens := (Nat.cast_nonneg _).trans hleft
      exact if_pos hpos
    | inr hmem =>
      exact ih (l := (l.throttle now).1) hr hleft (by rw [capacity_throttle]; linarith) wait hmem

/-- The throttle of a connection: a window of length `b - a` sees at most
`c + r * (b - a)` frames processed, and the first `⌊c⌋` frames do not wait. -/
theorem frame_throttle_bounds (c r start : ℚ) (hc : 1 ≤ c) (hr : 0 < r) :
    (∀ calls, (new c r start).Paced calls → ∀ a b, a ≤ b →
        ((((new c r start).processed calls).filter fun p => a ≤ p ∧ p ≤ b).length : ℚ) ≤
          c + r * (b - a)) ∧
      ∀ calls : List ℚ, calls.length ≤ ⌊c⌋₊ →
        ∀ wait ∈ (new c r start).waits calls, wait = 0 := by
  constructor
  · intro calls hpaced a b hab
    exact processed_in_window_le (l := new c r start) hc hr hpaced hab
  · intro calls hlen
    have hfloor : (calls.length : ℚ) ≤ c := (Nat.le_floor_iff (by linarith)).mp hlen
    exact waits_eq_zero (l := new c r start) hr hfloor hfloor

/-- The relay's own numbers (main.rs:300–301). -/
theorem frame_throttle_bounds_relay :
    (∀ calls, (new 256 64 0).Paced calls → ∀ a b, a ≤ b →
        ((((new 256 64 0).processed calls).filter fun p => a ≤ p ∧ p ≤ b).length : ℚ) ≤
          256 + 64 * (b - a)) ∧
      ∀ calls : List ℚ, calls.length ≤ ⌊(256 : ℚ)⌋₊ →
        ∀ wait ∈ (new 256 64 0).waits calls, wait = 0 :=
  frame_throttle_bounds 256 64 0 (by norm_num) (by norm_num)

-- the relay's test of a spent burst, with two frames over budget
example : (new 2 4 0).waits [0, 0, 0, 0] = [0, 0, 1 / 4, 1 / 2] := by decide +kernel

end FrameRateLimiter

end Pizzini.Relay
