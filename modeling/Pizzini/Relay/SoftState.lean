import Mathlib.Algebra.Order.Ring.Defs
import Pizzini.Lib.Dict

/-!
# The relay's soft state

`main.rs` keeps several tables in memory only: HELLO replays, verify keys, the
dedupe table and the chain-seed rates. Entries carry the `Instant` they were
made at, and a garbage collector drops the old ones on a timer. This module
has what these tables share: the collector's cutoff, the collection itself,
and the admission rule of the tables with a hard cap.

An `Instant` is the time since the host was booted, an element of any ordered
ring `K` with the second as its unit.
-/

namespace Pizzini.Relay

variable {K : Type} [Ring K] [LinearOrder K]

/-- `Instant::checked_sub` on a platform without instants before the boot. Linux has them:
there the difference exists also on a host that has just been booted, and nothing is
clamped. -/
def checkedSub (now window : K) : Option K :=
  if window ≤ now then some (now - window) else none

/-- `instant_cutoff` (main.rs:2293–2300), clamped to `now`. -/
def instantCutoff (now window : K) : K := (checkedSub now window).getD now

/-- On a host that has been up for longer than the window nothing is clamped. -/
theorem instantCutoff_eq {now window : K} (h : window ≤ now) :
    instantCutoff now window = now - window := by
  rw [instantCutoff, checkedSub, if_pos h]
  rfl

/-- `admits_new_soft_state` (main.rs:649–652). -/
def admitsNewSoftState (isKnown : Bool) (currentLen cap : Nat) : Bool :=
  isKnown || decide (currentLen < cap)

/-- A collector's tick, `table.retain(|_, t| *t > cutoff)`. -/
def retainAfter {Key : Type} (cutoff : K) (table : Dict Key K) : Dict Key K :=
  table.retain fun _ t => decide (cutoff < t)

omit [Ring K] in
theorem lookup_retainAfter {Key : Type} [DecidableEq Key] (cutoff : K) (table : Dict Key K)
    (key : Key) :
    (retainAfter cutoff table).lookup key = (table.lookup key).filter fun t => cutoff < t := by
  rw [retainAfter, AList.lookup_retain]

end Pizzini.Relay
