import Mathlib.Data.Nat.Notation
import Mathlib.Order.Basic

/-! The timeout of a loop that waits for input. What is left of it goes down
only while the loop waits, so a round of the loop takes its period and, beside
it, the time spent elsewhere. -/
namespace Timed

/-- A timeout in the unit of its clock, with the time since it was set that it
does not count. -/
@[ext] structure Timer (period : Nat) where
  left : Nat
  outside : Nat
  hLeft : left ≤ period
deriving DecidableEq, Repr

namespace Timer

variable {period : Nat}

/-- The timeout is set again. -/
def set (period : Nat) : Timer period := ⟨period, 0, Nat.le_refl period⟩

/-- A loop that starts without a timeout. -/
def due (period : Nat) : Timer period := ⟨0, 0, Nat.zero_le period⟩

/-- Some time passes, inside the wait or elsewhere. A wait that takes longer
than it should counts for the rest as time elsewhere. -/
def tick (waiting : Bool) (d : Nat) (t : Timer period) : Timer period where
  left := if waiting then t.left - d else t.left
  outside := if waiting then t.outside + (d - t.left) else t.outside + d
  hLeft := by
    split
    · exact Nat.le_trans (Nat.sub_le _ _) t.hLeft
    · exact t.hLeft

/-- The time since it was set. -/
def elapsed (t : Timer period) : Nat := (period - t.left) + t.outside

theorem elapsed_set : (set period).elapsed = 0 := by
  simp [set, elapsed]

/-- The time since it was set goes on, whatever is waited for. -/
theorem elapsed_tick (waiting : Bool) (d : Nat) (t : Timer period) :
    (t.tick waiting d).elapsed = t.elapsed + d := by
  have hLeft := t.hLeft
  unfold elapsed tick
  cases waiting with
  | true =>
      simp only [if_true]
      omega
  | false =>
      simp only [Bool.false_eq_true, if_false]
      omega

/-- No more time has passed than the period and what was spent elsewhere. -/
theorem elapsed_le (t : Timer period) : t.elapsed ≤ period + t.outside := by
  unfold elapsed
  omega

/-- While nothing is waited for, all time is spent elsewhere. -/
theorem elapsed_of_full {t : Timer period} (hFull : t.left = period) : t.elapsed = t.outside := by
  rw [elapsed, hFull, Nat.sub_self, Nat.zero_add]

/-- All time is spent elsewhere. -/
theorem outside_tick_busy (d : Nat) (t : Timer period) :
    (t.tick false d).outside = t.outside + d := rfl

end Timer

end Timed
