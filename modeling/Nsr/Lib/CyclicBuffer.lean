import Mathlib.Data.List.Range
import Mathlib.Logic.Function.Basic
import Mathlib.Tactic.Common

/-!
# Windows of a cyclic buffer

A cyclic buffer is read through positions that never wrap: position `k` of the
stream lives in the cell `slot k`, and the cells are reused, so `slot` is only
injective on windows of the buffer's length.  Nothing here knows how `slot` is
computed or how long the buffer is.

* `segment slot data a n`: the `n` entries from position `a` on, in order.
* `WindowInjective slot N`: positions less than `N` apart have distinct cells.
* `segment_update_outside`: writing a position outside a window that still lies
  within one turn of the buffer leaves the window alone.  This is the fact every
  "not overwritten before it is read" argument comes down to.
-/

namespace CyclicBuffer

variable {ι α : Type*}

/-- The `n` entries from stream position `a` on. -/
def segment (slot : ℕ → ι) (data : ι → α) (a n : ℕ) : List α :=
  (List.range n).map fun i => data (slot (a + i))

/-- Positions less than `N` apart have distinct cells. -/
def WindowInjective (slot : ℕ → ι) (N : ℕ) : Prop :=
  ∀ i j, i < j → j < i + N → slot i ≠ slot j

variable {slot : ℕ → ι} {data : ι → α}

@[simp] theorem segment_zero (a : ℕ) : segment slot data a 0 = [] := rfl

@[simp] theorem length_segment (a n : ℕ) : (segment slot data a n).length = n := by
  simp [segment]

theorem segment_succ (a n : ℕ) :
    segment slot data a (n + 1) = segment slot data a n ++ [data (slot (a + n))] := by
  simp [segment, List.range_succ]

theorem segment_add (a m n : ℕ) :
    segment slot data a (m + n) = segment slot data a m ++ segment slot data (a + m) n := by
  induction n with
  | zero => simp
  | succ n ih =>
    rw [← Nat.add_assoc, segment_succ, segment_succ, ih, List.append_assoc, Nat.add_assoc]

variable [DecidableEq ι]

/-- Writing a cell that no position of the window uses. -/
theorem segment_update_of_ne {a n : ℕ} {k : ι} {x : α}
    (h : ∀ i, i < n → slot (a + i) ≠ k) :
    segment slot (Function.update data k x) a n = segment slot data a n := by
  refine List.map_congr_left fun i hi => ?_
  rw [Function.update_of_ne (h i (List.mem_range.mp hi))]

/-- **Writing ahead of a window.**  The position written lies behind the window's
end and less than one turn of the buffer past its start. -/
theorem segment_update_outside {N : ℕ} (hslot : WindowInjective slot N) {a n p : ℕ} {x : α}
    (hn : a + n ≤ p) (hp : p < a + N) :
    segment slot (Function.update data (slot p) x) a n = segment slot data a n := by
  refine segment_update_of_ne fun i hi => hslot (a + i) p ?_ ?_
  · omega
  · omega

/-- Writing the next position extends the window. -/
theorem segment_update_succ {N : ℕ} (hslot : WindowInjective slot N) {a n : ℕ} {x : α}
    (hn : n < N) :
    segment slot (Function.update data (slot (a + n)) x) a (n + 1) =
      segment slot data a n ++ [x] := by
  rw [segment_succ, segment_update_outside hslot le_rfl (by omega), Function.update_self]

end CyclicBuffer
