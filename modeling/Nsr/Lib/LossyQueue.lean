import Nsr.Lib.Reachable
import Mathlib.Data.List.Basic

/-!
# A queue that may lose things

Values are offered; some are queued, and of those some are delivered from the front and some are
lost, one by one or all at once.  Whatever is lost and whenever, what is delivered comes in the
order it was offered, and nothing is delivered twice.
-/

namespace LossyQueue

open Transition

variable {α : Type*}

/-- The queue, with the histories of what was offered and what was delivered. -/
structure State (α : Type*) where
  offered : List α
  queued : List α
  delivered : List α

/-- Nothing offered yet. -/
def State.start : State α := ⟨[], [], []⟩

/-- **What may happen to the queue.** -/
inductive Step : State α → State α → Prop where
  | refuse (s : State α) (a : α) : Step s ⟨s.offered ++ [a], s.queued, s.delivered⟩
  | accept (s : State α) (a : α) : Step s ⟨s.offered ++ [a], s.queued ++ [a], s.delivered⟩
  | lose (s : State α) (q : List α) (hq : q.Sublist s.queued) : Step s ⟨s.offered, q, s.delivered⟩
  | deliver (s : State α) (a : α) (q : List α) (hq : s.queued = a :: q) :
      Step s ⟨s.offered, q, s.delivered ++ [a]⟩

/-- **Order and no repetition**: what was delivered, and then what is queued, is a subsequence of
what was offered. -/
theorem sublist_of_reachable {s : State α} (h : Reachable Step State.start s) :
    (s.delivered ++ s.queued).Sublist s.offered := by
  refine h.invariant (P := fun s => (s.delivered ++ s.queued).Sublist s.offered)
    (List.Sublist.refl []) fun s t _ hs hst => ?_
  cases hst with
  | refuse a => exact hs.trans (List.sublist_append_left s.offered [a])
  | accept a =>
    rw [← List.append_assoc]
    exact hs.append (List.Sublist.refl [a])
  | lose q hq => exact ((List.Sublist.refl s.delivered).append hq).trans hs
  | deliver a q hq =>
    rw [hq] at hs
    simpa using hs

end LossyQueue
