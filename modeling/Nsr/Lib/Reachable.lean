import Mathlib.Logic.Relation

/-!
# Runs of a transition relation

A system is a type of states, an initial state and a relation saying what one
step may do.  A run is a finite chain of steps, and everything a safety theorem
says it says about the states runs arrive at.

* `Reachable`: the states runs arrive at.
* `Reachable.invariant`: what holds at the start and is kept by every step holds
  at every reachable state.  The step case may use that the state before the
  step is itself reachable, so an invariant can lean on one proved earlier.
* `Reachable.map`: a map into another system that sends every step to a run
  sends reachable states to reachable states.  This is how a component's own
  theorems are read inside a larger system.
* `Reachable.exec`, `Reachable.exists_of_exec`: an executable step function drives
  a run, so that a schedule written as a list is a proof of reachability.
-/

namespace Transition

variable {σ τ : Type*}

/-- The states some run from `init` arrives at. -/
def Reachable (step : σ → σ → Prop) (init : σ) (s : σ) : Prop :=
  Relation.ReflTransGen step init s

namespace Reachable

variable {step : σ → σ → Prop} {init s t : σ}

theorem refl : Reachable step init init := Relation.ReflTransGen.refl

theorem tail (h : Reachable step init s) (hst : step s t) : Reachable step init t :=
  Relation.ReflTransGen.tail h hst

/-- **The invariant rule.** -/
theorem invariant {P : σ → Prop} (h0 : P init)
    (hstep : ∀ s t, Reachable step init s → P s → step s t → P t)
    (h : Reachable step init s) : P s := by
  induction h with
  | refl => exact h0
  | tail hs hst ih => exact hstep _ _ hs ih hst

/-- **Reading a component.**  If every step of the whole is, through `f`, a run of
the part, then reachable states of the whole map to reachable states of the
part. -/
theorem map {step' : τ → τ → Prop} (f : σ → τ)
    (hstep : ∀ s t, Reachable step init s → step s t →
      Relation.ReflTransGen step' (f s) (f t))
    (h : Reachable step init s) : Reachable step' (f init) (f s) := by
  induction h with
  | refl => exact Relation.ReflTransGen.refl
  | tail hs hst ih => exact Relation.ReflTransGen.trans ih (hstep _ _ hs hst)

end Reachable

/-! ## Schedules -/

variable {α : Type*}

/-- Run a schedule: perform the listed actions in turn, failing as soon as one of
them is not enabled. -/
def exec (act : α → σ → Option σ) : List α → σ → Option σ
  | [], s => some s
  | a :: as, s => (act a s).bind (exec act as)

/-- A schedule that runs through is a run. -/
theorem Reachable.exec {act : α → σ → Option σ} {step : σ → σ → Prop} {init : σ} :
    ∀ {as : List α} {s t : σ}, (∀ a ∈ as, ∀ s t, act a s = some t → step s t) →
      Reachable step init s → Transition.exec act as s = some t → Reachable step init t
  | [], s, t, _, hs, h => by
    obtain rfl : s = t := Option.some.inj h
    exact hs
  | a :: as, s, t, hact, hs, h => by
    obtain ⟨u, hu, ht⟩ := Option.bind_eq_some_iff.mp h
    exact Reachable.exec (fun b hb => hact b (List.mem_cons_of_mem a hb))
      (hs.tail (hact a List.mem_cons_self s u hu)) ht

/-- What a schedule is observed to end in, a reachable state ends in. -/
theorem Reachable.exists_of_exec {act : α → σ → Option σ} (step : σ → σ → Prop) {init : σ}
    {as : List α} {obs : σ → τ} {b : τ} (h : (Transition.exec act as init).map obs = some b)
    (hact : ∀ a ∈ as, ∀ s t, act a s = some t → step s t) :
    ∃ s, Reachable step init s ∧ obs s = b := by
  obtain ⟨s, hs, hb⟩ := Option.map_eq_some_iff.mp h
  exact ⟨s, Reachable.exec hact Reachable.refl hs, hb⟩

end Transition
