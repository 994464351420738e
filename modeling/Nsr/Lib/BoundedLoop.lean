import Mathlib.Data.Nat.Notation

/-!
# Loops with a measure

A loop whose body either goes on in a new state or leaves with a result, and a natural number that
every further round makes smaller.  Such a loop always leaves, and its result obeys the equation
one would write for it as a recursive function.

* `iterate`: the body, for at most a given number of rounds.
* `Loop`: a body with its measure, the decrease being a field.
* `Loop.run`, `Loop.run_eq`: the result of the loop and the equation it satisfies.
* `Loop.EndsWithin`: a bound on its rounds.
-/

namespace BoundedLoop

universe u v

variable {σ : Type u} {β : Type v}

/-- At most `n` rounds of a loop; `none` when they did not suffice. -/
def iterate (body : σ → σ ⊕ β) : ℕ → σ → Option β
  | 0, _ => none
  | n + 1, s =>
    match body s with
    | .inl s' => iterate body n s'
    | .inr b => some b

/-- Rounds that are not needed do not change the result. -/
theorem iterate_mono {body : σ → σ ⊕ β} {n m : ℕ} {s : σ} {b : β} (hnm : n ≤ m)
    (h : iterate body n s = some b) : iterate body m s = some b := by
  induction n generalizing m s with
  | zero => simp [iterate] at h
  | succ n ih =>
    obtain ⟨m, rfl⟩ : ∃ k, m = k + 1 := ⟨m - 1, by omega⟩
    rw [iterate] at h ⊢
    split
    · next s' hs =>
      rw [hs] at h
      exact ih (by omega) h
    · next b' hs =>
      rw [hs] at h
      exact h

/-- **A terminating loop**: every round that goes on makes the measure smaller. -/
structure Loop (σ : Type u) (β : Type v) where
  body : σ → σ ⊕ β
  measure : σ → ℕ
  decreases : ∀ {s s'}, body s = .inl s' → measure s' < measure s

namespace Loop

variable (L : Loop σ β)

theorem iterate_isSome {n : ℕ} {s : σ} (h : L.measure s < n) :
    (iterate L.body n s).isSome = true := by
  induction n generalizing s with
  | zero => omega
  | succ n ih =>
    rw [iterate]
    split
    · next s' hs =>
      have hlt := L.decreases hs
      exact ih (by omega)
    · rfl

/-- The result of a terminating loop. -/
def run (s : σ) : β :=
  (iterate L.body (L.measure s + 1) s).get (L.iterate_isSome (Nat.lt_succ_self _))

theorem run_of_iterate {n : ℕ} {s : σ} {b : β} (h : iterate L.body n s = some b) :
    L.run s = b := by
  have hrun : iterate L.body (L.measure s + 1) s = some (L.run s) := (Option.some_get _).symm
  have h₁ := iterate_mono (Nat.le_max_left n (L.measure s + 1)) h
  have h₂ := iterate_mono (Nat.le_max_right n (L.measure s + 1)) hrun
  exact Option.some_inj.mp (h₂.symm.trans h₁)

theorem exists_iterate (s : σ) : ∃ n, iterate L.body n s = some (L.run s) :=
  ⟨L.measure s + 1, (Option.some_get _).symm⟩

/-- A loop ends within as many rounds as its measure, and one more. -/
theorem iterate_eq_run {s : σ} {n : ℕ} (h : L.measure s < n) :
    iterate L.body n s = some (L.run s) := by
  obtain ⟨b, hb⟩ := Option.isSome_iff_exists.mp (L.iterate_isSome h)
  rw [hb, L.run_of_iterate hb]

/-- The loop ends within `n` rounds, wherever it starts. -/
def EndsWithin (n : ℕ) : Prop :=
  ∀ s, iterate L.body n s = some (L.run s)

theorem endsWithin {n : ℕ} (h : ∀ s, L.measure s < n) : L.EndsWithin n :=
  fun s => L.iterate_eq_run (h s)

/-- **The equation of a loop**: one round, and then the loop again. -/
theorem run_eq (s : σ) : L.run s = Sum.elim L.run id (L.body s) := by
  rcases hs : L.body s with s' | b
  · obtain ⟨n, hn⟩ := L.exists_iterate s'
    refine L.run_of_iterate (n := n + 1) ?_
    rw [iterate, hs]
    exact hn
  · refine L.run_of_iterate (n := 1) ?_
    rw [iterate, hs]
    rfl

end Loop

end BoundedLoop
