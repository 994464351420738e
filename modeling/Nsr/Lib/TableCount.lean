import Mathlib.Data.Set.Card

/-!
# Counting the entries of a table

A table is a function on a finite index type.  `count p f` is the number of its
entries satisfying `p`, and the lemmas say how that number moves when one entry
is overwritten, which is all a table ever has done to it.  The count is for
stating laws, not for running: it is not computed by walking the table.
-/

namespace TableCount

variable {ι α : Type*}

/-- The number of entries satisfying `p`. -/
noncomputable def count (p : α → Prop) (f : ι → α) : ℕ := {i | p (f i)}.ncard

variable {p : α → Prop} {f g : ι → α}

theorem count_eq_zero (h : ∀ i, ¬ p (f i)) : count p f = 0 := by
  rw [count, show {i | p (f i)} = ∅ from Set.eq_empty_of_forall_notMem h, Set.ncard_empty]

variable [Finite ι]

theorem count_le_card : count p f ≤ Nat.card ι := Set.ncard_le_card _

/-- Entries can only stop satisfying `p`. -/
theorem count_mono (h : ∀ i, p (g i) → p (f i)) : count p g ≤ count p f :=
  Set.ncard_le_ncard h

/-- A weaker property holds of no fewer entries. -/
theorem count_imp {q : α → Prop} (h : ∀ a, p a → q a) : count p f ≤ count q f :=
  Set.ncard_le_ncard fun i hi => h (f i) hi

variable [DecidableEq ι]

/-- Overwriting an entry adds at most the new one. -/
theorem count_update_le [DecidablePred p] (i : ι) (x : α) :
    count p (Function.update f i x) ≤ count p f + if p x then 1 else 0 := by
  split
  · have hsub : {j | p (Function.update f i x j)} ⊆ insert i {j | p (f j)} := by
      intro j hj
      by_cases hji : j = i
      · exact Or.inl hji
      · rw [Set.mem_ofPred_eq, Function.update_of_ne hji] at hj
        exact Or.inr hj
    exact (Set.ncard_le_ncard hsub).trans (Set.ncard_insert_le _ _)
  · rename_i hx
    refine count_mono fun j hj => ?_
    by_cases hji : j = i
    · subst hji
      rw [Function.update_self] at hj
      exact absurd hj hx
    · rwa [Function.update_of_ne hji] at hj

/-- Overwriting an entry that satisfied `p` by one that does not removes it. -/
theorem count_update_remove {i : ι} {x : α} (hi : p (f i)) (hx : ¬ p x) :
    count p (Function.update f i x) + 1 ≤ count p f := by
  have hnot : i ∉ {j | p (Function.update f i x j)} := by
    rw [Set.mem_ofPred_eq, Function.update_self]
    exact hx
  have hsub : insert i {j | p (Function.update f i x j)} ⊆ {j | p (f j)} := by
    rintro j (rfl | hj)
    · exact hi
    · have hji : j ≠ i := fun h => hnot (h ▸ hj)
      rwa [Set.mem_ofPred_eq, Function.update_of_ne hji] at hj
  rw [count, ← Set.ncard_insert_of_notMem hnot]
  exact Set.ncard_le_ncard hsub

/-- Overwriting an entry that did not satisfy `p` by one that does adds it. -/
theorem count_update_insert {i : ι} {x : α} (hi : ¬p (f i)) (hx : p x) :
    count p (Function.update f i x) = count p f + 1 := by
  have hset : {j | p (Function.update f i x j)} = insert i {j | p (f j)} := by
    ext j
    by_cases hji : j = i
    · subst hji
      simp [hx]
    · simp [hji]
  have hnot : i ∉ {j | p (f j)} := hi
  rw [count, hset, Set.ncard_insert_of_notMem hnot]
  rfl

omit [Finite ι] in
/-- Overwriting an entry by one that satisfies `p` exactly if it did changes nothing. -/
theorem count_update_same {i : ι} {x : α} (h : p x ↔ p (f i)) :
    count p (Function.update f i x) = count p f := by
  have hset : {j | p (Function.update f i x j)} = {j | p (f j)} := by
    ext j
    by_cases hji : j = i
    · subst hji
      simp [h]
    · simp [hji]
  rw [count, hset]
  rfl

end TableCount
