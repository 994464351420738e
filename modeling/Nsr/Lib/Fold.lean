import Mathlib.Data.List.Basic
import Mathlib.Tactic.Common

/-!
# What a left fold gains

A loop over a list that changes a state is a left fold.  Two things are said about it here: a
condition on every step it takes, and what the steps bring about under that condition.

* `Along f P s l`: before each step of the fold of `f` over `l`, `P` holds of the state and of the
  element that is next.
* `Along.gains`: if a step brings about `Q` for its element and later steps keep it, then `Q` holds
  of every element at the end.
-/

namespace Fold

variable {σ α : Type*} {f : σ → α → σ} {P Q : σ → α → Prop} {I : σ → Prop} {M : α → Prop}
  {R : α → α → Prop}

/-- **Before each step of a left fold** the state and the next element satisfy `P`. -/
def Along (f : σ → α → σ) (P : σ → α → Prop) : σ → List α → Prop
  | _, [] => True
  | s, a :: l => P s a ∧ Along f P (f s a) l

/-- What later steps keep is there at the end. -/
theorem keeps (hI : ∀ s a, M a → I s → I (f s a))
    (hkeep : ∀ s a b, M a → I s → R b a → Q s b → Q (f s a) b) {b : α} {l : List α} {s : σ}
    (hM : ∀ a ∈ l, M a) (hR : ∀ a ∈ l, R b a) (hs : I s) (hb : Q s b) : Q (l.foldl f s) b := by
  have hboth : I (l.foldl f s) ∧ Q (l.foldl f s) b := by
    refine List.foldlRecOn (motive := fun t => I t ∧ Q t b) l f ⟨hs, hb⟩ ?_
    rintro t ⟨ht, htb⟩ a ha
    exact ⟨hI t a (hM a ha) ht, hkeep t a b (hM a ha) ht (hR a ha) htb⟩
  exact hboth.2

/-- **What every step brings about for its element holds of every element at the end**, if steps
over later elements keep it. -/
theorem Along.gains (hI : ∀ s a, M a → I s → I (f s a))
    (hgain : ∀ s a, M a → I s → P s a → Q (f s a) a)
    (hkeep : ∀ s a b, M a → I s → R b a → Q s b → Q (f s a) b) {l : List α} {s : σ}
    (hM : ∀ a ∈ l, M a) (hR : l.Pairwise R) (hs : I s) (hP : Along f P s l) :
    ∀ a ∈ l, Q (l.foldl f s) a := by
  induction l generalizing s with
  | nil => simp
  | cons a l ih =>
    obtain ⟨hPa, hPl⟩ := hP
    obtain ⟨hRa, hRl⟩ := List.pairwise_cons.mp hR
    have hMa := hM a List.mem_cons_self
    have hMl : ∀ b ∈ l, M b := fun b hb => hM b (List.mem_cons_of_mem a hb)
    have hs' := hI s a hMa hs
    intro b hb
    rw [List.foldl_cons]
    rcases List.mem_cons.mp hb with rfl | hb
    · exact keeps hI hkeep hMl hRa hs' (hgain s b hMa hs hPa)
    · exact ih hMl hRl hs' hPl b hb

end Fold
