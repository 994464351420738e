import Mathlib.Data.Nat.ModEq
import Mathlib.Tactic.Common

/-!
# Sums with end-around carry

Words are numbers below a base `b`.  Their one's-complement sum adds a carry out of the top back in
at the bottom, which takes `b - 1` off whenever it happens.  So the sum is the ordinary sum modulo
`b - 1`, and of the two representatives of zero it takes `b - 1` unless every word is zero.

* `add`, `sum`: the sum of two words, and of a list of words.
* `sum_modEq`: it is the ordinary sum modulo `b - 1`.
* `eq_of_modEq`: away from zero a word is determined by its class.
-/

namespace OnesComplement

/-- The one's-complement sum of two words. -/
def add (b x y : ℕ) : ℕ :=
  if x + y < b then x + y else x + y - (b - 1)

/-- The one's-complement sum of a list of words. -/
def sum (b : ℕ) (ws : List ℕ) : ℕ :=
  ws.foldl (add b) 0

variable {b : ℕ}

theorem add_lt {x y : ℕ} (hb : 1 < b) (hx : x < b) (hy : y < b) : add b x y < b := by
  unfold add
  split <;> omega

theorem add_modEq (hb : 1 < b) (x y : ℕ) : add b x y ≡ x + y [MOD b - 1] := by
  unfold add
  split
  · rfl
  · have hsplit : x + y = x + y - (b - 1) + (b - 1) := by omega
    conv_rhs => rw [hsplit]
    exact (Nat.add_modEq_right (n := b - 1)).symm

theorem pos_of_add_left {x y : ℕ} (hb : 1 < b) (hx : 0 < x) : 0 < add b x y := by
  unfold add
  split <;> omega

theorem pos_of_add_right {x y : ℕ} (hb : 1 < b) (hy : 0 < y) : 0 < add b x y := by
  unfold add
  split <;> omega

/-- Folding from any word on. -/
theorem foldl_modEq (hb : 1 < b) (ws : List ℕ) (x : ℕ) :
    ws.foldl (add b) x ≡ x + ws.sum [MOD b - 1] := by
  induction ws generalizing x with
  | nil => rfl
  | cons w ws ih =>
    rw [List.foldl_cons, List.sum_cons, ← Nat.add_assoc]
    exact (ih (add b x w)).trans ((add_modEq hb x w).add_right _)

theorem foldl_lt (hb : 1 < b) {ws : List ℕ} (hws : ∀ w ∈ ws, w < b) {x : ℕ} (hx : x < b) :
    ws.foldl (add b) x < b := by
  induction ws generalizing x with
  | nil => exact hx
  | cons w ws ih =>
    rw [List.foldl_cons]
    exact ih (fun v hv => hws v (List.mem_cons_of_mem w hv))
      (add_lt hb hx (hws w List.mem_cons_self))

theorem foldl_pos (hb : 1 < b) (ws : List ℕ) {x : ℕ} (hx : 0 < x) : 0 < ws.foldl (add b) x := by
  induction ws generalizing x with
  | nil => exact hx
  | cons w ws ih => exact ih (pos_of_add_left hb hx)

/-- **The sum is the ordinary sum modulo `b - 1`.** -/
theorem sum_modEq (hb : 1 < b) (ws : List ℕ) : sum b ws ≡ ws.sum [MOD b - 1] := by
  have h := foldl_modEq hb ws 0
  rwa [Nat.zero_add] at h

theorem sum_lt (hb : 1 < b) {ws : List ℕ} (hws : ∀ w ∈ ws, w < b) : sum b ws < b :=
  foldl_lt hb hws (by omega)

/-- A sum that starts with a word other than zero is not zero. -/
theorem sum_cons_pos (hb : 1 < b) {w : ℕ} (hw : 0 < w) (ws : List ℕ) : 0 < sum b (w :: ws) :=
  foldl_pos hb ws (pos_of_add_right hb hw)

/-- **A word other than zero is determined by its class.** -/
theorem eq_of_modEq {x y : ℕ} (hx : 0 < x) (hxb : x < b) (hy : 0 < y) (hyb : y < b)
    (h : x ≡ y [MOD b - 1]) : x = y := by
  rcases Nat.lt_trichotomy x y with hlt | heq | hlt
  · have hdvd := (Nat.modEq_iff_dvd' hlt.le).mp h
    have := Nat.le_of_dvd (by omega) hdvd
    omega
  · exact heq
  · have hdvd := (Nat.modEq_iff_dvd' hlt.le).mp h.symm
    have := Nat.le_of_dvd (by omega) hdvd
    omega

end OnesComplement
