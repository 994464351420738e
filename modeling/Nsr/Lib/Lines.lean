import Mathlib.Data.List.Basic
import Mathlib.Tactic.Common

/-!
# The complete lines of a text

A line is complete once the symbol that ends it has been read.  What follows the last end is not a
line yet, and the next part of the text may still complete it.

* `complete nl s`: the complete lines of `s`, without their ends.
* `complete_line_append`, `complete_lines_append`: lines come off the front.
* `complete_eq_nil_iff`: there is no complete line without an end.
* `eq_line_append`, `line_append_inj`: cutting a text at its first end.
-/

namespace Lines

variable {α : Type*} (nl : α)

/-- Lines with their ends. -/
def unlines (lines : List (List α)) : List α := (lines.map (· ++ [nl])).flatten

variable {nl}

@[simp] theorem unlines_nil : unlines nl [] = [] := rfl

@[simp] theorem unlines_cons (l : List α) (ls : List (List α)) :
    unlines nl (l :: ls) = l ++ [nl] ++ unlines nl ls := rfl

theorem unlines_append (ls ls' : List (List α)) :
    unlines nl (ls ++ ls') = unlines nl ls ++ unlines nl ls' := by
  rw [unlines, List.map_append, List.flatten_append, unlines, unlines]

variable [DecidableEq α]

variable (nl) in
/-- The complete lines of a text, of which `cur` is what has been read of the first one. -/
def completeFrom (cur : List α) : List α → List (List α)
  | [] => []
  | b :: s => if b = nl then cur :: completeFrom [] s else completeFrom (cur ++ [b]) s

variable (nl) in
/-- The complete lines of a text. -/
def complete (s : List α) : List (List α) := completeFrom nl [] s

theorem completeFrom_line_append {l : List α} (hl : nl ∉ l) (cur s : List α) :
    completeFrom nl cur (l ++ [nl] ++ s) = (cur ++ l) :: complete nl s := by
  induction l generalizing cur with
  | nil =>
    rw [List.nil_append, List.singleton_append, completeFrom, if_pos rfl, List.append_nil]
    rfl
  | cons b l ih =>
    obtain ⟨hb, hl⟩ := not_or.mp (List.mem_cons.not.mp hl)
    rw [List.cons_append, List.cons_append, completeFrom, if_neg (Ne.symm hb), ih hl,
      List.append_assoc, List.singleton_append]

/-- **The first line comes off the front.** -/
theorem complete_line_append {l : List α} (hl : nl ∉ l) (s : List α) :
    complete nl (l ++ [nl] ++ s) = l :: complete nl s :=
  completeFrom_line_append hl [] s

/-- **Several lines come off the front.** -/
theorem complete_lines_append {ls : List (List α)} (hls : ∀ l ∈ ls, nl ∉ l) (s : List α) :
    complete nl (unlines nl ls ++ s) = ls ++ complete nl s := by
  induction ls with
  | nil => rfl
  | cons l ls ih =>
    rw [unlines_cons, List.append_assoc, complete_line_append (hls l List.mem_cons_self),
      ih fun l' hl' => hls l' (List.mem_cons_of_mem l hl'), List.cons_append]

theorem completeFrom_eq_nil_iff {cur s : List α} : completeFrom nl cur s = [] ↔ nl ∉ s := by
  induction s generalizing cur with
  | nil => simp [completeFrom]
  | cons b s ih =>
    rw [completeFrom]
    split
    · next hb => simp [hb]
    · next hb => rw [ih, List.mem_cons, not_or, and_iff_right (Ne.symm hb)]

/-- There is no complete line without an end. -/
theorem complete_eq_nil_iff {s : List α} : complete nl s = [] ↔ nl ∉ s :=
  completeFrom_eq_nil_iff

omit [DecidableEq α] in
/-- A text is cut at its first end in one way only. -/
theorem line_append_inj {l l' s s' : List α} (hl : nl ∉ l) (hl' : nl ∉ l')
    (h : l ++ [nl] ++ s = l' ++ [nl] ++ s') : l = l' ∧ s = s' := by
  induction l generalizing l' with
  | nil =>
    cases l' with
    | nil => exact ⟨rfl, List.cons.inj h |>.2⟩
    | cons b l' => exact absurd (List.cons.inj h).1 fun hb => hl' (hb ▸ List.mem_cons_self)
  | cons a l ih =>
    cases l' with
    | nil => exact absurd (List.cons.inj h).1 fun ha => hl (ha ▸ List.mem_cons_self)
    | cons b l' =>
      obtain ⟨rfl, htail⟩ := List.cons.inj h
      obtain ⟨rfl, rfl⟩ := ih (fun hm => hl (List.mem_cons_of_mem a hm))
        (fun hm => hl' (List.mem_cons_of_mem a hm)) htail
      exact ⟨rfl, rfl⟩

/-- **Cutting at the first end.** -/
theorem eq_line_append {s : List α} (h : nl ∈ s) :
    nl ∉ s.takeWhile (· ≠ nl) ∧
      s = s.takeWhile (· ≠ nl) ++ [nl] ++ (s.dropWhile (· ≠ nl)).tail := by
  induction s with
  | nil => exact absurd h List.not_mem_nil
  | cons b s ih =>
    by_cases hb : b = nl
    · subst hb
      simp
    · obtain ⟨hline, hs⟩ := ih ((List.mem_cons.mp h).resolve_left (Ne.symm hb))
      rw [List.takeWhile_cons_of_pos (by simpa using hb),
        List.dropWhile_cons_of_pos (by simpa using hb), List.cons_append, List.cons_append, ← hs]
      exact ⟨List.mem_cons.not.mpr (not_or.mpr ⟨Ne.symm hb, hline⟩), rfl⟩

end Lines
