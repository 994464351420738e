import Mathlib.Algebra.GroupWithZero.Nat
import Mathlib.Data.List.DropRight
import Mathlib.Data.List.Nodup
import Nsr.Lib.CyclicBuffer

/-!
# Logs in a ring

A ring of `N` cells that keeps the last entries of a log: the next entry goes into the cell at
`head`, over the oldest one when the ring is full.  The last `n` entries are read from the cells
`head - n, …, head - 1`, round the end of the ring.

* `RingLog`: the cells, the head and the number of entries.
* `newest r n`, `entries r`: the last `n` entries and all of them, the oldest first.
* `push`, `modify`, `find`: a further entry; a change to the entry in a cell; the first cell whose
  entry passes a test.
* `newest_eq_rtake`, `entries_push`, `entries_modify`: the ring as the end of a list.
-/

open CyclicBuffer

/-- **A log in a ring** of `N` cells. -/
structure RingLog (α : Type*) (N : ℕ) where
  cells : Fin N → α
  head : Fin N
  count : ℕ
  count_le : count ≤ N

namespace RingLog

variable {α β : Type*} {N : ℕ} [NeZero N] (r : RingLog α N)

/-- The ring before the first entry. -/
def empty (x : α) : RingLog α N where
  cells _ := x
  head := 0
  count := 0
  count_le := Nat.zero_le N

/-- The cells `(head + N - n + i) % N` of the last `n` entries, the oldest first. -/
def slots (n : ℕ) : List (Fin N) :=
  (List.range n).map fun i => Fin.ofNat N (r.head + N - n + i)

/-- The last `n` entries, the oldest first. -/
def newest (n : ℕ) : List α :=
  (r.slots n).map r.cells

/-- The entries, the oldest first. -/
def entries : List α :=
  r.newest r.count

/-- The ring with a further entry. -/
def push (x : α) : RingLog α N where
  cells := Function.update r.cells r.head x
  head := Fin.ofNat N (r.head + 1)
  count := min (r.count + 1) N
  count_le := Nat.min_le_right _ _

/-- The ring with a change to the entry in a cell. -/
def modify (c : Fin N) (f : α → α) : RingLog α N :=
  { r with cells := Function.update r.cells c (f (r.cells c)) }

/-- The first cell, from the oldest entry on, whose entry passes a test. -/
def find (p : α → Bool) : Option (Fin N) :=
  (r.slots r.count).find? fun c => p (r.cells c)

/-! ## The last entries -/

theorem newest_eq_segment (n : ℕ) :
    r.newest n = segment (Fin.ofNat N) r.cells (r.head + N - n) n :=
  List.map_map

@[simp] theorem length_newest (n : ℕ) : (r.newest n).length = n := by
  rw [newest_eq_segment, length_segment]

@[simp] theorem length_entries : r.entries.length = r.count :=
  r.length_newest r.count

@[simp] theorem entries_empty (x : α) : (empty x : RingLog α N).entries = [] :=
  rfl

/-- Cells less than a turn apart are different. -/
theorem windowInjective_ofNat : WindowInjective (Fin.ofNat N) N := by
  intro i j hij hj heq
  have hmod := congrArg Fin.val heq
  rw [Fin.val_ofNat, Fin.val_ofNat] at hmod
  have hzero := Nat.sub_mod_eq_zero_of_mod_eq hmod.symm
  rw [Nat.mod_eq_of_lt (by omega)] at hzero
  omega

theorem newest_append {m n : ℕ} (hmn : m ≤ n) (hn : n ≤ N) :
    r.newest n = segment (Fin.ofNat N) r.cells (r.head + N - n) (n - m) ++ r.newest m := by
  have hstart : r.head + N - n + (n - m) = r.head + N - m := by omega
  rw [newest_eq_segment, newest_eq_segment, ← hstart, ← segment_add, Nat.sub_add_cancel hmn]

/-- **The last entries are the end of the list.** -/
theorem newest_eq_rtake {n : ℕ} (hn : n ≤ r.count) : r.newest n = r.entries.rtake n := by
  rw [entries, r.newest_append hn r.count_le, List.rtake, List.length_append, length_segment,
    length_newest, Nat.add_sub_cancel, List.drop_left' (length_segment _ _)]

/-! ## A further entry -/

/-- A turn of the ring changes no cell. -/
theorem segment_add_length (cells : Fin N → α) (a n : ℕ) :
    segment (Fin.ofNat N) cells (a + N) n = segment (Fin.ofNat N) cells a n := by
  refine List.map_congr_left fun i _ => congrArg cells (Fin.ext ?_)
  rw [Fin.val_ofNat, Fin.val_ofNat, Nat.add_right_comm, Nat.add_mod_right]

/-- What is read behind a head that has gone one cell further. -/
theorem newest_push {n : ℕ} (hn : n < N) (x : α) :
    (r.push x).newest (n + 1) = r.newest n ++ [x] := by
  have hhead := r.head.isLt
  have hcell : r.head = Fin.ofNat N (r.head + N - n + n) := by
    apply Fin.ext
    rw [Fin.val_ofNat, Nat.sub_add_cancel (by omega), Nat.add_mod_right, Nat.mod_eq_of_lt hhead]
  have hread : (r.push x).newest (n + 1) =
      segment (Fin.ofNat N) (r.push x).cells (r.head + N - n) (n + 1) := by
    rw [newest_eq_segment]
    by_cases hwrap : r.head.val + 1 = N
    · have hzero : (r.push x).head.val = 0 := by
        rw [push, Fin.val_ofNat, hwrap, Nat.mod_self]
      rw [← segment_add_length _ _ (n + 1)]
      congr 1
      omega
    · have hnext : (r.push x).head.val = r.head + 1 := by
        rw [push, Fin.val_ofNat, Nat.mod_eq_of_lt (by omega)]
      congr 1
      omega
  rw [hread, push, newest_eq_segment]
  have hupdate (cells : Fin N → α) (a : ℕ) :
      segment (Fin.ofNat N) (Function.update cells (Fin.ofNat N (a + n)) x) a (n + 1) =
        segment (Fin.ofNat N) cells a n ++ [x] :=
    segment_update_succ windowInjective_ofNat hn
  rw [← hupdate, ← hcell]

/-- The end of a list that has got one more element, read off the end of the list. -/
theorem rtake_append_singleton (l : List α) (n : ℕ) (x : α) :
    (l.rtake n ++ [x]).rtake n = (l ++ [x]).rtake n := by
  cases n with
  | zero => rw [List.rtake_zero, List.rtake_zero]
  | succ n =>
    rw [List.rtake_concat_succ, List.rtake_concat_succ]
    congr 1
    simp only [List.rtake, List.length_drop, List.drop_drop]
    congr 1
    omega

theorem map_rtake (f : α → β) (l : List α) (n : ℕ) : (l.rtake n).map f = (l.map f).rtake n := by
  rw [List.rtake, List.rtake, List.map_drop, List.length_map]

theorem rtake_of_length_le {l : List α} {n : ℕ} (h : l.length ≤ n) : l.rtake n = l := by
  rw [List.rtake, Nat.sub_eq_zero_of_le h, List.drop_zero]

/-- **A further entry**: the last `N` entries are kept. -/
theorem entries_push (x : α) : (r.push x).entries = (r.entries ++ [x]).rtake N := by
  have hle := r.count_le
  rcases Nat.lt_or_ge r.count N with hlt | hge
  · have hcount : (r.push x).count = r.count + 1 := Nat.min_eq_left hlt
    rw [entries, hcount, r.newest_push hlt, rtake_of_length_le]
    · rfl
    · rw [List.length_append, length_entries, List.length_singleton]
      exact hlt
  · have hpos := Nat.pos_of_neZero N
    have hlast : N - 1 + 1 = N := Nat.sub_add_cancel hpos
    have hcount : (r.push x).count = N - 1 + 1 := by
      rw [hlast]
      exact Nat.min_eq_right (by omega)
    have hkeep := List.rtake_concat_succ r.entries (N - 1) x
    rw [hlast] at hkeep
    rw [entries, hcount, r.newest_push (by omega), r.newest_eq_rtake (by omega), hkeep]

/-! ## A change to an entry -/

@[simp] theorem push_cells_head (x : α) : (r.push x).cells r.head = x :=
  Function.update_self ..

omit [NeZero N] in
@[simp] theorem modify_cells_self (c : Fin N) (f : α → α) :
    (r.modify c f).cells c = f (r.cells c) :=
  Function.update_self ..

/-- A change to the entry just made. -/
theorem modify_push (x : α) (f : α → α) : (r.push x).modify r.head f = r.push (f x) := by
  rw [modify, push, push]
  simp only [Function.update_self, Function.update_idem]

theorem find_eq_none {p : α → Bool} (h : r.find p = none) : ∀ a ∈ r.entries, p a = false := by
  intro a ha
  obtain ⟨c, hc, rfl⟩ := List.mem_map.mp ha
  exact Bool.eq_false_iff.mpr (List.find?_eq_none.mp h c hc)

theorem find_spec {p : α → Bool} {c : Fin N} (h : r.find p = some c) :
    c ∈ r.slots r.count ∧ p (r.cells c) = true :=
  ⟨List.mem_of_find?_eq_some h, List.find?_some (p := fun c => p (r.cells c)) h⟩

/-- **A change to the one entry with a key.** -/
theorem entries_modify [DecidableEq β] {key : α → β} (hkey : (r.entries.map key).Nodup)
    {c : Fin N} (hc : c ∈ r.slots r.count) (f : α → α) :
    (r.modify c f).entries =
      r.entries.map fun a => if key a = key (r.cells c) then f a else a := by
  rw [entries, newest, List.map_map] at hkey
  have hslots : (r.modify c f).slots r.count = r.slots r.count := rfl
  rw [entries, entries, newest, newest, List.map_map]
  change ((r.modify c f).slots r.count).map _ = _
  rw [hslots]
  refine List.map_congr_left fun c' hc' => ?_
  change Function.update r.cells c (f (r.cells c)) c' = _
  rw [Function.comp_apply]
  by_cases hcc : c' = c
  · subst hcc
    rw [Function.update_self, if_pos rfl]
  · have hne : key (r.cells c') ≠ key (r.cells c) := fun heq =>
      hcc (List.inj_on_of_nodup_map hkey hc' hc heq)
    rw [Function.update_of_ne hcc, if_neg hne]

end RingLog
