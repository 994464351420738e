import Mathlib.Algebra.GroupWithZero.Nat
import Mathlib.Algebra.Order.Group.Nat
import Mathlib.Data.Fin.Basic
import Mathlib.Data.List.FinRange
import Mathlib.Tactic.Common
import Nsr.Lib.OrderedDict

/-!
# Tables with linear probing

A table of `n` cells, each empty or with a key and its value.  A key is looked for from the cell of
its hash on, cell by cell and round the end of the table, up to the first cell that is empty or
holds the key.  Nothing is ever taken out of a table.

* `way n start`: the cells in the order in which they are tried.
* `locate`, `find`, `store`: the probe, and the two operations made from it.
* `Represents t d`: every cell in use is where the probe for its key ends, and the cells in use
  hold the entries of the dictionary `d`.
* `find_eq_lookup`, `Represents.store`: the operations are those of a dictionary that takes no more
  than `n` keys.
-/

namespace LinearProbing

variable {κ ν : Type*} [DecidableEq κ] {n : ℕ} [NeZero n]

/-- The cells in the order in which they are tried from `start` on. -/
def way (n : ℕ) [NeZero n] (start : ℕ) : List (Fin n) :=
  (List.range n).map fun i => Fin.ofNat n (start + i)

/-- Every cell is tried. -/
theorem mem_way (start : ℕ) (c : Fin n) : c ∈ way n start := by
  have hn : 0 < n := Nat.pos_of_neZero n
  refine List.mem_map.mpr ⟨(c + (n - start % n)) % n, List.mem_range.mpr (Nat.mod_lt _ hn), ?_⟩
  have hlt := Nat.mod_lt start hn
  have hdiv := Nat.mod_add_div start n
  have hsum : start + (c + (n - start % n)) = c + n * (start / n + 1) := by
    rw [Nat.mul_succ]
    omega
  apply Fin.ext
  rw [Fin.val_ofNat, Nat.add_mod_mod, hsum, Nat.add_mul_mod_self_left, Nat.mod_eq_of_lt c.isLt]

variable (hash : κ → ℕ)

/-- A cell ends the probe for `k`: it is empty, or it holds `k`. -/
def stops (t : Fin n → Option (κ × ν)) (k : κ) (c : Fin n) : Bool :=
  (t c).all fun e => e.1 = k

/-- Where the probe for a key ends. -/
def locate (t : Fin n → Option (κ × ν)) (k : κ) : Option (Fin n) :=
  (way n (hash k)).find? (stops t k)

/-- The value found under a key. -/
def find (t : Fin n → Option (κ × ν)) (k : κ) : Option ν :=
  (locate hash t k).bind fun c => (t c).map Prod.snd

/-- The table after a value has been stored under a key; a full table is left as it is. -/
def store (t : Fin n → Option (κ × ν)) (k : κ) (v : ν) : Fin n → Option (κ × ν) :=
  match locate hash t k with
  | some c => Function.update t c (some (k, v))
  | none => t

/-! ## The probe -/

section Probe

variable {hash} {t : Fin n → Option (κ × ν)} {k : κ} {c : Fin n}

omit [NeZero n] in
theorem stops_of_eq {e : κ × ν} (h : t c = some e) : stops t k c = decide (e.1 = k) := by
  rw [stops, h]
  rfl

omit [NeZero n] in
theorem stops_of_none (h : t c = none) : stops t k c = true := by
  rw [stops, h]
  rfl

/-- A probe ends at an empty cell, or at one with the key. -/
theorem locate_spec (h : locate hash t k = some c) : t c = none ∨ ∃ v, t c = some (k, v) := by
  have hstop := List.find?_some h
  rcases ht : t c with _ | ⟨k', v⟩
  · exact .inl rfl
  · rw [stops_of_eq ht] at hstop
    obtain rfl := of_decide_eq_true hstop
    exact .inr ⟨v, rfl⟩

/-- A probe that does not end has seen a full table, and the key in none of its cells. -/
theorem locate_eq_none_iff :
    locate hash t k = none ↔ ∀ c, ∃ e, t c = some e ∧ e.1 ≠ k := by
  rw [locate, List.find?_eq_none]
  constructor
  · intro h c
    have hstop := h c (mem_way _ c)
    rcases ht : t c with _ | e
    · exact absurd (stops_of_none ht) hstop
    · refine ⟨e, rfl, fun hk => hstop ?_⟩
      rw [stops_of_eq ht]
      exact decide_eq_true hk
  · intro h c _
    obtain ⟨e, he, hk⟩ := h c
    rw [stops_of_eq he, decide_eq_false hk]
    exact Bool.false_ne_true

/-- A probe still ends where it ended, if no other cell has begun to stop it. -/
theorem locate_of_stops {t' : Fin n → Option (κ × ν)} (h : locate hash t k = some c)
    (hc : stops t' k c = true) (hle : ∀ c', stops t' k c' = true → stops t k c' = true) :
    locate hash t' k = some c := by
  obtain ⟨-, l, l', hway, hl⟩ := List.find?_eq_some_iff_append.mp h
  refine List.find?_eq_some_iff_append.mpr ⟨hc, l, l', hway, fun c' hc' => ?_⟩
  have hno := hl c' hc'
  rw [Bool.not_eq_true'] at hno ⊢
  rw [Bool.eq_false_iff] at hno ⊢
  exact mt (hle c') hno

end Probe

/-! ## What a table represents -/

/-- **A table that holds the entries of a dictionary**, each where the probe for its key ends. -/
structure Represents (t : Fin n → Option (κ × ν)) (d : List (κ × ν)) : Prop where
  mem_iff : ∀ e, (∃ c, t c = some e) ↔ e ∈ d
  nodup : (d.map Prod.fst).Nodup
  located : ∀ c e, t c = some e → locate hash t e.1 = some c

theorem represents_empty : Represents hash (fun _ : Fin n => (none : Option (κ × ν))) [] where
  mem_iff e := by simp
  nodup := List.nodup_nil
  located c e h := by simp at h

namespace Represents

variable {hash} {t : Fin n → Option (κ × ν)} {d : List (κ × ν)}

/-- **No key has two cells.** -/
theorem cell_unique (h : Represents hash t d) {c c' : Fin n} {e e' : κ × ν} (hc : t c = some e)
    (hc' : t c' = some e') (hk : e.1 = e'.1) : c = c' := by
  have hloc := h.located c e hc
  rw [hk, h.located c' e' hc'] at hloc
  exact (Option.some_inj.mp hloc).symm

/-- The cells in use, one after the other, are the entries in some order. -/
theorem perm (h : Represents hash t d) : ((List.finRange n).filterMap t).Perm d := by
  refine (List.perm_ext_iff_of_nodup ?_ (List.Nodup.of_map _ h.nodup)).mpr fun e => ?_
  · refine List.Nodup.filterMap (fun c c' e hc hc' => ?_) (List.nodup_finRange n)
    exact h.cell_unique hc hc' rfl
  · rw [List.mem_filterMap, ← h.mem_iff]
    simp

theorem length_le (h : Represents hash t d) : d.length ≤ n := by
  have hle := List.length_filterMap_le t (List.finRange n)
  rwa [h.perm.length_eq, List.length_finRange] at hle

/-- A table is full when it has as many entries as cells. -/
theorem full_iff (h : Represents hash t d) : (∀ c, t c ≠ none) ↔ d.length = n := by
  have hlen := List.filterMap_length_eq_length (f := t) (l := List.finRange n)
  rw [h.perm.length_eq, List.length_finRange] at hlen
  simp [hlen, Option.isSome_iff_ne_none]

/-- **Looking a key up in the table is looking it up in the dictionary.** -/
theorem find_eq_lookup [BEq κ] [LawfulBEq κ] (h : Represents hash t d) (k : κ) :
    find hash t k = d.lookup k := by
  by_cases hk : k ∈ d.map Prod.fst
  · obtain ⟨e, he, rfl⟩ := List.mem_map.mp hk
    obtain ⟨c, hc⟩ := (h.mem_iff e).mpr he
    rw [find, h.located c e hc, Option.bind_some, hc, Option.map_some,
      OrderedDict.lookup_of_mem h.nodup he]
  · rw [OrderedDict.lookup_eq_none_iff.mpr hk, find]
    rcases hloc : locate hash t k with _ | c
    · rfl
    · rcases locate_spec hloc with hc | ⟨v, hc⟩
      · rw [Option.bind_some, hc, Option.map_none]
      · exact absurd (List.mem_map_of_mem ((h.mem_iff _).mp ⟨c, hc⟩)) hk

/-- Where the probe for a key ends is the one cell that may hold it. -/
theorem holds_iff (h : Represents hash t d) {k : κ} {c c' : Fin n} {e : κ × ν}
    (hloc : locate hash t k = some c) (hc' : t c' = some e) : e.1 = k ↔ c' = c := by
  constructor
  · rintro rfl
    rw [h.located c' e hc'] at hloc
    exact Option.some_inj.mp hloc
  · rintro rfl
    rcases locate_spec hloc with hnone | ⟨v, hsome⟩
    · rw [hnone] at hc'
      cases hc'
    · rw [hsome] at hc'
      exact congrArg Prod.fst (Option.some_inj.mp hc').symm

/-- **A key goes into the cell where its probe ends.** -/
theorem update (h : Represents hash t d) {k : κ} {c : Fin n} (hloc : locate hash t k = some c)
    (v : ν) :
    Represents hash (Function.update t c (some (k, v))) (OrderedDict.set d k v) := by
  refine ⟨fun e => ?_, OrderedDict.nodup_set h.nodup k v, fun c' e hc' => ?_⟩
  · rw [OrderedDict.mem_set, ← h.mem_iff]
    constructor
    · rintro ⟨c', hc'⟩
      by_cases hcc : c' = c
      · subst hcc
        rw [Function.update_self] at hc'
        exact .inl (Option.some_inj.mp hc').symm
      · rw [Function.update_of_ne hcc] at hc'
        exact .inr ⟨⟨c', hc'⟩, mt (h.holds_iff hloc hc').mp hcc⟩
    · rintro (rfl | ⟨⟨c', hc'⟩, hk⟩)
      · exact ⟨c, Function.update_self ..⟩
      · refine ⟨c', ?_⟩
        rw [Function.update_of_ne (mt (h.holds_iff hloc hc').mpr hk), hc']
  · by_cases hcc : c' = c
    · subst hcc
      rw [Function.update_self] at hc'
      obtain rfl := Option.some_inj.mp hc'
      refine locate_of_stops hloc ?_ fun c'' hstop => ?_
      · rw [stops_of_eq (Function.update_self ..)]
        exact decide_eq_true rfl
      · by_cases hcc' : c'' = c'
        · subst hcc'
          exact List.find?_some hloc
        · rwa [stops, Function.update_of_ne hcc'] at hstop
    · -- the probe for another key passes the cell that has been written, or ends before it
      rw [Function.update_of_ne hcc] at hc'
      have hk := mt (h.holds_iff hloc hc').mp hcc
      refine locate_of_stops (h.located c' e hc') ?_ fun c'' hstop => ?_
      · rw [stops_of_eq (by rw [Function.update_of_ne hcc, hc'])]
        exact decide_eq_true rfl
      · by_cases hcc' : c'' = c
        · subst hcc'
          rw [stops_of_eq (Function.update_self ..)] at hstop
          exact absurd (of_decide_eq_true hstop).symm hk
        · rwa [stops, Function.update_of_ne hcc'] at hstop

/-- **Storing in the table is setting in a dictionary of at most `n` keys.** -/
theorem store (h : Represents hash t d) (k : κ) (v : ν) :
    Represents hash (store hash t k v) (OrderedDict.setWithin n d k v) := by
  rw [LinearProbing.store, OrderedDict.setWithin]
  rcases hloc : locate hash t k with _ | c
  · have hcells := locate_eq_none_iff.mp hloc
    have hfull : d.length = n := h.full_iff.mp fun c hc => by
      obtain ⟨e, he, -⟩ := hcells c
      rw [hc] at he
      cases he
    have hk : k ∉ d.map Prod.fst := fun hmem => by
      obtain ⟨e, he, rfl⟩ := List.mem_map.mp hmem
      obtain ⟨c, hc⟩ := (h.mem_iff e).mpr he
      obtain ⟨e', he', hne⟩ := hcells c
      rw [hc] at he'
      exact hne (congrArg Prod.fst (Option.some_inj.mp he').symm)
    rw [if_neg (not_or.mpr ⟨hk, by omega⟩)]
    exact h
  · have hroom : k ∈ d.map Prod.fst ∨ d.length < n := by
      rcases locate_spec hloc with hc | ⟨v', hc⟩
      · have hle := h.length_le
        have hne : d.length ≠ n := fun heq => h.full_iff.mpr heq c hc
        exact .inr (by omega)
      · exact .inl (List.mem_map_of_mem ((h.mem_iff _).mp ⟨c, hc⟩))
    rw [if_pos hroom]
    exact h.update hloc v

/-- What a run of stores represents. -/
theorem foldl_store (h : Represents hash t d) (ops : List (κ × ν)) :
    Represents hash (ops.foldl (fun t e => LinearProbing.store hash t e.1 e.2) t)
      (ops.foldl (fun d e => OrderedDict.setWithin n d e.1 e.2) d) := by
  induction ops generalizing t d with
  | nil => exact h
  | cons e ops ih => exact ih (h.store e.1 e.2)

end Represents

end LinearProbing
