import Nsr.Lib.OrderedDict
import Mathlib.Tactic.Common

/-!
# Rosters with a bounded memory

A list is gone through and an entry is taken unless its key is remembered.  Only the first `n` keys
are remembered, those of entries taken before the list included.

* `fresh`: the entries that are taken.
* `mem_keys_fresh`: no key is lost.
* `fresh_distinct`: a key that is remembered is not taken again.
* `filter_fresh`: of a key that is remembered the first entry is taken, of another one all.
-/

namespace Roster

variable {α κ : Type*} [DecidableEq κ] (key : α → κ) (n : ℕ)

/-- **The entries of a list that are taken** when the keys `seen` were taken before. -/
def fresh (seen : List κ) : List α → List α
  | [] => []
  | a :: as => if key a ∈ seen.take n then fresh seen as else a :: fresh (seen ++ [key a]) as

variable {key n}

@[simp] theorem fresh_nil (seen : List κ) : fresh key n seen ([] : List α) = [] := rfl

theorem fresh_cons_of_mem {seen : List κ} {a : α} (h : key a ∈ seen.take n) (as : List α) :
    fresh key n seen (a :: as) = fresh key n seen as :=
  if_pos h

theorem fresh_cons_of_notMem {seen : List κ} {a : α} (h : key a ∉ seen.take n) (as : List α) :
    fresh key n seen (a :: as) = a :: fresh key n (seen ++ [key a]) as :=
  if_neg h

theorem fresh_subset (seen : List κ) (as : List α) : fresh key n seen as ⊆ as := by
  induction as generalizing seen with
  | nil => exact List.Subset.refl _
  | cons a as ih =>
    rw [fresh]
    split
    · exact List.subset_cons_of_subset a (ih seen)
    · exact List.cons_subset_cons a (ih _)

/-- **No key is lost.** -/
theorem mem_keys_fresh (seen : List κ) (as : List α) (k : κ) :
    k ∈ seen ++ (fresh key n seen as).map key ↔ k ∈ seen ∨ k ∈ as.map key := by
  induction as generalizing seen with
  | nil => simp
  | cons a as ih =>
    rw [fresh]
    split
    · next h =>
      have hmem : key a ∈ seen := List.mem_of_mem_take h
      rw [ih, List.map_cons, List.mem_cons]
      constructor
      · rintro (h | h)
        · exact .inl h
        · exact .inr (.inr h)
      · rintro (h | rfl | h)
        · exact .inl h
        · exact .inl hmem
        · exact .inr h
    · have happ := ih (seen ++ [key a])
      rw [List.append_assoc, List.singleton_append] at happ
      rw [List.map_cons, happ, List.map_cons, List.mem_append, List.mem_singleton, List.mem_cons,
        or_assoc]

/-- **A key that is remembered is not taken again**: the key at a place behind those seen before
differs from the first `n` keys in front of it. -/
theorem fresh_distinct (seen : List κ) (as : List α) {i j : ℕ} (hij : i < j) (hi : i < n)
    (hj : seen.length ≤ j) {k : κ}
    (h : (seen ++ (fresh key n seen as).map key)[j]? = some k) :
    (seen ++ (fresh key n seen as).map key)[i]? ≠ some k := by
  induction as generalizing seen with
  | nil =>
    rw [fresh_nil, List.map_nil, List.append_nil, List.getElem?_eq_none hj] at h
    cases h
  | cons a as ih =>
    by_cases hmem : key a ∈ seen.take n
    · rw [fresh_cons_of_mem hmem] at h ⊢
      exact ih seen hj h
    · rw [fresh_cons_of_notMem hmem, List.map_cons, ← List.singleton_append,
        ← List.append_assoc] at h ⊢
      rcases Nat.lt_or_ge j (seen ++ [key a]).length with hlt | hge
      -- the entry itself
      · have hlen : (seen ++ [key a]).length = seen.length + 1 := by simp
        obtain rfl : j = seen.length := by omega
        rw [List.getElem?_append_left hlt, List.getElem?_append_right (Nat.le_refl _),
          Nat.sub_self] at h
        obtain rfl : key a = k := by simpa using h
        rw [List.getElem?_append_left (by omega), List.getElem?_append_left hij]
        intro hik
        refine hmem (List.mem_of_getElem? (i := i) ?_)
        rw [List.getElem?_take_of_lt hi, hik]
      · exact ih (seen ++ [key a]) hge h

/-! ## What is taken of a key -/

/-- A list that is gone through in two parts. -/
theorem fresh_append (seen : List κ) (as bs : List α) :
    fresh key n seen (as ++ bs) =
      fresh key n seen as ++ fresh key n (seen ++ (fresh key n seen as).map key) bs := by
  induction as generalizing seen with
  | nil => simp
  | cons a as ih =>
    by_cases hmem : key a ∈ seen.take n
    · rw [List.cons_append, fresh_cons_of_mem hmem, fresh_cons_of_mem hmem, ih]
    · rw [List.cons_append, fresh_cons_of_notMem hmem, fresh_cons_of_notMem hmem, ih,
        List.map_cons, List.append_assoc, List.singleton_append, List.cons_append]

/-- One more entry. -/
theorem fresh_concat (as : List α) (a : α) :
    fresh key n [] (as ++ [a]) =
      if key a ∈ ((fresh key n [] as).map key).take n then fresh key n [] as
      else fresh key n [] as ++ [a] := by
  rw [fresh_append, List.nil_append]
  split
  · next h => rw [fresh_cons_of_mem h, fresh_nil, List.append_nil]
  · next h => rw [fresh_cons_of_notMem h, fresh_nil]

variable [BEq κ] [LawfulBEq κ]

/-- **The keys that are remembered** are the first `n` different ones. -/
theorem take_keys_fresh (as : List α) :
    ((fresh key n [] as).map key).take n = (as.map key).eraseDups.take n := by
  induction as using List.reverseRecOn with
  | nil => simp
  | append_singleton as a ih =>
    rw [fresh_concat, List.map_append, List.map_singleton, OrderedDict.eraseDups_concat]
    have hlen := congrArg List.length ih
    rw [List.length_take, List.length_take] at hlen
    by_cases hmem : key a ∈ ((fresh key n [] as).map key).take n
    · have hold : key a ∈ as.map key := List.mem_eraseDups.mp (List.mem_of_mem_take (ih ▸ hmem))
      rw [if_pos hmem, if_pos hold, ih]
    · rw [if_neg hmem, List.map_append, List.map_singleton]
      rcases Nat.lt_or_ge ((fresh key n [] as).map key).length n with hlt | hge
      -- there is room: the key is new
      · rw [List.take_of_length_le (by omega), List.take_of_length_le (by omega)] at ih
        rw [List.take_of_length_le (by omega)] at hmem
        have hnew : key a ∉ as.map key := fun h => hmem (ih ▸ List.mem_eraseDups.mpr h)
        rw [if_neg hnew, ih]
      · rw [List.take_append_of_le_length hge, ih]
        split
        · rfl
        · rw [List.take_append_of_le_length (by omega)]

/-- **What is taken of a key**: the first entry, if the key is one of those that are remembered;
otherwise every entry. -/
theorem filter_fresh (as : List α) (k : κ) :
    (fresh key n [] as).filter (fun a => key a == k) =
      if k ∈ (as.map key).eraseDups.take n then (as.filter fun a => key a == k).take 1
      else as.filter fun a => key a == k := by
  induction as using List.reverseRecOn with
  | nil => simp
  | append_singleton as a ih =>
    rw [← take_keys_fresh] at ih ⊢
    rw [fresh_concat, List.filter_append]
    by_cases hmem : key a ∈ ((fresh key n [] as).map key).take n
    · rw [if_pos hmem, ih]
      split
      · next hk =>
        -- the key has an entry already
        have hne : (as.filter fun a => key a == k) ≠ [] := by
          rw [take_keys_fresh] at hk
          obtain ⟨b, hb, rfl⟩ := List.mem_map.mp (List.mem_eraseDups.mp (List.mem_of_mem_take hk))
          exact List.ne_nil_of_mem (List.mem_filter.mpr ⟨hb, beq_self_eq_true _⟩)
        rw [List.take_append_of_le_length (List.length_pos_iff.mpr hne)]
      · next hk =>
        have hka : key a ≠ k := by
          rintro rfl
          exact hk hmem
        simp [hka]
    · rw [if_neg hmem, List.filter_append, ih, List.map_append, List.map_singleton]
      by_cases hka : key a = k
      · subst hka
        have hself : [a].filter (fun b => key b == key a) = [a] := by simp
        rw [if_neg hmem, hself]
        rcases Nat.lt_or_ge ((fresh key n [] as).map key).length n with hlt | hge
        -- the first entry with the key
        · have hkeys : ((fresh key n [] as).map key).take n = (as.map key).eraseDups.take n :=
            take_keys_fresh as
          have hlen := congrArg List.length hkeys
          rw [List.length_take, List.length_take] at hlen
          rw [List.take_of_length_le (by omega)] at hmem
          rw [List.take_of_length_le (by omega), List.take_of_length_le (by omega)] at hkeys
          have hnone : (as.filter fun b => key b == key a) = [] := by
            refine List.filter_eq_nil_iff.mpr fun b hb hbeq => hmem ?_
            rw [hkeys, ← beq_iff_eq.mp hbeq]
            exact List.mem_eraseDups.mpr (List.mem_map_of_mem hb)
          rw [hnone, List.nil_append]
          split
          · rfl
          · rfl
        · rw [List.take_append_of_le_length hge, if_neg hmem]
      · have hother : [a].filter (fun b => key b == k) = [] := by simp [hka]
        rw [hother, List.append_nil, List.append_nil]
        have hiff : k ∈ ((fresh key n [] as).map key ++ [key a]).take n ↔
            k ∈ ((fresh key n [] as).map key).take n := by
          rw [List.take_append]
          refine ⟨fun h => ?_, List.mem_append_left _⟩
          rcases List.mem_append.mp h with h | h
          · exact h
          · exact absurd (List.mem_singleton.mp (List.mem_of_mem_take h)).symm hka
        simp only [hiff]

end Roster
