import Mathlib.Data.List.Induction
import Mathlib.Data.List.Nodup
import Mathlib.Data.List.Lookmap

/-!
# Dictionaries in the order of insertion

A dictionary is a list of entries with distinct keys.  Setting a key changes its entry where it
stands, or puts a new one at the end: the order is that in which the keys were first set.

* `set d k v`: the dictionary after `k` has been set to `v`.
* `lookup_set_self`, `lookup_set_of_ne`, `keys_set`, `nodup_set`: what setting a key does.
* `lookup_map`, `set_map`: looking up and setting commute with renaming keys and changing values.
* `foldl_set`: a dictionary is the result of setting its entries one after the other.
* `setWithin n`: setting in a dictionary that takes no more than `n` keys, and what a run of it
  leaves: `keys_foldl_setWithin` and `lookup_foldl_setWithin`.
-/

namespace OrderedDict

variable {κ κ' ν ν' : Type*} [DecidableEq κ] [DecidableEq κ']

/-- The dictionary after `k` has been set to `v`. -/
def set (d : List (κ × ν)) (k : κ) (v : ν) : List (κ × ν) :=
  if k ∈ d.map Prod.fst then d.map fun e => if e.1 = k then (k, v) else e else d ++ [(k, v)]

/-- The keys, in the order in which they were first set. -/
theorem keys_set (d : List (κ × ν)) (k : κ) (v : ν) :
    (set d k v).map Prod.fst =
      if k ∈ d.map Prod.fst then d.map Prod.fst else d.map Prod.fst ++ [k] := by
  rw [set]
  split
  · rw [List.map_map]
    refine List.map_congr_left fun e _ => ?_
    rw [Function.comp_apply]
    split
    · next he => exact he.symm
    · rfl
  · rw [List.map_append, List.map_singleton]

theorem nodup_set {d : List (κ × ν)} (h : (d.map Prod.fst).Nodup) (k : κ) (v : ν) :
    ((set d k v).map Prod.fst).Nodup := by
  rw [keys_set]
  split
  · exact h
  · next hk =>
    refine List.nodup_append.mpr ⟨h, List.nodup_singleton k, fun a ha b hb => ?_⟩
    rw [List.mem_singleton.mp hb]
    rintro rfl
    exact hk ha

theorem mem_keys_set {d : List (κ × ν)} {k k' : κ} {v : ν} :
    k' ∈ (set d k v).map Prod.fst ↔ k' = k ∨ k' ∈ d.map Prod.fst := by
  rw [keys_set]
  split
  · next hk =>
    constructor
    · exact .inr
    · rintro (rfl | hk')
      · exact hk
      · exact hk'
  · rw [List.mem_append, List.mem_singleton, or_comm]

section Lookup

variable [BEq κ] [LawfulBEq κ] [BEq κ'] [LawfulBEq κ']

omit [DecidableEq κ] in
theorem lookup_eq_none_iff {d : List (κ × ν)} {k : κ} :
    d.lookup k = none ↔ k ∉ d.map Prod.fst := by
  rw [List.lookup_eq_none_iff]
  constructor
  · intro h hmem
    obtain ⟨e, he, rfl⟩ := List.mem_map.mp hmem
    exact absurd (h e he) (by simp)
  · intro h e he
    rw [bne_iff_ne]
    rintro rfl
    exact h (List.mem_map_of_mem he)

theorem lookup_map_replace {d : List (κ × ν)} {k k' : κ} {v : ν} :
    (d.map fun e => if e.1 = k then (k, v) else e).lookup k' =
      if k' = k ∧ k ∈ d.map Prod.fst then some v else d.lookup k' := by
  induction d with
  | nil => simp
  | cons e d ih =>
    obtain ⟨a, w⟩ := e
    by_cases hak : a = k
    · subst hak
      by_cases hk' : k' = a
      · subst hk'
        simp
      · simp [List.lookup_cons, beq_eq_false_iff_ne.mpr hk', ih, hk']
    · by_cases hk' : k' = a
      · subst hk'
        simp [hak]
      · simp only [List.map_cons, if_neg hak, List.lookup_cons, beq_eq_false_iff_ne.mpr hk', ih,
          List.mem_cons, Ne.symm hak, false_or]

theorem lookup_set_self (d : List (κ × ν)) (k : κ) (v : ν) : (set d k v).lookup k = some v := by
  rw [set]
  split
  · next hk => rw [lookup_map_replace, if_pos ⟨rfl, hk⟩]
  · next hk => rw [List.lookup_append, lookup_eq_none_iff.mpr hk, List.lookup_cons_self]; rfl

theorem lookup_set_of_ne {d : List (κ × ν)} {k k' : κ} (h : k' ≠ k) (v : ν) :
    (set d k v).lookup k' = d.lookup k' := by
  rw [set]
  split
  · rw [lookup_map_replace, if_neg fun hk => h hk.1]
  · rw [List.lookup_append, List.lookup_cons, beq_eq_false_iff_ne.mpr h]
    simp

omit [DecidableEq κ] in
theorem lookup_of_mem {d : List (κ × ν)} (h : (d.map Prod.fst).Nodup) {e : κ × ν} (he : e ∈ d) :
    d.lookup e.1 = some e.2 := by
  induction d with
  | nil => exact absurd he List.not_mem_nil
  | cons a d ih =>
    rw [List.map_cons, List.nodup_cons] at h
    rcases List.mem_cons.mp he with rfl | hmem
    · exact List.lookup_cons_self
    · have hne : e.1 ≠ a.1 := fun heq => h.1 (heq ▸ List.mem_map_of_mem hmem)
      obtain ⟨k, v⟩ := a
      rw [List.lookup_cons, beq_eq_false_iff_ne.mpr hne]
      exact ih h.2 hmem

omit [DecidableEq κ] [DecidableEq κ'] in
theorem lookup_map {f : κ → κ'} (hf : Function.Injective f) (g : ν → ν') (d : List (κ × ν))
    (k : κ) : (d.map (Prod.map f g)).lookup (f k) = (d.lookup k).map g := by
  induction d with
  | nil => rfl
  | cons e d ih =>
    obtain ⟨a, v⟩ := e
    rw [List.map_cons, Prod.map_apply, List.lookup_cons, List.lookup_cons]
    by_cases hk : k = a
    · subst hk
      simp
    · rw [beq_eq_false_iff_ne.mpr hk, beq_eq_false_iff_ne.mpr (hf.ne hk)]
      exact ih

end Lookup

/-- **Renaming keys and changing values.** -/
theorem set_map {f : κ → κ'} (hf : Function.Injective f) (g : ν → ν') (d : List (κ × ν)) (k : κ)
    (v : ν) : (set d k v).map (Prod.map f g) = set (d.map (Prod.map f g)) (f k) (g v) := by
  have hmem : f k ∈ (d.map (Prod.map f g)).map Prod.fst ↔ k ∈ d.map Prod.fst := by
    rw [List.map_map, show Prod.fst ∘ Prod.map f g = f ∘ (Prod.fst : κ × ν → κ) from rfl,
      ← List.map_map, List.mem_map_of_injective hf]
  rw [set, set]
  by_cases hk : k ∈ d.map Prod.fst
  · rw [if_pos hk, if_pos (hmem.mpr hk), List.map_map, List.map_map]
    refine List.map_congr_left fun e _ => ?_
    simp only [Function.comp_apply, Prod.map_fst, hf.eq_iff]
    split
    · rfl
    · rfl
  · rw [if_neg hk, if_neg (mt hmem.mp hk), List.map_append, List.map_singleton, Prod.map_apply]

/-- **A dictionary is built by setting its entries.** -/
theorem foldl_set {d l : List (κ × ν)} (h : ((d ++ l).map Prod.fst).Nodup) :
    l.foldl (fun d e => set d e.1 e.2) d = d ++ l := by
  induction l generalizing d with
  | nil => rw [List.foldl_nil, List.append_nil]
  | cons e l ih =>
    have hnew : e.1 ∉ d.map Prod.fst := by
      rw [List.map_append, List.map_cons, List.nodup_append] at h
      exact fun hmem => h.2.2 e.1 hmem e.1 List.mem_cons_self rfl
    have hset : set d e.1 e.2 = d ++ [e] := by rw [set, if_neg hnew]
    rw [List.foldl_cons, hset, ih]
    · rw [List.append_assoc, List.singleton_append]
    · rw [List.append_assoc, List.singleton_append]
      exact h

theorem mem_set {d : List (κ × ν)} {k : κ} {v : ν} {e : κ × ν} :
    e ∈ set d k v ↔ e = (k, v) ∨ e ∈ d ∧ e.1 ≠ k := by
  rw [set]
  split
  · next hk =>
    rw [List.mem_map]
    constructor
    · rintro ⟨a, ha, rfl⟩
      split
      · exact .inl rfl
      · next hne => exact .inr ⟨ha, hne⟩
    · rintro (rfl | ⟨he, hne⟩)
      · obtain ⟨a, ha, rfl⟩ := List.mem_map.mp hk
        exact ⟨a, ha, if_pos rfl⟩
      · exact ⟨e, he, if_neg hne⟩
  · next hk =>
    rw [List.mem_append, List.mem_singleton, or_comm]
    refine or_congr_right ⟨fun he => ⟨he, ?_⟩, And.left⟩
    rintro rfl
    exact hk (List.mem_map_of_mem he)

/-! ## Dictionaries of bounded size -/

/-- The dictionary after `k` has been set to `v`, when it takes no more than `n` keys. -/
def setWithin (n : ℕ) (d : List (κ × ν)) (k : κ) (v : ν) : List (κ × ν) :=
  if k ∈ d.map Prod.fst ∨ d.length < n then set d k v else d

section Run

variable [BEq κ] [LawfulBEq κ]

omit [DecidableEq κ] in
/-- The first occurrences in a list that has got one more element. -/
theorem eraseDups_concat [DecidableEq κ] (l : List κ) (a : κ) :
    (l ++ [a]).eraseDups = if a ∈ l then l.eraseDups else l.eraseDups ++ [a] := by
  rw [List.eraseDups_append, List.removeAll, List.filter_singleton]
  by_cases h : a ∈ l
  · simp [h]
  · simp [h, List.eraseDups_cons]

omit [DecidableEq κ] in
theorem nodup_eraseDups [DecidableEq κ] (l : List κ) : l.eraseDups.Nodup := by
  induction l using List.reverseRecOn with
  | nil => exact List.nodup_nil
  | append_singleton l a ih =>
    rw [eraseDups_concat]
    split
    · exact ih
    · next ha =>
      rw [← List.concat_eq_append]
      exact List.Nodup.concat (mt List.mem_eraseDups.mp ha) ih

/-- **The keys of a run** are the first ones that have been set. -/
theorem keys_foldl_setWithin (n : ℕ) (ops : List (κ × ν)) :
    (ops.foldl (fun d e => setWithin n d e.1 e.2) []).map Prod.fst =
      (ops.map Prod.fst).eraseDups.take n := by
  induction ops using List.reverseRecOn with
  | nil => simp
  | append_singleton ops e ih =>
    rw [List.foldl_append, List.foldl_cons, List.foldl_nil, List.map_append, List.map_singleton,
      eraseDups_concat]
    have hlen := congrArg List.length ih
    rw [List.length_map, List.length_take] at hlen
    rw [setWithin]
    rcases Nat.lt_or_ge (ops.map Prod.fst).eraseDups.length n with hlt | hge
    · -- there is room: every key goes in
      rw [List.take_of_length_le (Nat.le_of_lt hlt)] at ih
      rw [if_pos (.inr (by omega)), keys_set, ih]
      simp only [List.mem_eraseDups]
      split
      · rw [List.take_of_length_le (Nat.le_of_lt hlt)]
      · rw [List.take_of_length_le (by rw [List.length_append, List.length_singleton]; omega)]
    · -- the dictionary is full: its keys stay as they are
      have hkeep : (if e.1 ∈ ops.map Prod.fst then (ops.map Prod.fst).eraseDups
          else (ops.map Prod.fst).eraseDups ++ [e.1]).take n =
          (ops.map Prod.fst).eraseDups.take n := by
        split
        · rfl
        · exact List.take_append_of_le_length hge
      rw [hkeep]
      split
      · next h =>
        rw [keys_set, if_pos (h.resolve_right (by omega)), ih]
      · exact ih

/-- **What a run leaves under a key**: the last value that it has been set to, if the key is one of
those that have found room. -/
theorem lookup_foldl_setWithin (n : ℕ) (ops : List (κ × ν)) (k : κ) :
    (ops.foldl (fun d e => setWithin n d e.1 e.2) []).lookup k =
      if k ∈ (ops.map Prod.fst).eraseDups.take n
      then (ops.filter fun e => e.1 == k).getLast?.map Prod.snd else none := by
  induction ops using List.reverseRecOn with
  | nil => simp
  | append_singleton ops e ih =>
    have hkeys := keys_foldl_setWithin n (ops ++ [e])
    have hkeys' := keys_foldl_setWithin n ops
    rw [← hkeys, List.foldl_append, List.foldl_cons, List.foldl_nil, List.filter_append]
    rw [← hkeys'] at ih
    generalize ops.foldl (fun d e => setWithin n d e.1 e.2) [] = d at ih ⊢
    rw [setWithin]
    split
    · by_cases hk : k = e.1
      · subst hk
        rw [lookup_set_self, if_pos (mem_keys_set.mpr (.inl rfl))]
        simp
      · rw [lookup_set_of_ne hk, ih]
        simp only [mem_keys_set, hk, false_or]
        simp [Ne.symm hk]
    · next h =>
      by_cases hk : k = e.1
      · subst hk
        rw [if_neg fun hmem => h (.inl hmem), lookup_eq_none_iff]
        exact fun hmem => h (.inl hmem)
      · rw [ih]
        simp [Ne.symm hk]

end Run

end OrderedDict
