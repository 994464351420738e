import Mathlib.Order.Lattice
import Nsr.Lib.OrderedDict
import Nsr.Lib.RingLog

/-!
# Summaries of groups in a ring

Samples arrive in groups: each has a key, and the keys never go back.  A ring keeps one summary for
each group, of the last `N` groups there were.  A sample is added to the summary of its group,
where the ring has one, and starts a new one where it has none.

* `Rollup`: the key of a sample, an empty summary, and how a sample is added to one.
* `groups`, `recent N`, `summary`: the keys in the order in which they came, the last `N` of them,
  and the summary of a whole history for one key.
* `record`: a sample into the ring.
* `entries_foldl_record`: after any history, the ring holds the summaries of the last `N` groups.
* `perm_flatMap_filter`: the samples of some groups, one group after the other.
-/

/-- **How samples are summed up**, group by group. -/
structure Rollup (σ κ γ : Type*) where
  key : σ → κ
  keyOf : γ → κ
  fresh : κ → γ
  add : γ → σ → γ
  keyOf_fresh : ∀ s, keyOf (fresh (key s)) = key s
  keyOf_add : ∀ b s, keyOf (add b s) = keyOf b

namespace Rollup

variable {σ κ γ : Type*} [LinearOrder κ] (R : Rollup σ κ γ)

/-- The keys of a history, in the order in which they came. -/
def groups (h : List σ) : List κ :=
  (h.map R.key).eraseDups

/-- The last `n` keys of a history. -/
def recent (n : ℕ) (h : List σ) : List κ :=
  (R.groups h).rtake n

/-- The summary of what a history has for a key. -/
def summary (h : List σ) (k : κ) : γ :=
  (h.filter fun s => R.key s = k).foldl R.add (R.fresh k)

/-- A sample into the ring. -/
def record {N : ℕ} [NeZero N] (r : RingLog γ N) (s : σ) : RingLog γ N :=
  match r.find fun b => R.keyOf b = R.key s with
  | some c => r.modify c fun b => R.add b s
  | none => (r.push (R.fresh (R.key s))).modify r.head fun b => R.add b s

/-! ## Groups -/

variable {R}

theorem mem_groups {h : List σ} {k : κ} : k ∈ R.groups h ↔ ∃ s ∈ h, R.key s = k := by
  rw [groups, List.mem_eraseDups, List.mem_map]

theorem groups_concat (h : List σ) (s : σ) :
    R.groups (h ++ [s]) = if R.key s ∈ R.groups h then R.groups h else R.groups h ++ [R.key s] := by
  rw [groups, groups, List.map_append, List.map_singleton, OrderedDict.eraseDups_concat]
  simp only [List.mem_eraseDups]

theorem nodup_groups (h : List σ) : (R.groups h).Nodup :=
  OrderedDict.nodup_eraseDups _

theorem recent_sublist (n : ℕ) (h : List σ) : (R.recent n h).Sublist (R.groups h) :=
  List.drop_sublist _ _

theorem nodup_recent (n : ℕ) (h : List σ) : (R.recent n h).Nodup :=
  (nodup_groups h).sublist (recent_sublist n h)

/-- The last sample of an ordered history belongs to its last group. -/
theorem groups_eq_concat {h : List σ} {s : σ}
    (hs : ((h ++ [s]).map R.key).Pairwise (· ≤ ·)) :
    ∃ gs, R.groups (h ++ [s]) = gs ++ [R.key s] := by
  induction h using List.reverseRecOn generalizing s with
  | nil => exact ⟨[], by rw [groups_concat]; rfl⟩
  | append_singleton h s' ih =>
    rw [groups_concat]
    split
    · next hmem =>
      rw [List.map_append, List.pairwise_append] at hs
      obtain ⟨gs, hgs⟩ := ih hs.1
      obtain ⟨a, ha, hkey⟩ := mem_groups.mp hmem
      -- the key has come before, and the one in between lies between the two
      have hle : R.key a ≤ R.key s' := by
        rcases List.mem_append.mp ha with ha | ha
        · rw [List.map_append, List.pairwise_append] at hs
          exact hs.1.2.2 _ (List.mem_map_of_mem ha) _ (List.mem_singleton.mpr rfl)
        · rw [List.mem_singleton.mp ha]
      have hge : R.key s' ≤ R.key s :=
        hs.2.2 _ (List.mem_map_of_mem (List.mem_append_right _ (List.mem_singleton.mpr rfl))) _
          (List.mem_singleton.mpr rfl)
      rw [hkey] at hle
      exact ⟨gs, by rw [hgs, le_antisymm hle hge]⟩
    · exact ⟨R.groups (h ++ [s']), rfl⟩

/-- The last group of an ordered history is among the last ones. -/
theorem key_mem_recent {n : ℕ} (hn : 0 < n) {h : List σ} {s : σ}
    (hs : ((h ++ [s]).map R.key).Pairwise (· ≤ ·)) : R.key s ∈ R.recent n (h ++ [s]) := by
  obtain ⟨gs, hgs⟩ := groups_eq_concat hs
  obtain ⟨n, rfl⟩ : ∃ m, n = m + 1 := ⟨n - 1, by omega⟩
  rw [recent, hgs, List.rtake_concat_succ]
  exact List.mem_append_right _ (List.mem_singleton.mpr rfl)

/-! ## Summaries -/

theorem summary_concat (h : List σ) (s : σ) (k : κ) :
    R.summary (h ++ [s]) k = if R.key s = k then R.add (R.summary h k) s else R.summary h k := by
  rw [summary, summary, List.filter_append, List.filter_singleton, List.foldl_append]
  split
  · next hk =>
    rw [decide_eq_true hk]
    rfl
  · next hk =>
    rw [decide_eq_false hk]
    rfl

theorem summary_of_not_mem {h : List σ} {k : κ} (hk : k ∉ R.groups h) :
    R.summary h k = R.fresh k := by
  have hnil : (h.filter fun s => decide (R.key s = k)) = [] := by
    refine List.filter_eq_nil_iff.mpr fun s hs hkey => hk ?_
    exact mem_groups.mpr ⟨s, hs, of_decide_eq_true hkey⟩
  rw [summary, hnil, List.foldl_nil]

omit [LinearOrder κ] in
theorem keyOf_foldl (l : List σ) (b : γ) : R.keyOf (l.foldl R.add b) = R.keyOf b := by
  induction l generalizing b with
  | nil => rfl
  | cons s l ih => rw [List.foldl_cons, ih, R.keyOf_add]

theorem keyOf_summary {h : List σ} {k : κ} (hk : k ∈ R.groups h) :
    R.keyOf (R.summary h k) = k := by
  obtain ⟨s, -, rfl⟩ := mem_groups.mp hk
  rw [summary, keyOf_foldl, R.keyOf_fresh]

theorem map_keyOf_summary (n : ℕ) (h : List σ) :
    ((R.recent n h).map (R.summary h)).map R.keyOf = R.recent n h := by
  rw [List.map_map]
  refine (List.map_congr_left fun k hk => ?_).trans (List.map_id _)
  exact keyOf_summary ((recent_sublist n h).subset hk)

/-! ## The ring -/

section Ring

variable {N : ℕ} [NeZero N]

/-- A sample of a group that the ring has. -/
theorem entries_record_of_mem {r : RingLog γ N} {s : σ}
    (hnodup : (r.entries.map R.keyOf).Nodup) (hs : R.key s ∈ r.entries.map R.keyOf) :
    (R.record r s).entries =
      r.entries.map fun b => if R.keyOf b = R.key s then R.add b s else b := by
  rw [record]
  split
  · next c hc =>
    obtain ⟨hslot, hkey⟩ := r.find_spec hc
    rw [r.entries_modify hnodup hslot, of_decide_eq_true hkey]
  · next hnone =>
    obtain ⟨b, hb, hkey⟩ := List.mem_map.mp hs
    exact absurd (decide_eq_true hkey) (Bool.eq_false_iff.mp (r.find_eq_none hnone b hb))

/-- A sample of a group that the ring does not have. -/
theorem entries_record_of_not_mem {r : RingLog γ N} {s : σ}
    (hs : R.key s ∉ r.entries.map R.keyOf) :
    (R.record r s).entries =
      (r.entries ++ [R.add (R.fresh (R.key s)) s]).rtake N := by
  rw [record]
  split
  · next c hc =>
    obtain ⟨hslot, hkey⟩ := r.find_spec hc
    refine absurd ?_ hs
    exact List.mem_map.mpr ⟨r.cells c, List.mem_map_of_mem hslot, of_decide_eq_true hkey⟩
  · rw [RingLog.modify_push, RingLog.entries_push]

/-- **What the ring holds.**  After a history whose keys never go back, the ring has the summaries
of the last `N` groups. -/
theorem entries_foldl_record (x : γ) {h : List σ} (hs : (h.map R.key).Pairwise (· ≤ ·)) :
    (h.foldl R.record (.empty x : RingLog γ N)).entries =
      (R.recent N h).map (R.summary h) := by
  induction h using List.reverseRecOn with
  | nil => simp [recent, groups]
  | append_singleton h s ih =>
    have hsh := hs
    rw [List.map_append, List.pairwise_append] at hs
    have hentries := ih hs.1
    rw [List.foldl_append, List.foldl_cons, List.foldl_nil]
    generalize h.foldl R.record (.empty x : RingLog γ N) = r at hentries
    have hkeys : r.entries.map R.keyOf = R.recent N h := by
      rw [hentries, map_keyOf_summary]
    by_cases hmem : R.key s ∈ R.groups h
    · have hrecent : R.recent N (h ++ [s]) = R.recent N h := by
        rw [recent, groups_concat, if_pos hmem, recent]
      have hlast := key_mem_recent (Nat.pos_of_neZero N) hsh
      rw [hrecent] at hlast ⊢
      rw [entries_record_of_mem (hkeys ▸ nodup_recent N h) (hkeys ▸ hlast), hentries,
        List.map_map]
      refine List.map_congr_left fun k hk => ?_
      rw [Function.comp_apply, keyOf_summary ((recent_sublist N h).subset hk), summary_concat]
      simp only [eq_comm]
    · have hnew : R.key s ∉ r.entries.map R.keyOf := by
        rw [hkeys]
        exact fun hk => hmem ((recent_sublist N h).subset hk)
      have hsum : R.summary (h ++ [s]) (R.key s) = R.add (R.fresh (R.key s)) s := by
        rw [summary_concat, if_pos rfl, summary_of_not_mem hmem]
      have hold : (R.recent N h).map (R.summary h) =
          (R.recent N h).map (R.summary (h ++ [s])) := by
        refine List.map_congr_left fun k hk => ?_
        rw [summary_concat, if_neg]
        rintro rfl
        exact hmem ((recent_sublist N h).subset hk)
      rw [entries_record_of_not_mem hnew, hentries, hold, ← hsum, ← List.map_singleton,
        ← List.map_append, ← RingLog.map_rtake, recent, recent, groups_concat, if_neg hmem,
        RingLog.rtake_append_singleton]

end Ring

/-! ## The samples of some groups -/

omit [LinearOrder κ] in
/-- **Group by group**: the samples with a key among `ks`, one key after the other. -/
theorem perm_flatMap_filter [DecidableEq κ] (key : σ → κ) (h : List σ) {ks : List κ}
    (hks : ks.Nodup) :
    (ks.flatMap fun k => h.filter fun s => key s = k).Perm
      (h.filter fun s => key s ∈ ks) := by
  induction ks with
  | nil => simp
  | cons k ks ih =>
    obtain ⟨hk, hks⟩ := List.nodup_cons.mp hks
    rw [List.flatMap_cons]
    have hsplit := List.filter_append_perm (fun s => decide (key s = k))
      (h.filter fun s => decide (key s ∈ k :: ks))
    rw [List.filter_filter, List.filter_filter] at hsplit
    refine List.Perm.trans ?_ hsplit
    refine List.Perm.append (.of_eq ?_) ((ih hks).trans (.of_eq ?_))
    · refine List.filter_congr fun s _ => ?_
      by_cases hs : key s = k
      · simp [hs]
      · simp [hs]
    · refine List.filter_congr fun s _ => ?_
      by_cases hs : key s = k
      · simp [hs, hk]
      · simp [hs]

end Rollup
