import Nsr.Lib.Rollup
import Nsr.Percentile.Store
import Mathlib.Algebra.Group.Action.Defs
import Mathlib.Algebra.Order.BigOperators.Group.List
import Mathlib.Data.List.Perm.Basic

/-!
# The windows over the minutes

What the ring of minutes in `plugins/percentile/percentile.c` holds after a history of samples, and
what `compute_window_stats` makes of it.

* `minuteRollup`: samples are summed up by minutes.
* `bucketsAfter_entries`: the ring holds the summaries of the last sixty minutes that have any
  samples.
* `computeWindowStats_eq`: the statistics of a window, over summaries.
* `computeWindowStats_exact`: the statistics of a window, over samples.
-/

namespace Nsr

/-- A call of `bucket_add`. -/
structure RttSample where
  tsMs : UInt64
  rttUs : UInt64
  deriving DecidableEq

/-- The start of the minute of a sample, in milliseconds. -/
def RttSample.minuteStart (s : RttSample) : ℕ :=
  s.tsMs.toNat / 60000 * 60000

/-- The last `n` minutes with samples, the latest last. -/
def recentMinutes (n : ℕ) (h : List RttSample) : List ℕ :=
  (h.map RttSample.minuteStart).eraseDups.rtake n

/-- The round trip times of the samples of the last `n` minutes with samples. -/
def windowRtts (n : ℕ) (h : List RttSample) : List UInt64 :=
  (h.filter fun s => s.minuteStart ∈ recentMinutes n h).map RttSample.rttUs

/-- **The ring of minutes after a history of samples.** -/
def bucketsAfter (h : List RttSample) : PctlBuckets :=
  h.foldl (fun buckets s => bucketAdd buckets s.tsMs s.rttUs) Percentile.init.buckets

/-! ## The ring -/

theorem toNat_bucketStartMs (s : RttSample) :
    (bucketStartMs s.tsMs).toNat = s.minuteStart := by
  have hlt := s.tsMs.toNat_lt
  have hle := Nat.div_mul_le_self s.tsMs.toNat 60000
  rw [bucketStartMs, UInt64.toNat_mul, UInt64.toNat_div, RttSample.minuteStart]
  exact Nat.mod_eq_of_lt (Nat.lt_of_le_of_lt hle hlt)

/-- Samples are summed up by minutes. -/
def minuteRollup : Rollup RttSample ℕ PctlBucket where
  key := RttSample.minuteStart
  keyOf b := b.startMs.toNat
  fresh k := .fresh (UInt64.ofNat k)
  add b s := b.add s.rttUs
  keyOf_fresh s := by
    change (UInt64.ofNat s.minuteStart).toNat = s.minuteStart
    rw [← toNat_bucketStartMs, UInt64.ofNat_toNat]
  keyOf_add _ _ := rfl

/-- **`bucket_add` records a sample.** -/
theorem bucketAdd_eq_record (buckets : PctlBuckets) (s : RttSample) :
    bucketAdd buckets s.tsMs s.rttUs = minuteRollup.record buckets s := by
  have hfind : (fun b : PctlBucket => b.startMs == bucketStartMs s.tsMs) =
      fun b => decide (minuteRollup.keyOf b = minuteRollup.key s) := by
    funext b
    change (b.startMs == bucketStartMs s.tsMs) = decide (b.startMs.toNat = s.minuteStart)
    rw [← toNat_bucketStartMs, Bool.eq_iff_iff, beq_iff_eq, decide_eq_true_iff,
      UInt64.toNat_inj]
  have hfresh : PctlBucket.fresh (bucketStartMs s.tsMs) =
      minuteRollup.fresh (minuteRollup.key s) := by
    change _ = PctlBucket.fresh (UInt64.ofNat s.minuteStart)
    rw [← toNat_bucketStartMs, UInt64.ofNat_toNat]
  rw [bucketAdd, getCurrentBucket, Rollup.record, hfind, hfresh]
  cases buckets.find fun b => decide (minuteRollup.keyOf b = minuteRollup.key s) with
  | none => rfl
  | some c => rfl

/-- Samples in order of time are in order of their minutes. -/
theorem pairwise_minuteStart {h : List RttSample}
    (hts : (h.map RttSample.tsMs).Pairwise (· ≤ ·)) :
    (h.map minuteRollup.key).Pairwise (· ≤ ·) := by
  rw [List.pairwise_map] at hts ⊢
  refine hts.imp fun {s s'} hle => ?_
  exact Nat.mul_le_mul_right _ (Nat.div_le_div_right (UInt64.le_iff_toNat_le.mp hle))

/-- **What the ring holds**: the summaries of the last sixty minutes with samples. -/
theorem bucketsAfter_entries {h : List RttSample}
    (hts : (h.map RttSample.tsMs).Pairwise (· ≤ ·)) :
    (bucketsAfter h).entries = (recentMinutes pctlBucketMax h).map (minuteRollup.summary h) := by
  have hrecord : (fun (buckets : PctlBuckets) (s : RttSample) =>
      bucketAdd buckets s.tsMs s.rttUs) = minuteRollup.record := by
    funext buckets s
    exact bucketAdd_eq_record buckets s
  rw [bucketsAfter, hrecord]
  exact Rollup.entries_foldl_record _ (pairwise_minuteStart hts)

theorem rtake_min_length {α : Type*} (l : List α) (n : ℕ) :
    l.rtake (min n l.length) = l.rtake n := by
  rw [List.rtake, List.rtake]
  congr 1
  omega

theorem rtake_rtake {α : Type*} (l : List α) {m n : ℕ} (h : m ≤ n) :
    (l.rtake n).rtake m = l.rtake m := by
  rw [List.rtake, List.rtake, List.rtake, List.length_drop, List.drop_drop]
  congr 1
  omega

/-- The totals over the last `n` minutes with samples. -/
def windowTotals (n : ℕ) (h : List RttSample) : PctlTotals :=
  ((recentMinutes n h).map (minuteRollup.summary h)).foldl PctlTotals.addBucket .zero

/-- **The statistics of a window**, from the summaries of its minutes. -/
theorem computeWindowStats_eq {h : List RttSample}
    (hts : (h.map RttSample.tsMs).Pairwise (· ≤ ·)) {n : ℕ} (hn : 1 ≤ n) (hn60 : n ≤ 60) :
    computeWindowStats (bucketsAfter h) n = (windowTotals n h).stats := by
  have hentries := bucketsAfter_entries hts
  have hcount := (bucketsAfter h).length_entries
  have hwindow : (bucketsAfter h).entries.rtake n =
      (recentMinutes n h).map (minuteRollup.summary h) := by
    rw [hentries, ← RingLog.map_rtake, recentMinutes, rtake_rtake _ hn60, recentMinutes]
  have hmin : (if n < (bucketsAfter h).count then n else (bucketsAfter h).count) =
      min n (bucketsAfter h).entries.length := by
    rw [hcount]
    split
    · omega
    · omega
  rw [computeWindowStats, windowTotals]
  split
  · next hzero =>
    have hnil : (bucketsAfter h).entries = [] :=
      List.eq_nil_of_length_eq_zero (by omega)
    rw [← hwindow, hnil, List.rtake_nil]
    rfl
  · dsimp only
    rw [hmin, RingLog.newest_eq_rtake _ (by rw [hcount]; omega), rtake_min_length, hwindow]

/-! ## Totals over samples -/

/-- A bucket into the totals, whether or not it has samples. -/
def PctlTotals.merge (t : PctlTotals) (b : PctlBucket) : PctlTotals where
  minUs := if b.minUs < t.minUs then b.minUs else t.minUs
  maxUs := if b.maxUs > t.maxUs then b.maxUs else t.maxUs
  sumUs := t.sumUs + b.sumUs
  count := t.count + b.count.toUInt64

theorem not_uint64Max_lt (x : UInt64) : ¬uint64Max < x := by
  rw [uint64Max]
  grind

/-- A minute without samples changes nothing. -/
theorem PctlTotals.merge_fresh (t : PctlTotals) (startMs : UInt64) :
    t.merge (.fresh startMs) = t := by
  rw [merge, PctlBucket.fresh]
  dsimp only
  rw [if_neg (not_uint64Max_lt _), if_neg (by grind), UInt64.add_zero]
  exact congrArg _ (UInt64.add_zero _)

/-- A sample into a bucket is a sample into the totals with the bucket. -/
theorem PctlTotals.merge_add (t : PctlTotals) {b : PctlBucket} (rttUs : UInt64)
    (hcount : b.count.toNat + 1 < 2 ^ 32) : t.merge (b.add rttUs) = (t.merge b).addRtt rttUs := by
  have hadd : (b.count + 1).toUInt64 = b.count.toUInt64 + 1 := by
    apply UInt64.toNat_inj.mp
    rw [UInt32.toNat_toUInt64, UInt32.toNat_add, UInt64.toNat_add, UInt32.toNat_toUInt64]
    change (b.count.toNat + 1) % 2 ^ 32 = (b.count.toNat + 1) % 2 ^ 64
    omega
  simp only [merge, addRtt, PctlBucket.add, hadd, mk.injEq]
  refine ⟨?_, ?_, ?_, ?_⟩
  · grind
  · grind
  · rw [UInt64.add_assoc]
  · rw [UInt64.add_assoc]

theorem toNat_count_add {b : PctlBucket} (rttUs : UInt64) (hcount : b.count.toNat + 1 < 2 ^ 32) :
    (b.add rttUs).count.toNat = b.count.toNat + 1 :=
  Nat.mod_eq_of_lt hcount

/-- Samples into a bucket are samples into the totals. -/
theorem PctlTotals.merge_foldl (t : PctlTotals) (l : List RttSample) {b : PctlBucket}
    (hcount : b.count.toNat + l.length < 2 ^ 32) :
    t.merge (l.foldl minuteRollup.add b) =
      (l.map RttSample.rttUs).foldl PctlTotals.addRtt (t.merge b) := by
  induction l generalizing b with
  | nil => rfl
  | cons s l ih =>
    rw [List.length_cons] at hcount
    have hone : b.count.toNat + 1 < 2 ^ 32 := by omega
    rw [List.foldl_cons, List.map_cons, List.foldl_cons, ← t.merge_add s.rttUs hone]
    refine ih ?_
    change (b.add s.rttUs).count.toNat + l.length < 2 ^ 32
    rw [toNat_count_add s.rttUs hone]
    omega

/-- The samples of a minute. -/
def ofMinute (h : List RttSample) (k : ℕ) : List RttSample :=
  h.filter fun s => s.minuteStart = k

theorem summary_eq (h : List RttSample) (k : ℕ) :
    minuteRollup.summary h k = (ofMinute h k).foldl minuteRollup.add (minuteRollup.fresh k) :=
  rfl

/-- The counter of a minute, which wraps. -/
theorem count_summary (h : List RttSample) (k : ℕ) :
    (minuteRollup.summary h k).count.toNat = (ofMinute h k).length % 2 ^ 32 := by
  have hfold (l : List RttSample) (b : PctlBucket) :
      (l.foldl minuteRollup.add b).count.toNat = (b.count.toNat + l.length) % 2 ^ 32 := by
    induction l generalizing b with
    | nil => exact (Nat.mod_eq_of_lt b.count.toNat_lt).symm
    | cons s l ih =>
      rw [List.foldl_cons, ih, List.length_cons]
      change ((b.count.toNat + 1) % 2 ^ 32 + l.length) % 2 ^ 32 = _
      rw [Nat.mod_add_mod, Nat.add_assoc, Nat.add_comm 1]
  rw [summary_eq, hfold]
  exact congrArg (· % 2 ^ 32) (Nat.zero_add _)

/-- **A minute into the totals** is its samples into the totals. -/
theorem PctlTotals.addBucket_summary (t : PctlTotals) {h : List RttSample} {k : ℕ}
    (hcount : (ofMinute h k).length < 2 ^ 32) :
    t.addBucket (minuteRollup.summary h k) =
      ((ofMinute h k).map RttSample.rttUs).foldl PctlTotals.addRtt t := by
  have hmerge : t.merge (minuteRollup.summary h k) =
      ((ofMinute h k).map RttSample.rttUs).foldl PctlTotals.addRtt t := by
    rw [summary_eq, t.merge_foldl _ (by rwa [show (minuteRollup.fresh k).count.toNat = 0 from rfl,
      Nat.zero_add])]
    exact congrArg (List.foldl _ · _) (t.merge_fresh _)
  rw [addBucket]
  split
  · next hzero =>
    have hlen := count_summary h k
    rw [hzero, Nat.mod_eq_of_lt hcount] at hlen
    rw [List.eq_nil_of_length_eq_zero hlen.symm]
    rfl
  · exact hmerge

instance : RightCommutative PctlTotals.addRtt where
  right_comm t x y := by
    simp only [PctlTotals.addRtt, PctlTotals.mk.injEq, and_true]
    refine ⟨?_, ?_, ?_⟩
    · grind
    · grind
    · grind

/-- The samples of the last `n` minutes, one minute after the other. -/
theorem perm_ofMinute (n : ℕ) (h : List RttSample) :
    ((recentMinutes n h).flatMap (ofMinute h)).Perm
      (h.filter fun s => s.minuteStart ∈ recentMinutes n h) :=
  Rollup.perm_flatMap_filter RttSample.minuteStart h
    (Rollup.nodup_recent (R := minuteRollup) n h)

/-- **The totals of a window**: its minutes are added up as its samples would be. -/
theorem windowTotals_eq {h : List RttSample} (n : ℕ)
    (hcount : ∀ k, (ofMinute h k).length < 2 ^ 32) :
    windowTotals n h = (windowRtts n h).foldl PctlTotals.addRtt .zero := by
  rw [windowTotals, windowRtts]
  refine Eq.trans ?_ (((perm_ofMinute n h).map RttSample.rttUs).foldl_eq PctlTotals.zero)
  rw [List.map_flatMap, List.foldl_flatMap, List.foldl_map]
  exact List.foldl_ext _ _ _ fun t k _ => t.addBucket_summary (hcount k)

/-! ## What the totals are -/

section Closed

variable {l : List UInt64}

theorem minUs_foldl (l : List UInt64) (t : PctlTotals) :
    (l.foldl PctlTotals.addRtt t).minUs = l.foldl min t.minUs := by
  induction l generalizing t with
  | nil => rfl
  | cons x l ih =>
    have hmin : (t.addRtt x).minUs = min t.minUs x := by
      rw [show min t.minUs x = if t.minUs ≤ x then t.minUs else x from rfl, PctlTotals.addRtt]
      grind
    rw [List.foldl_cons, ih, hmin, List.foldl_cons]

theorem maxUs_foldl (l : List UInt64) (t : PctlTotals) :
    (l.foldl PctlTotals.addRtt t).maxUs = l.foldl max t.maxUs := by
  induction l generalizing t with
  | nil => rfl
  | cons x l ih =>
    have hmax : (t.addRtt x).maxUs = max t.maxUs x := by
      rw [show max t.maxUs x = if t.maxUs ≤ x then x else t.maxUs from rfl, PctlTotals.addRtt]
      grind
    rw [List.foldl_cons, ih, hmax, List.foldl_cons]

theorem sumUs_foldl (l : List UInt64) (t : PctlTotals) :
    (l.foldl PctlTotals.addRtt t).sumUs.toNat =
      (t.sumUs.toNat + (l.map UInt64.toNat).sum) % 2 ^ 64 := by
  induction l generalizing t with
  | nil => exact (Nat.mod_eq_of_lt t.sumUs.toNat_lt).symm
  | cons x l ih =>
    rw [List.foldl_cons, ih, List.map_cons, List.sum_cons, ← Nat.add_assoc]
    change ((t.sumUs + x).toNat + _) % 2 ^ 64 = _
    rw [UInt64.toNat_add, Nat.mod_add_mod]

theorem count_foldl (l : List UInt64) (t : PctlTotals) :
    (l.foldl PctlTotals.addRtt t).count.toNat = (t.count.toNat + l.length) % 2 ^ 64 := by
  induction l generalizing t with
  | nil => exact (Nat.mod_eq_of_lt t.count.toNat_lt).symm
  | cons x l ih =>
    rw [List.foldl_cons, ih, List.length_cons]
    change ((t.count + 1).toNat + l.length) % 2 ^ 64 = _
    rw [UInt64.toNat_add, Nat.mod_add_mod, Nat.add_assoc, Nat.add_comm l.length]
    rfl

theorem min?_eq_minUs (hl : l ≠ []) : l.min? = some (l.foldl PctlTotals.addRtt .zero).minUs := by
  obtain ⟨x, l, rfl⟩ := List.exists_cons_of_ne_nil hl
  have hmin : min uint64Max x = x := by
    rw [show min uint64Max x = if uint64Max ≤ x then uint64Max else x from rfl]
    have hnot := not_uint64Max_lt x
    grind
  rw [minUs_foldl, List.min?_cons', List.foldl_cons]
  exact congrArg (fun m => some (l.foldl min m)) hmin.symm

theorem max?_eq_maxUs (hl : l ≠ []) : l.max? = some (l.foldl PctlTotals.addRtt .zero).maxUs := by
  obtain ⟨x, l, rfl⟩ := List.exists_cons_of_ne_nil hl
  have hmax : max 0 x = x := by
    rw [show max 0 x = if 0 ≤ x then x else 0 from rfl]
    grind
  rw [maxUs_foldl, List.max?_cons', List.foldl_cons]
  exact congrArg (fun m => some (l.foldl max m)) hmax.symm

end Closed

/-! ## The statistics over samples -/

theorem length_recentMinutes_le (n : ℕ) (h : List RttSample) : (recentMinutes n h).length ≤ n := by
  rw [recentMinutes, List.rtake, List.length_drop]
  omega

/-- Counts of 32 bits, added up over the minutes of a window. -/
theorem sum_recentMinutes_lt {n : ℕ} (hn60 : n ≤ 60) {h : List RttSample} {count : ℕ → ℕ}
    (hcount : ∀ k, count k < 2 ^ 32) : ((recentMinutes n h).map count).sum < 2 ^ 63 := by
  have hbound : ((recentMinutes n h).map count).sum ≤ (recentMinutes n h).length • 2 ^ 32 := by
    refine (List.sum_le_card_nsmul _ (2 ^ 32) ?_).trans_eq (by rw [List.length_map])
    intro x hx
    obtain ⟨k, -, rfl⟩ := List.mem_map.mp hx
    exact (hcount k).le
  have hminutes := length_recentMinutes_le n h
  rw [smul_eq_mul] at hbound
  omega

theorem length_windowRtts_lt {n : ℕ} (hn60 : n ≤ 60) {h : List RttSample}
    (hcount : ∀ k, (ofMinute h k).length < 2 ^ 32) : (windowRtts n h).length < 2 ^ 63 := by
  rw [windowRtts, List.length_map, ← (perm_ofMinute n h).length_eq, List.length_flatMap]
  exact sum_recentMinutes_lt hn60 hcount

/-- The window over the last minutes has the last sample. -/
theorem windowRtts_ne_nil {n : ℕ} (hn : 1 ≤ n) {h : List RttSample}
    (hts : (h.map RttSample.tsMs).Pairwise (· ≤ ·)) (hh : h ≠ []) : windowRtts n h ≠ [] := by
  obtain ⟨h', s, rfl⟩ := (List.eq_nil_or_concat h).resolve_left hh
  rw [List.concat_eq_append] at hts ⊢
  have hlast := Rollup.key_mem_recent hn (pairwise_minuteStart hts)
  refine List.ne_nil_of_mem (List.mem_map_of_mem (List.mem_filter.mpr ⟨?_, decide_eq_true hlast⟩))
  exact List.mem_append_right _ (List.mem_singleton.mpr rfl)

/-- **The minutes are summed up exactly.**  After any history in order of time, the statistics over
the last `n` minutes are the minimum, the maximum and the average, rounded down, of the samples of
these minutes, and they are valid if there was any sample at all. -/
theorem computeWindowStats_exact {h : List RttSample}
    (hts : (h.map RttSample.tsMs).Pairwise (· ≤ ·)) {n : ℕ} (hn : 1 ≤ n) (hn60 : n ≤ 60)
    (hcount : ∀ k, (h.filter fun s => s.minuteStart = k).length < 2 ^ 32)
    (hsum : ((windowRtts n h).map UInt64.toNat).sum < 2 ^ 64) :
    ((computeWindowStats (bucketsAfter h) n).valid = false ↔ h = []) ∧
      (h ≠ [] →
        (windowRtts n h).min? = some (computeWindowStats (bucketsAfter h) n).minUs ∧
        (windowRtts n h).max? = some (computeWindowStats (bucketsAfter h) n).maxUs ∧
        (computeWindowStats (bucketsAfter h) n).avgUs.toNat =
          ((windowRtts n h).map UInt64.toNat).sum / (windowRtts n h).length) := by
  have hlen : (windowRtts n h).length < 2 ^ 64 :=
    Nat.lt_trans (length_windowRtts_lt hn60 hcount) (by decide)
  rw [computeWindowStats_eq hts hn hn60, windowTotals_eq n hcount, PctlTotals.stats]
  have hc := count_foldl (windowRtts n h) .zero
  rw [show PctlTotals.zero.count.toNat = 0 from rfl, Nat.zero_add, Nat.mod_eq_of_lt hlen] at hc
  have hs := sumUs_foldl (windowRtts n h) .zero
  rw [show PctlTotals.zero.sumUs.toNat = 0 from rfl, Nat.zero_add, Nat.mod_eq_of_lt hsum] at hs
  by_cases hh : h = []
  · subst hh
    exact ⟨iff_of_true rfl rfl, fun hne => absurd rfl hne⟩
  · have hne := windowRtts_ne_nil hn hts hh
    have hpos := List.length_pos_iff.mpr hne
    have hzero : ((windowRtts n h).foldl PctlTotals.addRtt .zero).count ≠ 0 := by
      intro heq
      rw [heq] at hc
      exact absurd hc (Nat.ne_of_lt hpos)
    rw [if_neg hzero]
    refine ⟨iff_of_false (Bool.noConfusion ·) hh, fun _ => ?_⟩
    refine ⟨min?_eq_minUs hne, max?_eq_maxUs hne, ?_⟩
    rw [UInt64.toNat_div, hs, hc]

/-- Two samples in one minute, a pause, and one more: the last two minutes have all three. -/
theorem computeWindowStats_exact_pause :
    (computeWindowStats (bucketsAfter [⟨60000, 5⟩, ⟨61000, 3⟩, ⟨240000, 11⟩]) 2).avgUs.toNat =
      (5 + 3 + 11) / 3 :=
  ((computeWindowStats_exact (h := [⟨60000, 5⟩, ⟨61000, 3⟩, ⟨240000, 11⟩]) (by decide) (n := 2)
    (by decide) (by decide)
    (fun _ => Nat.lt_of_le_of_lt (List.length_filter_le ..) (by decide)) (by decide)).2
      (by decide)).2.2

end Nsr
