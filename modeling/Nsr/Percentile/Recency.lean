import Nsr.Percentile.Windows
import Mathlib.Data.List.Forall2

/-!
# How recent a window is

`compute_window_stats` of `plugins/percentile/percentile.c` goes back over minutes that have
samples, `compute_window_stats_for_addr` over time.  The two differ after a pause.

That statistics take no old sample into account means that they do not depend on what the old
samples were: another round trip time in place of one changes nothing.

* `PctlWindow.TooOld`, `SameWithin`: samples more than a window older than now, and histories that
  differ in nothing else.
* `computeWindowStatsForAddr_ignoresOld`: the statistics of one address are recent.
* `ignoresOld_iff`: when those over the minutes are.
-/

namespace Nsr

/-- The sample is more than the window older than now. -/
def PctlWindow.TooOld (w : PctlWindow) (now tsMs : UInt64) : Prop :=
  tsMs.toNat + w.windowMs.toNat < now.toNat

instance (w : PctlWindow) (now tsMs : UInt64) : Decidable (w.TooOld now tsMs) :=
  inferInstanceAs (Decidable (_ < _))

/-- Two samples of one time, with one round trip time unless they are too old. -/
def SameWithin (w : PctlWindow) (now : UInt64) (s' s : RttSample) : Prop :=
  s'.tsMs = s.tsMs ∧ (¬w.TooOld now s.tsMs → s'.rttUs = s.rttUs)

/-- **The statistics take no sample into account that is too old**: they do not depend on the
round trip times of such samples. -/
def IgnoresOld (w : PctlWindow) (now : UInt64) (h : List RttSample) : Prop :=
  ∀ h', List.Forall₂ (SameWithin w now) h' h →
    computeWindowStats (bucketsAfter h') w.buckets = computeWindowStats (bucketsAfter h) w.buckets

/-! ## The statistics of one address -/

/-- What two rings of samples have in common when only old round trip times differ. -/
def SameSampleWithin (w : PctlWindow) (now : UInt64) (s' s : PctlSample) : Prop :=
  s'.addr = s.addr ∧ s'.tsMs = s.tsMs ∧ (¬w.TooOld now s.tsMs → s'.rttUs = s.rttUs)

/-- A sample that is too old is before the cutoff. -/
theorem lt_cutoff_of_tooOld {w : PctlWindow} {now tsMs : UInt64} (h : w.TooOld now tsMs) :
    tsMs < now - w.windowMs := by
  rw [PctlWindow.TooOld] at h
  have hle : w.windowMs ≤ now := UInt64.le_iff_toNat_le.mpr (by omega)
  rw [UInt64.lt_iff_toNat_lt, UInt64.toNat_sub_of_le _ _ hle]
  omega

/-- **The statistics of one address take no sample into account that is too old.** -/
theorem computeWindowStatsForAddr_ignoresOld {w : PctlWindow} {now : UInt64}
    {samples' samples : PctlSamples} (addr : Bytes)
    (h : List.Forall₂ (SameSampleWithin w now) samples'.entries samples.entries) :
    computeWindowStatsForAddr samples' addr w.windowMs now =
      computeWindowStatsForAddr samples addr w.windowMs now := by
  have hcount : samples'.count = samples.count := by
    rw [← samples'.length_entries, ← samples.length_entries, h.length_eq]
  have hfold (t : PctlTotals) :
      samples'.entries.foldl (.addSample addr (now - w.windowMs)) t =
        samples.entries.foldl (.addSample addr (now - w.windowMs)) t := by
    generalize samples'.entries = l', samples.entries = l at h
    induction h generalizing t with
    | nil => rfl
    | @cons s' s l' l hs hl ih =>
      obtain ⟨haddr, hts, hrtt⟩ := hs
      have hround : PctlTotals.addSample addr (now - w.windowMs) t s' =
          PctlTotals.addSample addr (now - w.windowMs) t s := by
        rw [PctlTotals.addSample, PctlTotals.addSample, haddr, hts]
        by_cases hold : w.TooOld now s.tsMs
        · rw [if_pos (lt_cutoff_of_tooOld hold), if_pos (lt_cutoff_of_tooOld hold)]
        · rw [hrtt hold]
      rw [List.foldl_cons, List.foldl_cons, hround, ih]
  rw [computeWindowStatsForAddr, computeWindowStatsForAddr, hcount, hfold]

/-! ## Histories that differ in old samples -/

section Same

variable {w : PctlWindow} {now : UInt64} {h' h : List RttSample}

theorem map_tsMs_of_same (hsame : List.Forall₂ (SameWithin w now) h' h) :
    h'.map RttSample.tsMs = h.map RttSample.tsMs := by
  induction hsame with
  | nil => rfl
  | cons hs _ ih => rw [List.map_cons, List.map_cons, hs.1, ih]

theorem map_minuteStart_of_same (hsame : List.Forall₂ (SameWithin w now) h' h) :
    h'.map RttSample.minuteStart = h.map RttSample.minuteStart := by
  have hminute : RttSample.minuteStart = (fun ts => ts.toNat / 60000 * 60000) ∘ RttSample.tsMs :=
    rfl
  rw [hminute, ← List.map_map, ← List.map_map, map_tsMs_of_same hsame]

theorem recentMinutes_of_same (hsame : List.Forall₂ (SameWithin w now) h' h) (n : ℕ) :
    recentMinutes n h' = recentMinutes n h := by
  rw [recentMinutes, recentMinutes, map_minuteStart_of_same hsame]

theorem length_ofMinute_of_same (hsame : List.Forall₂ (SameWithin w now) h' h) (k : ℕ) :
    (ofMinute h' k).length = (ofMinute h k).length := by
  have hcount (l : List RttSample) :
      (ofMinute l k).length = (l.map RttSample.minuteStart).countP fun m => decide (m = k) := by
    rw [List.countP_map, List.countP_eq_length_filter]
    rfl
  rw [hcount, hcount, map_minuteStart_of_same hsame]

/-- A minute without old samples is the same. -/
theorem ofMinute_of_same (hsame : List.Forall₂ (SameWithin w now) h' h) {k : ℕ}
    (hk : ∀ s ∈ h, s.minuteStart = k → ¬w.TooOld now s.tsMs) : ofMinute h' k = ofMinute h k := by
  induction hsame with
  | nil => rfl
  | @cons s' s l' l hs hl ih =>
    have htail := ih fun s' hs' => hk s' (List.mem_cons_of_mem s hs')
    rw [ofMinute, ofMinute] at htail ⊢
    have hminute : s'.minuteStart = s.minuteStart := by
      rw [RttSample.minuteStart, hs.1, RttSample.minuteStart]
    rw [List.filter_cons, List.filter_cons, hminute, htail]
    by_cases hkey : s.minuteStart = k
    · have hrtt := hs.2 (hk s List.mem_cons_self hkey)
      have heq : s' = s := by
        cases s'
        cases s
        simp only [RttSample.mk.injEq]
        exact ⟨hs.1, hrtt⟩
      rw [heq]
    · rw [if_neg (by simpa using hkey), if_neg (by simpa using hkey)]

end Same

/-- The counter of a minute is zero when its samples are a multiple of `2 ^ 32`. -/
theorem count_summary_eq_zero_iff (h : List RttSample) (k : ℕ) :
    (minuteRollup.summary h k).count = 0 ↔ (ofMinute h k).length % 2 ^ 32 = 0 := by
  rw [← UInt32.toNat_inj, count_summary]
  rfl

/-- **Enough for recent statistics**: no minute that is counted has an old sample. -/
theorem ignoresOld_of_recent {h : List RttSample}
    (hts : (h.map RttSample.tsMs).Pairwise (· ≤ ·)) {w : PctlWindow} (hn : 1 ≤ w.buckets)
    (hn60 : w.buckets ≤ 60) {now : UInt64}
    (hrecent : ∀ s ∈ h, s.minuteStart ∈ recentMinutes w.buckets h →
      (ofMinute h s.minuteStart).length % 2 ^ 32 ≠ 0 → ¬w.TooOld now s.tsMs) :
    IgnoresOld w now h := by
  intro h' hsame
  have hts' := hts
  rw [← map_tsMs_of_same hsame] at hts'
  rw [computeWindowStats_eq hts' hn hn60, computeWindowStats_eq hts hn hn60,
    windowTotals, windowTotals, recentMinutes_of_same hsame, List.foldl_map, List.foldl_map]
  congr 1
  refine List.foldl_ext _ _ _ fun t k hk => ?_
  by_cases hzero : (ofMinute h k).length % 2 ^ 32 = 0
  · have hzero' := hzero
    rw [← length_ofMinute_of_same hsame] at hzero'
    rw [PctlTotals.addBucket, PctlTotals.addBucket,
      if_pos ((count_summary_eq_zero_iff h' k).mpr hzero'),
      if_pos ((count_summary_eq_zero_iff h k).mpr hzero)]
  · rw [summary_eq, summary_eq, ofMinute_of_same hsame]
    rintro s hs rfl
    exact hrecent s hs hk hzero

/-! ## An old sample that counts -/

/-- The totals `t'` are `t` with `δ` more in the sum. -/
def Shifted (δ : UInt64) (t' t : PctlTotals) : Prop :=
  t'.sumUs = t.sumUs + δ ∧ t'.count = t.count

theorem Shifted.addBucket {δ : UInt64} {t' t : PctlTotals} (h : Shifted δ t' t) (b : PctlBucket) :
    Shifted δ (t'.addBucket b) (t.addBucket b) := by
  rw [PctlTotals.addBucket, PctlTotals.addBucket]
  split
  · exact h
  · refine ⟨?_, ?_⟩
    · change t'.sumUs + b.sumUs = t.sumUs + b.sumUs + δ
      rw [h.1]
      grind
    · change t'.count + b.count.toUInt64 = t.count + b.count.toUInt64
      rw [h.2]

theorem Shifted.foldl {δ : UInt64} {t' t : PctlTotals} (h : Shifted δ t' t)
    (bs : List PctlBucket) :
    Shifted δ (bs.foldl PctlTotals.addBucket t') (bs.foldl PctlTotals.addBucket t) := by
  induction bs generalizing t' t with
  | nil => exact h
  | cons b bs ih => exact ih (h.addBucket b)

/-- A bucket with `δ` more in its sum. -/
theorem shifted_addBucket {δ : UInt64} (t : PctlTotals) {b' b : PctlBucket}
    (hsum : b'.sumUs = b.sumUs + δ) (hcount : b'.count = b.count) (hb : b.count ≠ 0) :
    Shifted δ (t.addBucket b') (t.addBucket b) := by
  rw [PctlTotals.addBucket, PctlTotals.addBucket, if_neg (hcount ▸ hb), if_neg hb]
  refine ⟨?_, ?_⟩
  · change t.sumUs + b'.sumUs = t.sumUs + b.sumUs + δ
    rw [hsum, UInt64.add_assoc]
  · change t.count + b'.count.toUInt64 = t.count + b.count.toUInt64
    rw [hcount]

/-- A sample with `δ` more, among others. -/
theorem sumUs_foldl_add {δ : UInt64} (l : List RttSample) {b' b : PctlBucket}
    (hsum : b'.sumUs = b.sumUs + δ) :
    (l.foldl minuteRollup.add b').sumUs = (l.foldl minuteRollup.add b).sumUs + δ := by
  induction l generalizing b' b with
  | nil => exact hsum
  | cons s l ih =>
    refine ih ?_
    change b'.sumUs + s.rttUs = b.sumUs + s.rttUs + δ
    rw [hsum]
    grind

/-- The history with `δ` more in one of its samples. -/
def RttSample.shift (s : RttSample) (δ : UInt64) : RttSample :=
  { s with rttUs := s.rttUs + δ }

theorem summary_shift_of_ne {h₁ h₂ : List RttSample} {s : RttSample} {k : ℕ}
    (hk : s.minuteStart ≠ k) (δ : UInt64) :
    minuteRollup.summary (h₁ ++ s.shift δ :: h₂) k = minuteRollup.summary (h₁ ++ s :: h₂) k := by
  have hk' : (s.shift δ).minuteStart ≠ k := hk
  rw [summary_eq, summary_eq, ofMinute, ofMinute, List.filter_append, List.filter_append,
    List.filter_cons, List.filter_cons, if_neg (by simpa using hk'), if_neg (by simpa using hk)]

theorem sumUs_summary_shift (h₁ h₂ : List RttSample) (s : RttSample) (δ : UInt64) :
    (minuteRollup.summary (h₁ ++ s.shift δ :: h₂) s.minuteStart).sumUs =
      (minuteRollup.summary (h₁ ++ s :: h₂) s.minuteStart).sumUs + δ := by
  have hminute : (s.shift δ).minuteStart = s.minuteStart := rfl
  rw [summary_eq, summary_eq, ofMinute, ofMinute, List.filter_append, List.filter_append,
    List.filter_cons, List.filter_cons, if_pos (by simp [hminute]), if_pos (by simp),
    List.foldl_append, List.foldl_append, List.foldl_cons, List.foldl_cons]
  refine sumUs_foldl_add _ ?_
  exact (UInt64.add_assoc _ _ _).symm

/-- **One round trip time more or less** in a minute that is counted goes into the sum. -/
theorem shifted_totals {h₁ h₂ : List RttSample} {s : RttSample} {δ : UInt64} {ks : List ℕ}
    (hks : ks.Nodup) (hmem : s.minuteStart ∈ ks)
    (hcount : (ofMinute (h₁ ++ s :: h₂) s.minuteStart).length % 2 ^ 32 ≠ 0)
    (hcount' : (minuteRollup.summary (h₁ ++ s.shift δ :: h₂) s.minuteStart).count =
      (minuteRollup.summary (h₁ ++ s :: h₂) s.minuteStart).count) :
    Shifted δ
      ((ks.map (minuteRollup.summary (h₁ ++ s.shift δ :: h₂))).foldl PctlTotals.addBucket .zero)
      ((ks.map (minuteRollup.summary (h₁ ++ s :: h₂))).foldl PctlTotals.addBucket .zero) := by
  obtain ⟨l₁, l₂, rfl⟩ := List.append_of_mem hmem
  obtain ⟨-, hl₂, hdisj⟩ := List.nodup_append.mp hks
  have hsame₁ : l₁.map (minuteRollup.summary (h₁ ++ s.shift δ :: h₂)) =
      l₁.map (minuteRollup.summary (h₁ ++ s :: h₂)) :=
    List.map_congr_left fun k hk =>
      summary_shift_of_ne (hdisj k hk _ List.mem_cons_self).symm δ
  have hsame₂ : l₂.map (minuteRollup.summary (h₁ ++ s.shift δ :: h₂)) =
      l₂.map (minuteRollup.summary (h₁ ++ s :: h₂)) :=
    List.map_congr_left fun k hk =>
      summary_shift_of_ne (fun heq => (List.nodup_cons.mp hl₂).1 (heq ▸ hk)) δ
  rw [List.map_append, List.map_append, List.map_cons, List.map_cons, hsame₁, hsame₂,
    List.foldl_append, List.foldl_append, List.foldl_cons, List.foldl_cons]
  refine Shifted.foldl (shifted_addBucket _ (sumUs_summary_shift h₁ h₂ s δ) hcount' ?_) _
  rwa [Ne, count_summary_eq_zero_iff]

/-- The number of samples in some minutes; too few minutes for it to wrap. -/
theorem toNat_count_foldl (bs : List PctlBucket) {t : PctlTotals}
    (ht : t.count.toNat + bs.length * 2 ^ 32 < 2 ^ 64) :
    (bs.foldl PctlTotals.addBucket t).count.toNat =
      t.count.toNat + (bs.map fun b => b.count.toNat).sum := by
  induction bs generalizing t with
  | nil => rfl
  | cons b bs ih =>
    rw [List.length_cons] at ht
    have hlt := b.count.toNat_lt
    have hadd : (t.addBucket b).count.toNat = t.count.toNat + b.count.toNat := by
      rw [PctlTotals.addBucket]
      split
      · next hb =>
        rw [hb]
        rfl
      · change (t.count + b.count.toUInt64).toNat = _
        rw [UInt64.toNat_add, UInt32.toNat_toUInt64]
        exact Nat.mod_eq_of_lt (by omega)
    rw [List.foldl_cons, ih (by rw [hadd]; omega), hadd, List.map_cons, List.sum_cons,
      Nat.add_assoc]

/-- A number and the same with as much more or less as there are samples have averages that
differ. -/
theorem exists_div_ne (sum : UInt64) {count : UInt64} (hpos : count ≠ 0)
    (hlt : count.toNat < 2 ^ 63) : ∃ δ, (sum + δ) / count ≠ sum / count := by
  have hc : 0 < count.toNat := by
    rw [Nat.pos_iff_ne_zero, Ne, ← UInt64.toNat_zero, UInt64.toNat_inj]
    exact hpos
  have hs := sum.toNat_lt
  rcases Nat.lt_or_ge (sum.toNat + count.toNat) (2 ^ 64) with hroom | hfull
  · refine ⟨count, fun heq => ?_⟩
    have hdiv := congrArg UInt64.toNat heq
    rw [UInt64.toNat_div, UInt64.toNat_div, UInt64.toNat_add, Nat.mod_eq_of_lt hroom,
      Nat.add_div_right _ hc] at hdiv
    omega
  · refine ⟨-count, fun heq => ?_⟩
    have hle : count ≤ sum := UInt64.le_iff_toNat_le.mpr (by omega)
    have hdiv := congrArg UInt64.toNat heq
    rw [← UInt64.sub_eq_add_neg, UInt64.toNat_div, UInt64.toNat_div,
      UInt64.toNat_sub_of_le _ _ hle] at hdiv
    have hless := Nat.div_eq_sub_div hc (UInt64.le_iff_toNat_le.mp hle)
    omega

section Old

variable {h₁ h₂ : List RttSample} {s : RttSample} {w : PctlWindow} {now : UInt64}

/-- Any other round trip time may stand in the place of an old one. -/
theorem forall₂_shift (h₁ h₂ : List RttSample) (hold : w.TooOld now s.tsMs) (δ : UInt64) :
    List.Forall₂ (SameWithin w now) (h₁ ++ s.shift δ :: h₂) (h₁ ++ s :: h₂) := by
  have hrefl (l : List RttSample) : List.Forall₂ (SameWithin w now) l l :=
    List.forall₂_same.mpr fun _ _ => ⟨rfl, fun _ => rfl⟩
  exact List.rel_append (hrefl h₁) (.cons ⟨rfl, fun hnot => absurd hold hnot⟩ (hrefl h₂))

/-- The number of samples in a window that counts any. -/
theorem count_windowTotals {h : List RttSample} {n : ℕ} (hn60 : n ≤ 60) {k : ℕ}
    (hk : k ∈ recentMinutes n h) (hcount : (ofMinute h k).length % 2 ^ 32 ≠ 0) :
    (windowTotals n h).count ≠ 0 ∧ (windowTotals n h).count.toNat < 2 ^ 63 := by
  have hlen := length_recentMinutes_le n h
  have htotal := toNat_count_foldl (t := .zero) ((recentMinutes n h).map (minuteRollup.summary h))
    (by rw [List.length_map, show PctlTotals.zero.count.toNat = 0 from rfl]; omega)
  rw [show PctlTotals.zero.count.toNat = 0 from rfl, Nat.zero_add, List.map_map] at htotal
  refine ⟨fun hzero => ?_, ?_⟩
  · have hle := List.single_le_sum (l := (recentMinutes n h).map
      ((fun b => b.count.toNat) ∘ minuteRollup.summary h)) (by simp) _ (List.mem_map_of_mem hk)
    rw [← htotal, ← windowTotals, hzero, Function.comp_apply, count_summary] at hle
    exact hcount (Nat.le_zero.mp hle)
  · rw [windowTotals, htotal]
    exact sum_recentMinutes_lt hn60 fun k => UInt32.toNat_lt _

/-- **An old sample in a minute that is counted** is taken into account. -/
theorem not_ignoresOld (hts : ((h₁ ++ s :: h₂).map RttSample.tsMs).Pairwise (· ≤ ·))
    (hn : 1 ≤ w.buckets) (hn60 : w.buckets ≤ 60)
    (hmem : s.minuteStart ∈ recentMinutes w.buckets (h₁ ++ s :: h₂))
    (hcount : (ofMinute (h₁ ++ s :: h₂) s.minuteStart).length % 2 ^ 32 ≠ 0)
    (hold : w.TooOld now s.tsMs) : ¬IgnoresOld w now (h₁ ++ s :: h₂) := by
  intro hignores
  obtain ⟨hpos, hlt⟩ := count_windowTotals hn60 hmem hcount
  obtain ⟨δ, hδ⟩ := exists_div_ne (windowTotals w.buckets (h₁ ++ s :: h₂)).sumUs hpos hlt
  have hsame := forall₂_shift h₁ h₂ hold δ
  have hts' := hts
  rw [← map_tsMs_of_same hsame] at hts'
  have hshift : Shifted δ (windowTotals w.buckets (h₁ ++ s.shift δ :: h₂))
      (windowTotals w.buckets (h₁ ++ s :: h₂)) := by
    rw [windowTotals, recentMinutes_of_same hsame]
    refine shifted_totals (Rollup.nodup_recent (R := minuteRollup) _ _) hmem hcount ?_
    rw [← UInt32.toNat_inj, count_summary, count_summary, length_ofMinute_of_same hsame]
  have hstats := hignores _ hsame
  rw [computeWindowStats_eq hts' hn hn60, computeWindowStats_eq hts hn hn60, PctlTotals.stats,
    PctlTotals.stats, hshift.2, if_neg hpos, if_neg hpos, hshift.1] at hstats
  exact hδ (congrArg PctlStats.avgUs hstats)

end Old

/-! ## The windows of the plugin -/

theorem buckets_of_mem_pctlWindows {w : PctlWindow} (hw : w ∈ pctlWindows) :
    1 ≤ w.buckets ∧ w.buckets ≤ 60 := by
  simp only [pctlWindows, List.mem_cons, List.not_mem_nil, or_false] at hw
  rcases hw with rfl | rfl | rfl | rfl
  · decide
  · decide
  · decide
  · decide

/-- **When the statistics over the minutes are recent.**  They take no sample into account that is
more than the window older than now exactly when there is none in the last minutes with samples;
a minute whose number of samples is a multiple of `2 ^ 32` counts for none. -/
theorem ignoresOld_iff {h : List RttSample} (hts : (h.map RttSample.tsMs).Pairwise (· ≤ ·))
    {w : PctlWindow} (hw : w ∈ pctlWindows) (now : UInt64) :
    IgnoresOld w now h ↔
      ∀ s ∈ h, s.minuteStart ∈ recentMinutes w.buckets h →
        (h.filter fun s' => s'.minuteStart = s.minuteStart).length % 2 ^ 32 ≠ 0 →
          ¬w.TooOld now s.tsMs := by
  obtain ⟨hn, hn60⟩ := buckets_of_mem_pctlWindows hw
  refine ⟨fun hignores s hs hmem hcount hold => ?_, ignoresOld_of_recent hts hn hn60⟩
  obtain ⟨h₁, h₂, rfl⟩ := List.append_of_mem hs
  exact not_ignoresOld hts hn hn60 hmem hcount hold hignores

/-- A sample of this minute, and one of the minute before. -/
theorem ignoresOld_iff_running :
    IgnoresOld ⟨5, 5 * 60 * 1000⟩ 130000 [⟨60000, 5⟩, ⟨125000, 7⟩] :=
  (ignoresOld_iff (by decide) (by decide) _).mpr (by decide)

/-- One sample, and ten minutes without any: the window of one minute shows it. -/
theorem shows_old_after_pause :
    ¬∀ (h : List RttSample) (now : UInt64), (h.map RttSample.tsMs).Pairwise (· ≤ ·) →
      (∀ s ∈ h, s.tsMs ≤ now) → ∀ w ∈ pctlWindows, IgnoresOld w now h := by
  intro hclaim
  have hignores := hclaim [⟨60000, 5⟩] 660000 (by decide) (by decide) ⟨1, 60 * 1000⟩
    (List.mem_cons_self ..)
  have hstats := hignores [⟨60000, 7⟩] (.cons ⟨rfl, fun hnot => absurd (by decide) hnot⟩ .nil)
  exact absurd hstats (by decide)

end Nsr
