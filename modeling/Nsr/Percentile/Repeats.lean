import Nsr.Percentile.Recency
import Mathlib.Data.Fintype.Pigeonhole

/-!
# Telemetry that is sent again

The host sends `update_telemetry` with its last snapshot on every frame.  `recv` is the number of
replies of a hop so far, and `handle_update_telemetry` of `plugins/percentile/percentile.c` adds as
many samples, at most 64, each time.

* `addedSamples`: the samples that a call puts into the ring.
* `handleUpdateTelemetry_samples`: they are what happens to the ring.
* `repeats_iff`: when a second call with the same parameters changes nothing, and when the number of
  samples of an address follows its `recv`.
-/

namespace Nsr

/-! ## The samples that are added -/

/-- The samples that a hop puts into the ring. -/
def PctlHop.samples (hop : PctlHop) (ts : UInt64) : List PctlSample :=
  if hop.addr = [] ∨ UInt64.ofInt hop.rttUs = 0 then []
  else List.replicate hop.rounds ⟨UInt64.ofInt hop.rttUs, ts, hop.addr.take 47⟩

/-- A call of `handle_update_telemetry`. -/
structure PctlUpdate where
  ts : UInt64
  params : Bytes

/-- The samples that a call puts into the ring, in order. -/
def PctlUpdate.addedSamples (u : PctlUpdate) : List PctlSample :=
  (pctlHops u.params).flatMap fun hop => hop.samples u.ts

/-- The state after a sequence of calls. -/
def Percentile.run (st : Percentile) (us : List PctlUpdate) : Percentile :=
  us.foldl (fun st u => handleUpdateTelemetry u.ts u.params st) st

theorem addReply_iterate_samples (ts : UInt64) (hop : PctlHop) (n : ℕ) (st : Percentile) :
    ((Percentile.addReply ts hop)^[n] st).samples =
      if hop.addr = [] ∨ UInt64.ofInt hop.rttUs = 0 then st.samples
      else (List.replicate n ⟨UInt64.ofInt hop.rttUs, ts, hop.addr.take 47⟩).foldl RingLog.push
        st.samples := by
  induction n generalizing st with
  | zero =>
    split
    · rfl
    · rfl
  | succ n ih =>
    rw [Function.iterate_succ_apply, ih, Percentile.addReply, pctlAdd]
    split
    · rfl
    · rfl

/-- **What a call does to the ring of samples.** -/
theorem handleUpdateTelemetry_samples (u : PctlUpdate) (st : Percentile) :
    (handleUpdateTelemetry u.ts u.params st).samples =
      u.addedSamples.foldl RingLog.push st.samples := by
  rw [handleUpdateTelemetry, PctlUpdate.addedSamples]
  induction pctlHops u.params generalizing st with
  | nil => rfl
  | cons hop hops ih =>
    rw [List.foldl_cons, ih, List.flatMap_cons, List.foldl_append, Percentile.addHop,
      addReply_iterate_samples, PctlHop.samples]
    split
    · rfl
    · rfl

/-- What a run does to the ring of samples. -/
theorem run_samples (st : Percentile) (us : List PctlUpdate) :
    (st.run us).samples = (us.flatMap PctlUpdate.addedSamples).foldl RingLog.push st.samples := by
  induction us generalizing st with
  | nil => rfl
  | cons u us ih =>
    rw [List.flatMap_cons, List.foldl_append, ← handleUpdateTelemetry_samples]
    exact ih _

/-! ## The same parameters again -/

/-- Some bucket is the one of the minute that starts at `start`. -/
def HasMinute (st : Percentile) (start : UInt64) : Prop :=
  ∃ c, (st.buckets.cells c).startMs = start

theorem hasMinute_bucketAdd (buckets : PctlBuckets) (ts rttUs : UInt64) :
    ∃ c, ((bucketAdd buckets ts rttUs).cells c).startMs = bucketStartMs ts := by
  have hcurrent : ((getCurrentBucket buckets ts).1.cells
      (getCurrentBucket buckets ts).2).startMs = bucketStartMs ts := by
    rw [getCurrentBucket]
    split
    · next c hc => exact beq_iff_eq.mp (buckets.find_spec hc).2
    · exact congrArg PctlBucket.startMs (buckets.push_cells_head _)
  refine ⟨(getCurrentBucket buckets ts).2, ?_⟩
  rw [bucketAdd, RingLog.modify_cells_self]
  exact hcurrent

theorem hasMinute_addHop {ts : UInt64} {st : Percentile} {hop : PctlHop}
    (h : HasMinute st (bucketStartMs ts) ∨ 0 < hop.rounds) :
    HasMinute (st.addHop ts hop) (bucketStartMs ts) := by
  rw [Percentile.addHop]
  rcases hn : hop.rounds with _ | n
  · rw [hn] at h
    exact h.resolve_right (Nat.lt_irrefl 0)
  · rw [Function.iterate_succ_apply']
    exact hasMinute_bucketAdd _ _ _

/-- A call with replies leaves a bucket of its minute. -/
theorem hasMinute_handleUpdateTelemetry {params : Bytes} (hparams : ∃ hop ∈ pctlHops params,
    0 < hop.rounds) (ts : UInt64) (st : Percentile) :
    HasMinute (handleUpdateTelemetry ts params st) (bucketStartMs ts) := by
  have hfold (hops : List PctlHop) (st : Percentile)
      (h : HasMinute st (bucketStartMs ts) ∨ ∃ hop ∈ hops, 0 < hop.rounds) :
      HasMinute (hops.foldl (.addHop ts) st) (bucketStartMs ts) := by
    induction hops generalizing st with
    | nil => exact h.resolve_right (by simp)
    | cons hop hops ih =>
      refine ih _ ?_
      rcases h with h | ⟨hop', hmem, hpos⟩
      · exact .inl (hasMinute_addHop (.inl h))
      · rcases List.mem_cons.mp hmem with rfl | hmem
        · exact .inl (hasMinute_addHop (.inr hpos))
        · exact .inr ⟨hop', hmem, hpos⟩
  exact hfold _ _ (.inr hparams)

theorem rounds_pos_iff (hop : PctlHop) : 0 < hop.rounds ↔ 0 < hop.recv := by
  rw [PctlHop.rounds]
  omega

/-- A call without replies changes nothing. -/
theorem handleUpdateTelemetry_of_no_replies {params : Bytes}
    (hparams : ∀ hop ∈ pctlHops params, hop.recv ≤ 0) (ts : UInt64) (st : Percentile) :
    handleUpdateTelemetry ts params st = st := by
  rw [handleUpdateTelemetry]
  generalize pctlHops params = hops at hparams
  induction hops generalizing st with
  | nil => rfl
  | cons hop hops ih =>
    have hzero : hop.rounds = 0 := by
      have hle := hparams hop List.mem_cons_self
      rw [PctlHop.rounds]
      omega
    rw [List.foldl_cons, Percentile.addHop, hzero]
    exact ih st fun hop' hmem => hparams hop' (List.mem_cons_of_mem hop hmem)

/-- Sixty buckets leave one of the first sixty-one minutes out. -/
theorem exists_other_minute (st : Percentile) : ∃ ts, ¬HasMinute st (bucketStartMs ts) := by
  by_contra hnone
  have hall (i : Fin 61) : HasMinute st (bucketStartMs (UInt64.ofNat (i * 60000))) :=
    not_not.mp fun hnot => hnone ⟨_, hnot⟩
  choose f hf using hall
  obtain ⟨i, j, hne, heq⟩ := Fintype.exists_ne_map_eq_of_card_lt f (by simp)
  have hstart := (hf i).symm.trans ((congrArg (fun c => (st.buckets.cells c).startMs) heq).trans
    (hf j))
  have htoNat (k : Fin 61) : (bucketStartMs (UInt64.ofNat (k * 60000))).toNat = k * 60000 := by
    have hk := k.isLt
    refine (toNat_bucketStartMs ⟨UInt64.ofNat (k * 60000), 0⟩).trans ?_
    rw [RttSample.minuteStart, UInt64.toNat_ofNat', Nat.mod_eq_of_lt (by omega),
      Nat.mul_div_cancel _ (by decide)]
  have hij := congrArg UInt64.toNat hstart
  rw [htoNat, htoNat] at hij
  exact hne (Fin.ext (Nat.eq_of_mul_eq_mul_right (by decide) hij))

/-- **Whether a repeated call changes nothing.** -/
theorem handleUpdateTelemetry_idem_iff (st : Percentile) (params : Bytes) :
    (∀ ts ts', ts ≤ ts' → handleUpdateTelemetry ts' params (handleUpdateTelemetry ts params st) =
      handleUpdateTelemetry ts params st) ↔ ∀ hop ∈ pctlHops params, hop.recv ≤ 0 := by
  constructor
  · intro hidem hop hmem
    refine Int.not_lt.mp fun hpos => ?_
    obtain ⟨ts', hts'⟩ := exists_other_minute (handleUpdateTelemetry 0 params st)
    have hhas := hasMinute_handleUpdateTelemetry ⟨hop, hmem, (rounds_pos_iff hop).mpr hpos⟩ ts'
      (handleUpdateTelemetry 0 params st)
    rw [hidem 0 ts' (UInt64.le_iff_toNat_le.mpr (Nat.zero_le _))] at hhas
    exact hts' hhas
  · intro hparams ts ts' _
    rw [handleUpdateTelemetry_of_no_replies hparams ts']

/-! ## A run of snapshots -/

/-- The number of samples that a run has added for an address. -/
def addedFor (addr : Bytes) (us : List PctlUpdate) : ℕ :=
  ((us.flatMap PctlUpdate.addedSamples).filter fun s => s.addr = addr).length

/-- `recv` of an address in a snapshot, over all its hops. -/
def PctlUpdate.recvOf (addr : Bytes) (u : PctlUpdate) : ℤ :=
  (((pctlHops u.params).filter fun hop => hop.addr.take 47 = addr).map PctlHop.recv).sum

/-- `recv` of an address in the last snapshot of a run, `recv` before the run if it has none. -/
def lastRecv (addr : Bytes) (recv : ℤ) (us : List PctlUpdate) : ℤ :=
  (us.getLast?.map (PctlUpdate.recvOf addr)).getD recv

/-- What the hops of an address in a snapshot are good for: `recv` of each, but not more than 64,
and nothing without an address or a round trip time. -/
def PctlUpdate.replies (addr : Bytes) (u : PctlUpdate) : ℕ :=
  (((pctlHops u.params).filter fun hop => hop.addr.take 47 = addr ∧ hop.addr ≠ [] ∧
    UInt64.ofInt hop.rttUs ≠ 0).map fun hop => min hop.recv.toNat 64).sum

theorem length_samples_filter (hop : PctlHop) (ts : UInt64) (addr : Bytes) :
    ((hop.samples ts).filter fun s => s.addr = addr).length =
      if hop.addr.take 47 = addr ∧ hop.addr ≠ [] ∧ UInt64.ofInt hop.rttUs ≠ 0 then hop.rounds
      else 0 := by
  rw [PctlHop.samples]
  by_cases hnone : hop.addr = [] ∨ UInt64.ofInt hop.rttUs = 0
  · rw [if_pos hnone, if_neg fun h => hnone.elim h.2.1 h.2.2]
    rfl
  · have hsome := not_or.mp hnone
    rw [if_neg hnone, List.filter_replicate]
    by_cases haddr : hop.addr.take 47 = addr
    · rw [if_pos (by simpa using haddr), if_pos ⟨haddr, hsome⟩, List.length_replicate]
    · rw [if_neg (by simpa using haddr), if_neg fun h => haddr h.1]
      rfl

/-- **What a snapshot adds for an address.** -/
theorem addedFor_singleton (addr : Bytes) (u : PctlUpdate) :
    addedFor addr [u] = u.replies addr := by
  rw [addedFor, List.flatMap_singleton, PctlUpdate.addedSamples, PctlUpdate.replies]
  induction pctlHops u.params with
  | nil => rfl
  | cons hop hops ih =>
    rw [List.flatMap_cons, List.filter_append, List.length_append, ih, length_samples_filter,
      List.filter_cons]
    split
    · next h => rw [if_pos (decide_eq_true h), List.map_cons, List.sum_cons, PctlHop.rounds]
    · next h => rw [if_neg (by simpa using h), Nat.zero_add]

theorem addedFor_concat (addr : Bytes) (us : List PctlUpdate) (u : PctlUpdate) :
    addedFor addr (us ++ [u]) = addedFor addr us + u.replies addr := by
  rw [← addedFor_singleton, addedFor, addedFor, addedFor, List.flatMap_append, List.filter_append,
    List.length_append]

theorem lastRecv_concat (addr : Bytes) (recv : ℤ) (us : List PctlUpdate) (u : PctlUpdate) :
    lastRecv addr recv (us ++ [u]) = u.recvOf addr := by
  rw [lastRecv, List.getLast?_concat]
  rfl

/-- **Whether the samples of an address follow its `recv`.** -/
theorem addedFor_eq_growth_iff (addr : Bytes) (recv : ℤ) (us : List PctlUpdate) :
    (∀ us', us' <+: us → (addedFor addr us' : ℤ) = lastRecv addr recv us' - recv) ↔
      ∀ us' u, us' ++ [u] <+: us →
        (u.replies addr : ℤ) = u.recvOf addr - lastRecv addr recv us' := by
  constructor
  · intro hall us' u hprefix
    have hbefore := hall us' ((List.prefix_append us' [u]).trans hprefix)
    have hafter := hall _ hprefix
    rw [addedFor_concat, lastRecv_concat, Nat.cast_add] at hafter
    omega
  · intro hstep us' hprefix
    induction us' using List.reverseRecOn with
    | nil =>
      rw [lastRecv, List.getLast?_nil, Option.map_none, Option.getD_none, Int.sub_self]
      rfl
    | append_singleton us' u ih =>
      have hbefore := ih ((List.prefix_append us' [u]).trans hprefix)
      have hgrowth := hstep us' u hprefix
      rw [addedFor_concat, lastRecv_concat, Nat.cast_add]
      omega

/-- **When telemetry that is sent again adds nothing.**  A repeated call changes nothing exactly
when no hop of its parameters has a reply.  Over a run of snapshots, the samples that have gone into
the ring for an address are at every point as many as its `recv` has grown by exactly when each
snapshot is good for as many replies as `recv` has grown by in it. -/
theorem repeats_iff (st : Percentile) (params addr : Bytes) (recv : ℤ) (us : List PctlUpdate) :
    ((∀ ts ts', ts ≤ ts' →
      handleUpdateTelemetry ts' params (handleUpdateTelemetry ts params st) =
        handleUpdateTelemetry ts params st) ↔ ∀ hop ∈ pctlHops params, hop.recv ≤ 0) ∧
    (st.run us).samples = (us.flatMap PctlUpdate.addedSamples).foldl RingLog.push st.samples ∧
    ((∀ us', us' <+: us → (addedFor addr us' : ℤ) = lastRecv addr recv us' - recv) ↔
      ∀ us' u, us' ++ [u] <+: us →
        (u.replies addr : ℤ) = u.recvOf addr - lastRecv addr recv us') :=
  ⟨handleUpdateTelemetry_idem_iff st params, run_samples st us,
    addedFor_eq_growth_iff addr recv us⟩

/-- A snapshot with one reply of one hop. -/
def oneReply : Bytes :=
  ascii "\x7b\"hops\":[\x7b\"addr\":\"10.0.0.1\",\"rtt_us\":900,\"recv\":1\x7d]\x7d"

theorem pctlHops_oneReply : pctlHops oneReply = [⟨ascii "10.0.0.1", 900, 1⟩] := by
  decide +kernel

/-- The snapshot on two frames: two samples, of one reply. -/
theorem one_reply_twice :
    (¬∀ (st : Percentile) (params : Bytes) (ts ts' : UInt64), ts ≤ ts' →
      handleUpdateTelemetry ts' params (handleUpdateTelemetry ts params st) =
        handleUpdateTelemetry ts params st) ∧
    ¬∀ (addr : Bytes) (us : List PctlUpdate),
      (us.map (PctlUpdate.recvOf addr)).Pairwise (· ≤ ·) →
        (addedFor addr us : ℤ) = lastRecv addr 0 us := by
  constructor
  · intro hidem
    have htwice := congrArg (fun st : Percentile => st.samples.count)
      (hidem .init oneReply 60000 60016 (by decide))
    simp only [handleUpdateTelemetry, pctlHops_oneReply] at htwice
    exact absurd htwice (by decide)
  · intro hgrowth
    have htwice := hgrowth (ascii "10.0.0.1") [⟨60000, oneReply⟩, ⟨60016, oneReply⟩] (by
      simp only [List.map_cons, List.map_nil, PctlUpdate.recvOf, pctlHops_oneReply]
      decide)
    simp only [addedFor, List.flatMap_cons, List.flatMap_nil, PctlUpdate.addedSamples, lastRecv,
      List.getLast?_cons_cons, List.getLast?_singleton, Option.map_some, PctlUpdate.recvOf,
      pctlHops_oneReply] at htwice
    exact absurd htwice (by decide)

end Nsr
