import Nsr.Lib.RingLog
import Nsr.Plugin.Rpc

/-!
# The percentile plugin

`plugins/percentile/percentile.c`: the samples of all hops in one ring, summaries of the minutes in
a second one, and the statistics computed from them.  The time of a call, `now_ms()`, is an
argument.

The counts and heads of the rings are `uint32_t` in the source; `RingLog` keeps them within the
ring.  The loop of `compute_window_stats_for_addr` counts in 32 bits what it has found in a ring
of 4096.
-/

namespace Nsr

/-- `PCTL_SAMPLE_MAX`. -/
abbrev pctlSampleMax : ℕ := 4096

/-- `PCTL_BUCKET_MAX`. -/
abbrev pctlBucketMax : ℕ := 60

/-- `UINT64_MAX`. -/
def uint64Max : UInt64 := 0xffffffffffffffff

/-- `pctl_sample_t`. -/
structure PctlSample where
  rttUs : UInt64
  tsMs : UInt64
  addr : Bytes
  deriving DecidableEq

/-- **`pctl_bucket_t`**: the summary of a minute. -/
structure PctlBucket where
  startMs : UInt64
  minUs : UInt64
  maxUs : UInt64
  sumUs : UInt64
  count : UInt32
  deriving DecidableEq

/-- `pctl_stats_t`. -/
structure PctlStats where
  minUs : UInt64
  maxUs : UInt64
  avgUs : UInt64
  valid : Bool
  deriving DecidableEq

/-- `pctl_window_t`. -/
structure PctlWindow where
  buckets : ℕ
  windowMs : UInt64
  deriving DecidableEq

/-- `WINDOWS`. -/
def pctlWindows : List PctlWindow :=
  [⟨1, 60 * 1000⟩, ⟨5, 5 * 60 * 1000⟩, ⟨15, 15 * 60 * 1000⟩, ⟨60, 60 * 60 * 1000⟩]

/-- `g_samples`. -/
abbrev PctlSamples := RingLog PctlSample pctlSampleMax

/-- `g_buckets`. -/
abbrev PctlBuckets := RingLog PctlBucket pctlBucketMax

/-- **The state of the plugin.** -/
structure Percentile where
  samples : PctlSamples
  buckets : PctlBuckets

/-- The zeroed state. -/
def Percentile.init : Percentile where
  samples := .empty ⟨0, 0, []⟩
  buckets := .empty ⟨0, 0, 0, 0, 0⟩

/-! ## Adding -/

/-- `bucket_start_ms`. -/
def bucketStartMs (tsMs : UInt64) : UInt64 :=
  tsMs / 60000 * 60000

/-- `pctl_add`. -/
def pctlAdd (samples : PctlSamples) (addr : Bytes) (rttUs tsMs : UInt64) : PctlSamples :=
  if addr = [] ∨ rttUs = 0 then samples
  else samples.push ⟨rttUs, tsMs, addr.take 47⟩

/-- A minute without samples. -/
def PctlBucket.fresh (startMs : UInt64) : PctlBucket :=
  ⟨startMs, uint64Max, 0, 0, 0⟩

/-- **`get_current_bucket`**: the ring, and the cell in it that the pointer is to. -/
def getCurrentBucket (buckets : PctlBuckets) (tsMs : UInt64) :
    PctlBuckets × Fin pctlBucketMax :=
  let start := bucketStartMs tsMs
  match buckets.find fun b => b.startMs == start with
  | some idx => (buckets, idx)
  | none => (buckets.push (.fresh start), buckets.head)

/-- What `bucket_add` does to the bucket. -/
def PctlBucket.add (b : PctlBucket) (rttUs : UInt64) : PctlBucket :=
  { b with
    minUs := if rttUs < b.minUs then rttUs else b.minUs
    maxUs := if rttUs > b.maxUs then rttUs else b.maxUs
    sumUs := b.sumUs + rttUs
    count := b.count + 1 }

/-- **`bucket_add`.** -/
def bucketAdd (buckets : PctlBuckets) (tsMs rttUs : UInt64) : PctlBuckets :=
  let r := getCurrentBucket buckets tsMs
  r.1.modify r.2 fun b => b.add rttUs

/-! ## Statistics -/

/-- The variables `min_us`, `max_us`, `sum_us` and `count` of both loops. -/
structure PctlTotals where
  minUs : UInt64
  maxUs : UInt64
  sumUs : UInt64
  count : UInt64
  deriving DecidableEq

/-- Their values before a loop. -/
def PctlTotals.zero : PctlTotals :=
  ⟨uint64Max, 0, 0, 0⟩

/-- `{0, 0, 0, false}`. -/
def PctlStats.invalid : PctlStats :=
  ⟨0, 0, 0, false⟩

/-- The statistics after a loop. -/
def PctlTotals.stats (t : PctlTotals) : PctlStats :=
  if t.count = 0 then .invalid else ⟨t.minUs, t.maxUs, t.sumUs / t.count, true⟩

/-- A round of the loop of `compute_window_stats`. -/
def PctlTotals.addBucket (t : PctlTotals) (b : PctlBucket) : PctlTotals :=
  if b.count = 0 then t
  else
    { minUs := if b.minUs < t.minUs then b.minUs else t.minUs
      maxUs := if b.maxUs > t.maxUs then b.maxUs else t.maxUs
      sumUs := t.sumUs + b.sumUs
      count := t.count + b.count.toUInt64 }

/-- **`compute_window_stats`.** -/
def computeWindowStats (buckets : PctlBuckets) (numBuckets : ℕ) : PctlStats :=
  if buckets.count = 0 ∨ numBuckets = 0 then .invalid
  else
    let n := if numBuckets < buckets.count then numBuckets else buckets.count
    ((buckets.newest n).foldl PctlTotals.addBucket .zero).stats

/-- A round trip time that `compute_window_stats_for_addr` counts. -/
def PctlTotals.addRtt (t : PctlTotals) (rttUs : UInt64) : PctlTotals where
  minUs := if rttUs < t.minUs then rttUs else t.minUs
  maxUs := if rttUs > t.maxUs then rttUs else t.maxUs
  sumUs := t.sumUs + rttUs
  count := t.count + 1

/-- A round of the loop of `compute_window_stats_for_addr`. -/
def PctlTotals.addSample (addr : Bytes) (cutoff : UInt64) (t : PctlTotals) (s : PctlSample) :
    PctlTotals :=
  if s.addr ≠ addr then t
  else if s.tsMs < cutoff then t
  else t.addRtt s.rttUs

/-- **`compute_window_stats_for_addr`** at the time `now`. -/
def computeWindowStatsForAddr (samples : PctlSamples) (addr : Bytes) (windowMs now : UInt64) :
    PctlStats :=
  if addr = [] ∨ samples.count = 0 then .invalid
  else (samples.entries.foldl (.addSample addr (now - windowMs)) PctlTotals.zero).stats

/-! ## Telemetry -/

/-- What `handle_update_telemetry` reads from an element of `hops`. -/
structure PctlHop where
  addr : Bytes
  rttUs : ℤ
  recv : ℤ
  deriving DecidableEq

/-- An integer member, zero where there is none. -/
def pctlInt (elem : Bytes) (key : CStr) : ℤ :=
  match objGet elem key with
  | none => 0
  | some (v, flen) => (parseInt v flen 0).2

/-- The variables of a round of the loop of `handle_update_telemetry`. -/
def pctlHop (elem : Bytes) : PctlHop where
  addr := match objGet elem (cs "addr") with
    | none => []
    | some (v, flen) => (parseStr v flen 64).getD []
  rttUs := pctlInt elem (cs "rtt_us")
  recv := pctlInt elem (cs "recv")

/-- The body of `for (k = 0; k < recv && k < 64; k++)`. -/
def Percentile.addReply (ts : UInt64) (hop : PctlHop) (st : Percentile) : Percentile where
  samples := pctlAdd st.samples hop.addr (UInt64.ofInt hop.rttUs) ts
  buckets := bucketAdd st.buckets ts (UInt64.ofInt hop.rttUs)

/-- The rounds of `for (k = 0; k < recv && k < 64; k++)`. -/
def PctlHop.rounds (hop : PctlHop) : ℕ :=
  min hop.recv.toNat 64

/-- A round of the loop of `handle_update_telemetry`. -/
def Percentile.addHop (ts : UInt64) (st : Percentile) (hop : PctlHop) : Percentile :=
  (Percentile.addReply ts hop)^[hop.rounds] st

/-- The elements of `hops`, as they are read. -/
def pctlHops (params : Bytes) : List PctlHop :=
  match objGet params (cs "hops") with
  | none => []
  | some (hops, _) => (walkArr hops).map fun e => pctlHop e.1

/-- **`handle_update_telemetry`** at the time `ts`. -/
def handleUpdateTelemetry (ts : UInt64) (params : Bytes) (st : Percentile) : Percentile :=
  (pctlHops params).foldl (.addHop ts) st

end Nsr
