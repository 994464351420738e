import Nsr.Session.Telemetry

/-!
# The logic process

`src/io/logic.c` without its ring calls: the telemetry it keeps, the functions
that update it, and the program counter of the main loop of `nsr_logic_run`.

The size of a burst comes from the pacing state, which is driven by a
floating-point loss estimate.  The loop only relies on its range, `1` to
`MAX_BURST`, and takes the size as given.
-/

namespace Nsr

/-- `MAX_BURST`. -/
def maxBurst : ℕ := 64

/-- `LOGIC_BATCH`. -/
def logicBatch : ℕ := 1024

/-- Where the main loop of `nsr_logic_run` stands; `now` is the loop's `now_us`. -/
inductive LogicPc where
  /-- At the top of the loop. -/
  | top
  /-- Generating a burst: `left` intents to go, `intents` generated. -/
  | generate (now : UInt64) (left : ℕ) (intents : List Intent)
  /-- At or inside `nsr_shm_ring_push_batch(l2g, ...)` for the head of `intents`. -/
  | push (now : UInt64) (intents : List Intent)
  /-- At or inside `nsr_shm_ring_pop_batch(g2l, ...)`. -/
  | drain (now : UInt64)
  /-- Applying the popped observations. -/
  | apply (now : UInt64) (obs : List Observation)
  /-- At the hand-over of `g_state` to the renderer. -/
  | publish (now : UInt64)

/-- The logic process's private state: `g_state`, `g_last_recv_us` and the locals
of `nsr_logic_run`. -/
structure Logic where
  hops : ℕ → HopInfo
  lastRecvUs : ℕ → UInt64
  startTimeUs : UInt64
  intervalMs : UInt32
  currentTtl : UInt8
  currentSeq : UInt16
  lastProbeUs : UInt64
  /-- The static `last_tui_us`. -/
  lastTuiUs : UInt64
  pc : LogicPc
  /-- The observations `update_state` was called with (history, read by no code). -/
  applied : List Observation

namespace Logic

/-- A logic process just started, its telemetry zeroed. -/
def start (startTimeUs : UInt64) : Logic where
  hops := fun _ => .zero
  lastRecvUs := fun _ => 0
  startTimeUs := startTimeUs
  intervalMs := 0
  currentTtl := 1
  currentSeq := 0
  lastProbeUs := 0
  lastTuiUs := 0
  pc := .top
  applied := []

/-- `compute_integrity_fast`. -/
def computeIntegrityFast (ttl : UInt8) (seq : UInt16) : UInt64 :=
  ttl.toUInt64 <<< 16 ||| seq.toUInt64

/-- `sweep_timeouts` on one hop. -/
def sweepHop (l : Logic) (nowUs : UInt64) (i : ℕ) : HopInfo :=
  let h := l.hops i
  if h.sent = 0 then h
  else if h.lastStatus = .reply ∨ h.lastStatus = .unreach then h
  else
    let lastActivity := if l.lastRecvUs i = 0 then l.startTimeUs else l.lastRecvUs i
    -- 1.5 s timeout window
    if nowUs - lastActivity > 1500000 then { h with lastStatus := .timeout } else h

/-- `sweep_timeouts`: hops `1` to `NSR_MAX_HOPS - 1`. -/
def sweepTimeouts (l : Logic) (nowUs : UInt64) : Logic :=
  { l with hops := fun i => if 1 ≤ i ∧ i < maxHops then l.sweepHop nowUs i else l.hops i }

/-- The body of the generation loop: the next intent, counted as sent. -/
def nextIntent (l : Logic) (origin : ℕ) (now : UInt64) : Intent × Logic :=
  (⟨l.currentTtl, l.currentSeq, 0, now, computeIntegrityFast l.currentTtl l.currentSeq, origin⟩,
    { l with
        hops := Function.update l.hops l.currentTtl.toNat
          { l.hops l.currentTtl.toNat with sent := (l.hops l.currentTtl.toNat).sent + 1 }
        currentSeq := l.currentSeq + 1
        currentTtl := if l.currentTtl + 1 > 30 then 1 else l.currentTtl + 1 })

/-- `update_state`, with the text `addr_bin_to_str` makes of an address as
`addrBinToStr` and the clock reading it takes as `now`. -/
def updateState (addrBinToStr : List UInt8 → Bool → List UInt8) (l : Logic) (now : UInt64)
    (obs : Observation) : Logic :=
  let l := { l with applied := l.applied ++ [obs] }
  let ttl := obs.ttl.toNat
  if ttl ≥ maxHops ∨ ttl = 0 then l
  else
    let h := l.hops ttl
    if obs.type = .reply ∨ obs.type = .exceeded ∨ obs.type = .unreach then
      let h' := { h with recv := h.recv + 1, rttUs := obs.rttUs, lastStatus := obs.type }
      { l with
          hops := Function.update l.hops ttl
            (h'.addOrUpdateAlias (addrBinToStr obs.addrBin obs.isV6))
          lastRecvUs := Function.update l.lastRecvUs ttl now }
    else if obs.type = .timeout then
      { l with hops := Function.update l.hops ttl { h with lastStatus := .timeout } }
    else l

/-- Intents generated and not yet pushed. -/
def unpushed (l : Logic) : List Intent :=
  match l.pc with
  | .generate _ _ intents => intents
  | .push _ intents => intents
  | _ => []

/-- Observations popped and not yet applied. -/
def unapplied (l : Logic) : List Observation :=
  match l.pc with
  | .apply _ obs => obs
  | _ => []

/-! ## What the counters do -/

@[simp] theorem sweepHop_sent (l : Logic) (nowUs : UInt64) (i : ℕ) :
    (l.sweepHop nowUs i).sent = (l.hops i).sent := by
  unfold sweepHop
  dsimp only
  split_ifs
  all_goals rfl

@[simp] theorem sweepHop_recv (l : Logic) (nowUs : UInt64) (i : ℕ) :
    (l.sweepHop nowUs i).recv = (l.hops i).recv := by
  unfold sweepHop
  dsimp only
  split_ifs
  all_goals rfl

@[simp] theorem sweepTimeouts_sent (l : Logic) (nowUs : UInt64) (i : ℕ) :
    ((l.sweepTimeouts nowUs).hops i).sent = (l.hops i).sent := by
  simp only [sweepTimeouts]
  split_ifs
  · exact sweepHop_sent l nowUs i
  · rfl

@[simp] theorem sweepTimeouts_recv (l : Logic) (nowUs : UInt64) (i : ℕ) :
    ((l.sweepTimeouts nowUs).hops i).recv = (l.hops i).recv := by
  simp only [sweepTimeouts]
  split_ifs
  · exact sweepHop_recv l nowUs i
  · rfl

/-- Generating an intent counts it for its own hop and for no other. -/
theorem nextIntent_sent (l : Logic) (origin : ℕ) (now : UInt64) (ttl : UInt8) :
    ((l.nextIntent origin now).2.hops ttl.toNat).sent =
      (l.hops ttl.toNat).sent + if l.currentTtl = ttl then 1 else 0 := by
  by_cases h : l.currentTtl = ttl
  · subst h
    rw [if_pos rfl]
    simp only [nextIntent, Function.update_self]
  · have hne : ttl.toNat ≠ l.currentTtl.toNat := fun hcon => h (UInt8.toNat_inj.mp hcon.symm)
    rw [if_neg h]
    simp only [nextIntent, Function.update_of_ne hne, Nat.add_zero]

/-- No probe is taken back. -/
theorem le_nextIntent_sent (l : Logic) (origin : ℕ) (now : UInt64) (i : ℕ) :
    (l.hops i).sent ≤ ((l.nextIntent origin now).2.hops i).sent := by
  simp only [nextIntent]
  by_cases h : i = l.currentTtl.toNat
  · subst h
    rw [Function.update_self]
    exact Nat.le_succ _
  · simp only [Function.update_of_ne h, Nat.le_refl]

@[simp] theorem nextIntent_recv (l : Logic) (origin : ℕ) (now : UInt64) (i : ℕ) :
    ((l.nextIntent origin now).2.hops i).recv = (l.hops i).recv := by
  simp only [nextIntent]
  by_cases h : i = l.currentTtl.toNat
  · subst h
    rw [Function.update_self]
  · rw [Function.update_of_ne h]

variable (addrBinToStr : List UInt8 → Bool → List UInt8)

@[simp] theorem updateState_sent (l : Logic) (now : UInt64) (obs : Observation) (i : ℕ) :
    ((l.updateState addrBinToStr now obs).hops i).sent = (l.hops i).sent := by
  simp only [updateState]
  by_cases h : i = obs.ttl.toNat
  · subst h
    split_ifs
    all_goals simp
  · split_ifs
    all_goals simp [Function.update_of_ne h]

/-- An observation is counted at most once, and for its own hop. -/
theorem updateState_recv_le (l : Logic) (now : UInt64) (obs : Observation) (ttl : UInt8) :
    ((l.updateState addrBinToStr now obs).hops ttl.toNat).recv ≤
      (l.hops ttl.toNat).recv + if obs.ttl = ttl then 1 else 0 := by
  simp only [updateState]
  by_cases h : obs.ttl = ttl
  · subst h
    rw [if_pos rfl]
    split_ifs
    all_goals simp
  · have hne : ttl.toNat ≠ obs.ttl.toNat := fun hcon => h (UInt8.toNat_inj.mp hcon.symm)
    rw [if_neg h]
    split_ifs
    all_goals simp [Function.update_of_ne hne]

/-- No observation takes an answer back. -/
theorem le_updateState_recv (l : Logic) (now : UInt64) (obs : Observation) (i : ℕ) :
    (l.hops i).recv ≤ ((l.updateState addrBinToStr now obs).hops i).recv := by
  simp only [updateState]
  by_cases h : i = obs.ttl.toNat
  · subst h
    split_ifs
    all_goals simp
  · split_ifs
    all_goals simp [Function.update_of_ne h]

@[simp] theorem updateState_applied (l : Logic) (now : UInt64) (obs : Observation) :
    (l.updateState addrBinToStr now obs).applied = l.applied ++ [obs] := by
  simp only [updateState]
  split_ifs
  all_goals rfl

end Logic
end Nsr
