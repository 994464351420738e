import Nsr.Topology.Store
import Mathlib.Algebra.Order.Ring.Abs
import Mathlib.Algebra.Order.Field.Rat
import Mathlib.Tactic.Linarith

/-!
# The jitter of a node

`update_node_health` (`src/state/topology.c`) keeps a moving average of how much the round-trip time
of a node changes from one answer to the next.  It stores the new time in both of its fields,
`rtt_us` and `last_rtt_us`, and only then takes the difference of the two.

Floating-point numbers are opaque to a proof, so the function is written over any arithmetic that
has the operations it uses: `update` over `float32` is the function of the store, and over `exact`
it is the one with exact rational numbers.

* `Arith`, `update`, `update_float32`: the function over an arithmetic, and what it is over `float`.
* `update_jitter`: exactly, an answer that is counted leaves four fifths of the jitter.
* `jitter_recurrence_iff`: so the moving average is the one of the differences if and only if there
  are none.
-/

namespace Nsr
namespace Health

/-- **The arithmetic of `update_node_health`.** -/
structure Arith (F : Type) where
  ofUInt64 : UInt64 → F
  ofUInt32 : UInt32 → F
  add : F → F → F
  sub : F → F → F
  mul : F → F → F
  div : F → F → F
  abs : F → F
  /-- `1.0f` -/
  one : F
  /-- `0.8f` -/
  keep : F
  /-- `0.2f` -/
  gain : F

/-- `float`, where conversions and operations round. -/
def float32 : Arith Float32 where
  ofUInt64 := UInt64.toFloat32
  ofUInt32 := UInt32.toFloat32
  add := (· + ·)
  sub := (· - ·)
  mul := (· * ·)
  div := (· / ·)
  abs := Float32.abs
  one := 1
  keep := 0.8
  gain := 0.2

/-- Exact rational arithmetic. -/
def exact : Arith ℚ where
  ofUInt64 := fun x => x.toNat
  ofUInt32 := fun x => x.toNat
  add := (· + ·)
  sub := (· - ·)
  mul := (· * ·)
  div := (· / ·)
  abs := fun x => |x|
  one := 1
  keep := 4 / 5
  gain := 1 / 5

/-- `nsr_node_health_t` over an arithmetic. -/
structure Record (F : Type) where
  lossRate : F
  rttUs : F
  jitterUs : F
  instability : F
  routeChanges : UInt32
  sent : UInt32
  recv : UInt32
  timeouts : UInt32
  lastRttUs : UInt64
  lastUpdateUs : UInt64

/-- The arguments of a call: `h->rtt_us`, `h->sent`, `specific_recv`, and the clock it reads. -/
structure Sample where
  rttUs : UInt64
  sent : UInt32
  recv : UInt32
  now : UInt64

section Update

variable {F : Type} (A : Arith F)

/-- **`update_node_health`** over an arithmetic. -/
def update (health : Record F) (s : Sample) : Record F :=
  let prevRecv := health.recv
  let health := { health with
    rttUs := A.ofUInt64 s.rttUs
    lastRttUs := s.rttUs
    sent := s.sent
    recv := s.recv
    timeouts := if s.sent > s.recv then s.sent - s.recv else 0
    lossRate :=
      if s.sent > 0 then A.sub A.one (A.div (A.ofUInt32 s.recv) (A.ofUInt32 s.sent))
      else health.lossRate }
  let health :=
    if prevRecv ≠ s.recv ∧ s.recv > 0 then
      let delta := A.abs (A.sub (A.ofUInt64 health.lastRttUs) health.rttUs)
      { health with jitterUs := A.add (A.mul health.jitterUs A.keep) (A.mul delta A.gain) }
    else health
  { health with lastUpdateUs := s.now }

/-- A history of calls on a node. -/
def history (health : Record F) (samples : List Sample) : Record F :=
  samples.foldl (update A) health

end Update

/-- The record of the store. -/
def ofNodeHealth (h : NodeHealth) : Record Float32 :=
  ⟨h.lossRate, h.rttUs, h.jitterUs, h.instability, h.routeChanges, h.sent, h.recv, h.timeouts,
    h.lastRttUs, h.lastUpdateUs⟩

/-- **Over `float` it is the function of the store.** -/
theorem update_float32 (node : TopologyNode) (h : HopInfo) (specificRecv : ℕ) (now : UInt64) :
    ofNodeHealth (Topology.updateNodeHealth node h specificRecv now).health =
      update float32 (ofNodeHealth node.health)
        ⟨h.rttUs, UInt32.ofNat h.sent, UInt32.ofNat specificRecv, now⟩ := by
  unfold Topology.updateNodeHealth update
  dsimp only [ofNodeHealth]
  split
  · rfl
  · rfl

/-! ## Exactly -/

section Exact

variable (health : Record ℚ) (s : Sample)

@[simp] theorem update_recv : (update exact health s).recv = s.recv := by
  unfold update
  dsimp only
  split
  · rfl
  · rfl

@[simp] theorem update_lastRttUs : (update exact health s).lastRttUs = s.rttUs := by
  unfold update
  dsimp only
  split
  · rfl
  · rfl

/-- **An answer that is counted leaves four fifths of the jitter**: the two times that are compared
are one and the same. -/
theorem update_jitter (hrecv : health.recv ≠ s.recv) (hpos : 0 < s.recv) :
    (update exact health s).jitterUs = 4 / 5 * health.jitterUs := by
  have hcounted : health.recv ≠ s.recv ∧ s.recv > 0 := ⟨hrecv, hpos⟩
  unfold update
  dsimp only
  rw [if_pos hcounted]
  show health.jitterUs * (4 / 5) + |(s.rttUs.toNat : ℚ) - s.rttUs.toNat| * (1 / 5) = _
  rw [sub_self, abs_zero, zero_mul, add_zero, mul_comm]

end Exact

/-- The record before call `k` of a history, counted from `0`. -/
def before (health : Record ℚ) (samples : List Sample) (k : ℕ) : Record ℚ :=
  history exact health (samples.take k)

theorem before_succ (health : Record ℚ) {samples : List Sample} {k : ℕ} {s : Sample}
    (hs : samples[k]? = some s) :
    before health samples (k + 1) = update exact (before health samples k) s := by
  rw [before, List.take_add_one, hs, history, List.foldl_append]
  rfl

/-- **The jitter is the moving average of the differences**: from the second call on it is 0.8 times
what it was plus 0.2 times the difference to the time stored by the call before; and it is positive
once two times in a row differ. -/
structure Averages (health : Record ℚ) (samples : List Sample) : Prop where
  recurrence : ∀ k s, 1 ≤ k → samples[k]? = some s →
    (before health samples (k + 1)).jitterUs = 4 / 5 * (before health samples k).jitterUs +
      1 / 5 * |(s.rttUs.toNat : ℚ) - ((before health samples k).lastRttUs.toNat : ℚ)|
  positive : ∀ k s s', samples[k]? = some s → samples[k + 1]? = some s' → s.rttUs ≠ s'.rttUs →
    0 < (before health samples (k + 2)).jitterUs

section History

variable {health : Record ℚ} {samples : List Sample}
  (hrecv : samples.Pairwise fun s s' => s.recv < s'.recv) (hpos : ∀ s ∈ samples, 0 < s.recv)

include hrecv hpos

variable (health) in
/-- What a call after the first one does. -/
theorem step_after_first {k : ℕ} {s s' : Sample} (hs : samples[k]? = some s)
    (hs' : samples[k + 1]? = some s') :
    (before health samples (k + 1)).lastRttUs = s.rttUs ∧
      (before health samples (k + 2)).jitterUs =
        4 / 5 * (before health samples (k + 1)).jitterUs := by
  obtain ⟨hk, rfl⟩ := List.getElem?_eq_some_iff.mp hs
  obtain ⟨hk', rfl⟩ := List.getElem?_eq_some_iff.mp hs'
  have hlt := List.pairwise_iff_getElem.mp hrecv k (k + 1) hk hk' (Nat.lt_succ_self k)
  have hprev : (before health samples (k + 1)).recv = samples[k].recv := by
    rw [before_succ health hs, update_recv]
  refine ⟨by rw [before_succ health hs, update_lastRttUs], ?_⟩
  rw [before_succ health hs']
  refine update_jitter _ _ ?_ (hpos _ (List.getElem_mem hk'))
  rw [hprev]
  exact UInt32.ne_of_lt hlt

variable (health) in
/-- The recurrence at a call says that its time is the one of the call before. -/
theorem recurrence_iff {k : ℕ} {s s' : Sample} (hs : samples[k]? = some s)
    (hs' : samples[k + 1]? = some s') :
    (before health samples (k + 2)).jitterUs =
        4 / 5 * (before health samples (k + 1)).jitterUs +
          1 / 5 * |(s'.rttUs.toNat : ℚ) - ((before health samples (k + 1)).lastRttUs.toNat : ℚ)| ↔
      s.rttUs = s'.rttUs := by
  obtain ⟨hlast, hjitter⟩ := step_after_first health hrecv hpos hs hs'
  rw [hlast, hjitter]
  constructor
  · intro heq
    have habs : |(s'.rttUs.toNat : ℚ) - s.rttUs.toNat| = 0 := by linarith
    have hcast : (s'.rttUs.toNat : ℚ) = s.rttUs.toNat := sub_eq_zero.mp (abs_eq_zero.mp habs)
    exact UInt64.toNat_inj.mp (Nat.cast_injective hcast).symm
  · rintro heq
    rw [heq, sub_self, abs_zero, mul_zero, add_zero]

/-- **The moving average.**  On any node, over any history of calls whose counts of answers are
positive and grow, the jitter is the moving average of the differences, if and only if all calls
bring the same round-trip time. -/
theorem jitter_recurrence_iff :
    Averages health samples ↔ samples.Pairwise fun s s' => s.rttUs = s'.rttUs := by
  constructor
  · intro h
    rw [List.pairwise_iff_getElem]
    -- from each time to the next one, by the recurrence
    intro i j hi hj hij
    induction j, hij using Nat.le_induction with
    | base =>
      refine (recurrence_iff health hrecv hpos (List.getElem?_eq_getElem hi)
        (List.getElem?_eq_getElem hj)).mp ?_
      exact h.recurrence (i + 1) _ (Nat.succ_pos i) (List.getElem?_eq_getElem hj)
    | succ j hij ih =>
      refine (ih (by omega)).trans ?_
      refine (recurrence_iff health hrecv hpos
        (List.getElem?_eq_getElem (show j < samples.length by omega))
        (List.getElem?_eq_getElem hj)).mp ?_
      exact h.recurrence (j + 1) _ (Nat.succ_pos j) (List.getElem?_eq_getElem hj)
  · intro hsame
    have hnext : ∀ k s s', samples[k]? = some s → samples[k + 1]? = some s' →
        s.rttUs = s'.rttUs := by
      intro k s s' hs hs'
      obtain ⟨hk, rfl⟩ := List.getElem?_eq_some_iff.mp hs
      obtain ⟨hk', rfl⟩ := List.getElem?_eq_some_iff.mp hs'
      exact List.pairwise_iff_getElem.mp hsame k (k + 1) hk hk' (Nat.lt_succ_self k)
    constructor
    · intro k s hk hs
      obtain ⟨k, rfl⟩ := Nat.exists_eq_add_of_le' hk
      obtain ⟨hlt, -⟩ := List.getElem?_eq_some_iff.mp hs
      have hs' := List.getElem?_eq_getElem (show k < samples.length by omega)
      exact (recurrence_iff health hrecv hpos hs' hs).mpr (hnext k _ _ hs' hs)
    · intro k s s' hs hs' hne
      exact absurd (hnext k s s' hs hs') hne

end History

/-- A zeroed record. -/
def Record.zero : Record ℚ := ⟨0, 0, 0, 0, 0, 0, 0, 0, 0, 0⟩

/-- Two answers after the same time have no jitter. -/
theorem jitter_recurrence_iff_steady :
    Averages .zero [⟨100, 1, 1, 0⟩, ⟨100, 2, 2, 0⟩] := by
  refine (jitter_recurrence_iff ?_ ?_).mpr ?_
  · exact List.pairwise_pair.mpr (by decide)
  · decide
  · exact List.pairwise_pair.mpr rfl

/-- **Answers after 100 and 200 microseconds have no jitter either.** -/
theorem jitter_of_change_lost :
    (1 : UInt32) < 2 ∧ (0 : UInt32) < 1 ∧
      (before .zero [⟨100, 1, 1, 0⟩, ⟨200, 2, 2, 0⟩] 2).jitterUs = 0 ∧
      ¬Averages .zero [⟨100, 1, 1, 0⟩, ⟨200, 2, 2, 0⟩] := by
  have hzero : (before .zero [⟨100, 1, 1, 0⟩, ⟨200, 2, 2, 0⟩] 2).jitterUs = 0 := by
    decide +kernel
  refine ⟨by decide, by decide, hzero, fun h => ?_⟩
  have hpos := h.positive 0 _ _ rfl rfl (by decide)
  rw [hzero] at hpos
  exact lt_irrefl 0 hpos

end Health
end Nsr
