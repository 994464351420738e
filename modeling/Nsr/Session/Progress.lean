import Nsr.Session.Accounting

/-!
# The two processes never wait for each other

Each process pushes in a loop that ends only when there is room, and the other
process makes room only outside its own such loop.  So the danger is the state in
which the logic process spins on a full `l2g` while the gatekeeper spins on a
`g2l` without room for its observations: from it there is no way out.

It is not reachable, and the reason is a count.  Before a burst the logic process
has seen `g2l` empty.  What can arrive there until the burst is pushed must come
from probes the gatekeeper already held at that moment --- at most `65536` in the
table and two batches in its hands --- or from intents it popped since; and an
intent popped is an intent no longer in `l2g`.  So the probes on the road are
bounded, `l2g` included, and two full rings are more than the bound.
-/

namespace Nsr
namespace Session

open ShmRing Transition

/-- The logic process is in its push loop, and `l2g` has no room for an intent. -/
def LogicSpins (s : Session) : Prop :=
  ∃ now i rest, s.logic.pc = .push now (i :: rest) ∧
    refuses s.l2g.ring.head s.l2g.ring.tail 1 = true

/-- The gatekeeper is in its push loop, and `g2l` has no room for its batch. -/
def GkSpins (s : Session) : Prop :=
  ∃ obs, s.gk.pc = .pushObs obs ∧ refuses s.g2l.ring.head s.g2l.ring.tail obs.length = true

/-- Every probe on the road, whatever its `ttl` and origin. -/
noncomputable def onRoad (s : Session) : ℕ := s.road fun _ _ => true

/-- The bound: a full `l2g`, a full table, two batches in the gatekeeper's hands and
one burst. -/
def roadBound : ℕ := 131070 + 65536 + 2 * 1024 + 64

/-- What is on the road, and what the logic process may still put there before it
next sees `g2l` empty, stays within the bound. -/
def Budgeted (s : Session) : Prop := s.onRoad + s.logic.credit ≤ roadBound

theorem onRoad_eq (s : Session) :
    s.onRoad = s.l2g.ring.published.length +
      (s.gk.untracked.length + s.gk.inflight.activeSat (fun _ _ => true) + s.gk.unpushed.length) +
      s.g2l.ring.published.length := by
  rw [onRoad, road, Gatekeeper.load, Intent.count_true, Intent.count_true, Observation.count_true,
    Observation.count_true]

/-- With `g2l` empty, the road holds no more than the rest of the places can. -/
theorem Inv.onRoad_le {s : Session} (h : s.Inv) (hempty : s.g2l.ring.published = []) :
    s.onRoad + 64 ≤ roadBound := by
  have hl2g := h.l2g.length_published_le
  have htable := s.gk.inflight.activeSat_le fun _ _ => true
  have huntracked := h.gkBounded.untracked_le
  have hunpushed := h.gkBounded.unpushed_le
  rw [onRoad_eq, hempty, List.length_nil, roadBound]
  omega

theorem init_budgeted (us : UInt64) (id : UInt16) (isV6 : Bool) : (init us id isV6).Budgeted := by
  rw [Budgeted, onRoad, init_road]
  show 0 + 64 ≤ roadBound
  decide

/-- **Every effect keeps the bound.**  Finding `g2l` empty is what restores the
credit of a burst. -/
theorem Effect.budgeted {s t : Session} (h : Effect s t) (ht : t.Inv) (hs : s.Budgeted) :
    t.Budgeted := by
  unfold Budgeted onRoad at hs ⊢
  cases h with
  | quiet hcount hunpushed hunapplied hcredit hroad =>
    have := hroad fun _ _ => true
    omega
  | drained hcount hunpushed hunapplied hempty hcredit hroad =>
    rw [hcredit]
    exact ht.onRoad_le hempty
  | generated i horigin hsent hrecv happlied hunpushed hunapplied hcredit hroad =>
    rw [hroad, hcredit]
    exact hs
  | pushed i hcount hunpushed hunapplied hcredit hroad =>
    rw [hcredit] at hs
    rw [hroad, if_pos rfl]
    omega
  | popped hcount hunpushed hunapplied hcredit hroad =>
    have := hroad fun _ _ => true
    omega
  | applied o hsent hrecv happlied hunpushed hunapplied hcredit hroad =>
    rw [hroad, hcredit]
    exact hs

variable (addrBinToStr : List UInt8 → Bool → List UInt8)

theorem reachable_budgeted {us : UInt64} {id : UInt16} {isV6 : Bool} {s : Session}
    (hs : Reachable (StepNoCrash addrBinToStr) (init us id isV6) s) : s.Inv ∧ s.Budgeted := by
  refine hs.invariant (P := fun s => s.Inv ∧ s.Budgeted)
    ⟨init_inv us id isV6, init_budgeted us id isV6⟩ ?_
  rintro s t - ⟨hinv, hbudget⟩ ⟨a, ha, hact⟩
  obtain ⟨hinv', heff⟩ :=
    act_spec addrBinToStr hinv (Action.isLogicCrash_of_not_isCrash ha) hact
  exact ⟨hinv', heff.budgeted hinv' hbudget⟩

/-- **No deadlock.**  In no run of a session without crashes does the logic process
spin on a full `l2g` while the gatekeeper spins on a `g2l` too full for its
observations. -/
theorem never_both_spin {us : UInt64} {id : UInt16} {isV6 : Bool} {s : Session}
    (hs : Reachable (StepNoCrash addrBinToStr) (init us id isV6) s) :
    ¬ (s.LogicSpins ∧ s.GkSpins) := by
  obtain ⟨hinv, hbudget⟩ := reachable_budgeted addrBinToStr hs
  rintro ⟨⟨now, i, rest, -, hl2g⟩, ⟨obs, hpc, hg2l⟩⟩
  have hunpushed : s.gk.unpushed = obs := by simp [Gatekeeper.unpushed, hpc]
  have hobs := hinv.gkBounded.unpushed_le
  rw [hunpushed] at hobs
  have hfull1 := (hinv.l2g.refuses_iff (by decide)).mp hl2g
  have hfull2 := (hinv.g2l.refuses_iff hobs).mp hg2l
  rw [Budgeted, onRoad_eq, hunpushed, roadBound] at hbudget
  omega

/-- A run that brings the logic process into its push loop and the gatekeeper into
its own, each with one item. -/
theorem never_both_spin_one_probe :
    ∃ s : Session, (s.logic.unpushed.length, s.gk.unpushed.length) = (1, 1) ∧
      ¬ (s.LogicSpins ∧ s.GkSpins) := by
  have hrun : ((exec (act fun addrBin _ => inetNtop4 addrBin)
      (List.flatten
        [.logicTop 1000000 100 false 2 :: List.replicate 8 (.logic 0),
          List.replicate 8 (.gk 1000000),
          [.gkSend 1, .gk 0, .gkRecv 1000000
            [⟨0x45 :: (List.replicate 24 0 ++ [7, 0, 0]), [8, 8, 8, 8]⟩], .gk 0, .gk 0]])
      (init 0 7 false)).map
      fun s => (s.logic.unpushed.length, s.gk.unpushed.length)) = some (1, 1) := by
    decide +kernel
  obtain ⟨s, hs, hobs⟩ := Reachable.exists_of_exec
    (StepNoCrash fun addrBin _ => inetNtop4 addrBin) hrun
    fun a ha s t hact => ⟨a, by revert a; simp [Action.isCrash], hact⟩
  exact ⟨s, hobs, never_both_spin _ hs⟩

end Session
end Nsr
