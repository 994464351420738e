import Nsr.Session.Accounting

/-!
# No answer without a probe

For every hop, the probes counted as sent cover everything that was made from
them: the answers counted as received, and whatever is still on its way there or
back.  Probes get lost in many ways --- a sequence number comes round and its
entry is overwritten, a send falls short, an entry is reaped, the gatekeeper dies
with its table --- and none of these can make one.

The law is an inequality between a counter and a sum over places.  An action
moves the sum in one of six ways (`Session.Effect`), and the two that raise it are
the two that raise the counter with it: generating an intent raises `sent`, and
applying an observation raises `recv` by no more than it takes off the places.
-/

namespace Nsr
namespace Session

open Transition

/-- Looking at the `ttl` of a probe only. -/
def byTtl (ttl : UInt8) : UInt8 → ℕ → Bool := fun t _ => t == ttl

/-- The probes for `ttl` in all the places there are. -/
noncomputable def pending (s : Session) (ttl : UInt8) : ℕ :=
  Intent.count (byTtl ttl) s.logic.unpushed + s.road (byTtl ttl) +
    Observation.count (byTtl ttl) s.logic.unapplied

/-- The law: what was sent covers what was received and what is pending. -/
def Conserved (s : Session) : Prop :=
  ∀ ttl : UInt8, (s.logic.hops ttl.toNat).recv + s.pending ttl ≤ (s.logic.hops ttl.toNat).sent

theorem init_conserved (us : UInt64) (id : UInt16) (isV6 : Bool) :
    (init us id isV6).Conserved := by
  intro ttl
  rw [pending, init_road]
  simp [init, Logic.start, Logic.unpushed, Logic.unapplied, HopInfo.zero]

/-- **Every effect keeps the law.** -/
theorem Effect.conserved {s t : Session} (h : Effect s t) (hs : s.Conserved) : t.Conserved := by
  intro ttl
  have hc := hs ttl
  unfold pending at hc ⊢
  cases h with
  | quiet hcount hunpushed hunapplied hcredit hroad =>
    have := hroad (byTtl ttl)
    rw [hcount.sent, hcount.recv, hunpushed, hunapplied]
    omega
  | drained hcount hunpushed hunapplied hempty hcredit hroad =>
    have := hroad (byTtl ttl)
    rw [hcount.sent, hcount.recv, hunpushed, hunapplied, Intent.count_nil, Observation.count_nil]
    omega
  | generated i horigin hsent hrecv happlied hunpushed hunapplied hcredit hroad =>
    rw [hsent, hrecv, hunpushed, hunapplied, hroad, Intent.count_append, Intent.count_cons,
      Intent.count_nil]
    simp only [byTtl, beq_iff_eq] at hc ⊢
    omega
  | pushed i hcount hunpushed hunapplied hcredit hroad =>
    rw [hunpushed, Intent.count_cons] at hc
    rw [hcount.sent, hcount.recv, hunapplied, hroad]
    omega
  | popped hcount hunpushed hunapplied hcredit hroad =>
    have := hroad (byTtl ttl)
    rw [hunapplied, Observation.count_nil] at hc
    rw [hcount.sent, hcount.recv, hunpushed]
    omega
  | applied o hsent hrecv happlied hunpushed hunapplied hcredit hroad =>
    have := hrecv ttl
    rw [hunapplied, Observation.count_cons] at hc
    rw [hsent, hunpushed, hroad]
    simp only [byTtl, beq_iff_eq] at hc ⊢
    omega

variable (addrBinToStr : List UInt8 → Bool → List UInt8)

/-- The invariant and the law hold in every state of a session whose logic process
does not crash. -/
theorem reachable_conserved {us : UInt64} {id : UInt16} {isV6 : Bool} {s : Session}
    (hs : Reachable (StepGkCrash addrBinToStr) (init us id isV6) s) : s.Inv ∧ s.Conserved := by
  refine hs.invariant (P := fun s => s.Inv ∧ s.Conserved)
    ⟨init_inv us id isV6, init_conserved us id isV6⟩ ?_
  rintro s t - ⟨hinv, hcons⟩ ⟨a, ha, hact⟩
  obtain ⟨hinv', heff⟩ := act_spec addrBinToStr hinv ha hact
  exact ⟨hinv', heff.conserved hcons⟩

/-- **Sent covers everything.**  In every run of a session without a crash of the
logic process --- any bursts, any packets, any results of `sendmmsg`, any crashes
of the gatekeeper --- and for every hop, the probes sent are at least the answers
received, plus the observations in `g2l` and in the gatekeeper, plus the active
entries of the table, plus the intents in `l2g` and in the gatekeeper that are not
tracked yet.  In particular no more answers are counted than probes. -/
theorem sent_covers_pipeline {us : UInt64} {id : UInt16} {isV6 : Bool} {s : Session}
    (hs : Reachable (StepGkCrash addrBinToStr) (init us id isV6) s) (ttl : UInt8) :
    (s.logic.hops ttl.toNat).recv +
        (s.g2l.ring.published.countP (fun o => o.ttl == ttl) +
          s.gk.unpushed.countP (fun o => o.ttl == ttl)) +
        s.gk.inflight.activeTtl ttl +
        (s.l2g.ring.published.countP (fun i => i.ttl == ttl) +
          s.gk.untracked.countP (fun i => i.ttl == ttl)) ≤
      (s.logic.hops ttl.toNat).sent ∧
    (s.logic.hops ttl.toNat).recv ≤ (s.logic.hops ttl.toNat).sent := by
  have hc := (reachable_conserved addrBinToStr hs).2 ttl
  have hactive := InflightTable.activeTtl_le_activeSat s.gk.inflight ttl
  unfold pending road Gatekeeper.load Intent.count Observation.count byTtl at hc
  exact ⟨by omega, by omega⟩

/-- A run in which a probe is on the road: a burst of one, pushed, with a crash of
the gatekeeper on the way. -/
theorem sent_covers_pipeline_one_probe :
    ∃ s : Session, ((s.logic.hops 1).sent, s.l2g.ring.published.length) = (1, 1) ∧
      (s.logic.hops 1).recv ≤ (s.logic.hops 1).sent := by
  have hrun : ((exec (act fun addrBin _ => inetNtop4 addrBin)
      [.logicTop 1000000 100 false 1, .logic 0, .logic 0, .logic 0, .gk 0, .logic 0, .gkCrash 9,
        .logic 0, .logic 0, .logic 0] (init 0 7 false)).map
      fun s => ((s.logic.hops 1).sent, s.l2g.ring.published.length)) = some (1, 1) := by
    decide +kernel
  obtain ⟨s, hs, hobs⟩ := Reachable.exists_of_exec
    (StepGkCrash fun addrBin _ => inetNtop4 addrBin) hrun
    fun a ha s t hact => ⟨a, by revert a; simp [Action.isLogicCrash], hact⟩
  exact ⟨s, hobs, (sent_covers_pipeline _ hs 1).2⟩

end Session
end Nsr
