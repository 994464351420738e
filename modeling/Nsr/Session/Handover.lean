import Nsr.Lib.Reachable
import Nsr.Ring.LargeRing
import Nsr.Session.Snapshot
import Nsr.Session.System

/-!
# The hand-over of the telemetry

Every 16666 microseconds or so the logic process pushes a copy of `g_state` onto the ring `l2t`, and
does not look at what the push returns; `main` pops when it comes round to it, and keeps the last
snapshot.  The system here is a session whose logic process is not restarted, the ring `l2t` with
the accesses of both sides to it, and the history of the snapshots that were accepted.

What `g_state` looks like in memory is left open: `bytes` is any encoding of a snapshot in `size`
cells, as many as fit a slot.

* `CountersLe`, `Session.act_logic`: an action leaves the logic process alone, or is its own, and
  then no counter of a hop gets smaller.
* `Inv`: the invariant of the system.  A push in progress is a push of `g_state` as it still is.
* `telemetry_handover`: what `main` obtains.
-/

namespace Nsr

open Transition

/-- No counter of a hop is smaller in the second table. -/
def CountersLe (hops hops' : ℕ → HopInfo) : Prop :=
  ∀ i, (hops i).sent ≤ (hops' i).sent ∧ (hops i).recv ≤ (hops' i).recv

theorem CountersLe.refl (hops : ℕ → HopInfo) : CountersLe hops hops :=
  fun _ => ⟨le_rfl, le_rfl⟩

theorem CountersLe.trans {hops hops' hops'' : ℕ → HopInfo} (h : CountersLe hops hops')
    (h' : CountersLe hops' hops'') : CountersLe hops hops'' := fun i =>
  ⟨(h i).1.trans (h' i).1, (h i).2.trans (h' i).2⟩

/-! ## What a session does to its counters -/

namespace Session

variable {s t : Session}

/-- The top of the loop sweeps, and goes on elsewhere. -/
theorem actLogicTop_swept {now : UInt64} {intervalMs : UInt32} {paused : Bool} {burst : ℕ}
    (hact : s.actLogicTop now intervalMs paused burst = some t) :
    s.logic.pc = .top ∧ ∃ pc, t.logic =
      { ({ s.logic with intervalMs := intervalMs }.sweepTimeouts now) with pc := pc } := by
  unfold actLogicTop at hact
  split at hact
  · next hpc =>
    refine ⟨hpc, ?_⟩
    dsimp only at hact
    split at hact
    · split at hact
      · obtain rfl := Option.some.inj hact
        exact ⟨_, rfl⟩
      · exact nomatch hact
    · obtain rfl := Option.some.inj hact
      exact ⟨_, rfl⟩
  · exact nomatch hact

theorem actLogicTop_grows {now : UInt64} {intervalMs : UInt32} {paused : Bool} {burst : ℕ}
    (hact : s.actLogicTop now intervalMs paused burst = some t) :
    s.logic.pc = .top ∧ CountersLe s.logic.hops t.logic.hops := by
  obtain ⟨htop, pc, hlogic⟩ := actLogicTop_swept hact
  refine ⟨htop, fun i => ?_⟩
  rw [hlogic]
  exact ⟨(Logic.sweepTimeouts_sent _ now i).ge, (Logic.sweepTimeouts_recv _ now i).ge⟩

theorem actLogicPush_logic (s : Session) (now : UInt64) (intent : Intent) (rest : List Intent) :
    ∃ pc, (s.actLogicPush now intent rest).logic = { s.logic with pc := pc } := by
  unfold actLogicPush
  split
  · exact ⟨s.logic.pc, rfl⟩
  · split
    · exact ⟨.push now rest, rfl⟩
    · exact ⟨s.logic.pc, rfl⟩

theorem actLogicDrain_logic (s : Session) (now : UInt64) :
    ∃ pc, (s.actLogicDrain now).logic = { s.logic with pc := pc } := by
  unfold actLogicDrain
  split
  · exact ⟨s.logic.pc, rfl⟩
  · split
    · exact ⟨s.logic.pc, rfl⟩
    · exact ⟨.publish now, rfl⟩
    · next obs _ _ => exact ⟨.apply now obs, rfl⟩

/-- **The logic process below the top of its loop** sends a probe, applies an observation, or does
nothing to the hops. -/
theorem actLogic_cases {addrBinToStr : List UInt8 → Bool → List UInt8} {clock : UInt64}
    (hact : s.actLogic addrBinToStr clock = some t) :
    (∃ now left intents pc, s.logic.pc = .generate now (left + 1) intents ∧
      t.logic = { (s.logic.nextIntent s.incarnation now).2 with pc := pc }) ∨
    (∃ now o rest pc, s.logic.pc = .apply now (o :: rest) ∧
      t.logic = { s.logic.updateState addrBinToStr clock o with pc := pc }) ∨
    (∀ now o rest, s.logic.pc ≠ .apply now (o :: rest)) ∧
      ∃ lastProbeUs lastTuiUs pc, t.logic =
        { s.logic with lastProbeUs := lastProbeUs, lastTuiUs := lastTuiUs, pc := pc } := by
  unfold actLogic at hact
  split at hact
  · exact nomatch hact
  · next now intents hpc =>
    obtain rfl := Option.some.inj hact
    exact .inr (.inr ⟨by simp [hpc], _, _, _, rfl⟩)
  · next now left intents hpc =>
    obtain rfl := Option.some.inj hact
    exact .inl ⟨now, left, intents, _, hpc, rfl⟩
  · next now hpc =>
    obtain rfl := Option.some.inj hact
    exact .inr (.inr ⟨by simp [hpc], _, _, _, rfl⟩)
  · next now intent rest hpc =>
    obtain rfl := Option.some.inj hact
    obtain ⟨pc, hlogic⟩ := actLogicPush_logic s now intent rest
    exact .inr (.inr ⟨by simp [hpc], _, _, pc, hlogic⟩)
  · next now hpc =>
    obtain rfl := Option.some.inj hact
    obtain ⟨pc, hlogic⟩ := actLogicDrain_logic s now
    exact .inr (.inr ⟨by simp [hpc], _, _, pc, hlogic⟩)
  · next now hpc =>
    obtain rfl := Option.some.inj hact
    exact .inr (.inr ⟨by simp [hpc], _, _, _, rfl⟩)
  · next now o rest hpc =>
    obtain rfl := Option.some.inj hact
    exact .inr (.inl ⟨now, o, rest, _, hpc, rfl⟩)
  · next now hpc =>
    obtain rfl := Option.some.inj hact
    exact .inr (.inr ⟨by simp [hpc], _, _, _, rfl⟩)

theorem actLogic_grows {addrBinToStr : List UInt8 → Bool → List UInt8} {clock : UInt64}
    (hact : s.actLogic addrBinToStr clock = some t) :
    CountersLe s.logic.hops t.logic.hops := by
  rcases actLogic_cases hact with ⟨now, left, intents, pc, -, hlogic⟩ |
    ⟨now, o, rest, pc, -, hlogic⟩ | ⟨-, lastProbeUs, lastTuiUs, pc, hlogic⟩
  · rw [hlogic]
    exact fun i => ⟨Logic.le_nextIntent_sent s.logic s.incarnation now i,
      (Logic.nextIntent_recv s.logic s.incarnation now i).ge⟩
  · rw [hlogic]
    exact fun i => ⟨(Logic.updateState_sent addrBinToStr s.logic clock o i).ge,
      Logic.le_updateState_recv addrBinToStr s.logic clock o i⟩
  · rw [hlogic]
    exact CountersLe.refl _

theorem actGkPop_logic (s : Session) : s.actGkPop.logic = s.logic := by
  unfold actGkPop
  split
  · rfl
  · split
    · rfl
    · rfl

theorem actGkPush_logic (s : Session) (obs : List Observation) :
    (s.actGkPush obs).logic = s.logic := by
  unfold actGkPush
  split
  · rfl
  · split
    · rfl
    · rfl

theorem actGk_logic {clock : UInt64} (hact : s.actGk clock = some t) : t.logic = s.logic := by
  unfold actGk at hact
  split at hact
  · obtain rfl := Option.some.inj hact
    exact actGkPop_logic s
  case h_11 obs hpc =>
    obtain rfl := Option.some.inj hact
    exact actGkPush_logic s obs
  all_goals
    first
      | (obtain rfl := Option.some.inj hact; rfl)
      | exact nomatch hact

theorem actGkSend_logic {sent : ℤ} (hact : s.actGkSend sent = some t) : t.logic = s.logic := by
  unfold actGkSend at hact
  split at hact
  · split at hact
    · obtain rfl := Option.some.inj hact
      rfl
    · exact nomatch hact
  · exact nomatch hact

theorem actGkRecv_logic {now : UInt64} {pkts : List Packet}
    (hact : s.actGkRecv now pkts = some t) : t.logic = s.logic := by
  unfold actGkRecv at hact
  split at hact
  · split at hact
    · obtain rfl := Option.some.inj hact
      rfl
    · split at hact
      · obtain rfl := Option.some.inj hact
        rfl
      · exact nomatch hact
  · exact nomatch hact

/-- **The logic process and an action.**  An action leaves the logic process alone, or is its own,
and then no counter of a hop gets smaller. -/
theorem act_logic {addrBinToStr : List UInt8 → Bool → List UInt8} {a : Action}
    (ha : a.isLogicCrash = false) (hact : act addrBinToStr a s = some t) :
    t.logic = s.logic ∨
      (s.logic.pc = .top ∨ ∃ now, a = .logic now) ∧ CountersLe s.logic.hops t.logic.hops := by
  cases a with
  | logicTop now intervalMs paused burst =>
    obtain ⟨hpc, hgrows⟩ := actLogicTop_grows hact
    exact .inr ⟨.inl hpc, hgrows⟩
  | logic now => exact .inr ⟨.inr ⟨now, rfl⟩, actLogic_grows hact⟩
  | gk now => exact .inl (actGk_logic hact)
  | gkSend sent => exact .inl (actGkSend_logic hact)
  | gkRecv now pkts => exact .inl (actGkRecv_logic hact)
  | gkCrash id =>
    obtain rfl := Option.some.inj hact
    exact .inl rfl
  | logicCrash us => exact Bool.noConfusion ha

end Session

/-! ## The system -/

/-- `g_state`; the names of the target come from the configuration. -/
def Logic.snapshot (l : Logic) (targetIp targetHost : List UInt8) : TelemetryState where
  hops := l.hops
  targetIp := targetIp
  targetHost := targetHost
  startTimeUs := l.startTimeUs
  intervalMs := l.intervalMs

/-- The logic process is at a hand-over that is due. -/
def Logic.publishing (l : Logic) : Bool :=
  match l.pc with
  | .publish now => decide (now - l.lastTuiUs > 16666)
  | _ => false

universe u

/-- A session with the ring to `main`. -/
structure Handover (β : Type u) where
  session : Session
  l2t : LargeSpsc β
  /-- The snapshots accepted so far (history, read by no code). -/
  published : List TelemetryState

namespace Handover

/-- What can happen. -/
inductive Act where
  /-- An action of the session, other than the hand-over itself. -/
  | session (a : Action)
  /-- The logic process enters `nsr_shm_ring_large_push`, or makes one access in it. -/
  | publish
  /-- `main` enters `nsr_shm_ring_large_pop`, or makes one access in it. -/
  | main

/-- What is fixed for a session: the texts of addresses, the target, and what a snapshot looks like
in memory. -/
structure Env (β : Type u) where
  addrBinToStr : List UInt8 → Bool → List UInt8
  targetIp : List UInt8
  targetHost : List UInt8
  bytes : TelemetryState → List β
  size : ℕ
  bytes_length : ∀ tel, (bytes tel).length = size
  /-- The static assertion of `telemetry.h`. -/
  fits : size ≤ ShmRingLarge.slotSize

variable {β : Type u} (env : Env β)

/-- `g_state`. -/
def state (s : Handover β) : TelemetryState := s.session.logic.snapshot env.targetIp env.targetHost

/-- The hand-over: `nsr_shm_ring_large_push(l2t, &g_state, sizeof(g_state))`, and when it has
returned, whatever it has returned, the rest of the loop. -/
def actPublish (s : Handover β) : Option (Handover β) :=
  if s.session.logic.publishing then
    match s.l2t.push with
    | none => some { s with l2t := s.l2t.callPush (env.bytes (s.state env)) }
    | some pc =>
      match s.l2t.advancePush pc with
      | (l2t, none) => some { s with l2t := l2t }
      | (l2t, some accepted) =>
        (s.session.actLogic env.addrBinToStr 0).map fun session =>
          { session := session
            l2t := l2t
            published := if accepted then s.published ++ [s.state env] else s.published }
  else none

/-- One access of `main`. -/
def actMain (s : Handover β) : Handover β :=
  match s.l2t.pop with
  | none => { s with l2t := s.l2t.callPop env.size }
  | some pc => { s with l2t := s.l2t.advancePop pc }

/-- The action is one of the logic process below the top of its loop. -/
def isLogic : Action → Bool
  | .logic _ => true
  | _ => false

/-- One action, if it is enabled.  A logic process at a hand-over that is due does nothing else. -/
def act : Act → Handover β → Option (Handover β)
  | .session a, s =>
      if a.isLogicCrash || (isLogic a && s.session.logic.publishing) then none
      else (Session.act env.addrBinToStr a s.session).map fun session =>
        { s with session := session }
  | .publish, s => s.actPublish env
  | .main, s => some (s.actMain env)

/-- A step of the system. -/
def Step (s t : Handover β) : Prop := ∃ a, act env a s = some t

/-- A session whose logic process has not run yet, on an empty ring. -/
def init (session : Session) (start : ℕ) (data : ℕ → β) : Handover β :=
  ⟨session, .init start data, []⟩

/-! ## The invariant -/

/-- **The invariant of the hand-over.** -/
structure Inv (start : ℕ) (s : Handover β) : Prop where
  ring : s.l2t.Inv start env.size
  /-- A push in progress is a push of `g_state`, which waits for it. -/
  pushing : ∀ pc, s.l2t.push = some pc →
    s.session.logic.publishing = true ∧ pc.item = env.bytes (s.state env)
  accepted : s.l2t.accepted = s.published.map env.bytes
  sorted : s.published.Pairwise fun tel tel' => CountersLe tel.hops tel'.hops
  bounded : ∀ tel ∈ s.published, CountersLe tel.hops s.session.logic.hops

variable {env}

theorem init_inv (session : Session) (start : ℕ) (data : ℕ → β) :
    (init session start data).Inv env start where
  ring := LargeSpsc.init_inv start env.size data
  pushing := by simp [init, LargeSpsc.init]
  accepted := rfl
  sorted := List.Pairwise.nil
  bounded := by simp [init]

/-- The session moves on. -/
theorem Inv.session {start : ℕ} {s : Handover β} (h : s.Inv env start) {session : Session}
    (hgrows : CountersLe s.session.logic.hops session.logic.hops)
    (hwait : ∀ pc, s.l2t.push = some pc → session.logic = s.session.logic) :
    ({ s with session := session } : Handover β).Inv env start where
  ring := h.ring
  pushing := by
    intro pc hpc
    have hpush := h.pushing pc hpc
    rw [state] at hpush ⊢
    rw [hwait pc hpc]
    exact hpush
  accepted := h.accepted
  sorted := h.sorted
  bounded := fun tel htel => (h.bounded tel htel).trans hgrows

theorem Inv.actSession {start : ℕ} {s : Handover β} (h : s.Inv env start) {a : Action}
    {session : Session} (hcrash : a.isLogicCrash = false)
    (hfree : (isLogic a && s.session.logic.publishing) = false)
    (hact : Session.act env.addrBinToStr a s.session = some session) :
    ({ s with session := session } : Handover β).Inv env start := by
  rcases Session.act_logic hcrash hact with hlogic | ⟨hown, hgrows⟩
  · refine h.session ?_ fun _ _ => hlogic
    rw [hlogic]
    exact CountersLe.refl _
  · refine h.session hgrows fun pc hpc => ?_
    -- a logic process that waits for its push is neither at the top of its loop nor elsewhere
    obtain ⟨hpub, -⟩ := h.pushing pc hpc
    rcases hown with htop | ⟨now, rfl⟩
    · simp [Logic.publishing, htop] at hpub
    · simp [isLogic, hpub] at hfree

theorem Inv.actPublish {start : ℕ} {s t : Handover β} (h : s.Inv env start)
    (hact : s.actPublish env = some t) : t.Inv env start := by
  unfold Handover.actPublish at hact
  split at hact
  case isFalse => exact nomatch hact
  next hpub =>
  split at hact
  · obtain rfl := Option.some.inj hact
    refine ⟨LargeSpsc.callPush_inv h.ring (env.bytes_length _), ?_, h.accepted, h.sorted, h.bounded⟩
    intro pc hpc
    obtain rfl : ShmRingLarge.PushPc.loadHead _ = pc := Option.some.inj hpc
    exact ⟨hpub, rfl⟩
  next pc hpc =>
  obtain ⟨-, hitem⟩ := h.pushing pc hpc
  obtain ⟨hring, -, hwhat⟩ := LargeSpsc.advancePush_spec h.ring env.fits hpc
  split at hact
  · next l2t heq =>
    obtain rfl := Option.some.inj hact
    simp only [heq] at hring hwhat
    rcases hwhat with ⟨-, hacc, pc', hpc', hsame⟩ | ⟨hres, -⟩ | ⟨hres, -⟩
    · refine ⟨hring, ?_, hacc.trans h.accepted, h.sorted, h.bounded⟩
      intro pc'' hpc''
      rw [Option.some.inj (hpc''.symm.trans hpc'), hsame]
      exact ⟨hpub, hitem⟩
    · exact nomatch hres
    · exact nomatch hres
  · next l2t accepted heq =>
    obtain ⟨session, hlogic, rfl⟩ := Option.map_eq_some_iff.mp hact
    have hgrows := Session.actLogic_grows hlogic
    simp only [heq] at hring hwhat
    rcases hwhat with ⟨hres, -⟩ | ⟨hres, hidle, hacc, -⟩ | ⟨hres, hidle, hacc⟩
    · exact nomatch hres
    · obtain rfl : accepted = false := Option.some.inj hres
      refine ⟨hring, ?_, hacc.trans h.accepted, h.sorted,
        fun tel htel => (h.bounded tel htel).trans hgrows⟩
      intro pc' hpc'
      exact nomatch hidle.symm.trans hpc'
    · obtain rfl : accepted = true := Option.some.inj hres
      refine ⟨hring, ?_, ?_, ?_, ?_⟩
      · intro pc' hpc'
        exact nomatch hidle.symm.trans hpc'
      · rw [hacc, h.accepted, hitem, if_pos rfl, List.map_append, List.map_singleton]
      · refine List.pairwise_append.mpr ⟨h.sorted, List.pairwise_singleton _ _, ?_⟩
        intro tel htel tel' htel'
        rw [List.mem_singleton.mp htel']
        exact h.bounded tel htel
      · intro tel htel
        rcases List.mem_append.mp htel with htel | htel
        · exact (h.bounded tel htel).trans hgrows
        · rw [List.mem_singleton.mp htel]
          exact hgrows

theorem Inv.actMain {start : ℕ} {s : Handover β} (h : s.Inv env start) :
    (s.actMain env).Inv env start := by
  unfold Handover.actMain
  split
  · exact ⟨LargeSpsc.callPop_inv h.ring, h.pushing, h.accepted, h.sorted, h.bounded⟩
  · next pc hpc =>
    obtain ⟨hring, hpush, hacc⟩ := LargeSpsc.advancePop_spec h.ring hpc
    refine ⟨hring, ?_, hacc.trans h.accepted, h.sorted, h.bounded⟩
    intro pc' hpc'
    exact h.pushing pc' (hpush.symm.trans hpc')

/-- **Every step keeps the invariant.** -/
theorem Step.inv {start : ℕ} {s t : Handover β} (hstep : Step env s t) (h : s.Inv env start) :
    t.Inv env start := by
  obtain ⟨a, hact⟩ := hstep
  cases a with
  | session a =>
    rw [act] at hact
    split at hact
    · exact nomatch hact
    · next hfree =>
      obtain ⟨session, hsession, rfl⟩ := Option.map_eq_some_iff.mp hact
      rw [Bool.not_eq_true, Bool.or_eq_false_iff] at hfree
      exact h.actSession hfree.1 hfree.2 hsession
  | publish => exact h.actPublish hact
  | main =>
    obtain rfl := Option.some.inj hact
    exact h.actMain

theorem reachable_inv {session : Session} {start : ℕ} {data : ℕ → β} {s : Handover β}
    (h : Reachable (Step env) (init session start data) s) : s.Inv env start :=
  h.invariant (init_inv session start data) fun _ _ _ hs hstep => hstep.inv hs

/-- **The hand-over of the telemetry.**  In every run of a session without a restart of its logic
process, from an empty ring, under every interleaving of the accesses of both sides: what `main` has
obtained is, each snapshot whole, the front of the accepted ones in the order of their publication;
from one of them to any later one no hop's count of probes or answers gets smaller; and a snapshot
is refused, by the access that loads `tail`, only when 15 accepted ones are not popped. -/
theorem telemetry_handover {session : Session} {start : ℕ} {data : ℕ → β} {s : Handover β}
    (h : Reachable (Step env) (init session start data) s) :
    (∃ tels, tels <+: s.published ∧ s.l2t.obtained = tels.map env.bytes ∧
        tels.Pairwise fun tel tel' => ∀ i, (tel.hops i).sent ≤ (tel'.hops i).sent ∧
          (tel.hops i).recv ≤ (tel'.hops i).recv) ∧
      ∀ pc, s.l2t.push = some pc → (s.l2t.advancePush pc).2 = some false →
        (∃ item hd, pc = .loadTail item hd) ∧ pc.item = env.bytes (s.state env) ∧
          s.published.length - s.l2t.obtained.length = 15 := by
  have hinv := reachable_inv h
  constructor
  · refine ⟨s.published.take s.l2t.obtained.length, List.take_prefix _ _, ?_,
      hinv.sorted.sublist (List.take_sublist _ _)⟩
    rw [List.map_take, ← hinv.accepted]
    exact List.prefix_iff_eq_take.mp hinv.ring.obtained_prefix
  · intro pc hpc hrefused
    obtain ⟨-, hitem⟩ := hinv.pushing pc hpc
    obtain ⟨-, -, ⟨hres, -⟩ | ⟨-, -, -, hload, hfull⟩ | ⟨hres, -⟩⟩ :=
      LargeSpsc.advancePush_spec hinv.ring env.fits hpc
    · exact nomatch hrefused.symm.trans hres
    · refine ⟨hload, hitem, ?_⟩
      rw [hinv.accepted, List.length_map] at hfull
      exact hfull
    · exact nomatch hrefused.symm.trans hres

/-- A snapshot as two cells: the probes and the answers of hop 1. -/
def twoCells : Env ℕ where
  addrBinToStr := fun addrBin _ => inetNtop4 addrBin
  targetIp := []
  targetHost := []
  bytes := fun tel => [(tel.hops 1).sent, (tel.hops 1).recv]
  size := 2
  bytes_length := fun _ => rfl
  fits := by decide

/-- One probe, one snapshot: the accesses of the two sides take turns once the push is under way. -/
theorem telemetry_handover_one_probe :
    ∃ s : Handover ℕ, s.l2t.obtained = [[1, 0]] ∧
      ∃ tels, tels <+: s.published ∧ s.l2t.obtained = tels.map twoCells.bytes := by
  have hrun : (exec (act twoCells)
      ([.session (.logicTop 1000000 100 false 1)] ++ List.replicate 11 (.session (.logic 0)) ++
        [.publish, .publish, .main, .publish, .main, .publish, .main, .publish, .publish] ++
        List.replicate 6 .main) (init (.init 0 7 false) 5 fun _ => 0)).map
      (fun s => s.l2t.obtained) = some [[1, 0]] := by
    decide +kernel
  obtain ⟨s, hs, hobs⟩ := Reachable.exists_of_exec (Step twoCells) hrun fun a _ s t hact => ⟨a, hact⟩
  obtain ⟨⟨tels, hprefix, hbytes, -⟩, -⟩ := telemetry_handover hs
  exact ⟨s, hobs, tels, hprefix, hbytes⟩

end Handover
end Nsr
