import Nsr.Ring.Spsc
import Nsr.Session.Gatekeeper
import Nsr.Session.Logic

/-!
# A session: two processes, two rings

`main` starts a gatekeeper and a logic process on two zeroed rings: `l2g` carries
intents from the logic process to the gatekeeper, `g2l` carries observations
back.  The processes share nothing else, so a session's state is the two rings
with the calls in progress on them, and each process's private state.

`act` performs one action.  An action is one memory access to a ring, or one
private step of a process between two such accesses; the choices that are not the
program's --- clock readings, the size of a burst, what `sendmmsg` returns, what
`recvmmsg` brings, when a process dies --- are the action's arguments.  Any action
may follow any other that is enabled, so runs are all interleavings.
-/

namespace Nsr

open Transition

/-- A session. -/
structure Session where
  l2g : Spsc Intent
  g2l : Spsc Observation
  logic : Logic
  gk : Gatekeeper
  /-- The number of logic processes started before this one (history, read by no
  code but to stamp what it generates). -/
  incarnation : ℕ

/-- One action of one of the processes, or of `main`. -/
inductive Action where
  /-- The logic process enters its loop body: clock, interval, whether it is
  paused, and the burst size pacing has arrived at. -/
  | logicTop (now : UInt64) (intervalMs : UInt32) (paused : Bool) (burst : ℕ)
  /-- The logic process goes on; `now` is the clock, for the steps that read it. -/
  | logic (now : UInt64)
  /-- The gatekeeper goes on; `now` is the clock, for the steps that read it. -/
  | gk (now : UInt64)
  /-- `sendmmsg` returns `sent`. -/
  | gkSend (sent : ℤ)
  /-- `recvmmsg` brings these packets; none stands for `rcount <= 0`. -/
  | gkRecv (now : UInt64) (pkts : List Packet)
  /-- The gatekeeper dies of a signal and `main` starts another, with process id
  `id`. -/
  | gkCrash (id : UInt16)
  /-- The logic process dies of a signal and `main` starts another, which reads
  the clock as `startTimeUs`. -/
  | logicCrash (startTimeUs : UInt64)

/-- A crash of the logic process. -/
def Action.isLogicCrash : Action → Bool
  | .logicCrash _ => true
  | _ => false

/-- A crash of either process. -/
def Action.isCrash : Action → Bool
  | .gkCrash _ => true
  | .logicCrash _ => true
  | _ => false

theorem Action.isLogicCrash_of_not_isCrash {a : Action} (h : a.isCrash = false) :
    a.isLogicCrash = false := by
  cases a with
  | logicCrash us => exact h
  | _ => rfl

namespace Session

/-- A session `main` has just started. -/
def init (startTimeUs : UInt64) (gkId : UInt16) (isV6 : Bool) : Session where
  l2g := .init .zero
  g2l := .init .zero
  logic := .start startTimeUs
  gk := .start gkId isV6
  incarnation := 0

/-! ## The logic process -/

/-- The top of the loop of `nsr_logic_run`, down to the choice between a burst and
a sleep. -/
def actLogicTop (s : Session) (now : UInt64) (intervalMs : UInt32) (paused : Bool)
    (burst : ℕ) : Option Session :=
  match s.logic.pc with
  | .top =>
      let l := { s.logic with intervalMs := intervalMs }.sweepTimeouts now
      if paused = false ∧ now - l.lastProbeUs ≥ intervalMs.toUInt64 * 1000 then
        if 1 ≤ burst ∧ burst ≤ maxBurst then
          some { s with logic := { l with pc := .generate now burst [] } }
        else none
      else some { s with logic := { l with pc := .drain now } }
  | _ => none

/-- `while (!nsr_shm_ring_push_batch(l2g, &intents[i], 1, ...));` --- one access of
it.  A refused call is entered again. -/
def actLogicPush (s : Session) (now : UInt64) (intent : Intent) (rest : List Intent) : Session :=
  match s.l2g.push with
  | none => { s with l2g := s.l2g.callPush [intent] }
  | some pc =>
      match s.l2g.advancePush pc with
      | (l2g, some true) => { s with l2g := l2g, logic := { s.logic with pc := .push now rest } }
      | (l2g, _) => { s with l2g := l2g }

/-- `nsr_shm_ring_pop_batch(g2l, observations, LOGIC_BATCH, ...)` --- one access of
it.  When it returns nothing the drain loop ends. -/
def actLogicDrain (s : Session) (now : UInt64) : Session :=
  match s.g2l.pop with
  | none => { s with g2l := s.g2l.callPop logicBatch }
  | some pc =>
      match s.g2l.advancePop pc with
      | (g2l, none) => { s with g2l := g2l }
      | (g2l, some []) => { s with g2l := g2l, logic := { s.logic with pc := .publish now } }
      | (g2l, some obs) => { s with g2l := g2l, logic := { s.logic with pc := .apply now obs } }

/-- The logic process below the top of its loop. -/
def actLogic (addrBinToStr : List UInt8 → Bool → List UInt8) (s : Session) (clock : UInt64) :
    Option Session :=
  match s.logic.pc with
  | .top => none
  | .generate now 0 intents => some { s with logic := { s.logic with pc := .push now intents } }
  | .generate now (left + 1) intents =>
      let (intent, l) := s.logic.nextIntent s.incarnation now
      some { s with logic := { l with pc := .generate now left (intents ++ [intent]) } }
  | .push now [] =>
      some { s with logic := { s.logic with lastProbeUs := now, pc := .drain now } }
  | .push now (intent :: rest) => some (s.actLogicPush now intent rest)
  | .drain now => some (s.actLogicDrain now)
  | .apply now [] => some { s with logic := { s.logic with pc := .drain now } }
  | .apply now (o :: rest) =>
      some { s with
        logic := { s.logic.updateState addrBinToStr clock o with pc := .apply now rest } }
  | .publish now =>
      let lastTuiUs := if now - s.logic.lastTuiUs > 16666 then now else s.logic.lastTuiUs
      some { s with logic := { s.logic with lastTuiUs := lastTuiUs, pc := .top } }

/-! ## The gatekeeper -/

/-- `nsr_shm_ring_pop_batch(l2g, intents, BATCH_SIZE, ...)` --- one access of it. -/
def actGkPop (s : Session) : Session :=
  match s.l2g.pop with
  | none => { s with l2g := s.l2g.callPop batchSize }
  | some pc =>
      match s.l2g.advancePop pc with
      | (l2g, none) => { s with l2g := l2g }
      | (l2g, some intents) => { s with l2g := l2g, gk := { s.gk with pc := .popped intents } }

/-- `while (!nsr_shm_ring_push_batch(g2l, batch_obs, obs_count, ...));` --- one
access of it.  A refused call is entered again. -/
def actGkPush (s : Session) (obs : List Observation) : Session :=
  match s.g2l.push with
  | none => { s with g2l := s.g2l.callPush obs }
  | some pc =>
      match s.g2l.advancePush pc with
      | (g2l, some true) => { s with g2l := g2l, gk := { s.gk with pc := .recv } }
      | (g2l, _) => { s with g2l := g2l }

/-- The gatekeeper outside its two system calls. -/
def actGk (s : Session) (clock : UInt64) : Option Session :=
  match s.gk.pc with
  | .pop => some s.actGkPop
  | .popped intents =>
      let (inflight, lastReap) := s.gk.inflight.reapStaleInflight s.gk.lastReap clock
      some { s with gk := { s.gk with
        inflight := inflight, lastReap := lastReap, pc := .track clock [] intents } }
  | .track _ done [] =>
      some { s with gk := { s.gk with pc := if done = [] then .recv else .send done } }
  | .track now done (intent :: todo) =>
      some { s with gk := { s.gk with
        inflight := s.gk.inflight.trackProbe intent now
        pc := .track now (done ++ [intent]) todo } }
  | .send _ => none
  | .drop [] => some { s with gk := { s.gk with pc := .recv } }
  | .drop (intent :: todo) =>
      some { s with gk := { s.gk with
        inflight := s.gk.inflight.dropProbe intent.seq, pc := .drop todo } }
  | .recv => none
  | .scan _ [] obs =>
      some { s with gk := { s.gk with pc := if obs = [] then .recv else .pushObs obs } }
  | .scan now (pkt :: pkts) obs =>
      let (inflight, new) := s.gk.scanPacket now pkt
      some { s with gk := { s.gk with inflight := inflight, pc := .scan now pkts (obs ++ new) } }
  | .pushObs obs => some (s.actGkPush obs)

/-- `sendmmsg`: a negative result drops every probe of the batch, a short one those
that were not sent. -/
def actGkSend (s : Session) (sent : ℤ) : Option Session :=
  match s.gk.pc with
  | .send intents =>
      if sent ≤ intents.length then
        let todo := if sent < 0 then intents else intents.drop sent.toNat
        some { s with gk := { s.gk with pc := .drop todo } }
      else none
  | _ => none

/-- `recvmmsg`: at most `BATCH_SIZE` packets; without one the receive loop ends. -/
def actGkRecv (s : Session) (now : UInt64) (pkts : List Packet) : Option Session :=
  match s.gk.pc with
  | .recv =>
      if pkts = [] then some { s with gk := { s.gk with pc := .pop } }
      else if pkts.length ≤ batchSize then
        some { s with gk := { s.gk with pc := .scan now pkts [] } }
      else none
  | _ => none

/-! ## Crashes -/

/-- A new gatekeeper on the same rings, its table empty. -/
def crashGk (s : Session) (id : UInt16) : Session :=
  { s with l2g := s.l2g.crashPop, g2l := s.g2l.crashPush, gk := .start id s.gk.isV6 }

/-- A new logic process on the same rings, its telemetry zeroed. -/
def crashLogic (s : Session) (startTimeUs : UInt64) : Session :=
  { s with
      l2g := s.l2g.crashPush
      g2l := s.g2l.crashPop
      logic := .start startTimeUs
      incarnation := s.incarnation + 1 }

/-! ## Runs -/

variable (addrBinToStr : List UInt8 → Bool → List UInt8)

/-- One action, if it is enabled. -/
def act : Action → Session → Option Session
  | .logicTop now intervalMs paused burst, s => s.actLogicTop now intervalMs paused burst
  | .logic now, s => s.actLogic addrBinToStr now
  | .gk now, s => s.actGk now
  | .gkSend sent, s => s.actGkSend sent
  | .gkRecv now pkts, s => s.actGkRecv now pkts
  | .gkCrash id, s => some (s.crashGk id)
  | .logicCrash startTimeUs, s => some (s.crashLogic startTimeUs)

/-- A step of a session whose processes do not crash. -/
def StepNoCrash (s t : Session) : Prop :=
  ∃ a, a.isCrash = false ∧ act addrBinToStr a s = some t

/-- A step of a session whose logic process does not crash. -/
def StepGkCrash (s t : Session) : Prop :=
  ∃ a, a.isLogicCrash = false ∧ act addrBinToStr a s = some t

/-- Any step of a session. -/
def Step (s t : Session) : Prop := ∃ a, act addrBinToStr a s = some t

end Session
end Nsr
