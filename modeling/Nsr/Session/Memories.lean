import Nsr.Session.System

/-!
# Whose memory it is

A session's state has three owners: the rings, which both processes have mapped,
and the memory of each.  A process's memory holds, besides its variables, where
it stands in a call on a ring.  An action of the gatekeeper reads and writes the
rings and the gatekeeper's memory, and knows nothing of the logic process's; and
the other way round.

* `Shared`, `GkMem`, `LogicMem`: the three parts; `compose` puts them together.
* `gkAct`, `logicAct`: an action of one process, as it is computed from the two
  parts it can see.
* `act_compose_gk`, `act_compose_logic`: in a session the action does that, and
  leaves the third part as it is.
-/

namespace Nsr

open ShmRing

universe u

/-- A ring as it is mapped, with what has gone through it. -/
structure SharedRing (α : Type u) where
  ring : ShmRing α
  accepted : List (List α)
  delivered : List α

/-- What the processes of a session share; the number of logic processes started is
kept here. -/
structure Shared where
  l2g : SharedRing Intent
  g2l : SharedRing Observation
  incarnation : ℕ

/-- The gatekeeper's memory. -/
structure GkMem where
  gk : Gatekeeper
  pop : Option (PopPc Intent)
  push : Option (PushPc Observation)

/-- The logic process's memory. -/
structure LogicMem where
  logic : Logic
  push : Option (PushPc Intent)
  pop : Option (PopPc Observation)

/-- Rings just mapped. -/
def Shared.zeroed : Shared := ⟨⟨.zeroed .zero, [], []⟩, ⟨.zeroed .zero, [], []⟩, 0⟩

/-- A gatekeeper just forked; `g_gk_id` is the low half of its number. -/
def GkMem.start (pid : ℤ) (isV6 : Bool) : GkMem := ⟨.start (.ofNat pid.toNat) isV6, none, none⟩

/-- A logic process just forked. -/
def LogicMem.start (startTimeUs : UInt64) : LogicMem := ⟨.start startTimeUs, none, none⟩

namespace Session

/-- The rings of a session. -/
def shared (s : Session) : Shared :=
  ⟨⟨s.l2g.ring, s.l2g.accepted, s.l2g.delivered⟩,
    ⟨s.g2l.ring, s.g2l.accepted, s.g2l.delivered⟩, s.incarnation⟩

def gkMem (s : Session) : GkMem := ⟨s.gk, s.l2g.pop, s.g2l.push⟩

def logicMem (s : Session) : LogicMem := ⟨s.logic, s.l2g.push, s.g2l.pop⟩

/-- A session put together. -/
def compose (m : Shared) (g : GkMem) (l : LogicMem) : Session where
  l2g := ⟨m.l2g.ring, l.push, g.pop, m.l2g.accepted, m.l2g.delivered⟩
  g2l := ⟨m.g2l.ring, g.push, l.pop, m.g2l.accepted, m.g2l.delivered⟩
  logic := l.logic
  gk := g.gk
  incarnation := m.incarnation

theorem compose_parts (s : Session) : compose s.shared s.gkMem s.logicMem = s := rfl

@[simp] theorem shared_compose (m : Shared) (g : GkMem) (l : LogicMem) :
    (compose m g l).shared = m := rfl

@[simp] theorem gkMem_compose (m : Shared) (g : GkMem) (l : LogicMem) :
    (compose m g l).gkMem = g := rfl

@[simp] theorem logicMem_compose (m : Shared) (g : GkMem) (l : LogicMem) :
    (compose m g l).logicMem = l := rfl

end Session

/-- The actions a gatekeeper can take. -/
def Action.isGk : Action → Bool
  | .gk _ | .gkSend _ | .gkRecv _ _ => true
  | _ => false

/-- The actions a logic process with the interval `intervalMs` can take. -/
def Action.isLogic (intervalMs : UInt32) : Action → Bool
  | .logicTop _ ms _ _ => ms == intervalMs
  | .logic _ => true
  | _ => false

namespace Session

variable (addrBinToStr : List UInt8 → Bool → List UInt8)

/-- An action of a gatekeeper, on the rings and its memory. -/
def gkAct (a : Action) (m : Shared) (g : GkMem) : Option (Shared × GkMem) :=
  (act addrBinToStr a (compose m g (.start 0))).map fun t => (t.shared, t.gkMem)

/-- An action of a logic process, on the rings and its memory. -/
def logicAct (a : Action) (m : Shared) (l : LogicMem) : Option (Shared × LogicMem) :=
  (act addrBinToStr a (compose m (.start 0 false) l)).map fun t => (t.shared, t.logicMem)

/-! ## The gatekeeper -/

section Gatekeeper

variable (m : Shared) (g : GkMem) (l l' : LogicMem)

theorem actGkPop_compose :
    (compose m g l').actGkPop =
      compose (compose m g l).actGkPop.shared (compose m g l).actGkPop.gkMem l' := by
  obtain ⟨gk, pop, push⟩ := g
  cases pop with
  | none => rfl
  | some pc =>
    simp only [actGkPop, compose, Spsc.advancePop]
    obtain ⟨r, pc' | out⟩ := popStep m.l2g.ring pc <;> rfl

theorem actGkPush_compose (obs : List Observation) :
    (compose m g l').actGkPush obs =
      compose ((compose m g l).actGkPush obs).shared ((compose m g l).actGkPush obs).gkMem l' := by
  obtain ⟨gk, pop, push⟩ := g
  cases push with
  | none => rfl
  | some pc =>
    simp only [actGkPush, compose, Spsc.advancePush]
    obtain ⟨r, pc' | ok⟩ := pushStep m.g2l.ring pc
    · rfl
    · cases ok <;> rfl

theorem actGk_compose (clock : UInt64) :
    (compose m g l').actGk clock =
      ((compose m g l).actGk clock).map fun t => compose t.shared t.gkMem l' := by
  cases hpc : g.gk.pc with
  | pop =>
    have hact : ∀ l, (compose m g l).actGk clock = some (compose m g l).actGkPop := by
      intro l
      simp only [actGk, compose, hpc]
    rw [hact, hact, Option.map_some, actGkPop_compose m g l l']
  | pushObs obs =>
    have hact : ∀ l, (compose m g l).actGk clock = some ((compose m g l).actGkPush obs) := by
      intro l
      simp only [actGk, compose, hpc]
    rw [hact, hact, Option.map_some, actGkPush_compose m g l l' obs]
  | track now done todo => cases todo <;> simp only [actGk, compose, hpc] <;> rfl
  | drop todo => cases todo <;> simp only [actGk, compose, hpc] <;> rfl
  | scan now pkts obs => cases pkts <;> simp only [actGk, compose, hpc] <;> rfl
  | _ =>
    simp only [actGk, compose, hpc]
    rfl

/-- What a gatekeeper does, it does next to any logic process. -/
theorem act_gk_compose {a : Action} (ha : a.isGk) :
    act addrBinToStr a (compose m g l') =
      (act addrBinToStr a (compose m g l)).map fun t => compose t.shared t.gkMem l' := by
  cases a with
  | gk clock => exact actGk_compose m g l l' clock
  | gkSend sent =>
    cases hpc : g.gk.pc with
    | send intents =>
      simp only [act, actGkSend, compose, hpc]
      split <;> rfl
    | _ =>
      simp only [act, actGkSend, compose, hpc]
      rfl
  | gkRecv now pkts =>
    cases hpc : g.gk.pc with
    | recv =>
      simp only [act, actGkRecv, compose, hpc]
      repeat' split
      all_goals rfl
    | _ =>
      simp only [act, actGkRecv, compose, hpc]
      rfl
  | _ => cases ha

end Gatekeeper

/-! ## The logic process -/

section LogicProcess

variable (m : Shared) (g g' : GkMem) (l : LogicMem)

theorem actLogicPush_compose (now : UInt64) (intent : Intent) (rest : List Intent) :
    (compose m g' l).actLogicPush now intent rest =
      compose ((compose m g l).actLogicPush now intent rest).shared g'
        ((compose m g l).actLogicPush now intent rest).logicMem := by
  obtain ⟨logic, push, pop⟩ := l
  cases push with
  | none => rfl
  | some pc =>
    simp only [actLogicPush, compose, Spsc.advancePush]
    obtain ⟨r, pc' | ok⟩ := pushStep m.l2g.ring pc
    · rfl
    · cases ok <;> rfl

theorem actLogicDrain_compose (now : UInt64) :
    (compose m g' l).actLogicDrain now =
      compose ((compose m g l).actLogicDrain now).shared g'
        ((compose m g l).actLogicDrain now).logicMem := by
  obtain ⟨logic, push, pop⟩ := l
  cases pop with
  | none => rfl
  | some pc =>
    simp only [actLogicDrain, compose, Spsc.advancePop]
    obtain ⟨r, pc' | out⟩ := popStep m.g2l.ring pc
    · rfl
    · cases out <;> rfl

theorem actLogic_compose (clock : UInt64) :
    (compose m g' l).actLogic addrBinToStr clock =
      ((compose m g l).actLogic addrBinToStr clock).map fun t =>
        compose t.shared g' t.logicMem := by
  cases hpc : l.logic.pc with
  | generate now left intents =>
    cases left <;> simp only [actLogic, compose, hpc] <;> rfl
  | push now intents =>
    cases intents with
    | nil =>
      simp only [actLogic, compose, hpc]
      rfl
    | cons intent rest =>
      have hact : ∀ g, (compose m g l).actLogic addrBinToStr clock =
          some ((compose m g l).actLogicPush now intent rest) := by
        intro g
        simp only [actLogic, compose, hpc]
      rw [hact, hact, Option.map_some, actLogicPush_compose m g g' l]
  | drain now =>
    have hact : ∀ g, (compose m g l).actLogic addrBinToStr clock =
        some ((compose m g l).actLogicDrain now) := by
      intro g
      simp only [actLogic, compose, hpc]
    rw [hact, hact, Option.map_some, actLogicDrain_compose m g g' l]
  | apply now obs => cases obs <;> simp only [actLogic, compose, hpc] <;> rfl
  | _ =>
    simp only [actLogic, compose, hpc]
    rfl

/-- What a logic process does, it does next to any gatekeeper. -/
theorem act_logic_compose {intervalMs : UInt32} {a : Action} (ha : a.isLogic intervalMs) :
    act addrBinToStr a (compose m g' l) =
      (act addrBinToStr a (compose m g l)).map fun t => compose t.shared g' t.logicMem := by
  cases a with
  | logicTop now ms paused burst =>
    cases hpc : l.logic.pc with
    | top =>
      simp only [act, actLogicTop, compose, hpc]
      repeat' split
      all_goals rfl
    | _ =>
      simp only [act, actLogicTop, compose, hpc]
      rfl
  | logic clock => exact actLogic_compose addrBinToStr m g g' l clock
  | _ => cases ha

end LogicProcess

/-! ## The family of the target -/

section Family

variable {s t : Session}

theorem actGkPop_isV6 (s : Session) : s.actGkPop.gk.isV6 = s.gk.isV6 := by
  unfold actGkPop
  repeat' split
  all_goals rfl

theorem actGkPush_isV6 (s : Session) (obs : List Observation) :
    (s.actGkPush obs).gk.isV6 = s.gk.isV6 := by
  unfold actGkPush
  repeat' split
  all_goals rfl

/-- A gatekeeper stays with the family of its target. -/
theorem act_isV6 {a : Action} (ha : a.isGk) (hact : act addrBinToStr a s = some t) :
    t.gk.isV6 = s.gk.isV6 := by
  cases a with
  | gk clock =>
    simp only [act, actGk] at hact
    split at hact
    · obtain rfl := Option.some.inj hact
      exact actGkPop_isV6 s
    case h_11 obs hpc =>
      obtain rfl := Option.some.inj hact
      exact actGkPush_isV6 s obs
    all_goals
      first
        | (obtain rfl := Option.some.inj hact; rfl)
        | exact nomatch hact
  | gkSend sent =>
    simp only [act, actGkSend] at hact
    repeat' split at hact
    all_goals first | contradiction | (obtain rfl := Option.some.inj hact; rfl)
  | gkRecv now pkts =>
    simp only [act, actGkRecv] at hact
    repeat' split at hact
    all_goals first | contradiction | (obtain rfl := Option.some.inj hact; rfl)
  | _ => cases ha

end Family

/-! ## In a session -/

/-- **An action of the gatekeeper, seen from the session.** -/
theorem act_of_gkAct {s : Session} {a : Action} {m : Shared} {g : GkMem} (ha : a.isGk)
    (h : gkAct addrBinToStr a s.shared s.gkMem = some (m, g)) :
    act addrBinToStr a s = some (compose m g s.logicMem) := by
  obtain ⟨t, ht, hmg⟩ := Option.map_eq_some_iff.mp h
  have hact := act_gk_compose addrBinToStr s.shared s.gkMem (.start 0) s.logicMem ha
  rw [compose_parts, ht, Option.map_some] at hact
  rw [hact]
  obtain ⟨rfl, rfl⟩ := Prod.mk.inj hmg
  rfl

/-- **An action of the logic process, seen from the session.** -/
theorem act_of_logicAct {s : Session} {a : Action} {intervalMs : UInt32} {m : Shared}
    {l : LogicMem} (ha : a.isLogic intervalMs)
    (h : logicAct addrBinToStr a s.shared s.logicMem = some (m, l)) :
    act addrBinToStr a s = some (compose m s.gkMem l) := by
  obtain ⟨t, ht, hml⟩ := Option.map_eq_some_iff.mp h
  have hact := act_logic_compose addrBinToStr s.shared (.start 0 false) s.gkMem s.logicMem ha
  rw [compose_parts, ht, Option.map_some] at hact
  rw [hact]
  obtain ⟨rfl, rfl⟩ := Prod.mk.inj hml
  rfl

end Session
end Nsr
