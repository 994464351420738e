import Nsr.Session.Aliases
import Nsr.Session.Handover

/-!
# When a hop has timed out

`sweep_timeouts` (`src/io/logic.c`) sees three things of a hop: whether a probe was ever sent, the
last status, and when the last answer came; where there was none it takes the start of the session.
It does not know when a probe was sent, and it leaves alone a hop whose last answer was an echo
reply or an unreachable.

`Watch` is the logic process with the history it would need: the probes sent and the observations
applied, with the times.  The rest of the session may do anything in between, so observations come
as they like (`Watch.Step.of_session`).

* `latestStatus`, `answerTimes`: what the history says of a hop.
* `Logic.Knows`: what the logic process knows of it.  `Watch.inv_of_reachable`.
* `timeout_status_iff`: which hops have timed out.
* `timeout_status_untruthful`: a hop probed a moment ago has, and a hop silent for long has not.
-/

namespace Nsr

open Transition

/-- More than the timeout window of 1.5 s before. -/
def Old (now t : UInt64) : Prop := t.toNat + 1500000 < now.toNat

instance (now t : UInt64) : Decidable (Old now t) := inferInstanceAs (Decidable (_ < _))

theorem Old.mono {now now' t : UInt64} (h : Old now t) (hle : now ≤ now') : Old now' t :=
  Nat.lt_of_lt_of_le h (UInt64.le_iff_toNat_le.mp hle)

theorem Old.of_le {now t t' : UInt64} (h : Old now t') (hle : t ≤ t') : Old now t :=
  Nat.lt_of_le_of_lt (Nat.add_le_add_right (UInt64.le_iff_toNat_le.mp hle) _) h

/-- The test of `sweep_timeouts`, with a clock that does not go back. -/
theorem sub_gt_iff_old {now t : UInt64} (hle : t ≤ now) : now - t > 1500000 ↔ Old now t := by
  have hle' := UInt64.le_iff_toNat_le.mp hle
  rw [gt_iff_lt, UInt64.lt_iff_toNat_lt, UInt64.toNat_sub_of_le _ _ hle, Old]
  change 1500000 < _ ↔ _
  omega

/-! ## Histories -/

/-- The status that an observation gives to a hop. -/
def statusFor (ttl : UInt8) (p : UInt64 × Observation) : Option ObsType :=
  if p.2.ttl = ttl ∧ (p.2.IsAnswer ∨ p.2.type = .timeout) then some p.2.type else none

/-- The time of an answer from a hop. -/
def answerFor (ttl : UInt8) (p : UInt64 × Observation) : Option UInt64 :=
  if p.2.ttl = ttl ∧ p.2.IsAnswer then some p.1 else none

/-- The status that the last observation that has one gives to a hop. -/
def latestStatus (heard : List (UInt64 × Observation)) (ttl : UInt8) : Option ObsType :=
  (heard.filterMap (statusFor ttl)).getLast?

/-- The times at which a hop answered. -/
def answerTimes (heard : List (UInt64 × Observation)) (ttl : UInt8) : List UInt64 :=
  heard.filterMap (answerFor ttl)

theorem latestStatus_concat (heard : List (UInt64 × Observation)) (p : UInt64 × Observation)
    (ttl : UInt8) :
    latestStatus (heard ++ [p]) ttl = (statusFor ttl p).or (latestStatus heard ttl) := by
  rw [latestStatus, List.filterMap_append, List.getLast?_append]
  cases hp : statusFor ttl p with
  | none => simp [hp, latestStatus]
  | some t => simp [hp]

theorem answerTimes_concat (heard : List (UInt64 × Observation)) (p : UInt64 × Observation)
    (ttl : UInt8) :
    answerTimes (heard ++ [p]) ttl = answerTimes heard ttl ++ (answerFor ttl p).toList := by
  rw [answerTimes, List.filterMap_append]
  cases hp : answerFor ttl p with
  | none => simp [hp, answerTimes]
  | some t => simp [hp, answerTimes]

/-- The readings of the clock in a history, from the start of the session to the last one. -/
structure Times (start clock : UInt64) (heard : List (UInt64 × Observation)) : Prop where
  started : start ≤ clock
  between : ∀ p ∈ heard, start ≤ p.1 ∧ p.1 ≤ clock
  ordered : heard.Pairwise fun p q => p.1 ≤ q.1

theorem Times.later {start clock now : UInt64} {heard : List (UInt64 × Observation)}
    (h : Times start clock heard) (hle : clock ≤ now) : Times start now heard :=
  ⟨UInt64.le_trans h.started hle,
    fun p hp => ⟨(h.between p hp).1, UInt64.le_trans (h.between p hp).2 hle⟩, h.ordered⟩

theorem Times.concat {start clock now : UInt64} {heard : List (UInt64 × Observation)}
    (h : Times start clock heard) (hle : clock ≤ now) (o : Observation) :
    Times start now (heard ++ [(now, o)]) := by
  have hlater := h.later hle
  refine ⟨hlater.started, fun p hp => ?_, ?_⟩
  · rcases List.mem_append.mp hp with hp | hp
    · exact hlater.between p hp
    · obtain rfl := List.mem_singleton.mp hp
      exact ⟨hlater.started, UInt64.le_refl _⟩
  · refine List.pairwise_append.mpr ⟨h.ordered, List.pairwise_singleton _ _, fun p hp q hq => ?_⟩
    obtain rfl := List.mem_singleton.mp hq
    exact (hlater.between p hp).2

/-- The last answer is the latest one. -/
theorem Times.le_last {start clock : UInt64} {heard : List (UInt64 × Observation)}
    (h : Times start clock heard) {ttl : UInt8} {t : UInt64}
    (hlast : (answerTimes heard ttl).getLast? = some t) :
    (start ≤ t ∧ t ≤ clock) ∧ ∀ t' ∈ answerTimes heard ttl, t' ≤ t := by
  have hsorted : (answerTimes heard ttl).Pairwise (· ≤ ·) := by
    refine h.ordered.filterMap (answerFor ttl) fun p q hpq t ht t' ht' => ?_
    rw [answerFor] at ht ht'
    split at ht
    · split at ht'
      · obtain rfl := Option.some_inj.mp ht
        obtain rfl := Option.some_inj.mp ht'
        exact hpq
      · exact nomatch ht'
    · exact nomatch ht
  obtain ⟨front, hfront⟩ := List.getLast?_eq_some_iff.mp hlast
  have hmem : t ∈ answerTimes heard ttl := List.mem_of_getLast? hlast
  refine ⟨?_, fun t' ht' => ?_⟩
  · obtain ⟨p, hp, hpt⟩ := List.mem_filterMap.mp hmem
    rw [answerFor] at hpt
    split at hpt
    · obtain rfl := Option.some_inj.mp hpt
      exact h.between p hp
    · exact nomatch hpt
  · rw [hfront] at ht' hsorted
    rcases List.mem_append.mp ht' with ht' | ht'
    · exact (List.pairwise_append.mp hsorted).2.2 t' ht' t (List.mem_singleton_self t)
    · obtain rfl := List.mem_singleton.mp ht'
      exact UInt64.le_refl _

/-! ## What the logic process knows -/

namespace Logic

/-- `last_activity` of `sweep_timeouts`. -/
def lastActivity (l : Logic) (i : ℕ) : UInt64 :=
  if l.lastRecvUs i = 0 then l.startTimeUs else l.lastRecvUs i

/-- **What the logic process knows of a hop**: the time of its last answer, and its last status,
which a sweep may have set to a timeout if the last answer, if any, was of the kind that times
out. -/
structure Knows (l : Logic) (clock : UInt64) (heard : List (UInt64 × Observation))
    (ttl : UInt8) : Prop where
  recv : l.lastRecvUs ttl.toNat = (answerTimes heard ttl).getLast?.getD 0
  status : (l.hops ttl.toNat).lastStatus = (latestStatus heard ttl).getD .none ∨
    (latestStatus heard ttl ≠ some .reply ∧ latestStatus heard ttl ≠ some .unreach) ∧
      (l.hops ttl.toNat).lastStatus = .timeout ∧ Old clock (l.lastActivity ttl.toNat)

variable {l l' : Logic} {clock now : UInt64} {heard : List (UInt64 × Observation)} {ttl : UInt8}

/-- **`last_activity`** is the last answer, or the start of the session. -/
theorem Knows.old_iff (hk : l.Knows clock heard ttl) (ht : Times l.startTimeUs clock heard)
    (now : UInt64) :
    l.lastActivity ttl.toNat ≤ clock ∧ (Old now (l.lastActivity ttl.toNat) ↔
      (∀ t ∈ answerTimes heard ttl, Old now t) ∧ Old now l.startTimeUs) := by
  rw [lastActivity, hk.recv]
  cases hlast : (answerTimes heard ttl).getLast? with
  | none =>
    have hnil := List.getLast?_eq_none_iff.mp hlast
    rw [Option.getD_none, if_pos rfl, hnil]
    exact ⟨ht.started, fun hold => ⟨fun _ hmem => absurd hmem List.not_mem_nil, hold⟩, fun h => h.2⟩
  | some t =>
    obtain ⟨⟨hstart, hclock⟩, hmax⟩ := ht.le_last hlast
    -- an answer at time 0 is one at the start of the session
    have hactivity : (if t = 0 then l.startTimeUs else t) = t := by
      split
      · next hzero =>
        rw [hzero] at hstart ⊢
        exact UInt64.le_antisymm hstart (UInt64.zero_le)
      · rfl
    rw [Option.getD_some, hactivity]
    refine ⟨hclock, fun hold => ⟨fun t' ht' => hold.of_le (hmax t' ht'), hold.of_le hstart⟩,
      fun h => h.1 t (List.mem_of_getLast? hlast)⟩

/-- What of a hop is neither sent nor heard stays. -/
structure Keeps (l l' : Logic) : Prop where
  start : l'.startTimeUs = l.startTimeUs
  recv : l'.lastRecvUs = l.lastRecvUs
  status : ∀ i, (l'.hops i).lastStatus = (l.hops i).lastStatus

theorem Knows.keep (hk : l.Knows clock heard ttl) (hle : clock ≤ now) (h : l.Keeps l') :
    l'.Knows now heard ttl := by
  refine ⟨by rw [h.recv, hk.recv], ?_⟩
  rw [h.status, lastActivity, h.recv, h.start]
  exact hk.status.imp_right fun hs => ⟨hs.1, hs.2.1, hs.2.2.mono hle⟩

theorem sweepTimeouts_hop (l : Logic) (now : UInt64) (httl : ttl.toNat ≠ 0 ∧ ttl.toNat < maxHops) :
    (l.sweepTimeouts now).hops ttl.toNat = l.sweepHop now ttl.toNat :=
  if_pos ⟨by omega, httl.2⟩

/-- The status of a hop after a sweep. -/
theorem sweepHop_status (l : Logic) (now : UInt64) (i : ℕ) :
    (l.sweepHop now i).lastStatus =
      if (l.hops i).sent ≠ 0 ∧
        ¬((l.hops i).lastStatus = .reply ∨ (l.hops i).lastStatus = .unreach) ∧
        now - l.lastActivity i > 1500000 then .timeout else (l.hops i).lastStatus := by
  unfold sweepHop
  dsimp only
  rw [← lastActivity]
  by_cases hsent : (l.hops i).sent = 0
  · rw [if_pos hsent, if_neg fun h => h.1 hsent]
  · by_cases hfinal : (l.hops i).lastStatus = .reply ∨ (l.hops i).lastStatus = .unreach
    · rw [if_neg hsent, if_pos hfinal, if_neg fun h => h.2.1 hfinal]
    · by_cases hold : now - l.lastActivity i > 1500000
      · rw [if_neg hsent, if_neg hfinal, if_pos hold, if_pos ⟨hsent, hfinal, hold⟩]
      · rw [if_neg hsent, if_neg hfinal, if_neg hold, if_neg fun h => hold h.2.2]

/-- The last status is final only if the latest one is. -/
theorem Knows.final_iff (hk : l.Knows clock heard ttl) {type : ObsType}
    (htype : type = .reply ∨ type = .unreach) :
    (l.hops ttl.toNat).lastStatus = type ↔ latestStatus heard ttl = some type := by
  rcases hk.status with hs | ⟨⟨hreply, hunreach⟩, hs, -⟩
  · rw [hs]
    cases latestStatus heard ttl with
    | none => rcases htype with rfl | rfl <;> simp
    | some t => simp
  · rw [hs]
    rcases htype with rfl | rfl
    · simpa using hreply
    · simpa using hunreach

theorem Knows.sweep (hk : l.Knows clock heard ttl) (ht : Times l.startTimeUs clock heard)
    (httl : ttl.toNat ≠ 0 ∧ ttl.toNat < maxHops) (hle : clock ≤ now) :
    (l.sweepTimeouts now).Knows now heard ttl := by
  refine ⟨hk.recv, ?_⟩
  obtain ⟨hactivity, -⟩ := hk.old_iff ht now
  rw [sweepTimeouts_hop l now httl, sweepHop_status]
  split
  next hcond =>
    obtain ⟨-, hfinal, hold⟩ := hcond
    rw [hk.final_iff (Or.inl rfl), hk.final_iff (Or.inr rfl), not_or] at hfinal
    exact .inr ⟨hfinal, rfl, (sub_gt_iff_old (UInt64.le_trans hactivity hle)).mp hold⟩
  next => exact hk.status.imp_right fun hs => ⟨hs.1, hs.2.1, hs.2.2.mono hle⟩

/-- **The status after a sweep.** -/
theorem Knows.sweep_status_iff (hk : l.Knows clock heard ttl)
    (ht : Times l.startTimeUs clock heard) (httl : ttl.toNat ≠ 0 ∧ ttl.toNat < maxHops)
    (hle : clock ≤ now) (hsent : 0 < (l.hops ttl.toNat).sent) :
    ((l.sweepTimeouts now).hops ttl.toNat).lastStatus = .timeout ↔
      latestStatus heard ttl = some .timeout ∨
        (latestStatus heard ttl ≠ some .reply ∧ latestStatus heard ttl ≠ some .unreach) ∧
          (∀ t ∈ answerTimes heard ttl, Old now t) ∧ Old now l.startTimeUs := by
  obtain ⟨hactivity, hold⟩ := hk.old_iff ht now
  have hguard : ((l.hops ttl.toNat).sent ≠ 0 ∧
      ¬((l.hops ttl.toNat).lastStatus = .reply ∨ (l.hops ttl.toNat).lastStatus = .unreach) ∧
      now - l.lastActivity ttl.toNat > 1500000) ↔
      (latestStatus heard ttl ≠ some .reply ∧ latestStatus heard ttl ≠ some .unreach) ∧
        Old now (l.lastActivity ttl.toNat) := by
    rw [hk.final_iff (Or.inl rfl), hk.final_iff (Or.inr rfl), not_or,
      sub_gt_iff_old (UInt64.le_trans hactivity hle), and_iff_right (Nat.ne_of_gt hsent)]
  rw [← hold, sweepTimeouts_hop l now httl, sweepHop_status]
  by_cases hcond : (latestStatus heard ttl ≠ some .reply ∧ latestStatus heard ttl ≠ some .unreach) ∧
      Old now (l.lastActivity ttl.toNat)
  · rw [if_pos (hguard.mpr hcond)]
    exact ⟨fun _ => .inr hcond, fun _ => rfl⟩
  · rw [if_neg fun h => hcond (hguard.mp h), or_iff_left hcond]
    rcases hk.status with hs | ⟨hfinal, -, hstale⟩
    · rw [hs]
      cases latestStatus heard ttl with
      | none => simp
      | some t => simp
    · exact absurd ⟨hfinal, hstale.mono hle⟩ hcond

theorem addOrUpdateAlias_lastStatus (h : HopInfo) (addrStr : List UInt8) :
    (h.addOrUpdateAlias addrStr).lastStatus = h.lastStatus := by
  unfold HopInfo.addOrUpdateAlias
  repeat' split
  all_goals rfl

variable (addrBinToStr : List UInt8 → Bool → List UInt8)

@[simp] theorem updateState_startTimeUs (l : Logic) (now : UInt64) (o : Observation) :
    (l.updateState addrBinToStr now o).startTimeUs = l.startTimeUs := by
  simp only [updateState]
  split_ifs
  all_goals rfl

/-- An observation leaves other hops alone. -/
theorem updateState_other (l : Logic) (now : UInt64) {o : Observation} (h : o.ttl ≠ ttl) :
    (l.updateState addrBinToStr now o).hops ttl.toNat = l.hops ttl.toNat ∧
      (l.updateState addrBinToStr now o).lastRecvUs ttl.toNat = l.lastRecvUs ttl.toNat := by
  have hne : ttl.toNat ≠ o.ttl.toNat := fun hcon => h (UInt8.toNat_inj.mp hcon.symm)
  simp only [updateState]
  split_ifs
  all_goals simp [Function.update_of_ne hne]

/-- **What an observation does to a hop**: to its status, and to the time of its last answer. -/
theorem updateState_effect (l : Logic) (now : UInt64) (o : Observation)
    (httl : ttl.toNat ≠ 0 ∧ ttl.toNat < maxHops) :
    ((l.updateState addrBinToStr now o).hops ttl.toNat).lastStatus =
        (statusFor ttl (now, o)).getD (l.hops ttl.toNat).lastStatus ∧
      (l.updateState addrBinToStr now o).lastRecvUs ttl.toNat =
        (answerFor ttl (now, o)).getD (l.lastRecvUs ttl.toNat) := by
  by_cases h : o.ttl = ttl
  · subst h
    have hguard : ¬(o.ttl.toNat ≥ maxHops ∨ o.ttl.toNat = 0) := by omega
    by_cases hans : o.IsAnswer
    · have hcases : o.type = .reply ∨ o.type = .exceeded ∨ o.type = .unreach := hans
      rw [statusFor, answerFor, if_pos ⟨rfl, .inl hans⟩, if_pos ⟨rfl, hans⟩,
        updateState_hop addrBinToStr l now hans httl, addOrUpdateAlias_lastStatus]
      refine ⟨rfl, ?_⟩
      simp only [updateState]
      rw [if_neg hguard, if_pos hcases]
      exact Function.update_self _ _ _
    · have hcases : ¬(o.type = .reply ∨ o.type = .exceeded ∨ o.type = .unreach) := hans
      have hanswer : answerFor o.ttl (now, o) = none := by
        rw [answerFor, if_neg fun hcon => hans hcon.2]
      by_cases htimeout : o.type = .timeout
      · have hstatus : statusFor o.ttl (now, o) = some .timeout := by
          rw [statusFor, if_pos ⟨rfl, .inr htimeout⟩, htimeout]
        rw [hanswer, hstatus]
        simp only [updateState]
        rw [if_neg hguard, if_neg hcases, if_pos htimeout]
        dsimp only
        rw [Function.update_self]
        exact ⟨rfl, rfl⟩
      · have hstatus : statusFor o.ttl (now, o) = none := by
          rw [statusFor, if_neg fun hcon => hcon.2.elim hans htimeout]
        rw [hanswer, hstatus]
        simp only [updateState]
        rw [if_neg hguard, if_neg hcases, if_neg htimeout]
        exact ⟨rfl, rfl⟩
  · obtain ⟨hhop, hrecv⟩ := updateState_other addrBinToStr l now h
    rw [hhop, hrecv, statusFor, answerFor, if_neg fun hcon => h hcon.1, if_neg fun hcon => h hcon.1]
    exact ⟨rfl, rfl⟩

/-- What gives no status is no answer. -/
theorem answerFor_of_statusFor {p : UInt64 × Observation} (h : statusFor ttl p = none) :
    answerFor ttl p = none := by
  rw [statusFor] at h
  rw [answerFor, if_neg]
  rintro ⟨httl, hans⟩
  rw [if_pos ⟨httl, .inl hans⟩] at h
  exact nomatch h

theorem Knows.hear (hk : l.Knows clock heard ttl) (httl : ttl.toNat ≠ 0 ∧ ttl.toNat < maxHops)
    (hle : clock ≤ now) (o : Observation) :
    (l.updateState addrBinToStr now o).Knows now (heard ++ [(now, o)]) ttl := by
  obtain ⟨hstatus, hrecv⟩ := updateState_effect addrBinToStr l now o httl
  constructor
  · rw [hrecv, answerTimes_concat]
    cases answerFor ttl (now, o) with
    | none =>
      rw [Option.toList_none, List.append_nil]
      exact hk.recv
    | some t => simp
  · rw [hstatus, latestStatus_concat, lastActivity, hrecv, updateState_startTimeUs]
    cases hnew : statusFor ttl (now, o) with
    | some t => exact .inl rfl
    | none =>
      rw [answerFor_of_statusFor hnew]
      exact hk.status.imp_right fun hs => ⟨hs.1, hs.2.1, hs.2.2.mono hle⟩

end Logic

/-! ## Runs -/

/-- **The logic process, watched**: in a session, with the last reading of the clock, the probes it
has sent and the observations it has applied, with the times. -/
structure Watch where
  session : Session
  clock : UInt64
  probes : List (UInt64 × UInt8)
  heard : List (UInt64 × Observation)

namespace Watch

/-- What can happen. -/
inductive Act where
  /-- The logic process enters its loop body. -/
  | top (now : UInt64) (intervalMs : UInt32) (paused : Bool) (burst : ℕ)
  /-- The logic process goes on. -/
  | below (now : UInt64)
  /-- The rest of the session does anything, to the rings too. -/
  | rest (session : Session)

/-- The probe that the next step sends. -/
def nextProbe (l : Logic) : List (UInt64 × UInt8) :=
  match l.pc with
  | .generate now (_ + 1) _ => [(now, l.currentTtl)]
  | _ => []

/-- The observation that the next step applies, at `now`. -/
def nextHeard (l : Logic) (now : UInt64) : List (UInt64 × Observation) :=
  match l.pc with
  | .apply _ (o :: _) => [(now, o)]
  | _ => []

variable (addrBinToStr : List UInt8 → Bool → List UInt8)

/-- One thing that happens, if it can.  The clock does not go back. -/
def act : Act → Watch → Option Watch
  | .top now intervalMs paused burst, w =>
      if w.clock ≤ now ∧ 10 ≤ intervalMs ∧ intervalMs ≤ 1000 then
        (w.session.actLogicTop now intervalMs paused burst).map fun s =>
          { w with session := s, clock := now }
      else none
  | .below now, w =>
      if w.clock ≤ now then
        (w.session.actLogic addrBinToStr now).map fun s =>
          ⟨s, now, w.probes ++ nextProbe w.session.logic,
            w.heard ++ nextHeard w.session.logic now⟩
      else none
  | .rest session, w => some { w with session := { session with logic := w.session.logic } }

/-- A step of a run. -/
def Step (w w' : Watch) : Prop := ∃ a, act addrBinToStr a w = some w'

/-- **A session is watched.**  What it does without a restart of its logic process, with a clock
that does not go back, is a step. -/
theorem Step.of_session {w : Watch} {t : Session} {a : Action} (ha : a.isLogicCrash = false)
    (htop : ∀ now intervalMs paused burst, a = .logicTop now intervalMs paused burst →
      w.clock ≤ now ∧ 10 ≤ intervalMs ∧ intervalMs ≤ 1000)
    (hbelow : ∀ now, a = .logic now → w.clock ≤ now)
    (hact : Session.act addrBinToStr a w.session = some t) :
    ∃ w', Step addrBinToStr w w' ∧ w'.session = t := by
  have hrest (hlogic : t.logic = w.session.logic) :
      ∃ w', Step addrBinToStr w w' ∧ w'.session = t := by
    refine ⟨_, ⟨.rest t, rfl⟩, ?_⟩
    dsimp only
    rw [← hlogic]
  cases a with
  | logicTop now intervalMs paused burst =>
    refine ⟨{ w with session := t, clock := now }, ⟨.top now intervalMs paused burst, ?_⟩, rfl⟩
    rw [act, if_pos (htop now intervalMs paused burst rfl)]
    exact Option.map_eq_some_iff.mpr ⟨t, hact, rfl⟩
  | logic now =>
    refine ⟨⟨t, now, w.probes ++ nextProbe w.session.logic,
      w.heard ++ nextHeard w.session.logic now⟩, ⟨.below now, ?_⟩, rfl⟩
    rw [act, if_pos (hbelow now rfl)]
    exact Option.map_eq_some_iff.mpr ⟨t, hact, rfl⟩
  | gk now => exact hrest (Session.actGk_logic hact)
  | gkSend sent => exact hrest (Session.actGkSend_logic hact)
  | gkRecv now pkts => exact hrest (Session.actGkRecv_logic hact)
  | gkCrash id =>
    obtain rfl := Option.some.inj hact
    exact hrest rfl
  | logicCrash us => exact Bool.noConfusion ha

/-- A logic process just started, in any session. -/
def start (session : Session) (startTimeUs : UInt64) : Watch :=
  ⟨{ session with logic := .start startTimeUs }, startTimeUs, [], []⟩

/-- The invariant. -/
structure Inv (startTimeUs : UInt64) (w : Watch) : Prop where
  started : w.session.logic.startTimeUs = startTimeUs
  times : Times startTimeUs w.clock w.heard
  knows : ∀ ttl : UInt8, ttl.toNat ≠ 0 ∧ ttl.toNat < maxHops →
    w.session.logic.Knows w.clock w.heard ttl

/-- A probe is sent. -/
theorem nextIntent_keeps (l : Logic) (origin : ℕ) (now : UInt64) :
    l.Keeps (l.nextIntent origin now).2 := by
  refine ⟨rfl, rfl, fun i => ?_⟩
  simp only [Logic.nextIntent]
  by_cases h : i = l.currentTtl.toNat
  · subst h
    rw [Function.update_self]
  · rw [Function.update_of_ne h]

/-- **The logic process below the top of its loop** applies an observation, or keeps what it
knows. -/
theorem actLogic_keeps {s t : Session} {clock : UInt64}
    (hact : s.actLogic addrBinToStr clock = some t) :
    nextHeard s.logic clock = [] ∧ s.logic.Keeps t.logic ∨
      ∃ o, nextHeard s.logic clock = [(clock, o)] ∧
        (s.logic.updateState addrBinToStr clock o).Keeps t.logic := by
  rcases Session.actLogic_cases hact with ⟨now, left, intents, pc, hpc, hlogic⟩ |
    ⟨now, o, rest, pc, hpc, hlogic⟩ | ⟨hpc, lastProbeUs, lastTuiUs, pc, hlogic⟩
  · obtain ⟨hstart, hrecv, hstatus⟩ := nextIntent_keeps s.logic s.incarnation now
    rw [nextHeard, hpc, hlogic]
    exact .inl ⟨rfl, hstart, hrecv, hstatus⟩
  · rw [nextHeard, hpc, hlogic]
    exact .inr ⟨o, rfl, rfl, rfl, fun _ => rfl⟩
  · rw [hlogic, nextHeard]
    refine .inl ⟨?_, rfl, rfl, fun _ => rfl⟩
    split
    · next hpc' => exact absurd hpc' (hpc _ _ _)
    · rfl

theorem start_inv (session : Session) (startTimeUs : UInt64) :
    (start session startTimeUs).Inv startTimeUs where
  started := rfl
  times := ⟨UInt64.le_refl _, by simp [start], by simp [start]⟩
  knows := fun ttl _ => ⟨rfl, .inl rfl⟩

variable {addrBinToStr}

theorem Inv.top {startTimeUs now : UInt64} {w : Watch} {s : Session} (h : w.Inv startTimeUs)
    (hle : w.clock ≤ now) {intervalMs : UInt32} {paused : Bool} {burst : ℕ}
    (hact : w.session.actLogicTop now intervalMs paused burst = some s) :
    ({ w with session := s, clock := now } : Watch).Inv startTimeUs := by
  obtain ⟨-, pc, hlogic⟩ := Session.actLogicTop_swept hact
  have hkeeps : (w.session.logic.sweepTimeouts now).Keeps s.logic := by
    rw [hlogic]
    exact ⟨rfl, rfl, fun _ => rfl⟩
  have htimes : Times w.session.logic.startTimeUs w.clock w.heard := by
    rw [h.started]
    exact h.times
  exact ⟨hkeeps.start.trans h.started, h.times.later hle, fun ttl httl =>
    ((h.knows ttl httl).sweep htimes httl hle).keep (UInt64.le_refl _) hkeeps⟩

/-- **Every step keeps the invariant.** -/
theorem Step.inv {startTimeUs : UInt64} {w w' : Watch} (hstep : Step addrBinToStr w w')
    (h : w.Inv startTimeUs) : w'.Inv startTimeUs := by
  obtain ⟨a, hact⟩ := hstep
  cases a with
  | top now intervalMs paused burst =>
    rw [act] at hact
    split at hact
    · next hguard =>
      obtain ⟨s, htop, rfl⟩ := Option.map_eq_some_iff.mp hact
      exact h.top hguard.1 htop
    · exact nomatch hact
  | below now =>
    rw [act] at hact
    split at hact
    · next hle =>
      obtain ⟨s, hlogic, rfl⟩ := Option.map_eq_some_iff.mp hact
      rcases actLogic_keeps addrBinToStr hlogic with ⟨hnone, hkeeps⟩ | ⟨o, hone, hkeeps⟩
      · rw [hnone, List.append_nil]
        exact ⟨hkeeps.start.trans h.started, h.times.later hle,
          fun ttl httl => (h.knows ttl httl).keep hle hkeeps⟩
      · rw [hone]
        refine ⟨?_, h.times.concat hle o, fun ttl httl => ?_⟩
        · rw [hkeeps.start, Logic.updateState_startTimeUs, h.started]
        · exact ((h.knows ttl httl).hear addrBinToStr httl hle o).keep (UInt64.le_refl _) hkeeps
    · exact nomatch hact
  | rest session =>
    obtain rfl := Option.some.inj hact
    exact ⟨h.started, h.times, h.knows⟩

theorem inv_of_reachable {session : Session} {startTimeUs : UInt64} {w : Watch}
    (h : Reachable (Step addrBinToStr) (start session startTimeUs) w) : w.Inv startTimeUs :=
  h.invariant (start_inv session startTimeUs) fun _ _ _ hw hstep => hstep.inv hw

/-- A schedule and a sweep after it. -/
theorem exists_sweep {τ : Type*} {session : Session} {startTimeUs now : UInt64} {as : List Act}
    {obs : Watch → Watch → τ} {b : τ}
    (h : (exec (act addrBinToStr) as (start session startTimeUs)).map
      (fun w => (act addrBinToStr (.top now 1000 false 1) w).map (obs w)) = some (some b)) :
    ∃ w w', Reachable (Step addrBinToStr) (start session startTimeUs) w ∧
      act addrBinToStr (.top now 1000 false 1) w = some w' ∧ obs w w' = b := by
  obtain ⟨w, hw, hobs⟩ := Reachable.exists_of_exec (Step addrBinToStr) h
    fun a _ w w' hact => ⟨a, hact⟩
  obtain ⟨w', hact, hb⟩ := Option.map_eq_some_iff.mp hobs
  exact ⟨w, w', hw, hact, hb⟩

/-- A round of the loop that sends a burst and finds no observation. -/
def probeRound (now : UInt64) (burst : ℕ) : List Act :=
  .top now 1000 false burst :: List.replicate (6 * burst + 6) (.below now)

/-- An echo reply from hop 1. -/
def echoFromHop1 : Observation where
  ttl := 1
  seq := 0
  rttUs := 10000
  type := .reply
  addrBin := [8, 8, 8, 8]
  isV6 := false
  origin := 0

/-- A session with the echo reply in `g2l`. -/
def answered : Session :=
  { Session.init 0 7 false with
    g2l := ⟨⟨1, 0, fun _ => echoFromHop1⟩, none, none, [[echoFromHop1]], []⟩ }

/-- A round of the loop that comes too early for a probe, and applies the echo reply. -/
def answerRound (now : UInt64) : List Act :=
  .rest answered :: .top now 1000 false 1 :: List.replicate 11 (.below now)

end Watch

/-- **Which hops have timed out.**  In every run of the logic process, right after a sweep, a hop
that was probed is timed out just when the last status it was given is a timeout, or is neither an
echo reply nor an unreachable, and neither did the hop answer in the 1.5 s before nor the session
start then. -/
theorem timeout_status_iff (addrBinToStr : List UInt8 → Bool → List UInt8) (session : Session)
    (startTimeUs : UInt64) (w w' : Watch)
    (hw : Reachable (Watch.Step addrBinToStr) (Watch.start session startTimeUs) w)
    (now : UInt64) (intervalMs : UInt32) (paused : Bool) (burst : ℕ)
    (hact : Watch.act addrBinToStr (.top now intervalMs paused burst) w = some w') (ttl : UInt8)
    (httl : ttl.toNat ≠ 0 ∧ ttl.toNat < maxHops)
    (hsent : 0 < (w'.session.logic.hops ttl.toNat).sent) :
    (w'.session.logic.hops ttl.toNat).lastStatus = .timeout ↔
      latestStatus w.heard ttl = some .timeout ∨
        (latestStatus w.heard ttl ≠ some .reply ∧ latestStatus w.heard ttl ≠ some .unreach) ∧
          (∀ t ∈ answerTimes w.heard ttl, Old now t) ∧ Old now startTimeUs := by
  have hinv := Watch.inv_of_reachable hw
  have htimes : Times w.session.logic.startTimeUs w.clock w.heard := by
    rw [hinv.started]
    exact hinv.times
  rw [Watch.act] at hact
  split at hact
  · next hguard =>
    obtain ⟨s, htop, rfl⟩ := Option.map_eq_some_iff.mp hact
    obtain ⟨-, pc, hlogic⟩ := Session.actLogicTop_swept htop
    have hprobed : 0 < (w.session.logic.hops ttl.toNat).sent := by
      rw [hlogic] at hsent
      exact Nat.lt_of_lt_of_eq hsent (Logic.sweepTimeouts_sent _ now _)
    rw [hlogic, ← hinv.started]
    exact (hinv.knows ttl httl).sweep_status_iff htimes httl hguard.1 hprobed
  · exact nomatch hact

/-- Hop 3 is probed first two seconds after the start, and swept a millisecond later. -/
theorem timeout_status_iff_late_probe :
    ∃ w w' : Watch, (w'.session.logic.hops 3).sent = 1 ∧
      ((w'.session.logic.hops 3).lastStatus = .timeout ↔
        latestStatus w.heard 3 = some .timeout ∨
          (latestStatus w.heard 3 ≠ some .reply ∧ latestStatus w.heard 3 ≠ some .unreach) ∧
            (∀ t ∈ answerTimes w.heard 3, Old 3001000 t) ∧ Old 3001000 1000000) := by
  have hrun : (exec (Watch.act fun addrBin _ => inetNtop4 addrBin)
      (Watch.probeRound 1000000 1 ++ Watch.probeRound 2000000 1 ++ Watch.probeRound 3000000 1)
      (.start (.init 0 7 false) 1000000)).map
      (fun w => (Watch.act (fun addrBin _ => inetNtop4 addrBin) (.top 3001000 1000 false 1) w).map
        fun w' => (w'.session.logic.hops 3).sent) = some (some 1) := by
    decide +kernel
  obtain ⟨w, w', hw, hact, hsent⟩ := Watch.exists_sweep hrun
  exact ⟨w, w', hsent, timeout_status_iff _ (.init 0 7 false) 1000000 w w' hw 3001000 1000 false 1
    hact 3 (by decide) (by rw [show (3 : UInt8).toNat = 3 from rfl, hsent]; decide)⟩

/-- A probe was sent to a hop more than 1.5 s before, and nothing was heard of it for 1.5 s. -/
def Watch.Silent (w : Watch) (now : UInt64) (ttl : UInt8) : Prop :=
  (∃ p ∈ w.probes, p.2 = ttl ∧ Old now p.1) ∧ ∀ p ∈ w.heard, p.2.ttl = ttl → Old now p.1

instance (w : Watch) (now : UInt64) (ttl : UInt8) : Decidable (w.Silent now ttl) :=
  inferInstanceAs (Decidable (_ ∧ _))

/-- **A hop is timed out and not silent, and a hop is silent and not timed out.**  Hop 3, probed a
millisecond ago for the first time, in a session two seconds old; and hop 1, probed nine seconds ago
to no avail, that had answered the probe before with an echo reply. -/
theorem timeout_status_untruthful :
    (∃ w w' : Watch, Reachable (Watch.Step fun addrBin _ => inetNtop4 addrBin)
        (.start (.init 0 7 false) 1000000) w ∧
      Watch.act (fun addrBin _ => inetNtop4 addrBin) (.top 3001000 1000 false 1) w = some w' ∧
      0 < (w'.session.logic.hops 3).sent ∧
      (w'.session.logic.hops 3).lastStatus = .timeout ∧ ¬w.Silent 3001000 3) ∧
    ∃ w w' : Watch, Reachable (Watch.Step fun addrBin _ => inetNtop4 addrBin)
        (.start (.init 0 7 false) 1000000) w ∧
      Watch.act (fun addrBin _ => inetNtop4 addrBin) (.top 11000000 1000 false 1) w = some w' ∧
      0 < (w'.session.logic.hops 1).sent ∧
      (w'.session.logic.hops 1).lastStatus ≠ .timeout ∧ w.Silent 11000000 1 := by
  have hlate : (exec (Watch.act fun addrBin _ => inetNtop4 addrBin)
      (Watch.probeRound 1000000 1 ++ Watch.probeRound 2000000 1 ++ Watch.probeRound 3000000 1)
      (.start (.init 0 7 false) 1000000)).map
      (fun w => (Watch.act (fun addrBin _ => inetNtop4 addrBin) (.top 3001000 1000 false 1) w).map
        fun w' => decide (0 < (w'.session.logic.hops 3).sent ∧
          (w'.session.logic.hops 3).lastStatus = .timeout ∧ ¬w.Silent 3001000 3)) =
      some (some true) := by
    decide +kernel
  have hsilent : (exec (Watch.act fun addrBin _ => inetNtop4 addrBin)
      (Watch.probeRound 1000000 30 ++ Watch.answerRound 1010000 ++ Watch.probeRound 2000000 30)
      (.start (.init 0 7 false) 1000000)).map
      (fun w => (Watch.act (fun addrBin _ => inetNtop4 addrBin) (.top 11000000 1000 false 1) w).map
        fun w' => decide (0 < (w'.session.logic.hops 1).sent ∧
          (w'.session.logic.hops 1).lastStatus ≠ .timeout ∧ w.Silent 11000000 1)) =
      some (some true) := by
    decide +kernel
  constructor
  · obtain ⟨w, w', hw, hact, hobs⟩ := Watch.exists_sweep hlate
    exact ⟨w, w', hw, hact, of_decide_eq_true hobs⟩
  · obtain ⟨w, w', hw, hact, hobs⟩ := Watch.exists_sweep hsilent
    exact ⟨w, w', hw, hact, of_decide_eq_true hobs⟩

end Nsr
