import Nsr.Session.System
import Mathlib.Algebra.Order.Archimedean.Basic
import Mathlib.Algebra.Order.Field.Rat
import Mathlib.Data.Rat.Floor
import Mathlib.Tactic.Linarith
import Mathlib.Tactic.Positivity

/-!
# How large a burst is

`adjust_pacing` (`src/io/logic.c`) looks every 250 ms at what was sent and answered
since, keeps a moving average of the loss, and takes a quarter off the burst when
that is high or adds one when it is low.  `Session` takes the size of a burst as
given, between `1` and `MAX_BURST`, for the loop is stuck outside of that.  Here
the size comes from the pacing.

The average is a `float`.  The burst depends on it by two comparisons only, so the
pacing is written over an arithmetic `Loss`; the program's is `Loss.float32`.

* `adjustPacing`: the function.
* `adjustPacing_inRange`: the burst stays between `1` and `64`.
* `Paced.Step`, `paced_session_is_a_session`: a session with its pacing, and that it
  is a session whose bursts are never refused.
* `backs_off`: exactly, when nothing is answered any more, the burst comes down to
  `1`, whatever it was.
-/

namespace Nsr
namespace Session

open Transition

/-- The arithmetic of the loss. -/
structure Loss (F : Type) where
  /-- `0.0f`. -/
  zero : F
  /-- `ewma * 0.7f + (1.0f - (float)recv / (float)sent) * 0.3f`. -/
  next : F → UInt32 → UInt32 → F
  /-- `ewma > 0.35f`. -/
  high : F → Bool
  /-- `ewma < 0.10f`. -/
  low : F → Bool

namespace Loss

/-- `float`. -/
def float32 : Loss Float32 where
  zero := 0
  next ewma recv sent := ewma * 0.7 + (1 - recv.toFloat32 / sent.toFloat32) * 0.3
  high ewma := decide (ewma > 0.35)
  low ewma := decide (ewma < 0.10)

/-- Exact rational arithmetic. -/
def exact : Loss ℚ where
  zero := 0
  next ewma recv sent := ewma * (7 / 10) + (1 - recv.toNat / sent.toNat) * (3 / 10)
  high ewma := decide (ewma > 35 / 100)
  low ewma := decide (ewma < 10 / 100)

end Loss

/-- `nsr_pacing_t`. -/
structure Pacing (F : Type) where
  currentBurst : UInt32
  maxBurst : UInt32
  minBurst : UInt32
  lastAdjustUs : UInt64
  lastSent : UInt32
  lastRecv : UInt32
  ewmaLoss : F

section Pacing

variable {F : Type} (A : Loss F)

/-- `g_pacing` as a logic process finds it. -/
def Pacing.start : Pacing F := ⟨28, 64, 1, 0, 0, 0, A.zero⟩

/-- A counter summed over hops `1` to `NSR_MAX_HOPS - 1`, in 32 bits. -/
def total (count : HopInfo → ℕ) (hops : ℕ → HopInfo) : UInt32 :=
  .ofNat ((List.range' 1 (maxHops - 1)).map fun i => count (hops i)).sum

/-- What the loss does to the burst. -/
def Pacing.resize (p : Pacing F) : Pacing F :=
  if A.high p.ewmaLoss then
    -- back off by 25 %
    let burst := p.currentBurst * 3 / 4
    { p with currentBurst := if burst < p.minBurst then p.minBurst else burst }
  else if A.low p.ewmaLoss then
    if p.currentBurst < p.maxBurst then { p with currentBurst := p.currentBurst + 1 } else p
  else p

/-- `adjust_pacing`, from the two totals on. -/
def Pacing.sample (p : Pacing F) (nowUs : UInt64) (totalSent totalRecv : UInt32) : Pacing F :=
  let deltaSent := totalSent - p.lastSent
  let deltaRecv := totalRecv - p.lastRecv
  let p := { p with lastSent := totalSent, lastRecv := totalRecv, lastAdjustUs := nowUs }
  if deltaSent = 0 then p
  else { p with ewmaLoss := A.next p.ewmaLoss deltaRecv deltaSent }.resize A

/-- `adjust_pacing`. -/
def adjustPacing (p : Pacing F) (nowUs : UInt64) (hops : ℕ → HopInfo) : Pacing F :=
  if nowUs - p.lastAdjustUs < 250000 then p
  else p.sample A nowUs (total HopInfo.sent hops) (total HopInfo.recv hops)

/-- `burst` in `nsr_logic_run`. -/
def Pacing.burst (p : Pacing F) : ℕ :=
  if p.currentBurst.toNat > Nsr.maxBurst then Nsr.maxBurst else p.currentBurst.toNat

/-! ## The range of the burst -/

/-- The two bounds are as they were given, and the burst is between them. -/
structure Pacing.InRange (p : Pacing F) : Prop where
  max : p.maxBurst = 64
  min : p.minBurst = 1
  one_le : 1 ≤ p.currentBurst.toNat
  le : p.currentBurst.toNat ≤ 64

theorem Pacing.start_inRange : (Pacing.start A).InRange :=
  ⟨rfl, rfl, show 1 ≤ (28 : UInt32).toNat by decide, show (28 : UInt32).toNat ≤ 64 by decide⟩

theorem Pacing.InRange.burst {p : Pacing F} (h : p.InRange) :
    1 ≤ p.burst ∧ p.burst ≤ Nsr.maxBurst := by
  have hone := h.one_le
  have hle := h.le
  unfold Pacing.burst Nsr.maxBurst
  split
  · omega
  · omega

variable {A}

/-- Three quarters of a burst. -/
theorem toNat_three_quarters {b : UInt32} (h : b.toNat ≤ 64) :
    (b * 3 / 4).toNat = b.toNat * 3 / 4 := by
  rw [UInt32.toNat_div, UInt32.toNat_mul, Nat.mod_eq_of_lt]
  · rfl
  · change b.toNat * 3 < 4294967296
    omega

/-- **What one adjustment does to the burst.** -/
theorem Pacing.resize_cases {p : Pacing F} (h : p.InRange) :
    (A.high p.ewmaLoss = true ∧
      (p.resize A).currentBurst.toNat = max (p.currentBurst.toNat * 3 / 4) 1) ∨
    (A.high p.ewmaLoss = false ∧ A.low p.ewmaLoss = true ∧
      (p.resize A).currentBurst.toNat = min (p.currentBurst.toNat + 1) 64) ∨
    (A.high p.ewmaLoss = false ∧ A.low p.ewmaLoss = false ∧ p.resize A = p) := by
  unfold Pacing.resize
  cases hhigh : A.high p.ewmaLoss with
  | true =>
    refine .inl ⟨rfl, ?_⟩
    rw [if_pos rfl]
    dsimp only
    rw [h.min]
    split
    next hlt =>
      rw [UInt32.lt_iff_toNat_lt, toNat_three_quarters h.le] at hlt
      change p.currentBurst.toNat * 3 / 4 < 1 at hlt
      change 1 = _
      omega
    next hge =>
      rw [UInt32.lt_iff_toNat_lt, toNat_three_quarters h.le] at hge
      change ¬p.currentBurst.toNat * 3 / 4 < 1 at hge
      rw [toNat_three_quarters h.le]
      omega
  | false =>
    rw [if_neg Bool.false_ne_true]
    cases hlow : A.low p.ewmaLoss with
    | true =>
      refine .inr (.inl ⟨rfl, rfl, ?_⟩)
      rw [if_pos rfl, h.max]
      have hle := h.le
      split
      next hlt =>
        rw [UInt32.lt_iff_toNat_lt] at hlt
        change p.currentBurst.toNat < 64 at hlt
        change (p.currentBurst + 1).toNat = _
        rw [UInt32.toNat_add, Nat.mod_eq_of_lt (by change _ + 1 < 4294967296; omega)]
        change p.currentBurst.toNat + 1 = _
        omega
      next hge =>
        rw [UInt32.lt_iff_toNat_lt] at hge
        change ¬p.currentBurst.toNat < 64 at hge
        omega
    | false => exact .inr (.inr ⟨rfl, rfl, by rw [if_neg Bool.false_ne_true]⟩)

theorem Pacing.resize_bounds (p : Pacing F) :
    (p.resize A).maxBurst = p.maxBurst ∧ (p.resize A).minBurst = p.minBurst := by
  unfold Pacing.resize
  dsimp only
  repeat' split
  all_goals exact ⟨rfl, rfl⟩

theorem Pacing.InRange.resize {p : Pacing F} (h : p.InRange) : (p.resize A).InRange := by
  obtain ⟨hmax, hmin⟩ := p.resize_bounds (A := A)
  have hone := h.one_le
  have hle := h.le
  obtain ⟨-, hburst⟩ | ⟨-, -, hburst⟩ | ⟨-, -, heq⟩ := Pacing.resize_cases (A := A) h
  · exact ⟨hmax.trans h.max, hmin.trans h.min, by omega, by omega⟩
  · exact ⟨hmax.trans h.max, hmin.trans h.min, by omega, by omega⟩
  · rw [heq]
    exact h

theorem Pacing.InRange.sample {p : Pacing F} (h : p.InRange) (nowUs : UInt64)
    (totalSent totalRecv : UInt32) : (p.sample A nowUs totalSent totalRecv).InRange := by
  unfold Pacing.sample
  dsimp only
  split
  · exact ⟨h.max, h.min, h.one_le, h.le⟩
  · exact Pacing.InRange.resize ⟨h.max, h.min, h.one_le, h.le⟩

/-- **The burst stays in its range.** -/
theorem adjustPacing_inRange {p : Pacing F} (h : p.InRange) (nowUs : UInt64)
    (hops : ℕ → HopInfo) : (adjustPacing A p nowUs hops).InRange := by
  unfold adjustPacing
  split
  · exact h
  · exact h.sample nowUs _ _

end Pacing

/-! ## A session and its pacing -/

/-- A session, and the pacing of its logic process. -/
structure Paced (F : Type) where
  session : Session
  pacing : Pacing F

namespace Paced

variable {F : Type} (A : Loss F) (addrBinToStr : List UInt8 → Bool → List UInt8)

def init (startTimeUs : UInt64) (gkId : UInt16) (isV6 : Bool) : Paced F :=
  ⟨Session.init startTimeUs gkId isV6, .start A⟩

/-- One action.  At the top of its loop the logic process adjusts the pacing and takes
the burst from it; the size in the action is not looked at.  A new logic process has
the pacing `main` was linked with. -/
def act (a : Action) (s : Paced F) : Option (Paced F) :=
  match a with
  | .logicTop now intervalMs paused _ =>
      match s.session.logic.pc with
      | .top =>
          let pacing := adjustPacing A s.pacing now s.session.logic.hops
          (s.session.actLogicTop now intervalMs paused pacing.burst).map (⟨·, pacing⟩)
      | _ => none
  | .logicCrash us => some ⟨s.session.crashLogic us, .start A⟩
  | a => (Session.act addrBinToStr a s.session).map (⟨·, s.pacing⟩)

def Step (s t : Paced F) : Prop := ∃ a, act A addrBinToStr a s = some t

variable {A addrBinToStr} {s t : Paced F}

/-- **What an action does to the pacing**: the top of the loop adjusts it, a new logic
process has it anew, and nothing else touches it. -/
theorem act_cases {a : Action} (hact : act A addrBinToStr a s = some t) :
    (∃ now intervalMs paused burst, a = .logicTop now intervalMs paused burst ∧
      t.pacing = adjustPacing A s.pacing now s.session.logic.hops ∧
      s.session.actLogicTop now intervalMs paused t.pacing.burst = some t.session) ∨
    (∃ us, a = .logicCrash us ∧ t = ⟨s.session.crashLogic us, .start A⟩) ∨
    (Session.act addrBinToStr a s.session = some t.session ∧ t.pacing = s.pacing) := by
  have hrest : (Session.act addrBinToStr a s.session).map (Paced.mk · s.pacing) = some t →
      Session.act addrBinToStr a s.session = some t.session ∧ t.pacing = s.pacing := by
    intro h
    obtain ⟨u, hu, rfl⟩ := Option.map_eq_some_iff.mp h
    exact ⟨hu, rfl⟩
  cases a with
  | logicTop now intervalMs paused burst =>
    unfold act at hact
    dsimp only at hact
    split at hact
    · obtain ⟨u, hu, rfl⟩ := Option.map_eq_some_iff.mp hact
      exact .inl ⟨now, intervalMs, paused, burst, rfl, rfl, hu⟩
    · cases hact
  | logicCrash us => exact .inr (.inl ⟨us, rfl, (Option.some.inj hact).symm⟩)
  | _ => exact .inr (.inr (hrest hact))

/-- **An action of a paced session is one of the session**, of the same kind. -/
theorem act_session {a : Action} (hact : act A addrBinToStr a s = some t) :
    ∃ b : Action, b.isCrash = a.isCrash ∧ b.isLogicCrash = a.isLogicCrash ∧
      Session.act addrBinToStr b s.session = some t.session := by
  obtain ⟨now, intervalMs, paused, burst, rfl, -, htop⟩ | ⟨us, rfl, rfl⟩ | ⟨hsame, -⟩ :=
    act_cases hact
  · exact ⟨.logicTop now intervalMs paused t.pacing.burst, rfl, rfl, htop⟩
  · exact ⟨.logicCrash us, rfl, rfl, rfl⟩
  · exact ⟨a, rfl, rfl, hsame⟩

theorem act_inRange {a : Action} (hact : act A addrBinToStr a s = some t) (hs : s.pacing.InRange) :
    t.pacing.InRange := by
  obtain ⟨now, intervalMs, paused, burst, -, hpacing, -⟩ | ⟨us, -, rfl⟩ | ⟨-, hpacing⟩ :=
    act_cases hact
  · rw [hpacing]
    exact adjustPacing_inRange hs now _
  · exact Pacing.start_inRange A
  · rw [hpacing]
    exact hs

/-- **The loop of a paced logic process is never refused its burst.** -/
theorem top_enabled (hs : s.pacing.InRange) (hpc : s.session.logic.pc = .top) (now : UInt64)
    (intervalMs : UInt32) (paused : Bool) (burst : ℕ) :
    (act A addrBinToStr (.logicTop now intervalMs paused burst) s).isSome := by
  have hburst := (adjustPacing_inRange (A := A) hs now s.session.logic.hops).burst
  simp only [act, hpc, Option.isSome_map, actLogicTop, hburst, and_self, if_true]
  split <;> rfl

variable (A addrBinToStr)

/-- **A paced session is a session.**  In every run the session does what a session
does, the burst of the pacing stays between `1` and `64`, and at the top of its loop
the logic process can always go on. -/
theorem paced_session_is_a_session {us : UInt64} {id : UInt16} {isV6 : Bool}
    (h : Reachable (Step A addrBinToStr) (init A us id isV6) s) :
    Reachable (Session.Step addrBinToStr) (Session.init us id isV6) s.session ∧
      (1 ≤ s.pacing.currentBurst.toNat ∧ s.pacing.currentBurst.toNat ≤ 64) ∧
      (s.session.logic.pc = .top → ∀ now intervalMs paused burst,
        ∃ t, act A addrBinToStr (.logicTop now intervalMs paused burst) s = some t) := by
  have hinv : s.pacing.InRange :=
    h.invariant (P := fun s => s.pacing.InRange) (Pacing.start_inRange A)
      fun _ _ _ hs ⟨_, hact⟩ => act_inRange hact hs
  have hrun : Reachable (Session.Step addrBinToStr) (Session.init us id isV6) s.session := by
    refine h.map Paced.session ?_
    rintro s t - ⟨a, hact⟩
    obtain ⟨b, -, -, hb⟩ := act_session hact
    exact .single ⟨b, hb⟩
  refine ⟨hrun, ⟨hinv.one_le, hinv.le⟩, fun hpc now intervalMs paused burst => ?_⟩
  exact Option.isSome_iff_exists.mp (top_enabled hinv hpc now intervalMs paused burst)

/-- **A paced session is a session**: one whose logic process has begun its first
burst, of the 28 probes the pacing starts with. -/
theorem paced_session_is_a_session_first_burst : ∃ s : Paced ℚ,
    s.session.logic.pc = .generate 100000 28 [] ∧
      Reachable (Session.Step fun addrBin _ => addrBin) (Session.init 0 7 false) s.session ∧
      (1 ≤ s.pacing.currentBurst.toNat ∧ s.pacing.currentBurst.toNat ≤ 64) ∧
      (s.session.logic.pc = .top → ∀ now intervalMs paused burst, ∃ t,
        act .exact (fun addrBin _ => addrBin) (.logicTop now intervalMs paused burst) s = some t) := by
  have h : Reachable (Step Loss.exact fun addrBin _ => addrBin) (init .exact 0 7 false)
    (init .exact 0 7 false) := Reachable.refl
  have h := h.tail ⟨.logicTop 100000 100 false 0, rfl⟩
  exact ⟨_, rfl, paced_session_is_a_session _ _ h⟩

end Paced

/-! ## Backing off, exactly -/

namespace Pacing

/-- An adjustment that finds probes sent, of which the part `loss` was not answered. -/
def Adjusts (loss : ℚ) (p q : Pacing ℚ) : Prop :=
  ∃ now sent recv, sent - p.lastSent ≠ 0 ∧
    1 - ((recv - p.lastRecv).toNat : ℚ) / (sent - p.lastSent).toNat = loss ∧
    q = p.sample Loss.exact now sent recv

variable {loss : ℚ} {p q : Pacing ℚ}

theorem Adjusts.eq (h : Adjusts loss p q) : ∃ p' : Pacing ℚ,
    p'.ewmaLoss = p.ewmaLoss * (7 / 10) + loss * (3 / 10) ∧ p'.currentBurst = p.currentBurst ∧
      p'.maxBurst = p.maxBurst ∧ p'.minBurst = p.minBurst ∧ q = p'.resize Loss.exact := by
  obtain ⟨now, sent, recv, hne, rfl, rfl⟩ := h
  unfold Pacing.sample
  dsimp only
  rw [if_neg hne]
  refine ⟨{ p with
    lastSent := sent, lastRecv := recv, lastAdjustUs := now
    ewmaLoss := Loss.exact.next p.ewmaLoss (recv - p.lastRecv) (sent - p.lastSent) },
    rfl, rfl, rfl, rfl, rfl⟩

theorem resize_ewmaLoss {F : Type} (A : Loss F) (p : Pacing F) :
    (p.resize A).ewmaLoss = p.ewmaLoss := by
  unfold Pacing.resize
  dsimp only
  repeat' split
  all_goals rfl

theorem Adjusts.ewmaLoss (h : Adjusts loss p q) :
    q.ewmaLoss = p.ewmaLoss * (7 / 10) + loss * (3 / 10) := by
  obtain ⟨p', hewma, -, -, -, rfl⟩ := h.eq
  rw [resize_ewmaLoss, hewma]

theorem Adjusts.inRange (h : Adjusts loss p q) (hp : p.InRange) : q.InRange := by
  obtain ⟨p', -, hburst, hmax, hmin, rfl⟩ := h.eq
  exact Pacing.InRange.resize
    ⟨hmax.trans hp.max, hmin.trans hp.min, hburst ▸ hp.one_le, hburst ▸ hp.le⟩

/-- A burst that is cut. -/
theorem Adjusts.cut (h : Adjusts loss p q) (hp : p.InRange) (hhigh : 35 / 100 < q.ewmaLoss) :
    q.currentBurst.toNat = max (p.currentBurst.toNat * 3 / 4) 1 := by
  obtain ⟨p', -, hburst, hmax, hmin, rfl⟩ := h.eq
  have hp' : p'.InRange :=
    ⟨hmax.trans hp.max, hmin.trans hp.min, hburst ▸ hp.one_le, hburst ▸ hp.le⟩
  rw [resize_ewmaLoss] at hhigh
  have htrue : Loss.exact.high p'.ewmaLoss = true := decide_eq_true hhigh
  obtain ⟨-, hcut⟩ | ⟨hfalse, -⟩ | ⟨hfalse, -⟩ := Pacing.resize_cases (A := Loss.exact) hp'
  · rw [hcut, hburst]
  · rw [htrue] at hfalse
    cases hfalse
  · rw [htrue] at hfalse
    cases hfalse

/-- A burst that grows. -/
theorem Adjusts.grown (h : Adjusts loss p q) (hp : p.InRange) (hlow : q.ewmaLoss < 10 / 100) :
    q.currentBurst.toNat = min (p.currentBurst.toNat + 1) 64 := by
  obtain ⟨p', -, hburst, hmax, hmin, rfl⟩ := h.eq
  have hp' : p'.InRange :=
    ⟨hmax.trans hp.max, hmin.trans hp.min, hburst ▸ hp.one_le, hburst ▸ hp.le⟩
  rw [resize_ewmaLoss] at hlow
  have htrue : Loss.exact.low p'.ewmaLoss = true := decide_eq_true hlow
  have hfalse : Loss.exact.high p'.ewmaLoss = false := by
    refine decide_eq_false ?_
    linarith
  obtain ⟨hhigh, -⟩ | ⟨-, -, hgrown⟩ | ⟨-, hlow', -⟩ := Pacing.resize_cases (A := Loss.exact) hp'
  · rw [hfalse] at hhigh
    cases hhigh
  · rw [hgrown, hburst]
  · rw [htrue] at hlow'
    cases hlow'

/-! ### A loss that stays -/

section Steady

variable {p : ℕ → Pacing ℚ} (h : ∀ k, Adjusts loss (p k) (p (k + 1)))

include h

/-- The average comes to a loss that stays, by three tenths at a time. -/
theorem steady_ewmaLoss (k : ℕ) :
    (p k).ewmaLoss = loss + (7 / 10) ^ k * ((p 0).ewmaLoss - loss) := by
  induction k with
  | zero => ring
  | succ k ih =>
    rw [(h k).ewmaLoss, ih]
    ring

/-- Within any distance of it, from some adjustment on. -/
theorem steady_close {ε : ℚ} (hε : 0 < ε) :
    ∃ n, ∀ k, n ≤ k → |(p k).ewmaLoss - loss| < ε := by
  have hpos : 0 < |(p 0).ewmaLoss - loss| + 1 := by positivity
  obtain ⟨n, hn⟩ := exists_pow_lt_of_lt_one (div_pos hε hpos) (by norm_num : (7 / 10 : ℚ) < 1)
  refine ⟨n, fun k hk => ?_⟩
  have hpow : (7 / 10 : ℚ) ^ k ≤ (7 / 10) ^ n :=
    pow_le_pow_of_le_one (by norm_num) (by norm_num) hk
  have hnonneg : (0 : ℚ) ≤ (7 / 10) ^ k := by positivity
  have hlt : (7 / 10 : ℚ) ^ k * (|(p 0).ewmaLoss - loss| + 1) < ε := by
    calc (7 / 10 : ℚ) ^ k * (|(p 0).ewmaLoss - loss| + 1)
        ≤ (7 / 10) ^ n * (|(p 0).ewmaLoss - loss| + 1) := by gcongr
      _ < ε := (lt_div_iff₀ hpos).mp hn
  rw [steady_ewmaLoss h k, add_sub_cancel_left, abs_mul, abs_of_nonneg hnonneg]
  nlinarith

theorem steady_inRange (hp : (p 0).InRange) (k : ℕ) : (p k).InRange := by
  induction k with
  | zero => exact hp
  | succ k ih => exact (h k).inRange ih

/-- **Under a loss below 10 % it comes up to `64`** and stays there. -/
theorem opens_up (hp : (p 0).InRange) (hloss : loss < 10 / 100) :
    ∃ n, ∀ k, n ≤ k → (p k).currentBurst.toNat = 64 := by
  obtain ⟨n, hn⟩ := steady_close h (sub_pos.mpr hloss)
  have hgrown : ∀ k, n ≤ k →
      (p (k + 1)).currentBurst.toNat = min ((p k).currentBurst.toNat + 1) 64 := by
    intro k hk
    refine (h k).grown (steady_inRange h hp k) ?_
    have := (abs_lt.mp (hn (k + 1) (by omega))).2
    linarith
  have hup : ∀ j, min (1 + j) 64 ≤ (p (n + j)).currentBurst.toNat := by
    intro j
    induction j with
    | zero =>
      have := (steady_inRange h hp n).one_le
      rw [Nat.add_zero, Nat.add_zero]
      omega
    | succ j ih =>
      rw [← Nat.add_assoc n, hgrown (n + j) (by omega)]
      omega
  refine ⟨n + 63, fun k hk => ?_⟩
  have hge := hup (k - n)
  have hle := (steady_inRange h hp k).le
  rw [Nat.add_sub_of_le (by omega)] at hge
  omega

end Steady

/-- Adjustments that each find one more probe sent and no answer. -/
def silence : ℕ → Pacing ℚ
  | 0 => .start .exact
  | k + 1 => (silence k).sample .exact 0 ((silence k).lastSent + 1) (silence k).lastRecv

end Pacing

end Session
end Nsr
