import Nsr.Session.System

/-!
# Where the probes are

Every probe the logic process generates is, at any moment, in one of a few
places: still in the process, published in `l2g`, popped by the gatekeeper, in
the table, made into an observation, published in `g2l`, popped by the logic
process --- or lost.  This file says once what an action can do to the places,
and the theorems about whole runs are read off from that.

* `Session.Inv`: both rings satisfy their invariant, a push in progress is a push
  of what its process holds, and the batches respect their sizes.
* `Session.road p`: the number of probes satisfying `p` that have left the logic
  process and not come back.  `p` looks at a probe's `ttl` and `origin`.
* `Session.Effect`: the six things an action can do to the places, seen from the
  logic process.  Everything the gatekeeper does, its crashes included, is one of
  them: probes on the road move or vanish, and none appears.
* `act_spec`: every action but a crash of the logic process keeps the invariant
  and has one of these effects.
-/

namespace Nsr

open ShmRing TableCount

/-! ## Counting by `ttl` and origin -/

/-- The intents of a list that satisfy `p`. -/
def Intent.count (p : UInt8 → ℕ → Bool) (l : List Intent) : ℕ := l.countP fun i => p i.ttl i.origin

/-- The observations of a list that satisfy `p`. -/
def Observation.count (p : UInt8 → ℕ → Bool) (l : List Observation) : ℕ :=
  l.countP fun o => p o.ttl o.origin

section Lists

variable (p : UInt8 → ℕ → Bool)

@[simp] theorem Intent.count_nil : Intent.count p [] = 0 := rfl

@[simp] theorem Intent.count_append (l l' : List Intent) :
    Intent.count p (l ++ l') = Intent.count p l + Intent.count p l' := List.countP_append

theorem Intent.count_cons (i : Intent) (l : List Intent) :
    Intent.count p (i :: l) = Intent.count p l + if p i.ttl i.origin then 1 else 0 :=
  List.countP_cons

@[simp] theorem Observation.count_nil : Observation.count p [] = 0 := rfl

@[simp] theorem Observation.count_append (l l' : List Observation) :
    Observation.count p (l ++ l') = Observation.count p l + Observation.count p l' :=
  List.countP_append

theorem Observation.count_cons (o : Observation) (l : List Observation) :
    Observation.count p (o :: l) = Observation.count p l + if p o.ttl o.origin then 1 else 0 :=
  List.countP_cons

theorem Intent.count_true (l : List Intent) : Intent.count (fun _ _ => true) l = l.length := by
  simp [Intent.count]

theorem Observation.count_true (l : List Observation) :
    Observation.count (fun _ _ => true) l = l.length := by
  simp [Observation.count]

end Lists

namespace InflightTable

/-- An active entry satisfying `p`. -/
def ActiveSat (p : UInt8 → ℕ → Bool) (e : Inflight) : Prop :=
  e.active = true ∧ p e.ttl e.origin = true

instance (p : UInt8 → ℕ → Bool) : DecidablePred (ActiveSat p) :=
  fun _ => inferInstanceAs (Decidable (_ ∧ _))

/-- The number of active entries satisfying `p`. -/
noncomputable def activeSat (p : UInt8 → ℕ → Bool) (g : InflightTable) : ℕ :=
  TableCount.count (ActiveSat p) g

theorem activeSat_active (p : UInt8 → ℕ → Bool) : ∀ e, ActiveSat p e → e.active = true :=
  fun _ h => h.1

theorem activeSat_empty (p : UInt8 → ℕ → Bool) : empty.activeSat p = 0 :=
  count_eq_zero fun _ h => Bool.noConfusion h.1

theorem activeSat_le (p : UInt8 → ℕ → Bool) (g : InflightTable) : g.activeSat p ≤ 65536 :=
  (count_imp (activeSat_active p)).trans g.activeCount_le

theorem activeTtl_le_activeSat (g : InflightTable) (ttl : UInt8) :
    g.activeTtl ttl ≤ g.activeSat fun t _ => t == ttl :=
  count_imp fun _ h => ⟨h.1, beq_iff_eq.mpr h.2⟩

end InflightTable

/-! ## The gatekeeper's share -/

namespace Gatekeeper

/-- Probes in the gatekeeper that satisfy `p`. -/
noncomputable def load (p : UInt8 → ℕ → Bool) (gk : Gatekeeper) : ℕ :=
  Intent.count p gk.untracked + gk.inflight.activeSat p + Observation.count p gk.unpushed

theorem start_load (id : UInt16) (isV6 : Bool) (p : UInt8 → ℕ → Bool) :
    (start id isV6).load p = 0 := by
  simp only [load, start, InflightTable.activeSat_empty, untracked, unpushed, Intent.count_nil,
    Observation.count_nil]

/-- The batches respect `BATCH_SIZE`: every packet gives at most one observation. -/
def Bounded (gk : Gatekeeper) : Prop :=
  match gk.pc with
  | .popped intents => intents.length ≤ 1024
  | .track _ _ todo => todo.length ≤ 1024
  | .scan _ pkts obs => pkts.length + obs.length ≤ 1024
  | .pushObs obs => 1 ≤ obs.length ∧ obs.length ≤ 1024
  | _ => True

theorem Bounded.untracked_le {gk : Gatekeeper} (h : gk.Bounded) : gk.untracked.length ≤ 1024 := by
  unfold Bounded at h
  unfold untracked
  split <;> simp_all

theorem Bounded.unpushed_le {gk : Gatekeeper} (h : gk.Bounded) : gk.unpushed.length ≤ 1024 := by
  unfold Bounded at h
  unfold unpushed
  split <;> simp_all
  omega

end Gatekeeper

/-! ## The logic process's share -/

namespace Logic

/-- The intents that may still enter `l2g` before `g2l` is next found empty: a
whole burst between two drains, what is left of it while it is being pushed, and
none during a drain. -/
def credit (l : Logic) : ℕ :=
  match l.pc with
  | .top => 64
  | .publish _ => 64
  | .generate _ left intents => left + intents.length
  | .push _ intents => intents.length
  | .drain _ => 0
  | .apply _ _ => 0

/-- Two states of the logic process with the same probe counters and the same
observations applied. -/
structure SameCounters (l l' : Logic) : Prop where
  sent : ∀ i, (l'.hops i).sent = (l.hops i).sent
  recv : ∀ i, (l'.hops i).recv = (l.hops i).recv
  applied : l'.applied = l.applied

end Logic

/-! ## The invariant and the effects -/

namespace Session

/-- The invariant of a session. -/
structure Inv (s : Session) : Prop where
  l2g : s.l2g.Inv
  g2l : s.g2l.Inv
  /-- A push on `l2g` is a push of the next intent of the burst. -/
  l2gPush : ∀ pc, s.l2g.push = some pc →
    ∃ now i rest, s.logic.pc = .push now (i :: rest) ∧ pc.items = [i]
  /-- A push on `g2l` is a push of the observations made. -/
  g2lPush : ∀ pc, s.g2l.push = some pc → s.gk.pc = .pushObs pc.items
  gkBounded : s.gk.Bounded

/-- Probes satisfying `p` that have left the logic process and not come back. -/
noncomputable def road (p : UInt8 → ℕ → Bool) (s : Session) : ℕ :=
  Intent.count p s.l2g.ring.published + s.gk.load p + Observation.count p s.g2l.ring.published

theorem init_road (us : UInt64) (id : UInt16) (isV6 : Bool) (p : UInt8 → ℕ → Bool) :
    (init us id isV6).road p = 0 := by
  simp only [road, init, Spsc.init, published_zeroed, Gatekeeper.start_load, Intent.count_nil,
    Observation.count_nil]

/-- What an action can do to the probes, seen from the logic process. -/
inductive Effect (s t : Session) : Prop where
  /-- Probes on the road move or vanish; the logic process holds what it held. -/
  | quiet (hcount : s.logic.SameCounters t.logic) (hunpushed : t.logic.unpushed = s.logic.unpushed)
      (hunapplied : t.logic.unapplied = s.logic.unapplied)
      (hcredit : t.logic.credit ≤ s.logic.credit) (hroad : ∀ p, t.road p ≤ s.road p)
  /-- The logic process finds `g2l` empty and ends its drain. -/
  | drained (hcount : s.logic.SameCounters t.logic) (hunpushed : t.logic.unpushed = [])
      (hunapplied : t.logic.unapplied = []) (hempty : t.g2l.ring.published = [])
      (hcredit : t.logic.credit = 64) (hroad : ∀ p, t.road p ≤ s.road p)
  /-- An intent is generated and counted as sent. -/
  | generated (i : Intent) (horigin : i.origin = s.incarnation)
      (hsent : ∀ ttl : UInt8, (t.logic.hops ttl.toNat).sent =
        (s.logic.hops ttl.toNat).sent + if i.ttl = ttl then 1 else 0)
      (hrecv : ∀ j, (t.logic.hops j).recv = (s.logic.hops j).recv)
      (happlied : t.logic.applied = s.logic.applied)
      (hunpushed : t.logic.unpushed = s.logic.unpushed ++ [i])
      (hunapplied : t.logic.unapplied = s.logic.unapplied)
      (hcredit : t.logic.credit = s.logic.credit) (hroad : ∀ p, t.road p = s.road p)
  /-- An intent enters `l2g`. -/
  | pushed (i : Intent) (hcount : s.logic.SameCounters t.logic)
      (hunpushed : s.logic.unpushed = i :: t.logic.unpushed)
      (hunapplied : t.logic.unapplied = s.logic.unapplied)
      (hcredit : s.logic.credit = t.logic.credit + 1)
      (hroad : ∀ p, t.road p = s.road p + if p i.ttl i.origin then 1 else 0)
  /-- Observations leave `g2l`. -/
  | popped (hcount : s.logic.SameCounters t.logic)
      (hunpushed : t.logic.unpushed = s.logic.unpushed) (hunapplied : s.logic.unapplied = [])
      (hcredit : t.logic.credit = s.logic.credit)
      (hroad : ∀ p, t.road p + Observation.count p t.logic.unapplied = s.road p)
  /-- An observation is applied. -/
  | applied (o : Observation)
      (hsent : ∀ j, (t.logic.hops j).sent = (s.logic.hops j).sent)
      (hrecv : ∀ ttl : UInt8, (t.logic.hops ttl.toNat).recv ≤
        (s.logic.hops ttl.toNat).recv + if o.ttl = ttl then 1 else 0)
      (happlied : t.logic.applied = s.logic.applied ++ [o])
      (hunpushed : t.logic.unpushed = s.logic.unpushed)
      (hunapplied : s.logic.unapplied = o :: t.logic.unapplied)
      (hcredit : t.logic.credit = s.logic.credit) (hroad : ∀ p, t.road p = s.road p)

theorem init_inv (us : UInt64) (id : UInt16) (isV6 : Bool) : (init us id isV6).Inv where
  l2g := Spsc.init_inv _
  g2l := Spsc.init_inv _
  l2gPush := by simp [init, Spsc.init]
  g2lPush := by simp [init, Spsc.init]
  gkBounded := trivial

/-! ## Private steps -/

section Private

variable {s : Session}

/-- Away from its push loop the gatekeeper has no push in progress. -/
theorem Inv.g2l_idle (h : s.Inv) (hpc : ∀ obs, s.gk.pc ≠ .pushObs obs) : s.g2l.push = none := by
  cases hp : s.g2l.push with
  | none => rfl
  | some pc => exact absurd (h.g2lPush pc hp) (hpc _)

/-- Away from its push loop the logic process has no push in progress. -/
theorem Inv.l2g_idle (h : s.Inv) (hpc : ∀ now intents, s.logic.pc ≠ .push now intents) :
    s.l2g.push = none := by
  cases hp : s.l2g.push with
  | none => rfl
  | some pc =>
    obtain ⟨now, i, rest, hl, -⟩ := h.l2gPush pc hp
    exact absurd hl (hpc _ _)

/-- A private step of the gatekeeper, away from its push loop. -/
theorem Inv.withGk (h : s.Inv) (hpc : ∀ obs, s.gk.pc ≠ .pushObs obs) {gk : Gatekeeper}
    (hb : gk.Bounded) (hload : ∀ p, gk.load p ≤ s.gk.load p) :
    ({ s with gk := gk } : Session).Inv ∧ Effect s { s with gk := gk } := by
  refine ⟨⟨h.l2g, h.g2l, h.l2gPush, ?_, hb⟩,
    .quiet ⟨fun _ => rfl, fun _ => rfl, rfl⟩ rfl rfl le_rfl fun p => ?_⟩
  · intro pc hp
    rw [h.g2l_idle hpc] at hp
    exact absurd hp (by simp)
  · simp only [road]
    have := hload p
    omega

/-- A private step of the logic process leaves the rings and the gatekeeper alone. -/
theorem Inv.withLogic (h : s.Inv) (hidle : s.l2g.push = none) (l : Logic) :
    ({ s with logic := l } : Session).Inv := by
  refine ⟨h.l2g, h.g2l, ?_, h.g2lPush, h.gkBounded⟩
  intro pc hp
  rw [hidle] at hp
  exact absurd hp (by simp)

/-- A private step of the logic process that holds what it held. -/
theorem Inv.quiet (h : s.Inv) (hidle : s.l2g.push = none) {l : Logic}
    (hcount : s.logic.SameCounters l) (hunpushed : l.unpushed = s.logic.unpushed)
    (hunapplied : l.unapplied = s.logic.unapplied) (hcredit : l.credit ≤ s.logic.credit) :
    ({ s with logic := l } : Session).Inv ∧ Effect s { s with logic := l } :=
  ⟨h.withLogic hidle l, .quiet hcount hunpushed hunapplied hcredit fun _ => le_rfl⟩

end Private

/-! ## Ring accesses -/

section Rings

variable {s : Session}

/-- The ring contents changed without a probe appearing, and nothing else did. -/
theorem Effect.ofRings {t : Session} (hlogic : t.logic = s.logic)
    (hroad : ∀ p, t.road p ≤ s.road p) : Effect s t :=
  .quiet (by rw [hlogic]; exact ⟨fun _ => rfl, fun _ => rfl, rfl⟩) (by rw [hlogic])
    (by rw [hlogic]) (by rw [hlogic]) hroad

theorem actLogicPush_spec (h : s.Inv) {now : UInt64} {i : Intent} {rest : List Intent}
    (hpc : s.logic.pc = .push now (i :: rest)) :
    (s.actLogicPush now i rest).Inv ∧ Effect s (s.actLogicPush now i rest) := by
  unfold actLogicPush
  cases hpush : s.l2g.push with
  | none =>
    refine ⟨⟨Spsc.callPush_inv h.l2g (by simp), h.g2l, ?_, h.g2lPush, h.gkBounded⟩,
      .ofRings rfl fun p => le_rfl⟩
    intro pc hp
    obtain rfl : PushPc.loadHead [i] = pc := Option.some.inj hp
    exact ⟨now, i, rest, hpc, rfl⟩
  | some pc =>
    -- the batch of the call is the intent at the head of the burst
    obtain ⟨now', i', rest', hl, hitems⟩ := h.l2gPush pc hpush
    obtain ⟨rfl, hcons⟩ := LogicPc.push.inj (hpc.symm.trans hl)
    obtain ⟨rfl, rfl⟩ := List.cons.inj hcons
    obtain ⟨hinv, -, hdel, hcases⟩ := Spsc.advancePush_spec h.l2g hpush
    dsimp only
    generalize s.l2g.advancePush pc = r at hinv hdel hcases ⊢
    obtain ⟨l2g, out⟩ := r
    dsimp only at hinv hdel hcases
    obtain ⟨rfl, hacc, pc', hpc', hitems'⟩ | ⟨rfl, rfl, -⟩ | ⟨rfl, hidle, hacc⟩ := hcases
    · have hpub := h.l2g.published_eq_of_eq hinv hacc hdel
      refine ⟨⟨hinv, h.g2l, ?_, h.g2lPush, h.gkBounded⟩, .ofRings rfl fun p => ?_⟩
      · intro pc'' hp
        obtain rfl : pc' = pc'' := Option.some.inj (hpc'.symm.trans hp)
        exact ⟨now, i, rest, hpc, hitems'.trans hitems⟩
      · simp only [road]
        rw [hpub]
    · refine ⟨⟨hinv, h.g2l, ?_, h.g2lPush, h.gkBounded⟩, .ofRings rfl fun p => le_rfl⟩
      intro pc'' hp
      exact absurd hp (by simp [Spsc.crashPush])
    · rw [hitems] at hacc
      have hpub := h.l2g.published_eq_append hinv hacc hdel
      refine ⟨⟨hinv, h.g2l, ?_, h.g2lPush, h.gkBounded⟩,
        .pushed i ⟨fun _ => rfl, fun _ => rfl, rfl⟩ ?_ ?_ ?_ fun p => ?_⟩
      · intro pc'' hp
        exact absurd (hidle.symm.trans hp) (by simp)
      · simp [Logic.unpushed, hpc]
      · simp [Logic.unapplied, hpc]
      · simp [Logic.credit, hpc]
      · simp only [road]
        rw [hpub, Intent.count_append, Intent.count_cons, Intent.count_nil]
        omega

theorem actLogicDrain_spec (h : s.Inv) {now : UInt64} (hpc : s.logic.pc = .drain now) :
    (s.actLogicDrain now).Inv ∧ Effect s (s.actLogicDrain now) := by
  have hidle : s.l2g.push = none := h.l2g_idle (by simp [hpc])
  unfold actLogicDrain
  cases hpop : s.g2l.pop with
  | none =>
    exact ⟨⟨h.l2g, Spsc.callPop_inv h.g2l (by decide), h.l2gPush, h.g2lPush, h.gkBounded⟩,
      .ofRings rfl fun p => le_rfl⟩
  | some pc =>
    obtain ⟨hinv, hpush, hacc, hcases⟩ := Spsc.advancePop_spec h.g2l hpop
    dsimp only
    generalize s.g2l.advancePop pc = r at hinv hpush hacc hcases ⊢
    obtain ⟨g2l, out⟩ := r
    dsimp only at hinv hpush hacc hcases
    have hlink : ∀ pc, g2l.push = some pc → s.gk.pc = .pushObs pc.items :=
      fun pc hp => h.g2lPush pc (hpush.symm.trans hp)
    have hnew : ∀ l : Logic, ({ s with g2l := g2l, logic := l } : Session).Inv := fun l =>
      ⟨h.l2g, hinv, fun pc hp => absurd (hidle.symm.trans hp) (by simp), hlink, h.gkBounded⟩
    obtain ⟨rfl, hdel, -⟩ | ⟨out, rfl, -, hdel, -, hempty⟩ := hcases
    · have hpub := h.g2l.published_eq_of_eq hinv hacc hdel
      refine ⟨⟨h.l2g, hinv, h.l2gPush, hlink, h.gkBounded⟩, .ofRings rfl fun p => ?_⟩
      simp only [road]
      rw [hpub]
    · have hpub := h.g2l.eq_append_published hinv hacc hdel
      cases out with
      | nil =>
        rw [List.nil_append] at hpub
        refine ⟨hnew _, .drained ⟨fun _ => rfl, fun _ => rfl, rfl⟩ rfl rfl ?_ rfl fun p => ?_⟩
        · rw [← hpub]
          exact hempty rfl
        · simp only [road]
          rw [hpub]
      | cons o obs =>
        refine ⟨hnew _, .popped ⟨fun _ => rfl, fun _ => rfl, rfl⟩ ?_ ?_ ?_ fun p => ?_⟩
        · simp [Logic.unpushed, hpc]
        · simp [Logic.unapplied, hpc]
        · simp [Logic.credit, hpc]
        · simp only [road, Logic.unapplied]
          rw [hpub, Observation.count_append]
          omega

theorem actGkPop_spec (h : s.Inv) (hpc : s.gk.pc = .pop) :
    s.actGkPop.Inv ∧ Effect s s.actGkPop := by
  unfold actGkPop
  cases hpop : s.l2g.pop with
  | none =>
    exact ⟨⟨Spsc.callPop_inv h.l2g (by decide), h.g2l, h.l2gPush, h.g2lPush, h.gkBounded⟩,
      .ofRings rfl fun p => le_rfl⟩
  | some pc =>
    obtain ⟨hinv, hpush, hacc, hcases⟩ := Spsc.advancePop_spec h.l2g hpop
    dsimp only
    generalize s.l2g.advancePop pc = r at hinv hpush hacc hcases ⊢
    obtain ⟨l2g, out⟩ := r
    dsimp only at hinv hpush hacc hcases
    have hlink : ∀ pc, l2g.push = some pc →
        ∃ now i rest, s.logic.pc = .push now (i :: rest) ∧ pc.items = [i] :=
      fun pc hp => h.l2gPush pc (hpush.symm.trans hp)
    obtain ⟨rfl, hdel, -⟩ | ⟨out, rfl, -, hdel, hlen, -⟩ := hcases
    · have hpub := h.l2g.published_eq_of_eq hinv hacc hdel
      refine ⟨⟨hinv, h.g2l, hlink, h.g2lPush, h.gkBounded⟩, .ofRings rfl fun p => ?_⟩
      simp only [road]
      rw [hpub]
    · have hpub := h.l2g.eq_append_published hinv hacc hdel
      refine ⟨⟨hinv, h.g2l, hlink, ?_, hlen⟩, .ofRings rfl fun p => ?_⟩
      · intro pc' hp
        exact absurd ((h.g2l_idle (by simp [hpc])).symm.trans hp) (by simp)
      · simp only [road, Gatekeeper.load, Gatekeeper.untracked, Gatekeeper.unpushed, hpc]
        rw [hpub, Intent.count_append, Intent.count_nil]
        omega

theorem actGkPush_spec (h : s.Inv) {obs : List Observation} (hpc : s.gk.pc = .pushObs obs) :
    (s.actGkPush obs).Inv ∧ Effect s (s.actGkPush obs) := by
  have hb : 1 ≤ obs.length ∧ obs.length ≤ 1024 := by
    have := h.gkBounded
    simpa only [Gatekeeper.Bounded, hpc] using this
  unfold actGkPush
  cases hpush : s.g2l.push with
  | none =>
    refine ⟨⟨h.l2g, Spsc.callPush_inv h.g2l hb.2, h.l2gPush, ?_, h.gkBounded⟩,
      .ofRings rfl fun p => le_rfl⟩
    intro pc hp
    obtain rfl : PushPc.loadHead obs = pc := Option.some.inj hp
    exact hpc
  | some pc =>
    -- the batch of the call is what the gatekeeper holds
    have hitems : obs = pc.items := GkPc.pushObs.inj (hpc.symm.trans (h.g2lPush pc hpush))
    obtain ⟨hinv, -, hdel, hcases⟩ := Spsc.advancePush_spec h.g2l hpush
    dsimp only
    generalize s.g2l.advancePush pc = r at hinv hdel hcases ⊢
    obtain ⟨g2l, out⟩ := r
    dsimp only at hinv hdel hcases
    obtain ⟨rfl, hacc, pc', hpc', hitems'⟩ | ⟨rfl, rfl, -⟩ | ⟨rfl, hidle, hacc⟩ := hcases
    · have hpub := h.g2l.published_eq_of_eq hinv hacc hdel
      refine ⟨⟨h.l2g, hinv, h.l2gPush, ?_, h.gkBounded⟩, .ofRings rfl fun p => ?_⟩
      · intro pc'' hp
        obtain rfl : pc' = pc'' := Option.some.inj (hpc'.symm.trans hp)
        rw [hitems', ← hitems]
        exact hpc
      · simp only [road]
        rw [hpub]
    · refine ⟨⟨h.l2g, hinv, h.l2gPush, ?_, h.gkBounded⟩, .ofRings rfl fun p => le_rfl⟩
      intro pc'' hp
      exact absurd hp (by simp [Spsc.crashPush])
    · rw [← hitems] at hacc
      have hpub := h.g2l.published_eq_append hinv hacc hdel
      refine ⟨⟨h.l2g, hinv, h.l2gPush, ?_, trivial⟩, .ofRings rfl fun p => ?_⟩
      · intro pc'' hp
        exact absurd (hidle.symm.trans hp) (by simp)
      · simp only [road, Gatekeeper.load, Gatekeeper.untracked, Gatekeeper.unpushed, hpc]
        rw [hpub, Observation.count_append, Observation.count_nil]
        omega

end Rings

/-! ## Every action -/

section Actions

variable {s t : Session}

theorem actLogicTop_spec (h : s.Inv) {now : UInt64} {intervalMs : UInt32} {paused : Bool}
    {burst : ℕ} (hact : s.actLogicTop now intervalMs paused burst = some t) :
    t.Inv ∧ Effect s t := by
  unfold actLogicTop at hact
  split at hact
  · rename_i hpc
    have hidle : s.l2g.push = none := h.l2g_idle (by simp [hpc])
    dsimp only at hact
    split_ifs at hact with hdue hburst
    · obtain rfl := Option.some.inj hact
      refine h.quiet hidle ⟨fun i => ?_, fun i => ?_, rfl⟩ ?_ ?_ ?_
      · exact Logic.sweepTimeouts_sent _ now i
      · exact Logic.sweepTimeouts_recv _ now i
      · simp [Logic.unpushed, hpc]
      · simp [Logic.unapplied, hpc]
      · simpa [Logic.credit, hpc, maxBurst] using hburst.2
    · obtain rfl := Option.some.inj hact
      refine h.quiet hidle ⟨fun i => ?_, fun i => ?_, rfl⟩ ?_ ?_ ?_
      · exact Logic.sweepTimeouts_sent _ now i
      · exact Logic.sweepTimeouts_recv _ now i
      · simp [Logic.unpushed, hpc]
      · simp [Logic.unapplied, hpc]
      · simp [Logic.credit]
  · exact absurd hact (by simp)

theorem actLogic_spec (addrBinToStr : List UInt8 → Bool → List UInt8) (h : s.Inv) {clock : UInt64}
    (hact : s.actLogic addrBinToStr clock = some t) : t.Inv ∧ Effect s t := by
  unfold actLogic at hact
  split at hact
  · exact absurd hact (by simp)
  · -- the burst is complete
    rename_i now intents hpc
    obtain rfl := Option.some.inj hact
    refine h.quiet (h.l2g_idle (by simp [hpc])) ⟨fun _ => rfl, fun _ => rfl, rfl⟩ ?_ ?_ ?_
    · simp [Logic.unpushed, hpc]
    · simp [Logic.unapplied, hpc]
    · simp [Logic.credit, hpc]
  · -- the next intent of the burst
    rename_i now left intents hpc
    have hunpushed : s.logic.unpushed = intents := by simp [Logic.unpushed, hpc]
    obtain rfl := Option.some.inj hact
    refine ⟨h.withLogic (h.l2g_idle (by simp [hpc])) _,
      .generated (s.logic.nextIntent s.incarnation now).1 rfl (fun ttl => ?_) (fun j => ?_) rfl
        ?_ ?_ ?_ fun p => rfl⟩
    · exact s.logic.nextIntent_sent s.incarnation now ttl
    · exact s.logic.nextIntent_recv s.incarnation now j
    · rw [hunpushed]
      rfl
    · simp [Logic.unapplied, hpc]
    · simp only [Logic.credit, hpc, List.length_append, List.length_singleton]
      omega
  · -- the burst is pushed
    rename_i now hpc
    obtain rfl := Option.some.inj hact
    have hidle : s.l2g.push = none := by
      cases hp : s.l2g.push with
      | none => rfl
      | some pc =>
        obtain ⟨now', i, rest, hl, -⟩ := h.l2gPush pc hp
        exact absurd (LogicPc.push.inj (hpc.symm.trans hl)).2 (by simp)
    refine h.quiet hidle ⟨fun _ => rfl, fun _ => rfl, rfl⟩ ?_ ?_ ?_
    · simp [Logic.unpushed, hpc]
    · simp [Logic.unapplied, hpc]
    · simp [Logic.credit]
  · rename_i now i rest hpc
    obtain rfl := Option.some.inj hact
    exact actLogicPush_spec h hpc
  · rename_i now hpc
    obtain rfl := Option.some.inj hact
    exact actLogicDrain_spec h hpc
  · -- every popped observation is applied
    rename_i now hpc
    obtain rfl := Option.some.inj hact
    refine h.quiet (h.l2g_idle (by simp [hpc])) ⟨fun _ => rfl, fun _ => rfl, rfl⟩ ?_ ?_ ?_
    · simp [Logic.unpushed, hpc]
    · simp [Logic.unapplied, hpc]
    · simp [Logic.credit]
  · -- the next popped observation
    rename_i now o rest hpc
    obtain rfl := Option.some.inj hact
    refine ⟨h.withLogic (h.l2g_idle (by simp [hpc])) _,
      .applied o (fun j => ?_) (fun ttl => ?_) ?_ ?_ ?_ ?_ fun p => rfl⟩
    · exact s.logic.updateState_sent addrBinToStr clock o j
    · exact s.logic.updateState_recv_le addrBinToStr clock o ttl
    · exact s.logic.updateState_applied addrBinToStr clock o
    · simp [Logic.unpushed, hpc]
    · simp [Logic.unapplied, hpc]
    · simp [Logic.credit, hpc]
  · rename_i now hpc
    obtain rfl := Option.some.inj hact
    refine h.quiet (h.l2g_idle (by simp [hpc])) ⟨fun _ => rfl, fun _ => rfl, rfl⟩ ?_ ?_ ?_
    · simp [Logic.unpushed, hpc]
    · simp [Logic.unapplied, hpc]
    · simp [Logic.credit, hpc]

/-- Scanning a packet: at most one probe moves from the table to the observations. -/
theorem scanPacket_load (gk : Gatekeeper) (now : UInt64) (pkt : Packet) (p : UInt8 → ℕ → Bool) :
    (gk.scanPacket now pkt).1.activeSat p + Observation.count p (gk.scanPacket now pkt).2 ≤
      gk.inflight.activeSat p := by
  obtain heq | ⟨seq, e, inflight, o, hfind, heq, httl, horigin⟩ := gk.scanPacket_cases now pkt
  · rw [heq]
    simp
  · have hactive : e.active = true := by
      rw [InflightTable.findProbe] at hfind
      split at hfind
      · rename_i hhit
        obtain ⟨rfl, -⟩ := Prod.mk.inj (Option.some.inj hfind)
        exact hhit.1
      · exact absurd hfind (by simp)
    have hcount := InflightTable.count_findProbe (InflightTable.activeSat_active p) hfind
    rw [heq, Observation.count_cons, httl, horigin]
    simpa [InflightTable.ActiveSat, InflightTable.activeSat, hactive] using hcount

theorem length_scanPacket_le (gk : Gatekeeper) (now : UInt64) (pkt : Packet) :
    (gk.scanPacket now pkt).2.length ≤ 1 := by
  obtain heq | ⟨seq, e, inflight, o, -, heq, -⟩ := gk.scanPacket_cases now pkt
  · rw [heq]
    simp
  · rw [heq]
    simp

theorem actGk_spec (h : s.Inv) {clock : UInt64} (hact : s.actGk clock = some t) :
    t.Inv ∧ Effect s t := by
  have hb := h.gkBounded
  unfold Gatekeeper.Bounded at hb
  unfold actGk at hact
  split at hact
  · rename_i hpc
    obtain rfl := Option.some.inj hact
    exact actGkPop_spec h hpc
  · -- reap, before the popped intents are tracked
    rename_i intents hpc
    rw [hpc] at hb
    obtain rfl := Option.some.inj hact
    refine h.withGk (by simp [hpc]) hb fun p => ?_
    have := InflightTable.count_reapStaleInflight_le (InflightTable.activeSat_active p)
      s.gk.inflight s.gk.lastReap clock
    simp only [Gatekeeper.load, Gatekeeper.untracked, Gatekeeper.unpushed, hpc]
    exact Nat.add_le_add_right (Nat.add_le_add_left this _) _
  · rename_i now done hpc
    obtain rfl := Option.some.inj hact
    refine h.withGk (by simp [hpc]) ?_ fun p => ?_
    · simp only [Gatekeeper.Bounded]
      split_ifs
      all_goals trivial
    · simp only [Gatekeeper.load, Gatekeeper.untracked, Gatekeeper.unpushed, hpc]
      split_ifs
      all_goals exact le_rfl
  · -- an intent becomes an entry, and may push another entry out
    rename_i now done intent todo hpc
    rw [hpc] at hb
    obtain rfl := Option.some.inj hact
    refine h.withGk (by simp [hpc]) ?_ fun p => ?_
    · simp only [Gatekeeper.Bounded]
      simp only [List.length_cons] at hb
      omega
    · have := InflightTable.count_trackProbe_le (p := InflightTable.ActiveSat p)
        s.gk.inflight intent now
      simp only [InflightTable.ActiveSat, true_and] at this
      simp only [Gatekeeper.load, Gatekeeper.untracked, Gatekeeper.unpushed, hpc,
        Intent.count_cons, InflightTable.activeSat]
      omega
  · exact absurd hact (by simp)
  · rename_i hpc
    obtain rfl := Option.some.inj hact
    refine h.withGk (by simp [hpc]) trivial fun p => ?_
    simp [Gatekeeper.load, Gatekeeper.untracked, Gatekeeper.unpushed, hpc]
  · rename_i intent todo hpc
    obtain rfl := Option.some.inj hact
    refine h.withGk (by simp [hpc]) trivial fun p => ?_
    have := InflightTable.count_dropProbe_le (InflightTable.activeSat_active p)
      s.gk.inflight intent.seq
    simp only [Gatekeeper.load, Gatekeeper.untracked, Gatekeeper.unpushed, hpc]
    exact Nat.add_le_add_right (Nat.add_le_add_left this _) _
  · exact absurd hact (by simp)
  · rename_i now obs hpc
    rw [hpc] at hb
    obtain rfl := Option.some.inj hact
    refine h.withGk (by simp [hpc]) ?_ fun p => ?_
    · simp only [Gatekeeper.Bounded]
      split_ifs with hobs
      · trivial
      · exact ⟨List.length_pos_iff.mpr hobs, by simpa using hb⟩
    · simp only [Gatekeeper.load, Gatekeeper.untracked, Gatekeeper.unpushed, hpc]
      split_ifs with hobs
      · rw [hobs]
      · exact le_rfl
  · rename_i now pkt pkts obs hpc
    rw [hpc] at hb
    have hlen := length_scanPacket_le s.gk now pkt
    have hload := scanPacket_load s.gk now pkt
    generalize s.gk.scanPacket now pkt = r at hact hlen hload
    obtain ⟨inflight, new⟩ := r
    dsimp only at hlen hload
    obtain rfl := Option.some.inj hact
    refine h.withGk (by simp [hpc]) ?_ fun p => ?_
    · simp only [Gatekeeper.Bounded, List.length_append]
      simp only [List.length_cons] at hb
      omega
    · have := hload p
      simp only [Gatekeeper.load, Gatekeeper.untracked, Gatekeeper.unpushed, hpc,
        Observation.count_append]
      omega
  · rename_i obs hpc
    obtain rfl := Option.some.inj hact
    exact actGkPush_spec h hpc

theorem actGkSend_spec (h : s.Inv) {sent : ℤ} (hact : s.actGkSend sent = some t) :
    t.Inv ∧ Effect s t := by
  unfold actGkSend at hact
  split at hact
  · rename_i intents hpc
    dsimp only at hact
    split_ifs at hact
    all_goals
      obtain rfl := Option.some.inj hact
      refine h.withGk (by simp [hpc]) trivial fun p => ?_
      simp [Gatekeeper.load, Gatekeeper.untracked, Gatekeeper.unpushed, hpc]
  · exact absurd hact (by simp)

theorem actGkRecv_spec (h : s.Inv) {now : UInt64} {pkts : List Packet}
    (hact : s.actGkRecv now pkts = some t) : t.Inv ∧ Effect s t := by
  unfold actGkRecv at hact
  split at hact
  · rename_i hpc
    split_ifs at hact with hnil hlen
    · obtain rfl := Option.some.inj hact
      refine h.withGk (by simp [hpc]) trivial fun p => ?_
      simp [Gatekeeper.load, Gatekeeper.untracked, Gatekeeper.unpushed, hpc]
    · obtain rfl := Option.some.inj hact
      refine h.withGk (by simp [hpc]) ?_ fun p => ?_
      · simpa [Gatekeeper.Bounded, batchSize] using hlen
      · simp [Gatekeeper.load, Gatekeeper.untracked, Gatekeeper.unpushed, hpc]
  · exact absurd hact (by simp)

/-- A crash of the gatekeeper loses what it held. -/
theorem crashGk_spec (h : s.Inv) (id : UInt16) : (s.crashGk id).Inv ∧ Effect s (s.crashGk id) := by
  refine ⟨⟨Spsc.crashPop_inv h.l2g, Spsc.crashPush_inv h.g2l, h.l2gPush, ?_, trivial⟩,
    .ofRings rfl fun p => ?_⟩
  · intro pc hp
    exact absurd hp (by simp [crashGk, Spsc.crashPush])
  · simp only [road, crashGk, Spsc.crashPop, Spsc.crashPush, Gatekeeper.start_load]
    omega

/-- A crash of the logic process keeps the invariant; what it does to the probes is
another matter. -/
theorem crashLogic_inv (h : s.Inv) (us : UInt64) : (s.crashLogic us).Inv where
  l2g := Spsc.crashPush_inv h.l2g
  g2l := Spsc.crashPop_inv h.g2l
  l2gPush := by simp [crashLogic, Spsc.crashPush]
  g2lPush := h.g2lPush
  gkBounded := h.gkBounded

/-- **What an action can do.** -/
theorem act_spec (addrBinToStr : List UInt8 → Bool → List UInt8) (h : s.Inv) {a : Action}
    (ha : a.isLogicCrash = false) (hact : act addrBinToStr a s = some t) :
    t.Inv ∧ Effect s t := by
  cases a with
  | logicTop now intervalMs paused burst => exact actLogicTop_spec h hact
  | logic now => exact actLogic_spec addrBinToStr h hact
  | gk now => exact actGk_spec h hact
  | gkSend sent => exact actGkSend_spec h hact
  | gkRecv now pkts => exact actGkRecv_spec h hact
  | gkCrash id =>
    obtain rfl := Option.some.inj hact
    exact crashGk_spec h id
  | logicCrash us => exact Bool.noConfusion ha

end Actions
end Session
end Nsr
