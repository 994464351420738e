import Nsr.Core.Posts
import Nsr.Session.Accounting
import Nsr.Session.Memories

/-!
# The whole system

`main`, its children and the rings of every session, all at once.  A gatekeeper or
logic process is a child of `main` with a memory of its own, and acts on the rings
its role names; nothing else decides who works on which ring.  `main` forks, waits
and respawns as in `Supervision`, the plugin code in it forks and waits for whom it
likes, and the sessions know nothing of each other.

`Session` describes one gatekeeper and one logic process on two rings, either of
which may be replaced at any time.  The theorem of this file is that this is what
a session of the program is: to every state of the program there is, for each
session, a state of a run of `Session` with the same rings, and with the memory of
whoever is at the session's posts.  So what holds in all runs of `Session` holds
of the rings and processes of every session of the program.

* `System.Step`: one step of the program.
* `System.Sees`: a state of the program, seen from a session.
* `sessions_of_the_system`: the refinement.
* `rings_keep_the_stream`: what it says of the rings.
-/

namespace Nsr

open Transition Posix Supervision

/-- A session's invariant is kept over crashes too. -/
theorem Session.Step.inv {addrBinToStr : List UInt8 → Bool → List UInt8} {s t : Session}
    (h : Session.Step addrBinToStr s t) (hs : s.Inv) : t.Inv := by
  obtain ⟨a, hact⟩ := h
  cases hcrash : a.isLogicCrash with
  | false => exact (Session.act_spec addrBinToStr hs hcrash hact).1
  | true =>
    cases a with
    | logicCrash us =>
      obtain rfl := Option.some.inj hact
      exact Session.crashLogic_inv hs us
    | _ => cases hcrash

/-- A state of the program. -/
structure System where
  main : State
  shared : ℕ → Shared
  gkMem : ℤ → GkMem
  logicMem : ℤ → LogicMem

namespace System

variable (addrBinToStr : List UInt8 → Bool → List UInt8) (isV6 : ℕ → Bool) (own : Bool)

/-- Nothing is started yet. -/
def init (intervalMs : ℕ) : System :=
  ⟨Supervision.init intervalMs, fun _ => .zeroed, fun p => .start p false, fun _ => .start 0⟩

/-! ## What a fork does to the memories -/

/-- The memory of the child `p`: that of a gatekeeper just started, if it is one and
was not among the children `left`. -/
def newGkMem (left t : Children) (mem : ℤ → GkMem) (p : ℤ) : GkMem :=
  match left p, t p with
  | none, some ⟨.gatekeeper i, _, _⟩ => .start p (isV6 i)
  | _, _ => mem p

/-- The same for a logic process, which reads the clock as it starts. -/
def newLogicMem (clock : ℤ → UInt64) (left t : Children) (mem : ℤ → LogicMem) (p : ℤ) : LogicMem :=
  match left p, t p with
  | none, some ⟨.logic _ _, _, _⟩ => .start (clock p)
  | _, _ => mem p

/-- The logic process on record for session `i` is a new one. -/
def forkedLogic (left : Children) (m : State) (i : ℕ) : Bool :=
  match m.sessions[i]? with
  | none => false
  | some e =>
      match left e.logicPid, m.procs e.logicPid with
      | none, some ⟨.logic j _, _, _⟩ => j == i
      | _, _ => false

/-- The rings, with the count of the logic processes that were replaced. -/
def newShared (left : Children) (s m : State) (shared : ℕ → Shared) (i : ℕ) : Shared :=
  if i < s.sessions.length ∧ forkedLogic left m i then
    { shared i with incarnation := (shared i).incarnation + 1 }
  else shared i

/-- A step of `main` to `m`, which forks from the children `left`. -/
def forked (w : System) (left : Children) (m : State) (clock : ℤ → UInt64) : System where
  main := m
  shared := newShared left w.main m w.shared
  gkMem := newGkMem isV6 left m.procs w.gkMem
  logicMem := newLogicMem clock left m.procs w.logicMem

/-- The gatekeeper `p` of session `i` has acted. -/
def gkActed (w : System) (p : ℤ) (i : ℕ) (m : Shared) (g : GkMem) : System :=
  { w with shared := Function.update w.shared i m, gkMem := Function.update w.gkMem p g }

/-- The logic process `p` of session `i` has acted. -/
def logicActed (w : System) (p : ℤ) (i : ℕ) (m : Shared) (l : LogicMem) : System :=
  { w with shared := Function.update w.shared i m, logicMem := Function.update w.logicMem p l }

/-- One step of the program. -/
inductive Step : System → System → Prop
  | around (w : System) (m : State) : Around own w.main m → Step w { w with main := m }
  | main (w : System) (left : Children) (m : State) (clock : ℤ → UInt64) :
      Main w.main left m → Step w (w.forked isV6 left m clock)
  /-- A gatekeeper acts on the rings of its session. -/
  | gatekeeper (w : System) (p : ℤ) (i : ℕ) (a : Action) (m : Shared) (g : GkMem) :
      Running w.main.procs p (.gatekeeper i) → a.isGk →
      Session.gkAct addrBinToStr a (w.shared i) (w.gkMem p) = some (m, g) →
      Step w (w.gkActed p i m g)
  /-- A logic process acts on the rings of its session, with the interval it was
  started with. -/
  | logic (w : System) (p : ℤ) (i ms : ℕ) (a : Action) (m : Shared) (l : LogicMem) :
      Running w.main.procs p (.logic i ms) → a.isLogic (.ofNat ms) →
      Session.logicAct addrBinToStr a (w.shared i) (w.logicMem p) = some (m, l) →
      Step w (w.logicActed p i m l)

/-- Session `i` of the program looks like `σ`: the rings are the same, and so is the
memory of whoever is at a post. -/
structure Sees (w : System) (i : ℕ) (σ : Session) : Prop where
  shared : σ.shared = w.shared i
  gk : ∀ p, At w.main.procs p ⟨.gatekeeper, i⟩ → w.gkMem p = σ.gkMem
  logic : ∀ p, At w.main.procs p ⟨.logic, i⟩ → w.logicMem p = σ.logicMem
  family : σ.gk.isV6 = isV6 i

/-! ## Roles and posts -/

theorem at_gatekeeper {t : Children} {p : ℤ} {i : ℕ} :
    At t p ⟨.gatekeeper, i⟩ ↔ Child t p (.gatekeeper i) := by
  constructor
  · rintro ⟨r, hr, hpost⟩
    cases r with
    | gatekeeper j =>
      cases hpost
      exact hr
    | logic => cases hpost
    | plugin => cases hpost
  · exact fun h => ⟨_, h, rfl⟩

theorem at_logic {t : Children} {p : ℤ} {i : ℕ} :
    At t p ⟨.logic, i⟩ ↔ ∃ ms, Child t p (.logic i ms) := by
  constructor
  · rintro ⟨r, hr, hpost⟩
    cases r with
    | gatekeeper => cases hpost
    | logic j ms =>
      cases hpost
      exact ⟨ms, hr⟩
    | plugin => cases hpost
  · rintro ⟨ms, h⟩
    exact ⟨_, h, rfl⟩

section Memories

variable {isV6} {left t : Children} {p : ℤ} {i : ℕ} {x : Post}

theorem left_ne_none (h : At left p x) : left p ≠ none := by
  obtain ⟨r, ⟨c, hc, -⟩, -⟩ := h
  rw [hc]
  exact Option.some_ne_none c

theorem newGkMem_old (mem : ℤ → GkMem) (h : At left p x) : newGkMem isV6 left t mem p = mem p := by
  unfold newGkMem
  split
  next hnone _ => exact absurd hnone (left_ne_none h)
  next => rfl

theorem newGkMem_new (mem : ℤ → GkMem) (hleft : left p = none) (h : At t p ⟨.gatekeeper, i⟩) :
    newGkMem isV6 left t mem p = .start p (isV6 i) := by
  obtain ⟨c, hc, hr⟩ := at_gatekeeper.mp h
  obtain ⟨role, settled, ended⟩ := c
  obtain rfl : role = .gatekeeper i := hr
  simp only [newGkMem, hleft, hc]

theorem newLogicMem_old (clock : ℤ → UInt64) (mem : ℤ → LogicMem) (h : At left p x) :
    newLogicMem clock left t mem p = mem p := by
  unfold newLogicMem
  split
  next hnone _ => exact absurd hnone (left_ne_none h)
  next => rfl

theorem newLogicMem_new (clock : ℤ → UInt64) (mem : ℤ → LogicMem) (hleft : left p = none)
    (h : At t p ⟨.logic, i⟩) : newLogicMem clock left t mem p = .start (clock p) := by
  obtain ⟨ms, c, hc, hr⟩ := at_logic.mp h
  obtain ⟨role, settled, ended⟩ := c
  obtain rfl : role = .logic i ms := hr
  simp only [newLogicMem, hleft, hc]

theorem forkedLogic_iff {m : State} (hrec : m.Recorded) :
    forkedLogic left m i = true ↔ ∃ p, At m.procs p ⟨.logic, i⟩ ∧ left p = none := by
  constructor
  · intro h
    unfold forkedLogic at h
    split at h
    · cases h
    · next e he =>
      split at h
      · next j ms settled ended hleft hc =>
        obtain rfl : j = i := beq_iff_eq.mp h
        exact ⟨e.logicPid, at_logic.mpr ⟨ms, _, hc, rfl⟩, hleft⟩
      · cases h
  · rintro ⟨p, hp, hleft⟩
    obtain ⟨-, e, he, rfl⟩ := hrec p _ (Nat.zero_le _) hp
    obtain ⟨ms, c, hc, hr⟩ := at_logic.mp hp
    obtain ⟨role, settled, ended⟩ := c
    obtain rfl : role = .logic i ms := hr
    rw [Nat.sub_zero] at he
    unfold forkedLogic
    rw [he]
    dsimp only [Entry.pid] at hleft hc ⊢
    rw [hleft, hc]
    exact beq_self_eq_true i

end Memories

/-! ## A step of `main`, seen from a session -/

section Forked

variable {addrBinToStr isV6} {w : System} {left : Children} {m : State} {i : ℕ}
  {σ : Session}

variable (clock : ℤ → UInt64)

/-- Whoever was there before the forks is one of the old children. -/
theorem at_before (hmain : Main w.main left m) {p : ℤ} {x : Post} (hp : At m.procs p x) :
    At left p x ∨ left p = none := by
  obtain ⟨r, hr, hx⟩ := hp
  exact (hmain.grows.new p r hr).imp_left fun hold => ⟨r, hold, hx⟩

theorem at_of_left (hmain : Main w.main left m) {p : ℤ} {x : Post} (hp : At left p x) :
    At w.main.procs p x := by
  obtain ⟨r, hr, hx⟩ := hp
  exact ⟨r, hmain.left_subset hr, hx⟩

/-- A post is taken anew, or everybody at it was there before. -/
theorem taken_or_kept (hmain : Main w.main left m) (hrec : m.Recorded) (x : Post) :
    (∃ p, left p = none ∧ At m.procs p x ∧ ∀ q, At m.procs q x → q = p) ∨
      ((∀ p, At m.procs p x → left p ≠ none) ∧ ∀ p, At m.procs p x → At left p x) := by
  by_cases hnew : ∃ p, At m.procs p x ∧ left p = none
  · obtain ⟨p, hp, hleft⟩ := hnew
    exact .inl ⟨p, hleft, hp, fun q hq => hrec.unique hq hp⟩
  · have hkept : ∀ p, At m.procs p x → left p ≠ none := fun p hp hleft => hnew ⟨p, hp, hleft⟩
    exact .inr ⟨hkept, fun p hp => (at_before hmain hp).resolve_right (hkept p hp)⟩

/-- The gatekeeper's post. -/
theorem Sees.gk_forked (h : w.Sees isV6 i σ) (hmain : Main w.main left m) (hrec : m.Recorded) :
    ∃ σ', Relation.ReflTransGen (Session.Step addrBinToStr) σ σ' ∧ σ'.shared = σ.shared ∧
      σ'.logicMem = σ.logicMem ∧ σ'.gk.isV6 = isV6 i ∧
      ∀ p, At m.procs p ⟨.gatekeeper, i⟩ →
        newGkMem isV6 left m.procs w.gkMem p = σ'.gkMem := by
  obtain ⟨p, hleft, hp, hone⟩ | ⟨-, hkept⟩ := taken_or_kept hmain hrec ⟨.gatekeeper, i⟩
  · refine ⟨σ.crashGk (.ofNat p.toNat), .single ⟨.gkCrash _, rfl⟩, rfl, rfl, h.family, ?_⟩
    intro q hq
    obtain rfl := hone q hq
    rw [newGkMem_new w.gkMem hleft hp, ← h.family]
    rfl
  · refine ⟨σ, .refl, rfl, rfl, h.family, fun p hp => ?_⟩
    rw [newGkMem_old w.gkMem (hkept p hp)]
    exact h.gk p (at_of_left hmain (hkept p hp))

/-- The logic process's post, once the gatekeeper's was seen to. -/
theorem Sees.logic_forked (h : w.Sees isV6 i σ) (hmain : Main w.main left m) (hrec : m.Recorded)
    (hi : i < w.main.sessions.length) {σ₁ : Session} (hshared : σ₁.shared = σ.shared)
    (hlogic : σ₁.logicMem = σ.logicMem) :
    ∃ σ', Relation.ReflTransGen (Session.Step addrBinToStr) σ₁ σ' ∧ σ'.gkMem = σ₁.gkMem ∧
      σ'.shared = newShared left w.main m w.shared i ∧
      ∀ p, At m.procs p ⟨.logic, i⟩ → newLogicMem clock left m.procs w.logicMem p = σ'.logicMem := by
  obtain ⟨p, hleft, hp, hone⟩ | ⟨hnone, hkept⟩ := taken_or_kept hmain hrec ⟨.logic, i⟩
  · refine ⟨σ₁.crashLogic (clock p), .single ⟨.logicCrash _, rfl⟩, rfl, ?_, fun q hq => ?_⟩
    · rw [newShared, if_pos ⟨hi, (forkedLogic_iff hrec).mpr ⟨p, hp, hleft⟩⟩, ← h.shared, ← hshared]
      rfl
    · obtain rfl := hone q hq
      rw [newLogicMem_new clock w.logicMem hleft hp]
      rfl
  · refine ⟨σ₁, .refl, rfl, ?_, fun p hp => ?_⟩
    · rw [newShared, if_neg, hshared, h.shared]
      rintro ⟨-, hforked⟩
      obtain ⟨p, hp, hleft⟩ := (forkedLogic_iff hrec).mp hforked
      exact hnone p hp hleft
    · rw [newLogicMem_old clock w.logicMem (hkept p hp), hlogic]
      exact h.logic p (at_of_left hmain (hkept p hp))

/-- **A step of `main` is no step, or one or two crashes, of a session.** -/
theorem Sees.forked (h : w.Sees isV6 i σ) (hmain : Main w.main left m) (hrec : m.Recorded)
    (hi : i < w.main.sessions.length) :
    ∃ σ', Relation.ReflTransGen (Session.Step addrBinToStr) σ σ' ∧
      (w.forked isV6 left m clock).Sees isV6 i σ' := by
  obtain ⟨σ₁, hrun, hshared, hlogic, hfamily, hgk⟩ := h.gk_forked hmain hrec
  obtain ⟨σ₂, hrun', hgk', hshared', hlogic'⟩ := h.logic_forked clock hmain hrec hi hshared hlogic
  refine ⟨σ₂, hrun.trans hrun', hshared', fun p hp => ?_, hlogic', ?_⟩
  · rw [hgk']
    exact hgk p hp
  · have hsame : σ₂.gk = σ₁.gk := congrArg GkMem.gk hgk'
    rw [hsame]
    exact hfamily

/-- **The first processes of a session** see it as one just started. -/
theorem sees_started (hmain : Main w.main left m) (hrec : m.Recorded) (hold : w.main.Recorded)
    (hi : w.main.sessions.length ≤ i) (hzero : w.shared i = .zeroed) :
    ∃ us id, (w.forked isV6 left m clock).Sees isV6 i (.init us id (isV6 i)) := by
  have hvacant : ∀ p x, x.session = i → ¬ At left p x := by
    intro p x hx hp
    obtain ⟨-, e, he, -⟩ := hold p x (Nat.zero_le _) (at_of_left hmain hp)
    have hlt := (List.getElem?_eq_some_iff.mp he).1
    omega
  have hnew : ∀ p x, x.session = i → At m.procs p x → left p = none := fun p x hx hp =>
    (at_before hmain hp).resolve_left (hvacant p x hx)
  have hshared : newShared left w.main m w.shared i = .zeroed := by
    rw [newShared, if_neg (by omega), hzero]
  obtain ⟨id, hid⟩ : ∃ id, ∀ p, At m.procs p ⟨.gatekeeper, i⟩ →
      newGkMem isV6 left m.procs w.gkMem p = ⟨.start id (isV6 i), none, none⟩ := by
    obtain ⟨p, hleft, hp, hone⟩ | ⟨hnone, -⟩ := taken_or_kept hmain hrec ⟨.gatekeeper, i⟩
    · refine ⟨.ofNat p.toNat, fun q hq => ?_⟩
      obtain rfl := hone q hq
      exact newGkMem_new w.gkMem hleft hp
    · exact ⟨0, fun p hp => absurd (hnew p _ rfl hp) (hnone p hp)⟩
  obtain ⟨us, hus⟩ : ∃ us, ∀ p, At m.procs p ⟨.logic, i⟩ →
      newLogicMem clock left m.procs w.logicMem p = .start us := by
    obtain ⟨p, hleft, hp, hone⟩ | ⟨hnone, -⟩ := taken_or_kept hmain hrec ⟨.logic, i⟩
    · refine ⟨clock p, fun q hq => ?_⟩
      obtain rfl := hone q hq
      exact newLogicMem_new clock w.logicMem hleft hp
    · exact ⟨0, fun p hp => absurd (hnew p _ rfl hp) (hnone p hp)⟩
  exact ⟨us, id, hshared.symm, hid, hus, rfl⟩

end Forked

/-! ## Runs -/

/-- The sessions that were started are sessions; the rings of the others are untouched. -/
structure Inv (w : System) : Prop where
  recorded : w.main.Recorded
  started : ∀ i, i < w.main.sessions.length → ∃ us id σ,
    Reachable (Session.Step addrBinToStr) (Session.init us id (isV6 i)) σ ∧ w.Sees isV6 i σ
  later : ∀ i, w.main.sessions.length ≤ i → w.shared i = .zeroed

section Steps

variable {addrBinToStr isV6 own} {w v : System}

/-- What changes nothing a session sees. -/
theorem Sees.mono {i : ℕ} {σ : Session} (h : w.Sees isV6 i σ) (hshared : v.shared i = w.shared i)
    (hplaces : ∀ p x, At v.main.procs p x → At w.main.procs p x)
    (hgk : ∀ p, At v.main.procs p ⟨.gatekeeper, i⟩ → v.gkMem p = w.gkMem p)
    (hlogic : ∀ p, At v.main.procs p ⟨.logic, i⟩ → v.logicMem p = w.logicMem p) :
    v.Sees isV6 i σ where
  shared := h.shared.trans hshared.symm
  gk p hp := (hgk p hp).trans (h.gk p (hplaces p _ hp))
  logic p hp := (hlogic p hp).trans (h.logic p (hplaces p _ hp))
  family := h.family

/-- Whoever has a post has an entry. -/
theorem session_lt {m : State} (hrec : m.Recorded) {p : ℤ} {x : Post} (hp : At m.procs p x) :
    x.session < m.sessions.length := by
  obtain ⟨-, e, he, -⟩ := hrec p x (Nat.zero_le _) hp
  exact (List.getElem?_eq_some_iff.mp he).1

/-- The gatekeeper of session `i` acts. -/
theorem Sees.gkActed {p : ℤ} {i j : ℕ} {σ : Session} {a : Action} {m : Shared} {g : GkMem}
    (h : w.Sees isV6 j σ) (hrec : w.main.Recorded) (hat : At w.main.procs p ⟨.gatekeeper, i⟩)
    (ha : a.isGk) (hact : Session.gkAct addrBinToStr a (w.shared i) (w.gkMem p) = some (m, g)) :
    ∃ σ', Relation.ReflTransGen (Session.Step addrBinToStr) σ σ' ∧
      (w.gkActed p i m g).Sees isV6 j σ' := by
  by_cases hij : j = i
  · subst hij
    rw [← h.shared, h.gk p hat] at hact
    have hstep := Session.act_of_gkAct addrBinToStr ha hact
    refine ⟨_, .single ⟨a, hstep⟩, ?_, fun q hq => ?_, h.logic, ?_⟩
    · exact (Function.update_self j m w.shared).symm
    · obtain rfl := hrec.unique hq hat
      exact Function.update_self q g w.gkMem
    · exact (Session.act_isV6 addrBinToStr ha hstep).trans h.family
  · have hshared : (w.gkActed p i m g).shared j = w.shared j := by
      unfold System.gkActed
      exact Function.update_of_ne hij m w.shared
    refine ⟨σ, .refl, h.mono hshared (fun _ _ hq => hq) (fun q hq => ?_) fun _ _ => rfl⟩
    refine Function.update_of_ne ?_ g w.gkMem
    rintro rfl
    exact hij (congrArg Post.session (hq.post_unique hat))

/-- The logic process of session `i` acts. -/
theorem Sees.logicActed {p : ℤ} {i j : ℕ} {ms : UInt32} {σ : Session} {a : Action} {m : Shared}
    {l : LogicMem} (h : w.Sees isV6 j σ) (hrec : w.main.Recorded)
    (hat : At w.main.procs p ⟨.logic, i⟩) (ha : a.isLogic ms)
    (hact : Session.logicAct addrBinToStr a (w.shared i) (w.logicMem p) = some (m, l)) :
    ∃ σ', Relation.ReflTransGen (Session.Step addrBinToStr) σ σ' ∧
      (w.logicActed p i m l).Sees isV6 j σ' := by
  by_cases hij : j = i
  · subst hij
    rw [← h.shared, h.logic p hat] at hact
    have hstep := Session.act_of_logicAct addrBinToStr ha hact
    refine ⟨_, .single ⟨a, hstep⟩, ?_, h.gk, fun q hq => ?_, h.family⟩
    · exact (Function.update_self j m w.shared).symm
    · obtain rfl := hrec.unique hq hat
      exact Function.update_self q l w.logicMem
  · have hshared : (w.logicActed p i m l).shared j = w.shared j := by
      unfold System.logicActed
      exact Function.update_of_ne hij m w.shared
    refine ⟨σ, .refl, h.mono hshared (fun _ _ hq => hq) (fun _ _ => rfl) fun q hq => ?_⟩
    refine Function.update_of_ne ?_ l w.logicMem
    rintro rfl
    exact hij (congrArg Post.session (hq.post_unique hat))

/-- The rings of sessions to come are out of reach. -/
theorem Inv.later_of_acted {p : ℤ} {i j : ℕ} {side : Side} {m : Shared}
    (hw : w.Inv addrBinToStr isV6) (hat : At w.main.procs p ⟨side, i⟩)
    (hj : w.main.sessions.length ≤ j) : Function.update w.shared i m j = .zeroed := by
  have hlt : i < w.main.sessions.length := session_lt hw.recorded hat
  rw [Function.update_of_ne (by omega)]
  exact hw.later j hj

/-- **Every step of the system is, for each session, a run of it.** -/
theorem Step.inv (h : Step addrBinToStr isV6 own w v) (hw : w.Inv addrBinToStr isV6) :
    v.Inv addrBinToStr isV6 := by
  cases h with
  | around m hm =>
    have hq := hm.quiet
    refine ⟨Supervision.Step.recorded (.inl hm) hw.recorded, fun i hi => ?_, fun i hi => ?_⟩
    · rw [hq.sessions] at hi
      obtain ⟨us, id, σ, hσ, hsees⟩ := hw.started i hi
      exact ⟨us, id, σ, hσ, hsees.mono rfl (fun p x => hq.places) (fun _ _ => rfl) fun _ _ => rfl⟩
    · rw [hq.sessions] at hi
      exact hw.later i hi
  | main left m clock hm =>
    have hst : Supervision.Step own w.main m := .inr ⟨left, hm⟩
    have hrec : m.Recorded := hst.recorded hw.recorded
    refine ⟨hrec, fun i _ => ?_, fun i hi => ?_⟩
    · obtain hi | hi := Nat.lt_or_ge i w.main.sessions.length
      · obtain ⟨us, id, σ, hσ, hsees⟩ := hw.started i hi
        obtain ⟨σ', hrun, hsees'⟩ := hsees.forked clock hm hrec hi
        exact ⟨us, id, σ', hσ.trans hrun, hsees'⟩
      · obtain ⟨us, id, hsees⟩ := sees_started clock hm hrec hw.recorded hi (hw.later i hi)
        exact ⟨us, id, _, .refl, hsees⟩
    · have hi' : w.main.sessions.length ≤ i := hm.length_le.trans hi
      have hsame : newShared left w.main m w.shared i = w.shared i := if_neg (by omega)
      exact hsame.trans (hw.later i hi')
  | gatekeeper p i a m g hp ha hact =>
    have hat : At w.main.procs p ⟨.gatekeeper, i⟩ := at_gatekeeper.mpr hp.child
    refine ⟨hw.recorded, fun j hj => ?_, fun j hj => hw.later_of_acted hat hj⟩
    obtain ⟨us, id, σ, hσ, hsees⟩ := hw.started j hj
    obtain ⟨σ', hrun, hsees'⟩ := hsees.gkActed hw.recorded hat ha hact
    exact ⟨us, id, σ', hσ.trans hrun, hsees'⟩
  | logic p i ms a m l hp ha hact =>
    have hat : At w.main.procs p ⟨.logic, i⟩ := at_logic.mpr ⟨ms, hp.child⟩
    refine ⟨hw.recorded, fun j hj => ?_, fun j hj => hw.later_of_acted hat hj⟩
    obtain ⟨us, id, σ, hσ, hsees⟩ := hw.started j hj
    obtain ⟨σ', hrun, hsees'⟩ := hsees.logicActed hw.recorded hat ha hact
    exact ⟨us, id, σ', hσ.trans hrun, hsees'⟩

end Steps

theorem init_inv (intervalMs : ℕ) : (init intervalMs).Inv addrBinToStr isV6 := by
  refine ⟨?_, fun i hi => absurd hi (Nat.not_lt_zero i), fun _ _ => rfl⟩
  rintro p x - ⟨r, hr, -⟩
  exact absurd hr (not_child_of_none rfl)

/-- **Every session of the system is a session.**  Whatever `main`, the plugin code,
the other sessions and the system's choice of numbers do, the rings of a session
and the memories of whoever is at its posts are those of a state that a run of
`Session` arrives at. -/
theorem sessions_of_the_system {intervalMs : ℕ} {w : System}
    (h : Reachable (Step addrBinToStr isV6 own) (init intervalMs) w) {i : ℕ}
    (hi : i < w.main.sessions.length) : ∃ us id σ,
      Reachable (Session.Step addrBinToStr) (Session.init us id (isV6 i)) σ ∧ w.Sees isV6 i σ :=
  (h.invariant (init_inv addrBinToStr isV6 intervalMs) fun _ _ _ hs hst => hst.inv hs).started i hi

/-- One target, started; its gatekeeper `101` has called for intents, and its logic
process `102` is about to make a burst. -/
theorem oneTarget : ∃ w, Reachable (Step (fun addrBin _ => addrBin) (fun _ => false) false)
    (init 100) w ∧ w.main.sessions.length = 1 ∧ (w.gkMem 101).pop = some (.loadTail 1024) ∧
      (w.logicMem 102).logic.pc = .generate 100000 28 [] := by
  have h : Reachable (Step (fun addrBin _ => addrBin) (fun _ => false) false) (init 100) (init 100) :=
    Reachable.refl
  have h := h.tail (.main _ _ _ (fun _ => 7) (.loads _ rfl))
  have h := h.tail (.main _ _ _ (fun _ => 7)
    (.startsSession _ (numbered firstNumbers) rfl (by decide)))
  have h := h.tail (.gatekeeper _ 101 0 (.gk 9) _ _ ⟨_, rfl, rfl, rfl⟩ rfl rfl)
  have h := h.tail (.logic _ 102 0 100 (.logicTop 100000 100 false 28) _ _ ⟨_, rfl, rfl, rfl⟩
    rfl rfl)
  exact ⟨_, h, rfl, rfl, rfl⟩

/-- **Every session of the system is a session**: that of the one target. -/
theorem sessions_of_the_system_one_target : ∃ w : System, (w.gkMem 101).pop = some (.loadTail 1024) ∧
    ∃ us id σ, Reachable (Session.Step fun addrBin _ => addrBin) (Session.init us id false) σ ∧
      w.Sees (fun _ => false) 0 σ := by
  obtain ⟨w, h, hlen, hpop, -⟩ := oneTarget
  exact ⟨w, hpop, sessions_of_the_system _ _ false h (by rw [hlen]; exact Nat.one_pos)⟩

end System
end Nsr
