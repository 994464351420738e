import Nsr.Core.Supervision

/-!
# One process at every post

A session's rings have two ends each, and a gatekeeper and a logic process at
them.  Both are respawned when they crash, out of one loop that goes by the
numbers on record; a number can outlive the child it was written down for, and
come to name another one.

* `At`: a child has a post.
* `reapEntry_cases`: what the loop can do with one session.
* `RecordedFrom`: every child at a post of the listed sessions is the one whose
  number is on record there.  This is kept by the loop although it may respawn
  for a session on the number of somebody else's child.
* `one_process_at_a_post`: two children at one post are one child.  It needs
  nothing of the plugin code, which may wait for any child there is.
* `stopped_leaves_no_process`: when `main` has stopped, nobody is left at a post.
-/

namespace Nsr
namespace Supervision

open Posix Transition

/-- `p` is a child that has the place `x`. -/
def At (t : Children) (p : ℤ) (x : Post) : Prop := ∃ r, Child t p r ∧ r.post = some x

/-- What a process on a side of session `s` runs. -/
def Side.role (s intervalMs : ℕ) : Side → Role
  | .gatekeeper => .gatekeeper s
  | .logic => .logic s intervalMs

/-- An entry with another number on record. -/
def Entry.withPid (e : Entry) (p : ℤ) : Side → Entry
  | .gatekeeper => { e with gkPid := p }
  | .logic => { e with logicPid := p }

/-- A process is started on a side. -/
def spawn (forks : Forks Role) (s intervalMs : ℕ) (e : Entry) (t : Children) (side : Side) :
    Entry × Children :=
  let r := fork forks (side.role s intervalMs) t
  (e.withPid r.1 side, r.2)

@[simp] theorem Side.post_role (s intervalMs : ℕ) (side : Side) :
    (side.role s intervalMs).post = some ⟨side, s⟩ := by
  cases side <;> rfl

section Spawn

variable (forks : Forks Role) (s intervalMs : ℕ) (e : Entry) (t : Children)

@[simp] theorem spawn_active (side : Side) :
    (spawn forks s intervalMs e t side).1.active = e.active := by
  cases side <;> rfl

@[simp] theorem spawn_pid_self (side : Side) :
    (spawn forks s intervalMs e t side).1.pid side =
      (fork forks (side.role s intervalMs) t).1 := by
  cases side <;> rfl

theorem spawn_pid_of_ne {side side' : Side} (h : side' ≠ side) :
    (spawn forks s intervalMs e t side).1.pid side' = e.pid side' := by
  cases side <;> cases side' <;> first | rfl | exact absurd rfl h

end Spawn

/-! ## Places -/

section Places

variable {t : Children} {p q : ℤ} {x y : Post} {forks : Forks Role} {r : Role}

theorem At.post_unique (h : At t p x) (h' : At t p y) : x = y := by
  obtain ⟨r, hr, hx⟩ := h
  obtain ⟨r', hr', hy⟩ := h'
  rw [hr.role_unique hr', hy] at hx
  exact (Option.some.inj hx).symm

theorem at_congr {t' : Children} (h : ∀ r, Child t' p r ↔ Child t p r) : At t' p x ↔ At t p x := by
  unfold At
  simp only [h]

theorem at_fork (h : At (fork forks r t).2 q x) :
    At t q x ∨ r.post = some x ∧ q = (fork forks r t).1 ∧ 0 < q := by
  obtain ⟨r', hr', hx⟩ := h
  obtain hold | ⟨rfl, hq, hpos⟩ := child_fork hr'
  · exact .inl ⟨r', hold, hx⟩
  · exact .inr ⟨hx, hq, hpos⟩

theorem At.fork (h : At t q x) : At (fork forks r t).2 q x := by
  obtain ⟨r', hr', hx⟩ := h
  exact ⟨r', hr'.fork, hx⟩

theorem at_reap : At (reap p t) q x ↔ q ≠ p ∧ At t q x := by
  unfold At
  simp only [child_reap, and_assoc, exists_and_left]

theorem At.of_grows {t' : Children} (h : Grows t t') (hp : At t p x) : At t' p x := by
  obtain ⟨r, hr, hx⟩ := hp
  exact ⟨r, h.kept p r hr, hx⟩

end Places

/-! ## One session of the loop -/

section Entries

variable (forks : Forks Role) (intervalMs : ℕ) (exited : ℤ) (status : WaitStatus) (s : ℕ)

/-- **What `main` does for one session.**  After a crash it starts a process on the
side whose number was returned; it gives the session up; or it leaves it alone. -/
theorem reapEntry_cases (e : Entry) (t : Children) :
    (∃ side, exited = e.pid side ∧ status.ifExited = false ∧
      reapEntry forks intervalMs exited status s e t = spawn forks s intervalMs e t side) ∨
    ((∃ side, exited = e.pid side) ∧
      (reapEntry forks intervalMs exited status s e t).1 = { e with active := false } ∧
      ∀ p r, Child (reapEntry forks intervalMs exited status s e t).2 p r ↔ Child t p r) ∨
    ((∀ side, exited ≠ e.pid side) ∧
      reapEntry forks intervalMs exited status s e t = (e, t)) := by
  unfold reapEntry
  by_cases hgk : exited = e.gkPid
  · rw [if_pos hgk]
    cases hstatus : status.ifExited with
    | true =>
      refine .inr (.inl ⟨⟨.gatekeeper, hgk⟩, rfl, fun p r => ?_⟩)
      rw [if_pos rfl]
      dsimp only
      split
      · exact child_terminate
      · exact Iff.rfl
    | false => exact .inl ⟨.gatekeeper, hgk, rfl, rfl⟩
  · rw [if_neg hgk]
    by_cases hlogic : exited = e.logicPid
    · rw [if_pos hlogic]
      cases hgone : status.ifExited || !e.active with
      | true => exact .inr (.inl ⟨⟨.logic, hlogic⟩, rfl, fun p r => Iff.rfl⟩)
      | false => exact .inl ⟨.logic, hlogic, (Bool.or_eq_false_iff.mp hgone).1, rfl⟩
    · rw [if_neg hlogic]
      refine .inr (.inr ⟨fun side => ?_, rfl⟩)
      cases side with
      | gatekeeper => exact hgk
      | logic => exact hlogic

/-- Every child at a post of session `s` is the one on record. -/
def Entry.Records (e : Entry) (s : ℕ) (t : Children) : Prop :=
  ∀ p side, At t p ⟨side, s⟩ → 0 < p ∧ e.pid side = p

variable {forks intervalMs exited status s} {e : Entry} {t : Children} {p : ℤ} {x : Post}

/-- A process is put on record where no other is. -/
theorem Entry.Records.spawn {side : Side} (h : e.Records s t) (hnone : ∀ p, ¬ At t p ⟨side, s⟩) :
    (Supervision.spawn forks s intervalMs e t side).1.Records s
      (Supervision.spawn forks s intervalMs e t side).2 := by
  intro q side' hq
  obtain hold | ⟨hpost, hqp, hpos⟩ := at_fork hq
  · have hne : side' ≠ side := by
      rintro rfl
      exact hnone q hold
    refine ⟨(h q side' hold).1, ?_⟩
    rw [← (h q side' hold).2]
    exact spawn_pid_of_ne forks s intervalMs e t hne
  · rw [Side.post_role] at hpost
    obtain rfl : side = side' := congrArg Post.side (Option.some.inj hpost)
    refine ⟨hpos, ?_⟩
    rw [hqp]
    exact spawn_pid_self forks s intervalMs e t side

/-- **The loop keeps the record of a session**, whose children do not bear the number
that was returned. -/
theorem Entry.Records.reapEntry (h : e.Records s t) (hfree : ∀ side, ¬ At t exited ⟨side, s⟩) :
    (Supervision.reapEntry forks intervalMs exited status s e t).1.Records s
      (Supervision.reapEntry forks intervalMs exited status s e t).2 := by
  obtain ⟨side, hside, -, heq⟩ | ⟨-, hent, hsame⟩ | ⟨-, heq⟩ :=
    reapEntry_cases forks intervalMs exited status s e t
  · rw [heq]
    refine h.spawn fun p hp => hfree side ?_
    rw [hside, (h p side hp).2]
    exact hp
  · rw [hent]
    intro p side hp
    have hp' := h p side ((at_congr (hsame p)).mp hp)
    cases side <;> exact hp'
  · rw [heq]
    exact h

theorem grows_reapEntry : Grows t (reapEntry forks intervalMs exited status s e t).2 := by
  obtain ⟨side, -, -, heq⟩ | ⟨-, -, hsame⟩ | ⟨-, heq⟩ :=
    reapEntry_cases forks intervalMs exited status s e t
  · rw [heq]
    exact .fork forks _ t
  · exact .of_same hsame
  · rw [heq]
    exact .refl t

/-- At other sessions nobody is new. -/
theorem at_of_reapEntry (hx : x.session ≠ s)
    (h : At (reapEntry forks intervalMs exited status s e t).2 p x) : At t p x := by
  obtain ⟨side, -, -, heq⟩ | ⟨-, -, hsame⟩ | ⟨-, heq⟩ :=
    reapEntry_cases forks intervalMs exited status s e t
  · rw [heq] at h
    obtain hold | ⟨hpost, -, -⟩ := at_fork h
    · exact hold
    · rw [Side.post_role] at hpost
      exact absurd (congrArg Post.session (Option.some.inj hpost)).symm hx
  · exact (at_congr (hsame p)).mp h
  · rw [heq] at h
    exact h

end Entries

/-! ## The loop -/

/-- Every child at a post of session `n` or later is the one on record in its entry;
`es` are the entries from `n` on. -/
def RecordedFrom (n : ℕ) (t : Children) (es : List Entry) : Prop :=
  ∀ p x, n ≤ x.session → At t p x → 0 < p ∧ ∃ e, es[x.session - n]? = some e ∧ e.pid x.side = p

section Loop

variable {n : ℕ} {t t' : Children} {e : Entry} {es : List Entry}

theorem recordedFrom_cons :
    RecordedFrom n t (e :: es) ↔ e.Records n t ∧ RecordedFrom (n + 1) t es := by
  constructor
  · intro h
    refine ⟨fun p side hp => ?_, fun p x hx hp => ?_⟩
    · obtain ⟨hpos, e', he', hpid⟩ := h p ⟨side, n⟩ (Nat.le_refl n) hp
      rw [Nat.sub_self] at he'
      obtain rfl := Option.some.inj he'
      exact ⟨hpos, hpid⟩
    · obtain ⟨hpos, e', he', hpid⟩ := h p x (Nat.le_of_succ_le hx) hp
      rw [show x.session - n = x.session - (n + 1) + 1 by omega] at he'
      exact ⟨hpos, e', he', hpid⟩
  · rintro ⟨he, hes⟩ p ⟨side, s⟩ hx hp
    obtain rfl | hlt := Nat.eq_or_lt_of_le hx
    · rw [Nat.sub_self]
      exact ⟨(he p side hp).1, e, rfl, (he p side hp).2⟩
    · have hs : s - n = s - (n + 1) + 1 := by
        have : n < s := hlt
        omega
      rw [hs]
      exact hes p ⟨side, s⟩ hlt hp

theorem RecordedFrom.mono (h : RecordedFrom n t es)
    (hmem : ∀ p x, n ≤ x.session → At t' p x → At t p x) : RecordedFrom n t' es :=
  fun p x hx hp => h p x hx (hmem p x hx hp)

variable (forks : Forks Role) (intervalMs : ℕ) {exited : ℤ} (status : WaitStatus)

/-- No child is taken away by the loop. -/
theorem grows_reapAll (n : ℕ) (es : List Entry) (t : Children) :
    Grows t (reapAll forks intervalMs exited status n es t).2 := by
  induction es generalizing n t with
  | nil => exact .refl t
  | cons e es ih => exact grows_reapEntry.trans (ih _ _)

/-- At the sessions before `n` nobody is new. -/
theorem at_of_reapAll {p : ℤ} {x : Post} (hx : x.session < n)
    (h : At (reapAll forks intervalMs exited status n es t).2 p x) : At t p x := by
  induction es generalizing n t with
  | nil => exact h
  | cons e es ih => exact at_of_reapEntry (Nat.ne_of_lt hx) (ih (Nat.lt_succ_of_lt hx) h)

/-- **The loop keeps the record**, if no child at a post bears the number that was
returned.  That is so at its start, since that child was waited for; later in the
loop the number may be given out again, for a session the loop has passed. -/
theorem RecordedFrom.reapAll (h : RecordedFrom n t es)
    (hfree : ∀ x, n ≤ x.session → ¬ At t exited x) :
    RecordedFrom n (Supervision.reapAll forks intervalMs exited status n es t).2
      (Supervision.reapAll forks intervalMs exited status n es t).1 := by
  induction es generalizing n t with
  | nil => exact h
  | cons e es ih =>
    obtain ⟨he, hes⟩ := recordedFrom_cons.mp h
    have hold : ∀ p (x : Post), n + 1 ≤ x.session →
        At (reapEntry forks intervalMs exited status n e t).2 p x → At t p x :=
      fun p x hx => at_of_reapEntry (by omega)
    refine recordedFrom_cons.mpr ⟨?_, ?_⟩
    · have hrec : (Supervision.reapEntry forks intervalMs exited status n e t).1.Records n
          (Supervision.reapEntry forks intervalMs exited status n e t).2 :=
        he.reapEntry fun side => hfree ⟨side, n⟩ (Nat.le_refl n)
      exact fun p side hp => hrec p side (at_of_reapAll forks intervalMs status n.lt_succ_self hp)
    · exact ih (hes.mono hold) fun x hx hp => hfree x (Nat.le_of_succ_le hx) (hold exited x hx hp)

end Loop

/-! ## Around `main` -/

/-- What a step around `main` leaves as it is.  Whoever has a post had it before. -/
structure Quiet (own : Bool) (s t : State) : Prop where
  phase : t.phase = s.phase
  sessions : t.sessions = s.sessions
  intervalMs : t.intervalMs = s.intervalMs
  running : t.running → s.running
  children : ∀ p r, r.post.isSome → Child t.procs p r → Child s.procs p r
  kept : own → ∀ p x, At s.procs p x → At t.procs p x

theorem Quiet.places {own : Bool} {s t : State} (h : Quiet own s t) {p : ℤ} {x : Post}
    (hp : At t.procs p x) : At s.procs p x := by
  obtain ⟨r, hr, hx⟩ := hp
  exact ⟨r, h.children p r (by rw [hx]; rfl) hr, hx⟩

theorem Around.quiet {own : Bool} {s t : State} (h : Around own s t) : Quiet own s t := by
  cases h with
  | ends p c status hp hend =>
    have hsame : ∀ q r, Child (alter (fun c => { c with ended := some status }) p s.procs) q r ↔
        Child s.procs q r := fun q r => child_alter fun c => rfl
    exact ⟨rfl, rfl, rfl, id, fun q r _ hq => (hsame q r).mp hq,
      fun _ q x hq => (at_congr (hsame q)).mpr hq⟩
  | settles p =>
    have hsame : ∀ q r, Child (alter (fun c => { c with settled := true }) p s.procs) q r ↔
        Child s.procs q r := fun q r => child_alter fun c => rfl
    exact ⟨rfl, rfl, rfl, id, fun q r _ hq => (hsame q r).mp hq,
      fun _ q x hq => (at_congr (hsame q)).mpr hq⟩
  | interrupted hloading hstarting =>
    exact ⟨rfl, rfl, rfl, fun h => Bool.noConfusion h, fun _ _ _ hq => hq, fun _ _ _ hq => hq⟩
  | forks forks hphase =>
    refine ⟨rfl, rfl, rfl, id, fun q r hr hq => ?_, fun _ q x hq => hq.fork⟩
    obtain hold | ⟨rfl, -, -⟩ := child_fork hq
    · exact hold
    · cases hr
  | reaps p c hphase hp hend hown =>
    refine ⟨rfl, rfl, rfl, id, fun q r _ hq => (child_reap.mp hq).2, fun htrue q x hq => ?_⟩
    refine at_reap.mpr ⟨?_, hq⟩
    rintro rfl
    obtain ⟨r, hr, hx⟩ := hq
    rw [hr.role_unique ⟨c, hp, rfl⟩, hown htrue] at hx
    cases hx

/-! ## Runs -/

theorem child_terminateAll {es : List Entry} {t : Children} {p : ℤ} {r : Role} :
    Child (terminateAll es t) p r ↔ Child t p r := by
  unfold terminateAll
  generalize es.flatMap Entry.pids = ps
  induction ps generalizing t with
  | nil => exact Iff.rfl
  | cons q ps ih => exact ih.trans child_terminate

theorem length_reapAll (forks : Forks Role) (intervalMs : ℕ) (exited : ℤ) (status : WaitStatus)
    (n : ℕ) (es : List Entry) (t : Children) :
    (reapAll forks intervalMs exited status n es t).1.length = es.length := by
  induction es generalizing n t with
  | nil => rfl
  | cons e es ih => exact congrArg Nat.succ (ih _ _)

/-- `main` forgets no session. -/
theorem Main.length_le {s t : State} {left : Children} (h : Main s left t) :
    s.sessions.length ≤ t.sessions.length := by
  cases h with
  | startsSession forks => simp
  | waits forks p c status => exact Nat.le_of_eq (length_reapAll _ _ _ _ _ _ _).symm
  | _ => exact Nat.le_refl _

/-- Every child at a post is the one on record there. -/
def State.Recorded (s : State) : Prop := RecordedFrom 0 s.procs s.sessions

/-- A child started for session `n` is at that session. -/
theorem at_spawn {forks : Forks Role} {n intervalMs : ℕ} {e : Entry} {t : Children} {side : Side}
    {p : ℤ} {x : Post} (h : At (spawn forks n intervalMs e t side).2 p x) :
    At t p x ∨ x = ⟨side, n⟩ := by
  obtain hold | ⟨hpost, -, -⟩ := at_fork h
  · exact .inl hold
  · rw [Side.post_role] at hpost
    exact .inr (Option.some.inj hpost).symm

theorem startSession_eq (forks : Forks Role) (n intervalMs : ℕ) (t : Children) :
    startSession forks n intervalMs t =
      spawn forks n intervalMs (spawn forks n intervalMs ⟨0, 0, true⟩ t .gatekeeper).1
        (spawn forks n intervalMs ⟨0, 0, true⟩ t .gatekeeper).2 .logic := rfl

theorem grows_startSession (forks : Forks Role) (n intervalMs : ℕ) (t : Children) :
    Grows t (startSession forks n intervalMs t).2 :=
  (Grows.fork forks (.gatekeeper n) t).trans (.fork forks (.logic n intervalMs) _)

/-- The two processes of a new session go on record. -/
theorem RecordedFrom.start {t : Children} {es : List Entry} (forks : Forks Role) (intervalMs : ℕ)
    (h : RecordedFrom 0 t es) :
    RecordedFrom 0 (startSession forks es.length intervalMs t).2
      (es ++ [(startSession forks es.length intervalMs t).1]) := by
  have hnone : ∀ p side, ¬ At t p ⟨side, es.length⟩ := by
    intro p side hp
    obtain ⟨-, e, he, -⟩ := h p _ (Nat.zero_le _) hp
    rw [Nat.sub_zero, List.getElem?_eq_none (Nat.le_refl _)] at he
    cases he
  rw [startSession_eq]
  generalize hgk : spawn forks es.length intervalMs ⟨0, 0, true⟩ t .gatekeeper = gk
  have hfirst : gk.1.Records es.length gk.2 := by
    rw [← hgk]
    exact Entry.Records.spawn (fun p side hp => absurd hp (hnone p side)) fun p =>
      hnone p .gatekeeper
  have hplaces : ∀ p x, At gk.2 p x → At t p x ∨ x = ⟨.gatekeeper, es.length⟩ := by
    intro p x hp
    rw [← hgk] at hp
    exact at_spawn hp
  have hnew : (spawn forks es.length intervalMs gk.1 gk.2 .logic).1.Records es.length
      (spawn forks es.length intervalMs gk.1 gk.2 .logic).2 := by
    refine hfirst.spawn fun p hp => ?_
    obtain hold | hpost := hplaces p _ hp
    · exact hnone p .logic hold
    · cases hpost
  intro p x hx hp
  by_cases hlen : x.session = es.length
  · obtain ⟨side, n⟩ := x
    obtain rfl : n = es.length := hlen
    refine ⟨(hnew p side hp).1, _, ?_, (hnew p side hp).2⟩
    exact List.getElem?_concat_length
  · have hold : At t p x := by
      obtain hp | rfl := at_spawn hp
      · obtain hp | rfl := hplaces p x hp
        · exact hp
        · exact absurd rfl hlen
      · exact absurd rfl hlen
    obtain ⟨hpos, e, he, hpid⟩ := h p x hx hold
    exact ⟨hpos, e, by rw [List.getElem?_append_left (List.getElem?_eq_some_iff.mp he).1, he], hpid⟩

/-- **A step of `main` forgets no child but the one it waits for**, and those it adds
have new numbers. -/
theorem Main.grows {s t : State} {left : Children} (h : Main s left t) : Grows left t.procs := by
  cases h with
  | startsSession forks => exact grows_startSession forks _ s.intervalMs s.procs
  | waits forks p c status => exact grows_reapAll forks s.intervalMs status 0 s.sessions _
  | terminates => exact .of_same fun p r => child_terminateAll
  | _ => exact .refl _

theorem Main.left_subset {s t : State} {left : Children} (h : Main s left t) {p : ℤ} {r : Role}
    (hp : Child left p r) : Child s.procs p r := by
  cases h with
  | waits => exact (child_reap.mp hp).2
  | awaits => exact (child_reap.mp hp).2
  | _ => exact hp

theorem Step.recorded {own : Bool} {s t : State} (h : Step own s t) (hs : s.Recorded) :
    t.Recorded := by
  obtain h | ⟨left, h⟩ := h
  · unfold State.Recorded
    rw [h.quiet.sessions]
    exact RecordedFrom.mono hs fun p x _ hp => h.quiet.places hp
  · cases h with
    | loads => exact hs
    | startsSession forks hphase hlen => exact RecordedFrom.start forks s.intervalMs hs
    | fails => exact hs
    | enters => exact hs
    | waits forks p c status hphase hrun hpos hp hend =>
      refine RecordedFrom.reapAll forks s.intervalMs status ?_ ?_
      · exact RecordedFrom.mono hs fun q x _ hq => (at_reap.mp hq).2
      · exact fun x _ hx => (at_reap.mp hx).1 rfl
    | waitsNone => exact hs
    | checks => exact hs
    | commands => exact hs
    | leaves => exact hs
    | terminates hphase =>
      exact RecordedFrom.mono hs fun q x _ => (at_congr fun r => child_terminateAll).mp
    | awaits p ps hphase hend => exact RecordedFrom.mono hs fun q x _ hq => (at_reap.mp hq).2
    | awaited => exact hs
    | returns => exact hs

theorem recorded {own : Bool} {ms : ℕ} {s : State} (h : Reachable (Step own) (init ms) s) :
    s.Recorded := by
  refine h.invariant ?_ fun _ _ _ hs hst => hst.recorded hs
  rintro p x - ⟨r, hr, -⟩
  exact absurd hr (not_child_of_none rfl)

theorem State.Recorded.unique {s : State} {p q : ℤ} {x : Post} (h : s.Recorded)
    (hp : At s.procs p x) (hq : At s.procs q x) : p = q := by
  obtain ⟨-, e, he, hpe⟩ := h p x (Nat.zero_le _) hp
  obtain ⟨-, e', he', hqe⟩ := h q x (Nat.zero_le _) hq
  rw [he] at he'
  obtain rfl := Option.some.inj he'
  rw [← hpe, ← hqe]

/-- **Two children at one post are one child**, whatever order children end in,
whichever numbers are given out again and whoever else waits for them. -/
theorem one_process_at_a_post {own : Bool} {ms : ℕ} {s : State} {p q : ℤ} {x : Post}
    (h : Reachable (Step own) (init ms) s) (hp : At s.procs p x) (hq : At s.procs q x) : p = q :=
  (recorded h).unique hp hq

/-- A system that gives out the numbers it is told to, where they are free. -/
def numbered (number : Role → ℤ) : Forks Role where
  pid r t := if 0 < number r ∧ (t (number r)).isNone then some (number r) else none
  fresh r t p h := by
    split at h
    next hfree =>
      obtain rfl := Option.some.inj h
      exact ⟨hfree.1, Option.isNone_iff_eq_none.mp hfree.2⟩
    next => cases h

/-- Child `101` for the gatekeeper and `102` for the logic process. -/
def firstNumbers : Role → ℤ
  | .gatekeeper _ => 101
  | _ => 102

/-- One target, whose gatekeeper is killed by a `SIGSEGV`; child `103` takes the post. -/
theorem respawned (own : Bool) : ∃ s, Reachable (Step own) (init 100) s ∧ s.phase = .reaped ∧
    s.sessions = [⟨103, 102, true⟩] ∧ s.procs 103 = some ⟨.gatekeeper 0, false, none⟩ := by
  have h : Reachable (Step own) (init 100) (init 100) := Reachable.refl
  have h := h.tail (.inr ⟨_, .loads _ rfl⟩)
  have h := h.tail (.inr ⟨_, .startsSession _ (numbered firstNumbers) rfl (by decide)⟩)
  have h := h.tail (.inr ⟨_, .enters _ rfl (List.cons_ne_nil _ _)⟩)
  have h := h.tail (.inl (.ends _ 101 ⟨.gatekeeper 0, false, none⟩ (.signaled 11) rfl rfl))
  have h := h.tail (.inr ⟨_, .waits _ (numbered fun _ => 103) 101
    ⟨.gatekeeper 0, false, some (.signaled 11)⟩ (.signaled 11) rfl rfl (by decide) rfl rfl⟩)
  exact ⟨_, h, rfl, rfl, rfl⟩

/-- **Two children at one post are one child**: the gatekeeper that was put in place of
another. -/
theorem one_process_at_a_post_respawned : ∃ s, Reachable (Step false) (init 100) s ∧
    At s.procs 103 ⟨.gatekeeper, 0⟩ ∧ ∀ q, At s.procs q ⟨.gatekeeper, 0⟩ → 103 = q := by
  obtain ⟨s, h, -, -, hgk⟩ := respawned false
  have hat : At s.procs 103 ⟨.gatekeeper, 0⟩ := ⟨.gatekeeper 0, ⟨_, hgk, rfl⟩, rfl⟩
  exact ⟨s, h, hat, fun q hq => one_process_at_a_post h hat hq⟩

/-! ## Stopping -/

/-- Whoever is at a post while `main` waits will be waited for; after that nobody is. -/
def Phase.Leaves (t : Children) : Phase → Prop
  | .waiting ps => ∀ p x, At t p x → p ∈ ps
  | .cleanup => ∀ p x, ¬ At t p x
  | .stopped => ∀ p x, ¬ At t p x
  | _ => True

def State.Leaving (s : State) : Prop := s.phase.Leaves s.procs

theorem Phase.Leaves.mono {t t' : Children} {phase : Phase} (h : phase.Leaves t)
    (hmem : ∀ p x, At t' p x → At t p x) : phase.Leaves t' := by
  cases phase with
  | waiting ps => exact fun p x hp => h p x (hmem p x hp)
  | cleanup => exact fun p x hp => h p x (hmem p x hp)
  | stopped => exact fun p x hp => h p x (hmem p x hp)
  | _ => trivial

theorem Step.leaving {own : Bool} {s t : State} (h : Step own s t) (hrec : s.Recorded)
    (hs : s.Leaving) : t.Leaving := by
  obtain h | ⟨left, h⟩ := h
  · unfold State.Leaving
    rw [h.quiet.phase]
    exact hs.mono fun p x => h.quiet.places
  · cases h with
    | loads => trivial
    | startsSession forks hphase hlen =>
      unfold State.Leaving
      rw [hphase]
      trivial
    | fails => trivial
    | enters => trivial
    | waits => trivial
    | waitsNone => trivial
    | checks => trivial
    | commands cmd =>
      unfold State.Leaving
      by_cases hcmd : cmd = 1
      · rw [if_pos hcmd]
        trivial
      · rw [if_neg hcmd]
        trivial
    | leaves => trivial
    | terminates hphase =>
      intro p x hp
      obtain ⟨hpos, e, he, hpid⟩ :=
        hrec p x (Nat.zero_le _) ((at_congr fun r => child_terminateAll).mp hp)
      refine List.mem_flatMap.mpr ⟨e, List.mem_of_getElem? he, ?_⟩
      refine List.mem_filter.mpr ⟨?_, decide_eq_true hpos⟩
      rw [← hpid]
      cases x.side with
      | gatekeeper => exact List.mem_cons_self
      | logic => exact List.mem_cons_of_mem _ List.mem_cons_self
    | awaits p ps hphase hend =>
      intro q x hq
      unfold State.Leaving at hs
      rw [hphase] at hs
      obtain ⟨hne, hq⟩ := at_reap.mp hq
      exact (List.mem_cons.mp (hs q x hq)).resolve_left hne
    | awaited hphase =>
      intro p x hp
      unfold State.Leaving at hs
      rw [hphase] at hs
      exact absurd (hs p x hp) List.not_mem_nil
    | returns hphase =>
      unfold State.Leaving at hs
      rw [hphase] at hs
      exact hs

/-- **When `main` has stopped, no gatekeeper and no logic process is left**, running
or not waited for. -/
theorem stopped_leaves_no_process {own : Bool} {ms : ℕ} {s : State} {p : ℤ} {x : Post}
    (h : Reachable (Step own) (init ms) s) (hphase : s.phase = .stopped) : ¬ At s.procs p x := by
  have hstart : (init ms).Leaving := True.intro
  have hleaving : s.Leaving :=
    h.invariant hstart fun _ _ hs hl hst => hst.leaving (recorded hs) hl
  unfold State.Leaving at hleaving
  rw [hphase] at hleaving
  exact hleaving p x

/-- **When `main` has stopped, no process is left**: one target, stopped by a signal,
whose processes end while `main` waits. -/
theorem stopped_leaves_no_process_one_target :
    ∃ s, Reachable (Step false) (init 100) s ∧ s.phase = .stopped ∧ s.sessions = [⟨101, 102, true⟩] ∧
      ∀ p x, ¬ At s.procs p x := by
  have h : Reachable (Step false) (init 100) (init 100) := Reachable.refl
  have h := h.tail (.inr ⟨_, .loads _ rfl⟩)
  have h := h.tail (.inr ⟨_, .startsSession _ (numbered firstNumbers) rfl (by decide)⟩)
  have h := h.tail (.inr ⟨_, .enters _ rfl (List.cons_ne_nil _ _)⟩)
  have h := h.tail (.inl (.interrupted _ (by decide) (by decide)))
  have h := h.tail (.inr ⟨_, .leaves _ rfl rfl⟩)
  have h := h.tail (.inr ⟨_, .terminates _ rfl⟩)
  have h := h.tail (.inl (.ends _ 101 ⟨.gatekeeper 0, false, none⟩ (.exited 0) rfl rfl))
  have h := h.tail (.inl (.ends _ 102 ⟨.logic 0 100, false, none⟩ (.signaled 15) rfl rfl))
  have h := h.tail (.inr ⟨_, .awaits _ 101 [102] rfl fun c hc => by cases hc; rfl⟩)
  have h := h.tail (.inr ⟨_, .awaits _ 102 [] rfl fun c hc => by cases hc; rfl⟩)
  have h := h.tail (.inr ⟨_, .awaited _ rfl⟩)
  have h := h.tail (.inr ⟨_, .returns _ rfl⟩)
  exact ⟨_, h, rfl, rfl, fun p x => stopped_leaves_no_process h rfl⟩

end Supervision
end Nsr
