import Nsr.Core.Posts
import Mathlib.Data.List.Forall2

/-!
# What an active session has

A session is given up when one of its processes exits, and for good.  As long as it
is active a process of it that a signal ends is replaced in the round that learns
of it.  So an active session has both of its processes, but for a fork that fails:
then `-1` is on record, nobody is at the post and nothing is started there again.

This needs that the plugin code waits for its own children only, for a process it
takes the end of is one that `main` does not hear of.

* `Entry.Served`: a number on record is `-1` or that of a child at the post.
* `Entry.ServedBut`: the same, but for the child `main` has just waited for.
* `active_session_is_served`: over runs.
* `disabled_stays`, `rounds_have_an_active_session`: a session that was given up
  stays so, and `main` starts no round without an active one.
* `interval_bounds`: the intervals logic processes are started with.
-/

namespace Nsr
namespace Supervision

open Posix Transition

/-- An active session has on record `-1`, or a child at the post. -/
def Entry.Served (e : Entry) (s : ℕ) (t : Children) : Prop :=
  e.active → ∀ side, e.pid side = -1 ∨ At t (e.pid side) ⟨side, s⟩

/-- The same when the child `exited` was waited for, which had one post. -/
def Entry.ServedBut (exited : ℤ) (e : Entry) (s : ℕ) (t : Children) : Prop :=
  e.active →
    (∀ side, e.pid side = exited ∨ e.pid side = -1 ∨ At t (e.pid side) ⟨side, s⟩) ∧
      ∀ side side', e.pid side = exited → e.pid side' = exited → side = side'

section Entries

variable {forks : Forks Role} {intervalMs : ℕ} {exited : ℤ} {status : WaitStatus} {s : ℕ}
  {e : Entry} {t t' : Children}

theorem Entry.Served.mono (h : e.Served s t) (hmem : ∀ p x, At t p x → At t' p x) :
    e.Served s t' :=
  fun hactive side => (h hactive side).imp_right (hmem _ _)

theorem Entry.ServedBut.mono (h : e.ServedBut exited s t) (hmem : ∀ p x, At t p x → At t' p x) :
    e.ServedBut exited s t' :=
  fun hactive => ⟨fun side => ((h hactive).1 side).imp_right (Or.imp_right (hmem _ _)),
    (h hactive).2⟩

/-- Waiting for a child. -/
theorem Entry.Served.reap (h : e.Served s t) (hpos : 0 < exited) :
    e.ServedBut exited s (Posix.reap exited t) := by
  intro hactive
  refine ⟨fun side => ?_, fun side side' hside hside' => ?_⟩
  · by_cases hex : e.pid side = exited
    · exact .inl hex
    · exact .inr ((h hactive side).imp_right fun hat => at_reap.mpr ⟨hex, hat⟩)
  · have hat : ∀ side, e.pid side = exited → At t exited ⟨side, s⟩ := by
      intro side hside
      obtain hminus | hat := h hactive side
      · omega
      · rw [hside] at hat
        exact hat
    exact congrArg Post.side ((hat side hside).post_unique (hat side' hside'))

/-- **The loop serves a session again**, or gives it up. -/
theorem Entry.ServedBut.reapEntry (h : e.ServedBut exited s t) :
    (Supervision.reapEntry forks intervalMs exited status s e t).1.Served s
      (Supervision.reapEntry forks intervalMs exited status s e t).2 := by
  obtain ⟨side, hside, -, heq⟩ | ⟨-, hent, -⟩ | ⟨hother, heq⟩ :=
    reapEntry_cases forks intervalMs exited status s e t
  · rw [heq]
    intro hactive side'
    rw [spawn_active] at hactive
    by_cases hne : side' = side
    · subst hne
      rw [spawn_pid_self]
      refine (fork_fst forks _ t).imp_right fun hchild => ⟨_, hchild, ?_⟩
      exact Side.post_role s intervalMs side'
    · rw [spawn_pid_of_ne forks s intervalMs e t hne]
      obtain hex | hrest := (h hactive).1 side'
      · exact absurd ((h hactive).2 side' side hex hside.symm) hne
      · exact hrest.imp_right At.fork
  · rw [hent]
    intro hactive
    cases hactive
  · rw [heq]
    intro hactive side
    exact ((h hactive).1 side).resolve_left fun hex => hother side hex.symm

end Entries

/-! ## All sessions -/

/-- The entries from session `n` on are served. -/
def ServedFrom (n : ℕ) (t : Children) (es : List Entry) : Prop :=
  ∀ i (e : Entry), es[i]? = some e → e.Served (n + i) t

def ServedButFrom (exited : ℤ) (n : ℕ) (t : Children) (es : List Entry) : Prop :=
  ∀ i (e : Entry), es[i]? = some e → e.ServedBut exited (n + i) t

theorem servedFrom_nil (n : ℕ) (t : Children) : ServedFrom n t [] := by
  intro i e hi
  rw [List.getElem?_nil] at hi
  cases hi

theorem servedFrom_cons {n : ℕ} {t : Children} {e : Entry} {es : List Entry} (he : e.Served n t)
    (hes : ServedFrom (n + 1) t es) : ServedFrom n t (e :: es) := by
  intro i e' hi
  cases i with
  | zero =>
    obtain rfl := Option.some.inj hi
    exact he
  | succ i =>
    rw [show n + (i + 1) = n + 1 + i by omega]
    exact hes i e' hi

theorem ServedButFrom.tail {exited : ℤ} {n : ℕ} {t : Children} {e : Entry} {es : List Entry}
    (h : ServedButFrom exited n t (e :: es)) : ServedButFrom exited (n + 1) t es := by
  intro i e' hi
  rw [show n + 1 + i = n + (i + 1) by omega]
  exact h (i + 1) e' hi

/-- The loop serves every session again, or gives it up. -/
theorem ServedButFrom.reapAll (forks : Forks Role) (intervalMs : ℕ) (status : WaitStatus)
    {exited : ℤ} {n : ℕ} {t : Children} {es : List Entry} (h : ServedButFrom exited n t es) :
    ServedFrom n (Supervision.reapAll forks intervalMs exited status n es t).2
      (Supervision.reapAll forks intervalMs exited status n es t).1 := by
  induction es generalizing n t with
  | nil => exact servedFrom_nil n t
  | cons e es ih =>
    have he : e.ServedBut exited n t := h 0 e rfl
    refine servedFrom_cons ?_ (ih ?_)
    · exact Entry.Served.mono he.reapEntry fun p x => .of_grows (grows_reapAll forks intervalMs status _ _ _)
    · exact fun i e' hi => (h.tail i e' hi).mono fun p x => .of_grows grows_reapEntry

/-- A session is served once it was started. -/
theorem startSession_served (forks : Forks Role) (n intervalMs : ℕ) (t : Children) :
    (startSession forks n intervalMs t).1.Served n (startSession forks n intervalMs t).2 := by
  rw [startSession_eq]
  intro _ side
  cases side with
  | gatekeeper =>
    refine Or.imp_right At.fork ?_
    exact (fork_fst forks (.gatekeeper n) t).imp_right fun hchild => ⟨_, hchild, rfl⟩
  | logic => exact (fork_fst forks (.logic n intervalMs) _).imp_right fun hchild => ⟨_, hchild, rfl⟩

/-! ## Runs -/

/-- Before `main` waits for what it ended. -/
def Phase.inCharge : Phase → Bool
  | .waiting _ | .cleanup | .stopped => false
  | _ => true

def State.Served (s : State) : Prop := s.phase.inCharge → ServedFrom 0 s.procs s.sessions

theorem Step.served {s t : State} (h : Step true s t) (hs : s.Served) : t.Served := by
  obtain h | ⟨left, h⟩ := h
  · intro hphase i e he
    rw [h.quiet.phase] at hphase
    rw [h.quiet.sessions] at he
    exact (hs hphase i e he).mono (h.quiet.kept rfl)
  · cases h with
    | loads hphase => exact fun _ => hs (by rw [hphase]; rfl)
    | startsSession forks hphase hlen =>
      intro _ i e he
      rw [Nat.zero_add]
      obtain hlt | heq := Nat.lt_or_eq_of_le
        (Nat.le_of_lt_succ (by simpa using (List.getElem?_eq_some_iff.mp he).1))
      · dsimp only at he ⊢
        rw [List.getElem?_append_left hlt] at he
        have hold := hs (by rw [hphase]; rfl) i e he
        rw [Nat.zero_add] at hold
        exact hold.mono fun p x => .of_grows (grows_startSession forks _ s.intervalMs s.procs)
      · subst heq
        dsimp only at he ⊢
        rw [List.getElem?_concat_length] at he
        obtain rfl := Option.some.inj he
        exact startSession_served forks _ s.intervalMs s.procs
    | fails hphase => exact fun _ => hs (by rw [hphase]; rfl)
    | enters hphase => exact fun _ => hs (by rw [hphase]; rfl)
    | waits forks p c status hphase hrun hpos hp hend =>
      refine fun _ => ServedButFrom.reapAll forks s.intervalMs status fun i e he => ?_
      exact (hs (by rw [hphase]; rfl) i e he).reap hpos
    | waitsNone hphase => exact fun _ => hs (by rw [hphase]; rfl)
    | checks hphase => exact fun _ => hs (by rw [hphase]; rfl)
    | commands cmd hphase => exact fun _ => hs (by rw [hphase]; rfl)
    | leaves hphase => exact fun _ => hs (by rw [hphase]; rfl)
    | terminates hphase => exact fun h => Bool.noConfusion h
    | awaits p ps hphase hend => exact fun h => Bool.noConfusion h
    | awaited hphase => exact fun h => Bool.noConfusion h
    | returns hphase => exact fun h => Bool.noConfusion h

/-- **An active session has one process at each of its posts**, the one on record;
where a fork has failed it has none.  The plugin code must not wait for them. -/
theorem active_session_is_served {ms : ℕ} {s : State} {i : ℕ} {e : Entry}
    (h : Reachable (Step true) (init ms) s) (hphase : s.phase.inCharge)
    (he : s.sessions[i]? = some e) (hactive : e.active) (side : Side) :
    (e.pid side = -1 ∧ ∀ p, ¬ At s.procs p ⟨side, i⟩) ∨
      ∀ p, At s.procs p ⟨side, i⟩ ↔ p = e.pid side := by
  have hstart : (init ms).Served := fun _ => servedFrom_nil 0 _
  have hserved : s.Served := h.invariant hstart fun _ _ _ hs hst => hst.served hs
  have hrec : ∀ p, At s.procs p ⟨side, i⟩ → 0 < p ∧ e.pid side = p := by
    intro p hp
    obtain ⟨hpos, e', he', hpid⟩ := recorded h p _ (Nat.zero_le _) hp
    rw [Nat.sub_zero, he] at he'
    obtain rfl := Option.some.inj he'
    exact ⟨hpos, hpid⟩
  have hone := hserved hphase i e he hactive side
  rw [Nat.zero_add] at hone
  obtain hminus | hat := hone
  · refine .inl ⟨hminus, fun p hp => ?_⟩
    have hp' := hrec p hp
    omega
  · refine .inr fun p => ⟨fun hp => (hrec p hp).2.symm, ?_⟩
    rintro rfl
    exact hat

/-- **An active session has one process at each of its posts**: the gatekeeper that was
put in place of another. -/
theorem active_session_is_served_respawned : ∃ s, Reachable (Step true) (init 100) s ∧
    s.sessions = [⟨103, 102, true⟩] ∧ ∀ side,
      ((⟨103, 102, true⟩ : Entry).pid side = -1 ∧ ∀ p, ¬ At s.procs p ⟨side, 0⟩) ∨
        ∀ p, At s.procs p ⟨side, 0⟩ ↔ p = (⟨103, 102, true⟩ : Entry).pid side := by
  obtain ⟨s, h, hphase, hsessions, -⟩ := respawned true
  refine ⟨s, h, hsessions, fun side => active_session_is_served h ?_ ?_ rfl side⟩
  · rw [hphase]
    rfl
  · rw [hsessions]
    rfl

/-! ## Giving sessions up -/

section Loop

variable (forks : Forks Role) (intervalMs : ℕ) (exited : ℤ) (status : WaitStatus)

theorem active_of_reapEntry {s : ℕ} {e : Entry} {t : Children}
    (h : (reapEntry forks intervalMs exited status s e t).1.active) : e.active := by
  obtain ⟨side, -, -, heq⟩ | ⟨-, hent, -⟩ | ⟨-, heq⟩ :=
    reapEntry_cases forks intervalMs exited status s e t
  · rw [heq, spawn_active] at h
    exact h
  · rw [hent] at h
    cases h
  · rw [heq] at h
    exact h

/-- The loop makes no session active. -/
theorem reapAll_active (n : ℕ) (es : List Entry) (t : Children) :
    List.Forall₂ (fun e e' => e'.active → e.active) es
      (reapAll forks intervalMs exited status n es t).1 := by
  induction es generalizing n t with
  | nil => exact .nil
  | cons e es ih => exact .cons (active_of_reapEntry forks intervalMs exited status) (ih _ _)

/-- Whoever is new after the loop is a gatekeeper, or a logic process with the
interval of now. -/
theorem child_reapAll {n : ℕ} {es : List Entry} {t : Children} {p : ℤ} {r : Role}
    (h : Child (reapAll forks intervalMs exited status n es t).2 p r) :
    Child t p r ∨ ∃ s side, r = Side.role s intervalMs side := by
  induction es generalizing n t with
  | nil => exact .inl h
  | cons e es ih =>
    obtain hold | hnew := ih h
    · obtain ⟨side, -, -, heq⟩ | ⟨-, -, hsame⟩ | ⟨-, heq⟩ :=
        reapEntry_cases forks intervalMs exited status n e t
      · rw [heq] at hold
        obtain hold | ⟨hr, -⟩ := child_fork hold
        · exact .inl hold
        · exact .inr ⟨n, side, hr⟩
      · exact .inl ((hsame p r).mp hold)
      · rw [heq] at hold
        exact .inl hold
    · exact .inr hnew

end Loop

/-- A session that was given up is not taken up again by a step. -/
theorem Step.disabled {own : Bool} {s t : State} (h : Step own s t) {i : ℕ} {e : Entry}
    (he : s.sessions[i]? = some e) (hactive : e.active = false) :
    ∃ e', t.sessions[i]? = some e' ∧ e'.active = false := by
  obtain h | ⟨left, h⟩ := h
  · exact ⟨e, by rw [h.quiet.sessions, he], hactive⟩
  · cases h with
    | startsSession forks hphase hlen =>
      refine ⟨e, ?_, hactive⟩
      dsimp only
      rw [List.getElem?_append_left (List.getElem?_eq_some_iff.mp he).1, he]
    | waits forks p c status =>
      have hall := List.forall₂_iff_get.mp
        (reapAll_active forks s.intervalMs p status 0 s.sessions (reap p s.procs))
      obtain ⟨hlt, hget⟩ := List.getElem?_eq_some_iff.mp he
      have hlt' : i < (reapAll forks s.intervalMs p status 0 s.sessions (reap p s.procs)).1.length :=
        hall.1 ▸ hlt
      refine ⟨_, List.getElem?_eq_getElem hlt', Bool.eq_false_iff.mpr fun hnew => ?_⟩
      have hold := hall.2 i hlt hlt' hnew
      rw [List.get_eq_getElem, hget, hactive] at hold
      cases hold
    | _ => exact ⟨e, he, hactive⟩

/-- **A session that was given up stays so.** -/
theorem disabled_stays {own : Bool} {s t : State} (h : Relation.ReflTransGen (Step own) s t)
    {i : ℕ} {e : Entry} (he : s.sessions[i]? = some e) (hactive : e.active = false) :
    ∃ e', t.sessions[i]? = some e' ∧ e'.active = false := by
  induction h with
  | refl => exact ⟨e, he, hactive⟩
  | tail _ hst ih =>
    obtain ⟨e', he', hactive'⟩ := ih
    exact hst.disabled he' hactive'

/-- Sessions are started active, and a round is entered with an active one. -/
structure State.Worthwhile (s : State) : Prop where
  fresh : s.phase = .loading ∨ s.phase = .starting → ∀ e ∈ s.sessions, e.active
  round : s.phase = .checked ∨ s.phase = .loop → s.running → ∃ e ∈ s.sessions, e.active

theorem Step.worthwhile {own : Bool} {s t : State} (h : Step own s t) (hs : s.Worthwhile) :
    t.Worthwhile := by
  obtain h | ⟨left, h⟩ := h
  · refine ⟨fun hphase => ?_, fun hphase hrun => ?_⟩
    · rw [h.quiet.sessions]
      rw [h.quiet.phase] at hphase
      exact hs.fresh hphase
    · rw [h.quiet.sessions]
      rw [h.quiet.phase] at hphase
      exact hs.round hphase (h.quiet.running hrun)
  · cases h with
    | loads hphase => exact ⟨fun _ => hs.fresh (.inl hphase), by simp⟩
    | startsSession forks hphase hlen =>
      refine ⟨fun _ e he => ?_, fun hround => by simp [hphase] at hround⟩
      obtain hold | hnew := List.mem_append.mp he
      · exact hs.fresh (.inr hphase) e hold
      · rw [List.mem_singleton.mp hnew, startSession_eq, spawn_active, spawn_active]
    | fails => exact ⟨by simp, by simp⟩
    | enters hphase hne =>
      refine ⟨by simp, fun _ _ => ?_⟩
      obtain ⟨e, he⟩ := List.exists_mem_of_ne_nil _ hne
      exact ⟨e, he, hs.fresh (.inr hphase) e he⟩
    | waits => exact ⟨by simp, by simp⟩
    | waitsNone => exact ⟨by simp, by simp⟩
    | checks hphase =>
      refine ⟨by simp, fun _ hrun => ?_⟩
      exact List.any_eq_true.mp (Bool.and_eq_true_iff.mp hrun).2
    | commands cmd hphase =>
      refine ⟨fun hfresh => ?_, fun _ hrun => hs.round (.inl hphase) hrun⟩
      by_cases hcmd : cmd = 1 <;> simp [hcmd] at hfresh
    | leaves => exact ⟨by simp, by simp⟩
    | terminates => exact ⟨by simp, by simp⟩
    | awaits => exact ⟨by simp, by simp⟩
    | awaited => exact ⟨by simp, by simp⟩
    | returns => exact ⟨by simp, by simp⟩

/-- **`main` starts a round only for an active session.** -/
theorem rounds_have_an_active_session {own : Bool} {ms : ℕ} {s : State}
    (h : Reachable (Step own) (init ms) s) (hphase : s.phase = .loop) (hrun : s.running) :
    ∃ e ∈ s.sessions, e.active := by
  have hstart : (init ms).Worthwhile := ⟨fun _ e he => absurd he List.not_mem_nil, by simp [init]⟩
  exact (h.invariant hstart fun _ _ _ hs hst => hst.worthwhile hs).round (.inr hphase) hrun

/-! ## Intervals -/

/-- What can become of an interval that began as `ms`. -/
def Interval (ms i : ℕ) : Prop := (1 ≤ i ∧ i ≤ 1009) ∧ (10 ∣ ms → 10 ∣ i ∧ 10 ≤ i ∧ i ≤ 1000)

theorem interval_set (ms : ℕ) : Interval (setInterval ms) (setInterval ms) := by
  unfold Interval setInterval
  split
  · omega
  · split <;> omega

theorem Interval.change {ms i : ℕ} (h : Interval ms i) (cmd : ℕ) :
    Interval ms (changeInterval cmd i) := by
  unfold Interval at h ⊢
  unfold changeInterval
  repeat' split
  all_goals omega

/-- The interval in use and those of the logic processes. -/
structure State.Paced (ms : ℕ) (s : State) : Prop where
  own : Interval ms s.intervalMs
  children : ∀ p n i, Child s.procs p (.logic n i) → Interval ms i

theorem Step.paced {own : Bool} {ms : ℕ} {s t : State} (h : Step own s t) (hs : s.Paced ms) :
    t.Paced ms := by
  obtain h | ⟨left, h⟩ := h
  · refine ⟨?_, fun p n i hp => hs.children p n i (h.quiet.children p _ rfl hp)⟩
    rw [h.quiet.intervalMs]
    exact hs.own
  · cases h with
    | startsSession forks hphase hlen =>
      refine ⟨hs.own, fun p n i hp => ?_⟩
      dsimp only at hp
      rw [startSession_eq] at hp
      obtain hp | ⟨hr, -⟩ := child_fork hp
      · obtain hp | ⟨hr, -⟩ := child_fork hp
        · exact hs.children p n i hp
        · cases hr
      · cases hr
        exact hs.own
    | waits forks p c status =>
      refine ⟨hs.own, fun q n i hq => ?_⟩
      obtain hold | ⟨m, side, hr⟩ := child_reapAll forks s.intervalMs p status hq
      · exact hs.children q n i (child_reap.mp hold).2
      · cases side with
        | gatekeeper => cases hr
        | logic =>
          cases hr
          exact hs.own
    | commands cmd hphase => exact ⟨hs.own.change cmd, hs.children⟩
    | terminates => exact ⟨hs.own, fun p n i hp => hs.children p n i (child_terminateAll.mp hp)⟩
    | awaits => exact ⟨hs.own, fun p n i hp => hs.children p n i (child_reap.mp hp).2⟩
    | _ => exact ⟨hs.own, hs.children⟩

/-- **No logic process is started with an interval under `1` or over `1009` ms**, and
none outside `10` to `1000` when the first one was a multiple of `10`. -/
theorem interval_bounds {own : Bool} {ms : ℕ} {s : State}
    (h : Reachable (Step own) (init (setInterval ms)) s) {p : ℤ} {n i : ℕ}
    (hp : Child s.procs p (.logic n i)) : Interval (setInterval ms) i := by
  have hstart : (init (setInterval ms)).Paced (setInterval ms) :=
    ⟨interval_set ms, fun p n i hp => absurd hp (not_child_of_none rfl)⟩
  exact (h.invariant hstart fun _ _ _ hs hst => hst.paced hs).children p n i hp

end Supervision
end Nsr
