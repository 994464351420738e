import Mathlib.Logic.Function.Basic
import Mathlib.Data.Nat.Notation
import Mathlib.Data.Int.Notation

/-!
# The children of a process

A process starts children with `fork`, ends them with `kill` and forgets them
with `waitpid`.  Between its end and its `waitpid` a child is still there: its
number is not given out again before it is waited for, and after that it may be
the very next one given out.  So a number written down by the parent may come to
name another child, and what a parent believes about its children has to be
stated about the table, not about the numbers.

The table maps a number to the child that bears it.  What a child runs is a role
`ρ`, fixed for its life.

* `Forks`: what the system answers to `fork`, with the one thing it promises: the
  number is positive and borne by no child.
* `Child t p r`: `p` is a child in role `r`, running or waiting to be waited for.
* `child_fork`, `child_reap`, `child_terminate`: what each call does to the
  children.  Only `reap` takes one away.
* `Grows`: children are added, under numbers nobody had, and none is taken away.
-/

namespace Posix

universe u

/-- What `waitpid` says of a child that has ended. -/
inductive WaitStatus
  | exited (code : ℕ)
  | signaled (sig : ℕ)
  deriving DecidableEq, Repr

/-- `WIFEXITED`. -/
def WaitStatus.ifExited : WaitStatus → Bool
  | .exited _ => true
  | .signaled _ => false

/-- A child: what it runs, whether it has put the action of `SIGTERM` back to the
default since it was forked, and how it ended. -/
structure Process (ρ : Type u) where
  role : ρ
  settled : Bool
  ended : Option WaitStatus

/-- The children, by their numbers. -/
abbrev Table (ρ : Type u) := ℤ → Option (Process ρ)

variable {ρ : Type u}

/-- What the system answers when a child is forked to run `r` with the children
`t`.  A child that has not been waited for keeps its number. -/
structure Forks (ρ : Type u) where
  pid : ρ → Table ρ → Option ℤ
  fresh : ∀ r t p, pid r t = some p → 0 < p ∧ t p = none

/-- `fork`: what the parent is told, and the children after it. -/
def fork (forks : Forks ρ) (r : ρ) (t : Table ρ) : ℤ × Table ρ :=
  match forks.pid r t with
  | none => (-1, t)
  | some p => (p, Function.update t p (some ⟨r, false, none⟩))

/-- `waitpid` has told of the end of `p`. -/
def reap (p : ℤ) (t : Table ρ) : Table ρ := Function.update t p none

/-- Something changes in the child `p` which does not end its being a child. -/
def alter (f : Process ρ → Process ρ) (p : ℤ) (t : Table ρ) : Table ρ :=
  Function.update t p ((t p).map f)

/-- `SIGTERM`, by its default action.  A child that still has the handler of its
parent runs that instead. -/
def Process.sigterm (c : Process ρ) : Process ρ :=
  if c.settled ∧ c.ended = none then { c with ended := some (.signaled 15) } else c

/-- `kill(p, SIGTERM)`. -/
def terminate (p : ℤ) (t : Table ρ) : Table ρ := alter Process.sigterm p t

/-- `p` is a child in role `r` that has not been waited for. -/
def Child (t : Table ρ) (p : ℤ) (r : ρ) : Prop := ∃ c, t p = some c ∧ c.role = r

/-- A child in role `r`, still running. -/
def Running (t : Table ρ) (p : ℤ) (r : ρ) : Prop :=
  ∃ c, t p = some c ∧ c.role = r ∧ c.ended = none

variable {t : Table ρ} {p q : ℤ} {r r' : ρ} {forks : Forks ρ}

theorem Running.child (h : Running t p r) : Child t p r := by
  obtain ⟨c, hc, hr, -⟩ := h
  exact ⟨c, hc, hr⟩

/-- A child has one role. -/
theorem Child.role_unique (h : Child t p r) (h' : Child t p r') : r = r' := by
  obtain ⟨c, hc, rfl⟩ := h
  obtain ⟨c', hc', rfl⟩ := h'
  rw [hc] at hc'
  rw [Option.some.inj hc']

theorem not_child_of_none (h : t p = none) : ¬ Child t p r := by
  rintro ⟨c, hc, -⟩
  rw [h] at hc
  cases hc

/-! ## What the calls do to the children -/

/-- **A fork fails, or adds one child under a number nobody had.** -/
theorem fork_cases (forks : Forks ρ) (r : ρ) (t : Table ρ) :
    fork forks r t = (-1, t) ∨
      ∃ p, 0 < p ∧ t p = none ∧
        fork forks r t = (p, Function.update t p (some ⟨r, false, none⟩)) := by
  unfold fork
  cases hp : forks.pid r t with
  | none => exact .inl rfl
  | some p => exact .inr ⟨p, (forks.fresh r t p hp).1, (forks.fresh r t p hp).2, rfl⟩

/-- Every child after a fork was there before, or is the one forked. -/
theorem child_fork (h : Child (fork forks r t).2 q r') :
    Child t q r' ∨ r' = r ∧ q = (fork forks r t).1 ∧ 0 < q := by
  obtain hf | ⟨p, hpos, -, hf⟩ := fork_cases forks r t
  · rw [hf] at h
    exact .inl h
  · rw [hf] at h ⊢
    dsimp only at h ⊢
    obtain ⟨c, hc, rfl⟩ := h
    by_cases hqp : q = p
    · subst hqp
      rw [Function.update_self] at hc
      obtain rfl := Option.some.inj hc
      exact .inr ⟨rfl, rfl, hpos⟩
    · rw [Function.update_of_ne hqp] at hc
      exact .inl ⟨c, hc, rfl⟩

/-- A fork takes no child away. -/
theorem Child.fork (h : Child t q r') : Child (Posix.fork forks r t).2 q r' := by
  obtain hf | ⟨p, -, hfree, hf⟩ := fork_cases forks r t
  · rw [hf]
    exact h
  · have hqp : q ≠ p := by
      rintro rfl
      exact not_child_of_none hfree h
    obtain ⟨c, hc, hr⟩ := h
    rw [hf]
    dsimp only
    exact ⟨c, by rw [Function.update_of_ne hqp, hc], hr⟩

/-- The number a fork returns is `-1` or that of a child in the role asked for. -/
theorem fork_fst (forks : Forks ρ) (r : ρ) (t : Table ρ) :
    (fork forks r t).1 = -1 ∨ Child (fork forks r t).2 (fork forks r t).1 r := by
  obtain hf | ⟨p, -, -, hf⟩ := fork_cases forks r t
  · exact .inl (by rw [hf])
  · refine .inr ?_
    rw [hf]
    exact ⟨_, Function.update_self p _ t, rfl⟩

theorem child_reap : Child (reap p t) q r ↔ q ≠ p ∧ Child t q r := by
  unfold Child reap
  by_cases hqp : q = p
  · subst hqp
    rw [Function.update_self]
    constructor
    · rintro ⟨c, hc, -⟩
      cases hc
    · rintro ⟨hne, -⟩
      exact absurd rfl hne
  · rw [Function.update_of_ne hqp]
    exact ⟨fun h => ⟨hqp, h⟩, And.right⟩

/-- A change within a child leaves the children as they are. -/
theorem child_alter {f : Process ρ → Process ρ} (hf : ∀ c, (f c).role = c.role) :
    Child (alter f p t) q r ↔ Child t q r := by
  unfold Child alter
  by_cases hqp : q = p
  · subst hqp
    rw [Function.update_self]
    constructor
    · rintro ⟨c, hc, hr⟩
      obtain ⟨d, hd, rfl⟩ := Option.map_eq_some_iff.mp hc
      exact ⟨d, hd, (hf d).symm.trans hr⟩
    · rintro ⟨c, hc, hr⟩
      exact ⟨f c, by rw [hc]; rfl, (hf c).trans hr⟩
  · rw [Function.update_of_ne hqp]

@[simp] theorem Process.sigterm_role (c : Process ρ) : c.sigterm.role = c.role := by
  unfold sigterm
  split <;> rfl

theorem child_terminate : Child (terminate p t) q r ↔ Child t q r :=
  child_alter Process.sigterm_role

/-! ## Growing -/

/-- Children of `t` stay children in `t'`, and the others there have new numbers. -/
structure Grows (t t' : Table ρ) : Prop where
  kept : ∀ p r, Child t p r → Child t' p r
  new : ∀ p r, Child t' p r → Child t p r ∨ t p = none

namespace Grows

variable {t t' t'' : Table ρ}

theorem refl (t : Table ρ) : Grows t t := ⟨fun _ _ h => h, fun _ _ h => .inl h⟩

theorem free (h : Grows t t') {p : ℤ} (hp : t' p = none) : t p = none := by
  cases hold : t p with
  | none => rfl
  | some c =>
    have hchild := h.kept p c.role ⟨c, hold, rfl⟩
    exact absurd hchild (not_child_of_none hp)

theorem trans (h : Grows t t') (h' : Grows t' t'') : Grows t t'' where
  kept p r hp := h'.kept p r (h.kept p r hp)
  new p r hp := by
    obtain hold | hfree := h'.new p r hp
    · exact h.new p r hold
    · exact .inr (h.free hfree)

theorem of_same (h : ∀ p r, Child t' p r ↔ Child t p r) : Grows t t' :=
  ⟨fun p r hp => (h p r).mpr hp, fun p r hp => .inl ((h p r).mp hp)⟩

theorem fork (forks : Forks ρ) (r : ρ) (t : Table ρ) : Grows t (Posix.fork forks r t).2 := by
  refine ⟨fun p r' hp => hp.fork, fun p r' hp => ?_⟩
  obtain hf | ⟨q, -, hfree, hf⟩ := fork_cases forks r t
  · rw [hf] at hp
    exact .inl hp
  · rw [hf] at hp
    by_cases hpq : p = q
    · exact .inr (hpq ▸ hfree)
    · obtain ⟨c, hc, hr⟩ := hp
      dsimp only at hc
      rw [Function.update_of_ne hpq] at hc
      exact .inl ⟨c, hc, hr⟩

end Grows

end Posix
