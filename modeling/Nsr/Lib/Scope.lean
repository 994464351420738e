import Mathlib.Data.List.Induction

/-!
# What must not happen between two kinds of event

A trace is a list of events.  Some of them open a scope, some close it, and some must not occur
while a scope is open: the pattern "after this, until that, never such a thing".

* `isOpen`: a scope is open at the end of a trace.
* `Respected`: no event that must not occur lies in a scope.
* `respected_concat`, `closed_append`, `not_respected_append`: how a trace grows.
-/

namespace Scope

variable {ε : Type*} (opens closes : ε → Bool)

/-- What an event does to the scope. -/
def next (s : Bool) (x : ε) : Bool :=
  if opens x then true else if closes x then false else s

/-- **A scope is open at the end of a trace.** -/
def isOpen (l : List ε) : Bool :=
  l.foldl (next opens closes) false

/-- **No event of `bad` lies between an opening event and the closing one after it.** -/
def Respected (bad : ε → Bool) (l : List ε) : Prop :=
  ∀ pre x mid b post, l = pre ++ x :: (mid ++ b :: post) → opens x = true →
    (∀ y ∈ mid, closes y = false) → bad b = false

variable {opens closes} {bad : ε → Bool} {l l' : List ε}

theorem isOpen_concat (l : List ε) (x : ε) :
    isOpen opens closes (l ++ [x]) = next opens closes (isOpen opens closes l) x := by
  rw [isOpen, List.foldl_append]
  rfl

/-- An event of a trace that has just grown is the new one, or an event of the trace before. -/
theorem cases_concat {pre post : List ε} {z b : ε} (h : l ++ [z] = pre ++ b :: post) :
    (post = [] ∧ l = pre ∧ z = b) ∨ ∃ post', post = post' ++ [z] ∧ l = pre ++ b :: post' := by
  induction post using List.reverseRecOn with
  | nil =>
    obtain ⟨hl, hz⟩ := List.append_inj' h rfl
    exact .inl ⟨rfl, hl, List.singleton_inj.mp hz⟩
  | append_singleton post w _ =>
    rw [← List.cons_append, ← List.append_assoc] at h
    obtain ⟨hl, hz⟩ := List.append_inj' h rfl
    obtain rfl := List.singleton_inj.mp hz
    exact .inr ⟨post, rfl, hl⟩

/-- A scope is open when the trace ends in an opening event with no closing one behind it. -/
theorem isOpen_iff (l : List ε) :
    isOpen opens closes l = true ↔
      ∃ pre x mid, l = pre ++ x :: mid ∧ opens x = true ∧ ∀ y ∈ mid, closes y = false := by
  induction l using List.reverseRecOn with
  | nil =>
    constructor
    · intro h
      cases h
    · rintro ⟨pre, x, mid, h, -⟩
      simp at h
  | append_singleton l z ih =>
    rw [isOpen_concat, next]
    constructor
    · intro h
      split at h
      next hz => exact ⟨l, z, [], rfl, hz, by simp⟩
      next hz =>
        split at h
        · cases h
        next hc =>
          obtain ⟨pre, x, mid, rfl, hx, hmid⟩ := ih.mp h
          refine ⟨pre, x, mid ++ [z], by simp, hx, ?_⟩
          intro y hy
          rcases List.mem_append.mp hy with hy | hy
          · exact hmid y hy
          · rw [List.mem_singleton.mp hy]
            simpa using hc
    · rintro ⟨pre, x, mid, h, hx, hmid⟩
      rcases cases_concat h with ⟨rfl, rfl, rfl⟩ | ⟨mid', rfl, rfl⟩
      · rw [if_pos hx]
      · split
        · rfl
        · rw [if_neg (by simp [hmid z (by simp)])]
          exact ih.mpr ⟨pre, x, mid', rfl, hx, fun y hy => hmid y (by simp [hy])⟩

theorem respected_nil : Respected opens closes bad ([] : List ε) := by
  intro pre x mid b post h
  simp at h

/-- **A trace grows by one event**: that event must not be one of `bad` in an open scope. -/
theorem respected_concat (l : List ε) (z : ε) :
    Respected opens closes bad (l ++ [z]) ↔
      Respected opens closes bad l ∧ (isOpen opens closes l = true → bad z = false) := by
  constructor
  · intro h
    refine ⟨fun pre x mid b post hl => h pre x mid b (post ++ [z]) (by simp [hl]), fun hopen => ?_⟩
    obtain ⟨pre, x, mid, rfl, hx, hmid⟩ := (isOpen_iff l).mp hopen
    exact h pre x mid z [] (by simp) hx hmid
  · rintro ⟨hl, hz⟩ pre x mid b post heq hx hmid
    rw [← List.cons_append, ← List.append_assoc] at heq
    rcases cases_concat heq with ⟨-, rfl, rfl⟩ | ⟨post', -, rfl⟩
    · exact hz ((isOpen_iff _).mpr ⟨pre, x, mid, rfl, hx, hmid⟩)
    · exact hl pre x mid b post' (by simp) hx hmid

/-- What was respected before is respected. -/
theorem Respected.of_append (h : Respected opens closes bad (l ++ l')) :
    Respected opens closes bad l := by
  intro pre x mid b post hl
  exact h pre x mid b (post ++ l') (by simp [hl])

/-- In an open scope, an event of `bad` is too many. -/
theorem not_respected_append {b : ε} (hopen : isOpen opens closes l = true)
    (hl' : ∀ x ∈ l', closes x = false) (hb : b ∈ l') (hbad : bad b = true) :
    ¬Respected opens closes bad (l ++ l') := by
  intro h
  obtain ⟨pre, x, mid, rfl, hx, hmid⟩ := (isOpen_iff l).mp hopen
  obtain ⟨l₁, l₂, rfl⟩ := List.append_of_mem hb
  have hfree : ∀ y ∈ mid ++ l₁, closes y = false := by
    intro y hy
    rcases List.mem_append.mp hy with hy | hy
    · exact hmid y hy
    · exact hl' y (by simp [hy])
  have hnot := h pre x (mid ++ l₁) b l₂ (by simp) hx hfree
  rw [hbad] at hnot
  cases hnot

/-- Outside a scope, anything may happen that does not open one. -/
theorem closed_append (hclosed : isOpen opens closes l = false)
    (hl' : ∀ x ∈ l', opens x = false) :
    isOpen opens closes (l ++ l') = false ∧
      (Respected opens closes bad l → Respected opens closes bad (l ++ l')) := by
  induction l' using List.reverseRecOn with
  | nil =>
    rw [List.append_nil]
    exact ⟨hclosed, id⟩
  | append_singleton l' z ih =>
    obtain ⟨hopen, hresp⟩ := ih fun x hx => hl' x (by simp [hx])
    rw [← List.append_assoc]
    refine ⟨?_, fun h => (respected_concat _ z).mpr ⟨hresp h, ?_⟩⟩
    · rw [isOpen_concat, next, if_neg (by simp [hl' z (by simp)]), hopen]
      split <;> rfl
    · intro htrue
      rw [hopen] at htrue
      cases htrue

end Scope
