import Mathlib.Data.List.Forall2

/-!
# Loops over a table

Two loops over the entries of a table, each with a body that may change the entry, says yes or no,
and may fail to end: one visits every entry, the other stops at the first yes.  The body is given
the index of the entry.

* `every`, `every_entry`: each entry is visited, and yes is the answer if it was some entry's.
* `first`, `first_no`, `first_yes`, `first_stops`, `first_entry`: without a yes each entry was
  visited; with one, the entries up to it were.
* `of_every_cons`, `of_first_cons`: what a round of each loop does, which the rest comes from.
* `every_isSome`, `first_isSome`: where the body ends, the loop does.
* `every_rel`, `first_rel`: what the body does to an entry, the loop does to every entry.
-/

namespace Scan

variable {α : Type*}

/-- **Visit every entry.** -/
def every (f : ℕ → α → Option (Bool × α)) : List α → Option (Bool × List α)
  | [] => some (false, [])
  | a :: l =>
    match f 0 a with
    | none => none
    | some (b, a) => (every (fun i => f (i + 1)) l).map fun r => (b || r.1, a :: r.2)

/-- **Visit the entries up to the first yes.** -/
def first (f : ℕ → α → Option (Bool × α)) : List α → Option (Bool × List α)
  | [] => some (false, [])
  | a :: l =>
    match f 0 a with
    | none => none
    | some (true, a) => some (true, a :: l)
    | some (false, a) => (first (fun i => f (i + 1)) l).map fun r => (r.1, a :: r.2)

variable {f : ℕ → α → Option (Bool × α)} {l l' : List α} {b : Bool} {R : α → α → Prop}

/-- A round that ends, and the rounds behind it. -/
theorem of_every_cons {x : α} (h : every f (x :: l) = some (b, l')) :
    ∃ c x' d l'', f 0 x = some (c, x') ∧ every (fun i => f (i + 1)) l = some (d, l'') ∧
      b = (c || d) ∧ l' = x' :: l'' := by
  rw [every] at h
  split at h
  · cases h
  next c x' hx =>
    obtain ⟨⟨d, l''⟩, hl, hr⟩ := Option.map_eq_some_iff.mp h
    obtain ⟨rfl, rfl⟩ := Prod.mk.inj hr
    exact ⟨c, x', d, l'', hx, hl, rfl, rfl⟩

/-- A round that says yes, or a round that says no and the rounds behind it. -/
theorem of_first_cons {x : α} (h : first f (x :: l) = some (b, l')) :
    (∃ x', f 0 x = some (true, x') ∧ b = true ∧ l' = x' :: l) ∨
      ∃ x' l'', f 0 x = some (false, x') ∧ first (fun i => f (i + 1)) l = some (b, l'') ∧
        l' = x' :: l'' := by
  rw [first] at h
  split at h
  · cases h
  next x' hx =>
    obtain ⟨rfl, rfl⟩ := Prod.mk.inj (Option.some_inj.mp h)
    exact .inl ⟨x', hx, rfl, rfl⟩
  next x' hx =>
    obtain ⟨⟨d, l''⟩, hl, hr⟩ := Option.map_eq_some_iff.mp h
    obtain ⟨rfl, rfl⟩ := Prod.mk.inj hr
    exact .inr ⟨x', l'', hx, hl, rfl⟩

/-- Every entry has been visited. -/
theorem every_entry (h : every f l = some (b, l')) {i : ℕ} {a : α} (ha : l[i]? = some a) :
    ∃ c a', f i a = some (c, a') ∧ l'[i]? = some a' ∧ (c = true → b = true) := by
  induction l generalizing f l' b i with
  | nil => simp at ha
  | cons x l ih =>
    obtain ⟨c, x', d, l'', hx, hl, rfl, rfl⟩ := of_every_cons h
    cases i with
    | zero =>
      obtain rfl : x = a := by simpa using ha
      exact ⟨c, x', hx, rfl, fun hc => by simp [hc]⟩
    | succ i =>
      obtain ⟨c', a', hf, hl', hc⟩ := ih hl (by simpa using ha)
      exact ⟨c', a', hf, by simpa using hl', fun h => by simp [hc h]⟩

/-- Without a yes, every entry has been visited. -/
theorem first_no (h : first f l = some (false, l')) {i : ℕ} {a : α} (ha : l[i]? = some a) :
    ∃ a', f i a = some (false, a') ∧ l'[i]? = some a' := by
  induction l generalizing f l' i with
  | nil => simp at ha
  | cons x l ih =>
    obtain ⟨x', -, hno, -⟩ | ⟨x', l'', hx, hl, rfl⟩ := of_first_cons h
    · cases hno
    cases i with
    | zero =>
      obtain rfl : x = a := by simpa using ha
      exact ⟨x', hx, rfl⟩
    | succ i =>
      obtain ⟨a', hf, hl'⟩ := ih hl (by simpa using ha)
      exact ⟨a', hf, by simpa using hl'⟩

/-- A yes is the yes of an entry. -/
theorem first_yes (h : first f l = some (true, l')) :
    ∃ i a a', l[i]? = some a ∧ f i a = some (true, a') ∧ l'[i]? = some a' := by
  induction l generalizing f l' with
  | nil => cases h
  | cons x l ih =>
    obtain ⟨x', hx, -, rfl⟩ | ⟨x', l'', hx, hl, rfl⟩ := of_first_cons h
    · exact ⟨0, x, x', rfl, hx, rfl⟩
    · obtain ⟨i, a, a', ha, hf, hl'⟩ := ih hl
      exact ⟨i + 1, a, a', by simpa using ha, hf, by simpa using hl'⟩

/-- An entry has been visited, or is as it was. -/
theorem first_entry (h : first f l = some (b, l')) {i : ℕ} {a : α} (ha : l[i]? = some a) :
    ∃ a', l'[i]? = some a' ∧ ((∃ c, f i a = some (c, a')) ∨ a' = a) := by
  induction l generalizing f l' b i with
  | nil => simp at ha
  | cons x l ih =>
    obtain ⟨x', hx, -, rfl⟩ | ⟨x', l'', hx, hl, rfl⟩ := of_first_cons h
    · cases i with
      | zero =>
        obtain rfl : x = a := by simpa using ha
        exact ⟨x', rfl, .inl ⟨true, hx⟩⟩
      | succ i => exact ⟨a, by simpa using ha, .inr rfl⟩
    · cases i with
      | zero =>
        obtain rfl : x = a := by simpa using ha
        exact ⟨x', rfl, .inl ⟨false, hx⟩⟩
      | succ i =>
        obtain ⟨a', hl', hor⟩ := ih hl (by simpa using ha)
        exact ⟨a', by simpa using hl', hor⟩

/-- A yes ends the loop: the entries before it were visited, those behind it were not. -/
theorem first_stops (h : first f l = some (true, l')) :
    ∃ k a a', l[k]? = some a ∧ f k a = some (true, a') ∧ l'[k]? = some a' ∧
      (∀ j x, j < k → l[j]? = some x → ∃ x', f j x = some (false, x') ∧ l'[j]? = some x') ∧
      ∀ j, k < j → l'[j]? = l[j]? := by
  induction l generalizing f l' with
  | nil => cases h
  | cons x l ih =>
    obtain ⟨x', hx, -, rfl⟩ | ⟨x', l'', hx, hl, rfl⟩ := of_first_cons h
    · refine ⟨0, x, x', rfl, hx, rfl, fun j _ hj => absurd hj (Nat.not_lt_zero j), fun j hj => ?_⟩
      obtain ⟨j, rfl⟩ := Nat.exists_eq_succ_of_ne_zero (Nat.ne_of_gt hj)
      rfl
    · obtain ⟨k, a, a', ha, hf, hl', hbefore, hbehind⟩ := ih hl
      refine ⟨k + 1, a, a', ha, hf, hl', fun j y hj hy => ?_, fun j hj => ?_⟩
      · cases j with
        | zero =>
          obtain rfl := Option.some_inj.mp hy
          exact ⟨x', hx, rfl⟩
        | succ j => exact hbefore j y (Nat.lt_of_succ_lt_succ hj) hy
      · cases j with
        | zero => exact absurd hj (Nat.not_lt_zero _)
        | succ j => exact hbehind j (Nat.lt_of_succ_lt_succ hj)

/-! ## The loops end -/

theorem every_isSome (hf : ∀ i a, l[i]? = some a → (f i a).isSome = true) :
    (every f l).isSome = true := by
  induction l generalizing f with
  | nil => rfl
  | cons x l ih =>
    obtain ⟨⟨c, x'⟩, hx⟩ := Option.isSome_iff_exists.mp (hf 0 x rfl)
    rw [every, hx, Option.isSome_map]
    exact ih fun i a ha => hf (i + 1) a ha

theorem first_isSome (hf : ∀ i a, l[i]? = some a → (f i a).isSome = true) :
    (first f l).isSome = true := by
  induction l generalizing f with
  | nil => rfl
  | cons x l ih =>
    obtain ⟨⟨c, x'⟩, hx⟩ := Option.isSome_iff_exists.mp (hf 0 x rfl)
    rw [first, hx]
    cases c with
    | true => rfl
    | false =>
      rw [Option.isSome_map]
      exact ih fun i a ha => hf (i + 1) a ha

/-! ## What the body does to an entry, the loop does to the table -/

open List (Forall₂)

theorem every_rel (hf : ∀ i a c a', f i a = some (c, a') → R a a')
    (h : every f l = some (b, l')) : Forall₂ R l l' := by
  induction l generalizing f l' b with
  | nil =>
    obtain ⟨-, rfl⟩ := Prod.mk.inj (Option.some_inj.mp h)
    exact .nil
  | cons x l ih =>
    obtain ⟨c, x', d, l'', hx, hl, -, rfl⟩ := of_every_cons h
    exact .cons (hf 0 x c x' hx) (ih (fun i => hf (i + 1)) hl)

theorem first_rel (hrefl : ∀ a, R a a) (hf : ∀ i a c a', f i a = some (c, a') → R a a')
    (h : first f l = some (b, l')) : Forall₂ R l l' := by
  induction l generalizing f l' b with
  | nil =>
    obtain ⟨-, rfl⟩ := Prod.mk.inj (Option.some_inj.mp h)
    exact .nil
  | cons x l ih =>
    obtain ⟨x', hx, -, rfl⟩ | ⟨x', l'', hx, hl, rfl⟩ := of_first_cons h
    · exact .cons (hf 0 x true x' hx) (List.forall₂_same.mpr fun a _ => hrefl a)
    · exact .cons (hf 0 x false x' hx) (ih (fun i => hf (i + 1)) hl)

/-- The body may use that the entry stands at its index. -/
theorem first_no_rel (hf : ∀ i a a', l[i]? = some a → f i a = some (false, a') → R a a')
    (h : first f l = some (false, l')) : Forall₂ R l l' := by
  induction l generalizing f l' with
  | nil =>
    obtain ⟨-, rfl⟩ := Prod.mk.inj (Option.some_inj.mp h)
    exact .nil
  | cons x l ih =>
    obtain ⟨x', -, hno, -⟩ | ⟨x', l'', hx, hl, rfl⟩ := of_first_cons h
    · cases hno
    · exact .cons (hf 0 x x' rfl hx) (ih (fun i a a' ha => hf (i + 1) a a' ha) hl)

/-- The entry an entry comes from. -/
theorem entry_of_rel (h : Forall₂ R l l') {i : ℕ} {a' : α} (ha : l'[i]? = some a') :
    ∃ a, l[i]? = some a ∧ R a a' := by
  induction h generalizing i with
  | nil => simp at ha
  | cons hr _ ih =>
    cases i with
    | zero =>
      obtain rfl := Option.some_inj.mp ha
      exact ⟨_, rfl, hr⟩
    | succ i => exact ih (by simpa using ha)

/-- The entry that comes of an entry. -/
theorem entry_to_rel (h : Forall₂ R l l') {i : ℕ} {a : α} (ha : l[i]? = some a) :
    ∃ a', l'[i]? = some a' ∧ R a a' := by
  obtain ⟨a', ha', hr⟩ := entry_of_rel h.flip ha
  exact ⟨a', ha', hr⟩

/-- The first entry with a property is where it was, if entries keep the property. -/
theorem findIdx?_rel {p q : α → Bool} (hpq : ∀ a b, R a b → q b = p a) (h : Forall₂ R l l') :
    l'.findIdx? q = l.findIdx? p := by
  induction h with
  | nil => rfl
  | cons hr _ ih => rw [List.findIdx?_cons, List.findIdx?_cons, hpq _ _ hr, ih]

theorem rel_trans (htrans : ∀ a b c, R a b → R b c → R a c) {l'' : List α}
    (h : Forall₂ R l l') (h' : Forall₂ R l' l'') : Forall₂ R l l'' := by
  induction h generalizing l'' with
  | nil => exact h'
  | cons hr _ ih =>
    cases h' with
    | cons hr' h' => exact .cons (htrans _ _ _ hr hr') (ih h')

end Scan
