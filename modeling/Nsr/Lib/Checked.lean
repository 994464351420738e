import Mathlib.Algebra.Ring.Nat
import Nsr.Lib.BoundedLoop

/-!
# Computing with checks

Code in a language that checks every index and, where it is asked to, every result of integer
arithmetic, and stops the thread when a check fails.  An operation is a value in `Except Panic`;
a `usize` is a number below `2 ^ 64`, and the length of a slice is below `2 ^ 63`.

* `byte`, `slice`, `be16`: reading from a slice.
* `add`, `sub`, `mul`, `mul8`, `mul16`, `succ64`: arithmetic.
* `Returns m P`: the result of `m` satisfies `P`, unless it panics; `Safe m P`: and `m` does not
  panic.  `Safe.bind` and the rules `byte_safe`, `slice_safe`, ... go through code operation by
  operation.
* `slice_append`: reading in front of what has been put behind.
* `loop`, `run_eq`, `run_safe`: a loop whose rounds may panic, and the rule of its invariant.
* `run_eq_run`: a loop whose checks never fail.
-/

namespace Checked

open BoundedLoop

/-- What stops the thread. -/
inductive Panic where
  | outOfRange
  | overflow
  deriving DecidableEq, Repr

/-! ## Operations -/

/-- `bs[i]`. -/
def byte (bs : List UInt8) (i : ℕ) : Except Panic UInt8 :=
  match bs[i]? with
  | some b => .ok b
  | none => .error .outOfRange

/-- `&bs[i..j]`. -/
def slice (bs : List UInt8) (i j : ℕ) : Except Panic (List UInt8) :=
  if i ≤ j ∧ j ≤ bs.length then .ok ((bs.drop i).take (j - i)) else .error .outOfRange

/-- `&bs[i..]`. -/
def sliceFrom (bs : List UInt8) (i : ℕ) : Except Panic (List UInt8) :=
  if i ≤ bs.length then .ok (bs.drop i) else .error .outOfRange

/-- `a + b`, for `usize`. -/
def add (a b : ℕ) : Except Panic ℕ :=
  if a + b < 2 ^ 64 then .ok (a + b) else .error .overflow

/-- `a - b`, for `usize`. -/
def sub (a b : ℕ) : Except Panic ℕ :=
  if b ≤ a then .ok (a - b) else .error .overflow

/-- `a * b`, for `usize`. -/
def mul (a b : ℕ) : Except Panic ℕ :=
  if a * b < 2 ^ 64 then .ok (a * b) else .error .overflow

/-- `a * b`, for `u8`. -/
def mul8 (a b : UInt8) : Except Panic UInt8 :=
  if a.toNat * b.toNat < 2 ^ 8 then .ok (a * b) else .error .overflow

/-- `a * b`, for `u16`. -/
def mul16 (a b : UInt16) : Except Panic UInt16 :=
  if a.toNat * b.toNat < 2 ^ 16 then .ok (a * b) else .error .overflow

/-- `a + 1`, for `u64`. -/
def succ64 (a : UInt64) : Except Panic UInt64 :=
  if a.toNat + 1 < 2 ^ 64 then .ok (a + 1) else .error .overflow

/-- `u16::from_be_bytes([hi, lo])`. -/
def word (hi lo : UInt8) : UInt16 :=
  hi.toUInt16 <<< 8 ||| lo.toUInt16

/-- `u16::from_be_bytes([bs[i], bs[i + 1]])`. -/
def be16 (bs : List UInt8) (i : ℕ) : Except Panic UInt16 := do
  let hi ← byte bs i
  let lo ← byte bs (← add i 1)
  return word hi lo

/-! ## Code that may panic -/

universe u

variable {α β σ : Type u}

/-- **What the code returns satisfies `P`**, unless it panics. -/
def Returns (m : Except Panic α) (P : α → Prop) : Prop :=
  ∀ a, m = .ok a → P a

namespace Returns

variable {m : Except Panic α} {f : α → Except Panic β} {P : α → Prop} {Q : β → Prop}

theorem pure {a : α} (h : P a) : Returns (Pure.pure a) P := by
  intro b hb
  obtain rfl := Except.ok.inj hb
  exact h

theorem bind (hm : Returns m P) (hf : ∀ a, P a → Returns (f a) Q) : Returns (m >>= f) Q := by
  intro b hb
  cases m with
  | error e => cases hb
  | ok a => exact hf a (hm a rfl) b hb

theorem ite {c : Prop} [Decidable c] {m' : Except Panic α} (hpos : c → Returns m P)
    (hneg : ¬c → Returns m' P) : Returns (if c then m else m') P := by
  split
  next h => exact hpos h
  next h => exact hneg h

/-- What the code returns does not matter. -/
theorem skip (hf : ∀ a, Returns (f a) Q) : Returns (m >>= f) Q :=
  bind (P := fun _ => True) (fun _ _ => trivial) fun a _ => hf a

end Returns

theorem byte_returns (bs : List UInt8) (i : ℕ) :
    Returns (byte bs i) fun b => bs[i]? = some b := by
  intro b hb
  unfold byte at hb
  split at hb
  next h =>
    obtain rfl := Except.ok.inj hb
    exact h
  next => cases hb

theorem add_returns (a b : ℕ) : Returns (add a b) fun c => c = a + b := by
  intro c hc
  unfold add at hc
  split at hc
  · exact (Except.ok.inj hc).symm
  · cases hc

theorem mul_returns (a b : ℕ) : Returns (mul a b) fun c => c = a * b := by
  intro c hc
  unfold mul at hc
  split at hc
  · exact (Except.ok.inj hc).symm
  · cases hc

/-! ## Code that does not panic -/

/-- **The code does not panic**, and its result satisfies `P`. -/
def Safe (m : Except Panic α) (P : α → Prop) : Prop :=
  ∃ a, m = .ok a ∧ P a

namespace Safe

variable {m : Except Panic α} {f : α → Except Panic β} {P P' : α → Prop} {Q : β → Prop}

theorem pure {a : α} (h : P a) : Safe (Pure.pure a) P :=
  ⟨a, rfl, h⟩

theorem bind (hm : Safe m P) (hf : ∀ a, P a → Safe (f a) Q) : Safe (m >>= f) Q := by
  obtain ⟨a, rfl, ha⟩ := hm
  exact hf a ha

theorem mono (hm : Safe m P) (h : ∀ a, P a → P' a) : Safe m P' := by
  obtain ⟨a, rfl, ha⟩ := hm
  exact ⟨a, rfl, h a ha⟩

theorem ite {c : Prop} [Decidable c] {m' : Except Panic α} (hpos : c → Safe m P)
    (hneg : ¬c → Safe m' P) : Safe (if c then m else m') P := by
  split
  next h => exact hpos h
  next h => exact hneg h

end Safe

theorem ok_bind (a : α) (f : α → Except Panic β) : (Except.ok a >>= f) = f a :=
  rfl

/-- An operation that has been done. -/
theorem bind_ok {m : Except Panic α} {a : α} (h : m = .ok a) (f : α → Except Panic β) :
    (m >>= f) = f a := by
  rw [h]
  rfl

theorem byte_eq {bs : List UInt8} {i : ℕ} {b : UInt8} (h : bs[i]? = some b) :
    byte bs i = .ok b := by
  rw [byte, h]

theorem byte_safe {bs : List UInt8} {i : ℕ} (h : i < bs.length) :
    Safe (byte bs i) fun b => bs[i]? = some b :=
  ⟨bs[i], byte_eq (List.getElem?_eq_getElem h), List.getElem?_eq_getElem h⟩

theorem slice_eq {bs : List UInt8} {i j : ℕ} (hij : i ≤ j) (hj : j ≤ bs.length) :
    slice bs i j = .ok ((bs.drop i).take (j - i)) :=
  if_pos ⟨hij, hj⟩

theorem slice_safe {bs : List UInt8} {i j : ℕ} (hij : i ≤ j) (hj : j ≤ bs.length) :
    Safe (slice bs i j) fun r => r.length = j - i :=
  ⟨_, slice_eq hij hj, by
    change ((bs.drop i).take (j - i)).length = j - i
    rw [List.length_take, List.length_drop, Nat.min_eq_left (Nat.sub_le_sub_right hj i)]⟩

theorem sliceFrom_eq {bs : List UInt8} {i : ℕ} (hi : i ≤ bs.length) :
    sliceFrom bs i = .ok (bs.drop i) :=
  if_pos hi

theorem sliceFrom_safe {bs : List UInt8} {i : ℕ} (hi : i ≤ bs.length) :
    Safe (sliceFrom bs i) fun r => r = bs.drop i :=
  ⟨_, sliceFrom_eq hi, rfl⟩

theorem add_eq {a b : ℕ} (h : a + b < 2 ^ 64) : add a b = .ok (a + b) :=
  if_pos h

/-- An offset that is moved on. -/
theorem add_to {a b c : ℕ} (h : a + b = c) (hc : c < 2 ^ 64) : add a b = .ok c := by
  subst h
  exact add_eq hc

theorem add_safe {a b : ℕ} (h : a + b < 2 ^ 64) : Safe (add a b) fun c => c = a + b :=
  ⟨_, add_eq h, rfl⟩

theorem sub_eq {a b : ℕ} (h : b ≤ a) : sub a b = .ok (a - b) :=
  if_pos h

theorem sub_safe {a b : ℕ} (h : b ≤ a) : Safe (sub a b) fun c => c = a - b :=
  ⟨_, sub_eq h, rfl⟩

theorem mul_eq {a b : ℕ} (h : a * b < 2 ^ 64) : mul a b = .ok (a * b) :=
  if_pos h

theorem mul_safe {a b : ℕ} (h : a * b < 2 ^ 64) : Safe (mul a b) fun c => c = a * b :=
  ⟨_, mul_eq h, rfl⟩

theorem mul8_safe {a b : UInt8} (h : a.toNat * b.toNat < 2 ^ 8) :
    Safe (mul8 a b) fun c => c.toNat = a.toNat * b.toNat :=
  ⟨_, if_pos h, (UInt8.toNat_mul a b).trans (Nat.mod_eq_of_lt h)⟩

theorem mul16_safe {a b : UInt16} (h : a.toNat * b.toNat < 2 ^ 16) :
    Safe (mul16 a b) fun c => c.toNat = a.toNat * b.toNat :=
  ⟨_, if_pos h, (UInt16.toNat_mul a b).trans (Nat.mod_eq_of_lt h)⟩

theorem succ64_safe {a : UInt64} (h : a.toNat + 1 < 2 ^ 64) :
    Safe (succ64 a) fun c => c.toNat = a.toNat + 1 :=
  ⟨_, if_pos h, (UInt64.toNat_add a 1).trans (Nat.mod_eq_of_lt h)⟩

theorem be16_eq {bs : List UInt8} {i : ℕ} {hi lo : UInt8} (hsize : bs.length < 2 ^ 63)
    (hhi : bs[i]? = some hi) (hlo : bs[i + 1]? = some lo) : be16 bs i = .ok (word hi lo) := by
  have hlt := (List.getElem?_eq_some_iff.mp hlo).1
  rw [be16, byte_eq hhi, ok_bind, add_eq (by omega), ok_bind, byte_eq hlo, ok_bind]
  rfl

theorem be16_safe {bs : List UInt8} {i : ℕ} (hsize : bs.length < 2 ^ 63)
    (h : i + 1 < bs.length) : Safe (be16 bs i) fun _ => True :=
  ⟨_, be16_eq hsize (List.getElem?_eq_getElem (Nat.lt_of_succ_lt h))
    (List.getElem?_eq_getElem h), trivial⟩

/-- What has been put behind the bytes that are read does not matter. -/
theorem slice_append {bs : List UInt8} {i j : ℕ} (hj : j ≤ bs.length) (x : List UInt8) :
    slice (bs ++ x) i j = slice bs i j := by
  rw [slice, slice, List.length_append]
  by_cases hij : i ≤ j
  · rw [if_pos ⟨hij, by omega⟩, if_pos ⟨hij, hj⟩, List.drop_append_of_le_length (by omega),
      List.take_append_of_le_length (by rw [List.length_drop]; omega)]
  · rw [if_neg fun h => hij h.1, if_neg fun h => hij h.1]

/-! ## Loops -/

/-- One round of a loop: on to the next one, out of the loop, or a panic. -/
def round (step : σ → Except Panic (σ ⊕ β)) (s : σ) : σ ⊕ Except Panic β :=
  match step s with
  | .ok (.inl s') => .inl s'
  | .ok (.inr b) => .inr (.ok b)
  | .error e => .inr (.error e)

theorem round_inl {step : σ → Except Panic (σ ⊕ β)} {s s' : σ} (h : round step s = .inl s') :
    step s = .ok (.inl s') := by
  unfold round at h
  split at h
  next heq =>
    obtain rfl := Sum.inl.inj h
    exact heq
  next => cases h
  next => cases h

/-- A round that goes on has made the measure smaller than `n`. -/
def Below (measure : σ → ℕ) (n : ℕ) : σ ⊕ β → Prop
  | .inl s => measure s < n
  | .inr _ => True

/-- **A loop whose rounds may panic.** -/
def loop (step : σ → Except Panic (σ ⊕ β)) (measure : σ → ℕ)
    (decreases : ∀ s, Returns (step s) (Below measure (measure s))) :
    Loop σ (Except Panic β) where
  body := round step
  measure := measure
  decreases := fun h => decreases _ _ (round_inl h)

section Loop

variable {step : σ → Except Panic (σ ⊕ β)} {measure : σ → ℕ}
  {decreases : ∀ s, Returns (step s) (Below measure (measure s))}

/-- **The equation of the loop**: a round, and then the loop again. -/
theorem run_eq (s : σ) : (loop step measure decreases).run s =
    step s >>= Sum.elim (loop step measure decreases).run Except.ok := by
  rw [Loop.run_eq]
  change Sum.elim _ id (round step s) = _
  unfold round
  cases step s with
  | error e => rfl
  | ok r =>
    cases r with
    | inl s' => rfl
    | inr b => rfl

theorem run_inl {s s' : σ} (h : step s = .ok (.inl s')) :
    (loop step measure decreases).run s = (loop step measure decreases).run s' := by
  rw [run_eq, h]
  rfl

theorem run_inr {s : σ} {b : β} (h : step s = .ok (.inr b)) :
    (loop step measure decreases).run s = .ok b := by
  rw [run_eq, h]
  rfl

/-- A loop does what a loop without checks does, if its rounds do. -/
theorem run_eq_run {L : Loop σ β} {I : σ → Prop}
    (hstep : ∀ s, I s → step s = .ok (L.body s))
    (hinv : ∀ s s', I s → L.body s = .inl s' → I s') {s : σ} (hs : I s) :
    (loop step measure decreases).run s = .ok (L.run s) := by
  induction hn : L.measure s using Nat.strongRecOn generalizing s with
  | ind n ih =>
    have hround := hstep s hs
    rw [L.run_eq]
    cases hbody : L.body s with
    | inl s' =>
      rw [hbody] at hround
      rw [run_inl hround]
      exact ih (L.measure s') (hn ▸ L.decreases hbody) (hinv s s' hs hbody) rfl
    | inr b =>
      rw [hbody] at hround
      exact run_inr hround

/-- **The rule of the invariant**: a loop does not panic if no round does. -/
theorem run_safe {I : σ → Prop} {P : β → Prop}
    (hstep : ∀ s, I s → Safe (step s) (Sum.elim I P)) {s : σ} (hs : I s) :
    Safe ((loop step measure decreases).run s) P := by
  induction hn : measure s using Nat.strongRecOn generalizing s with
  | ind n ih =>
    obtain ⟨r, hr, hP⟩ := hstep s hs
    cases r with
    | inl s' =>
      rw [run_inl hr]
      exact ih (measure s') (hn ▸ decreases s _ hr) hP rfl
    | inr b => exact ⟨b, run_inr hr, hP⟩

end Loop

end Checked
