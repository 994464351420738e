import Nsr.Lib.Checked

/-!
# What stands where

A message is written as a concatenation and read by offsets.  `At bs i x` says that `x` stands in
`bs` at offset `i`; a concatenation stands there exactly if its parts stand one behind the other.
So a reader is followed through a message by taking the message apart, and its offset is whatever
the parts before it add up to.

* `At.append`, `At.tail`, `At.le`: taking apart.
* `At.byte`, `At.be16`, `At.slice`: what the operations read there.
* `bytes16`: a `u16` in two bytes.
* `vec8`, `vec16`: bytes behind their number.
-/

namespace Checked

/-- **`x` stands in `bs` at offset `i`.** -/
def At (bs : List UInt8) (i : ℕ) (x : List UInt8) : Prop :=
  ∃ pre post, bs = pre ++ x ++ post ∧ pre.length = i

namespace At

variable {bs x y : List UInt8} {i j : ℕ} {b : UInt8}

theorem whole (x : List UInt8) : At x 0 x :=
  ⟨[], [], (List.append_nil x).symm, rfl⟩

/-- One behind the other. -/
theorem append : At bs i (x ++ y) ↔ At bs i x ∧ At bs (i + x.length) y := by
  constructor
  · rintro ⟨pre, post, rfl, rfl⟩
    exact ⟨⟨pre, y ++ post, by simp, rfl⟩, ⟨pre ++ x, post, by simp, by simp⟩⟩
  · rintro ⟨⟨pre, post, hbs, rfl⟩, ⟨pre', post', hbs', hlen⟩⟩
    refine ⟨pre, post', ?_, rfl⟩
    have hpre : pre' = pre ++ x := by
      have heq : pre' ++ (y ++ post') = pre ++ x ++ post := by
        rw [← hbs, hbs', List.append_assoc]
      exact (List.append_inj heq (by rw [hlen, List.length_append])).1
    rw [hbs', hpre]
    simp

theorem left (h : At bs i (x ++ y)) : At bs i x :=
  (append.mp h).1

theorem right (h : At bs i (x ++ y)) (hj : j = i + x.length) : At bs j y :=
  hj ▸ (append.mp h).2

theorem tail (h : At bs i (b :: x)) (hj : j = i + 1) : At bs j x :=
  right (x := [b]) h hj

/-- What stands in a message ends inside of it. -/
theorem le (h : At bs i x) : i + x.length ≤ bs.length := by
  obtain ⟨pre, post, rfl, rfl⟩ := h
  simp

theorem getElem? (h : At bs i (b :: x)) : bs[i]? = some b := by
  obtain ⟨pre, post, rfl, rfl⟩ := h
  simp

theorem byte (h : At bs i (b :: x)) : byte bs i = .ok b :=
  byte_eq h.getElem?

theorem slice (h : At bs i x) (hj : j = i + x.length) : slice bs i j = .ok x := by
  rw [slice_eq (by omega) (hj ▸ h.le), hj]
  obtain ⟨pre, post, rfl, rfl⟩ := h
  simp

end At

/-- A `u16` in two bytes, the high one first. -/
def bytes16 (w : UInt16) : List UInt8 :=
  [(w >>> 8).toUInt8, w.toUInt8]

theorem toNat_word (hi lo : UInt8) : (word hi lo).toNat = hi.toNat * 256 + lo.toNat := by
  have hlo : lo.toNat < 2 ^ 8 := lo.toNat_lt
  have hhi : hi.toNat < 2 ^ 8 := hi.toNat_lt
  rw [word, UInt16.toNat_or, UInt16.toNat_shiftLeft, UInt8.toNat_toUInt16, UInt8.toNat_toUInt16,
    show (8 : UInt16).toNat % 16 = 8 from rfl, Nat.shiftLeft_eq, Nat.mod_eq_of_lt (by omega),
    ← Nat.shiftLeft_eq, ← Nat.shiftLeft_add_eq_or_of_lt hlo, Nat.shiftLeft_eq]

theorem word_bytes16 (w : UInt16) : word (w >>> 8).toUInt8 w.toUInt8 = w := by
  have hw : w.toNat < 2 ^ 16 := w.toNat_lt
  rw [← UInt16.toNat_inj, toNat_word, UInt16.toNat_toUInt8, UInt16.toNat_toUInt8,
    UInt16.toNat_shiftRight, show (8 : UInt16).toNat % 16 = 8 from rfl, Nat.shiftRight_eq_div_pow]
  omega

theorem At.be16 {bs x : List UInt8} {i : ℕ} {w : UInt16} (hsize : bs.length < 2 ^ 63)
    (h : At bs i (bytes16 w ++ x)) : be16 bs i = .ok w := by
  rw [be16_eq hsize h.getElem? (h.tail rfl).getElem?, word_bytes16]

theorem length_bytes16 (w : UInt16) : (bytes16 w).length = 2 :=
  rfl

/-- Bytes behind their number, in one byte. -/
def vec8 (x : List UInt8) : List UInt8 :=
  UInt8.ofNat x.length :: x

/-- Bytes behind their number, in two bytes. -/
def vec16 (x : List UInt8) : List UInt8 :=
  bytes16 (UInt16.ofNat x.length) ++ x

theorem length_vec8 (x : List UInt8) : (vec8 x).length = 1 + x.length := by
  rw [vec8, List.length_cons, Nat.add_comm]

theorem length_vec16 (x : List UInt8) : (vec16 x).length = 2 + x.length := by
  rw [vec16, List.length_append, length_bytes16]

namespace At

variable {bs x y : List UInt8} {i : ℕ}

/-- A number and the bytes behind it. -/
theorem vec8 (h : At bs i (vec8 x)) (hx : x.length < 2 ^ 8) :
    ∃ n : UInt8, Checked.byte bs i = .ok n ∧ n.toNat = x.length ∧ At bs (i + 1) x :=
  ⟨_, h.byte, UInt8.toNat_ofNat_of_lt hx, h.tail rfl⟩

theorem vec16 (hsize : bs.length < 2 ^ 63) (h : At bs i (vec16 x)) (hx : x.length < 2 ^ 16) :
    ∃ n : UInt16, Checked.be16 bs i = .ok n ∧ n.toNat = x.length ∧ At bs (i + 2) x :=
  ⟨_, h.be16 hsize, UInt16.toNat_ofNat_of_lt hx, h.right rfl⟩

end At

end Checked
