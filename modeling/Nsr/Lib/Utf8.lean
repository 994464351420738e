import Mathlib.Data.Nat.Notation

/-!
# Decoding UTF-8

How the standard library of Rust goes through bytes that should be UTF-8: a character is taken off
the front, or, where none stands there, as many bytes as could have been the start of one.  The
lossy decoding puts U+FFFD in place of the latter; a string is valid if there are none.

* `front`: what stands at the front.
* `lossy`: `String::from_utf8_lossy`.  `lossy_ascii`: it leaves ASCII as it is.
* `valid`: whether `str::from_utf8` succeeds.
-/

namespace Utf8

/-- A byte that continues a character. -/
def isCont (b : UInt8) : Bool :=
  b &&& 0xC0 == 0x80

/-- How long a character with this first byte is; 0 where no character starts with it. -/
def width (b : UInt8) : ℕ :=
  if b < 0x80 then 1
  else if b < 0xC2 then 0
  else if b < 0xE0 then 2
  else if b < 0xF0 then 3
  else if b < 0xF5 then 4
  else 0

/-- Whether `b` may be the second byte behind `lead`: encodings that are too long, surrogates and
code points above U+10FFFF are left out. -/
def isSecond (lead b : UInt8) : Bool :=
  if lead = 0xE0 then 0xA0 ≤ b && b ≤ 0xBF
  else if lead = 0xED then 0x80 ≤ b && b ≤ 0x9F
  else if lead = 0xF0 then 0x90 ≤ b && b ≤ 0xBF
  else if lead = 0xF4 then 0x80 ≤ b && b ≤ 0x8F
  else isCont b

/-- The third and fourth byte of a character of length `w`, behind two bytes. -/
def frontRest (w : ℕ) : List UInt8 → Bool × ℕ
  | [] => (w == 2, 2)
  | d :: bs =>
    if w = 2 then (true, 2)
    else if !isCont d then (false, 2)
    else if w = 3 then (true, 3)
    else
      match bs with
      | [] => (false, 3)
      | e :: _ => if isCont e then (true, 4) else (false, 3)

/-- **What stands at the front**: whether it is a character, and of how many bytes. -/
def front : List UInt8 → Bool × ℕ
  | [] => (true, 0)
  | b :: bs =>
    if width b = 1 then (true, 1)
    else if width b = 0 then (false, 1)
    else
      match bs with
      | [] => (false, 1)
      | c :: bs => if isSecond b c then frontRest (width b) bs else (false, 1)

/-- The bytes of U+FFFD. -/
def replacement : List UInt8 := [0xEF, 0xBF, 0xBD]

/-- The lossy decoding, behind `skip` bytes that have been dealt with. -/
def lossyFrom : ℕ → List UInt8 → List UInt8
  | _, [] => []
  | skip + 1, _ :: bs => lossyFrom skip bs
  | 0, b :: bs =>
    let r := front (b :: bs)
    (if r.1 then (b :: bs).take r.2 else replacement) ++ lossyFrom (r.2 - 1) bs

/-- **`String::from_utf8_lossy`.** -/
def lossy (bs : List UInt8) : List UInt8 :=
  lossyFrom 0 bs

def validFrom : ℕ → List UInt8 → Bool
  | _, [] => true
  | skip + 1, _ :: bs => validFrom skip bs
  | 0, b :: bs =>
    let r := front (b :: bs)
    r.1 && validFrom (r.2 - 1) bs

/-- **`str::from_utf8` succeeds.** -/
def valid (bs : List UInt8) : Bool :=
  validFrom 0 bs

theorem front_ascii {b : UInt8} (hb : b < 0x80) (bs : List UInt8) :
    front (b :: bs) = (true, 1) := by
  have hwidth : width b = 1 := if_pos hb
  unfold front
  exact if_pos hwidth

/-- ASCII is left as it is. -/
theorem lossy_ascii {bs : List UInt8} (h : ∀ b ∈ bs, b < 0x80) : lossy bs = bs := by
  unfold lossy
  induction bs with
  | nil => rfl
  | cons b bs ih =>
    obtain ⟨hb, hbs⟩ := List.forall_mem_cons.mp h
    rw [lossyFrom, front_ascii hb]
    exact congrArg (b :: ·) (ih hbs)

end Utf8
