import Mathlib.Data.Nat.Digits.Defs
import Mathlib.Data.List.Basic

/-!
# JSON trees and their compact serialisation

The abstract side of `src/json/json.c`: the trees that a sequence of encoder calls describes and
the one text that each tree is meant to become.

* `CStr`: a byte string without a NUL, what a `const char *` argument denotes.
* `Json`: the trees; an object keeps its members in order and may repeat a key.
* `literal`, `decimal`, `signedDecimal`: string literals and integers as text.
* `render`: the compact reference serialisation, one comma between siblings and nothing else
  between tokens.
-/

namespace Nsr

/-- The bytes of a text; a pointer into a C string is the list of the bytes from there up to, and
not including, the terminating NUL. -/
abbrev Bytes := List UInt8

/-- **A C string**: bytes none of which is the terminating NUL. -/
structure CStr where
  bytes : Bytes
  nul_free : 0 ∉ bytes
  deriving DecidableEq

/-! ## The characters of the format -/

namespace Ascii

abbrev quote : UInt8 := 0x22
abbrev comma : UInt8 := 0x2c
abbrev minus : UInt8 := 0x2d
abbrev colon : UInt8 := 0x3a
abbrev lbracket : UInt8 := 0x5b
abbrev backslash : UInt8 := 0x5c
abbrev rbracket : UInt8 := 0x5d
abbrev lbrace : UInt8 := 0x7b
abbrev rbrace : UInt8 := 0x7d

/-- `true`, `false` and `null`, spelled out. -/
def trueBytes : Bytes := [0x74, 0x72, 0x75, 0x65]

@[inherit_doc trueBytes]
def falseBytes : Bytes := [0x66, 0x61, 0x6c, 0x73, 0x65]

@[inherit_doc trueBytes]
def nullBytes : Bytes := [0x6e, 0x75, 0x6c, 0x6c]

end Ascii

open Ascii

/-! ## Trees -/

/-- **A JSON tree** over the scalars the encoder writes, `nsr_json_double` apart. -/
inductive Json where
  | null
  | bool (b : Bool)
  | int (i : Int64)
  | str (s : CStr)
  | arr (elems : List Json)
  | obj (members : List (CStr × Json))

/-! ## Numerals -/

/-- The digit `d` as a character. -/
def digitByte (d : ℕ) : UInt8 :=
  UInt8.ofNat (0x30 + d)

/-- A natural number in decimal, without leading zeros. -/
def decimal (n : ℕ) : Bytes :=
  if n = 0 then [0x30] else (Nat.digits 10 n).reverse.map digitByte

/-- An integer in decimal, as `%lld` prints it. -/
def signedDecimal (i : ℤ) : Bytes :=
  if i < 0 then minus :: decimal i.natAbs else decimal i.natAbs

/-- A lower-case hexadecimal digit. -/
def hexByte (d : ℕ) : UInt8 :=
  if d < 10 then UInt8.ofNat (0x30 + d) else UInt8.ofNat (0x57 + d)

/-- Four hexadecimal digits, zero padded, as `%04x` prints a number below `2 ^ 16`. -/
def hex4 (n : ℕ) : Bytes :=
  [hexByte (n / 4096 % 16), hexByte (n / 256 % 16), hexByte (n / 16 % 16), hexByte (n % 16)]

/-! ## String literals -/

/-- The letter that follows the backslash in the two-character escape of a byte, where the format
has one that an encoder has to use. -/
def shortEscape (b : UInt8) : Option UInt8 :=
  [(quote, quote), (backslash, backslash), (0x08, 0x62), (0x0c, 0x66), (0x0a, 0x6e), (0x0d, 0x72),
    (0x09, 0x74)].lookup b

/-- What a run through the table finds is true of every short escape. -/
theorem shortEscape_check (p : UInt8 × UInt8 → Bool)
    (hp : [(quote, quote), (backslash, backslash), (0x08, 0x62), (0x0c, 0x66), (0x0a, 0x6e),
      (0x0d, 0x72), (0x09, 0x74)].all p = true) {b c : UInt8} (h : shortEscape b = some c) :
    p (b, c) = true := by
  obtain ⟨l, l', hl, -⟩ := List.lookup_eq_some_iff.mp h
  exact List.all_eq_true.mp hp (b, c) (by rw [hl]; simp)

/-- The bytes that stand for one byte of a string in its literal. -/
def escape (b : UInt8) : Bytes :=
  match shortEscape b with
  | some c => [backslash, c]
  | none => if b < 0x20 then backslash :: 0x75 :: hex4 b.toNat else [b]

theorem escape_of_short {b c : UInt8} (h : shortEscape b = some c) :
    escape b = [backslash, c] := by
  rw [escape, h]

theorem escape_of_control {b : UInt8} (h : shortEscape b = none) (hb : b < 0x20) :
    escape b = backslash :: 0x75 :: hex4 b.toNat := by
  rw [escape, h]
  exact if_pos hb

theorem escape_of_plain {b : UInt8} (h : shortEscape b = none) (hb : ¬b < 0x20) :
    escape b = [b] := by
  rw [escape, h]
  exact if_neg hb

/-- **The literal of a string**, quotes included. -/
def literal (s : CStr) : Bytes :=
  [quote] ++ s.bytes.flatMap escape ++ [quote]

/-! ## The serialisation -/

mutual

/-- **The compact reference serialisation** of a tree. -/
def render : Json → Bytes
  | .null => nullBytes
  | .bool b => if b then trueBytes else falseBytes
  | .int i => signedDecimal i.toInt
  | .str s => literal s
  | .arr es => [lbracket] ++ [comma].intercalate (renderElems es) ++ [rbracket]
  | .obj ms => [lbrace] ++ [comma].intercalate (renderMembers ms) ++ [rbrace]

/-- The serialisations of the elements of an array. -/
def renderElems : List Json → List Bytes
  | [] => []
  | v :: vs => render v :: renderElems vs

/-- The members of an object, each with its key and a colon. -/
def renderMembers : List (CStr × Json) → List Bytes
  | [] => []
  | (k, v) :: ms => (literal k ++ [colon] ++ render v) :: renderMembers ms

end

/-- Siblings with one comma between them: the first, then every further one behind a comma. -/
theorem intercalate_comma_cons (x : Bytes) (xs : List Bytes) :
    [comma].intercalate (x :: xs) = x ++ xs.flatMap (comma :: ·) := by
  induction xs generalizing x with
  | nil => simp
  | cons y ys ih =>
    rw [List.intercalate_cons_cons, ih y]
    simp

end Nsr
