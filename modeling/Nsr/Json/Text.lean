import Nsr.Json.Syntax

/-!
# JSON texts

The texts of RFC 8259 as syntax trees that remember how they are spelled: the white space in every
gap between tokens, the escapes in every string, the form of every number.  A plugin in another
language may write any of them; the encoder writes the compact ones.

* `Ws`, `StrUnit`, `Number`, `Scalar`: the tokens, each with its spelling.
* `Text`, `Text.bytes`: the trees and what they spell.
* `Text.compact`: the same text without white space.
* `Json.text`, `bytes_text`: what the encoder writes is the spelling of a compact text.
-/

namespace Nsr

open Ascii

/-! ## Tokens -/

/-- **Insignificant white space.** -/
structure Ws where
  bytes : Bytes
  blank : ∀ c ∈ bytes, c = 0x20 ∨ c = 0x09 ∨ c = 0x0a ∨ c = 0x0d

/-- No white space. -/
def Ws.empty : Ws := ⟨[], by simp⟩

@[simp] theorem Ws.empty_bytes : Ws.empty.bytes = [] := rfl

/-- A hexadecimal digit, in either case. -/
def isxdigit (c : UInt8) : Bool :=
  (0x30 ≤ c && c ≤ 0x39) || (0x41 ≤ c && c ≤ 0x46) || (0x61 ≤ c && c ≤ 0x66)

/-- **A unit of a string**: a byte that stands for itself, one of the two-character escapes, or an
escape by code unit. -/
inductive StrUnit where
  | plain (b : UInt8) (h : 0x20 ≤ b ∧ b ≠ quote ∧ b ≠ backslash)
  | short (c : UInt8)
      (h : c ∈ [quote, backslash, 0x2f, 0x62, 0x66, 0x6e, 0x72, 0x74])
  | unicode (a b c d : UInt8)
      (h : isxdigit a = true ∧ isxdigit b = true ∧ isxdigit c = true ∧ isxdigit d = true)

/-- The spelling of a unit. -/
def StrUnit.bytes : StrUnit → Bytes
  | .plain b _ => [b]
  | .short c _ => [backslash, c]
  | .unicode a b c d _ => [backslash, 0x75, a, b, c, d]

/-- The bytes between the quotes of a string. -/
def unitsBytes (us : List StrUnit) : Bytes :=
  us.flatMap StrUnit.bytes

/-- One or more digits. -/
structure Digits where
  first : Fin 10
  rest : List (Fin 10)

def Digits.bytes (d : Digits) : Bytes :=
  (d.first :: d.rest).map fun i : Fin 10 => digitByte i.val

/-- The exponent of a number. -/
structure Exponent where
  upper : Bool
  sign : Option Bool
  digits : Digits

/-- `e` or `E`, and a sign where there is one. -/
def exponentMark (upper : Bool) (sign : Option Bool) : Bytes :=
  [if upper then 0x45 else 0x65] ++
    match sign with
    | none => []
    | some true => [minus]
    | some false => [0x2b]

def Exponent.bytes (e : Exponent) : Bytes :=
  exponentMark e.upper e.sign ++ e.digits.bytes

/-- **A number**: its integer part has no leading zeros, so that it is the decimal numeral of a
natural number. -/
structure Number where
  neg : Bool
  int : ℕ
  frac : Option Digits
  exp : Option Exponent

/-- A number without fraction and exponent. -/
def Number.integer (neg : Bool) (n : ℕ) : Number := ⟨neg, n, none, none⟩

def Number.bytes (n : Number) : Bytes :=
  (if n.neg then [minus] else []) ++ decimal n.int ++
    (match n.frac with
      | none => []
      | some d => 0x2e :: d.bytes) ++
    (match n.exp with
      | none => []
      | some e => e.bytes)

/-- **A bare scalar.** -/
inductive Scalar where
  | null
  | bool (b : Bool)
  | number (n : Number)

def Scalar.bytes : Scalar → Bytes
  | .null => nullBytes
  | .bool b => if b then trueBytes else falseBytes
  | .number n => n.bytes

/-! ## Trees -/

/-- What stands before the value of a member: white space, the name, white space, a colon, and
white space again. -/
structure Key where
  before : Ws
  name : List StrUnit
  after : Ws
  gap : Ws

def Key.bytes (k : Key) : Bytes :=
  k.before.bytes ++ ([quote] ++ unitsBytes k.name ++ [quote]) ++ k.after.bytes ++ [colon] ++
    k.gap.bytes

/-- **A JSON text.**  An element stands between two runs of white space, a member behind its key and
before a run of white space; `gap` is the white space behind the opening bracket, which an empty
container has too. -/
inductive Text where
  | scalar (s : Scalar)
  | str (units : List StrUnit)
  | arr (gap : Ws) (elems : List (Ws × Text × Ws))
  | obj (gap : Ws) (members : List (Key × Text × Ws))

mutual

/-- **The spelling of a text.** -/
def Text.bytes : Text → Bytes
  | .scalar s => s.bytes
  | .str us => [quote] ++ unitsBytes us ++ [quote]
  | .arr gap es => [lbracket] ++ gap.bytes ++ [comma].intercalate (elemsBytes es) ++ [rbracket]
  | .obj gap ms => [lbrace] ++ gap.bytes ++ [comma].intercalate (membersBytes ms) ++ [rbrace]

/-- The spellings of the elements of an array. -/
def elemsBytes : List (Ws × Text × Ws) → List Bytes
  | [] => []
  | (before, t, after) :: es => (before.bytes ++ t.bytes ++ after.bytes) :: elemsBytes es

/-- The spellings of the members of an object. -/
def membersBytes : List (Key × Text × Ws) → List Bytes
  | [] => []
  | (k, t, after) :: ms => (k.bytes ++ t.bytes ++ after.bytes) :: membersBytes ms

end

/-! ## Without white space -/

/-- A key without white space around its tokens. -/
def Key.compact (k : Key) : Key := ⟨.empty, k.name, .empty, .empty⟩

mutual

/-- **The compact form of a text.** -/
def Text.compact : Text → Text
  | .scalar s => .scalar s
  | .str us => .str us
  | .arr _ es => .arr .empty (compactElems es)
  | .obj _ ms => .obj .empty (compactMembers ms)

/-- The elements of an array in compact form. -/
def compactElems : List (Ws × Text × Ws) → List (Ws × Text × Ws)
  | [] => []
  | (_, t, _) :: es => (.empty, t.compact, .empty) :: compactElems es

/-- The members of an object in compact form. -/
def compactMembers : List (Key × Text × Ws) → List (Key × Text × Ws)
  | [] => []
  | (k, t, _) :: ms => (k.compact, t.compact, .empty) :: compactMembers ms

end

/-! ## The texts of the encoder -/

theorem isxdigit_hexByte (n : ℕ) : isxdigit (hexByte (n % 16)) = true := by
  have h : ∀ d < 16, isxdigit (hexByte d) = true := by decide
  exact h _ (Nat.mod_lt _ (by omega))

theorem shortEscape_mem {b c : UInt8} (h : shortEscape b = some c) :
    c ∈ [quote, backslash, 0x2f, 0x62, 0x66, 0x6e, 0x72, 0x74] :=
  of_decide_eq_true (shortEscape_check
    (fun r => r.2 ∈ [quote, backslash, 0x2f, 0x62, 0x66, 0x6e, 0x72, 0x74]) (by decide) h)

theorem plain_of_shortEscape {b : UInt8} (h : shortEscape b = none) (hb : ¬b < 0x20) :
    0x20 ≤ b ∧ b ≠ quote ∧ b ≠ backslash := by
  refine ⟨UInt8.not_lt.mp hb, ?_, ?_⟩
  · rintro rfl
    exact absurd h (by decide)
  · rintro rfl
    exact absurd h (by decide)

/-- The unit that the encoder writes for a byte of a string. -/
def escapeUnit (b : UInt8) : StrUnit :=
  match h : shortEscape b with
  | some c => .short c (shortEscape_mem h)
  | none =>
    if hb : b < 0x20 then
      .unicode (hexByte (b.toNat / 4096 % 16)) (hexByte (b.toNat / 256 % 16))
        (hexByte (b.toNat / 16 % 16)) (hexByte (b.toNat % 16))
        ⟨isxdigit_hexByte _, isxdigit_hexByte _, isxdigit_hexByte _, isxdigit_hexByte _⟩
    else .plain b (plain_of_shortEscape h hb)

theorem escapeUnit_bytes (b : UInt8) : (escapeUnit b).bytes = escape b := by
  rw [escapeUnit]
  split
  · next c hc => exact (escape_of_short hc).symm
  · next hc =>
    split
    · next hb => exact (escape_of_control hc hb).symm
    · next hb => exact (escape_of_plain hc hb).symm

/-- The units of the literal of a string. -/
def CStr.units (s : CStr) : List StrUnit :=
  s.bytes.map escapeUnit

theorem unitsBytes_units (s : CStr) : unitsBytes s.units = s.bytes.flatMap escape := by
  rw [unitsBytes, CStr.units, List.flatMap_map]
  simp only [escapeUnit_bytes]

mutual

/-- **The compact text of a tree.** -/
def Json.text : Json → Text
  | .null => .scalar .null
  | .bool b => .scalar (.bool b)
  | .int i => .scalar (.number (.integer (i.toInt < 0) i.toInt.natAbs))
  | .str s => .str s.units
  | .arr es => .arr .empty (textElems es)
  | .obj ms => .obj .empty (textMembers ms)

/-- The elements of an array as text. -/
def textElems : List Json → List (Ws × Text × Ws)
  | [] => []
  | v :: vs => (.empty, v.text, .empty) :: textElems vs

/-- The members of an object as text. -/
def textMembers : List (CStr × Json) → List (Key × Text × Ws)
  | [] => []
  | (k, v) :: ms => (⟨.empty, k.units, .empty, .empty⟩, v.text, .empty) :: textMembers ms

end

mutual

/-- **A tree and its text are spelled alike.** -/
theorem bytes_text (v : Json) : v.text.bytes = render v := by
  match v with
  | .null => rfl
  | .bool b => rfl
  | .int i =>
    rw [Json.text, Text.bytes, Scalar.bytes, Number.integer, Number.bytes, render, signedDecimal]
    by_cases h : i.toInt < 0
    · simp [h]
    · simp [h]
  | .str s => rw [Json.text, Text.bytes, render, unitsBytes_units, literal]
  | .arr es => rw [Json.text, Text.bytes, render, bytes_textElems es]; simp
  | .obj ms => rw [Json.text, Text.bytes, render, bytes_textMembers ms]; simp

theorem bytes_textElems (es : List Json) : elemsBytes (textElems es) = renderElems es := by
  match es with
  | [] => rfl
  | v :: vs =>
    rw [textElems, elemsBytes, renderElems, bytes_text v, bytes_textElems vs]
    simp

theorem bytes_textMembers (ms : List (CStr × Json)) :
    membersBytes (textMembers ms) = renderMembers ms := by
  match ms with
  | [] => rfl
  | (k, v) :: ms =>
    rw [textMembers, membersBytes, renderMembers, bytes_text v, bytes_textMembers ms, Key.bytes,
      unitsBytes_units, literal]
    simp

end

end Nsr
