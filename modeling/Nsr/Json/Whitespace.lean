import Nsr.Json.Traversal
import Mathlib.Data.Nat.Digits.Lemmas

/-!
# Scalars behind a lookup, and the white space around them

`nsr_json_obj_get` followed by `nsr_json_parse_int` or `nsr_json_parse_bool`, on a JSON text with
any white space in it.  The walker takes a bare scalar to reach up to the next delimiter, so the
slice it hands to the parser ends in the white space behind the value, and both parsers refuse a
slice that holds more than the scalar.  White space anywhere else makes no difference.

* `strtoll_integer`: `strtoll` reads an integer and stops behind its last digit.
* `getInt`, `getBool`: the two calls in a row, as the callers make them.
* `get_scalar_iff_tight`: the value is read exactly when no white space stands behind it.
-/

namespace Nsr

open Ascii

/-! ## Numerals -/

theorem digitsValue_append (ds : Bytes) (c : UInt8) :
    digitsValue (ds ++ [c]) = digitsValue ds * 10 + (c.toNat - 0x30) := by
  rw [digitsValue, List.foldl_append]
  rfl

theorem digitsValue_digits {ds : List ℕ} (h : ∀ d ∈ ds, d < 10) :
    digitsValue (ds.reverse.map digitByte) = Nat.ofDigits 10 ds := by
  induction ds with
  | nil => rfl
  | cons d ds ih =>
    have hd := digitByte_toNat (h d (by simp))
    rw [List.reverse_cons, List.map_append, List.map_singleton, digitsValue_append,
      ih fun d hd => h d (by simp [hd]), hd, Nat.ofDigits_cons]
    omega

/-- A decimal numeral denotes its number. -/
theorem digitsValue_decimal (n : ℕ) : digitsValue (decimal n) = n := by
  rw [decimal]
  split
  · next h => rw [h]; rfl
  · rw [digitsValue_digits fun d hd => Nat.digits_lt_base (by omega) hd, Nat.ofDigits_digits]

theorem isdigit_digitByte {d : ℕ} (hd : d < 10) : isdigit (digitByte d) = true := by
  have h : ∀ d < 10, isdigit (digitByte d) = true := by decide
  exact h d hd

theorem takeWhile_decimal (n : ℕ) {p : Bytes} (hp : isdigit (peek p) = false) :
    (decimal n ++ p).takeWhile isdigit = decimal n := by
  have hall : ∀ c ∈ decimal n, isdigit c = true := by
    intro c hc
    obtain ⟨d, hd, rfl⟩ := exists_digit_of_mem_decimal hc
    exact isdigit_digitByte hd
  have hnil : p.takeWhile isdigit = [] := by
    cases p with
    | nil => rfl
    | cons c p => rw [List.takeWhile_cons_of_neg (by simpa using hp)]
  rw [List.takeWhile_append_of_pos hall, hnil, List.append_nil]

/-- An integer, by its sign and its absolute value. -/
def signed (neg : Bool) (n : ℕ) : ℤ :=
  if neg then -(n : ℤ) else n

/-- The range of a `long long`. -/
def InRange (i : ℤ) : Prop :=
  -2 ^ 63 ≤ i ∧ i ≤ 2 ^ 63 - 1

theorem clampInt64_of_inRange {i : ℤ} (h : InRange i) : clampInt64 i = i := by
  obtain ⟨hl, hu⟩ := h
  rw [clampInt64, min_eq_left hu, max_eq_right hl]

theorem integer_bytes (neg : Bool) (n : ℕ) :
    (Number.integer neg n).bytes = (if neg then [minus] else []) ++ decimal n := by
  cases neg <;> simp [Number.integer, Number.bytes]

/-- **`strtoll` on an integer**: it reads the whole numeral, and nothing behind it. -/
theorem strtoll_integer (neg : Bool) (n : ℕ) {p : Bytes} (h : InRange (signed neg n))
    (hp : isdigit (peek p) = false) :
    strtoll ((Number.integer neg n).bytes ++ p) =
      (signed neg n, (Number.integer neg n).bytes.length) := by
  have hws : skipWs ((Number.integer neg n).bytes ++ p) = (Number.integer neg n).bytes ++ p :=
    skipWs_text (.scalar (.number (.integer neg n))) p
  have hval := digitsValue_decimal n
  cases neg with
  | true =>
    have hb : (Number.integer true n).bytes ++ p = minus :: (decimal n ++ p) := by
      rw [integer_bytes]
      rfl
    rw [strtoll, hws, hb, peek_cons]
    simp only [beq_self_eq_true, Bool.true_or, if_true, List.tail_cons, takeWhile_decimal n hp,
      decimal_ne_nil, if_false, hval, integer_bytes]
    rw [signed, if_pos rfl] at h ⊢
    rw [clampInt64_of_inRange h]
    simp only [List.length_cons, List.length_append, List.length_nil]
    congr 1
    omega
  | false =>
    have hb : (Number.integer false n).bytes ++ p = decimal n ++ p := by
      rw [integer_bytes]
      rfl
    obtain ⟨c, q, hcq⟩ := List.exists_cons_of_ne_nil (decimal_ne_nil n)
    obtain ⟨d, hd, rfl⟩ := exists_digit_of_mem_decimal (n := n) (c := c) (by rw [hcq]; simp)
    have hsign : ∀ d < 10, (digitByte d == minus) = false ∧ (digitByte d == 0x2b) = false := by
      decide
    have hpeek : peek (decimal n ++ p) = digitByte d := by rw [hcq]; rfl
    rw [strtoll, hws, hb, hpeek]
    simp only [(hsign d hd).1, (hsign d hd).2, Bool.or_self, Bool.false_eq_true, if_false,
      takeWhile_decimal n hp, decimal_ne_nil, hval, integer_bytes]
    rw [signed, if_neg (by simp)] at h ⊢
    rw [clampInt64_of_inRange h]
    simp

/-- An integer in range fits the local copy of `nsr_json_parse_int`. -/
theorem integer_length_lt (neg : Bool) (n : ℕ) (h : InRange (signed neg n)) :
    (Number.integer neg n).bytes.length < 32 := by
  have hn : n < 10 ^ 19 := by
    obtain ⟨hl, hu⟩ := h
    cases neg with
    | true =>
      rw [signed, if_pos rfl] at hl
      omega
    | false =>
      rw [signed, if_neg (by simp)] at hu
      omega
  have hlen : (decimal n).length ≤ 19 := by
    rw [decimal]
    split
    · simp
    · rw [List.length_map, List.length_reverse]
      exact (Nat.digits_length_le_iff (by omega) n).mpr hn
  rw [integer_bytes, List.length_append]
  have hsign : (if neg then [minus] else ([] : Bytes)).length ≤ 1 := by
    split <;> simp
  omega

/-! ## The parsers on a slice -/

theorem isdigit_peek_ws (w : Ws) : isdigit (peek w.bytes) = false := by
  rcases h : w.bytes with _ | ⟨c, p⟩
  · rfl
  · rcases w.blank c (by rw [h]; simp) with rfl | rfl | rfl | rfl <;> rfl

/-- The slice of an integer is read exactly when it ends with the integer. -/
theorem parseInt_integer (neg : Bool) (n : ℕ) (h : InRange (signed neg n)) (after : Ws)
    (rest : Bytes) (out : ℤ) :
    (after.bytes = [] →
      parseInt ((Number.integer neg n).bytes ++ after.bytes ++ rest)
        ((Number.integer neg n).bytes ++ after.bytes).length out = (true, signed neg n)) ∧
    (after.bytes ≠ [] →
      (parseInt ((Number.integer neg n).bytes ++ after.bytes ++ rest)
        ((Number.integer neg n).bytes ++ after.bytes).length out).1 = false) := by
  have hread := strtoll_integer neg n h (isdigit_peek_ws after)
  rw [parseInt, List.take_left, hread]
  refine ⟨fun hw => ?_, fun hw => ?_⟩
  · have hlen := integer_length_lt neg n h
    rw [hw, List.append_nil, if_neg (by omega)]
    dsimp only
    rw [beq_self_eq_true]
  · have hpos := List.length_pos_of_ne_nil hw
    split
    · rfl
    · rw [List.length_append]
      exact beq_false_of_ne (by omega)

/-- The slice of a boolean is read exactly when it ends with the boolean. -/
theorem parseBool_bool (b : Bool) (after : Ws) (rest : Bytes) :
    (after.bytes = [] →
      parseBool ((Scalar.bool b).bytes ++ after.bytes ++ rest)
        ((Scalar.bool b).bytes ++ after.bytes).length false = (true, b)) ∧
    (after.bytes ≠ [] →
      (parseBool ((Scalar.bool b).bytes ++ after.bytes ++ rest)
        ((Scalar.bool b).bytes ++ after.bytes).length false).1 = false) := by
  refine ⟨fun hw => ?_, fun hw => ?_⟩
  · rw [hw]
    cases b <;> rfl
  · have hpos := List.length_pos_of_ne_nil hw
    rw [parseBool, List.length_append]
    cases b with
    | true =>
      have hlen : (Scalar.bool true).bytes.length = 4 := rfl
      rw [hlen, if_neg (by omega), if_neg]
      rintro ⟨-, hfalse⟩
      have hhead : (0x74 : UInt8) = 0x66 := congrArg peek hfalse
      exact absurd hhead (by decide)
    | false =>
      have hlen : (Scalar.bool false).bytes.length = 5 := rfl
      rw [hlen, if_neg (by omega), if_neg (by omega)]

/-! ## Lookup and parse -/

/-- `nsr_json_obj_get`, and `nsr_json_parse_int` on what it returns. -/
def getInt (json : Bytes) (k : CStr) : Option ℤ :=
  (objGet json k).bind fun v =>
    let r := parseInt v.1 v.2 0
    if r.1 then some r.2 else none

/-- `nsr_json_obj_get`, and `nsr_json_parse_bool` on what it returns. -/
def getBool (json : Bytes) (k : CStr) : Option Bool :=
  (objGet json k).bind fun v =>
    let r := parseBool v.1 v.2 false
    if r.1 then some r.2 else none

/-! ## In what the encoder writes -/

theorem inRange_int64 (i : Int64) : InRange i.toInt :=
  ⟨Int64.le_toInt i, by have h := Int64.toInt_lt i; omega⟩

theorem signed_natAbs (i : ℤ) : signed (decide (i < 0)) i.natAbs = i := by
  rw [signed]
  by_cases h : i < 0
  · rw [if_pos (by simpa using h)]
    omega
  · rw [if_neg (by simpa using h)]
    omega

/-- A serialised integer is read back. -/
theorem parseInt_render (i : Int64) (rest : Bytes) (out : ℤ) :
    parseInt (render (.int i) ++ rest) (render (.int i)).length out = (true, i.toInt) := by
  have hparse := (parseInt_integer (decide (i.toInt < 0)) i.toInt.natAbs
    ((signed_natAbs i.toInt).symm ▸ inRange_int64 i) .empty rest out).1 rfl
  have hbytes : (Number.integer (decide (i.toInt < 0)) i.toInt.natAbs).bytes = render (.int i) :=
    bytes_text (.int i)
  rwa [Ws.empty_bytes, List.append_nil, hbytes, signed_natAbs] at hparse

/-- An integer member of a serialised object is read back. -/
theorem getInt_render {k : CStr} (hk : ∀ b ∈ k.bytes, escape b = [b])
    (pre : List (CStr × Json)) (hpre : ∀ m ∈ pre, m.1 ≠ k) (i : Int64)
    (post : List (CStr × Json)) (rest : Bytes) :
    getInt (render (.obj (pre ++ (k, .int i) :: post)) ++ rest) k = some i.toInt := by
  rw [getInt, objGet_render_member hk pre hpre, Option.bind_some, parseInt_render]
  rfl

/-- A boolean member of a serialised object is read back. -/
theorem getBool_render {k : CStr} (hk : ∀ b ∈ k.bytes, escape b = [b])
    (pre : List (CStr × Json)) (hpre : ∀ m ∈ pre, m.1 ≠ k) (b : Bool)
    (post : List (CStr × Json)) (rest : Bytes) :
    getBool (render (.obj (pre ++ (k, .bool b) :: post)) ++ rest) k = some b := by
  have hparse := (parseBool_bool b .empty (objRest post rest)).1 rfl
  have hbytes : (Scalar.bool b).bytes = render (.bool b) := bytes_text (.bool b)
  rw [Ws.empty_bytes, List.append_nil, hbytes] at hparse
  rw [getBool, objGet_render_member hk pre hpre, Option.bind_some, hparse]
  rfl

theorem getBool_render_none {k : CStr} (hk : ∀ b ∈ k.bytes, escape b = [b])
    (ms : List (CStr × Json)) (hno : ∀ m ∈ ms, m.1 ≠ k) (rest : Bytes) :
    getBool (render (.obj ms) ++ rest) k = none := by
  rw [getBool, objGet_render_none hk ms hno, Option.bind_none]

/-! ## In any text -/

/-- A document: an object with white space before and behind it. -/
def document (lead : Ws) (t : Text) (trail : Ws) : Bytes :=
  lead.bytes ++ t.bytes ++ trail.bytes

theorem firstMember_append {k : Bytes} {pre : List (Key × Text × Ws)}
    (hpre : ∀ m ∈ pre, unitsBytes m.1.name ≠ k) (ms : List (Key × Text × Ws)) :
    firstMember k (pre ++ ms) = firstMember k ms := by
  induction pre with
  | nil => rfl
  | cons m pre ih =>
    obtain ⟨key, t, after⟩ := m
    have hne : ¬unitsBytes key.name = k := hpre (key, t, after) (by simp)
    rw [List.cons_append, firstMember, if_neg hne]
    exact ih fun m hm => hpre m (by simp [hm])

theorem firstMember_compactMembers (k : Bytes) (ms : List (Key × Text × Ws)) :
    firstMember k (compactMembers ms) =
      (firstMember k ms).map fun r => (r.1.compact, .empty, compactMembers r.2.2) := by
  induction ms with
  | nil => rfl
  | cons m ms ih =>
    obtain ⟨key, t, after⟩ := m
    rw [compactMembers, firstMember, firstMember, ih, Key.compact]
    split <;> rfl

section Lookup

variable {k : CStr} {pre post : List (Key × Text × Ws)} {key : Key} {after : Ws}

/-- The lookup of a bare scalar, with the white space behind it. -/
theorem objGet_scalar (lead gap trail : Ws) (s : Scalar) (hkey : unitsBytes key.name = k.bytes)
    (hpre : ∀ m ∈ pre, unitsBytes m.1.name ≠ k.bytes) :
    objGet (document lead (.obj gap (pre ++ (key, .scalar s, after) :: post)) trail) k =
      some (s.bytes ++ after.bytes ++ membersTail post trail.bytes,
        (s.bytes ++ after.bytes).length) := by
  rw [document, objGet_text, firstMember_append hpre, firstMember, if_pos hkey]
  rfl

/-- The lookup of a bare scalar in the compact form. -/
theorem objGet_scalar_compact (gap : Ws) (s : Scalar) (hkey : unitsBytes key.name = k.bytes)
    (hpre : ∀ m ∈ pre, unitsBytes m.1.name ≠ k.bytes) :
    objGet (document .empty (Text.obj gap (pre ++ (key, .scalar s, after) :: post)).compact
        .empty) k =
      some (s.bytes ++ Ws.empty.bytes ++ membersTail (compactMembers post) [],
        (s.bytes ++ Ws.empty.bytes).length) := by
  rw [document, Text.compact, objGet_text, firstMember_compactMembers, firstMember_append hpre,
    firstMember, if_pos hkey]
  rfl

end Lookup

/-- **When white space does not matter.**  Take an object with any white space in it, and the first
of its members whose key is spelled `k`; let the value be an integer in range or a boolean.  In the
compact form of the object the value is always read.  In the object as it is, it is read exactly
when no white space stands between the value and the comma or brace behind it. -/
theorem get_scalar_iff_tight (k : CStr) (pre post : List (Key × Text × Ws)) (key : Key)
    (lead gap after trail : Ws) (hkey : unitsBytes key.name = k.bytes)
    (hpre : ∀ m ∈ pre, unitsBytes m.1.name ≠ k.bytes) :
    (∀ neg n, InRange (signed neg n) →
      let t := Text.obj gap (pre ++ (key, .scalar (.number (.integer neg n)), after) :: post)
      getInt (document .empty t.compact .empty) k = some (signed neg n) ∧
        (getInt (document lead t trail) k = some (signed neg n) ↔ after.bytes = [])) ∧
    (∀ b,
      let t := Text.obj gap (pre ++ (key, .scalar (.bool b), after) :: post)
      getBool (document .empty t.compact .empty) k = some b ∧
        (getBool (document lead t trail) k = some b ↔ after.bytes = [])) := by
  refine ⟨fun neg n h => ⟨?_, ?_⟩, fun b => ⟨?_, ?_⟩⟩
  · rw [getInt, objGet_scalar_compact gap _ hkey hpre, Option.bind_some, Scalar.bytes,
      (parseInt_integer neg n h .empty _ 0).1 rfl]
    rfl
  · have hp := parseInt_integer neg n h after (membersTail post trail.bytes) 0
    rw [getInt, objGet_scalar lead gap trail _ hkey hpre, Option.bind_some, Scalar.bytes]
    dsimp only
    constructor
    · intro hget
      by_contra hw
      rw [hp.2 hw] at hget
      simp at hget
    · intro hw
      rw [hp.1 hw]
      rfl
  · rw [getBool, objGet_scalar_compact gap _ hkey hpre, Option.bind_some,
      (parseBool_bool b .empty _).1 rfl]
    rfl
  · have hp := parseBool_bool b after (membersTail post trail.bytes)
    rw [getBool, objGet_scalar lead gap trail _ hkey hpre, Option.bind_some]
    dsimp only
    constructor
    · intro hget
      by_contra hw
      rw [hp.2 hw] at hget
      simp at hget
    · intro hw
      rw [hp.1 hw]
      rfl

/-- The member `"a" : ...` of the two examples below, before its value. -/
def keyA : Key :=
  ⟨⟨[0x0a], by simp⟩, [.plain 0x61 (by decide)], ⟨[0x20], by simp⟩, ⟨[0x20, 0x09], by simp⟩⟩

/-- White space in every gap but the one behind the value. -/
theorem get_scalar_iff_tight_spaced :
    getInt (document ⟨[0x20], by simp⟩
        (.obj ⟨[0x0d], by simp⟩ [(keyA, .scalar (.number (.integer true 7)), .empty)])
        ⟨[0x0a], by simp⟩) ⟨[0x61], by decide⟩ = some (-7) :=
  (((get_scalar_iff_tight ⟨[0x61], by decide⟩ [] [] keyA ⟨[0x20], by simp⟩ ⟨[0x0d], by simp⟩
    .empty ⟨[0x0a], by simp⟩ rfl (by simp)).1 true 7 ⟨by decide, by decide⟩).2).mpr rfl

/-- One space behind the value, and it is not read; the compact form of the same object has it. -/
theorem get_scalar_spaced_behind :
    getInt (document .empty
        (.obj .empty [(keyA.compact, .scalar (.number (.integer false 1)), ⟨[0x20], by simp⟩)])
        .empty) ⟨[0x61], by decide⟩ = none ∧
      getInt (document .empty
        (Text.obj .empty
          [(keyA.compact, .scalar (.number (.integer false 1)), ⟨[0x20], by simp⟩)]).compact
        .empty) ⟨[0x61], by decide⟩ = some 1 := by
  decide +kernel

end Nsr
