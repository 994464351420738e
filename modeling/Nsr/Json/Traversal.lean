import Nsr.Json.Text
import Nsr.Json.Decoder
import Nsr.Json.Encoder

/-!
# The decoder walks JSON texts exactly

The walker of `src/json/json.c` knows no lengths: it finds the end of a value by reading on.  On a
JSON text, however spelled and whatever follows, that end is the right one --- except that a bare
scalar is taken to reach up to the next delimiter, so that the white space behind it counts as
part of it (`valueEnd`).

* `skipValue_text`: the end of a value, at any depth and before any continuation.
* `objGet_text`, `firstMember`: the lookup finds the first member of this very object with the
  key, or nothing.
* `walkArr`: the iteration over an array as its callers run it.
* `traversal_exact`: what this says about the texts that the encoder writes.
-/

namespace Nsr

open Ascii

/-! ## Tokens -/

theorem skipWs_ws (w : Ws) (p : Bytes) : skipWs (w.bytes ++ p) = skipWs p := by
  refine List.dropWhile_append_of_pos fun c hc => ?_
  rcases w.blank c hc with rfl | rfl | rfl | rfl <;> rfl

theorem skipWs_cons {c : UInt8} (h : isspace c = false) (p : Bytes) :
    skipWs (c :: p) = c :: p := by
  rw [skipWs, List.dropWhile_cons_of_neg (by simp [h])]

theorem skipStrBody_quote (p : Bytes) : skipStrBody (quote :: p) = some p := by
  cases p <;> rfl

theorem skipStrBody_escape (c : UInt8) (p : Bytes) :
    skipStrBody (backslash :: c :: p) = skipStrBody p := rfl

theorem skipStrBody_plain {c : UInt8} (hq : c ≠ quote) (hb : c ≠ backslash) (p : Bytes) :
    skipStrBody (c :: p) = skipStrBody p := by
  cases p with
  | nil => simp [skipStrBody, hq]
  | cons d p => simp [skipStrBody, hq, hb]

theorem isxdigit_ne {c : UInt8} (h : isxdigit c = true) : c ≠ quote ∧ c ≠ backslash := by
  constructor
  · rintro rfl
    exact absurd h (by decide)
  · rintro rfl
    exact absurd h (by decide)

/-- The loop over a string passes each unit whole: no byte of it is taken for the closing quote. -/
theorem skipStrBody_units (us : List StrUnit) (rest : Bytes) :
    skipStrBody (unitsBytes us ++ quote :: rest) = some rest := by
  induction us with
  | nil => exact skipStrBody_quote rest
  | cons u us ih =>
    rw [unitsBytes, List.flatMap_cons, List.append_assoc]
    cases u with
    | plain b h => exact (skipStrBody_plain h.2.1 h.2.2 _).trans ih
    | short c h => exact (skipStrBody_escape c _).trans ih
    | unicode a b c d h =>
      obtain ⟨ha, hb, hc, hd⟩ := h
      rw [StrUnit.bytes]
      simp only [List.cons_append, List.nil_append]
      rw [skipStrBody_escape, skipStrBody_plain (isxdigit_ne ha).1 (isxdigit_ne ha).2,
        skipStrBody_plain (isxdigit_ne hb).1 (isxdigit_ne hb).2,
        skipStrBody_plain (isxdigit_ne hc).1 (isxdigit_ne hc).2,
        skipStrBody_plain (isxdigit_ne hd).1 (isxdigit_ne hd).2]
      exact ih

theorem skipStr_units (us : List StrUnit) (rest : Bytes) :
    skipStr (quote :: (unitsBytes us ++ quote :: rest)) = some rest := by
  rw [skipStr, peek_cons, if_pos rfl]
  exact skipStrBody_units us rest

/-- A byte of a bare scalar: not white space, not a quote, not a separator, not a bracket. -/
def ScalarByte (c : UInt8) : Prop :=
  isspace c = false ∧ c ≠ quote ∧ c ≠ comma ∧ c ≠ lbracket ∧ c ≠ rbracket ∧ c ≠ lbrace ∧
    c ≠ rbrace

instance : DecidablePred ScalarByte :=
  fun _ => inferInstanceAs (Decidable (_ ∧ _))

theorem scalarByte_digitByte {d : ℕ} (hd : d < 10) : ScalarByte (digitByte d) := by
  have h : ∀ d < 10, ScalarByte (digitByte d) := by decide
  exact h d hd

theorem scalarByte_decimal (n : ℕ) : ∀ c ∈ decimal n, ScalarByte c := by
  intro c hc
  obtain ⟨d, hd, rfl⟩ := exists_digit_of_mem_decimal hc
  exact scalarByte_digitByte hd

theorem scalarByte_digits (ds : Digits) : ∀ c ∈ ds.bytes, ScalarByte c := by
  intro c hc
  obtain ⟨i, -, rfl⟩ := List.mem_map.mp hc
  exact scalarByte_digitByte i.isLt

theorem scalarByte_exponentMark (upper : Bool) (sign : Option Bool) :
    ∀ c ∈ exponentMark upper sign, ScalarByte c := by
  rcases upper with _ | _ <;> rcases sign with _ | _ | _ <;> decide +kernel

theorem scalarByte_exponent (e : Exponent) : ∀ c ∈ e.bytes, ScalarByte c := by
  intro c hc
  rw [Exponent.bytes] at hc
  rcases List.mem_append.mp hc with hc | hc
  · exact scalarByte_exponentMark _ _ c hc
  · exact scalarByte_digits _ c hc

theorem scalarByte_number (n : Number) : ∀ c ∈ n.bytes, ScalarByte c := by
  intro c hc
  obtain ⟨neg, int, frac, exp⟩ := n
  simp only [Number.bytes, List.mem_append] at hc
  rcases hc with ((hc | hc) | hc) | hc
  · cases neg with
    | false => simp at hc
    | true =>
      obtain rfl := List.mem_singleton.mp hc
      decide
  · exact scalarByte_decimal _ c hc
  · cases frac with
    | none => simp at hc
    | some d =>
      rcases List.mem_cons.mp hc with rfl | hc
      · decide
      · exact scalarByte_digits d c hc
  · cases exp with
    | none => simp at hc
    | some e => exact scalarByte_exponent e c hc

theorem scalarByte_scalar (s : Scalar) : ∀ c ∈ s.bytes, ScalarByte c := by
  cases s with
  | null => decide +kernel
  | bool b => cases b <;> decide +kernel
  | number n => exact scalarByte_number n

theorem scalar_bytes_ne_nil (s : Scalar) : s.bytes ≠ [] := by
  cases s with
  | null => decide +kernel
  | bool b => cases b <;> decide +kernel
  | number n => simp [Scalar.bytes, Number.bytes, decimal_ne_nil]

/-! ## What may follow a value -/

/-- What follows a value and the white space behind it: nothing, a comma or a closing bracket. -/
def Delimited (rest : Bytes) : Prop :=
  rest = [] ∨ ∃ c p, rest = c :: p ∧ (c = comma ∨ c = rbrace ∨ c = rbracket)

theorem delimited_comma (p : Bytes) : Delimited (comma :: p) :=
  .inr ⟨comma, p, rfl, .inl rfl⟩

theorem delimited_rbrace (p : Bytes) : Delimited (rbrace :: p) :=
  .inr ⟨rbrace, p, rfl, .inr (.inl rfl)⟩

theorem delimited_rbracket (p : Bytes) : Delimited (rbracket :: p) :=
  .inr ⟨rbracket, p, rfl, .inr (.inr rfl)⟩

theorem skipWs_delimited {rest : Bytes} (h : Delimited rest) : skipWs rest = rest := by
  rcases h with rfl | ⟨c, p, rfl, rfl | rfl | rfl⟩
  · rfl
  all_goals exact skipWs_cons rfl p

theorem skipScalar_delimited {rest : Bytes} (h : Delimited rest) : skipScalar rest = rest := by
  rcases h with rfl | ⟨c, p, rfl, rfl | rfl | rfl⟩ <;> rfl

/-- The bytes that the walker takes for a value: with a bare scalar goes the white space behind
it. -/
def valueBytes (t : Text) (after : Ws) : Bytes :=
  match t with
  | .scalar s => s.bytes ++ after.bytes
  | t => t.bytes

/-- Where the walker ends a value that has `after` and then `rest` behind it. -/
def valueEnd (t : Text) (after : Ws) (rest : Bytes) : Bytes :=
  match t with
  | .scalar _ => rest
  | _ => after.bytes ++ rest

theorem valueBytes_append_valueEnd (t : Text) (after : Ws) (rest : Bytes) :
    valueBytes t after ++ valueEnd t after rest = t.bytes ++ after.bytes ++ rest := by
  cases t with
  | scalar s => rfl
  | str us => simp [valueBytes, valueEnd]
  | arr gap es => simp [valueBytes, valueEnd]
  | obj gap ms => simp [valueBytes, valueEnd]

theorem skipWs_valueEnd (t : Text) (after : Ws) {rest : Bytes} (h : Delimited rest) :
    skipWs (valueEnd t after rest) = rest := by
  cases t with
  | scalar s => exact skipWs_delimited h
  | str us => exact (skipWs_ws after rest).trans (skipWs_delimited h)
  | arr gap es => exact (skipWs_ws after rest).trans (skipWs_delimited h)
  | obj gap ms => exact (skipWs_ws after rest).trans (skipWs_delimited h)

/-- A text begins with a byte that is neither white space nor a closing bracket. -/
theorem text_head (t : Text) :
    ∃ c p, t.bytes = c :: p ∧ isspace c = false ∧ c ≠ rbracket := by
  cases t with
  | scalar s =>
    obtain ⟨c, p, hcp⟩ := List.exists_cons_of_ne_nil (scalar_bytes_ne_nil s)
    obtain ⟨hsp, -, -, -, hrb, -⟩ := scalarByte_scalar s c (by rw [hcp]; simp)
    exact ⟨c, p, by rw [Text.bytes, hcp], hsp, hrb⟩
  | str us => exact ⟨quote, _, by rw [Text.bytes]; rfl, rfl, by decide⟩
  | arr gap es => exact ⟨lbracket, _, by rw [Text.bytes]; rfl, rfl, by decide⟩
  | obj gap ms => exact ⟨lbrace, _, by rw [Text.bytes]; rfl, rfl, by decide⟩

theorem skipWs_text (t : Text) (rest : Bytes) : skipWs (t.bytes ++ rest) = t.bytes ++ rest := by
  obtain ⟨c, p, hcp, hsp, -⟩ := text_head t
  rw [hcp]
  exact skipWs_cons hsp _

/-! ## One value, one element, one member -/

theorem skipValue_ws (w : Ws) (p : Bytes) : skipValue (w.bytes ++ p) = skipValue p := by
  rw [skipValue_eq, skipValue_eq p, skipWs_ws]

theorem skipMembers_ws (w : Ws) (p : Bytes) : skipMembers (w.bytes ++ p) = skipMembers p := by
  rw [skipMembers_eq, skipMembers_eq p, skipWs_ws]

theorem skipElems_ws (w : Ws) (p : Bytes) : skipElems (w.bytes ++ p) = skipElems p := by
  rw [skipElems_eq, skipElems_eq p, skipWs_ws]

theorem skipMembers_rbrace (p : Bytes) : skipMembers (rbrace :: p) = some p := by
  rw [skipMembers_eq, skipWs_cons rfl]
  rfl

theorem skipElems_rbracket (p : Bytes) : skipElems (rbracket :: p) = some p := by
  rw [skipElems_eq, skipWs_cons rfl]
  rfl

theorem skipValue_quote (p : Bytes) : skipValue (quote :: p) = skipStr (quote :: p) := by
  rw [skipValue_eq, skipWs_cons rfl]
  rfl

theorem skipValue_lbrace (p : Bytes) : skipValue (lbrace :: p) = skipMembers p := by
  rw [skipValue_eq, skipWs_cons rfl]
  rfl

theorem skipValue_lbracket (p : Bytes) : skipValue (lbracket :: p) = skipElems p := by
  rw [skipValue_eq, skipWs_cons rfl]
  rfl

/-- A bare scalar reaches, for the walker, over the white space behind it. -/
theorem skipValue_scalar (s : Scalar) (after : Ws) {rest : Bytes} (h : Delimited rest) :
    skipValue (s.bytes ++ after.bytes ++ rest) = some rest := by
  have hws : skipWs (s.bytes ++ after.bytes ++ rest) = s.bytes ++ after.bytes ++ rest := by
    have h := skipWs_text (.scalar s) (after.bytes ++ rest)
    rwa [Text.bytes, ← List.append_assoc] at h
  obtain ⟨c, p, hcp⟩ := List.exists_cons_of_ne_nil (scalar_bytes_ne_nil s)
  obtain ⟨-, hq, -, hlb, -, hlc, -⟩ := scalarByte_scalar s c (by rw [hcp]; simp)
  have hpeek : peek (s.bytes ++ after.bytes ++ rest) = c := by rw [hcp]; rfl
  have hall : ∀ c ∈ s.bytes ++ after.bytes,
      (c != comma && c != rbrace && c != rbracket) = true := by
    intro c hc
    rcases List.mem_append.mp hc with hc | hc
    · obtain ⟨-, -, h₁, -, h₂, -, h₃⟩ := scalarByte_scalar s c hc
      simp [h₁, h₂, h₃]
    · rcases after.blank c hc with rfl | rfl | rfl | rfl <;> rfl
  rw [skipValue_eq, hws, hpeek, if_neg hq, if_neg hlc, if_neg hlb, skipScalar,
    List.dropWhile_append_of_pos hall]
  exact congrArg some (skipScalar_delimited h)

section Step

variable {t : Text} {after : Ws} {rest : Bytes}

/-- One round of the element loop, given where its element ends. -/
theorem skipElems_step (before : Ws)
    (hv : skipValue (t.bytes ++ after.bytes ++ rest) = some (valueEnd t after rest))
    (hd : Delimited rest) :
    skipElems (before.bytes ++ t.bytes ++ after.bytes ++ rest) =
      if peek rest = comma then skipElems rest.tail
      else if peek rest = rbracket then some rest.tail
      else none := by
  have hws : skipWs (t.bytes ++ after.bytes ++ rest) = t.bytes ++ after.bytes ++ rest := by
    rw [List.append_assoc]
    exact skipWs_text t _
  obtain ⟨c, p, hcp, -, hrb⟩ := text_head t
  have hpeek : peek (t.bytes ++ after.bytes ++ rest) = c := by rw [hcp]; rfl
  rw [List.append_assoc, List.append_assoc, skipElems_ws, ← List.append_assoc, skipElems_eq, hws,
    hpeek, if_neg hrb, hv, Option.bind_some, skipWs_valueEnd t after hd]

theorem key_bytes_append (k : Key) (p : Bytes) :
    k.bytes ++ p = k.before.bytes ++
      quote :: (unitsBytes k.name ++ quote :: (k.after.bytes ++ colon :: (k.gap.bytes ++ p))) := by
  simp [Key.bytes]

/-- One round of the member loop, given where its value ends. -/
theorem skipMembers_step (k : Key)
    (hv : skipValue (t.bytes ++ after.bytes ++ rest) = some (valueEnd t after rest))
    (hd : Delimited rest) :
    skipMembers (k.bytes ++ t.bytes ++ after.bytes ++ rest) =
      if peek rest = comma then skipMembers rest.tail
      else if peek rest = rbrace then some rest.tail
      else none := by
  rw [List.append_assoc, List.append_assoc, ← List.append_assoc t.bytes, key_bytes_append,
    skipMembers_ws, skipMembers_eq, skipWs_cons rfl, peek_cons, if_neg (by decide), if_pos rfl,
    skipStr_units, Option.bind_some, skipWs_ws, skipWs_cons rfl, peek_cons, if_pos rfl,
    List.tail_cons, skipValue_ws, hv, Option.bind_some, skipWs_valueEnd t after hd]

end Step

/-! ## Whole values -/

mutual

/-- **The walker ends every value where it ends**, with white space and any delimited continuation
behind it. -/
theorem skipValue_text (t : Text) (after : Ws) {rest : Bytes} (h : Delimited rest) :
    skipValue (t.bytes ++ after.bytes ++ rest) = some (valueEnd t after rest) := by
  match t with
  | .scalar s => exact skipValue_scalar s after h
  | .str us =>
    rw [Text.bytes]
    simp only [List.append_assoc, List.cons_append, List.nil_append]
    rw [skipValue_quote, skipStr_units]
    rfl
  | .arr gap [] =>
    rw [Text.bytes, elemsBytes]
    simp only [List.intercalate_nil, List.append_assoc, List.cons_append, List.nil_append]
    rw [skipValue_lbracket, skipElems_ws, skipElems_rbracket]
    rfl
  | .arr gap (e :: es) =>
    have he := skipElems_text (e :: es) (List.cons_ne_nil _ _) (after.bytes ++ rest)
    rw [Text.bytes]
    simp only [List.append_assoc, List.cons_append, List.nil_append]
    rw [skipValue_lbracket, skipElems_ws, he]
    rfl
  | .obj gap [] =>
    rw [Text.bytes, membersBytes]
    simp only [List.intercalate_nil, List.append_assoc, List.cons_append, List.nil_append]
    rw [skipValue_lbrace, skipMembers_ws, skipMembers_rbrace]
    rfl
  | .obj gap (m :: ms) =>
    have hm := skipMembers_text (m :: ms) (List.cons_ne_nil _ _) (after.bytes ++ rest)
    rw [Text.bytes]
    simp only [List.append_assoc, List.cons_append, List.nil_append]
    rw [skipValue_lbrace, skipMembers_ws, hm]
    rfl

/-- The element loop ends behind the closing bracket. -/
theorem skipElems_text (es : List (Ws × Text × Ws)) (hes : es ≠ []) (rest : Bytes) :
    skipElems ([comma].intercalate (elemsBytes es) ++ rbracket :: rest) = some rest := by
  match es with
  | [] => exact absurd rfl hes
  | (before, t, after) :: [] =>
    rw [elemsBytes, elemsBytes, List.intercalate_singleton,
      skipElems_step before (skipValue_text t after (delimited_rbracket rest))
        (delimited_rbracket rest)]
    rfl
  | (before, t, after) :: e :: es =>
    have htail := skipElems_text (e :: es) (List.cons_ne_nil _ _) rest
    obtain ⟨x, xs, hx⟩ : ∃ x xs, elemsBytes (e :: es) = x :: xs := ⟨_, _, by rw [elemsBytes]⟩
    rw [hx] at htail
    have hd := delimited_comma ([comma].intercalate (x :: xs) ++ rbracket :: rest)
    rw [elemsBytes, hx, List.intercalate_cons_cons, List.append_assoc, List.append_assoc,
      List.singleton_append, skipElems_step before (skipValue_text t after hd) hd, peek_cons,
      if_pos rfl, List.tail_cons, htail]

/-- The member loop ends behind the closing brace. -/
theorem skipMembers_text (ms : List (Key × Text × Ws)) (hms : ms ≠ []) (rest : Bytes) :
    skipMembers ([comma].intercalate (membersBytes ms) ++ rbrace :: rest) = some rest := by
  match ms with
  | [] => exact absurd rfl hms
  | (k, t, after) :: [] =>
    rw [membersBytes, membersBytes, List.intercalate_singleton,
      skipMembers_step k (skipValue_text t after (delimited_rbrace rest)) (delimited_rbrace rest)]
    rfl
  | (k, t, after) :: m :: ms =>
    have htail := skipMembers_text (m :: ms) (List.cons_ne_nil _ _) rest
    obtain ⟨x, xs, hx⟩ : ∃ x xs, membersBytes (m :: ms) = x :: xs := ⟨_, _, by rw [membersBytes]⟩
    rw [hx] at htail
    have hd := delimited_comma ([comma].intercalate (x :: xs) ++ rbrace :: rest)
    rw [membersBytes, hx, List.intercalate_cons_cons, List.append_assoc, List.append_assoc,
      List.singleton_append, skipMembers_step k (skipValue_text t after hd) hd, peek_cons,
      if_pos rfl, List.tail_cons, htail]

end

/-! ## Members -/

/-- What follows a member: the members behind it, each after a comma, and the closing brace. -/
def membersTail (ms : List (Key × Text × Ws)) (rest : Bytes) : Bytes :=
  (membersBytes ms).flatMap (comma :: ·) ++ rbrace :: rest

theorem delimited_membersTail (ms : List (Key × Text × Ws)) (rest : Bytes) :
    Delimited (membersTail ms rest) := by
  rcases ms with _ | ⟨⟨k, t, after⟩, ms⟩
  · exact delimited_rbrace rest
  · exact delimited_comma _

/-- **The first member with a key**: its value, the white space behind that, and the members that
follow. -/
def firstMember (k : Bytes) :
    List (Key × Text × Ws) → Option (Text × Ws × List (Key × Text × Ws))
  | [] => none
  | (key, t, after) :: ms =>
    if unitsBytes key.name = k then some (t, after, ms) else firstMember k ms

theorem objGetRound_ws (key : CStr) (w : Ws) (p : Bytes) :
    objGetRound key (w.bytes ++ p) = objGetRound key p := by
  rw [objGetRound, objGetRound, skipWs_ws]

/-- The comparison of `nsr_json_obj_get`, by length and then by bytes, decides equality. -/
theorem key_match (key : CStr) (name p : Bytes) :
    (key.bytes.length == (name ++ quote :: p).length - p.length - 1 &&
        (name ++ quote :: p).take ((name ++ quote :: p).length - p.length - 1) ==
          key.bytes.take ((name ++ quote :: p).length - p.length - 1)) =
      decide (name = key.bytes) := by
  have hlen : (name ++ quote :: p).length - p.length - 1 = name.length := by
    rw [List.length_append, List.length_cons]
    omega
  rw [hlen, List.take_left]
  by_cases h : name = key.bytes
  · simp [h]
  · by_cases hl : key.bytes.length = name.length
    · simp [h, ← hl]
    · simp [h, hl]

/-- One round of the lookup, at a member. -/
theorem objGetRound_member (key : CStr) (k : Key) (t : Text) (after : Ws) {rest : Bytes}
    (hd : Delimited rest) :
    objGetRound key (k.bytes ++ t.bytes ++ after.bytes ++ rest) =
      if unitsBytes k.name = key.bytes then
        .inr (some (t.bytes ++ after.bytes ++ rest, (valueBytes t after).length))
      else if peek rest = comma then .inl rest.tail
      else .inr none := by
  have hws : skipWs (t.bytes ++ after.bytes ++ rest) = t.bytes ++ after.bytes ++ rest := by
    rw [List.append_assoc]
    exact skipWs_text t _
  have hlen : (t.bytes ++ after.bytes ++ rest).length - (valueEnd t after rest).length =
      (valueBytes t after).length := by
    rw [← valueBytes_append_valueEnd, List.length_append, Nat.add_sub_cancel]
  rw [List.append_assoc, List.append_assoc, ← List.append_assoc t.bytes, key_bytes_append,
    objGetRound_ws, objGetRound]
  dsimp only
  rw [skipWs_cons rfl, peek_cons, if_neg (by decide), if_neg (by decide), skipStr_units]
  dsimp only
  rw [skipWs_ws, skipWs_cons rfl, peek_cons, if_neg (by decide), List.tail_cons, List.tail_cons,
    skipWs_ws, hws, skipValue_text t after hd]
  dsimp only
  rw [key_match, skipWs_valueEnd t after hd, hlen]
  simp only [decide_eq_true_eq]

/-- The lookup from the first member on. -/
theorem objGetLoop_members (key : CStr) (m : Key × Text × Ws) (ms : List (Key × Text × Ws))
    (rest : Bytes) :
    (objGetLoop key).run ([comma].intercalate (membersBytes (m :: ms)) ++ rbrace :: rest) =
      (firstMember key.bytes (m :: ms)).map fun r =>
        (r.1.bytes ++ r.2.1.bytes ++ membersTail r.2.2 rest,
          (valueBytes r.1 r.2.1).length) := by
  induction ms generalizing m with
  | nil =>
    obtain ⟨k, t, after⟩ := m
    have hround := objGetRound_member key k t after (delimited_membersTail [] rest)
    have hsplit : [comma].intercalate (membersBytes [(k, t, after)]) ++ rbrace :: rest =
        k.bytes ++ t.bytes ++ after.bytes ++ membersTail [] rest := by
      rw [membersBytes, membersBytes, List.intercalate_singleton]
      rfl
    rw [hsplit, objGetLoop_run, hround, firstMember, firstMember]
    split
    · rfl
    · rfl
  | cons m' ms ih =>
    obtain ⟨k, t, after⟩ := m
    have hround := objGetRound_member key k t after (delimited_membersTail (m' :: ms) rest)
    have hsplit : [comma].intercalate (membersBytes ((k, t, after) :: m' :: ms)) ++
        rbrace :: rest = k.bytes ++ t.bytes ++ after.bytes ++ membersTail (m' :: ms) rest := by
      rw [membersBytes, intercalate_comma_cons, membersTail, List.append_assoc]
    have htail : membersTail (m' :: ms) rest =
        comma :: ([comma].intercalate (membersBytes (m' :: ms)) ++ rbrace :: rest) := by
      obtain ⟨k', t', after'⟩ := m'
      rw [membersTail, membersBytes, List.flatMap_cons, intercalate_comma_cons]
      simp
    rw [hsplit, objGetLoop_run, hround, firstMember]
    split
    · rfl
    · rw [htail, peek_cons, if_pos rfl, List.tail_cons]
      exact ih m'

/-- **The lookup is exact**: it returns the value of the first member of the object that has the
key, and null when the object has none; members of other objects play no part in it. -/
theorem objGet_text (key : CStr) (lead gap : Ws) (ms : List (Key × Text × Ws)) (rest : Bytes) :
    objGet (lead.bytes ++ (Text.obj gap ms).bytes ++ rest) key =
      (firstMember key.bytes ms).map fun r =>
        (r.1.bytes ++ r.2.1.bytes ++ membersTail r.2.2 rest,
          (valueBytes r.1 r.2.1).length) := by
  have hopen : objGet (lead.bytes ++ (Text.obj gap ms).bytes ++ rest) key =
      (objGetLoop key).run
        (gap.bytes ++ ([comma].intercalate (membersBytes ms) ++ rbrace :: rest)) := by
    rw [objGet, Text.bytes]
    simp only [List.append_assoc, List.cons_append, List.nil_append]
    rw [skipWs_ws, skipWs_cons rfl, peek_cons, if_neg (by decide), List.tail_cons]
  have hgap : ∀ p, (objGetLoop key).run (gap.bytes ++ p) = (objGetLoop key).run p := by
    intro p
    rw [objGetLoop_run, objGetRound_ws, ← objGetLoop_run]
  rw [hopen, hgap]
  cases ms with
  | nil =>
    have hclose : objGetRound key (rbrace :: rest) = .inr none := by
      rw [objGetRound, skipWs_cons rfl]
      rfl
    rw [membersBytes, List.intercalate_nil, List.nil_append, objGetLoop_run, hclose]
    rfl
  | cons m ms => exact objGetLoop_members key m ms rest

/-! ## Elements -/

/-- What follows an element: the elements behind it, each after a comma, and the closing bracket. -/
def elemsTail (es : List (Ws × Text × Ws)) (rest : Bytes) : Bytes :=
  (elemsBytes es).flatMap (comma :: ·) ++ rbracket :: rest

theorem delimited_elemsTail (es : List (Ws × Text × Ws)) (rest : Bytes) :
    Delimited (elemsTail es rest) := by
  rcases es with _ | ⟨⟨before, t, after⟩, es⟩
  · exact delimited_rbracket rest
  · exact delimited_comma _

/-- The first of the remaining elements, and where the iteration goes on behind it. -/
def cursorOf (es : List (Ws × Text × Ws)) (rest : Bytes) : Cursor :=
  match es with
  | [] => ⟨none, some rest⟩
  | (_, t, after) :: es =>
    ⟨some (t.bytes ++ after.bytes ++ elemsTail es rest),
      some (valueEnd t after (elemsTail es rest))⟩

/-- **The elements as an iteration is to meet them**: where each begins and ends. -/
def elemSlices (rest : Bytes) : List (Ws × Text × Ws) → List (Bytes × Bytes)
  | [] => []
  | (_, t, after) :: es =>
    (t.bytes ++ after.bytes ++ elemsTail es rest, valueEnd t after (elemsTail es rest)) ::
      elemSlices rest es

theorem cursorAt_text (t : Text) (after : Ws) {rest : Bytes} (h : Delimited rest) :
    cursorAt (t.bytes ++ after.bytes ++ rest) =
      ⟨some (t.bytes ++ after.bytes ++ rest), some (valueEnd t after rest)⟩ := by
  rw [cursorAt, skipValue_text t after h]

theorem arrNext_text (t : Text) (after : Ws) (es : List (Ws × Text × Ws)) (rest : Bytes) :
    arrNext (valueEnd t after (elemsTail es rest)) = cursorOf es rest := by
  rw [arrNext, skipWs_valueEnd t after (delimited_elemsTail es rest)]
  rcases es with _ | ⟨⟨before', t', after'⟩, es⟩
  · rfl
  · have htail : elemsTail ((before', t', after') :: es) rest =
        comma :: (before'.bytes ++ (t'.bytes ++ (after'.bytes ++ elemsTail es rest))) := by
      rw [elemsTail, elemsBytes, List.flatMap_cons, elemsTail]
      simp
    rw [htail, peek_cons, if_pos rfl, List.tail_cons, skipWs_ws, skipWs_text, ← List.append_assoc,
      cursorAt_text t' after' (delimited_elemsTail es rest), cursorOf]

theorem arrFirst_text (lead gap : Ws) (es : List (Ws × Text × Ws)) (rest : Bytes) :
    arrFirst (lead.bytes ++ (Text.arr gap es).bytes ++ rest) = cursorOf es rest := by
  rw [arrFirst, Text.bytes]
  simp only [List.append_assoc, List.cons_append, List.nil_append]
  rw [skipWs_ws, skipWs_cons rfl, peek_cons, if_neg (by decide), List.tail_cons, skipWs_ws]
  rcases es with _ | ⟨⟨before, t, after⟩, es⟩
  · rw [elemsBytes, List.intercalate_nil, List.nil_append, skipWs_cons rfl]
    rfl
  · have hsplit : [comma].intercalate (elemsBytes ((before, t, after) :: es)) ++
        rbracket :: rest = before.bytes ++ (t.bytes ++ (after.bytes ++ elemsTail es rest)) := by
      rw [elemsBytes, intercalate_comma_cons, elemsTail]
      simp
    obtain ⟨c, p, hcp, -, hrb⟩ := text_head t
    have hpeek : peek (t.bytes ++ after.bytes ++ elemsTail es rest) = c := by rw [hcp]; rfl
    rw [hsplit, skipWs_ws, skipWs_text, ← List.append_assoc, hpeek, if_neg hrb,
      cursorAt_text t after (delimited_elemsTail es rest), cursorOf]

theorem arrLoop_text (es : List (Ws × Text × Ws)) (rest : Bytes) (met : List (Bytes × Bytes)) :
    arrLoop.run (cursorOf es rest, met) = met ++ elemSlices rest es := by
  induction es generalizing met with
  | nil =>
    rw [BoundedLoop.Loop.run_eq]
    exact (List.append_nil met).symm
  | cons e es ih =>
    obtain ⟨before, t, after⟩ := e
    rw [BoundedLoop.Loop.run_eq]
    change arrLoop.run (arrNext (valueEnd t after (elemsTail es rest)), met ++ [_]) = _
    rw [arrNext_text, ih, elemSlices]
    simp

/-- **The iteration is exact**: it meets the elements of the array, in order, and then stops. -/
theorem walkArr_text (lead gap : Ws) (es : List (Ws × Text × Ws)) (rest : Bytes) :
    walkArr (lead.bytes ++ (Text.arr gap es).bytes ++ rest) = elemSlices rest es := by
  rw [walkArr, arrFirst_text, arrLoop_text, List.nil_append]

/-! ## On the texts of the encoder -/

/-- A key that the encoder writes as it is is the raw spelling of itself only. -/
theorem flatMap_escape_eq_iff {s k : Bytes} (hk : ∀ b ∈ k, escape b = [b]) :
    s.flatMap escape = k ↔ s = k := by
  constructor
  · intro h
    have hs : ∀ b ∈ s, escape b = [b] := by
      intro b hb
      by_contra hne
      -- every escape begins with a backslash, which the key does not hold
      have hbs : backslash ∈ escape b := by
        rcases hsh : shortEscape b with _ | c
        · by_cases hlt : b < 0x20
          · simp [escape_of_control hsh hlt]
          · exact absurd (escape_of_plain hsh hlt) hne
        · simp [escape_of_short hsh]
      have hmem : backslash ∈ k := h ▸ List.mem_flatMap.mpr ⟨b, hb, hbs⟩
      exact absurd (hk _ hmem) (by decide)
    rw [← h, List.flatMap_congr hs, List.flatMap_singleton']
  · rintro rfl
    rw [List.flatMap_congr hk, List.flatMap_singleton']

theorem firstMember_textMembers {k : CStr} (hk : ∀ b ∈ k.bytes, escape b = [b])
    {pre : List (CStr × Json)} (hpre : ∀ m ∈ pre, m.1 ≠ k) (ms : List (CStr × Json)) :
    firstMember k.bytes (textMembers (pre ++ ms)) = firstMember k.bytes (textMembers ms) := by
  induction pre with
  | nil => rfl
  | cons m pre ih =>
    obtain ⟨k', v⟩ := m
    have hne : ¬unitsBytes k'.units = k.bytes := by
      rw [unitsBytes_units, flatMap_escape_eq_iff hk]
      intro h
      exact hpre (k', v) (by simp) (by cases k'; cases k; simpa using h)
    rw [List.cons_append, textMembers, firstMember, if_neg hne]
    exact ih fun m hm => hpre m (by simp [hm])

/-- What stands before the value of a member in the serialisation of an object. -/
def objHead (pre : List (CStr × Json)) (k : CStr) : Bytes :=
  [lbrace] ++ (renderMembers pre).flatMap (· ++ [comma]) ++ literal k ++ [colon]

/-- What stands behind the value of a member. -/
def objRest (post : List (CStr × Json)) (rest : Bytes) : Bytes :=
  (renderMembers post).flatMap (comma :: ·) ++ rbrace :: rest

/-- What stands behind an element in the serialisation of an array. -/
def arrRest (post : List Json) (rest : Bytes) : Bytes :=
  (renderElems post).flatMap (comma :: ·) ++ rbracket :: rest

/-- The elements of an array, each with where it begins and ends. -/
def arrSlices (rest : Bytes) : List Json → List (Bytes × Bytes)
  | [] => []
  | v :: vs => (render v ++ arrRest vs rest, arrRest vs rest) :: arrSlices rest vs

theorem renderMembers_append (pre post : List (CStr × Json)) :
    renderMembers (pre ++ post) = renderMembers pre ++ renderMembers post := by
  induction pre with
  | nil => simp [renderMembers]
  | cons m pre ih => simp [renderMembers, ih]

theorem intercalate_comma_append (xs : List Bytes) (y : Bytes) (ys : List Bytes) :
    [comma].intercalate (xs ++ y :: ys) =
      xs.flatMap (· ++ [comma]) ++ y ++ ys.flatMap (comma :: ·) := by
  induction xs with
  | nil => simp [intercalate_comma_cons]
  | cons x xs ih =>
    rw [List.flatMap_cons, List.append_assoc, List.append_assoc, ← List.append_assoc _ y, ← ih,
      List.cons_append]
    rcases xs with _ | ⟨x', xs⟩
    · simp [List.intercalate_cons_cons]
    · simp [List.intercalate_cons_cons]

theorem render_obj_split (pre : List (CStr × Json)) (k : CStr) (v : Json)
    (post : List (CStr × Json)) (rest : Bytes) :
    render (.obj (pre ++ (k, v) :: post)) ++ rest =
      objHead pre k ++ (render v ++ objRest post rest) := by
  rw [render, renderMembers_append, renderMembers, intercalate_comma_append, objHead, objRest]
  simp

theorem elemSlices_textElems (es : List Json) (rest : Bytes) :
    elemSlices rest (textElems es) = arrSlices rest es := by
  induction es with
  | nil => rfl
  | cons v vs ih =>
    have htail : elemsTail (textElems vs) rest = arrRest vs rest := by
      rw [elemsTail, bytes_textElems, arrRest]
    have hend : valueEnd v.text .empty (arrRest vs rest) = arrRest vs rest := by
      cases v <;> rfl
    rw [textElems, elemSlices, arrSlices, ih, htail, hend, bytes_text]
    simp

theorem skipValue_render (v : Json) {rest : Bytes} (hd : Delimited rest) :
    skipValue (render v ++ rest) = some rest := by
  have h := skipValue_text v.text .empty hd
  rw [Ws.empty_bytes, List.append_nil, bytes_text] at h
  rw [h]
  cases v <;> rfl

theorem objGet_render (ms : List (CStr × Json)) (k : CStr) (rest : Bytes) :
    objGet (render (.obj ms) ++ rest) k =
      (firstMember k.bytes (textMembers ms)).map fun r =>
        (r.1.bytes ++ r.2.1.bytes ++ membersTail r.2.2 rest,
          (valueBytes r.1 r.2.1).length) := by
  have h := objGet_text k .empty .empty (textMembers ms) rest
  rwa [← Json.text, bytes_text, Ws.empty_bytes, List.nil_append] at h

/-- The lookup of a key that the encoder writes as it is, in a serialised object that has it. -/
theorem objGet_render_member {k : CStr} (hk : ∀ b ∈ k.bytes, escape b = [b])
    (pre : List (CStr × Json)) (hpre : ∀ m ∈ pre, m.1 ≠ k) (v : Json)
    (post : List (CStr × Json)) (rest : Bytes) :
    objGet (render (.obj (pre ++ (k, v) :: post)) ++ rest) k =
      some (render v ++ objRest post rest, (render v).length) := by
  have hname : unitsBytes k.units = k.bytes := by
    rw [unitsBytes_units, flatMap_escape_eq_iff hk]
  have hvalue : valueBytes v.text .empty = render v := by
    rw [← bytes_text]
    cases v <;> first | rfl | exact List.append_nil _
  rw [objGet_render, firstMember_textMembers hk hpre, textMembers, firstMember, if_pos hname,
    Option.map_some, membersTail, bytes_textMembers, hvalue, bytes_text, objRest]
  simp

theorem objGet_render_none {k : CStr} (hk : ∀ b ∈ k.bytes, escape b = [b])
    (ms : List (CStr × Json)) (hno : ∀ m ∈ ms, m.1 ≠ k) (rest : Bytes) :
    objGet (render (.obj ms) ++ rest) k = none := by
  rw [objGet_render, ← List.append_nil ms, firstMember_textMembers hk hno]
  rfl

theorem walkArr_render (es : List Json) (rest : Bytes) :
    walkArr (render (.arr es) ++ rest) = arrSlices rest es := by
  have h := walkArr_text .empty .empty (textElems es) rest
  rwa [← Json.text, bytes_text, Ws.empty_bytes, List.nil_append, elemSlices_textElems] at h

/-- **The decoder's walk is exact on what the encoder writes.**  `skip_value` returns the end of the
value, whatever its depth and whatever delimited text follows; `nsr_json_obj_get` returns the slice
of the first member of the object that has the key, or null when the object itself has none; and
the array iteration meets the elements in order and stops. -/
theorem traversal_exact :
    (∀ (v : Json) (rest : Bytes), Delimited rest → skipValue (encode v ++ rest) = some rest) ∧
      (∀ (ms : List (CStr × Json)) (k : CStr) (rest : Bytes), (∀ b ∈ k.bytes, escape b = [b]) →
        (∀ pre v post, ms = pre ++ (k, v) :: post → (∀ m ∈ pre, m.1 ≠ k) →
          encode (.obj ms) ++ rest = objHead pre k ++ (encode v ++ objRest post rest) ∧
            objGet (encode (.obj ms) ++ rest) k =
              some (encode v ++ objRest post rest, (encode v).length)) ∧
        ((∀ m ∈ ms, m.1 ≠ k) → objGet (encode (.obj ms) ++ rest) k = none)) ∧
      (∀ (es : List Json) (rest : Bytes),
        walkArr (encode (.arr es) ++ rest) = arrSlices rest es) := by
  simp only [encode_eq_render]
  refine ⟨fun v rest hd => skipValue_render v hd, fun ms k rest hk => ⟨?_, ?_⟩, walkArr_render⟩
  · rintro pre v post rfl hpre
    exact ⟨render_obj_split pre k v post rest, objGet_render_member hk pre hpre v post rest⟩
  · intro hno
    exact objGet_render_none hk ms hno rest

/-- The outer `b` is found behind a member whose value has a `b` of its own. -/
theorem traversal_exact_nested :
    objGet (encode (.obj [(⟨[0x61], by decide⟩, .obj [(⟨[0x62], by decide⟩, .int 1)]),
        (⟨[0x62], by decide⟩, .arr [.int 2])]) ++ []) ⟨[0x62], by decide⟩ =
      some (encode (.arr [.int 2]) ++ objRest [] [], (encode (.arr [.int 2])).length) :=
  ((traversal_exact.2.1 _ ⟨[0x62], by decide⟩ [] (by decide +kernel)).1
    [(⟨[0x61], by decide⟩, .obj [(⟨[0x62], by decide⟩, .int 1)])] (.arr [.int 2]) [] rfl
    (by simp)).2

end Nsr
