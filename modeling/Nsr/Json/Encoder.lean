import Nsr.Json.Syntax

/-!
# The JSON encoder

The encoder half of `src/json/json.c`.  Every call appends to a growing buffer, and whether a comma
is due is decided by `needsComma` from the last byte written and from nothing else: there is no
nesting state.

* `JsonBuf`: the buffer, with the room for its terminating NUL as a field.
* `objStart`, ..., `null`: the calls, each in terms of `appendChar` and `appendRaw`.
* `Call`, `Json.calls`, `emit`: the well-nested sequence of calls that describes a tree.
* `emit_bytes`: a tree is written behind whatever the buffer holds, after a comma where one is due.
* `emit_init_eq_render`: on an initialised buffer that is the compact serialisation, on one line.
-/

namespace Nsr

open Ascii

/-! ## The buffer -/

/-- **`nsr_json_buf_t`**: the `len` bytes written and the allocated size.  A buffer that has been
allocated has room for the terminating NUL behind its bytes. -/
structure JsonBuf where
  bytes : Bytes
  cap : ℕ
  terminated : bytes.length < cap ∨ bytes = [] ∧ cap = 0

namespace JsonBuf

/-- `while (new_cap < len + need) new_cap *= 2`, with the bound on its rounds that doubling a
positive size gives. -/
def doubleTo : ℕ → ℕ → ℕ → ℕ
  | 0, _, cap => cap
  | rounds + 1, want, cap => if cap < want then doubleTo rounds want (cap * 2) else cap

theorem le_doubleTo {rounds want cap : ℕ} (hcap : 0 < cap) (h : want ≤ cap + rounds) :
    want ≤ doubleTo rounds want cap := by
  induction rounds generalizing cap with
  | zero => exact h
  | succ rounds ih =>
    rw [doubleTo]
    split
    · exact ih (by omega) (by omega)
    · omega

/-- `jb_grow`: the size of the buffer once `need` more bytes fit. -/
def grownCap (len cap need : ℕ) : ℕ :=
  if len + need < cap then cap
  else doubleTo (len + need) (len + need) (if cap = 0 then 256 else cap * 2)

theorem le_grownCap (len cap need : ℕ) : len + need ≤ grownCap len cap need := by
  rw [grownCap]
  split
  · omega
  · refine le_doubleTo ?_ (by omega)
    split <;> omega

/-- `jb_append_raw`. -/
def appendRaw (jb : JsonBuf) (s : Bytes) : JsonBuf where
  bytes := jb.bytes ++ s
  cap := grownCap jb.bytes.length jb.cap (s.length + 1)
  terminated := by
    have h := le_grownCap jb.bytes.length jb.cap (s.length + 1)
    rw [List.length_append]
    omega

/-- `jb_append_char`. -/
def appendChar (jb : JsonBuf) (c : UInt8) : JsonBuf where
  bytes := jb.bytes ++ [c]
  cap := grownCap jb.bytes.length jb.cap 2
  terminated := by
    have h := le_grownCap jb.bytes.length jb.cap 2
    rw [List.length_append, List.length_singleton]
    omega

/-- `needs_comma`: a comma is due unless the last byte opens a container or separates tokens. -/
def needsComma (jb : JsonBuf) : Bool :=
  match jb.bytes.getLast? with
  | none => false
  | some c => c != lbrace && c != lbracket && c != colon && c != comma

/-- `nsr_json_init`: an empty buffer of 256 bytes. -/
def init : JsonBuf where
  bytes := []
  cap := grownCap 0 0 1
  terminated := .inl (le_grownCap 0 0 1)

/-- The comma that every call but the two `end` calls puts first where one is due. -/
def separate (jb : JsonBuf) : JsonBuf :=
  if jb.needsComma then jb.appendChar comma else jb

/-- `nsr_json_obj_start`. -/
def objStart (jb : JsonBuf) : JsonBuf :=
  jb.separate.appendChar lbrace

/-- `nsr_json_obj_end`. -/
def objEnd (jb : JsonBuf) : JsonBuf :=
  jb.appendChar rbrace

/-- `nsr_json_arr_start`. -/
def arrStart (jb : JsonBuf) : JsonBuf :=
  jb.separate.appendChar lbracket

/-- `nsr_json_arr_end`. -/
def arrEnd (jb : JsonBuf) : JsonBuf :=
  jb.appendChar rbracket

/-- The `switch` of `append_escaped` on one byte of the string. -/
def appendEscapedByte (jb : JsonBuf) (b : UInt8) : JsonBuf :=
  if b = quote then jb.appendRaw [backslash, quote]
  else if b = backslash then jb.appendRaw [backslash, backslash]
  else if b = 0x08 then jb.appendRaw [backslash, 0x62] -- \b
  else if b = 0x0c then jb.appendRaw [backslash, 0x66] -- \f
  else if b = 0x0a then jb.appendRaw [backslash, 0x6e] -- \n
  else if b = 0x0d then jb.appendRaw [backslash, 0x72] -- \r
  else if b = 0x09 then jb.appendRaw [backslash, 0x74] -- \t
  else if b < 0x20 then jb.appendRaw (backslash :: 0x75 :: hex4 b.toNat) -- "\\u%04x"
  else jb.appendChar b

/-- `append_escaped`. -/
def appendEscaped (jb : JsonBuf) (s : CStr) : JsonBuf :=
  (s.bytes.foldl appendEscapedByte (jb.appendChar quote)).appendChar quote

/-- `nsr_json_key`. -/
def key (jb : JsonBuf) (k : CStr) : JsonBuf :=
  (jb.separate.appendEscaped k).appendChar colon

/-- The empty C string. -/
def emptyCStr : CStr := ⟨[], by simp⟩

/-- `nsr_json_string`; a null pointer is written as the empty string. -/
def string (jb : JsonBuf) (val : Option CStr) : JsonBuf :=
  jb.separate.appendEscaped (val.getD emptyCStr)

/-- `nsr_json_int`. -/
def int (jb : JsonBuf) (val : Int64) : JsonBuf :=
  jb.separate.appendRaw (signedDecimal val.toInt)

/-- `nsr_json_bool`. -/
def bool (jb : JsonBuf) (val : Bool) : JsonBuf :=
  jb.separate.appendRaw (if val then trueBytes else falseBytes)

/-- `nsr_json_null`. -/
def null (jb : JsonBuf) : JsonBuf :=
  jb.separate.appendRaw nullBytes

/-! ## What a call appends -/

@[simp] theorem init_bytes : init.bytes = [] := rfl

@[simp] theorem appendRaw_bytes (jb : JsonBuf) (s : Bytes) :
    (jb.appendRaw s).bytes = jb.bytes ++ s := rfl

@[simp] theorem appendChar_bytes (jb : JsonBuf) (c : UInt8) :
    (jb.appendChar c).bytes = jb.bytes ++ [c] := rfl

/-- The separator due behind the bytes of a buffer. -/
def sep (jb : JsonBuf) : Bytes :=
  if jb.needsComma then [comma] else []

@[simp] theorem separate_bytes (jb : JsonBuf) : jb.separate.bytes = jb.bytes ++ jb.sep := by
  rw [separate, sep]
  split <;> simp

theorem appendEscapedByte_bytes (jb : JsonBuf) (b : UInt8) :
    (jb.appendEscapedByte b).bytes = jb.bytes ++ escape b := by
  -- the seven short escapes are the rows of the table; what is left has no row in it
  by_cases h1 : b = quote
  · subst h1; rfl
  by_cases h2 : b = backslash
  · subst h2; rfl
  by_cases h3 : b = 0x08
  · subst h3; rfl
  by_cases h4 : b = 0x0c
  · subst h4; rfl
  by_cases h5 : b = 0x0a
  · subst h5; rfl
  by_cases h6 : b = 0x0d
  · subst h6; rfl
  by_cases h7 : b = 0x09
  · subst h7; rfl
  have hshort : shortEscape b = none := by
    rw [shortEscape, List.lookup_eq_none_iff]
    simp [h1, h2, h3, h4, h5, h6, h7]
  rw [appendEscapedByte, escape, hshort]
  simp only [h1, h2, h3, h4, h5, h6, h7, if_false]
  split <;> rfl

@[simp] theorem appendEscaped_bytes (jb : JsonBuf) (s : CStr) :
    (jb.appendEscaped s).bytes = jb.bytes ++ literal s := by
  have hfold : ∀ (bs : Bytes) (jb : JsonBuf),
      (bs.foldl appendEscapedByte jb).bytes = jb.bytes ++ bs.flatMap escape := by
    intro bs
    induction bs with
    | nil => simp
    | cons b bs ih =>
      intro jb
      rw [List.foldl_cons, ih, appendEscapedByte_bytes, List.flatMap_cons, List.append_assoc]
  rw [appendEscaped, appendChar_bytes, hfold, appendChar_bytes, literal]
  simp

/-- A text ends in a byte behind which a comma is due. -/
def Closed (bs : Bytes) : Prop :=
  ∃ pre c, bs = pre ++ [c] ∧ c ≠ lbrace ∧ c ≠ lbracket ∧ c ≠ colon ∧ c ≠ comma

theorem needsComma_of_closed {jb : JsonBuf} {pre bs : Bytes} (h : jb.bytes = pre ++ bs)
    (hbs : Closed bs) : jb.needsComma = true := by
  obtain ⟨pre', c, rfl, h1, h2, h3, h4⟩ := hbs
  rw [needsComma, h, ← List.append_assoc, List.getLast?_concat]
  simp [h1, h2, h3, h4]

/-- No comma follows an opening brace or bracket, a colon, or another comma. -/
theorem sep_of_open {jb : JsonBuf} {pre : Bytes} {c : UInt8} (h : jb.bytes = pre ++ [c])
    (hc : c = lbrace ∨ c = lbracket ∨ c = colon ∨ c = comma) : jb.sep = [] := by
  rw [sep, needsComma, h, List.getLast?_concat]
  rcases hc with rfl | rfl | rfl | rfl <;> rfl

end JsonBuf

/-! ## The last byte of a serialisation -/

theorem digitByte_toNat {d : ℕ} (hd : d < 10) : (digitByte d).toNat = 0x30 + d := by
  rw [digitByte, UInt8.toNat_ofNat', Nat.mod_eq_of_lt (by omega)]

theorem decimal_ne_nil (n : ℕ) : decimal n ≠ [] := by
  rw [decimal]
  split
  · exact List.cons_ne_nil _ _
  · next hn =>
    rw [ne_eq, List.map_eq_nil_iff, List.reverse_eq_nil_iff, Nat.digits_eq_nil_iff_eq_zero]
    exact hn

/-- Every byte of a decimal numeral is a digit. -/
theorem exists_digit_of_mem_decimal {n : ℕ} {c : UInt8} (hc : c ∈ decimal n) :
    ∃ d < 10, c = digitByte d := by
  rw [decimal] at hc
  split at hc
  · exact ⟨0, by omega, List.mem_singleton.mp hc⟩
  · obtain ⟨d, hd, rfl⟩ := List.mem_map.mp hc
    exact ⟨d, Nat.digits_lt_base (by omega) (List.mem_reverse.mp hd), rfl⟩

/-- A text whose bytes are none of the four openers and separators is closed. -/
theorem closed_of_forall {bs : Bytes} (hne : bs ≠ [])
    (h : ∀ c ∈ bs, c ≠ lbrace ∧ c ≠ lbracket ∧ c ≠ colon ∧ c ≠ comma) : JsonBuf.Closed bs :=
  ⟨bs.dropLast, bs.getLast hne, (List.dropLast_append_getLast hne).symm,
    h _ (List.getLast_mem hne)⟩

theorem closed_append {bs : Bytes} (pre : Bytes) (h : JsonBuf.Closed bs) :
    JsonBuf.Closed (pre ++ bs) := by
  obtain ⟨pre', c, rfl, hc⟩ := h
  exact ⟨pre ++ pre', c, (List.append_assoc _ _ _).symm, hc⟩

theorem closed_decimal (n : ℕ) : JsonBuf.Closed (decimal n) := by
  have hdigit : ∀ d < 10, digitByte d ≠ lbrace ∧ digitByte d ≠ lbracket ∧ digitByte d ≠ colon ∧
      digitByte d ≠ comma := by decide
  refine closed_of_forall (decimal_ne_nil n) fun c hc => ?_
  obtain ⟨d, hd, rfl⟩ := exists_digit_of_mem_decimal hc
  exact hdigit d hd

/-- **Behind any value a comma is due**: the last byte of a serialisation is a quote, a digit, a
letter or a closing bracket, whatever the strings in it hold. -/
theorem closed_render (v : Json) : JsonBuf.Closed (render v) := by
  cases v with
  | null => exact closed_of_forall (by decide) (by decide +kernel)
  | bool b => cases b <;> exact closed_of_forall (by decide) (by decide +kernel)
  | int i =>
    rw [render, signedDecimal]
    split
    · exact closed_append [minus] (closed_decimal _)
    · exact closed_decimal _
  | str s => exact ⟨_, quote, by rw [render, literal], by decide⟩
  | arr es => exact ⟨_, rbracket, by rw [render], by decide⟩
  | obj ms => exact ⟨_, rbrace, by rw [render], by decide⟩

/-! ## Trees as sequences of calls -/

/-- A call of the encoder, with its arguments. -/
inductive Call where
  | objStart
  | objEnd
  | arrStart
  | arrEnd
  | key (k : CStr)
  | string (val : Option CStr)
  | int (val : Int64)
  | bool (val : Bool)
  | null

/-- The effect of a call on the buffer. -/
def Call.run (jb : JsonBuf) : Call → JsonBuf
  | .objStart => jb.objStart
  | .objEnd => jb.objEnd
  | .arrStart => jb.arrStart
  | .arrEnd => jb.arrEnd
  | .key k => jb.key k
  | .string val => jb.string val
  | .int val => jb.int val
  | .bool val => jb.bool val
  | .null => jb.null

mutual

/-- **The well-nested sequence of calls** that describes a tree. -/
def Json.calls : Json → List Call
  | .null => [.null]
  | .bool b => [.bool b]
  | .int i => [.int i]
  | .str s => [.string (some s)]
  | .arr es => [.arrStart] ++ callsElems es ++ [.arrEnd]
  | .obj ms => [.objStart] ++ callsMembers ms ++ [.objEnd]

/-- The calls for the elements of an array. -/
def callsElems : List Json → List Call
  | [] => []
  | v :: vs => v.calls ++ callsElems vs

/-- The calls for the members of an object. -/
def callsMembers : List (CStr × Json) → List Call
  | [] => []
  | (k, v) :: ms => [.key k] ++ v.calls ++ callsMembers ms

end

/-- Emitting a tree into a buffer: its calls, one after the other. -/
def emit (v : Json) (jb : JsonBuf) : JsonBuf :=
  v.calls.foldl Call.run jb

mutual

/-- **A tree is written behind what the buffer holds**, after a comma where the last byte asks for
one.  The induction is on the tree; the buffer is arbitrary, so that the bytes of the siblings
before a value can stand in it. -/
theorem emit_bytes (v : Json) (jb : JsonBuf) :
    (v.calls.foldl Call.run jb).bytes = jb.bytes ++ jb.sep ++ render v := by
  match v with
  | .null => simp [Json.calls, Call.run, JsonBuf.null, render]
  | .bool b => simp [Json.calls, Call.run, JsonBuf.bool, render]
  | .int i => simp [Json.calls, Call.run, JsonBuf.int, render]
  | .str s => simp [Json.calls, Call.run, JsonBuf.string, render]
  | .arr [] =>
    simp [Json.calls, callsElems, Call.run, JsonBuf.arrStart, JsonBuf.arrEnd, render, renderElems]
  | .arr (w :: ws) =>
    have hopen : jb.arrStart.bytes = jb.bytes ++ jb.sep ++ [lbracket] := by
      simp [JsonBuf.arrStart]
    have hw := emit_bytes w jb.arrStart
    rw [JsonBuf.sep_of_open hopen (by simp), List.append_nil] at hw
    have hws := emitElems_bytes ws (w.calls.foldl Call.run jb.arrStart)
      (JsonBuf.needsComma_of_closed hw (closed_render w))
    simp [Json.calls, callsElems, Call.run, JsonBuf.arrEnd, render, renderElems,
      intercalate_comma_cons, hws, hw, hopen]
  | .obj [] =>
    simp [Json.calls, callsMembers, Call.run, JsonBuf.objStart, JsonBuf.objEnd, render,
      renderMembers]
  | .obj ((k, w) :: ms) =>
    have hopen : jb.objStart.bytes = jb.bytes ++ jb.sep ++ [lbrace] := by
      simp [JsonBuf.objStart]
    have hkey : (jb.objStart.key k).bytes = jb.objStart.bytes ++ literal k ++ [colon] := by
      simp [JsonBuf.key, JsonBuf.sep_of_open hopen]
    have hw := emit_bytes w (jb.objStart.key k)
    rw [JsonBuf.sep_of_open hkey (by simp), List.append_nil] at hw
    have hms := emitMembers_bytes ms (w.calls.foldl Call.run (jb.objStart.key k))
      (JsonBuf.needsComma_of_closed hw (closed_render w))
    simp [Json.calls, callsMembers, Call.run, JsonBuf.objEnd, render, renderMembers,
      intercalate_comma_cons, hms, hw, hkey, hopen]

/-- Further elements, behind an element: a comma before each. -/
theorem emitElems_bytes (vs : List Json) (jb : JsonBuf) (h : jb.needsComma = true) :
    ((callsElems vs).foldl Call.run jb).bytes =
      jb.bytes ++ (renderElems vs).flatMap (comma :: ·) := by
  match vs with
  | [] => simp [callsElems, renderElems]
  | w :: ws =>
    have hw := emit_bytes w jb
    have hws := emitElems_bytes ws (w.calls.foldl Call.run jb)
      (JsonBuf.needsComma_of_closed hw (closed_render w))
    have hsep : jb.sep = [comma] := by rw [JsonBuf.sep, h, if_pos rfl]
    simp [callsElems, renderElems, hws, hw, hsep]

/-- Further members, behind a member: a comma before each. -/
theorem emitMembers_bytes (ms : List (CStr × Json)) (jb : JsonBuf) (h : jb.needsComma = true) :
    ((callsMembers ms).foldl Call.run jb).bytes =
      jb.bytes ++ (renderMembers ms).flatMap (comma :: ·) := by
  match ms with
  | [] => simp [callsMembers, renderMembers]
  | (k, w) :: ms =>
    have hsep : jb.sep = [comma] := by rw [JsonBuf.sep, h, if_pos rfl]
    have hkey : (jb.key k).bytes = jb.bytes ++ [comma] ++ literal k ++ [colon] := by
      simp [JsonBuf.key, hsep]
    have hw := emit_bytes w (jb.key k)
    rw [JsonBuf.sep_of_open hkey (by simp), List.append_nil] at hw
    have hms := emitMembers_bytes ms (w.calls.foldl Call.run (jb.key k))
      (JsonBuf.needsComma_of_closed hw (closed_render w))
    simp [callsMembers, renderMembers, Call.run, hms, hw, hkey]

end

/-- What the encoder makes of a tree, starting from an initialised buffer. -/
def encode (v : Json) : Bytes :=
  (emit v JsonBuf.init).bytes

theorem encode_eq_render (v : Json) : encode v = render v := by
  rw [encode, emit, emit_bytes]
  rfl

/-! ## One line -/

/-- No byte of a text is a control character: the text is one line, without a NUL in it. -/
def Printable (bs : Bytes) : Prop :=
  ∀ c ∈ bs, 0x20 ≤ c

instance : DecidablePred Printable :=
  fun bs => inferInstanceAs (Decidable (∀ c ∈ bs, 0x20 ≤ c))

theorem printable_append {bs cs : Bytes} (hb : Printable bs) (hc : Printable cs) :
    Printable (bs ++ cs) := by
  intro c h
  rcases List.mem_append.mp h with h | h
  · exact hb c h
  · exact hc c h

theorem printable_intercalate {xs : List Bytes} (h : ∀ x ∈ xs, Printable x) :
    Printable ([comma].intercalate xs) := by
  cases xs with
  | nil => intro c hc; simp at hc
  | cons x xs =>
    rw [intercalate_comma_cons]
    refine printable_append (h x (by simp)) fun c hc => ?_
    obtain ⟨y, hy, hc⟩ := List.mem_flatMap.mp hc
    rcases List.mem_cons.mp hc with rfl | hc
    · decide
    · exact h y (by simp [hy]) c hc

theorem printable_decimal (n : ℕ) : Printable (decimal n) := by
  have hdigit : ∀ d < 10, 0x20 ≤ digitByte d := by decide
  intro c hc
  obtain ⟨d, hd, rfl⟩ := exists_digit_of_mem_decimal hc
  exact hdigit d hd

theorem printable_hex4 (n : ℕ) : Printable (hex4 n) := by
  have hhex : ∀ d < 16, 0x20 ≤ hexByte d := by decide
  intro c hc
  simp only [hex4, List.mem_cons, List.not_mem_nil, or_false] at hc
  rcases hc with rfl | rfl | rfl | rfl <;> exact hhex _ (Nat.mod_lt _ (by omega))

/-- Every byte below `0x20` has an escape, and no escape holds one. -/
theorem printable_escape (b : UInt8) : Printable (escape b) := by
  rw [escape]
  split
  · next c hc =>
    have hc' : (0x20 : UInt8) ≤ c :=
      of_decide_eq_true (shortEscape_check (fun r => (0x20 : UInt8) ≤ r.2) (by decide) hc)
    intro x hx
    rcases List.mem_cons.mp hx with rfl | hx
    · decide
    · rwa [List.mem_singleton.mp hx]
  · split
    · exact printable_append (show Printable [backslash, 0x75] by decide +kernel) (printable_hex4 _)
    · next h =>
      intro c hc
      rw [List.mem_singleton.mp hc]
      exact UInt8.not_lt.mp h

theorem printable_literal (s : CStr) : Printable (literal s) := by
  have hquote : Printable [quote] := by decide +kernel
  refine printable_append (printable_append hquote fun c hc => ?_) hquote
  obtain ⟨b, -, hc⟩ := List.mem_flatMap.mp hc
  exact printable_escape b c hc

mutual

theorem printable_render (v : Json) : Printable (render v) := by
  match v with
  | .null => decide +kernel
  | .bool true => decide +kernel
  | .bool false => decide +kernel
  | .int i =>
    rw [render, signedDecimal]
    split
    · exact printable_append (show Printable [minus] by decide +kernel) (printable_decimal _)
    · exact printable_decimal _
  | .str s => exact printable_literal s
  | .arr es =>
    exact printable_append (printable_append (by decide +kernel)
      (printable_intercalate (printable_renderElems es))) (by decide +kernel)
  | .obj ms =>
    exact printable_append (printable_append (by decide +kernel)
      (printable_intercalate (printable_renderMembers ms))) (by decide +kernel)

theorem printable_renderElems (es : List Json) : ∀ x ∈ renderElems es, Printable x := by
  match es with
  | [] => intro x hx; simp [renderElems] at hx
  | v :: vs =>
    intro x hx
    rw [renderElems] at hx
    rcases List.mem_cons.mp hx with rfl | hx
    · exact printable_render v
    · exact printable_renderElems vs x hx

theorem printable_renderMembers (ms : List (CStr × Json)) :
    ∀ x ∈ renderMembers ms, Printable x := by
  match ms with
  | [] => intro x hx; simp [renderMembers] at hx
  | (k, v) :: ms =>
    intro x hx
    rw [renderMembers] at hx
    rcases List.mem_cons.mp hx with rfl | hx
    · exact printable_append (printable_append (printable_literal k)
        (by decide +kernel)) (printable_render v)
    · exact printable_renderMembers ms x hx

end

/-- **The encoder is correct**: the calls of a tree, made on an initialised buffer, leave exactly
the compact serialisation of the tree in it, and no byte of that is a control character, so that
the message is a single line. -/
theorem emit_init_eq_render (v : Json) :
    (emit v JsonBuf.init).bytes = render v ∧ ∀ c ∈ (emit v JsonBuf.init).bytes, 0x20 ≤ c := by
  have h : (emit v JsonBuf.init).bytes = render v := encode_eq_render v
  refine ⟨h, ?_⟩
  rw [h]
  exact printable_render v

end Nsr
