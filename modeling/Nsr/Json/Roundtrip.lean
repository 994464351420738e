import Nsr.Json.Text
import Nsr.Json.Decoder
import Nsr.Json.Encoder

/-!
# Strings there and back

`append_escaped` and `nsr_json_parse_str` of `src/json/json.c` are two tables of escapes.  They
agree on the seven short escapes and on plain bytes.  For the other control characters the encoder
writes four hexadecimal digits behind a backslash and a `u`, and the decoder has no case for the
`u`: it takes it for an escaped letter `u` and copies the digits.

* `decodeBody`, `parseStrBody_eq`: what the loop of `nsr_json_parse_str` computes, cut to the room
  there is.
* `reread`, `decodeBody_escape`: what a byte comes back as.
* `parseStr_literal_iff`: the round trip holds exactly when no such control character is among the
  bytes there is room for.
-/

namespace Nsr

open Ascii

/-- The bytes between the quotes of a literal as `nsr_json_parse_str` reads them, with room for
all of them. -/
def decodeBody : Bytes → Bytes
  | [] => []
  | [c] => [c]
  | c :: d :: p => if c = backslash then unescape d :: decodeBody p else c :: decodeBody (d :: p)

/-- **The loop of `nsr_json_parse_str`** keeps the first `out_len - 1` bytes of what it reads. -/
theorem parseStrBody_eq (outLen : UInt64) (body out : Bytes) (h : out.length ≤ lastIndex outLen) :
    parseStrBody outLen body out = (out ++ decodeBody body).take (lastIndex outLen) := by
  have hput : ∀ (out : Bytes) (c : UInt8) (p : Bytes), out.length ≤ lastIndex outLen →
      (put outLen out c).length ≤ lastIndex outLen ∧
        (put outLen out c ++ p).take (lastIndex outLen) =
          (out ++ c :: p).take (lastIndex outLen) := by
    intro out c p h
    rw [put]
    split
    · next hlt => exact ⟨by rw [List.length_append, List.length_singleton]; omega, by simp⟩
    · next hge =>
      have heq : lastIndex outLen = out.length := by omega
      exact ⟨h, by rw [heq, List.take_left, List.take_left]⟩
  fun_induction parseStrBody outLen body out with
  | case1 out => rw [decodeBody, List.append_nil, List.take_of_length_le h]
  | case2 c out =>
    obtain ⟨hl, ht⟩ := hput out c [] h
    rw [decodeBody, ← ht, List.append_nil, List.take_of_length_le hl]
  | case3 d p out ih =>
    obtain ⟨hl, ht⟩ := hput out (unescape d) (decodeBody p) h
    rw [ih hl, ht, decodeBody, if_pos rfl]
  | case4 c d p out hc ih =>
    obtain ⟨hl, ht⟩ := hput out c (decodeBody (d :: p)) h
    rw [ih hl, ht, decodeBody, if_neg hc]

/-! ## One byte -/

/-- A control character that has no short escape. -/
def LongEscaped (b : UInt8) : Prop :=
  b < 0x20 ∧ shortEscape b = none

instance : DecidablePred LongEscaped :=
  fun _ => inferInstanceAs (Decidable (_ ∧ _))

/-- What a byte of a string comes back as. -/
def reread (b : UInt8) : Bytes :=
  if LongEscaped b then 0x75 :: hex4 b.toNat else [b]

theorem decodeBody_plain {c : UInt8} (hc : c ≠ backslash) (p : Bytes) :
    decodeBody (c :: p) = c :: decodeBody p := by
  cases p with
  | nil => rfl
  | cons d p => rw [decodeBody, if_neg hc]

theorem decodeBody_hex4 (n : ℕ) (p : Bytes) :
    decodeBody (hex4 n ++ p) = hex4 n ++ decodeBody p := by
  have hhex : ∀ d < 16, hexByte d ≠ backslash := by decide
  have hne : ∀ m, hexByte (m % 16) ≠ backslash := fun m => hhex _ (Nat.mod_lt _ (by omega))
  rw [hex4]
  simp only [List.cons_append, List.nil_append]
  rw [decodeBody_plain (hne _), decodeBody_plain (hne _), decodeBody_plain (hne _),
    decodeBody_plain (hne _)]

/-- The decoder's table inverts the encoder's on the short escapes. -/
theorem unescape_of_shortEscape {b c : UInt8} (h : shortEscape b = some c) : unescape c = b :=
  of_decide_eq_true (shortEscape_check (fun r => unescape r.2 = r.1) (by decide) h)

theorem decodeBody_escape (b : UInt8) (p : Bytes) :
    decodeBody (escape b ++ p) = reread b ++ decodeBody p := by
  rcases hb : shortEscape b with _ | c
  · by_cases hlt : b < 0x20
    · rw [escape_of_control hb hlt, reread, if_pos ⟨hlt, hb⟩]
      simp only [List.cons_append]
      rw [decodeBody, if_pos rfl, decodeBody_hex4]
      rfl
    · have hne : b ≠ backslash := (plain_of_shortEscape hb hlt).2.2
      rw [escape_of_plain hb hlt, reread, if_neg fun h => hlt h.1]
      exact decodeBody_plain hne p
  · have hnot : ¬LongEscaped b := fun h => Option.some_ne_none c (hb.symm.trans h.2)
    rw [escape_of_short hb, reread, if_neg hnot]
    simp only [List.cons_append, List.nil_append]
    rw [decodeBody, if_pos rfl, unescape_of_shortEscape hb]

/-! ## Whole strings -/

theorem decodeBody_flatMap_escape (s : Bytes) :
    decodeBody (s.flatMap escape) = s.flatMap reread := by
  induction s with
  | nil => rfl
  | cons b s ih => rw [List.flatMap_cons, decodeBody_escape, ih, List.flatMap_cons]

/-- Bytes come back unchanged, as far as there is room, exactly when each of them does. -/
theorem take_flatMap_reread_iff (s : Bytes) (n : ℕ) :
    (s.flatMap reread).take n = s.take n ↔ ∀ b ∈ s.take n, ¬LongEscaped b := by
  induction s generalizing n with
  | nil => simp
  | cons b s ih =>
    cases n with
    | zero => simp
    | succ n =>
      rw [List.flatMap_cons, reread, List.take_succ_cons]
      split
      · next hb =>
        refine iff_of_false ?_ fun h => h b (by simp) hb
        intro h
        simp only [List.cons_append, List.take_succ_cons, List.cons.injEq] at h
        rw [← h.1] at hb
        exact absurd hb (by decide)
      · next hb =>
        simp [hb, ih]

/-- What `nsr_json_parse_str` makes of a literal: the bytes as they come back, as far as there is
room. -/
theorem parseStr_literal (s : CStr) {outLen : UInt64} (h : 0 < outLen) (rest : Bytes) :
    parseStr (literal s ++ rest) (literal s).length outLen =
      some ((s.bytes.flatMap reread).take (outLen.toNat - 1)) := by
  have hlen : (literal s).length = (s.bytes.flatMap escape).length + 2 := by
    simp [literal]
  have hlast : lastIndex outLen = outLen.toNat - 1 := by
    rw [lastIndex, UInt64.toNat_sub_of_le _ _ (by
      rw [UInt64.le_iff_toNat_le]; exact UInt64.lt_iff_toNat_lt.mp h)]
    rfl
  have hpos : 0 < outLen.toNat := UInt64.lt_iff_toNat_lt.mp h
  have hsplit : literal s ++ rest = quote :: (s.bytes.flatMap escape ++ quote :: rest) := by
    simp [literal]
  have hdrop : (literal s ++ rest).drop ((literal s).length - 1) = quote :: rest := by
    rw [hsplit, hlen]
    simp
  have hbody : ((literal s ++ rest).take ((literal s).length - 1)).drop 1 =
      s.bytes.flatMap escape := by
    rw [hsplit, hlen]
    simp
  have hguard : ¬((literal s).length < 2 ∨ peek (literal s ++ rest) ≠ quote ∨
      peek ((literal s ++ rest).drop ((literal s).length - 1)) ≠ quote) := by
    rw [hdrop, hsplit, hlen]
    simp
  rw [parseStr, if_neg hguard, hbody, parseStrBody_eq _ _ _ (Nat.zero_le _), List.nil_append,
    decodeBody_flatMap_escape, hlast]
  have hle := List.length_take_le (outLen.toNat - 1) (s.bytes.flatMap reread)
  dsimp only
  rw [if_pos (by omega)]

theorem not_longEscaped_iff (b : UInt8) :
    ¬LongEscaped b ↔ 0x20 ≤ b ∨ b ∈ [0x08, 0x09, 0x0a, 0x0c, 0x0d] := by
  have h : ∀ n < 256, ¬LongEscaped (UInt8.ofNat n) ↔
      0x20 ≤ UInt8.ofNat n ∨ UInt8.ofNat n ∈ [0x08, 0x09, 0x0a, 0x0c, 0x0d] := by
    decide +kernel
  rw [← UInt8.ofNat_toNat (x := b)]
  exact h b.toNat b.toNat_lt

/-- **When a string survives the round trip.**  `nsr_json_parse_str` gives back the string that
`append_escaped` wrote, cut to the room there is, exactly when every byte there is room for is
either no control character or one of the five with a short escape. -/
theorem parseStr_literal_iff (s : CStr) (outLen : UInt64) (h : 0 < outLen) (rest : Bytes) :
    parseStr ((JsonBuf.init.appendEscaped s).bytes ++ rest)
        (JsonBuf.init.appendEscaped s).bytes.length outLen =
          some (s.bytes.take (outLen.toNat - 1)) ↔
      ∀ b ∈ s.bytes.take (outLen.toNat - 1),
        0x20 ≤ b ∨ b ∈ [0x08, 0x09, 0x0a, 0x0c, 0x0d] := by
  rw [JsonBuf.appendEscaped_bytes, JsonBuf.init_bytes, List.nil_append, parseStr_literal s h,
    Option.some_inj, take_flatMap_reread_iff]
  simp only [not_longEscaped_iff]

/-- `a`, a line feed and `b`, with room for two bytes: the line feed comes back. -/
theorem parseStr_literal_iff_newline :
    parseStr ((JsonBuf.init.appendEscaped ⟨[0x61, 0x0a, 0x62], by decide⟩).bytes ++ [comma])
        (JsonBuf.init.appendEscaped ⟨[0x61, 0x0a, 0x62], by decide⟩).bytes.length 3 =
      some [0x61, 0x0a] :=
  (parseStr_literal_iff ⟨[0x61, 0x0a, 0x62], by decide⟩ 3 (by decide) [comma]).mpr
    (by decide +kernel)

/-- The string of the one byte `0x01` comes back as `u0001`. -/
theorem parseStr_literal_control :
    parseStr (JsonBuf.init.appendEscaped ⟨[0x01], by decide⟩).bytes
        (JsonBuf.init.appendEscaped ⟨[0x01], by decide⟩).bytes.length 16 =
      some [0x75, 0x30, 0x30, 0x30, 0x31] ∧
    ¬∀ (s : CStr) (outLen : UInt64), s.bytes.length < outLen.toNat →
      parseStr (JsonBuf.init.appendEscaped s).bytes (JsonBuf.init.appendEscaped s).bytes.length
        outLen = some s.bytes := by
  refine ⟨by decide +kernel, fun h => ?_⟩
  exact absurd (h ⟨[0x01], by decide⟩ 16 (by decide)) (by decide +kernel)

end Nsr
