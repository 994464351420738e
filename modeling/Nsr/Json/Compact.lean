import Nsr.Json.Roundtrip
import Nsr.Json.Whitespace

/-!
# Writing and reading compact texts

Rules for the two ends of a message: what a piece of code that calls the encoder writes, and what a
piece of code that calls the decoder reads.  They go by the structure of the code, so that the
message of a loop is the array of what its rounds write.  Numbers may have a fraction here.

* `Text.object`, `Text.array`: texts without white space.
* `Writes`, `WritesAll`: a function on the buffer writes a value; writes members or elements.
* `WritesAll.append`, `WritesAll.foldl`, `Writes.obj`, `Writes.arr`: how they compose.
* `Starts`: a pointer is to a value.
* `objGet_starts`, `objGet_starts_none`, `walkArr_starts`: what the decoder finds there.
-/

namespace Nsr

open Ascii

/-! ## Texts -/

namespace Text

/-- An object without white space. -/
def object (ms : List (CStr × Text)) : Text :=
  .obj .empty (ms.map fun m => (⟨.empty, m.1.units, .empty, .empty⟩, m.2, .empty))

/-- An array without white space. -/
def array (ts : List Text) : Text :=
  .arr .empty (ts.map fun t => (.empty, t, .empty))

/-- A string. -/
def string (s : CStr) : Text := .str s.units

/-- An integer. -/
def int (i : Int64) : Text := (Json.int i).text

/-- The spelling of a member. -/
def memberBytes (m : CStr × Text) : Bytes :=
  literal m.1 ++ [colon] ++ m.2.bytes

theorem string_bytes (s : CStr) : (string s).bytes = literal s := bytes_text (.str s)

theorem int_bytes (i : Int64) : (int i).bytes = render (.int i) := bytes_text (.int i)

theorem elemsBytes_map (ts : List Text) :
    elemsBytes (ts.map fun t => (.empty, t, .empty)) = ts.map Text.bytes := by
  induction ts with
  | nil => rfl
  | cons t ts ih =>
    rw [List.map_cons, elemsBytes, ih, List.map_cons, Ws.empty_bytes, List.nil_append,
      List.append_nil]

theorem membersBytes_map (ms : List (CStr × Text)) :
    membersBytes (ms.map fun m => (⟨.empty, m.1.units, .empty, .empty⟩, m.2, .empty)) =
      ms.map memberBytes := by
  induction ms with
  | nil => rfl
  | cons m ms ih =>
    rw [List.map_cons, membersBytes, ih, List.map_cons, Key.bytes, unitsBytes_units, memberBytes,
      literal]
    simp

theorem array_bytes (ts : List Text) :
    (array ts).bytes = [lbracket] ++ [comma].intercalate (ts.map Text.bytes) ++ [rbracket] := by
  rw [array, Text.bytes, elemsBytes_map, Ws.empty_bytes, List.append_nil]

theorem object_bytes (ms : List (CStr × Text)) :
    (object ms).bytes = [lbrace] ++ [comma].intercalate (ms.map memberBytes) ++ [rbrace] := by
  rw [object, Text.bytes, membersBytes_map, Ws.empty_bytes, List.append_nil]

/-! ## The bytes of a number -/

/-- A byte of a number. -/
def NumberByte (c : UInt8) : Prop :=
  isdigit c = true ∨ c ∈ [minus, 0x2e, 0x45, 0x65, 0x2b]

theorem numberByte_digits (ds : Digits) : ∀ c ∈ ds.bytes, NumberByte c := by
  intro c hc
  obtain ⟨i, -, rfl⟩ := List.mem_map.mp hc
  exact .inl (isdigit_digitByte i.isLt)

theorem numberByte_exponentMark (upper : Bool) (sign : Option Bool) :
    ∀ c ∈ exponentMark upper sign, c ∈ [minus, 0x2e, 0x45, 0x65, 0x2b] := by
  rcases upper with _ | _ <;> rcases sign with _ | _ | _ <;> simp [exponentMark]

theorem numberByte_exponent (e : Exponent) : ∀ c ∈ e.bytes, NumberByte c := by
  intro c hc
  rw [Exponent.bytes] at hc
  rcases List.mem_append.mp hc with hc | hc
  · exact .inr (numberByte_exponentMark _ _ c hc)
  · exact numberByte_digits _ c hc

theorem numberByte_number (n : Number) : ∀ c ∈ n.bytes, NumberByte c := by
  intro c hc
  obtain ⟨neg, int, frac, exp⟩ := n
  simp only [Number.bytes, List.mem_append] at hc
  rcases hc with ((hc | hc) | hc) | hc
  · cases neg with
    | false => simp at hc
    | true => exact .inr (by rw [List.mem_singleton.mp hc]; simp)
  · obtain ⟨d, hd, rfl⟩ := exists_digit_of_mem_decimal hc
    exact .inl (isdigit_digitByte hd)
  · cases frac with
    | none => simp at hc
    | some ds =>
      rcases List.mem_cons.mp hc with rfl | hc
      · exact .inr (by simp)
      · exact numberByte_digits ds c hc
  · cases exp with
    | none => simp at hc
    | some e => exact numberByte_exponent e c hc

theorem NumberByte.spec {c : UInt8} (h : NumberByte c) :
    0x20 ≤ c ∧ c ≠ lbrace ∧ c ≠ lbracket ∧ c ≠ colon ∧ c ≠ comma := by
  rcases h with h | h
  · have hdigit : ∀ n < 256, isdigit (UInt8.ofNat n) = true → 0x20 ≤ UInt8.ofNat n ∧
        UInt8.ofNat n ≠ lbrace ∧ UInt8.ofNat n ≠ lbracket ∧ UInt8.ofNat n ≠ colon ∧
        UInt8.ofNat n ≠ comma := by decide +kernel
    rw [← UInt8.ofNat_toNat (x := c)] at h ⊢
    exact hdigit c.toNat c.toNat_lt h
  · simp only [List.mem_cons, List.not_mem_nil, or_false] at h
    rcases h with rfl | rfl | rfl | rfl | rfl <;> decide

/-- Behind any value a comma is due. -/
theorem closed (t : Text) : JsonBuf.Closed t.bytes := by
  cases t with
  | scalar s =>
    refine closed_of_forall (scalar_bytes_ne_nil s) fun c hc => ?_
    cases s with
    | null => exact (by decide +kernel : ∀ c ∈ nullBytes, c ≠ lbrace ∧ c ≠ lbracket ∧ c ≠ colon ∧
        c ≠ comma) c hc
    | bool b =>
      exact (by decide +kernel : ∀ b, ∀ c ∈ (Scalar.bool b).bytes, c ≠ lbrace ∧ c ≠ lbracket ∧
        c ≠ colon ∧ c ≠ comma) b c hc
    | number n => exact (numberByte_number n c hc).spec.2
  | str us => exact ⟨_, quote, by rw [Text.bytes], by decide⟩
  | arr gap es => exact ⟨_, rbracket, by rw [Text.bytes], by decide⟩
  | obj gap ms => exact ⟨_, rbrace, by rw [Text.bytes], by decide⟩

/-! ## One line -/

/-- What can be checked byte by byte. -/
theorem printable_of_all {bs : Bytes} (h : bs.all (fun c => 0x20 ≤ c) = true) : Printable bs :=
  fun c hc => of_decide_eq_true (List.all_eq_true.mp h c hc)

/-- A text that is one line, without a NUL in it. -/
def OneLine (t : Text) : Prop := Printable t.bytes

theorem oneLine_number (n : Number) : OneLine (.scalar (.number n)) :=
  fun c hc => (numberByte_number n c hc).spec.1

theorem oneLine_string (s : CStr) : OneLine (string s) := by
  rw [OneLine, string_bytes]
  exact printable_literal s

theorem oneLine_int (i : Int64) : OneLine (int i) := by
  rw [OneLine, int_bytes]
  exact printable_render _

theorem oneLine_array {ts : List Text} (h : ∀ t ∈ ts, t.OneLine) : OneLine (array ts) := by
  rw [OneLine, array_bytes]
  refine printable_append (printable_append (printable_of_all rfl) (printable_intercalate ?_))
    (printable_of_all rfl)
  intro x hx
  obtain ⟨t, ht, rfl⟩ := List.mem_map.mp hx
  exact h t ht

theorem oneLine_object {ms : List (CStr × Text)} (h : ∀ m ∈ ms, m.2.OneLine) :
    OneLine (object ms) := by
  rw [OneLine, object_bytes]
  refine printable_append (printable_append (printable_of_all rfl) (printable_intercalate ?_))
    (printable_of_all rfl)
  intro x hx
  obtain ⟨m, hm, rfl⟩ := List.mem_map.mp hx
  exact printable_append (printable_append (printable_literal m.1) (printable_of_all rfl)) (h m hm)

end Text

/-! ## Writing -/

/-- **A value is written**: behind what the buffer holds, after a comma where one is due. -/
def Writes (w : JsonBuf → JsonBuf) (t : Text) : Prop :=
  ∀ jb, (w jb).bytes = jb.bytes ++ jb.sep ++ t.bytes

/-- **Members or elements are written**, separated by commas. -/
structure WritesAll (w : JsonBuf → JsonBuf) (bs : List Bytes) : Prop where
  closed : ∀ b ∈ bs, JsonBuf.Closed b
  bytes : ∀ jb, (w jb).bytes = jb.bytes ++ (if bs = [] then [] else jb.sep) ++
    [comma].intercalate bs

namespace Writes

theorem string (s : CStr) : Writes (fun jb => jb.string (some s)) (.string s) := by
  intro jb
  simp [JsonBuf.string, Text.string_bytes]

theorem int (i : Int64) : Writes (fun jb => jb.int i) (.int i) := by
  intro jb
  simp [JsonBuf.int, Text.int_bytes, render]

end Writes

namespace WritesAll

variable {f g w : JsonBuf → JsonBuf} {xs ys : List Bytes} {t : Text}

theorem nil : WritesAll (fun jb => jb) [] :=
  ⟨by simp, by simp⟩

/-- A value as the one element. -/
theorem elem (h : Writes w t) : WritesAll w [t.bytes] := by
  refine ⟨by simpa using t.closed, fun jb => ?_⟩
  rw [h jb, if_neg (by simp), List.intercalate_singleton]

/-- A value as the one member. -/
theorem member (k : CStr) (h : Writes w t) :
    WritesAll (fun jb => w (jb.key k)) [Text.memberBytes (k, t)] := by
  refine ⟨fun b hb => ?_, fun jb => ?_⟩
  · rw [List.mem_singleton.mp hb, Text.memberBytes]
    exact closed_append _ t.closed
  have hkey : (jb.key k).bytes = jb.bytes ++ jb.sep ++ literal k ++ [colon] := by
    simp [JsonBuf.key]
  rw [h, JsonBuf.sep_of_open hkey (by simp), hkey, if_neg (by simp), List.intercalate_singleton,
    Text.memberBytes]
  simp

/-- **One after the other.** -/
theorem append (hf : WritesAll f xs) (hg : WritesAll g ys) :
    WritesAll (fun jb => g (f jb)) (xs ++ ys) := by
  refine ⟨fun b hb => (List.mem_append.mp hb).elim (hf.closed b) (hg.closed b), fun jb => ?_⟩
  rw [hg.bytes, hf.bytes]
  rcases ys with _ | ⟨y, ys⟩
  · simp
  rcases List.eq_nil_or_concat xs with rfl | ⟨xs, x, rfl⟩
  · have hsep : (f jb).sep = jb.sep := by
      have hbytes : (f jb).bytes = jb.bytes := by simpa using hf.bytes jb
      rw [JsonBuf.sep, JsonBuf.sep, JsonBuf.needsComma, JsonBuf.needsComma, hbytes]
    simp [hsep]
  -- behind the last of the first ones a comma is due
  · have hbytes := hf.bytes jb
    have hcut : [comma].intercalate (xs ++ [x]) = xs.flatMap (· ++ [comma]) ++ x := by
      rw [intercalate_comma_append, List.flatMap_nil, List.append_nil]
    rw [List.concat_eq_append, hcut, ← List.append_assoc] at hbytes
    have hcomma := JsonBuf.needsComma_of_closed hbytes (hf.closed x (by simp))
    have hsep : (f jb).sep = [comma] := by rw [JsonBuf.sep, hcomma, if_pos rfl]
    rw [hsep, if_neg (by simp), if_neg (by simp), if_neg (by simp), List.concat_eq_append, hcut,
      List.append_assoc xs, List.singleton_append, intercalate_comma_append,
      intercalate_comma_cons]
    simp

/-- **A loop that writes.** -/
theorem foldl {α : Type*} {step : JsonBuf → α → JsonBuf} {g : α → List Bytes} {l : List α}
    (h : ∀ a ∈ l, WritesAll (fun jb => step jb a) (g a)) :
    WritesAll (fun jb => l.foldl step jb) (l.flatMap g) := by
  induction l with
  | nil => exact nil
  | cons a l ih =>
    rw [List.flatMap_cons]
    exact (h a List.mem_cons_self).append (ih fun b hb => h b (List.mem_cons_of_mem a hb))

end WritesAll

namespace Writes

variable {f : JsonBuf → JsonBuf}

/-- **An object**: what is written between its braces. -/
theorem obj (ms : List (CStr × Text)) (h : WritesAll f (ms.map Text.memberBytes)) :
    Writes (fun jb => (f jb.objStart).objEnd) (.object ms) := by
  intro jb
  have hopen : jb.objStart.bytes = jb.bytes ++ jb.sep ++ [lbrace] := by simp [JsonBuf.objStart]
  have hsep : jb.objStart.sep = [] := JsonBuf.sep_of_open hopen (by simp)
  change ((f jb.objStart).appendChar rbrace).bytes = _
  rw [JsonBuf.appendChar_bytes, h.bytes, hsep, hopen, Text.object_bytes]
  simp

/-- **An array**: what is written between its brackets. -/
theorem arr {ts : List Text} (h : WritesAll f (ts.map Text.bytes)) :
    Writes (fun jb => (f jb.arrStart).arrEnd) (.array ts) := by
  intro jb
  have hopen : jb.arrStart.bytes = jb.bytes ++ jb.sep ++ [lbracket] := by
    simp [JsonBuf.arrStart]
  have hsep : jb.arrStart.sep = [] := JsonBuf.sep_of_open hopen (by simp)
  change ((f jb.arrStart).appendChar rbracket).bytes = _
  rw [JsonBuf.appendChar_bytes, h.bytes, hsep, hopen, Text.array_bytes]
  simp

/-- What is written into an initialised buffer. -/
theorem init {t : Text} (h : Writes f t) : (f JsonBuf.init).bytes = t.bytes := by
  rw [h]
  rfl

end Writes

/-! ## Reading -/

/-- **A pointer to a value.** -/
def Starts (p : Bytes) (t : Text) : Prop := t.bytes <+: p

theorem starts_append (t : Text) (rest : Bytes) : Starts (t.bytes ++ rest) t :=
  List.prefix_append _ _

theorem starts_self (t : Text) : Starts t.bytes t := List.prefix_refl _

section Members

variable {k : CStr} {ms : List (CStr × Text)} {p : Bytes} {t : Text}

/-- The first member with a key the encoder writes as it is. -/
theorem firstMember_map (hk : ∀ b ∈ k.bytes, escape b = [b]) (ms : List (CStr × Text)) :
    (firstMember k.bytes (ms.map fun m => (⟨.empty, m.1.units, .empty, .empty⟩, m.2, .empty))).map
        (fun r => (r.1, r.2.1)) = (ms.lookup k).map fun t => (t, .empty) := by
  induction ms with
  | nil => rfl
  | cons m ms ih =>
    obtain ⟨k', t⟩ := m
    have hname : unitsBytes k'.units = k.bytes ↔ k = k' := by
      rw [unitsBytes_units, flatMap_escape_eq_iff hk]
      obtain ⟨bs, h⟩ := k
      obtain ⟨bs', h'⟩ := k'
      simp [eq_comm]
    rw [List.map_cons, firstMember, List.lookup_cons]
    by_cases h : k = k'
    · rw [if_pos (hname.mpr h), beq_iff_eq.mpr h]
      rfl
    · rw [if_neg (mt hname.mp h), beq_eq_false_iff_ne.mpr h]
      exact ih

theorem objGet_object (hk : ∀ b ∈ k.bytes, escape b = [b]) (hp : Starts p (.object ms)) :
    (objGet p k = none ∧ ms.lookup k = none) ∨ ∃ t rest, ms.lookup k = some t ∧
      objGet p k = some (t.bytes ++ rest, t.bytes.length) := by
  obtain ⟨rest, rfl⟩ := hp
  have hget := objGet_text k .empty .empty
    (ms.map fun m => (⟨.empty, m.1.units, .empty, .empty⟩, m.2, .empty)) rest
  rw [← Text.object, Ws.empty_bytes, List.nil_append] at hget
  have hfirst := firstMember_map hk ms
  rw [hget]
  cases hlookup : ms.lookup k with
  | none =>
    rw [hlookup, Option.map_none, Option.map_eq_none_iff] at hfirst
    exact .inl ⟨by rw [hfirst]; rfl, rfl⟩
  | some t =>
    rw [hlookup, Option.map_some] at hfirst
    obtain ⟨⟨t', after, post⟩, hfound, heq⟩ := Option.map_eq_some_iff.mp hfirst
    obtain ⟨rfl, rfl⟩ : t' = t ∧ after = Ws.empty := by simpa using heq
    have hvalue : valueBytes t' .empty = t'.bytes := by
      cases t' <;> first | rfl | exact List.append_nil _
    refine .inr ⟨t', membersTail post rest, rfl, ?_⟩
    rw [hfound, Option.map_some, hvalue, Ws.empty_bytes, List.append_nil]

/-- **A member that is there is found**, with its length. -/
theorem objGet_starts (hk : ∀ b ∈ k.bytes, escape b = [b]) (hp : Starts p (.object ms))
    (h : ms.lookup k = some t) :
    ∃ q, objGet p k = some (q, t.bytes.length) ∧ Starts q t := by
  rcases objGet_object hk hp with ⟨-, hnone⟩ | ⟨t', rest, hsome, hget⟩
  · rw [hnone] at h
    cases h
  · obtain rfl : t' = t := Option.some_inj.mp (hsome.symm.trans h)
    exact ⟨_, hget, starts_append t' rest⟩

/-- A member that is not there is not found. -/
theorem objGet_starts_none (hk : ∀ b ∈ k.bytes, escape b = [b]) (hp : Starts p (.object ms))
    (h : ms.lookup k = none) : objGet p k = none := by
  rcases objGet_object hk hp with ⟨hget, -⟩ | ⟨t', rest, hsome, -⟩
  · exact hget
  · rw [hsome] at h
    cases h

end Members

theorem elemSlices_starts (rest : Bytes) (ts : List Text) :
    List.Forall₂ (fun e t => Starts e.1 t)
      (elemSlices rest (ts.map fun t => (.empty, t, .empty))) ts := by
  induction ts with
  | nil => exact .nil
  | cons t ts ih =>
    refine .cons ?_ ih
    rw [Ws.empty_bytes, List.append_nil]
    exact starts_append t _

/-- **The iteration meets the elements in order.** -/
theorem walkArr_starts {p : Bytes} {ts : List Text} (hp : Starts p (.array ts)) :
    List.Forall₂ Starts ((walkArr p).map Prod.fst) ts := by
  obtain ⟨rest, rfl⟩ := hp
  have hwalk := walkArr_text .empty .empty (ts.map fun t => (.empty, t, .empty)) rest
  rw [← Text.array, Ws.empty_bytes, List.nil_append] at hwalk
  rw [hwalk, List.forall₂_map_left_iff]
  exact elemSlices_starts rest ts

/-- An integer is read back. -/
theorem parseInt_starts {q : Bytes} {i : Int64} (hq : Starts q (.int i)) (out : ℤ) :
    parseInt q (Text.int i).bytes.length out = (true, i.toInt) := by
  obtain ⟨rest, rfl⟩ := hq
  rw [Text.int_bytes]
  exact parseInt_render i rest out

/-- A string is read back, as far as there is room. -/
theorem parseStr_starts {q : Bytes} {s : CStr} (hq : Starts q (.string s)) {size : UInt64}
    (hsize : 0 < size) :
    parseStr q (Text.string s).bytes.length size =
      some ((s.bytes.flatMap reread).take (size.toNat - 1)) := by
  obtain ⟨rest, rfl⟩ := hq
  rw [Text.string_bytes]
  exact parseStr_literal s hsize rest

/-- **A string without control characters is read back**, where there is room for it. -/
theorem parseStr_starts_plain {q : Bytes} {s : CStr} (hq : Starts q (.string s)) {size : UInt64}
    (hroom : s.bytes.length < size.toNat) (hplain : ∀ b ∈ s.bytes, 0x20 ≤ b) :
    parseStr q (Text.string s).bytes.length size = some s.bytes := by
  have hsize : 0 < size := UInt64.lt_iff_toNat_lt.mpr (Nat.zero_lt_of_lt hroom)
  have hsame : (s.bytes.flatMap reread).take (size.toNat - 1) = s.bytes.take (size.toNat - 1) :=
    (take_flatMap_reread_iff _ _).mpr fun b hb hlong =>
      absurd hlong.1 (UInt8.not_lt.mpr (hplain b (List.mem_of_mem_take hb)))
  rw [parseStr_starts hq hsize, hsame, List.take_of_length_le (by omega)]

end Nsr
