import Nsr.Json.Decoder
import Nsr.Lib.Checked

/-!
# The decoder stays in its text

The walker of `src/json/json.c` once more, now with pointers as positions in memory and with every
read checked.  The memory is a text and the NUL behind it; a position behind the NUL cannot be read.
Every loop and every call is given a number of rounds and gets stuck when it needs more.

The walker of `Nsr.Json.Decoder` is this one with the suffix of the text in place of the position of
its first byte (`ptr`).  So nothing behind the NUL is ever read, all pointers stay in the text, and
twice the length of a text is as many rounds as any of the functions takes.

* `Scanner`, `readAt`: computations that may read out of bounds or run out of rounds.
* `skipWsAt`, `skipStrAt`, `skipValueAt`, `objGetAt`, `arrFirstAt`, `arrNextAt`, `walkArrAt`: the
  functions of the source.
* `skipValueAt_ptr`, `objGetAt_ptr`, `walkArrAt_ptr` and so on: what they do to a suffix.
* `scanner_total`: they are total, on any text.
-/

namespace Nsr

open Ascii Checked

/-- **A walk through memory.**  It is stuck when it has too few rounds, and an error where it reads
out of bounds. -/
abbrev Scanner := ExceptT Panic Option

section Source

variable (mem : Bytes)

/-- Too few rounds. -/
def stuck {α : Type} : Scanner α :=
  ExceptT.mk none

/-- `*p`. -/
def readAt (p : ℕ) : Scanner UInt8 :=
  ExceptT.mk (some (byte mem p))

/-! ## The walker -/

/-- `while (*p && test(*p)) p++; return p;`. -/
def skipWhileAt (test : UInt8 → Bool) : ℕ → ℕ → Scanner ℕ
  | 0, _ => stuck
  | n + 1, p => do
    let c ← readAt mem p
    if c ≠ 0 ∧ test c = true then skipWhileAt test n (p + 1) else return p

/-- `skip_ws`. -/
def skipWsAt (n p : ℕ) : Scanner ℕ :=
  skipWhileAt mem isspace n p

/-- `*p == '\\' && p[1]`. -/
def escapesAt (c : UInt8) (p : ℕ) : Scanner Bool :=
  if c = backslash then do
    let d ← readAt mem (p + 1)
    return d != 0
  else return false

/-- The loop of `skip_str`. -/
def skipStrBodyAt : ℕ → ℕ → Scanner (Option ℕ)
  | 0, _ => stuck
  | n + 1, p => do
    let c ← readAt mem p
    if c = 0 then return none
    else
      let escapes ← escapesAt mem c p
      if escapes = true then skipStrBodyAt n (p + 2)
      else if c = quote then return some (p + 1)
      else skipStrBodyAt n (p + 1)

/-- `skip_str`. -/
def skipStrAt (n p : ℕ) : Scanner (Option ℕ) := do
  let c ← readAt mem p
  if c = quote then skipStrBodyAt mem n (p + 1) else return none

/-- The last loop of `skip_value`. -/
def skipScalarAt (n p : ℕ) : Scanner ℕ :=
  skipWhileAt mem (fun c => c != comma && c != rbrace && c != rbracket) n p

mutual

/-- **`skip_value`.** -/
def skipValueAt : ℕ → ℕ → Scanner (Option ℕ)
  | 0, _ => stuck
  | n + 1, p => do
    let p ← skipWsAt mem n p
    let c ← readAt mem p
    if c = quote then skipStrAt mem n p
    else if c = lbrace then skipMembersAt n (p + 1)
    else if c = lbracket then skipElemsAt n (p + 1)
    else
      let p ← skipScalarAt mem n p
      return some p

/-- The loop of `skip_value` over the members of an object. -/
def skipMembersAt : ℕ → ℕ → Scanner (Option ℕ)
  | 0, _ => stuck
  | n + 1, p => do
    let p ← skipWsAt mem n p
    let c ← readAt mem p
    if c = rbrace then return some (p + 1)
    else if c = quote then
      match ← skipStrAt mem n p with
      | none => return none
      | some p =>
        let p ← skipWsAt mem n p
        let c ← readAt mem p
        match ← skipValueAt n (if c = colon then p + 1 else p) with
        | none => return none
        | some p =>
          let p ← skipWsAt mem n p
          let c ← readAt mem p
          if c = comma then skipMembersAt n (p + 1)
          else if c = rbrace then return some (p + 1)
          else return none
    else return none

/-- The loop of `skip_value` over the elements of an array. -/
def skipElemsAt : ℕ → ℕ → Scanner (Option ℕ)
  | 0, _ => stuck
  | n + 1, p => do
    let p ← skipWsAt mem n p
    let c ← readAt mem p
    if c = rbracket then return some (p + 1)
    else
      match ← skipValueAt n p with
      | none => return none
      | some p =>
        let p ← skipWsAt mem n p
        let c ← readAt mem p
        if c = comma then skipElemsAt n (p + 1)
        else if c = rbracket then return some (p + 1)
        else return none

end

/-! ## Members and elements -/

/-- `strncmp(p, key, strlen(key)) == 0`. -/
def strncmpAt : ℕ → Bytes → Scanner Bool
  | _, [] => return true
  | p, k :: ks => do
    let c ← readAt mem p
    if c = k then strncmpAt (p + 1) ks else return false

/-- `strlen(key) == key_len && strncmp(key_start, key, key_len) == 0`. -/
def matchAt (key : CStr) (keyStart keyLen : ℕ) : Scanner Bool :=
  if key.bytes.length = keyLen then strncmpAt mem keyStart key.bytes else return false

/-- The loop of `nsr_json_obj_get`. -/
def objGetLoopAt (key : CStr) : ℕ → ℕ → Scanner (Option (ℕ × ℕ))
  | 0, _ => stuck
  | n + 1, p => do
    let p ← skipWsAt mem n p
    let c ← readAt mem p
    if c = rbrace then return none
    else if c ≠ quote then return none
    else
      match ← skipStrAt mem n p with
      | none => return none
      | some keyEnd =>
        let isMatch ← matchAt mem key (p + 1) (keyEnd - (p + 1) - 1)
        let p ← skipWsAt mem n keyEnd
        let c ← readAt mem p
        if c ≠ colon then return none
        else
          let valStart ← skipWsAt mem n (p + 1)
          match ← skipValueAt mem n valStart with
          | none => return none
          | some valEnd =>
            if isMatch = true then return some (valStart, valEnd - valStart)
            else
              let p ← skipWsAt mem n valEnd
              let c ← readAt mem p
              if c = comma then objGetLoopAt key n (p + 1) else return none

/-- **`nsr_json_obj_get`.** -/
def objGetAt (n json : ℕ) (key : CStr) : Scanner (Option (ℕ × ℕ)) := do
  let p ← skipWsAt mem n json
  let c ← readAt mem p
  if c ≠ lbrace then return none else objGetLoopAt mem key n (p + 1)

/-- What a call of the array iteration returns, and what it stores where it stores anything. -/
structure CursorAt where
  elem : Option ℕ
  next : Option ℕ
  deriving DecidableEq

/-- The element at `p`. -/
def elemAt (n p : ℕ) : Scanner CursorAt := do
  match ← skipValueAt mem n p with
  | none => return ⟨none, none⟩
  | some next => return ⟨some p, some next⟩

/-- **`nsr_json_arr_first`.** -/
def arrFirstAt (n json : ℕ) : Scanner CursorAt := do
  let p ← skipWsAt mem n json
  let c ← readAt mem p
  if c ≠ lbracket then return ⟨none, none⟩
  else
    let p ← skipWsAt mem n (p + 1)
    let c ← readAt mem p
    if c = rbracket then return ⟨none, some (p + 1)⟩ else elemAt mem n p

/-- **`nsr_json_arr_next`.** -/
def arrNextAt (n next : ℕ) : Scanner CursorAt := do
  let p ← skipWsAt mem n next
  let c ← readAt mem p
  if c = comma then
    let p ← skipWsAt mem n (p + 1)
    elemAt mem n p
  else if c = rbracket then return ⟨none, some (p + 1)⟩
  else return ⟨none, none⟩

/-- The loop `while (elem) { ...; elem = nsr_json_arr_next(next, &next); }`, with the elements met
so far and where each ends. -/
def arrLoopAt : ℕ → CursorAt → List (ℕ × ℕ) → Scanner (List (ℕ × ℕ))
  | 0, _, _ => stuck
  | n + 1, c, met =>
    match c.elem, c.next with
    | some elem, some next => do
      let c ← arrNextAt mem n next
      arrLoopAt n c (met ++ [(elem, next)])
    | _, _ => return met

/-- **The whole iteration over an array.** -/
def walkArrAt (n json : ℕ) : Scanner (List (ℕ × ℕ)) := do
  let c ← arrFirstAt mem n json
  arrLoopAt mem n c []

end Source

/-! ## Positions of suffixes -/

/-- A text in memory. -/
def CStr.memory (text : CStr) : Bytes :=
  text.bytes ++ [0]

/-- Where a suffix of a text begins. -/
def ptr (text : CStr) (q : Bytes) : ℕ :=
  text.bytes.length - q.length

section Walker

variable {text : CStr} {q : Bytes}

theorem ptr_le (q : Bytes) : ptr text q ≤ text.bytes.length :=
  Nat.sub_le _ _

theorem ptr_le_ptr {q' : Bytes} (h : q' <:+ q) : ptr text q ≤ ptr text q' :=
  Nat.sub_le_sub_left h.length_le _

theorem ptr_sub_ptr {q' : Bytes} (hq : q <:+ text.bytes) (h : q' <:+ q) :
    ptr text q' - ptr text q = q.length - q'.length := by
  have hle := hq.length_le
  have hle' := h.length_le
  rw [ptr, ptr]
  omega

theorem ptr_succ {c : UInt8} (hq : c :: q <:+ text.bytes) :
    ptr text (c :: q) + 1 = ptr text q := by
  have hle := hq.length_le
  rw [List.length_cons] at hle
  rw [ptr, ptr, List.length_cons]
  omega

theorem ptr_tail (hq : q <:+ text.bytes) (h : peek q ≠ 0) : ptr text q + 1 = ptr text q.tail := by
  cases q with
  | nil => exact absurd rfl h
  | cons c q => exact ptr_succ hq

/-- Behind the first byte of a suffix, when it is known which one that is. -/
theorem behind_ptr {c : UInt8} (hq : q <:+ text.bytes) (hpeek : peek q = c) (hc : c ≠ 0) :
    ptr text q + 1 = ptr text q.tail ∧ q.tail <:+ text.bytes ∧ q.tail.length < q.length := by
  subst hpeek
  exact ⟨ptr_tail hq hc, (List.tail_suffix q).trans hq, tail_length_lt hc⟩

/-- **Reading at a suffix**: its first byte, or the NUL. -/
theorem readAt_ptr (hq : q <:+ text.bytes) :
    readAt text.memory (ptr text q) = pure (peek q) := by
  obtain ⟨l, hl⟩ := hq
  have hptr : ptr text q = l.length := by
    rw [ptr, ← hl, List.length_append, Nat.add_sub_cancel]
  have hget : (text.memory)[l.length]? = some (peek q) := by
    rw [CStr.memory, ← hl, List.append_assoc, List.getElem?_append_right (Nat.le_refl _),
      Nat.sub_self]
    cases q with
    | nil => rfl
    | cons c q => rfl
  rw [readAt, hptr, byte_eq hget]
  rfl

theorem ne_zero_of_suffix {c : UInt8} (hq : c :: q <:+ text.bytes) : c ≠ 0 := by
  rintro rfl
  exact text.nul_free (hq.subset List.mem_cons_self)

theorem suffix_of_cons {c : UInt8} (hq : c :: q <:+ text.bytes) : q <:+ text.bytes :=
  (List.suffix_cons c q).trans hq

/-! ## The walker on suffixes -/

theorem skipWhileAt_ptr (test : UInt8 → Bool) (hq : q <:+ text.bytes) {n : ℕ}
    (hn : q.length + 1 ≤ n) :
    skipWhileAt text.memory test n (ptr text q) = pure (ptr text (q.dropWhile test)) := by
  obtain ⟨n, rfl⟩ : ∃ m, n = m + 1 := ⟨n - 1, by omega⟩
  induction q generalizing n with
  | nil =>
    rw [skipWhileAt, readAt_ptr hq, pure_bind, if_neg fun h => h.1 rfl]
    rfl
  | cons c q ih =>
    rw [List.length_cons] at hn
    rw [skipWhileAt, readAt_ptr hq, pure_bind, peek_cons]
    by_cases hc : test c = true
    · obtain ⟨n, rfl⟩ : ∃ m, n = m + 1 := ⟨n - 1, by omega⟩
      rw [if_pos ⟨ne_zero_of_suffix hq, hc⟩, ptr_succ hq, ih (suffix_of_cons hq) n (by omega),
        List.dropWhile_cons_of_pos hc]
    · rw [if_neg fun h => hc h.2, List.dropWhile_cons_of_neg hc]

theorem skipWsAt_ptr (hq : q <:+ text.bytes) {n : ℕ} (hn : q.length + 1 ≤ n) :
    skipWsAt text.memory n (ptr text q) = pure (ptr text (skipWs q)) :=
  skipWhileAt_ptr _ hq hn

theorem skipScalarAt_ptr (hq : q <:+ text.bytes) {n : ℕ} (hn : q.length + 1 ≤ n) :
    skipScalarAt text.memory n (ptr text q) = pure (ptr text (skipScalar q)) :=
  skipWhileAt_ptr _ hq hn

/-- A backslash that is the last byte escapes nothing. -/
theorem escapesAt_ptr {c : UInt8} (hq : c :: q <:+ text.bytes) :
    escapesAt text.memory c (ptr text (c :: q)) = pure (c == backslash && !q.isEmpty) := by
  rw [escapesAt]
  by_cases hc : c = backslash
  · rw [if_pos hc, ptr_succ hq, readAt_ptr (suffix_of_cons hq), pure_bind, hc]
    cases q with
    | nil => rfl
    | cons d q =>
      have hd := ne_zero_of_suffix (suffix_of_cons hq)
      rw [peek_cons, bne_iff_ne.mpr hd]
      rfl
  · rw [if_neg hc, beq_eq_false_iff_ne.mpr hc]
    rfl

theorem skipStrBodyAt_ptr (hq : q <:+ text.bytes) {n : ℕ} (hn : q.length + 1 ≤ n) :
    skipStrBodyAt text.memory n (ptr text q) = pure ((skipStrBody q).map (ptr text)) := by
  obtain ⟨n, rfl⟩ : ∃ m, n = m + 1 := ⟨n - 1, by omega⟩
  fun_induction skipStrBody q generalizing n with
  | case1 =>
    rw [skipStrBodyAt, readAt_ptr hq, pure_bind]
    rfl
  | case2 =>
    rw [skipStrBodyAt, readAt_ptr hq, pure_bind, peek_cons, if_neg (ne_zero_of_suffix hq),
      escapesAt_ptr hq, pure_bind, ptr_succ hq]
    rfl
  | case3 c hc =>
    obtain ⟨n, rfl⟩ : ∃ m, n = m + 1 := ⟨n - 1, by rw [List.length_singleton] at hn; omega⟩
    have hnil := suffix_of_cons hq
    rw [skipStrBodyAt, readAt_ptr hq, pure_bind, peek_cons, if_neg (ne_zero_of_suffix hq),
      escapesAt_ptr hq, pure_bind, List.isEmpty_nil, Bool.not_true, Bool.and_false,
      if_neg Bool.false_ne_true, if_neg hc, ptr_succ hq, skipStrBodyAt, readAt_ptr hnil, pure_bind]
    rfl
  | case4 d q ih =>
    rw [List.length_cons, List.length_cons] at hn
    obtain ⟨n, rfl⟩ : ∃ m, n = m + 1 := ⟨n - 1, by omega⟩
    have hd := suffix_of_cons hq
    have hescape : (backslash == backslash && !(d :: q).isEmpty) = true := rfl
    rw [skipStrBodyAt, readAt_ptr hq, pure_bind, peek_cons, if_neg (ne_zero_of_suffix hq),
      escapesAt_ptr hq, pure_bind, if_pos hescape, ← Nat.add_assoc (ptr text _) 1 1, ptr_succ hq,
      ptr_succ hd, ih (suffix_of_cons hd) n (by omega)]
  | case5 d q =>
    rw [skipStrBodyAt, readAt_ptr hq, pure_bind, peek_cons, if_neg (ne_zero_of_suffix hq),
      escapesAt_ptr hq, pure_bind, ptr_succ hq]
    rfl
  | case6 c d q hc hquote ih =>
    rw [List.length_cons, List.length_cons] at hn
    obtain ⟨n, rfl⟩ : ∃ m, n = m + 1 := ⟨n - 1, by omega⟩
    have hplain : (c == backslash) = false := beq_eq_false_iff_ne.mpr hc
    rw [skipStrBodyAt, readAt_ptr hq, pure_bind, peek_cons, if_neg (ne_zero_of_suffix hq),
      escapesAt_ptr hq, pure_bind, hplain, Bool.false_and, if_neg Bool.false_ne_true,
      if_neg hquote, ptr_succ hq,
      ih (suffix_of_cons hq) n (by rw [List.length_cons]; omega)]

theorem skipStrAt_ptr (hq : q <:+ text.bytes) {n : ℕ} (hn : q.length + 1 ≤ n) :
    skipStrAt text.memory n (ptr text q) = pure ((skipStr q).map (ptr text)) := by
  rw [skipStrAt, readAt_ptr hq, pure_bind, skipStr]
  by_cases hp : peek q = quote
  · obtain ⟨hptr, htail, hlen⟩ := behind_ptr hq hp (by decide)
    rw [if_pos hp, if_pos hp, hptr, skipStrBodyAt_ptr htail (by omega)]
  · rw [if_neg hp, if_neg hp]
    rfl

/-! ## Values on suffixes -/

/-- What both loops do behind a value: go on behind a comma, end behind the closing byte. -/
theorem afterValue_ptr {close : UInt8} (hclose : close ≠ 0) {f : ℕ → Scanner (Option ℕ)}
    {g : Bytes → Option Bytes} (hq : q <:+ text.bytes) {n : ℕ} (hn : q.length + 1 ≤ n)
    (hf : ∀ {q' : Bytes}, q' <:+ text.bytes → q'.length < q.length →
      f (ptr text q') = pure ((g q').map (ptr text))) :
    (do
      let p ← skipWsAt text.memory n (ptr text q)
      let c ← readAt text.memory p
      if c = comma then f (p + 1)
      else if c = close then return some (p + 1)
      else return none) =
    pure ((if peek (skipWs q) = comma then g (skipWs q).tail
      else if peek (skipWs q) = close then some (skipWs q).tail
      else none).map (ptr text)) := by
  have hws := (skipWs_suffix q).trans hq
  have hlen := (skipWs_suffix q).length_le
  rw [skipWsAt_ptr hq hn, pure_bind, readAt_ptr hws, pure_bind]
  split
  · next hb =>
    obtain ⟨hptr, htail, ht⟩ := behind_ptr hws hb (by decide)
    rw [hptr]
    exact hf htail (by omega)
  split
  · next hb =>
    rw [(behind_ptr hws hb hclose).1]
    rfl
  · rfl

section Value

variable {n : ℕ}
  (ihv : ∀ {q : Bytes}, q <:+ text.bytes → 2 * q.length + 2 ≤ n →
    skipValueAt text.memory n (ptr text q) = pure ((skipValue q).map (ptr text)))
  (ihm : ∀ {q : Bytes}, q <:+ text.bytes → 2 * q.length + 3 ≤ n →
    skipMembersAt text.memory n (ptr text q) = pure ((skipMembers q).map (ptr text)))
  (ihe : ∀ {q : Bytes}, q <:+ text.bytes → 2 * q.length + 3 ≤ n →
    skipElemsAt text.memory n (ptr text q) = pure ((skipElems q).map (ptr text)))

include ihm ihe in
theorem skipValueAt_step (hq : q <:+ text.bytes) (hn : 2 * q.length + 2 ≤ n + 1) :
    skipValueAt text.memory (n + 1) (ptr text q) = pure ((skipValue q).map (ptr text)) := by
  have hws := (skipWs_suffix q).trans hq
  have hlen := (skipWs_suffix q).length_le
  rw [skipValueAt, skipWsAt_ptr hq (by omega), pure_bind, readAt_ptr hws, pure_bind, skipValue_eq]
  split
  · exact skipStrAt_ptr hws (by omega)
  split
  · next hb =>
    obtain ⟨hptr, htail, ht⟩ := behind_ptr hws hb (by decide)
    rw [hptr]
    exact ihm htail (by omega)
  split
  · next hb =>
    obtain ⟨hptr, htail, ht⟩ := behind_ptr hws hb (by decide)
    rw [hptr]
    exact ihe htail (by omega)
  · rw [skipScalarAt_ptr hws (by omega), pure_bind]
    rfl

include ihv ihe in
theorem skipElemsAt_step (hq : q <:+ text.bytes) (hn : 2 * q.length + 3 ≤ n + 1) :
    skipElemsAt text.memory (n + 1) (ptr text q) = pure ((skipElems q).map (ptr text)) := by
  have hws := (skipWs_suffix q).trans hq
  have hlen := (skipWs_suffix q).length_le
  rw [skipElemsAt, skipWsAt_ptr hq (by omega), pure_bind, readAt_ptr hws, pure_bind, skipElems_eq]
  split
  · next hb =>
    rw [(behind_ptr hws hb (by decide)).1]
    rfl
  · rw [ihv hws (by omega), pure_bind]
    rcases hv : skipValue (skipWs q) with _ | r
    · rfl
    · have hr := (skipValue_suffix hv).trans hws
      have hrl := (skipValue_suffix hv).length_le
      exact afterValue_ptr (by decide) hr (by omega) fun hq' hlt => ihe hq' (by omega)

include ihv ihm in
theorem skipMembersAt_step (hq : q <:+ text.bytes) (hn : 2 * q.length + 3 ≤ n + 1) :
    skipMembersAt text.memory (n + 1) (ptr text q) = pure ((skipMembers q).map (ptr text)) := by
  have hws := (skipWs_suffix q).trans hq
  have hlen := (skipWs_suffix q).length_le
  rw [skipMembersAt, skipWsAt_ptr hq (by omega), pure_bind, readAt_ptr hws, pure_bind,
    skipMembers_eq]
  split
  · next hb =>
    rw [(behind_ptr hws hb (by decide)).1]
    rfl
  split
  · rw [skipStrAt_ptr hws (by omega), pure_bind]
    rcases hk : skipStr (skipWs q) with _ | k
    · rfl
    · have hksuf := (skipStr_suffix hk).1.trans hws
      have hkl := (skipStr_suffix hk).2
      have hkws := (skipWs_suffix k).trans hksuf
      have hkwl := (skipWs_suffix k).length_le
      rw [Option.map_some, Option.bind_some]
      dsimp only
      rw [skipWsAt_ptr hksuf (by omega), pure_bind, readAt_ptr hkws, pure_bind]
      -- the colon is skipped where there is one
      obtain ⟨v, hvdef, hvptr, hvsuf, hvl⟩ : ∃ v,
          (if peek (skipWs k) = colon then (skipWs k).tail else skipWs k) = v ∧
          (if peek (skipWs k) = colon then ptr text (skipWs k) + 1 else ptr text (skipWs k)) =
            ptr text v ∧ v <:+ text.bytes ∧ v.length ≤ k.length := by
        refine ⟨_, rfl, ?_⟩
        split
        · next hc =>
          obtain ⟨hptr, htail, ht⟩ := behind_ptr hkws hc (by decide)
          exact ⟨hptr, htail, by omega⟩
        · exact ⟨rfl, hkws, hkwl⟩
      rw [hvdef, hvptr, ihv hvsuf (by omega), pure_bind]
      rcases hv : skipValue v with _ | r
      · rfl
      · have hr := (skipValue_suffix hv).trans hvsuf
        have hrl := (skipValue_suffix hv).length_le
        exact afterValue_ptr (by decide) hr (by omega) fun hq' hlt => ihm hq' (by omega)
  · rfl

end Value

/-- **The walker on suffixes**, the value and its two loops together: two rounds for each byte are
enough. -/
theorem skipAt_ptr (n : ℕ) :
    (∀ {q : Bytes}, q <:+ text.bytes → 2 * q.length + 2 ≤ n →
      skipValueAt text.memory n (ptr text q) = pure ((skipValue q).map (ptr text))) ∧
    (∀ {q : Bytes}, q <:+ text.bytes → 2 * q.length + 3 ≤ n →
      skipMembersAt text.memory n (ptr text q) = pure ((skipMembers q).map (ptr text))) ∧
    (∀ {q : Bytes}, q <:+ text.bytes → 2 * q.length + 3 ≤ n →
      skipElemsAt text.memory n (ptr text q) = pure ((skipElems q).map (ptr text))) := by
  induction n with
  | zero => exact ⟨fun _ h => by omega, fun _ h => by omega, fun _ h => by omega⟩
  | succ n ih =>
    obtain ⟨ihv, ihm, ihe⟩ := ih
    exact ⟨skipValueAt_step ihm ihe, skipMembersAt_step ihv ihm, skipElemsAt_step ihv ihe⟩

/-- **`skip_value` on a suffix.** -/
theorem skipValueAt_ptr (hq : q <:+ text.bytes) {n : ℕ} (hn : 2 * q.length + 2 ≤ n) :
    skipValueAt text.memory n (ptr text q) = pure ((skipValue q).map (ptr text)) :=
  (skipAt_ptr n).1 hq hn

/-! ## Members and elements on suffixes -/

theorem strncmpAt_ptr (hq : q <:+ text.bytes) {ks : Bytes} (hks : 0 ∉ ks) :
    strncmpAt text.memory (ptr text q) ks = pure (q.take ks.length == ks) := by
  induction ks generalizing q with
  | nil =>
    rw [strncmpAt, List.length_nil, List.take_zero]
    rfl
  | cons k ks ih =>
    obtain ⟨hk, hks⟩ := not_or.mp (mt List.mem_cons.mpr hks)
    rw [strncmpAt, readAt_ptr hq, pure_bind]
    cases q with
    | nil =>
      rw [if_neg (show peek [] ≠ k from hk)]
      rfl
    | cons c q =>
      rw [peek_cons, ptr_succ hq, ih (suffix_of_cons hq) hks, List.length_cons,
        List.take_succ_cons]
      by_cases hc : c = k
      · rw [if_pos hc, List.cons_beq_cons, beq_iff_eq.mpr hc, Bool.true_and]
      · rw [if_neg hc, List.cons_beq_cons, beq_eq_false_iff_ne.mpr hc, Bool.false_and]

/-- The comparison of a key, which stays in the key. -/
theorem matchAt_ptr (hq : q <:+ text.bytes) (key : CStr) (keyLen : ℕ) :
    matchAt text.memory key (ptr text q) keyLen =
      pure (key.bytes.length == keyLen && q.take keyLen == key.bytes.take keyLen) := by
  rw [matchAt]
  by_cases hlen : key.bytes.length = keyLen
  · subst hlen
    rw [if_pos rfl, strncmpAt_ptr hq key.nul_free, List.take_length, beq_self_eq_true,
      Bool.true_and]
  · rw [if_neg hlen, beq_eq_false_iff_ne.mpr hlen, Bool.false_and]

theorem objGetLoopAt_ptr (key : CStr) (hq : q <:+ text.bytes) {n : ℕ}
    (hn : 2 * q.length + 3 ≤ n) :
    objGetLoopAt text.memory key n (ptr text q) =
      pure (((objGetLoop key).run q).map (Prod.map (ptr text) id)) := by
  induction n generalizing q with
  | zero => omega
  | succ n ih =>
    have hws := (skipWs_suffix q).trans hq
    have hlen := (skipWs_suffix q).length_le
    rw [objGetLoopAt, skipWsAt_ptr hq (by omega), pure_bind, readAt_ptr hws, pure_bind,
      objGetLoop_run, objGetRound]
    dsimp only
    split
    · rfl
    split
    · rfl
    next hquote =>
    obtain ⟨hptr, htail, -⟩ := behind_ptr hws (not_not.mp hquote) (by decide)
    rw [skipStrAt_ptr hws (by omega), pure_bind]
    rcases hk : skipStr (skipWs q) with _ | k
    · rfl
    have hkq := skipStr_suffix hk
    have hks := hkq.1.trans hws
    have hkws := (skipWs_suffix k).trans hks
    have hkwl := (skipWs_suffix k).length_le
    have hktail : k <:+ (skipWs q).tail := by
      refine List.suffix_of_suffix_length_le hks htail ?_
      rw [List.length_tail]
      omega
    simp only [Option.map_some]
    rw [hptr, ptr_sub_ptr htail hktail, matchAt_ptr htail, pure_bind,
      skipWsAt_ptr hks (by omega), pure_bind, readAt_ptr hkws, pure_bind]
    split
    · rfl
    next hcolon =>
    obtain ⟨hcptr, hcs, hct⟩ := behind_ptr hkws (not_not.mp hcolon) (by decide)
    have hvs := (skipWs_suffix (skipWs k).tail).trans hcs
    have hvl := (skipWs_suffix (skipWs k).tail).length_le
    rw [hcptr, skipWsAt_ptr hcs (by omega), pure_bind,
      skipValueAt_ptr hvs (by omega), pure_bind]
    rcases hv : skipValue (skipWs (skipWs k).tail) with _ | r
    · rfl
    have hrv := skipValue_suffix hv
    have hrs := hrv.trans hvs
    have hrl := hrv.length_le
    have hrws := (skipWs_suffix r).trans hrs
    have hrwl := (skipWs_suffix r).length_le
    simp only [Option.map_some]
    split
    · rw [ptr_sub_ptr hvs hrv]
      rfl
    rw [skipWsAt_ptr hrs (by omega), pure_bind, readAt_ptr hrws, pure_bind]
    split
    · next hcomma =>
      obtain ⟨hrptr, hrtail, hrt⟩ := behind_ptr hrws hcomma (by decide)
      rw [hrptr, ih hrtail (by omega)]
      rfl
    · rfl

/-- **`nsr_json_obj_get` on a suffix.** -/
theorem objGetAt_ptr (key : CStr) (hq : q <:+ text.bytes) {n : ℕ} (hn : 2 * q.length + 3 ≤ n) :
    objGetAt text.memory n (ptr text q) key =
      pure ((objGet q key).map (Prod.map (ptr text) id)) := by
  have hws := (skipWs_suffix q).trans hq
  have hlen := (skipWs_suffix q).length_le
  rw [objGetAt, skipWsAt_ptr hq (by omega), pure_bind, readAt_ptr hws, pure_bind, objGet]
  split
  · rfl
  · next hb =>
    obtain ⟨hptr, htail, ht⟩ := behind_ptr hws (not_not.mp hb) (by decide)
    rw [hptr, objGetLoopAt_ptr key htail (by omega)]

/-- The positions of a cursor. -/
def Cursor.positions (text : CStr) (c : Cursor) : CursorAt :=
  ⟨c.elem.map (ptr text), c.next.map (ptr text)⟩

theorem elemAt_ptr (hq : q <:+ text.bytes) {n : ℕ} (hn : 2 * q.length + 2 ≤ n) :
    elemAt text.memory n (ptr text q) = pure ((cursorAt q).positions text) := by
  rw [elemAt, skipValueAt_ptr hq hn, pure_bind, cursorAt]
  cases skipValue q with
  | none => rfl
  | some r => rfl

/-- **`nsr_json_arr_first` on a suffix.** -/
theorem arrFirstAt_ptr (hq : q <:+ text.bytes) {n : ℕ} (hn : 2 * q.length + 2 ≤ n) :
    arrFirstAt text.memory n (ptr text q) = pure ((arrFirst q).positions text) := by
  have hws := (skipWs_suffix q).trans hq
  have hlen := (skipWs_suffix q).length_le
  rw [arrFirstAt, skipWsAt_ptr hq (by omega), pure_bind, readAt_ptr hws, pure_bind, arrFirst]
  dsimp only
  split
  · rfl
  · next hb =>
    obtain ⟨hptr, hts, ht⟩ := behind_ptr hws (not_not.mp hb) (by decide)
    have htws := (skipWs_suffix (skipWs q).tail).trans hts
    have htwl := (skipWs_suffix (skipWs q).tail).length_le
    rw [hptr, skipWsAt_ptr hts (by omega), pure_bind, readAt_ptr htws, pure_bind]
    split
    · next hc =>
      rw [(behind_ptr htws hc (by decide)).1]
      rfl
    · exact elemAt_ptr htws (by omega)

/-- **`nsr_json_arr_next` on a suffix.** -/
theorem arrNextAt_ptr (hq : q <:+ text.bytes) {n : ℕ} (hn : 2 * q.length + 2 ≤ n) :
    arrNextAt text.memory n (ptr text q) = pure ((arrNext q).positions text) := by
  have hws := (skipWs_suffix q).trans hq
  have hlen := (skipWs_suffix q).length_le
  rw [arrNextAt, skipWsAt_ptr hq (by omega), pure_bind, readAt_ptr hws, pure_bind, arrNext]
  split
  · next hb =>
    obtain ⟨hptr, hts, ht⟩ := behind_ptr hws hb (by decide)
    have htws := (skipWs_suffix (skipWs q).tail).trans hts
    have htwl := (skipWs_suffix (skipWs q).tail).length_le
    rw [hptr, skipWsAt_ptr hts (by omega), pure_bind]
    exact elemAt_ptr htws (by omega)
  split
  · next hc =>
    rw [(behind_ptr hws hc (by decide)).1]
    rfl
  · rfl

/-- What is returned and stored by a cursor lies behind `q`. -/
def Cursor.Within (q : Bytes) (c : Cursor) : Prop :=
  (∀ e ∈ c.elem, e <:+ q) ∧ ∀ r ∈ c.next, r <:+ q

theorem Cursor.Within.mono {q q' : Bytes} {c : Cursor} (h : c.Within q) (hq : q <:+ q') :
    c.Within q' :=
  ⟨fun e he => (h.1 e he).trans hq, fun r hr => (h.2 r hr).trans hq⟩

theorem cursorAt_within (q : Bytes) : (cursorAt q).Within q := by
  rw [cursorAt]
  split
  · exact ⟨by simp, by simp⟩
  · next r hr =>
    refine ⟨fun e he => ?_, fun r' hr' => ?_⟩
    · obtain rfl := Option.mem_some_iff.mp he
      exact List.suffix_rfl
    · obtain rfl := Option.mem_some_iff.mp hr'
      exact skipValue_suffix hr

theorem tail_within (q : Bytes) : Cursor.Within q ⟨none, some q.tail⟩ := by
  refine ⟨by simp, fun r hr => ?_⟩
  obtain rfl := Option.mem_some_iff.mp hr
  exact List.tail_suffix q

theorem arrFirst_within (q : Bytes) : (arrFirst q).Within q := by
  have hws := skipWs_suffix q
  have htws := (skipWs_suffix (skipWs q).tail).trans ((List.tail_suffix _).trans hws)
  rw [arrFirst]
  dsimp only
  split
  · exact ⟨by simp, by simp⟩
  split
  · exact (tail_within _).mono htws
  · exact (cursorAt_within _).mono htws

theorem arrNext_within (q : Bytes) : (arrNext q).Within q := by
  have hws := skipWs_suffix q
  rw [arrNext]
  split
  · exact (cursorAt_within _).mono
      ((skipWs_suffix _).trans ((List.tail_suffix _).trans hws))
  split
  · exact (tail_within _).mono hws
  · exact ⟨by simp, by simp⟩

theorem arrLoop_run_done {c : Cursor} {met : List (Bytes × Bytes)}
    (h : c.elem = none ∨ c.next = none) : arrLoop.run (c, met) = met := by
  rw [arrLoop.run_eq]
  obtain ⟨elem, next⟩ := c
  rcases h with rfl | rfl
  · rfl
  · cases elem with
    | none => rfl
    | some e => rfl

theorem arrLoop_run_next {e r : Bytes} {met : List (Bytes × Bytes)} :
    arrLoop.run (⟨some e, some r⟩, met) = arrLoop.run (arrNext r, met ++ [(e, r)]) := by
  rw [arrLoop.run_eq]
  rfl

/-- An element that is found comes with the pointer behind it. -/
theorem next_of_elem {e : Bytes} (h : (arrNext q).elem = some e) :
    ∃ r, (arrNext q).next = some r ∧ r.length < q.length := by
  have hnext : ∃ r, (arrNext q).next = some r := by
    rw [arrNext] at h ⊢
    split_ifs at h ⊢
    rw [cursorAt] at h ⊢
    split at h
    · simp at h
    · next r _ => exact ⟨r, rfl⟩
  obtain ⟨r, hr⟩ := hnext
  exact ⟨r, hr, arrNext_advances h hr⟩

/-- What a round of the loop needs: rounds for what is left of the text. -/
def Enough (n : ℕ) (c : Cursor) : Prop :=
  1 ≤ n ∧ ∀ e ∈ c.elem, ∀ r ∈ c.next, 2 * r.length + 3 ≤ n

theorem enough_arrFirst {n : ℕ} (hn : 2 * q.length + 3 ≤ n) : Enough n (arrFirst q) := by
  refine ⟨by omega, fun e _ r hr => ?_⟩
  have hle := ((arrFirst_within q).2 r hr).length_le
  omega

theorem enough_arrNext {n : ℕ} (hn : 2 * q.length + 3 ≤ n + 1) : Enough n (arrNext q) := by
  refine ⟨by omega, fun e he r hr => ?_⟩
  have hlt := arrNext_advances he hr
  omega

theorem arrLoopAt_ptr {q : Bytes} (hq : q <:+ text.bytes) {n : ℕ} {c : Cursor}
    (hc : c.Within q) (hn : Enough n c) (met : List (Bytes × Bytes)) :
    arrLoopAt text.memory n (c.positions text) (met.map (Prod.map (ptr text) (ptr text))) =
      pure ((arrLoop.run (c, met)).map (Prod.map (ptr text) (ptr text))) := by
  induction n generalizing c met with
  | zero => exact absurd hn.1 (by decide)
  | succ n ih =>
    obtain ⟨elem, next⟩ := c
    cases elem with
    | none =>
      rw [arrLoop_run_done (.inl rfl)]
      rfl
    | some e =>
      cases next with
      | none =>
        rw [arrLoop_run_done (.inr rfl)]
        rfl
      | some r =>
        have hr := hc.2 r rfl
        have hrn := hn.2 e rfl r rfl
        have hround : arrLoopAt text.memory (n + 1) (Cursor.positions text ⟨some e, some r⟩)
            (met.map (Prod.map (ptr text) (ptr text))) = (do
              let c ← arrNextAt text.memory n (ptr text r)
              arrLoopAt text.memory n c
                (met.map (Prod.map (ptr text) (ptr text)) ++ [(ptr text e, ptr text r)])) :=
          rfl
        have hmet : met.map (Prod.map (ptr text) (ptr text)) ++ [(ptr text e, ptr text r)] =
            (met ++ [(e, r)]).map (Prod.map (ptr text) (ptr text)) := by
          rw [List.map_append]
          rfl
        rw [hround, arrNextAt_ptr (hr.trans hq) (by omega), pure_bind, hmet,
          ih ((arrNext_within r).mono hr) (enough_arrNext hrn), arrLoop_run_next]

/-- **The iteration over an array on a suffix.** -/
theorem walkArrAt_ptr (hq : q <:+ text.bytes) {n : ℕ} (hn : 2 * q.length + 3 ≤ n) :
    walkArrAt text.memory n (ptr text q) =
      pure ((walkArr q).map (Prod.map (ptr text) (ptr text))) := by
  rw [walkArrAt, arrFirstAt_ptr hq (by omega), pure_bind]
  exact arrLoopAt_ptr hq (arrFirst_within q) (enough_arrFirst hn) []

/-- The elements of an array lie in its text. -/
theorem walkArr_within (q : Bytes) : ∀ e ∈ walkArr q, e.1 <:+ q ∧ e.2 <:+ q := by
  have hloop (n : ℕ) (c : Cursor) (hc : c.Within q) (hn : Enough n c)
      (met : List (Bytes × Bytes)) (hmet : ∀ e ∈ met, e.1 <:+ q ∧ e.2 <:+ q) :
      ∀ e ∈ arrLoop.run (c, met), e.1 <:+ q ∧ e.2 <:+ q := by
    induction n generalizing c met with
    | zero => exact absurd hn.1 (by decide)
    | succ n ih =>
      obtain ⟨elem, next⟩ := c
      rcases elem with _ | e
      · rwa [arrLoop_run_done (.inl rfl)]
      rcases next with _ | r
      · rwa [arrLoop_run_done (.inr rfl)]
      rw [arrLoop_run_next]
      have hr := hc.2 r rfl
      refine ih _ ((arrNext_within r).mono hr) (enough_arrNext (hn.2 e rfl r rfl)) _ ?_
      intro e' he'
      rcases List.mem_append.mp he' with he' | he'
      · exact hmet e' he'
      · rw [List.mem_singleton.mp he']
        exact ⟨hc.1 e rfl, hr⟩
  exact hloop _ _ (arrFirst_within q) (enough_arrFirst (Nat.le_refl _)) [] (by simp)

end Walker

/-! ## Totality -/

/-- The pointers of a cursor lie between two positions. -/
def CursorAt.Between (c : CursorAt) (lo hi : ℕ) : Prop :=
  (∀ e ∈ c.elem, lo ≤ e ∧ e ≤ hi) ∧ ∀ r ∈ c.next, lo ≤ r ∧ r ≤ hi

theorem ptr_drop (text : CStr) {p : ℕ} (hp : p ≤ text.bytes.length) :
    ptr text (text.bytes.drop p) = p := by
  rw [ptr, List.length_drop]
  omega

theorem between_of_suffix {text : CStr} {q q' : Bytes} (h : q' <:+ q) :
    ptr text q ≤ ptr text q' ∧ ptr text q' ≤ text.bytes.length :=
  ⟨ptr_le_ptr h, ptr_le q'⟩

theorem Cursor.Within.between {text : CStr} {q : Bytes} {c : Cursor} (h : c.Within q) :
    (c.positions text).Between (ptr text q) text.bytes.length := by
  refine ⟨fun e' hmem => ?_, fun r' hmem => ?_⟩
  · obtain ⟨e, he, rfl⟩ := Option.map_eq_some_iff.mp hmem
    exact between_of_suffix (h.1 e he)
  · obtain ⟨r, hr, rfl⟩ := Option.map_eq_some_iff.mp hmem
    exact between_of_suffix (h.2 r hr)

/-- A value with its length that lies in a text. -/
def ValueWithin (q : Bytes) (r : Option (Bytes × ℕ)) : Prop :=
  ∀ v ∈ r, v.1 <:+ q ∧ v.2 ≤ v.1.length

theorem objGetRound_within (key : CStr) (q : Bytes) :
    Sum.elim (· <:+ q) (ValueWithin q) (objGetRound key q) := by
  have hnone : ValueWithin q none := by simp [ValueWithin]
  have hws := skipWs_suffix q
  rw [objGetRound]
  dsimp only
  split
  · exact hnone
  split
  · exact hnone
  rcases hk : skipStr (skipWs q) with _ | k
  · exact hnone
  have hkws := (skipWs_suffix k).trans ((skipStr_suffix hk).1.trans hws)
  dsimp only
  split
  · exact hnone
  have hvs := (skipWs_suffix (skipWs k).tail).trans ((List.tail_suffix _).trans hkws)
  rcases hv : skipValue (skipWs (skipWs k).tail) with _ | r
  · exact hnone
  dsimp only
  split
  · intro v hmem
    obtain rfl := Option.mem_some_iff.mp hmem
    exact ⟨hvs, Nat.sub_le _ _⟩
  split
  · exact (List.tail_suffix _).trans
      ((skipWs_suffix r).trans ((skipValue_suffix hv).trans hvs))
  · exact hnone

theorem objGetLoop_within (key : CStr) (q : Bytes) :
    ValueWithin q ((objGetLoop key).run q) := by
  induction hn : q.length using Nat.strongRecOn generalizing q with
  | ind n ih =>
    have hround := objGetRound_within key q
    rw [objGetLoop_run]
    rcases heq : objGetRound key q with q' | r
    · rw [heq] at hround
      have hrest := ih _ (hn ▸ objGetRound_decreases heq) q' rfl
      exact fun v hmem => ⟨(hrest v hmem).1.trans hround, (hrest v hmem).2⟩
    · rw [heq] at hround
      exact hround

/-- What an object gives for a key lies in its text. -/
theorem objGet_within (key : CStr) (q : Bytes) : ValueWithin q (objGet q key) := by
  rw [objGet]
  split
  · simp [ValueWithin]
  · intro v hmem
    obtain ⟨hv, hle⟩ := objGetLoop_within key _ v hmem
    exact ⟨hv.trans ((List.tail_suffix _).trans (skipWs_suffix q)), hle⟩

/-- **The scanner is total.**  On any text, from any position up to its NUL, with three rounds and
two for each byte: no function gets stuck or reads behind the NUL, all pointers lie between the
position and the NUL, and a further element takes the iteration further. -/
theorem scanner_total (text : CStr) {p : ℕ} (hp : p ≤ text.bytes.length) {n : ℕ}
    (hn : 2 * text.bytes.length + 3 ≤ n) :
    (∃ r, skipStrAt text.memory n p = pure r ∧ ∀ p' ∈ r, p ≤ p' ∧ p' ≤ text.bytes.length) ∧
    (∃ r, skipValueAt text.memory n p = pure r ∧ ∀ p' ∈ r, p ≤ p' ∧ p' ≤ text.bytes.length) ∧
    (∀ key, ∃ r, objGetAt text.memory n p key = pure r ∧
      ∀ v ∈ r, p ≤ v.1 ∧ v.1 + v.2 ≤ text.bytes.length) ∧
    (∃ c, arrFirstAt text.memory n p = pure c ∧ c.Between p text.bytes.length) ∧
    (∃ c, arrNextAt text.memory n p = pure c ∧ c.Between p text.bytes.length ∧
      ∀ e ∈ c.elem, ∃ next ∈ c.next, p < next) ∧
    (∃ met, walkArrAt text.memory n p = pure met ∧
      ∀ e ∈ met, (p ≤ e.1 ∧ e.1 ≤ text.bytes.length) ∧ p ≤ e.2 ∧ e.2 ≤ text.bytes.length) := by
  obtain ⟨q, hq, rfl⟩ : ∃ q, q <:+ text.bytes ∧ ptr text q = p :=
    ⟨_, List.drop_suffix p _, ptr_drop text hp⟩
  have hlen := hq.length_le
  refine ⟨⟨_, skipStrAt_ptr hq (by omega), fun p' hp' => ?_⟩,
    ⟨_, skipValueAt_ptr hq (by omega), fun p' hp' => ?_⟩,
    fun key => ⟨_, objGetAt_ptr key hq (by omega), fun v hv => ?_⟩,
    ⟨_, arrFirstAt_ptr hq (by omega), (arrFirst_within q).between⟩,
    ⟨_, arrNextAt_ptr hq (by omega), (arrNext_within q).between, fun e' hmem => ?_⟩,
    ⟨_, walkArrAt_ptr hq (by omega), fun e' hmem => ?_⟩⟩
  · obtain ⟨q', hq', rfl⟩ := Option.map_eq_some_iff.mp hp'
    exact between_of_suffix (skipStr_suffix hq').1
  · obtain ⟨q', hq', rfl⟩ := Option.map_eq_some_iff.mp hp'
    exact between_of_suffix (skipValue_suffix hq')
  · obtain ⟨⟨q', len⟩, hq', rfl⟩ := Option.map_eq_some_iff.mp hv
    obtain ⟨hsuf, hle⟩ := objGet_within key q _ hq'
    have hq'l := (hsuf.trans hq).length_le
    dsimp only at hq'l hle
    refine ⟨ptr_le_ptr hsuf, ?_⟩
    change ptr text q' + len ≤ _
    rw [ptr]
    omega
  · obtain ⟨e, he, rfl⟩ := Option.map_eq_some_iff.mp hmem
    obtain ⟨r, hr, hlt⟩ := next_of_elem he
    refine ⟨ptr text r, Option.map_eq_some_iff.mpr ⟨r, hr, rfl⟩, ?_⟩
    rw [ptr, ptr]
    omega
  · obtain ⟨e, he, rfl⟩ := List.mem_map.mp hmem
    obtain ⟨h₁, h₂⟩ := walkArr_within q e he
    exact ⟨between_of_suffix h₁, between_of_suffix h₂⟩

/-- An array with a bare comma, and a string that ends in a backslash and nowhere else. -/
theorem scanner_total_hostile :
    ∃ met, walkArrAt (CStr.memory ⟨[lbracket, comma, quote, 0x61, backslash], by decide⟩) 13 0 =
        pure met ∧
      ∀ e ∈ met, (0 ≤ e.1 ∧ e.1 ≤ 5) ∧ 0 ≤ e.2 ∧ e.2 ≤ 5 :=
  (scanner_total ⟨[lbracket, comma, quote, 0x61, backslash], by decide⟩ (p := 0) (by decide)
    (n := 13) (by decide)).2.2.2.2.2

end Nsr
