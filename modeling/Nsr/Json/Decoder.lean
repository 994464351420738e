import Nsr.Json.Syntax
import Nsr.Lib.BoundedLoop
import Mathlib.Data.List.Infix

/-!
# The JSON decoder

The decoder half of `src/json/json.c`: a walker over the suffixes of a NUL-terminated text that
skips white space, string literals and whole values, and on top of it the lookup of a member, the
iteration over an array and the parsers of the scalars.

A pointer is the list of the bytes from it to the end of the text: `*p` is `peek p`, which is NUL
at the end, and `p + 1` is `p.tail`.  A null pointer is `none`.

`skip_value` calls itself from inside its two loops.  `skipValueF`, `skipMembersF` and
`skipElemsF` follow it for a given number of calls and rounds; `skip_total` bounds what is needed,
and `skipValue_eq`, `skipMembers_eq` and `skipElems_eq` are the equations of the code itself, with
no such number in them.
-/

namespace Nsr

open Ascii

/-- `*p`. -/
def peek (p : Bytes) : UInt8 :=
  p.headD 0

@[simp] theorem peek_cons (c : UInt8) (p : Bytes) : peek (c :: p) = c := rfl

/-! ## White space and strings -/

/-- `isspace` of the C locale. -/
def isspace (c : UInt8) : Bool :=
  (0x09 ≤ c && c ≤ 0x0d) || c == 0x20

/-- `skip_ws`. -/
def skipWs (p : Bytes) : Bytes :=
  p.dropWhile isspace

/-- The loop of `skip_str`, behind the opening quote. -/
def skipStrBody : Bytes → Option Bytes
  | [] => none
  | [c] => if c = quote then some [] else none
  | c :: d :: p =>
    if c = backslash then skipStrBody p
    else if c = quote then some (d :: p)
    else skipStrBody (d :: p)

/-- `skip_str`. -/
def skipStr (p : Bytes) : Option Bytes :=
  if peek p = quote then skipStrBody p.tail else none

/-- The last loop of `skip_value`: a bare scalar reaches up to a delimiter. -/
def skipScalar (p : Bytes) : Bytes :=
  p.dropWhile fun c => c != comma && c != rbrace && c != rbracket

/-! ## Values -/

mutual

/-- `skip_value`; the outer `none` is for too few calls. -/
def skipValueF : ℕ → Bytes → Option (Option Bytes)
  | 0, _ => none
  | n + 1, p =>
    let p := skipWs p
    if peek p = quote then some (skipStr p)
    else if peek p = lbrace then skipMembersF n p.tail
    else if peek p = lbracket then skipElemsF n p.tail
    else some (some (skipScalar p))

/-- The loop of `skip_value` over the members of an object. -/
def skipMembersF : ℕ → Bytes → Option (Option Bytes)
  | 0, _ => none
  | n + 1, p =>
    let p := skipWs p
    if peek p = rbrace then some (some p.tail)
    else if peek p = quote then
      match skipStr p with
      | none => some none
      | some p =>
        let p := skipWs p
        let p := if peek p = colon then p.tail else p
        match skipValueF n p with
        | none => none
        | some none => some none
        | some (some p) =>
          let p := skipWs p
          if peek p = comma then skipMembersF n p.tail
          else if peek p = rbrace then some (some p.tail)
          else some none
    else some none

/-- The loop of `skip_value` over the elements of an array. -/
def skipElemsF : ℕ → Bytes → Option (Option Bytes)
  | 0, _ => none
  | n + 1, p =>
    let p := skipWs p
    if peek p = rbracket then some (some p.tail)
    else
      match skipValueF n p with
      | none => none
      | some none => some none
      | some (some p) =>
        let p := skipWs p
        if peek p = comma then skipElemsF n p.tail
        else if peek p = rbracket then some (some p.tail)
        else some none

end

/-! ## Every pointer stays in the text -/

theorem skipWs_suffix (p : Bytes) : skipWs p <:+ p :=
  List.dropWhile_suffix _

theorem skipScalar_suffix (p : Bytes) : skipScalar p <:+ p :=
  List.dropWhile_suffix _

theorem tail_length_lt {p : Bytes} (h : peek p ≠ 0) : p.tail.length < p.length := by
  cases p with
  | nil => exact absurd rfl h
  | cons c p => simp

theorem skipStrBody_suffix {p q : Bytes} (h : skipStrBody p = some q) :
    q <:+ p ∧ q.length < p.length := by
  fun_induction skipStrBody p with
  | case1 => simp at h
  | case2 =>
    obtain rfl := Option.some_inj.mp h
    exact ⟨List.nil_suffix, by simp⟩
  | case3 c hc => simp at h
  | case4 d p ih =>
    obtain ⟨hs, hl⟩ := ih h
    refine ⟨hs.trans ((List.suffix_cons d p).trans (List.suffix_cons _ _)), ?_⟩
    simp only [List.length_cons]
    omega
  | case5 d p =>
    obtain rfl := Option.some_inj.mp h
    exact ⟨List.suffix_cons _ _, by simp⟩
  | case6 c d p hc hq ih =>
    obtain ⟨hs, hl⟩ := ih h
    exact ⟨hs.trans (List.suffix_cons _ _), by simp only [List.length_cons] at hl ⊢; omega⟩

theorem skipStr_suffix {p q : Bytes} (h : skipStr p = some q) :
    q <:+ p ∧ q.length + 2 ≤ p.length := by
  rw [skipStr] at h
  split at h
  · next hp =>
    obtain ⟨hs, hl⟩ := skipStrBody_suffix h
    have ht := tail_length_lt (p := p) (by rw [hp]; decide)
    exact ⟨hs.trans (List.tail_suffix p), by omega⟩
  · simp at h

/-- A walk has come to an end, inside the text it started in. -/
def Ends (p : Bytes) (r : Option (Option Bytes)) : Prop :=
  ∃ q, r = some q ∧ ∀ q' ∈ q, q' <:+ p

theorem ends_null (p : Bytes) : Ends p (some none) :=
  ⟨none, rfl, by simp⟩

theorem ends_of_suffix {p q : Bytes} (h : q <:+ p) : Ends p (some (some q)) :=
  ⟨some q, rfl, by simpa using h⟩

theorem Ends.trans {p q : Bytes} {r : Option (Option Bytes)} (h : Ends q r) (hq : q <:+ p) :
    Ends p r := by
  obtain ⟨r', hr, hs⟩ := h
  exact ⟨r', hr, fun q' hq' => (hs q' hq').trans hq⟩

section Total

variable {n : ℕ}

theorem skipValueF_ends
    (ihm : ∀ p : Bytes, 2 * p.length + 2 ≤ n → Ends p (skipMembersF n p))
    (ihe : ∀ p : Bytes, 2 * p.length + 2 ≤ n → Ends p (skipElemsF n p))
    {p : Bytes} (hn : 2 * p.length + 1 ≤ n + 1) : Ends p (skipValueF (n + 1) p) := by
  have hws := skipWs_suffix p
  have hlen := hws.length_le
  rw [skipValueF]
  split
  · rcases h : skipStr (skipWs p) with _ | q
    · exact ends_null p
    · exact ends_of_suffix ((skipStr_suffix h).1.trans hws)
  split
  · next hb =>
    have ht := tail_length_lt (p := skipWs p) (by rw [hb]; decide)
    exact (ihm _ (by omega)).trans ((List.tail_suffix _).trans hws)
  split
  · next hb =>
    have ht := tail_length_lt (p := skipWs p) (by rw [hb]; decide)
    exact (ihe _ (by omega)).trans ((List.tail_suffix _).trans hws)
  · exact ends_of_suffix ((skipScalar_suffix _).trans hws)

theorem skipMembersF_ends
    (ihv : ∀ p : Bytes, 2 * p.length + 1 ≤ n → Ends p (skipValueF n p))
    (ihm : ∀ p : Bytes, 2 * p.length + 2 ≤ n → Ends p (skipMembersF n p))
    {p : Bytes} (hn : 2 * p.length + 2 ≤ n + 1) : Ends p (skipMembersF (n + 1) p) := by
  have hws := skipWs_suffix p
  have hlen := hws.length_le
  rw [skipMembersF]
  dsimp only
  split
  · exact ends_of_suffix ((List.tail_suffix _).trans hws)
  split
  · split
    · exact ends_null p
    · next q hq =>
      obtain ⟨hqs, hql⟩ := skipStr_suffix hq
      -- the colon is skipped where there is one, and the walk goes on where there is none
      obtain ⟨q', hq', hqs'⟩ : ∃ q', (if peek (skipWs q) = colon then (skipWs q).tail
          else skipWs q) = q' ∧ q' <:+ q := by
        refine ⟨_, rfl, ?_⟩
        split
        · exact (List.tail_suffix _).trans (skipWs_suffix q)
        · exact skipWs_suffix q
      rw [hq']
      have hl := hqs'.length_le
      obtain ⟨r, hr, hrs⟩ := ihv q' (by omega)
      rw [hr]
      rcases r with _ | r
      · exact ends_null p
      · have hr' : skipWs r <:+ p :=
          (skipWs_suffix r).trans ((hrs r rfl).trans (hqs'.trans (hqs.trans hws)))
        have hl' := ((skipWs_suffix r).trans (hrs r rfl)).length_le
        dsimp only
        split
        · have ht := (List.tail_suffix (skipWs r)).length_le
          exact (ihm _ (by omega)).trans ((List.tail_suffix _).trans hr')
        split
        · exact ends_of_suffix ((List.tail_suffix _).trans hr')
        · exact ends_null p
  · exact ends_null p

theorem skipElemsF_ends
    (ihv : ∀ p : Bytes, 2 * p.length + 1 ≤ n → Ends p (skipValueF n p))
    (ihe : ∀ p : Bytes, 2 * p.length + 2 ≤ n → Ends p (skipElemsF n p))
    {p : Bytes} (hn : 2 * p.length + 2 ≤ n + 1) : Ends p (skipElemsF (n + 1) p) := by
  have hws := skipWs_suffix p
  have hlen := hws.length_le
  rw [skipElemsF]
  dsimp only
  split
  · exact ends_of_suffix ((List.tail_suffix _).trans hws)
  · obtain ⟨r, hr, hrs⟩ := ihv (skipWs p) (by omega)
    rw [hr]
    rcases r with _ | r
    · exact ends_null p
    · have hr' : skipWs r <:+ p := (skipWs_suffix r).trans ((hrs r rfl).trans hws)
      have hl' := hr'.length_le
      dsimp only
      split
      · next hb =>
        have ht := tail_length_lt (p := skipWs r) (by rw [hb]; decide)
        exact (ihe _ (by omega)).trans ((List.tail_suffix _).trans hr')
      split
      · exact ends_of_suffix ((List.tail_suffix _).trans hr')
      · exact ends_null p

end Total

/-- **The walker ends**: two calls for each byte of the text suffice.  The bound is proved together
for a value and for the two loops; an array hands its text to `skip_value` before a byte of it is
consumed, hence the two. -/
theorem skip_total (n : ℕ) :
    (∀ p : Bytes, 2 * p.length + 1 ≤ n → Ends p (skipValueF n p)) ∧
      (∀ p : Bytes, 2 * p.length + 2 ≤ n → Ends p (skipMembersF n p)) ∧
      (∀ p : Bytes, 2 * p.length + 2 ≤ n → Ends p (skipElemsF n p)) := by
  induction n with
  | zero => exact ⟨fun p h => by omega, fun p h => by omega, fun p h => by omega⟩
  | succ n ih =>
    obtain ⟨ihv, ihm, ihe⟩ := ih
    exact ⟨fun p hn => skipValueF_ends ihm ihe hn, fun p hn => skipMembersF_ends ihv ihm hn,
      fun p hn => skipElemsF_ends ihv ihe hn⟩

/-! ## The equations of the walker -/

/-- More calls than needed give the same end. -/
theorem skip_succ (n : ℕ) :
    (∀ p r, skipValueF n p = some r → skipValueF (n + 1) p = some r) ∧
      (∀ p r, skipMembersF n p = some r → skipMembersF (n + 1) p = some r) ∧
      (∀ p r, skipElemsF n p = some r → skipElemsF (n + 1) p = some r) := by
  induction n with
  | zero => simp [skipValueF, skipMembersF, skipElemsF]
  | succ n ih =>
    obtain ⟨ihv, ihm, ihe⟩ := ih
    refine ⟨fun p r h => ?_, fun p r h => ?_, fun p r h => ?_⟩
    · rw [skipValueF] at h ⊢
      split_ifs at h ⊢
      · exact h
      · exact ihm _ _ h
      · exact ihe _ _ h
      · exact h
    · rw [skipMembersF] at h ⊢
      dsimp only at h ⊢
      split_ifs at h ⊢
      · exact h
      · rcases hs : skipStr (skipWs p) with _ | q
        · rw [hs] at h
          exact h
        rw [hs] at h
        dsimp only at h ⊢
        generalize (if peek (skipWs q) = colon then (skipWs q).tail else skipWs q) = q' at h ⊢
        rcases hv : skipValueF n q' with _ | v
        · rw [hv] at h
          simp at h
        rw [hv] at h
        rw [ihv _ _ hv]
        rcases v with _ | v
        · exact h
        dsimp only at h ⊢
        split_ifs at h ⊢
        · exact ihm _ _ h
        · exact h
        · exact h
      · exact h
    · rw [skipElemsF] at h ⊢
      dsimp only at h ⊢
      split_ifs at h ⊢
      · exact h
      · rcases hv : skipValueF n (skipWs p) with _ | v
        · rw [hv] at h
          simp at h
        rw [hv] at h
        rw [ihv _ _ hv]
        rcases v with _ | v
        · exact h
        dsimp only at h ⊢
        split_ifs at h ⊢
        · exact ihe _ _ h
        · exact h
        · exact h

theorem Ends.isSome {p : Bytes} {r : Option (Option Bytes)} (h : Ends p r) : r.isSome = true := by
  obtain ⟨q, rfl, -⟩ := h
  rfl

/-- **`skip_value`**: the end of the value at `p`, or null. -/
def skipValue (p : Bytes) : Option Bytes :=
  (skipValueF (2 * p.length + 1) p).get ((skip_total _).1 p (Nat.le_refl _)).isSome

/-- The member loop of `skip_value`. -/
def skipMembers (p : Bytes) : Option Bytes :=
  (skipMembersF (2 * p.length + 2) p).get ((skip_total _).2.1 p (Nat.le_refl _)).isSome

/-- The element loop of `skip_value`. -/
def skipElems (p : Bytes) : Option Bytes :=
  (skipElemsF (2 * p.length + 2) p).get ((skip_total _).2.2 p (Nat.le_refl _)).isSome

/-- Two computations that keep their result when given more agree on it. -/
theorem eq_of_succ_stable {α β : Type} {f : ℕ → α → Option β}
    (hf : ∀ n a b, f n a = some b → f (n + 1) a = some b) {n m : ℕ} {a : α} {b c : β}
    (hn : f n a = some b) (hm : f m a = some c) : b = c := by
  have hle : ∀ {n : ℕ} {b : β} (k : ℕ), f n a = some b → f (n + k) a = some b := by
    intro n b k h
    induction k with
    | zero => exact h
    | succ k ih => exact hf _ _ _ ih
  have h₁ := hle m hn
  have h₂ := hle n hm
  rw [Nat.add_comm] at h₂
  exact Option.some_inj.mp (h₁.symm.trans h₂)

theorem skipValueF_eq_some {n : ℕ} {p : Bytes} (h : 2 * p.length + 1 ≤ n) :
    skipValueF n p = some (skipValue p) := by
  obtain ⟨r, hr, -⟩ := (skip_total n).1 p h
  rw [hr, eq_of_succ_stable (fun n => (skip_succ n).1) hr (Option.some_get _).symm]
  rfl

theorem skipMembersF_eq_some {n : ℕ} {p : Bytes} (h : 2 * p.length + 2 ≤ n) :
    skipMembersF n p = some (skipMembers p) := by
  obtain ⟨r, hr, -⟩ := (skip_total n).2.1 p h
  rw [hr, eq_of_succ_stable (fun n => (skip_succ n).2.1) hr (Option.some_get _).symm]
  rfl

theorem skipElemsF_eq_some {n : ℕ} {p : Bytes} (h : 2 * p.length + 2 ≤ n) :
    skipElemsF n p = some (skipElems p) := by
  obtain ⟨r, hr, -⟩ := (skip_total n).2.2 p h
  rw [hr, eq_of_succ_stable (fun n => (skip_succ n).2.2) hr (Option.some_get _).symm]
  rfl

theorem skipValue_suffix {p q : Bytes} (h : skipValue p = some q) : q <:+ p := by
  obtain ⟨r, hr, hs⟩ := (skip_total _).1 p (Nat.le_refl _)
  rw [skipValueF_eq_some (Nat.le_refl _), h] at hr
  exact hs q (Option.some_inj.mp hr).symm

/-- **The equation of `skip_value`.** -/
theorem skipValue_eq (p : Bytes) :
    skipValue p =
      if peek (skipWs p) = quote then skipStr (skipWs p)
      else if peek (skipWs p) = lbrace then skipMembers (skipWs p).tail
      else if peek (skipWs p) = lbracket then skipElems (skipWs p).tail
      else some (skipScalar (skipWs p)) := by
  have hlen := (skipWs_suffix p).length_le
  have h := skipValueF_eq_some (Nat.le_refl (2 * p.length + 1))
  rw [skipValueF] at h
  split_ifs at h ⊢ with h₁ h₂ h₃
  · exact (Option.some_inj.mp h).symm
  · have ht := tail_length_lt (p := skipWs p) (by rw [h₂]; decide)
    rw [skipMembersF_eq_some (by omega)] at h
    exact (Option.some_inj.mp h).symm
  · have ht := tail_length_lt (p := skipWs p) (by rw [h₃]; decide)
    rw [skipElemsF_eq_some (by omega)] at h
    exact (Option.some_inj.mp h).symm
  · exact (Option.some_inj.mp h).symm

/-- **The equation of the member loop.** -/
theorem skipMembers_eq (p : Bytes) :
    skipMembers p =
      if peek (skipWs p) = rbrace then some (skipWs p).tail
      else if peek (skipWs p) = quote then
        (skipStr (skipWs p)).bind fun q =>
          (skipValue (if peek (skipWs q) = colon then (skipWs q).tail else skipWs q)).bind fun r =>
            if peek (skipWs r) = comma then skipMembers (skipWs r).tail
            else if peek (skipWs r) = rbrace then some (skipWs r).tail
            else none
      else none := by
  have hlen := (skipWs_suffix p).length_le
  have h := skipMembersF_eq_some (Nat.le_refl (2 * p.length + 2))
  rw [skipMembersF] at h
  dsimp only at h
  split_ifs at h ⊢
  · exact (Option.some_inj.mp h).symm
  · rcases hq : skipStr (skipWs p) with _ | q
    · rw [hq] at h
      exact (Option.some_inj.mp h).symm
    rw [hq] at h
    have hql := (skipStr_suffix hq).2
    dsimp only [Option.bind_some] at h ⊢
    have hc : (if peek (skipWs q) = colon then (skipWs q).tail else skipWs q) <:+ q := by
      split
      · exact (List.tail_suffix _).trans (skipWs_suffix q)
      · exact skipWs_suffix q
    generalize (if peek (skipWs q) = colon then (skipWs q).tail else skipWs q) = q' at h hc ⊢
    have hcl := hc.length_le
    rw [skipValueF_eq_some (by omega)] at h
    rcases hr : skipValue q' with _ | r
    · rw [hr] at h
      exact (Option.some_inj.mp h).symm
    rw [hr] at h
    have hrl := ((skipWs_suffix r).trans (skipValue_suffix hr)).length_le
    have htl := (List.tail_suffix (skipWs r)).length_le
    dsimp only [Option.bind_some] at h ⊢
    split_ifs at h ⊢
    · rw [skipMembersF_eq_some (by omega)] at h
      exact (Option.some_inj.mp h).symm
    · exact (Option.some_inj.mp h).symm
    · exact (Option.some_inj.mp h).symm
  · exact (Option.some_inj.mp h).symm

/-- **The equation of the element loop.** -/
theorem skipElems_eq (p : Bytes) :
    skipElems p =
      if peek (skipWs p) = rbracket then some (skipWs p).tail
      else
        (skipValue (skipWs p)).bind fun r =>
          if peek (skipWs r) = comma then skipElems (skipWs r).tail
          else if peek (skipWs r) = rbracket then some (skipWs r).tail
          else none := by
  have hlen := (skipWs_suffix p).length_le
  have h := skipElemsF_eq_some (Nat.le_refl (2 * p.length + 2))
  rw [skipElemsF] at h
  dsimp only at h
  split_ifs at h ⊢
  · exact (Option.some_inj.mp h).symm
  · rw [skipValueF_eq_some (by omega)] at h
    rcases hr : skipValue (skipWs p) with _ | r
    · rw [hr] at h
      exact (Option.some_inj.mp h).symm
    rw [hr] at h
    have hrl := ((skipWs_suffix r).trans (skipValue_suffix hr)).length_le
    dsimp only [Option.bind_some] at h ⊢
    split_ifs at h ⊢ with h₁
    · have ht := tail_length_lt (p := skipWs r) (by rw [h₁]; decide)
      rw [skipElemsF_eq_some (by omega)] at h
      exact (Option.some_inj.mp h).symm
    · exact (Option.some_inj.mp h).symm
    · exact (Option.some_inj.mp h).symm

/-! ## Members and elements -/

/-- One round of the loop of `nsr_json_obj_get`, at the text behind an opening brace or a comma:
go on behind the next comma, or return the value with its length, or null. -/
def objGetRound (key : CStr) (p : Bytes) : Bytes ⊕ Option (Bytes × ℕ) :=
  let p := skipWs p
  if peek p = rbrace then .inr none
  else if peek p ≠ quote then .inr none
  else
    let keyStart := p.tail
    match skipStr p with
    | none => .inr none
    | some keyEnd =>
      let keyLen := keyStart.length - keyEnd.length - 1
      let isMatch := key.bytes.length == keyLen && keyStart.take keyLen == key.bytes.take keyLen
      let p := skipWs keyEnd
      if peek p ≠ colon then .inr none
      else
        let valStart := skipWs p.tail
        match skipValue valStart with
        | none => .inr none
        | some valEnd =>
          if isMatch then .inr (some (valStart, valStart.length - valEnd.length))
          else
            let p := skipWs valEnd
            if peek p = comma then .inl p.tail
            else .inr none

theorem objGetRound_decreases {key : CStr} {p q : Bytes} (h : objGetRound key p = .inl q) :
    q.length < p.length := by
  rw [objGetRound] at h
  dsimp only at h
  split_ifs at h
  rcases hk : skipStr (skipWs p) with _ | keyEnd
  · simp [hk] at h
  rw [hk] at h
  dsimp only at h
  split at h
  · simp at h
  rcases hv : skipValue (skipWs (skipWs keyEnd).tail) with _ | valEnd
  · simp [hv] at h
  rw [hv] at h
  dsimp only at h
  split_ifs at h
  obtain rfl := Sum.inl.inj h
  have hp := (skipWs_suffix p).length_le
  have hkl := (skipStr_suffix hk).2
  have hkw := (skipWs_suffix keyEnd).length_le
  have hkt := (List.tail_suffix (skipWs keyEnd)).length_le
  have hvw := (skipWs_suffix (skipWs keyEnd).tail).length_le
  have hvl := (skipValue_suffix hv).length_le
  have hw := (skipWs_suffix valEnd).length_le
  have hwt := (List.tail_suffix (skipWs valEnd)).length_le
  omega

/-- The loop of `nsr_json_obj_get`. -/
def objGetLoop (key : CStr) : BoundedLoop.Loop Bytes (Option (Bytes × ℕ)) where
  body := objGetRound key
  measure := List.length
  decreases := objGetRound_decreases

theorem objGetLoop_run (key : CStr) (p : Bytes) :
    (objGetLoop key).run p = Sum.elim (objGetLoop key).run id (objGetRound key p) :=
  (objGetLoop key).run_eq p

/-- **`nsr_json_obj_get`**: the value of a member and its length, or null. -/
def objGet (json : Bytes) (key : CStr) : Option (Bytes × ℕ) :=
  let p := skipWs json
  if peek p ≠ lbrace then none
  else (objGetLoop key).run p.tail

/-- What a call of the array iteration does: the pointer it returns, and the pointer it stores for
the next call where it stores one. -/
structure Cursor where
  elem : Option Bytes
  next : Option Bytes
  deriving DecidableEq

/-- The end of an element found: return it and go on behind it; or null. -/
def cursorAt (p : Bytes) : Cursor :=
  match skipValue p with
  | none => ⟨none, none⟩
  | some next => ⟨some p, some next⟩

/-- **`nsr_json_arr_first`.** -/
def arrFirst (json : Bytes) : Cursor :=
  let p := skipWs json
  if peek p ≠ lbracket then ⟨none, none⟩
  else
    let p := skipWs p.tail
    if peek p = rbracket then ⟨none, some p.tail⟩
    else cursorAt p

/-- **`nsr_json_arr_next`.** -/
def arrNext (next : Bytes) : Cursor :=
  let p := skipWs next
  if peek p = comma then cursorAt (skipWs p.tail)
  else if peek p = rbracket then ⟨none, some p.tail⟩
  else ⟨none, none⟩

/-- Every further element takes the iteration further into the text. -/
theorem arrNext_advances {next elem next' : Bytes} (he : (arrNext next).elem = some elem)
    (hn : (arrNext next).next = some next') : next'.length < next.length := by
  rw [arrNext] at he hn
  have hw := (skipWs_suffix next).length_le
  split at he
  · next hc =>
    rw [if_pos hc, cursorAt] at hn
    have ht := tail_length_lt (p := skipWs next) (by rw [hc]; decide)
    have hw' := (skipWs_suffix (skipWs next).tail).length_le
    rcases hv : skipValue (skipWs (skipWs next).tail) with _ | q
    · simp [hv] at hn
    · rw [hv] at hn
      obtain rfl := Option.some_inj.mp hn
      have hq := (skipValue_suffix hv).length_le
      omega
  · split at he <;> simp at he

/-- One round of the loop of the callers, `while (elem) { ...; elem = nsr_json_arr_next(...); }`,
with the elements met so far, each with where it ends. -/
def arrRound (s : Cursor × List (Bytes × Bytes)) :
    (Cursor × List (Bytes × Bytes)) ⊕ List (Bytes × Bytes) :=
  match s.1.elem, s.1.next with
  | some elem, some next => .inl (arrNext next, s.2 ++ [(elem, next)])
  | _, _ => .inr s.2

/-- The loop of the callers of the array iteration. -/
def arrLoop : BoundedLoop.Loop (Cursor × List (Bytes × Bytes)) (List (Bytes × Bytes)) where
  body := arrRound
  measure s :=
    match s.1.elem, s.1.next with
    | some _, some next => next.length + 1
    | _, _ => 0
  decreases := by
    rintro ⟨c, met⟩ s' h
    simp only [arrRound] at h
    split at h
    · next elem next he hn =>
      obtain rfl := Sum.inl.inj h
      simp only [he, hn]
      split
      · next elem' next' he' hn' =>
        have hlt := arrNext_advances he' hn'
        omega
      · omega
    · simp at h

/-- **The whole iteration over an array**: the elements its callers see. -/
def walkArr (json : Bytes) : List (Bytes × Bytes) :=
  arrLoop.run (arrFirst json, [])

/-! ## Scalars -/

/-- What `out_len - 1` is for a `size_t`. -/
def lastIndex (outLen : UInt64) : ℕ :=
  (outLen - 1).toNat

/-- `if (o < out_len - 1) out[o++] = c`. -/
def put (outLen : UInt64) (out : Bytes) (c : UInt8) : Bytes :=
  if out.length < lastIndex outLen then out ++ [c] else out

/-- The `switch` of `nsr_json_parse_str` on the byte behind a backslash. -/
def unescape (c : UInt8) : UInt8 :=
  if c = quote then quote
  else if c = backslash then backslash
  else if c = 0x2f then 0x2f -- '/'
  else if c = 0x62 then 0x08 -- 'b'
  else if c = 0x66 then 0x0c -- 'f'
  else if c = 0x6e then 0x0a -- 'n'
  else if c = 0x72 then 0x0d -- 'r'
  else if c = 0x74 then 0x09 -- 't'
  else c

/-- The loop of `nsr_json_parse_str` over the bytes between the quotes. -/
def parseStrBody (outLen : UInt64) : Bytes → Bytes → Bytes
  | [], out => out
  | [c], out => put outLen out c
  | c :: d :: p, out =>
    if c = backslash then parseStrBody outLen p (put outLen out (unescape d))
    else parseStrBody outLen (d :: p) (put outLen out c)

/-- **`nsr_json_parse_str`**: the bytes in `out` before its NUL when it returns true.  With
`out_len = 0` the source writes through `out` without a bound and without a NUL. -/
def parseStr (val : Bytes) (valLen : ℕ) (outLen : UInt64) : Option Bytes :=
  if valLen < 2 ∨ peek val ≠ quote ∨ peek (val.drop (valLen - 1)) ≠ quote then none
  else
    let out := parseStrBody outLen ((val.take (valLen - 1)).drop 1) []
    if out.length < outLen.toNat then some out
    else if 0 < outLen then some (out.take (lastIndex outLen))
    else some out

/-- `isdigit`. -/
def isdigit (c : UInt8) : Bool :=
  0x30 ≤ c && c ≤ 0x39

/-- The number a run of decimal digits denotes. -/
def digitsValue (ds : Bytes) : ℕ :=
  ds.foldl (fun acc c => acc * 10 + (c.toNat - 0x30)) 0

/-- `LLONG_MIN` and `LLONG_MAX` bound what `strtoll` returns. -/
def clampInt64 (i : ℤ) : ℤ :=
  max (-2 ^ 63) (min i (2 ^ 63 - 1))

/-- **`strtoll`** to base ten: the number, and how many bytes were read for it.  White space and a
sign may come first; without a digit nothing is read. -/
def strtoll (s : Bytes) : ℤ × ℕ :=
  let p := skipWs s
  let neg := peek p == minus
  let digitsStart := if neg || peek p == 0x2b then p.tail else p -- '+'
  let ds := digitsStart.takeWhile isdigit
  if ds = [] then (0, 0)
  else
    (clampInt64 (if neg then -(digitsValue ds : ℤ) else digitsValue ds),
      s.length - digitsStart.length + ds.length)

/-- **`nsr_json_parse_int`**: what it returns, and `*out`, which is written even where it returns
false, unless the text is too long for the local copy. -/
def parseInt (val : Bytes) (valLen : ℕ) (out : ℤ) : Bool × ℤ :=
  if 32 ≤ valLen then (false, out)
  else
    let r := strtoll (val.take valLen)
    (r.2 == valLen, r.1)

/-- **`nsr_json_parse_bool`**: what it returns, and `*out`. -/
def parseBool (val : Bytes) (valLen : ℕ) (out : Bool) : Bool × Bool :=
  if valLen = 4 ∧ val.take 4 = trueBytes then (true, true)
  else if valLen = 5 ∧ val.take 5 = falseBytes then (true, false)
  else (false, out)

end Nsr
