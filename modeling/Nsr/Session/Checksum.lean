import Nsr.Lib.OnesComplement
import Mathlib.Data.UInt

/-!
# The checksum of an IPv4 probe

The eight bytes of an ICMP echo request as `nsr_gatekeeper_run` fills them in, on a little-endian
host: a 16-bit field stored natively has its low byte first, `htons` swaps the bytes of its
argument, and so `id` and `seq` go out in network order.

`fast_icmp_checksum` (`src/io/gatekeeper.c`) adds the first word of the packet as a constant, and
takes it to be `0x0800`.  That is what the bytes `8, 0` are in network order; the words it adds to
it, `htons(id)` and `htons(seq)`, are read natively, and so is the result.  Read natively the first
word is `0x0008`.  `nsr_checksum` (`src/io/tracer.c`) loads every word from memory and gets this
right.

* `onesSum_echoRequest`: the words of every probe sum to `0x07F8`.
* `onesSum_checksummed`: with the checksum of `nsr_checksum` they sum to `0xFFFF`.
* `checksum_never_verifies`: no probe verifies, and the two checksums differ for every probe.
-/

namespace Nsr
namespace Checksum

open OnesComplement

/-! ## Words in memory -/

/-- A 16-bit value as a little-endian host stores it. -/
def storeWord (w : UInt16) : List UInt8 :=
  [w.toUInt8, (w >>> 8).toUInt8]

/-- A 16-bit value as a little-endian host loads it. -/
def loadWord (lo hi : UInt8) : UInt16 :=
  lo.toUInt16 ||| hi.toUInt16 <<< 8

/-- `htons` on a little-endian host. -/
def htons (w : UInt16) : UInt16 :=
  w <<< 8 ||| w >>> 8

/-! ## The two checksums -/

/-- `fast_icmp_checksum`. -/
def fastIcmpChecksum (id seq : UInt16) : UInt16 :=
  let sum : UInt32 := 0x0800 + id.toUInt32 + seq.toUInt32
  let sum := (sum >>> 16) + (sum &&& 0xFFFF)
  let sum := sum + (sum >>> 16)
  (~~~sum).toUInt16

/-- `acc += word; if (acc > 0xffff) acc -= 0xffff;` -/
def accumulate (acc : UInt32) (word : UInt16) : UInt32 :=
  let acc := acc + word.toUInt32
  if acc > 0xffff then acc - 0xffff else acc

/-- The loop of `nsr_checksum`, and its treatment of an odd last byte. -/
def checksumLoop (acc : UInt32) : List UInt8 → UInt32
  | [] => acc
  | [lo] => accumulate acc (loadWord lo 0)
  | lo :: hi :: data => checksumLoop (accumulate acc (loadWord lo hi)) data

/-- `nsr_checksum`. -/
def nsrChecksum (data : List UInt8) : UInt16 :=
  (~~~(checksumLoop 0xffff data)).toUInt16

/-! ## The packet -/

/-- The bytes of an echo request around a checksum field. -/
def echoBytes (checksum id seq : UInt16) : List UInt8 :=
  [8, 0] ++ storeWord checksum ++ storeWord (htons id) ++ storeWord (htons seq)

/-- **The echo request the gatekeeper emits** for IPv4. -/
def echoRequest (id seq : UInt16) : List UInt8 :=
  echoBytes (fastIcmpChecksum (htons id) (htons seq)) id seq

/-- The 16-bit words of a packet in network order. -/
def words : List UInt8 → List ℕ
  | hi :: lo :: data => (hi.toNat * 256 + lo.toNat) :: words data
  | [hi] => [hi.toNat * 256]
  | [] => []

/-- The one's-complement sum of the words of a packet, which a receiver expects to be `0xFFFF`. -/
def onesSum (packet : List UInt8) : ℕ :=
  OnesComplement.sum 65536 (words packet)

/-! ## Words as numbers -/

theorem toNat_shiftRight_eight (w : UInt16) : (w >>> 8).toNat = w.toNat / 256 := by
  rw [UInt16.toNat_shiftRight, show (8 : UInt16).toNat % 16 = 8 from rfl,
    Nat.shiftRight_eq_div_pow]

/-- `htons` exchanges the two bytes. -/
theorem toNat_htons (w : UInt16) :
    (htons w).toNat = w.toNat % 256 * 256 + w.toNat / 256 := by
  have hw := w.toNat_lt
  have hleft : (w <<< 8).toNat = (w.toNat % 256) <<< 8 := by
    rw [UInt16.toNat_shiftLeft, show (8 : UInt16).toNat % 16 = 8 from rfl, Nat.shiftLeft_eq,
      Nat.shiftLeft_eq]
    omega
  rw [htons, UInt16.toNat_or, hleft, toNat_shiftRight_eight,
    ← Nat.shiftLeft_add_eq_or_of_lt (by omega), Nat.shiftLeft_eq]

theorem toNat_loadWord (lo hi : UInt8) : (loadWord lo hi).toNat = hi.toNat * 256 + lo.toNat := by
  have hlo := lo.toNat_lt
  have hhi := hi.toNat_lt
  have hleft : (hi.toUInt16 <<< 8).toNat = hi.toNat <<< 8 := by
    rw [UInt16.toNat_shiftLeft, show (8 : UInt16).toNat % 16 = 8 from rfl, Nat.shiftLeft_eq,
      Nat.shiftLeft_eq, UInt8.toNat_toUInt16]
    omega
  rw [loadWord, UInt16.toNat_or, hleft, UInt8.toNat_toUInt16, Nat.or_comm,
    ← Nat.shiftLeft_add_eq_or_of_lt hlo, Nat.shiftLeft_eq]

/-- Swapped bytes read the other way round. -/
theorem swapped_bytes {n : ℕ} (h : n < 65536) :
    (n % 256 * 256 + n / 256) % 256 * 256 + (n % 256 * 256 + n / 256) / 256 = n := by
  have hlo : (n % 256 * 256 + n / 256) % 256 = n / 256 := by omega
  have hhi : (n % 256 * 256 + n / 256) / 256 = n % 256 := by omega
  rw [hlo, hhi]
  omega

/-- The words of an echo request, in network order. -/
theorem words_echoBytes (checksum id seq : UInt16) :
    words (echoBytes checksum id seq) =
      [0x0800, checksum.toNat % 256 * 256 + checksum.toNat / 256, id.toNat, seq.toNat] := by
  have hword : ∀ w : UInt16, w.toUInt8.toNat * 256 + (w >>> 8).toUInt8.toNat =
      w.toNat % 256 * 256 + w.toNat / 256 := by
    intro w
    have hw := w.toNat_lt
    rw [UInt16.toNat_toUInt8, UInt16.toNat_toUInt8, toNat_shiftRight_eight]
    omega
  simp only [echoBytes, storeWord, List.cons_append, List.nil_append, words, hword, toNat_htons,
    swapped_bytes id.toNat_lt, swapped_bytes seq.toNat_lt]
  rfl

/-- Two folds of the carry are enough. -/
theorem fold_twice {n : ℕ} (h : n < 3 * 65536) :
    (n / 65536 + n % 65536 + (n / 65536 + n % 65536) / 65536) % 65536 ≡ n [MOD 65535] := by
  obtain ⟨q, r, hq, hr, rfl⟩ : ∃ q r, q < 3 ∧ r < 65536 ∧ n = 65536 * q + r :=
    ⟨n / 65536, n % 65536, by omega, by omega, by omega⟩
  have hdiv : (65536 * q + r) / 65536 = q := by omega
  have hmod : (65536 * q + r) % 65536 = r := by omega
  have hwhole : 65536 * q + r ≡ q + r [MOD 65535] := by
    rw [show 65536 * q + r = q + r + 65535 * q by omega]
    exact Nat.add_mul_mod_self_left _ _ _
  rw [hdiv, hmod]
  refine Nat.ModEq.trans ?_ hwhole.symm
  by_cases hcarry : q + r < 65536
  · rw [Nat.div_eq_of_lt hcarry, Nat.add_zero, Nat.mod_eq_of_lt hcarry]
  · have hlow : (q + r + (q + r) / 65536) % 65536 = q + r - 65535 := by
      rw [show (q + r) / 65536 = 1 by omega]
      omega
    rw [hlow]
    exact (Nat.modEq_iff_dvd' (by omega)).mpr ⟨1, by omega⟩

/-- **What `fast_icmp_checksum` computes**: the complement of the sum of its three words. -/
theorem fastIcmpChecksum_add (id seq : UInt16) :
    ∃ s, (fastIcmpChecksum id seq).toNat + s = 65535 ∧
      s ≡ 0x0800 + id.toNat + seq.toNat [MOD 65535] := by
  have hid := id.toNat_lt
  have hseq := seq.toNat_lt
  obtain ⟨sum, hsum⟩ : ∃ sum : UInt32, sum = 0x0800 + id.toUInt32 + seq.toUInt32 := ⟨_, rfl⟩
  have hsumNat : sum.toNat = 0x0800 + id.toNat + seq.toNat := by
    rw [hsum, UInt32.toNat_add, UInt32.toNat_add, UInt16.toNat_toUInt32, UInt16.toNat_toUInt32,
      show (0x0800 : UInt32).toNat = 0x0800 from rfl]
    omega
  have hshift : ∀ x : UInt32, (x >>> 16).toNat = x.toNat / 65536 := by
    intro x
    rw [UInt32.toNat_shiftRight, show (16 : UInt32).toNat % 32 = 16 from rfl,
      Nat.shiftRight_eq_div_pow]
  have hmask : (sum &&& 0xFFFF).toNat = sum.toNat % 65536 := by
    rw [UInt32.toNat_and, show (0xFFFF : UInt32).toNat = 2 ^ 16 - 1 from rfl,
      Nat.and_two_pow_sub_one_eq_mod]
  have hfold : ((sum >>> 16) + (sum &&& 0xFFFF)).toNat = sum.toNat / 65536 + sum.toNat % 65536 := by
    rw [UInt32.toNat_add, hshift, hmask]
    omega
  have hval : (fastIcmpChecksum id seq).toNat =
      65535 - (sum.toNat / 65536 + sum.toNat % 65536 +
        (sum.toNat / 65536 + sum.toNat % 65536) / 65536) % 65536 := by
    rw [fastIcmpChecksum, ← hsum, UInt32.toNat_toUInt16, UInt32.toNat_not, UInt32.toNat_add,
      hshift, hfold]
    simp only [UInt32.size]
    omega
  refine ⟨_, ?_, (fold_twice (n := sum.toNat) (by omega)).trans (hsumNat ▸ rfl)⟩
  rw [hval]
  omega

/-! ## The general loop -/

/-- The 16-bit words of a packet as the host loads them. -/
def nativeWords : List UInt8 → List ℕ
  | lo :: hi :: data => (loadWord lo hi).toNat :: nativeWords data
  | [lo] => [(loadWord lo 0).toNat]
  | [] => []

theorem toNat_accumulate {acc : UInt32} (h : acc.toNat < 65536) (word : UInt16) :
    (accumulate acc word).toNat = add 65536 acc.toNat word.toNat := by
  have hw := word.toNat_lt
  have hsum : (acc + word.toUInt32).toNat = acc.toNat + word.toNat := by
    rw [UInt32.toNat_add, UInt16.toNat_toUInt32]
    omega
  rw [accumulate, add]
  split
  · next hgt =>
    have hgt' : 65535 < acc.toNat + word.toNat := hsum ▸ UInt32.lt_iff_toNat_lt.mp hgt
    rw [if_neg (by omega), UInt32.toNat_sub_of_le _ _ (UInt32.le_iff_toNat_le.mpr ?_), hsum]
    · rfl
    · rw [hsum]
      exact hgt'.le
  · next hle =>
    have hle' : ¬65535 < acc.toNat + word.toNat := fun hlt =>
      hle (UInt32.lt_iff_toNat_lt.mpr (hsum.symm ▸ hlt))
    rw [if_pos (by omega), hsum]

/-- The loop of `nsr_checksum` is a one's-complement sum. -/
theorem toNat_checksumLoop (data : List UInt8) (acc : UInt32) (h : acc.toNat < 65536) :
    (checksumLoop acc data).toNat = (nativeWords data).foldl (add 65536) acc.toNat := by
  induction data using nativeWords.induct generalizing acc with
  | case1 lo hi data ih =>
    have hlt := toNat_accumulate h (loadWord lo hi)
    rw [checksumLoop, nativeWords, List.foldl_cons, ← hlt]
    refine ih _ ?_
    rw [hlt]
    exact add_lt (by decide) h (loadWord lo hi).toNat_lt
  | case2 lo =>
    rw [checksumLoop, nativeWords, toNat_accumulate h]
    rfl
  | case3 => rfl

/-- **What `nsr_checksum` computes**: the complement of the sum of the words. -/
theorem nsrChecksum_add (data : List UInt8) :
    ∃ s, (nsrChecksum data).toNat + s = 65535 ∧ s ≡ (nativeWords data).sum [MOD 65535] := by
  have hloop := toNat_checksumLoop data 0xffff (by decide)
  have hwords : ∀ w ∈ nativeWords data, w < 65536 := by
    induction data using nativeWords.induct with
    | case1 lo hi data ih =>
      intro w hw
      rw [nativeWords, List.mem_cons] at hw
      rcases hw with rfl | hw
      · exact (loadWord lo hi).toNat_lt
      · exact ih (toNat_checksumLoop data 0xffff (by decide)) w hw
    | case2 lo =>
      intro w hw
      rw [nativeWords, List.mem_singleton] at hw
      rw [hw]
      exact (loadWord lo 0).toNat_lt
    | case3 => simp [nativeWords]
  have hlt := foldl_lt (by decide) hwords (show (0xffff : UInt32).toNat < 65536 by decide)
  refine ⟨(checksumLoop 0xffff data).toNat, ?_, ?_⟩
  · rw [nsrChecksum, UInt32.toNat_toUInt16, UInt32.toNat_not]
    rw [← hloop] at hlt
    simp only [UInt32.size]
    omega
  · rw [hloop]
    refine (foldl_modEq (by decide) _ _).trans ?_
    exact Nat.add_mod_left 65535 _

/-- Read natively, the first word of an echo request is `0x0008`. -/
theorem nativeWords_echoBytes (checksum id seq : UInt16) :
    nativeWords (echoBytes checksum id seq) =
      [0x0008, checksum.toNat, (htons id).toNat, (htons seq).toNat] := by
  have hword : ∀ w : UInt16, (loadWord w.toUInt8 (w >>> 8).toUInt8).toNat = w.toNat := by
    intro w
    have hw := w.toNat_lt
    rw [toNat_loadWord, UInt16.toNat_toUInt8, UInt16.toNat_toUInt8, toNat_shiftRight_eight]
    omega
  simp only [echoBytes, storeWord, List.cons_append, List.nil_append, nativeWords, hword]
  rfl

/-! ## What the receiver sums up -/

/-- Swapping the bytes of a word multiplies it by 256, modulo `65535`. -/
theorem swapped_modEq (n : ℕ) : n % 256 * 256 + n / 256 ≡ 256 * n [MOD 65535] := by
  have h : 256 * n = n % 256 * 256 + n / 256 + 65535 * (n / 256) := by omega
  rw [h]
  exact (Nat.add_mul_mod_self_left _ _ _).symm

/-- **The words of an echo request** whose checksum is the complement of a sum that took the first
word to be `first`. -/
theorem onesSum_echoBytes {checksum id seq : UInt16} {first s : ℕ}
    (hs : checksum.toNat + s = 65535)
    (hmod : s ≡ first + (htons id).toNat + (htons seq).toNat [MOD 65535]) :
    onesSum (echoBytes checksum id seq) + 256 * first ≡ 0x0800 [MOD 65535] := by
  have hback : ∀ w : UInt16, 256 * (htons w).toNat ≡ w.toNat [MOD 65535] := by
    intro w
    rw [toNat_htons]
    refine ((swapped_modEq w.toNat).mul_left 256).trans ?_
    rw [show 256 * (256 * w.toNat) = w.toNat + 65535 * w.toNat by omega]
    exact Nat.add_mul_mod_self_left _ _ _
  have hids : 256 * s ≡ 256 * first + id.toNat + seq.toNat [MOD 65535] := by
    refine (hmod.mul_left 256).trans ?_
    rw [Nat.mul_add, Nat.mul_add]
    exact ((Nat.ModEq.refl _).add (hback id)).add (hback seq)
  have hcomplement : 256 * checksum.toNat + 256 * s ≡ 0 [MOD 65535] := by
    rw [← Nat.mul_add, hs]
    exact Nat.mul_mod_left 256 65535
  have hsum := sum_modEq (b := 65536) (by decide) (words (echoBytes checksum id seq))
  rw [words_echoBytes] at hsum
  rw [onesSum, words_echoBytes]
  calc OnesComplement.sum 65536 _ + 256 * first
      ≡ [0x0800, checksum.toNat % 256 * 256 + checksum.toNat / 256, id.toNat, seq.toNat].sum +
          256 * first [MOD 65535] := hsum.add_right _
    _ = 0x0800 + (checksum.toNat % 256 * 256 + checksum.toNat / 256 +
          (256 * first + id.toNat + seq.toNat)) := by
        simp only [List.sum_cons, List.sum_nil]
        omega
    _ ≡ 0x0800 + (256 * checksum.toNat + 256 * s) [MOD 65535] :=
        ((swapped_modEq _).add hids.symm).add_left _
    _ ≡ 0x0800 + 0 [MOD 65535] := hcomplement.add_left _

/-- The sum of an echo request is a word other than zero. -/
theorem onesSum_echoBytes_bounds (checksum id seq : UInt16) :
    0 < onesSum (echoBytes checksum id seq) ∧ onesSum (echoBytes checksum id seq) < 65536 := by
  have hsum := checksum.toNat_lt
  have hid := id.toNat_lt
  have hseq := seq.toNat_lt
  rw [onesSum, words_echoBytes]
  refine ⟨sum_cons_pos (by decide) (by decide) _, sum_lt (by decide) ?_⟩
  simp only [List.mem_cons, List.not_mem_nil, or_false]
  rintro w (rfl | rfl | rfl | rfl) <;> omega

/-- **The words of every probe sum to `0x07F8`**: `0x0800` as the receiver reads the first word, less
`0x0008`, which is `0x0800` read the other way round. -/
theorem onesSum_echoRequest (id seq : UInt16) : onesSum (echoRequest id seq) = 0x07F8 := by
  obtain ⟨s, hs, hmod⟩ := fastIcmpChecksum_add (htons id) (htons seq)
  have h := onesSum_echoBytes hs hmod
  obtain ⟨hpos, hlt⟩ := onesSum_echoBytes_bounds (fastIcmpChecksum (htons id) (htons seq)) id seq
  refine eq_of_modEq hpos hlt (by decide) (by decide) ?_
  refine Nat.ModEq.add_right_cancel' 8 ?_
  exact (Nat.ModEq.add_left _ (by decide : 8 ≡ 256 * 0x0800 [MOD 65535])).trans h

/-- **With the checksum of `nsr_checksum` an echo request verifies.** -/
theorem onesSum_checksummed (id seq : UInt16) :
    onesSum (echoBytes (nsrChecksum (echoBytes 0 id seq)) id seq) = 0xFFFF := by
  obtain ⟨s, hs, hmod⟩ := nsrChecksum_add (echoBytes 0 id seq)
  have hmod' : s ≡ 0x0008 + (htons id).toNat + (htons seq).toNat [MOD 65535] := by
    rw [nativeWords_echoBytes] at hmod
    simpa [Nat.add_assoc] using hmod
  have h := onesSum_echoBytes hs hmod'
  obtain ⟨hpos, hlt⟩ := onesSum_echoBytes_bounds (nsrChecksum (echoBytes 0 id seq)) id seq
  refine eq_of_modEq hpos hlt (by decide) (by decide) ?_
  refine Nat.ModEq.add_right_cancel' (256 * 0x0008) ?_
  exact h.trans (by decide)

/-- **No probe verifies.**  For every id and every sequence number the words of the echo request the
gatekeeper emits do not sum to `0xFFFF`, and its checksum is not the one `nsr_checksum` computes for
the packet with a zero checksum field. -/
theorem checksum_never_verifies (id seq : UInt16) :
    onesSum (echoRequest id seq) ≠ 0xFFFF ∧
      fastIcmpChecksum (htons id) (htons seq) ≠ nsrChecksum (echoBytes 0 id seq) := by
  have hsum := onesSum_echoRequest id seq
  refine ⟨by omega, fun heq => ?_⟩
  have hgood := onesSum_checksummed id seq
  rw [← heq, ← echoRequest, hsum] at hgood
  omega

/-- The first probe of process 1: the bytes `08 00 ff f6 00 01 00 00`. -/
theorem checksum_first_probe :
    echoRequest 1 0 = [0x08, 0x00, 0xff, 0xf6, 0x00, 0x01, 0x00, 0x00] ∧
      onesSum (echoRequest 1 0) ≠ 0xFFFF ∧
      fastIcmpChecksum (htons 1) (htons 0) ≠ nsrChecksum (echoBytes 0 1 0) := by
  decide +kernel

end Checksum
end Nsr
