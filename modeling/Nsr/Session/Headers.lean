import Nsr.Lib.BoundedLoop
import Nsr.Session.Receive

/-!
# IPv6 extension headers

The repository walks the extension headers of an IPv6 packet twice: `parse_ipv6_original_icmp6`
(`src/io/gatekeeper.c`) in the packet quoted by an error message, and `ipv6_transport_offset`
(`plugins/sniffer/src/main.rs`) in a captured one.  There are three rules for the length of a
header, and a chain may be as long as the packet.

* `Chain buf next off last off'`: a header of type `next` at `off` starts a chain of extension
  headers that ends with a header of type `last` at `off'`.
* `walkOriginal_ext`, `walkOriginal_icmp`, `walkOriginal_other`: the rounds of the first walk.
* `walkOriginal_ok_iff`: what it finds.  `walkOriginal_inBounds`: it stays inside the bytes.
* `transportStep`, `transportLoop`, `transportLoop_iff`: the second walk and what it finds.
* `walkers_agree`: both walks end, and agree.
-/

namespace Nsr
namespace Receive

open BoundedLoop

/-! ## Reading -/

/-- The big-endian word at `i`. -/
def wordAt (buf : List UInt8) (i : ℕ) : UInt16 :=
  (buf.getD i 0).toUInt16 <<< 8 ||| (buf.getD (i + 1) 0).toUInt16

theorem readByte_of_lt {buf : List UInt8} {i : ℕ} (h : i < buf.length) :
    readByte buf i = .ok (buf.getD i 0) := by
  rw [readByte, List.getD_eq_getElem?_getD, List.getElem?_eq_getElem h]
  rfl

theorem readBe16_of_lt {buf : List UInt8} {i : ℕ} (h : i + 1 < buf.length) :
    readBe16 buf i = .ok (wordAt buf i) := by
  rw [readBe16, readByte_of_lt (Nat.lt_of_succ_lt h), readByte_of_lt h]
  rfl

/-! ## Chains -/

/-- The extension headers that are walked over: hop-by-hop options, routing, destination options,
fragment, authentication. -/
def IsExt (next : UInt8) : Prop :=
  next = 0 ∨ next = 43 ∨ next = 60 ∨ next = 44 ∨ next = 51

instance (next : UInt8) : Decidable (IsExt next) :=
  inferInstanceAs (Decidable (_ ∨ _ ∨ _ ∨ _ ∨ _))

/-- The length of an extension header, from its type and its second byte: 8 for a fragment header,
4-byte units for an authentication header, and 8-byte units for the others. -/
def extLen (next len : UInt8) : ℕ :=
  if next = 44 then 8 else if next = 51 then (len.toNat + 2) * 4 else (len.toNat + 1) * 8

theorem extLen_options {next : UInt8} (h : next = 0 ∨ next = 43 ∨ next = 60) (len : UInt8) :
    extLen next len = (len.toNat + 1) * 8 := by
  rcases h with rfl | rfl | rfl
  all_goals rfl

theorem extLen_fragment (len : UInt8) : extLen 44 len = 8 := rfl

theorem extLen_auth (len : UInt8) : extLen 51 len = (len.toNat + 2) * 4 := rfl

theorem eight_le_extLen (next len : UInt8) : 8 ≤ extLen next len := by
  unfold extLen
  split_ifs
  all_goals omega

/-- **A chain of extension headers.** -/
inductive Chain (buf : List UInt8) : UInt8 → ℕ → UInt8 → ℕ → Prop
  | stop {next : UInt8} {off : ℕ} (hstop : ¬IsExt next) : Chain buf next off next off
  | ext {next next' len last : UInt8} {off off' : ℕ} (hext : IsExt next)
    (hnext : buf[off]? = some next') (hlen : buf[off + 1]? = some len)
    (rest : Chain buf next' (off + extLen next len) last off') : Chain buf next off last off'

theorem Chain.le {buf : List UInt8} {next last : UInt8} {off off' : ℕ}
    (h : Chain buf next off last off') : off ≤ off' := by
  induction h with
  | stop _ => exact Nat.le_refl _
  | ext _ _ _ _ ih => exact Nat.le_trans (Nat.le_add_right _ _) ih

theorem getD_of_getElem? {buf : List UInt8} {i : ℕ} {b : UInt8} (h : buf[i]? = some b) :
    buf.getD i 0 = b := by
  rw [List.getD_eq_getElem?_getD, h]
  rfl

theorem getElem?_of_lt {buf : List UInt8} {i : ℕ} (h : i < buf.length) :
    buf[i]? = some (buf.getD i 0) := by
  rw [List.getD_eq_getElem?_getD, List.getElem?_eq_getElem h]
  rfl

/-! ## The walk in a quoted packet -/

section Walk

variable {buf : List UInt8} {fin : ℕ} (hfin : fin ≤ buf.length)

include hfin

/-- An extension header is passed if it ends inside the quoted packet. -/
theorem walkOriginal_ext {next : UInt8} (hext : IsExt next) (off : ℕ) :
    walkOriginal buf fin next off =
      if fin < off + extLen next (buf.getD (off + 1) 0) then .error .skip
      else walkOriginal buf fin (buf.getD off 0) (off + extLen next (buf.getD (off + 1) 0)) := by
  have hlong := eight_le_extLen next (buf.getD (off + 1) 0)
  by_cases hend : fin < off + 2
  · -- not even its first two bytes are there
    rw [if_pos (by omega)]
    rcases hext with rfl | rfl | rfl | rfl | rfl
    all_goals
      unfold walkOriginal
      simp only
      rw [dif_pos (by omega)]
  have hb := readByte_of_lt (show off < buf.length by omega)
  have hb' := readByte_of_lt (show off + 1 < buf.length by omega)
  rcases hext with rfl | rfl | rfl | rfl | rfl
  case inr.inr.inr.inl =>
    rw [walkOriginal]
    simp only [hb, extLen_fragment]
    rfl
  case inr.inr.inr.inr =>
    rw [walkOriginal]
    simp only [hb, hb', extLen_auth]
    rw [dif_neg (by omega)]
    rfl
  all_goals
    rw [walkOriginal]
    simp only [hb, hb']
    rw [dif_neg (by omega), extLen_options (by decide)]
    rfl

theorem walkOriginal_icmp (off : ℕ) :
    walkOriginal buf fin 58 off =
      if fin < off + 8 then .error .skip
      else if buf.getD off 0 ≠ 128 then .error .skip
      else .ok (wordAt buf (off + 4), wordAt buf (off + 6)) := by
  unfold walkOriginal
  simp only
  by_cases hend : fin < off + 8
  · rw [if_pos hend, if_pos hend]
  · have hb := readByte_of_lt (show off < buf.length by omega)
    have hid := readBe16_of_lt (show off + 4 + 1 < buf.length by omega)
    have hseq := readBe16_of_lt (show off + 6 + 1 < buf.length by omega)
    rw [if_neg hend, if_neg hend, hb, hid, hseq]
    rfl

end Walk

theorem walkOriginal_other {buf : List UInt8} {fin : ℕ} {next : UInt8} (hext : ¬IsExt next)
    (hicmp : next ≠ 58) (off : ℕ) : walkOriginal buf fin next off = .error .skip := by
  unfold IsExt at hext
  unfold walkOriginal
  split
  all_goals first | rfl | simp_all

/-- **What the walk in a quoted packet finds**: the words of the echo request at the end of a chain,
if it lies inside the quoted packet. -/
theorem walkOriginal_ok_iff {buf : List UInt8} {fin : ℕ} (hfin : fin ≤ buf.length) {next : UInt8}
    {off : ℕ} {id seq : UInt16} :
    walkOriginal buf fin next off = .ok (id, seq) ↔
      ∃ off', Chain buf next off 58 off' ∧ off' + 8 ≤ fin ∧ buf[off']? = some 128 ∧
        wordAt buf (off' + 4) = id ∧ wordAt buf (off' + 6) = seq := by
  constructor
  · intro h
    -- the rounds of the walk, by the distance to the end of the quoted packet
    induction hn : fin - off using Nat.strongRecOn generalizing next off with
    | ind n ih =>
      by_cases hext : IsExt next
      · rw [walkOriginal_ext hfin hext] at h
        have hlong := eight_le_extLen next (buf.getD (off + 1) 0)
        split at h
        · exact nomatch h
        · obtain ⟨off', hchain, hrest⟩ := ih _ (by omega) h rfl
          exact ⟨off', .ext hext (getElem?_of_lt (by omega)) (getElem?_of_lt (by omega)) hchain,
            hrest⟩
      by_cases hicmp : next = 58
      · subst hicmp
        rw [walkOriginal_icmp hfin] at h
        split at h
        · exact nomatch h
        split at h
        · exact nomatch h
        next hend htype =>
        obtain ⟨hid, hseq⟩ := Prod.mk.inj (Except.ok.inj h)
        refine ⟨off, .stop hext, by omega, ?_, hid, hseq⟩
        rw [getElem?_of_lt (by omega), not_not.mp htype]
      · rw [walkOriginal_other hext hicmp] at h
        exact nomatch h
  · rintro ⟨off', hchain, hend, htype, rfl, rfl⟩
    generalize hlast : (58 : UInt8) = last at hchain
    induction hchain with
    | stop hstop =>
      subst hlast
      have hbyte := getD_of_getElem? htype
      rw [walkOriginal_icmp hfin, if_neg (by omega), if_neg (by rw [hbyte]; decide)]
    | ext hext hnext hlen rest ih =>
      have hle := rest.le
      rw [walkOriginal_ext hfin hext, getD_of_getElem? hnext, getD_of_getElem? hlen,
        if_neg (by omega)]
      exact ih hend htype hlast

/-- **The walk in a quoted packet reads no byte outside of it.** -/
theorem walkOriginal_inBounds {buf : List UInt8} {fin : ℕ} (hfin : fin ≤ buf.length)
    (next : UInt8) (off : ℕ) : walkOriginal buf fin next off ≠ .error .outOfBounds := by
  induction hn : fin - off using Nat.strongRecOn generalizing next off with
  | ind n ih =>
    by_cases hext : IsExt next
    · rw [walkOriginal_ext hfin hext]
      have hlong := eight_le_extLen next (buf.getD (off + 1) 0)
      split
      · exact fun h => nomatch h
      · exact ih _ (by omega) _ _ rfl
    by_cases hicmp : next = 58
    · subst hicmp
      rw [walkOriginal_icmp hfin]
      split
      · exact fun h => nomatch h
      split
      · exact fun h => nomatch h
      · exact fun h => nomatch h
    · rw [walkOriginal_other hext hicmp]
      exact fun h => nomatch h

/-- One round of the loop of `parse_ipv6_original_icmp6`: the type of the header at an offset, and
the offset. -/
def walkStep (buf : List UInt8) (fin : ℕ) (s : UInt8 × ℕ) :
    (UInt8 × ℕ) ⊕ Except RxError (UInt16 × UInt16) :=
  match s.1 with
  | 0 | 43 | 60 =>
      if s.2 + 2 > fin then .inr (.error .skip)
      else
        match readByte buf s.2, readByte buf (s.2 + 1) with
        | .ok next, .ok len =>
            if s.2 + (len.toNat + 1) * 8 > fin then .inr (.error .skip)
            else .inl (next, s.2 + (len.toNat + 1) * 8)
        | .error e, _ => .inr (.error e)
        | _, .error e => .inr (.error e)
  | 44 =>
      if s.2 + 8 > fin then .inr (.error .skip)
      else
        match readByte buf s.2 with
        | .ok next => .inl (next, s.2 + 8)
        | .error e => .inr (.error e)
  | 51 =>
      if s.2 + 2 > fin then .inr (.error .skip)
      else
        match readByte buf s.2, readByte buf (s.2 + 1) with
        | .ok next, .ok len =>
            if s.2 + (len.toNat + 2) * 4 > fin then .inr (.error .skip)
            else .inl (next, s.2 + (len.toNat + 2) * 4)
        | .error e, _ => .inr (.error e)
        | _, .error e => .inr (.error e)
  | 58 =>
      if s.2 + 8 > fin then .inr (.error .skip)
      else .inr <| do
        let type ← readByte buf s.2
        if type ≠ 128 then .error .skip
        else
          let rid ← readBe16 buf (s.2 + 4)
          let rseq ← readBe16 buf (s.2 + 6)
          return (rid, rseq)
  | _ => .inr (.error .skip)

theorem walkStep_ext {buf : List UInt8} {fin : ℕ} (hfin : fin ≤ buf.length) {next : UInt8}
    (hext : IsExt next) (off : ℕ) :
    walkStep buf fin (next, off) =
      if fin < off + extLen next (buf.getD (off + 1) 0) then .inr (.error .skip)
      else .inl (buf.getD off 0, off + extLen next (buf.getD (off + 1) 0)) := by
  have hlong := eight_le_extLen next (buf.getD (off + 1) 0)
  by_cases hend : fin < off + 2
  · rw [if_pos (by omega)]
    rcases hext with rfl | rfl | rfl | rfl | rfl
    all_goals
      unfold walkStep
      simp only
      rw [if_pos (by omega)]
  have hb := readByte_of_lt (show off < buf.length by omega)
  have hb' := readByte_of_lt (show off + 1 < buf.length by omega)
  rcases hext with rfl | rfl | rfl | rfl | rfl
  case inr.inr.inr.inl =>
    unfold walkStep
    simp only [hb, extLen_fragment]
    rfl
  case inr.inr.inr.inr =>
    unfold walkStep
    simp only [hb, hb', extLen_auth]
    rw [if_neg (by omega)]
    rfl
  all_goals
    unfold walkStep
    simp only [hb, hb']
    rw [if_neg (by omega), extLen_options (by decide)]

theorem walkStep_other {buf : List UInt8} {fin : ℕ} {next : UInt8} (hext : ¬IsExt next)
    (off : ℕ) : walkStep buf fin (next, off) = .inr (walkOriginal buf fin next off) := by
  by_cases hicmp : next = 58
  · subst hicmp
    unfold walkStep walkOriginal
    simp only
    split
    · rfl
    · rfl
  · rw [walkOriginal_other hext hicmp]
    unfold IsExt at hext
    unfold walkStep
    dsimp only
    split
    all_goals first | rfl | simp_all

/-- Every round that goes on has passed a header. -/
theorem walkStep_decreases {buf : List UInt8} {fin : ℕ} {s s' : UInt8 × ℕ}
    (h : walkStep buf fin s = .inl s') : fin - s'.2 < fin - s.2 := by
  unfold walkStep at h
  repeat' split at h
  all_goals
    first
      | exact absurd h Sum.inr_ne_inl
      | (obtain rfl := Sum.inl.inj h
         dsimp only
         omega)

/-- The loop of `parse_ipv6_original_icmp6`. -/
def walkLoop (buf : List UInt8) (fin : ℕ) :
    Loop (UInt8 × ℕ) (Except RxError (UInt16 × UInt16)) where
  body := walkStep buf fin
  measure := fun s => fin - s.2
  decreases := walkStep_decreases

/-- The walk in a quoted packet is this loop. -/
theorem walkLoop_run {buf : List UInt8} {fin : ℕ} (hfin : fin ≤ buf.length) (next : UInt8)
    (off : ℕ) : (walkLoop buf fin).run (next, off) = walkOriginal buf fin next off := by
  induction hn : fin - off using Nat.strongRecOn generalizing next off with
  | ind n ih =>
    have hlong := eight_le_extLen next (buf.getD (off + 1) 0)
    rw [Loop.run_eq]
    by_cases hext : IsExt next
    · have hbody : (walkLoop buf fin).body (next, off) = _ := walkStep_ext hfin hext off
      rw [hbody, walkOriginal_ext hfin hext]
      split
      · rfl
      · exact ih _ (by omega) _ _ rfl
    · have hbody : (walkLoop buf fin).body (next, off) = _ := walkStep_other hext off
      rw [hbody]
      rfl

/-- `parse_ipv6_original_icmp6`, with its reads done. -/
theorem parseIpv6OriginalIcmp6_eq {buf : List UInt8} {ip6Off : ℕ}
    (hlen : ip6Off + 40 ≤ buf.length) :
    parseIpv6OriginalIcmp6 buf ip6Off =
      walkOriginal buf (min (ip6Off + 40 + (wordAt buf (ip6Off + 4)).toNat) buf.length)
        (buf.getD (ip6Off + 6) 0) (ip6Off + 40) := by
  rw [parseIpv6OriginalIcmp6, if_neg (by omega), readByte_of_lt (by omega),
    readBe16_of_lt (by omega)]
  rfl

/-! ## The walk in a captured packet -/

/-- One round of the loop of `ipv6_transport_offset`: the type of the header at an offset, and the
offset.  Every index is below the length that was just checked. -/
def transportStep (data : List UInt8) (s : UInt8 × ℕ) :
    (UInt8 × ℕ) ⊕ Option (UInt8 × ℕ) :=
  match s.1 with
  | 0 | 43 | 60 =>
      if data.length < s.2 + 2 then .inr none
      else
        let hdrLen := ((data.getD (s.2 + 1) 0).toNat + 1) * 8
        if hdrLen = 0 ∨ data.length < s.2 + hdrLen then .inr none
        else .inl (data.getD s.2 0, s.2 + hdrLen)
  | 44 =>
      if data.length < s.2 + 8 then .inr none else .inl (data.getD s.2 0, s.2 + 8)
  | 51 =>
      if data.length < s.2 + 2 then .inr none
      else
        let hdrLen := ((data.getD (s.2 + 1) 0).toNat + 2) * 4
        if hdrLen = 0 ∨ data.length < s.2 + hdrLen then .inr none
        else .inl (data.getD s.2 0, s.2 + hdrLen)
  | next => .inr (some (next, s.2))

theorem transportStep_ext (data : List UInt8) {next : UInt8} (hext : IsExt next) (off : ℕ) :
    transportStep data (next, off) =
      if data.length < off + extLen next (data.getD (off + 1) 0) then .inr none
      else .inl (data.getD off 0, off + extLen next (data.getD (off + 1) 0)) := by
  have hlong := eight_le_extLen next (data.getD (off + 1) 0)
  by_cases hend : data.length < off + 2
  · rw [if_pos (by omega)]
    rcases hext with rfl | rfl | rfl | rfl | rfl
    all_goals
      unfold transportStep
      simp only
      rw [if_pos (by omega)]
  rcases hext with rfl | rfl | rfl | rfl | rfl
  case inr.inr.inr.inl => rfl
  case inr.inr.inr.inr =>
    unfold transportStep
    simp only [extLen_auth]
    rw [if_neg hend]
    simp only [Nat.mul_eq_zero, Nat.add_eq_zero_iff]
    simp
  all_goals
    unfold transportStep
    simp only
    rw [if_neg hend, extLen_options (by decide)]
    simp

theorem transportStep_other (data : List UInt8) {next : UInt8} (hext : ¬IsExt next) (off : ℕ) :
    transportStep data (next, off) = .inr (some (next, off)) := by
  unfold IsExt at hext
  unfold transportStep
  dsimp only
  split
  all_goals first | rfl | simp_all

/-- The loop of `ipv6_transport_offset`: every round that goes on has passed a header. -/
def transportLoop (data : List UInt8) : Loop (UInt8 × ℕ) (Option (UInt8 × ℕ)) where
  body := transportStep data
  measure := fun s => data.length - s.2
  decreases := by
    rintro ⟨next, off⟩ s' h
    by_cases hext : IsExt next
    · have hlong := eight_le_extLen next (data.getD (off + 1) 0)
      rw [transportStep_ext data hext] at h
      split at h
      · exact nomatch h
      · obtain rfl := Sum.inl.inj h
        dsimp only
        omega
    · rw [transportStep_other data hext] at h
      exact nomatch h

/-- **`ipv6_transport_offset`**: the type and the offset of the header behind the extension
headers. -/
def ipv6TransportOffset (data : List UInt8) (next : UInt8) : Option (UInt8 × ℕ) :=
  (transportLoop data).run (next, 40)

/-- **What the walk in a captured packet finds**: the end of a chain that lies inside the packet. -/
theorem transportLoop_iff {data : List UInt8} {next last : UInt8} {off off' : ℕ}
    (hoff : off ≤ data.length) :
    (transportLoop data).run (next, off) = some (last, off') ↔
      Chain data next off last off' ∧ off' ≤ data.length := by
  constructor
  · intro h
    induction hn : data.length - off using Nat.strongRecOn generalizing next off with
    | ind n ih =>
      rw [Loop.run_eq] at h
      by_cases hext : IsExt next
      · have hbody : (transportLoop data).body (next, off) = _ := transportStep_ext data hext off
        have hlong := eight_le_extLen next (data.getD (off + 1) 0)
        rw [hbody] at h
        split at h
        · exact nomatch h
        · obtain ⟨hchain, hle⟩ := ih _ (by omega) (by omega) h rfl
          exact ⟨.ext hext (getElem?_of_lt (by omega)) (getElem?_of_lt (by omega)) hchain, hle⟩
      · have hbody : (transportLoop data).body (next, off) = _ := transportStep_other data hext off
        rw [hbody] at h
        obtain ⟨rfl, rfl⟩ := Prod.mk.inj (Option.some_inj.mp h)
        exact ⟨.stop hext, hoff⟩
  · rintro ⟨hchain, hle⟩
    induction hchain with
    | @stop next off hstop =>
      have hbody : (transportLoop data).body (next, off) = _ := transportStep_other data hstop off
      rw [Loop.run_eq, hbody]
      rfl
    | @ext next next' len last off off' hext hnext hlen rest ih =>
      have hrest := rest.le
      have hbody : (transportLoop data).body (next, off) = _ := transportStep_ext data hext off
      rw [Loop.run_eq, hbody, getD_of_getElem? hnext, getD_of_getElem? hlen, if_neg (by omega)]
      exact ih (by omega) hle

/-! ## Agreement -/

/-- **The two walks agree.**  Let a buffer hold an IPv6 packet from its first byte on, no longer
than its payload length says.  Both walks end within as many rounds as the buffer is long, and the
first one succeeds with `id` and `seq` if and only if the second one ends with an ICMPv6 header that
lies inside the buffer and is an echo request with these words. -/
theorem walkers_agree {d : List UInt8} (hlow : 40 ≤ d.length)
    (hhigh : d.length ≤ 40 + (wordAt d 4).toNat) {next : UInt8} (hnext : d[6]? = some next) :
    iterate (walkStep d d.length) (d.length + 1) (next, 40) =
        some (parseIpv6OriginalIcmp6 d 0) ∧
      iterate (transportStep d) (d.length + 1) (next, 40) = some (ipv6TransportOffset d next) ∧
      ∀ id seq, parseIpv6OriginalIcmp6 d 0 = .ok (id, seq) ↔
        ∃ off, ipv6TransportOffset d next = some (58, off) ∧ off + 8 ≤ d.length ∧
          d[off]? = some 128 ∧ wordAt d (off + 4) = id ∧ wordAt d (off + 6) = seq := by
  have hparse : parseIpv6OriginalIcmp6 d 0 = walkOriginal d d.length next 40 := by
    rw [parseIpv6OriginalIcmp6_eq (by omega), Nat.zero_add, Nat.zero_add, Nat.zero_add,
      getD_of_getElem? hnext, Nat.min_eq_right hhigh]
  refine ⟨?_, ?_, fun id seq => ?_⟩
  · rw [hparse, ← walkLoop_run (Nat.le_refl _)]
    exact (walkLoop d d.length).iterate_eq_run (Nat.lt_succ_of_le (Nat.sub_le _ _))
  · exact (transportLoop d).iterate_eq_run (Nat.lt_succ_of_le (Nat.sub_le _ _))
  rw [hparse, walkOriginal_ok_iff (Nat.le_refl _)]
  constructor
  · rintro ⟨off, hchain, hend, hrest⟩
    exact ⟨off, (transportLoop_iff hlow).mpr ⟨hchain, by omega⟩, hend, hrest⟩
  · rintro ⟨off, htransport, hend, hrest⟩
    exact ⟨off, ((transportLoop_iff hlow).mp htransport).1, hend, hrest⟩

/-- A packet with one header of destination options before an echo request with id 7 and sequence
number 9. -/
def optionsThenEcho : List UInt8 :=
  [0x60, 0, 0, 0, 0, 16, 60, 64] ++ List.replicate 32 0 ++ [58, 0, 0, 0, 0, 0, 0, 0] ++
    [128, 0, 0, 0, 0, 7, 0, 9]

/-- Both walks pass the options and find the echo request at offset 48. -/
theorem walkers_agree_options :
    ipv6TransportOffset optionsThenEcho 60 = some (58, 48) ∧
      parseIpv6OriginalIcmp6 optionsThenEcho 0 = .ok (7, 9) := by
  have hoff : ipv6TransportOffset optionsThenEcho 60 = some (58, 48) := by decide +kernel
  refine ⟨hoff, ?_⟩
  have hnext : optionsThenEcho[6]? = some 60 := rfl
  have hagree := walkers_agree (by decide) (by decide) hnext
  exact (hagree.2.2 7 9).mpr ⟨48, hoff, by decide, by decide, by decide, by decide⟩

end Receive
end Nsr
