import Mathlib.Tactic.IntervalCases
import Nsr.Session.Checksum
import Nsr.Session.Gatekeeper
import Nsr.Session.Headers

/-!
# Which probe a received message answers

The gatekeeper writes its id and a sequence number into every probe, and reads them back out of
echo replies and out of the packets that errors quote.  The offsets of the second reading come from
header length fields at two levels, which anybody on the network may fill in.

* `parseIpv4_eq`, `parseIpv6_eq`: the receive path with its reads done.
* `Answer id seq buf isV6 type`: `buf` is a message of that type that answers a probe.
* `decode_undoes_encode`: every answer is understood, and no buffer is read past its end.
* `Coincides gk buf`: an IPv4 error that carries the words of an active probe.
* `onlyProbes_iff`: the IPv4 branch takes whatever an error quotes for a probe; the IPv6 branch does
  not.
-/

namespace Nsr
namespace Receive

open Checksum

/-! ## The receive path with its reads done -/

/-- The header length of the IPv4 header at `off`, in 4-byte units. -/
def ihlAt (buf : List UInt8) (off : ℕ) : ℕ := (buf.getD off 0 &&& 0x0f).toNat

/-- Where the ICMP message of an IPv4 packet starts. -/
def icmpOff (buf : List UInt8) : ℕ := ihlAt buf 0 * 4

/-- Where the IPv4 header that an error quotes starts. -/
def quotedOff (buf : List UInt8) : ℕ := icmpOff buf + 8

/-- Where what the quoted header carried starts. -/
def quotedPayload (buf : List UInt8) : ℕ := quotedOff buf + ihlAt buf (quotedOff buf) * 4

/-- An IPv4 header at the front, and eight bytes behind it. -/
structure IsIpv4 (buf : List UInt8) : Prop where
  version : buf.getD 0 0 >>> 4 = 4
  ihl : 5 ≤ ihlAt buf 0
  fits : icmpOff buf + 8 ≤ buf.length

/-- A header at the quoted place, and eight bytes behind it. -/
structure QuotesHeader (buf : List UInt8) : Prop where
  ihl : 5 ≤ ihlAt buf (quotedOff buf)
  fits : quotedPayload buf + 8 ≤ buf.length

instance (buf : List UInt8) : Decidable (IsIpv4 buf) :=
  decidable_of_iff (buf.getD 0 0 >>> 4 = 4 ∧ 5 ≤ ihlAt buf 0 ∧ icmpOff buf + 8 ≤ buf.length)
    ⟨fun ⟨h, h', h''⟩ => ⟨h, h', h''⟩, fun h => ⟨h.version, h.ihl, h.fits⟩⟩

instance (buf : List UInt8) : Decidable (QuotesHeader buf) :=
  decidable_of_iff (5 ≤ ihlAt buf (quotedOff buf) ∧ quotedPayload buf + 8 ≤ buf.length)
    ⟨fun ⟨h, h'⟩ => ⟨h, h'⟩, fun h => ⟨h.ihl, h.fits⟩⟩

/-- The type of an observation made from an IPv4 error. -/
def errorObs (type : UInt8) : ObsType := if type = 3 then .unreach else .exceeded

theorem ok_bind {ε α β : Type} (a : α) (f : α → Except ε β) : (Except.ok a >>= f) = f a := rfl

-- proved by rewriting, so that `simp only` carries the decidability instances along
theorem ihlAt_eq (buf : List UInt8) (off : ℕ) :
    (buf.getD off 0 &&& 15).toNat = ihlAt buf off := by rw [ihlAt]

theorem icmpOff_eq (buf : List UInt8) : ihlAt buf 0 * 4 = icmpOff buf := by rw [icmpOff]

theorem quotedOff_eq (buf : List UInt8) : icmpOff buf + 8 = quotedOff buf := by rw [quotedOff]

theorem quotedPayload_eq (buf : List UInt8) :
    quotedOff buf + ihlAt buf (quotedOff buf) * 4 = quotedPayload buf := by rw [quotedPayload]

/-- The IPv4 branch. -/
theorem parseIpv4_eq (buf : List UInt8) :
    parseIpv4 buf =
      if IsIpv4 buf then
        if buf.getD (icmpOff buf) 0 = 0 then
          .ok ⟨.reply, wordAt buf (icmpOff buf + 4), wordAt buf (icmpOff buf + 6)⟩
        else if buf.getD (icmpOff buf) 0 = 11 ∨ buf.getD (icmpOff buf) 0 = 3 then
          if QuotesHeader buf then
            .ok ⟨errorObs (buf.getD (icmpOff buf) 0), wordAt buf (quotedPayload buf + 4),
              wordAt buf (quotedPayload buf + 6)⟩
          else .error .skip
        else .ok ⟨.none, 0, 0⟩
      else .error .skip := by
  unfold parseIpv4
  by_cases hshort : buf.length < 20
  · rw [if_pos hshort, if_neg fun hip : IsIpv4 buf => ?_]
    · rfl
    · have := icmpOff_eq buf
      have := hip.ihl
      have := hip.fits
      omega
  rw [if_neg hshort, readByte_of_lt (by omega)]
  simp only [ok_bind, ihlAt_eq, icmpOff_eq, quotedOff_eq]
  by_cases hversion : buf.getD 0 0 >>> 4 = 4
  swap
  · rw [if_pos hversion, if_neg fun hip : IsIpv4 buf => hversion hip.version]
    rfl
  rw [if_neg (not_not.mpr hversion)]
  by_cases hlen : ihlAt buf 0 < 5 ∨ buf.length < quotedOff buf
  · rw [if_pos hlen, if_neg fun hip : IsIpv4 buf => ?_]
    · rfl
    · have := hip.ihl
      have := hip.fits
      rw [quotedOff_eq] at this
      omega
  rw [if_neg hlen, if_pos ⟨hversion, by omega, by rw [quotedOff_eq]; omega⟩]
  have hquoted := quotedOff_eq buf
  rw [readByte_of_lt (show icmpOff buf < buf.length by omega)]
  simp only [ok_bind]
  split
  · rw [readBe16_of_lt (by omega), readBe16_of_lt (by omega)]
    rfl
  split
  · by_cases hshort' : buf.length < quotedOff buf + 20 + 8
    · rw [if_pos hshort', if_neg fun hquote : QuotesHeader buf => ?_]
      · rfl
      · have := hquote.ihl
        have := hquote.fits
        have := quotedPayload_eq buf
        omega
    rw [if_neg hshort', readByte_of_lt (show quotedOff buf < buf.length by omega)]
    simp only [ok_bind, ihlAt_eq, quotedPayload_eq]
    by_cases hlen' : ihlAt buf (quotedOff buf) < 5 ∨ buf.length < quotedPayload buf + 8
    · rw [if_pos hlen', if_neg fun hquote : QuotesHeader buf => ?_]
      · rfl
      · have := hquote.ihl
        have := hquote.fits
        omega
    have hquote : QuotesHeader buf := ⟨by omega, by omega⟩
    rw [if_neg hlen', if_pos hquote, readBe16_of_lt (by omega), readBe16_of_lt (by omega)]
    rfl
  · rfl

/-- The IPv6 branch. -/
theorem parseIpv6_eq (buf : List UInt8) :
    parseIpv6 buf =
      if buf.length < 8 then .error .skip
      else if buf.getD 0 0 = 129 then .ok ⟨.reply, wordAt buf 4, wordAt buf 6⟩
      else if buf.getD 0 0 = 3 ∨ buf.getD 0 0 = 1 then
        (parseIpv6OriginalIcmp6 buf 8).map fun p =>
          ⟨if buf.getD 0 0 = 1 then .unreach else .exceeded, p.1, p.2⟩
      else .ok ⟨.none, 0, 0⟩ := by
  unfold parseIpv6
  by_cases hshort : buf.length < 8
  · rw [if_pos hshort, if_pos hshort]
    rfl
  rw [if_neg hshort, if_neg hshort, readByte_of_lt (by omega)]
  simp only [ok_bind]
  split
  · rw [readBe16_of_lt (by omega), readBe16_of_lt (by omega)]
    rfl
  split
  · cases parseIpv6OriginalIcmp6 buf 8 with
    | error e => rfl
    | ok p => rfl
  · rfl

theorem parseIpv6OriginalIcmp6_inBounds (buf : List UInt8) (ip6Off : ℕ) :
    parseIpv6OriginalIcmp6 buf ip6Off ≠ .error .outOfBounds := by
  by_cases hshort : buf.length < ip6Off + 40
  · rw [parseIpv6OriginalIcmp6, if_pos hshort]
    exact fun h => absurd (Except.error.inj h) (by decide)
  · rw [parseIpv6OriginalIcmp6_eq (by omega)]
    exact walkOriginal_inBounds (Nat.min_le_right _ _) _ _

/-- **No byte outside a received message is read**, whatever its bytes are. -/
theorem parsePacket_inBounds (isV6 : Bool) (buf : List UInt8) :
    parsePacket isV6 buf ≠ .error .outOfBounds := by
  cases isV6 with
  | false =>
    change parseIpv4 buf ≠ _
    rw [parseIpv4_eq]
    split_ifs
    all_goals exact fun h => nomatch h
  | true =>
    change parseIpv6 buf ≠ _
    rw [parseIpv6_eq]
    split
    · exact fun h => nomatch h
    split
    · exact fun h => nomatch h
    split
    · intro h
      cases hquoted : parseIpv6OriginalIcmp6 buf 8 with
      | error e =>
        rw [hquoted] at h
        obtain rfl := Except.error.inj h
        exact parseIpv6OriginalIcmp6_inBounds buf 8 hquoted
      | ok p =>
        rw [hquoted] at h
        exact nomatch h
    · exact fun h => nomatch h

/-! ## Probes and their answers -/

/-- The eight bytes of an echo message, around its type and its checksum: `id` and `seq` are stored
in network order. -/
def echoMessage (type : UInt8) (checksum id seq : UInt16) : List UInt8 :=
  [type, 0] ++ storeWord checksum ++ storeWord (htons id) ++ storeWord (htons seq)

/-- The probe of an IPv4 session is such a message. -/
theorem echoRequest_eq (id seq : UInt16) :
    echoRequest id seq = echoMessage 8 (fastIcmpChecksum (htons id) (htons seq)) id seq := rfl

/-- Network order read back. -/
theorem ntohs_bytes (w : UInt16) :
    (htons w).toUInt8.toUInt16 <<< 8 ||| (htons w >>> 8).toUInt8.toUInt16 = w := by
  have hw := w.toNat_lt
  have hhigh : (w.toNat % 256 * 256 + w.toNat / 256) / 256 < 256 := by omega
  have hload := toNat_loadWord (htons w >>> 8).toUInt8 (htons w).toUInt8
  rw [loadWord, UInt16.or_comm, UInt16.toNat_toUInt8, UInt16.toNat_toUInt8,
    toNat_shiftRight_eight, toNat_htons, Nat.mod_eq_of_lt hhigh, swapped_bytes hw] at hload
  exact UInt16.toNat_inj.mp hload

/-- What stands in a buffer that has an echo message at `off`. -/
theorem echoMessage_at {buf : List UInt8} {off : ℕ} {type : UInt8} {checksum id seq : UInt16}
    (h : echoMessage type checksum id seq <+: buf.drop off) :
    off + 8 ≤ buf.length ∧ buf[off]? = some type ∧ wordAt buf (off + 4) = id ∧
      wordAt buf (off + 6) = seq := by
  obtain ⟨tail, htail⟩ := h
  have hbyte : ∀ i, buf[off + i]? = (echoMessage type checksum id seq ++ tail)[i]? := by
    intro i
    rw [htail, List.getElem?_drop]
  have hlen : off + 7 < buf.length := by
    have h7 := hbyte 7
    by_contra hge
    rw [List.getElem?_eq_none (by omega)] at h7
    exact nomatch h7
  have hget : ∀ i, buf.getD (off + i) 0 =
      ((echoMessage type checksum id seq ++ tail)[i]?).getD 0 := by
    intro i
    rw [List.getD_eq_getElem?_getD, hbyte]
  refine ⟨by omega, hbyte 0, ?_, ?_⟩
  · rw [wordAt, Nat.add_assoc, hget, hget]
    exact ntohs_bytes id
  · rw [wordAt, Nat.add_assoc, hget, hget]
    exact ntohs_bytes seq

/-- An IPv4 header of `ihl` 4-byte units. -/
structure Header4 (ihl : ℕ) (ip : List UInt8) : Prop where
  low : 5 ≤ ihl
  high : ihl ≤ 15
  first : ip.head? = some (0x40 + UInt8.ofNat ihl)
  length : ip.length = ihl * 4

/-- A chain of extension headers up to an ICMPv6 header; `next` is the type of the first. -/
inductive ExtHeaders : UInt8 → List UInt8 → Prop
  | nil : ExtHeaders 58 []
  | cons {next next' len : UInt8} {body more : List UInt8} (hext : IsExt next)
    (hlen : (next' :: len :: body).length = extLen next len) (hmore : ExtHeaders next' more) :
    ExtHeaders next (next' :: len :: body ++ more)

/-- An IPv6 header: the type of what follows, and the payload length. -/
structure Header6 (next : UInt8) (plen : UInt16) (ip : List UInt8) : Prop where
  length : ip.length = 40
  next : ip[6]? = some next
  plen : wordAt ip 4 = plen

/-- **A message that answers the probe with `id` and `seq`**, with what it says: an echo reply, or
an error that quotes the IP header of the probe and at least its eight ICMP bytes.  An IPv6 quote
may have extension headers before these; they and the eight bytes lie within the quoted payload
length. -/
inductive Answer (id seq : UInt16) : Bool → ObsType → List UInt8 → Prop
  | reply4 {ihl : ℕ} {ip : List UInt8} (hip : Header4 ihl ip) (checksum : UInt16)
    (data : List UInt8) :
    Answer id seq false .reply (ip ++ (echoMessage 0 checksum id seq ++ data))
  | error4 {ihl ihl' : ℕ} {ip quoted : List UInt8} (hip : Header4 ihl ip) {type : UInt8}
    {obs : ObsType} (htype : (type, obs) ∈ [(11, .exceeded), (3, .unreach)])
    {fields : List UInt8} (hfields : fields.length = 7) (hquoted : Header4 ihl' quoted)
    (checksum : UInt16) (data : List UInt8) :
    Answer id seq false obs
      (ip ++ (type :: fields) ++ (quoted ++ (echoMessage 8 checksum id seq ++ data)))
  | reply6 (checksum : UInt16) (data : List UInt8) :
    Answer id seq true .reply (echoMessage 129 checksum id seq ++ data)
  | error6 {type : UInt8} {obs : ObsType} (htype : (type, obs) ∈ [(3, .exceeded), (1, .unreach)])
    {fields : List UInt8} (hfields : fields.length = 7) {next : UInt8} {plen : UInt16}
    {quoted : List UInt8} (hquoted : Header6 next plen quoted) {exts : List UInt8}
    (hexts : ExtHeaders next exts) (hplen : exts.length + 8 ≤ plen.toNat) (checksum : UInt16)
    (data : List UInt8) :
    Answer id seq true obs
      ((type :: fields) ++ quoted ++ (exts ++ (echoMessage 128 checksum id seq ++ data)))

/-- The nibbles of the first byte of a header. -/
theorem header_nibbles {ihl : ℕ} (hlow : 5 ≤ ihl) (hhigh : ihl ≤ 15) :
    ((0x40 : UInt8) + UInt8.ofNat ihl) >>> 4 = 4 ∧
      (((0x40 : UInt8) + UInt8.ofNat ihl) &&& 0x0f).toNat = ihl := by
  interval_cases ihl
  all_goals decide

/-- A header in the middle of a packet. -/
theorem Header4.at {ihl : ℕ} {ip : List UInt8} (h : Header4 ihl ip) (pre post : List UInt8) :
    (pre ++ (ip ++ post)).getD pre.length 0 >>> 4 = 4 ∧
      ihlAt (pre ++ (ip ++ post)) pre.length = ihl := by
  have hlen := h.length
  have hlow := h.low
  have hbyte : (pre ++ (ip ++ post)).getD pre.length 0 = 0x40 + UInt8.ofNat ihl := by
    refine getD_of_getElem? ?_
    rw [List.getElem?_append_right (Nat.le_refl _), Nat.sub_self,
      List.getElem?_append_left (by omega), ← List.head?_eq_getElem?, h.first]
  obtain ⟨hversion, hihl⟩ := header_nibbles h.low h.high
  rw [ihlAt, hbyte]
  exact ⟨hversion, hihl⟩

section Parse

variable {id seq checksum : UInt16}

theorem parseIpv4_reply {ihl : ℕ} {ip : List UInt8} (hip : Header4 ihl ip) (data : List UInt8) :
    parseIpv4 (ip ++ (echoMessage 0 checksum id seq ++ data)) = .ok ⟨.reply, id, seq⟩ := by
  obtain ⟨hversion, hihl⟩ := hip.at [] (echoMessage 0 checksum id seq ++ data)
  generalize hbuf : ip ++ (echoMessage 0 checksum id seq ++ data) = buf at hversion hihl
  have hoff : icmpOff buf = ip.length := by
    rw [hip.length, ← hihl]
    rfl
  have hecho : echoMessage 0 checksum id seq <+: buf.drop ip.length := by
    rw [← hbuf, List.drop_left]
    exact List.prefix_append _ _
  obtain ⟨hlen, htype, hid, hseq⟩ := echoMessage_at hecho
  have hip4 : IsIpv4 buf := ⟨hversion, hihl ▸ hip.low, by omega⟩
  rw [parseIpv4_eq, if_pos hip4, hoff, getD_of_getElem? htype, if_pos rfl, hid, hseq]

theorem parseIpv4_error {ihl ihl' : ℕ} {ip quoted : List UInt8} (hip : Header4 ihl ip)
    {type : UInt8} {obs : ObsType} (htype : (type, obs) ∈ [(11, .exceeded), (3, .unreach)])
    {fields : List UInt8} (hfields : fields.length = 7) (hquoted : Header4 ihl' quoted)
    (data : List UInt8) :
    parseIpv4 (ip ++ (type :: fields) ++ (quoted ++ (echoMessage 8 checksum id seq ++ data))) =
      .ok ⟨obs, id, seq⟩ := by
  have hpre : (ip ++ type :: fields).length = ip.length + 8 := by
    rw [List.length_append, List.length_cons, hfields]
  obtain ⟨-, hihl'⟩ := hquoted.at (ip ++ type :: fields) (echoMessage 8 checksum id seq ++ data)
  obtain ⟨hversion, hihl⟩ :=
    hip.at [] ((type :: fields) ++ (quoted ++ (echoMessage 8 checksum id seq ++ data)))
  rw [List.nil_append, ← List.append_assoc] at hversion hihl
  have hbyte : (ip ++ (type :: fields) ++ (quoted ++ (echoMessage 8 checksum id seq ++
      data)))[ip.length]? = some type := by
    rw [List.append_assoc, List.getElem?_append_right (Nat.le_refl _), Nat.sub_self]
    rfl
  have hecho : echoMessage 8 checksum id seq <+: (ip ++ (type :: fields) ++ (quoted ++
      (echoMessage 8 checksum id seq ++ data))).drop (ip.length + 8 + quoted.length) := by
    rw [← hpre, ← List.drop_drop, List.drop_left, List.drop_left]
    exact List.prefix_append _ _
  obtain ⟨hlen, -, hid, hseq⟩ := echoMessage_at hecho
  generalize ip ++ (type :: fields) ++ (quoted ++ (echoMessage 8 checksum id seq ++ data)) = buf
    at hversion hihl hihl' hbyte hlen hid hseq
  have hoff : icmpOff buf = ip.length := by
    rw [hip.length, ← hihl]
    rfl
  rw [hpre, ← hoff, quotedOff_eq] at hihl'
  have hpayload : quotedPayload buf = ip.length + 8 + quoted.length := by
    rw [quotedPayload, hihl', ← hquoted.length, quotedOff, hoff]
  have hip4 : IsIpv4 buf := ⟨hversion, hihl ▸ hip.low, by omega⟩
  have hquote : QuotesHeader buf := ⟨hihl' ▸ hquoted.low, by omega⟩
  rw [parseIpv4_eq, if_pos hip4, hoff, getD_of_getElem? hbyte, hpayload, hid, hseq]
  simp only [List.mem_cons, Prod.mk.injEq, List.not_mem_nil, or_false] at htype
  obtain ⟨rfl, rfl⟩ | ⟨rfl, rfl⟩ := htype
  · rw [if_neg (by decide), if_pos (by decide), if_pos hquote]
    rfl
  · rw [if_neg (by decide), if_pos (by decide), if_pos hquote]
    rfl

theorem parseIpv6_reply (data : List UInt8) :
    parseIpv6 (echoMessage 129 checksum id seq ++ data) = .ok ⟨.reply, id, seq⟩ := by
  have hecho : echoMessage 129 checksum id seq <+:
      (echoMessage 129 checksum id seq ++ data).drop 0 := List.prefix_append _ _
  obtain ⟨hlen, htype, hid, hseq⟩ := echoMessage_at hecho
  rw [parseIpv6_eq, if_neg (by omega), getD_of_getElem? htype, if_pos rfl]
  rw [Nat.zero_add] at hid hseq
  rw [hid, hseq]

/-- Extension headers in the middle of a packet are a chain of it. -/
theorem ExtHeaders.chain {next : UInt8} {exts : List UInt8} (h : ExtHeaders next exts)
    (pre post : List UInt8) :
    Chain (pre ++ (exts ++ post)) next pre.length 58 (pre.length + exts.length) := by
  induction h generalizing pre with
  | nil => exact .stop (by decide)
  | @cons next next' len body more hext hlen hmore ih =>
    have hrest := ih (pre ++ next' :: len :: body)
    rw [List.length_append, hlen, List.append_assoc] at hrest
    have hbytes : ∀ i, (pre ++ (next' :: len :: body ++ more ++ post))[pre.length + i]? =
        (next' :: len :: body ++ more ++ post)[i]? := by
      intro i
      rw [List.getElem?_append_right (Nat.le_add_right _ _), Nat.add_sub_cancel_left]
    refine .ext hext (hbytes 0) (hbytes 1) ?_
    rw [List.length_append, hlen, ← Nat.add_assoc, List.append_assoc]
    exact hrest

theorem parseIpv6_error {type : UInt8} {obs : ObsType}
    (htype : (type, obs) ∈ [(3, .exceeded), (1, .unreach)]) {fields : List UInt8}
    (hfields : fields.length = 7) {next : UInt8} {plen : UInt16} {quoted : List UInt8}
    (hquoted : Header6 next plen quoted) {exts : List UInt8} (hexts : ExtHeaders next exts)
    (hplen : exts.length + 8 ≤ plen.toNat) (data : List UInt8) :
    parseIpv6 ((type :: fields) ++ quoted ++ (exts ++ (echoMessage 128 checksum id seq ++ data))) =
      .ok ⟨obs, id, seq⟩ := by
  have hpre : ((type :: fields) ++ quoted).length = 48 := by
    rw [List.length_append, List.length_cons, hfields, hquoted.length]
  have hchain := hexts.chain ((type :: fields) ++ quoted) (echoMessage 128 checksum id seq ++ data)
  have hecho : echoMessage 128 checksum id seq <+: ((type :: fields) ++ quoted ++ (exts ++
      (echoMessage 128 checksum id seq ++ data))).drop (48 + exts.length) := by
    rw [← hpre, ← List.drop_drop, List.drop_left, List.drop_left]
    exact List.prefix_append _ _
  have hbyte : ∀ i < 40, ((type :: fields) ++ quoted ++ (exts ++ (echoMessage 128 checksum id seq ++
      data)))[8 + i]? = quoted[i]? := by
    intro i hi
    have hquote : quoted.length = 40 := hquoted.length
    rw [List.append_assoc, List.getElem?_append_right (by rw [List.length_cons, hfields]; omega),
      List.length_cons, hfields, Nat.add_sub_cancel_left, List.getElem?_append_left (by omega)]
  obtain ⟨hlen, hreq, hid, hseq⟩ := echoMessage_at hecho
  have hfirst : ((type :: fields) ++ quoted ++ (exts ++ (echoMessage 128 checksum id seq ++
      data)))[0]? = some type := rfl
  rw [hpre] at hchain
  generalize (type :: fields) ++ quoted ++ (exts ++ (echoMessage 128 checksum id seq ++ data)) =
    buf at hchain hbyte hlen hreq hid hseq hfirst
  have hword : wordAt buf (8 + 4) = plen := by
    rw [← hquoted.plen, wordAt, wordAt, List.getD_eq_getElem?_getD, List.getD_eq_getElem?_getD,
      List.getD_eq_getElem?_getD, List.getD_eq_getElem?_getD, hbyte 4 (by decide),
      Nat.add_assoc, hbyte (4 + 1) (by decide)]
  have hnext : buf.getD (8 + 6) 0 = next :=
    getD_of_getElem? ((hbyte 6 (by decide)).trans hquoted.next)
  have horig : parseIpv6OriginalIcmp6 buf 8 = .ok (id, seq) := by
    rw [parseIpv6OriginalIcmp6_eq (by omega), hword, hnext,
      walkOriginal_ok_iff (Nat.min_le_right _ _)]
    exact ⟨48 + exts.length, hchain, by omega, hreq, hid, hseq⟩
  rw [parseIpv6_eq, if_neg (by omega), getD_of_getElem? hfirst, horig]
  simp only [List.mem_cons, Prod.mk.injEq, List.not_mem_nil, or_false] at htype
  obtain ⟨rfl, rfl⟩ | ⟨rfl, rfl⟩ := htype
  · rfl
  · rfl

end Parse

/-- `rpkts[i]`: what the kernel stores of a message, at most 512 bytes. -/
def received (msg : List UInt8) : List UInt8 := msg.take 512

/-- **Decoding undoes encoding.**  From every message of at most 512 bytes that answers the probe
with `id` and `seq` the receive path takes exactly these and the type of the answer; and of no
message whatsoever, answer or not, does it read a byte behind the received ones. -/
theorem decode_undoes_encode :
    (∀ (id seq : UInt16) (isV6 : Bool) (type : ObsType) (msg : List UInt8),
      Answer id seq isV6 type msg → msg.length ≤ 512 →
        parsePacket isV6 (received msg) = .ok ⟨type, id, seq⟩) ∧
      ∀ (isV6 : Bool) (buf : List UInt8), parsePacket isV6 buf ≠ .error .outOfBounds := by
  refine ⟨fun id seq isV6 type msg hanswer hlen => ?_, parsePacket_inBounds⟩
  rw [received, List.take_of_length_le hlen]
  cases hanswer with
  | reply4 hip checksum data => exact parseIpv4_reply hip data
  | error4 hip htype hfields hquoted checksum data =>
    exact parseIpv4_error hip htype hfields hquoted data
  | reply6 checksum data => exact parseIpv6_reply data
  | error6 htype hfields hquoted hexts hplen checksum data =>
    exact parseIpv6_error htype hfields hquoted hexts hplen data

/-- The shortest error: it quotes the header of an IPv4 probe, with one word of options, and its
eight ICMP bytes. -/
def exceededShort : List UInt8 :=
  (0x45 :: List.replicate 19 0) ++ (11 :: List.replicate 7 0) ++
    ((0x46 :: List.replicate 23 0) ++ (echoRequest 0x1234 0xfffe ++ []))

/-- It is understood. -/
theorem decode_undoes_encode_short :
    exceededShort.length = 60 ∧
      parsePacket false (received exceededShort) = .ok ⟨.exceeded, 0x1234, 0xfffe⟩ := by
  have hip : Header4 5 (0x45 :: List.replicate 19 0) := ⟨by decide, by decide, rfl, rfl⟩
  have hquoted : Header4 6 (0x46 :: List.replicate 23 0) := ⟨by decide, by decide, rfl, rfl⟩
  have hanswer : Answer 0x1234 0xfffe false .exceeded exceededShort :=
    .error4 hip (by decide) rfl hquoted _ []
  exact ⟨rfl, decode_undoes_encode.1 _ _ _ _ _ hanswer (by decide)⟩

/-! ## What is taken for a probe -/

/-- The packet quoted by an error is an echo request with `id` and `seq`: for IPv4 protocol 1 and
type 8, for IPv6 a chain of headers that ends with an ICMPv6 header, and type 128. -/
inductive QuotesEcho (buf : List UInt8) (id seq : UInt16) : Bool → Prop
  | echo4 (hproto : buf[quotedOff buf + 9]? = some 1) (htype : buf[quotedPayload buf]? = some 8)
    (hid : wordAt buf (quotedPayload buf + 4) = id)
    (hseq : wordAt buf (quotedPayload buf + 6) = seq) : QuotesEcho buf id seq false
  | echo6 {next : UInt8} {off : ℕ} (hnext : buf[14]? = some next)
    (hchain : Chain buf next 48 58 off) (htype : buf[off]? = some 128)
    (hid : wordAt buf (off + 4) = id) (hseq : wordAt buf (off + 6) = seq) :
    QuotesEcho buf id seq true

/-- **Only a probe's answer**: the observation of an error that the scan of a packet makes, if any,
is of an error that quotes an echo request with the gatekeeper's id and an active sequence
number. -/
def OnlyProbes (gk : Gatekeeper) (now : UInt64) (pkt : Packet) : Prop :=
  ∀ o ∈ (gk.scanPacket now pkt).2, o.type = .exceeded ∨ o.type = .unreach →
    QuotesEcho pkt.buf gk.id o.seq gk.isV6 ∧ gk.inflight.Hit o.seq

/-- An IPv4 error whose quote has, where an echo request has them, the gatekeeper's id and an active
sequence number. -/
structure Coincides (gk : Gatekeeper) (buf : List UInt8) : Prop where
  ipv4 : IsIpv4 buf
  type : buf.getD (icmpOff buf) 0 = 11 ∨ buf.getD (icmpOff buf) 0 = 3
  quotes : QuotesHeader buf
  id : wordAt buf (quotedPayload buf + 4) = gk.id
  active : gk.inflight.Hit (wordAt buf (quotedPayload buf + 6))

/-- The quoted packet is an ICMP echo request. -/
def IsEchoQuote (buf : List UInt8) : Prop :=
  buf[quotedOff buf + 9]? = some 1 ∧ buf[quotedPayload buf]? = some 8

/-- What the scan of a packet makes. -/
theorem mem_scanPacket {gk : Gatekeeper} {now : UInt64} {pkt : Packet} {o : Observation} :
    o ∈ (gk.scanPacket now pkt).2 ↔
      ∃ rx, parsePacket gk.isV6 pkt.buf = .ok rx ∧ rx.type ≠ .none ∧ rx.rid = gk.id ∧
        gk.inflight.Hit rx.rseq ∧
        o = ⟨(gk.inflight (InflightTable.idx rx.rseq)).ttl, rx.rseq,
          now - (gk.inflight (InflightTable.idx rx.rseq)).sentUs, rx.type, pkt.src, gk.isV6,
          (gk.inflight (InflightTable.idx rx.rseq)).origin⟩ := by
  rw [Gatekeeper.scanPacket]
  cases hparse : parsePacket gk.isV6 pkt.buf with
  | error e => simp
  | ok rx =>
    by_cases hrx : rx.type ≠ .none ∧ rx.rid = gk.id
    · by_cases hhit : gk.inflight.Hit rx.rseq
      · simp [hrx, InflightTable.findProbe, hhit]
      · simp [hrx, InflightTable.findProbe, hhit]
    · simp only [if_neg hrx, List.not_mem_nil, Except.ok.injEq, false_iff]
      rintro ⟨rx', rfl, htype, hid, -⟩
      exact hrx ⟨htype, hid⟩

/-- What the IPv4 branch makes of an error. -/
theorem parseIpv4_error_iff {buf : List UInt8} {rx : Rx} :
    parseIpv4 buf = .ok rx ∧ (rx.type = .exceeded ∨ rx.type = .unreach) ↔
      IsIpv4 buf ∧ (buf.getD (icmpOff buf) 0 = 11 ∨ buf.getD (icmpOff buf) 0 = 3) ∧
        QuotesHeader buf ∧
        rx = ⟨errorObs (buf.getD (icmpOff buf) 0), wordAt buf (quotedPayload buf + 4),
          wordAt buf (quotedPayload buf + 6)⟩ := by
  rw [parseIpv4_eq]
  constructor
  · rintro ⟨h, hobs⟩
    split at h
    case isFalse => exact nomatch h
    split at h
    · obtain rfl := Except.ok.inj h
      exact absurd hobs (by simp)
    split at h
    case isFalse =>
      obtain rfl := Except.ok.inj h
      exact absurd hobs (by simp)
    split at h
    case isFalse => exact nomatch h
    next hip _ htype hquote => exact ⟨hip, htype, hquote, (Except.ok.inj h).symm⟩
  · rintro ⟨hip, htype, hquote, rfl⟩
    have hreply : buf.getD (icmpOff buf) 0 ≠ 0 := by
      intro hzero
      rw [hzero] at htype
      exact absurd htype (by decide)
    rw [if_pos hip, if_neg hreply, if_pos htype, if_pos hquote, errorObs]
    refine ⟨rfl, ?_⟩
    split
    · exact Or.inr rfl
    · exact Or.inl rfl

/-- An error understood by the IPv6 branch quotes an echo request. -/
theorem parseIpv6_error_quotes {buf : List UInt8} {rx : Rx} (h : parseIpv6 buf = .ok rx)
    (hobs : rx.type = .exceeded ∨ rx.type = .unreach) : QuotesEcho buf rx.rid rx.rseq true := by
  rw [parseIpv6_eq] at h
  split at h
  · cases h
  split at h
  · obtain rfl := Except.ok.inj h
    exact absurd hobs (by simp)
  split at h
  · cases horig : parseIpv6OriginalIcmp6 buf 8 with
    | error e =>
      rw [horig] at h
      cases h
    | ok p =>
      rw [horig] at h
      obtain rfl := Except.ok.inj h
      by_cases hshort : buf.length < 8 + 40
      · rw [parseIpv6OriginalIcmp6, if_pos hshort] at horig
        cases horig
      rw [parseIpv6OriginalIcmp6_eq (by omega),
        walkOriginal_ok_iff (Nat.min_le_right _ _)] at horig
      obtain ⟨off, hchain, -, htype, hid, hseq⟩ := horig
      exact .echo6 (getElem?_of_lt (by omega)) hchain htype hid hseq
  · obtain rfl := Except.ok.inj h
    exact absurd hobs (by simp)

/-- In an IPv6 session no foreign packet is taken for a probe. -/
theorem onlyProbes_of_isV6 {gk : Gatekeeper} (hv6 : gk.isV6 = true) (now : UInt64) (pkt : Packet) :
    OnlyProbes gk now pkt := by
  intro o ho hobs
  obtain ⟨rx, hparse, -, hid, hhit, rfl⟩ := mem_scanPacket.mp ho
  rw [hv6] at hparse ⊢
  rw [← hid]
  exact ⟨parseIpv6_error_quotes hparse hobs, hhit⟩

/-- In an IPv4 session what matters is whether an error whose words coincide quotes an echo
request. -/
theorem onlyProbes_iff_of_isV4 {gk : Gatekeeper} (hv4 : gk.isV6 = false) (now : UInt64)
    (pkt : Packet) : OnlyProbes gk now pkt ↔ (Coincides gk pkt.buf → IsEchoQuote pkt.buf) := by
  constructor
  · rintro honly ⟨hip, htype, hquote, hid, hhit⟩
    obtain ⟨hparse, hobs⟩ := parseIpv4_error_iff.mpr ⟨hip, htype, hquote, rfl⟩
    have hnone : errorObs (pkt.buf.getD (icmpOff pkt.buf) 0) ≠ .none := by
      intro hnone
      rw [hnone] at hobs
      exact absurd hobs (by simp)
    have hv4' : parsePacket gk.isV6 pkt.buf = parseIpv4 pkt.buf := by
      rw [hv4]
      rfl
    obtain ⟨hecho, -⟩ :=
      honly _ (mem_scanPacket.mpr ⟨_, hv4'.trans hparse, hnone, hid, hhit, rfl⟩) hobs
    rw [hv4] at hecho
    cases hecho with
    | echo4 hproto hreq _ _ => exact ⟨hproto, hreq⟩
  · intro hquotes o ho hobs
    obtain ⟨rx, hparse, -, hid, hhit, rfl⟩ := mem_scanPacket.mp ho
    rw [hv4] at hparse
    obtain ⟨hip, htype, hquote, rfl⟩ := parseIpv4_error_iff.mp ⟨hparse, hobs⟩
    obtain ⟨hproto, hreq⟩ := hquotes ⟨hip, htype, hquote, hid, hhit⟩
    rw [hv4]
    exact ⟨.echo4 hproto hreq hid rfl, hhit⟩

/-- A time exceeded message that quotes a TCP segment, with the words of its sequence number. -/
def exceededTcp (hi lo : UInt16) : List UInt8 :=
  (0x45 :: List.replicate 19 0) ++ (11 :: List.replicate 7 0) ++
    ((0x45 :: List.replicate 8 0) ++ (6 :: List.replicate 10 0)) ++
    ([0xd4, 0x31, 0x01, 0xbb] ++ storeWord (htons hi) ++ storeWord (htons lo))

/-- Where its parts are. -/
theorem exceededTcp_layout (hi lo : UInt16) :
    ihlAt (exceededTcp hi lo) 0 = 5 ∧ ihlAt (exceededTcp hi lo) 28 = 5 ∧
      icmpOff (exceededTcp hi lo) = 20 ∧ quotedOff (exceededTcp hi lo) = 28 ∧
      quotedPayload (exceededTcp hi lo) = 48 := by
  have hfirst : (exceededTcp hi lo).getD 0 0 = 0x45 := rfl
  have hfirst' : (exceededTcp hi lo).getD 28 0 = 0x45 := rfl
  have hihl : ihlAt (exceededTcp hi lo) 0 = 5 := by
    rw [ihlAt, hfirst]
    decide
  have hihl' : ihlAt (exceededTcp hi lo) 28 = 5 := by
    rw [ihlAt, hfirst']
    decide
  have hicmp : icmpOff (exceededTcp hi lo) = 20 := by rw [icmpOff, hihl]
  have hquoted : quotedOff (exceededTcp hi lo) = 28 := by rw [quotedOff, hicmp]
  exact ⟨hihl, hihl', hicmp, hquoted, by rw [quotedPayload, hquoted, hihl']⟩

/-- A segment whose sequence number is made of the gatekeeper's id and an active sequence number is
as good as a probe. -/
theorem exceededTcp_coincides {gk : Gatekeeper} {seq : UInt16} (hhit : gk.inflight.Hit seq) :
    Coincides gk (exceededTcp gk.id seq) := by
  obtain ⟨hihl, hihl', hicmp, hquoted, hpayload⟩ := exceededTcp_layout gk.id seq
  have hlen : (exceededTcp gk.id seq).length = 56 := rfl
  have hid : wordAt (exceededTcp gk.id seq) 52 = gk.id := ntohs_bytes gk.id
  have hseq : wordAt (exceededTcp gk.id seq) 54 = seq := ntohs_bytes seq
  constructor
  · have hfirst : (exceededTcp gk.id seq).getD 0 0 = 0x45 := rfl
    exact ⟨by rw [hfirst]; decide, by omega, by omega⟩
  · rw [hicmp]
    exact Or.inl rfl
  · exact ⟨by rw [hquoted, hihl'], by omega⟩
  · rw [hpayload, hid]
  · rw [hpayload, hseq]
    exact hhit

/-- **When no foreign packet is taken for a probe.**  A packet does no harm exactly if the session
is an IPv6 one, or the packet is no error whose words coincide, or it quotes an echo request.  So
no packet does any harm exactly if the session is an IPv6 one or has no active probe. -/
theorem onlyProbes_iff (gk : Gatekeeper) :
    (∀ now pkt, OnlyProbes gk now pkt ↔
      gk.isV6 = true ∨ (Coincides gk pkt.buf → IsEchoQuote pkt.buf)) ∧
      ((∀ now pkt, OnlyProbes gk now pkt) ↔
        gk.isV6 = true ∨ ∀ seq, ¬gk.inflight.Hit seq) := by
  cases hv6 : gk.isV6 with
  | true =>
    have honly := onlyProbes_of_isV6 hv6
    exact ⟨fun now pkt => ⟨fun _ => Or.inl rfl, fun _ => honly now pkt⟩, fun _ => Or.inl rfl,
      fun _ => honly⟩
  | false =>
    have hiff := onlyProbes_iff_of_isV4 hv6
    refine ⟨fun now pkt => ?_, fun honly => Or.inr fun seq hhit => ?_, fun hnone now pkt => ?_⟩
    · rw [hiff]
      simp
    · obtain ⟨hproto, -⟩ := (hiff 0 ⟨exceededTcp gk.id seq, []⟩).mp (honly _ _)
        (exceededTcp_coincides hhit)
      obtain ⟨-, -, -, hquoted, -⟩ := exceededTcp_layout gk.id seq
      have hsix : (exceededTcp gk.id seq)[37]? = some 6 := rfl
      rw [hquoted, hsix] at hproto
      exact absurd hproto (by decide)
    · rw [hiff]
      intro hcoincides
      rcases hnone with htrue | hnone
      · exact nomatch htrue
      · exact absurd hcoincides.active (hnone _)

/-- The gatekeeper of process 0x1234 with its first probe in flight. -/
def firstProbe : Gatekeeper :=
  { Gatekeeper.start 0x1234 false with
    inflight := InflightTable.empty.trackProbe ⟨1, 0, 0, 0, 0, 0⟩ 1000 }

/-- **A TCP segment is taken for a probe.**  The router that drops a segment with the sequence
number `0x12340000` passes for the first hop. -/
theorem tcp_segment_taken_for_probe :
    ((firstProbe.scanPacket 3000 ⟨exceededTcp 0x1234 0, [192, 0, 2, 1]⟩).2 =
        [⟨1, 0, 2000, .exceeded, [192, 0, 2, 1], false, 0⟩]) ∧
      ¬OnlyProbes firstProbe 3000 ⟨exceededTcp 0x1234 0, [192, 0, 2, 1]⟩ := by
  have hscan : (firstProbe.scanPacket 3000 ⟨exceededTcp 0x1234 0, [192, 0, 2, 1]⟩).2 =
      [⟨1, 0, 2000, .exceeded, [192, 0, 2, 1], false, 0⟩] := by decide +kernel
  refine ⟨hscan, fun honly => ?_⟩
  obtain ⟨hecho, -⟩ := honly _ (by rw [hscan]; exact List.mem_singleton_self _) (Or.inl rfl)
  cases hecho with
  | echo4 hproto _ _ _ => exact absurd hproto (by decide)

end Receive
end Nsr
