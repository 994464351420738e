import Mathlib.Data.List.GetD
import Nsr.Sniffer.Safety

/-!
# Bytes behind a packet

A frame may be longer than the packet in it.  The analyses cut the payload down to what the length
field of the packet says, so that the rest of the frame should not matter; but the headers are read
with the frame as their only bound, and the extension headers of IPv6 are not taken off the length.

* `Ipv4Packet`, `Ipv6Packet`: packets of which nothing is missing, and nothing else is there.
* `HeaderFits`, `found`: whether the transport header is inside some bytes, and what is read then.
* `analyzeIpv4_frame`, `analyzeIpv6_frame`: what an analysis does with a packet and a trailer.
* `Ignored`: the trailer does not matter.
* `trailer_ignored_iff`: when it does not.
-/

namespace Nsr.Sniffer

open Checked
open Receive (wordAt Chain getElem?_of_lt transportLoop_iff eight_le_extLen)

/-! ## Packets -/

/-- **An IPv4 packet** that is as long as it says. -/
structure Ipv4Packet (packet : Bytes) : Prop where
  header : 20 ≤ packet.length
  length : (wordAt packet 2).toNat = packet.length

/-- **An IPv6 packet** that is as long as it says. -/
structure Ipv6Packet (packet : Bytes) : Prop where
  header : 40 ≤ packet.length
  length : 40 + (wordAt packet 4).toNat = packet.length

theorem byte_of_lt {bs : Bytes} {i : ℕ} (h : i < bs.length) : byte bs i = .ok (bs.getD i 0) :=
  byte_eq (getElem?_of_lt h)

theorem be16_of_lt {bs : Bytes} {i : ℕ} (hsize : bs.length < 2 ^ 63) (h : i + 1 < bs.length) :
    be16 bs i = .ok (wordAt bs i) :=
  be16_eq hsize (getElem?_of_lt (Nat.lt_of_succ_lt h)) (getElem?_of_lt h)

theorem wordAt_append {bs : Bytes} {i : ℕ} (h : i + 1 < bs.length) (x : Bytes) :
    wordAt (bs ++ x) i = wordAt bs i := by
  rw [wordAt, wordAt, List.getD_append _ _ _ _ (Nat.lt_of_succ_lt h), List.getD_append _ _ _ _ h]

/-! ## Transport headers -/

/-- The length of a TCP header in its own words. -/
def dataOffset (seg : Bytes) : UInt8 :=
  seg.getD 12 0 >>> 4 &&& 0x0F

/-- **The transport header fits** into the bytes. -/
def HeaderFits (protocol : UInt8) (seg : Bytes) : Prop :=
  (protocol = 6 → 20 ≤ seg.length ∧ 5 ≤ dataOffset seg ∧ (dataOffset seg).toNat * 4 ≤ seg.length) ∧
    (protocol = 17 → 8 ≤ seg.length ∧ 8 ≤ (wordAt seg 4).toNat ∧ (wordAt seg 4).toNat ≤ seg.length)

instance (protocol : UInt8) (seg : Bytes) : Decidable (HeaderFits protocol seg) :=
  inferInstanceAs (Decidable (_ ∧ _))

/-- The length of the transport header. -/
def headerLen (protocol : UInt8) (seg : Bytes) : ℕ :=
  if protocol = 6 then (dataOffset seg).toNat * 4 else if protocol = 17 then 8 else 0

/-- What is found in bytes that the header fits into. -/
def found (icmp protocol : UInt8) (seg : Bytes) : Transport :=
  if protocol = 6 then
    ⟨.tcp, wordAt seg 0, wordAt seg 2, seg.getD 13 0,
      detectAppByPorts (wordAt seg 0) (wordAt seg 2), seg.drop (headerLen protocol seg)⟩
  else if protocol = 17 then
    ⟨.udp, wordAt seg 0, wordAt seg 2, 0, detectAppByPorts (wordAt seg 0) (wordAt seg 2),
      seg.drop (headerLen protocol seg)⟩
  else if protocol = icmp then ⟨.icmp, 0, 0, 0, .unknown, seg.drop (headerLen protocol seg)⟩
  else ⟨.other, 0, 0, 0, .unknown, seg.drop (headerLen protocol seg)⟩

section Segment

variable {seg : Bytes} {protocol : UInt8}

theorem dataOffset_le (seg : Bytes) : (dataOffset seg).toNat ≤ 15 :=
  and_le_15 _

theorem headerLen_le (h : HeaderFits protocol seg) : headerLen protocol seg ≤ seg.length := by
  unfold headerLen
  split_ifs with htcp hudp
  · exact (h.1 htcp).2.2
  · exact (h.2 hudp).1
  · exact Nat.zero_le _

theorem found_payload (icmp : UInt8) :
    (found icmp protocol seg).payload = seg.drop (headerLen protocol seg) := by
  unfold found
  split_ifs
  all_goals rfl

theorem parseTcp_eq (hsize : seg.length < 2 ^ 63) :
    parseTcp seg = .ok (
      if HeaderFits 6 seg then
        some ⟨wordAt seg 0, wordAt seg 2, seg.getD 13 0, dataOffset seg⟩
      else none) := by
  have hiff : HeaderFits 6 seg ↔ 20 ≤ seg.length ∧ 5 ≤ dataOffset seg ∧
      (dataOffset seg).toNat * 4 ≤ seg.length := by
    simp [HeaderFits]
  have hdoff := dataOffset_le seg
  unfold parseTcp
  by_cases hlen : seg.length < 20
  · rw [if_pos hlen, if_neg fun h => by have := (hiff.mp h).1; omega]
    rfl
  rw [if_neg hlen, be16_of_lt hsize (by omega), ok_bind, be16_of_lt hsize (by omega), ok_bind,
    byte_of_lt (by omega), ok_bind, byte_of_lt (by omega), ok_bind]
  change (do
    if dataOffset seg < 5 ∨ seg.length < (← mul (dataOffset seg).toNat 4) then return none
    return some _) = _
  rw [mul_eq (by omega), ok_bind]
  by_cases hfits : dataOffset seg < 5 ∨ seg.length < (dataOffset seg).toNat * 4
  · rw [if_pos hfits, if_neg fun h => ?_]
    · rfl
    · obtain ⟨-, hfive, hend⟩ := hiff.mp h
      rcases hfits with hfits | hfits
      · exact absurd hfive (UInt8.not_le.mpr hfits)
      · omega
  · rw [not_or, UInt8.not_lt] at hfits
    rw [if_neg (by rw [not_or, UInt8.not_lt]; exact hfits),
      if_pos (hiff.mpr ⟨by omega, hfits.1, by omega⟩)]
    rfl

theorem parseUdp_eq (hsize : seg.length < 2 ^ 63) :
    parseUdp seg = .ok (
      if HeaderFits 17 seg then some ⟨wordAt seg 0, wordAt seg 2⟩ else none) := by
  have hiff : HeaderFits 17 seg ↔ 8 ≤ seg.length ∧ 8 ≤ (wordAt seg 4).toNat ∧
      (wordAt seg 4).toNat ≤ seg.length := by
    simp [HeaderFits]
  unfold parseUdp
  by_cases hlen : seg.length < 8
  · rw [if_pos hlen, if_neg fun h => by have := (hiff.mp h).1; omega]
    rfl
  rw [if_neg hlen, be16_of_lt hsize (by omega), ok_bind]
  by_cases hfits : (wordAt seg 4).toNat < 8 ∨ seg.length < (wordAt seg 4).toNat
  · refine (if_pos hfits).trans ?_
    rw [if_neg fun h => by have := hiff.mp h; omega]
    rfl
  · refine (if_neg hfits).trans ?_
    rw [if_pos (hiff.mpr ⟨by omega, by omega, by omega⟩), be16_of_lt hsize (by omega), ok_bind,
      be16_of_lt hsize (by omega), ok_bind]
    rfl

/-- **The transport header is read if it fits.** -/
theorem transport_eq (hsize : seg.length < 2 ^ 63) (icmp : UInt8) :
    transport icmp protocol seg = .ok (
      if HeaderFits protocol seg then some (found icmp protocol seg) else none) := by
  have hbehind : ∀ n, n ≤ seg.length → behind seg n = .ok (seg.drop n) := by
    intro n hn
    rw [behind, if_pos hn, sliceFrom_eq hn]
  unfold transport
  by_cases htcp : protocol = 6
  · subst htcp
    rw [if_pos rfl, parseTcp_eq hsize, ok_bind]
    by_cases hfits : HeaderFits 6 seg
    · obtain ⟨thl, hthl, hlen⟩ := fourBytes_safe (dataOffset_le seg)
      rw [if_pos hfits, if_pos hfits]
      dsimp only
      rw [hthl, ok_bind, hlen, hbehind _ (hfits.1 rfl).2.2]
      rfl
    · rw [if_neg hfits, if_neg hfits]
      rfl
  by_cases hudp : protocol = 17
  · subst hudp
    rw [if_neg htcp, if_pos rfl, parseUdp_eq hsize, ok_bind]
    by_cases hfits : HeaderFits 17 seg
    · rw [if_pos hfits, if_pos hfits]
      dsimp only
      rw [hbehind _ (hfits.2 rfl).1]
      rfl
    · rw [if_neg hfits, if_neg hfits]
      rfl
  · have hfits : HeaderFits protocol seg := ⟨fun h => absurd h htcp, fun h => absurd h hudp⟩
    rw [if_neg htcp, if_neg hudp, if_pos hfits, found, if_neg htcp, if_neg hudp, headerLen,
      if_neg htcp, if_neg hudp, List.drop_zero]
    split_ifs
    all_goals rfl

theorem payloadLimit_eq (h : HeaderFits protocol seg) (limit : ℕ) :
    payloadLimit protocol seg limit = .ok (limit - headerLen protocol seg) := by
  unfold payloadLimit headerLen
  by_cases htcp : protocol = 6
  · have hlen := (h.1 htcp).1
    have hdoff := dataOffset_le seg
    rw [if_pos htcp, if_pos htcp, if_neg (by omega), byte_of_lt (by omega), ok_bind]
    change (do return limit - (← mul (dataOffset seg).toNat 4)) = _
    rw [mul_eq (by omega)]
    rfl
  · rw [if_neg htcp, if_neg htcp]
    split_ifs
    all_goals rfl

/-! ### With a trailer -/

variable (x : Bytes)

theorem dataOffset_append (h : 20 ≤ seg.length) : dataOffset (seg ++ x) = dataOffset seg := by
  rw [dataOffset, dataOffset, List.getD_append _ _ _ _ (by omega)]

theorem HeaderFits.append (h : HeaderFits protocol seg) : HeaderFits protocol (seg ++ x) := by
  refine ⟨fun htcp => ?_, fun hudp => ?_⟩
  · obtain ⟨hlen, hfive, hend⟩ := h.1 htcp
    rw [dataOffset_append x hlen, List.length_append]
    exact ⟨by omega, hfive, by omega⟩
  · obtain ⟨hlen, height, hend⟩ := h.2 hudp
    rw [wordAt_append (by omega), List.length_append]
    exact ⟨by omega, height, by omega⟩

theorem headerLen_append (h : HeaderFits protocol seg) :
    headerLen protocol (seg ++ x) = headerLen protocol seg := by
  unfold headerLen
  split_ifs with htcp
  · rw [dataOffset_append x (h.1 htcp).1]
  · rfl
  · rfl

/-- The trailer is found behind the payload, and that is all. -/
theorem found_append (h : HeaderFits protocol seg) (icmp : UInt8) :
    found icmp protocol (seg ++ x) =
      { found icmp protocol seg with payload := (found icmp protocol seg).payload ++ x } := by
  have hdrop : (seg ++ x).drop (headerLen protocol seg) =
      seg.drop (headerLen protocol seg) ++ x :=
    List.drop_append_of_le_length (headerLen_le h)
  unfold found
  rw [headerLen_append x h, hdrop]
  split_ifs with htcp hudp
  · have hlen := (h.1 htcp).1
    rw [wordAt_append (by omega), wordAt_append (by omega), List.getD_append _ _ _ _ (by omega)]
  · have hlen := (h.2 hudp).1
    rw [wordAt_append (by omega), wordAt_append (by omega)]
  · rfl
  · rfl

end Segment

/-! ## Network headers -/

/-- The first bytes are an IPv4 header. -/
def Ipv4Reads (data : Bytes) : Prop :=
  data.getD 0 0 >>> 4 = 4 ∧ 5 ≤ data.getD 0 0 &&& 0x0F ∧
    (data.getD 0 0 &&& 0x0F).toNat * 4 ≤ (wordAt data 2).toNat ∧
    (wordAt data 2).toNat ≤ data.length

instance (data : Bytes) : Decidable (Ipv4Reads data) :=
  inferInstanceAs (Decidable (_ ∧ _ ∧ _ ∧ _))

/-- What is read there. -/
def ipv4Header (data : Bytes) : Ipv4Header where
  ihl := data.getD 0 0 &&& 0x0F
  totLen := wordAt data 2
  protocol := data.getD 9 0
  saddr := (data.drop 12).take 4
  daddr := (data.drop 16).take 4

/-- The first bytes are an IPv6 header. -/
def Ipv6Reads (data : Bytes) : Prop :=
  data.getD 0 0 >>> 4 = 6 ∧ 40 + (wordAt data 4).toNat ≤ data.length

instance (data : Bytes) : Decidable (Ipv6Reads data) :=
  inferInstanceAs (Decidable (_ ∧ _))

def ipv6Header (data : Bytes) : Ipv6Header where
  plen := wordAt data 4
  nxt := data.getD 6 0
  src := (data.drop 8).take 16
  dst := (data.drop 24).take 16

theorem slice_copy {data : Bytes} {i j n : ℕ} (hij : i + n = j) (hj : j ≤ data.length) :
    (do copyFromSlice n (← slice data i j)) = .ok ((data.drop i).take n) := by
  subst hij
  rw [slice_eq (Nat.le_add_right i n) hj, ok_bind, Nat.add_sub_cancel_left]
  exact if_pos (by rw [List.length_take, List.length_drop]; omega)

section Network

variable {data : Bytes} (hdata : data.length < 2 ^ 63)

include hdata

theorem parseIpv4_eq (hlen : 20 ≤ data.length) :
    parseIpv4 data = .ok (if Ipv4Reads data then some (ipv4Header data) else none) := by
  obtain ⟨least, hmul, hleast⟩ := fourBytes16_safe (and_le_15 (data.getD 0 0))
  unfold parseIpv4
  rw [if_neg (by omega), byte_of_lt (by omega), ok_bind]
  by_cases hversion : data.getD 0 0 >>> 4 ≠ 4
  · rw [if_pos hversion, if_neg fun h => hversion h.1]
    rfl
  rw [if_neg hversion, ok_bind]
  by_cases hshort : data.getD 0 0 &&& 0x0F < 5
  · refine (if_pos hshort).trans ?_
    rw [if_neg fun h => UInt8.not_lt.mpr h.2.1 hshort]
    rfl
  refine (if_neg hshort).trans ?_
  rw [be16_of_lt hdata (by omega), ok_bind, hmul, ok_bind]
  by_cases hends : wordAt data 2 < least ∨ data.length < (wordAt data 2).toNat
  · refine (if_pos hends).trans ?_
    rw [if_neg fun h => ?_]
    · rfl
    · rw [UInt16.lt_iff_toNat_lt] at hends
      have hle := h.2.2
      omega
  · refine (if_neg hends).trans ?_
    rw [not_or, UInt16.not_lt, UInt16.le_iff_toNat_le] at hends
    rw [if_pos ⟨not_not.mp hversion, UInt8.not_lt.mp hshort, by omega, by omega⟩,
      byte_of_lt (by omega), ok_bind]
    have hsaddr := slice_copy (show 12 + 4 = 16 from rfl) (show 16 ≤ data.length by omega)
    have hdaddr := slice_copy (show 16 + 4 = 20 from rfl) (show 20 ≤ data.length by omega)
    rw [← bind_assoc, hsaddr, ok_bind, ← bind_assoc, hdaddr, ok_bind]
    rfl

theorem parseIpv6_eq (hlen : 40 ≤ data.length) :
    parseIpv6 data = .ok (if Ipv6Reads data then some (ipv6Header data) else none) := by
  have hplen := (wordAt data 4).toNat_lt
  unfold parseIpv6
  rw [if_neg (by omega), byte_of_lt (by omega), ok_bind]
  by_cases hversion : data.getD 0 0 >>> 4 ≠ 6
  · rw [if_pos hversion, if_neg fun h => hversion h.1]
    rfl
  rw [if_neg hversion, be16_of_lt hdata (by omega), ok_bind, add_eq (by omega), ok_bind]
  by_cases hends : data.length < 40 + (wordAt data 4).toNat
  · rw [if_pos hends, if_neg fun h => absurd h.2 (by omega)]
    rfl
  · rw [if_neg hends, if_pos ⟨not_not.mp hversion, by omega⟩, byte_of_lt (by omega), ok_bind]
    have hsrc := slice_copy (show 8 + 16 = 24 from rfl) (show 24 ≤ data.length by omega)
    have hdst := slice_copy (show 24 + 16 = 40 from rfl) (show 40 ≤ data.length by omega)
    rw [← bind_assoc, hsrc, ok_bind, ← bind_assoc, hdst, ok_bind]
    rfl

end Network

/-- Bytes in front of a trailer. -/
theorem take_drop_append {data : Bytes} {i n : ℕ} (h : i + n ≤ data.length) (x : Bytes) :
    ((data ++ x).drop i).take n = (data.drop i).take n := by
  rw [List.drop_append_of_le_length (by omega),
    List.take_append_of_le_length (by rw [List.length_drop]; omega)]

section Frame

variable {packet trailer : Bytes}

theorem ipv4Header_append (h : Ipv4Packet packet) :
    ipv4Header (packet ++ trailer) = ipv4Header packet := by
  have hlen := h.header
  rw [ipv4Header, ipv4Header, wordAt_append (by omega), take_drop_append (by omega),
    take_drop_append (by omega), List.getD_append _ _ _ _ (by omega),
    List.getD_append _ _ _ _ (by omega)]

theorem ipv4Reads_append (h : Ipv4Packet packet) :
    Ipv4Reads (packet ++ trailer) ↔ Ipv4Reads packet := by
  have hlen := h.header
  have hlength := h.length
  rw [Ipv4Reads, Ipv4Reads, wordAt_append (by omega), List.getD_append _ _ _ _ (by omega),
    List.length_append, hlength]
  simp only [Nat.le_add_right, Nat.le_refl]

theorem ipv6Header_append (h : Ipv6Packet packet) :
    ipv6Header (packet ++ trailer) = ipv6Header packet := by
  have hlen := h.header
  rw [ipv6Header, ipv6Header, wordAt_append (by omega), take_drop_append (by omega),
    take_drop_append (by omega), List.getD_append _ _ _ _ (by omega)]

theorem ipv6Reads_append (h : Ipv6Packet packet) :
    Ipv6Reads (packet ++ trailer) ↔ Ipv6Reads packet := by
  have hlen := h.header
  have hlength := h.length
  rw [Ipv6Reads, Ipv6Reads, wordAt_append (by omega), List.getD_append _ _ _ _ (by omega),
    List.length_append, hlength]
  simp only [Nat.le_add_right, Nat.le_refl]

end Frame

/-! ## Behind the network header -/

section Analysed

variable (text : Text) (now : UInt64) (state : GlobalState) (srcIp dstIp : Bytes)
  (icmp protocol : UInt8)

/-- **What an analysis does behind the network header**, where `limit` bytes belong to the packet
according to its length field. -/
def analysed (seg : Bytes) (limit total : ℕ) : Except Panic GlobalState :=
  if HeaderFits protocol seg then
    finish text now state srcIp dstIp (found icmp protocol seg)
      (min (seg.length - headerLen protocol seg) (limit - headerLen protocol seg)) total
  else return state

variable {text now state srcIp dstIp icmp protocol} {seg trailer : Bytes} {limit total : ℕ}

theorem length_found : (found icmp protocol seg).payload.length =
    seg.length - headerLen protocol seg := by
  rw [found_payload, List.length_drop]

/-- What is behind the payload does not matter to what is done with it. -/
theorem finish_append {t : Transport} {n : ℕ} (hn : n ≤ t.payload.length) (x : Bytes) :
    finish text now state srcIp dstIp { t with payload := t.payload ++ x } n total =
      finish text now state srcIp dstIp t n total := by
  unfold finish
  dsimp only
  rw [slice_append hn]

/-- **A trailer behind the limit does not matter**, if the transport header is in front of it. -/
theorem analysed_append (hfits : HeaderFits protocol seg) (hlimit : limit ≤ seg.length) :
    analysed text now state srcIp dstIp icmp protocol (seg ++ trailer) limit total =
      analysed text now state srcIp dstIp icmp protocol seg limit total := by
  rw [analysed, analysed, if_pos hfits, if_pos (hfits.append trailer), found_append trailer hfits,
    headerLen_append trailer hfits, Nat.min_eq_right (by rw [List.length_append]; omega),
    Nat.min_eq_right (by omega)]
  exact finish_append (by rw [length_found]; omega) trailer

/-- A packet whose transport header is read is counted. -/
theorem analysed_counts (hfits : HeaderFits protocol seg) (hsize : seg.length < 2 ^ 63)
    (hroom : counted state + 1 < 2 ^ 64) :
    Safe (analysed text now state srcIp dstIp icmp protocol seg limit total)
      (CountsOne state) := by
  rw [analysed, if_pos hfits]
  have hlen : (found icmp protocol seg).payload.length = _ := length_found
  exact finish_safe text now hroom srcIp dstIp (by omega) (by omega) total

/-- The last packet has been recorded with a payload of `n` bytes. -/
def Recorded (n : ℕ) (state : GlobalState) : Prop :=
  state.lastPacket.map SniffPacket.payloadLen = some (UInt32.ofNat n)

/-- **Without a filter the length of the payload is recorded.** -/
theorem analysed_new (hfits : HeaderFits protocol seg) (hsize : seg.length < 2 ^ 63) :
    Safe (analysed text now .new srcIp dstIp icmp protocol seg limit total)
      (Recorded (min (seg.length - headerLen protocol seg)
        (limit - headerLen protocol seg))) := by
  have hlen : (found icmp protocol seg).payload.length = _ := length_found
  rw [analysed, if_pos hfits, finish]
  refine (slice_safe (Nat.zero_le _) (by omega)).bind fun payload hpayload => ?_
  have hshort : payload.length < 2 ^ 63 := by omega
  refine (refineAppProto_safe hshort _).bind fun app _ => ?_
  refine (buildInfo_safe hshort _ text).bind fun info _ => ?_
  unfold record
  have hmatches : ∀ pkt, packetMatchesFilters text .new pkt payload = true := fun _ => rfl
  rw [hmatches]
  exact .pure rfl

end Analysed

/-! ## Extension headers -/

/-- **The headers of an IPv6 packet are there**: behind the extension headers there is one of type
`next`, at `off`, and if it is a transport header it fits. -/
structure Ipv6Headers (data : Bytes) (next : UInt8) (off : ℕ) : Prop where
  chain : Chain data (data.getD 6 0) 40 next off
  inside : off ≤ data.length
  fits : HeaderFits next (data.drop off)

/-- Where the transport header is. -/
def ipv6Transport (data : Bytes) : Option (UInt8 × ℕ) :=
  (Receive.ipv6TransportOffset data (data.getD 6 0)).filter fun r =>
    HeaderFits r.1 (data.drop r.2)

theorem ipv6Transport_eq_some {data : Bytes} (hlen : 40 ≤ data.length) {next : UInt8} {off : ℕ} :
    ipv6Transport data = some (next, off) ↔ Ipv6Headers data next off := by
  rw [ipv6Transport, Option.filter_eq_some_iff, Receive.ipv6TransportOffset,
    transportLoop_iff hlen, decide_eq_true_iff]
  exact ⟨fun h => ⟨h.1.1, h.1.2, h.2⟩, fun h => ⟨⟨h.chain, h.inside⟩, h.fits⟩⟩

section Extension

variable {packet trailer : Bytes}

theorem chain_append {next last : UInt8} {off off' : ℕ} (h : Chain packet next off last off')
    (x : Bytes) : Chain (packet ++ x) next off last off' := by
  induction h with
  | stop hstop => exact .stop hstop
  | ext hext hnext hlen rest ih =>
    have hin := (List.getElem?_eq_some_iff.mp hnext).1
    have hin' := (List.getElem?_eq_some_iff.mp hlen).1
    exact .ext hext ((List.getElem?_append_left hin).trans hnext)
      ((List.getElem?_append_left hin').trans hlen) ih

/-- Headers that are there are there in front of a trailer. -/
theorem Ipv6Headers.append {next : UInt8} {off : ℕ} (h : Ipv6Headers packet next off)
    (hlen : 40 ≤ packet.length) (x : Bytes) : Ipv6Headers (packet ++ x) next off where
  chain := by
    rw [List.getD_append _ _ _ _ (by omega)]
    exact chain_append h.chain x
  inside := by
    have hinside := h.inside
    rw [List.length_append]
    omega
  fits := by
    rw [List.drop_append_of_le_length h.inside]
    exact h.fits.append x

end Extension

section Frame

variable {packet : Bytes} (trailer : Bytes) (text : Text) (now : UInt64) (state : GlobalState)
  (targetIp : Bytes)

/-- The bytes behind an IPv4 header. -/
def ipv4Segment (packet : Bytes) : Bytes :=
  packet.drop ((packet.getD 0 0 &&& 0x0F).toNat * 4)

/-- A packet that is for somebody else. -/
def Foreign (srcIp dstIp targetIp : Bytes) : Prop :=
  srcIp ≠ targetIp ∧ dstIp ≠ targetIp

instance (srcIp dstIp targetIp : Bytes) : Decidable (Foreign srcIp dstIp targetIp) :=
  inferInstanceAs (Decidable (_ ∧ _))

def srcIp4 (packet : Bytes) : Bytes := ipv4ToString (ipv4Header packet).saddr

def dstIp4 (packet : Bytes) : Bytes := ipv4ToString (ipv4Header packet).daddr

def srcIp6 (packet : Bytes) : Bytes := ipv6ToString (ipv6Header packet).src

def dstIp6 (packet : Bytes) : Bytes := ipv6ToString (ipv6Header packet).dst

variable (hsize : (packet ++ trailer).length < 2 ^ 63)

include hsize

/-- **An IPv4 packet and a trailer.** -/
theorem analyzeIpv4_frame (h : Ipv4Packet packet) :
    analyzeIpv4 text now (packet ++ trailer) targetIp state =
      if Ipv4Reads packet then
        if Foreign (srcIp4 packet) (dstIp4 packet) targetIp then do
          return { state with totalFiltered := ← succ64 state.totalFiltered }
        else
          analysed text now state (srcIp4 packet) (dstIp4 packet) 1 (packet.getD 9 0)
            (ipv4Segment packet ++ trailer) (ipv4Segment packet).length packet.length
      else .ok state := by
  have hlen := h.header
  have happend : (packet ++ trailer).length = packet.length + trailer.length :=
    List.length_append
  unfold analyzeIpv4
  rw [parseIpv4_eq hsize (by omega), ok_bind, ipv4Header_append h]
  by_cases hreads : Ipv4Reads packet
  swap
  · rw [if_neg hreads, if_neg (mt (ipv4Reads_append h).mp hreads)]
    rfl
  rw [if_pos hreads, if_pos ((ipv4Reads_append h).mpr hreads)]
  dsimp only
  by_cases hforeign : Foreign (srcIp4 packet) (dstIp4 packet) targetIp
  · rw [if_pos hforeign]
    exact if_pos hforeign
  rw [if_neg hforeign]
  refine (if_neg hforeign).trans ?_
  obtain ⟨-, hfive, hihl, -⟩ := hreads
  rw [h.length] at hihl
  obtain ⟨ihlBytes, hmul, hbytes⟩ := fourBytes_safe (and_le_15 (packet.getD 0 0))
  have htotal : (ipv4Header packet).totLen.toNat = packet.length := h.length
  change (mul8 (packet.getD 0 0 &&& 0x0F) 4 >>= _) = _
  rw [hmul, ok_bind, hbytes, if_neg (by omega), sliceFrom_eq (by omega), ok_bind,
    List.drop_append_of_le_length hihl, ← ipv4Segment]
  have hseg : (ipv4Segment packet).length =
      packet.length - (packet.getD 0 0 &&& 0x0F).toNat * 4 := List.length_drop
  have hshort : (ipv4Segment packet ++ trailer).length < 2 ^ 63 := by
    rw [List.length_append]
    omega
  rw [show (ipv4Header packet).protocol = packet.getD 9 0 from rfl, transport_eq hshort, ok_bind,
    analysed]
  by_cases hfits : HeaderFits (packet.getD 9 0) (ipv4Segment packet ++ trailer)
  · rw [if_pos hfits, if_pos hfits]
    dsimp only
    rw [ipv4PayloadLen, htotal, if_neg (by omega), sub_eq hihl, ok_bind, payloadLimit_eq hfits,
      ok_bind, length_found, hseg]
    rfl
  · rw [if_neg hfits, if_neg hfits]

/-- **An IPv6 packet and a trailer**: the headers are looked for in both. -/
theorem analyzeIpv6_frame (h : Ipv6Packet packet) :
    analyzeIpv6 text now (packet ++ trailer) targetIp state =
      if Ipv6Reads packet then
        if Foreign (srcIp6 packet) (dstIp6 packet) targetIp then do
          return { state with totalFiltered := ← succ64 state.totalFiltered }
        else
          match ipv6Transport (packet ++ trailer) with
          | none => return state
          | some (nextHeader, transOffset) =>
            analysed text now state (srcIp6 packet) (dstIp6 packet) 58 nextHeader
              ((packet ++ trailer).drop transOffset) (packet.length - 40) packet.length
      else return state := by
  have hlen := h.header
  have hplen := h.length
  have happend : (packet ++ trailer).length = packet.length + trailer.length :=
    List.length_append
  unfold analyzeIpv6
  rw [parseIpv6_eq hsize (by omega), ok_bind, ipv6Header_append h]
  by_cases hreads : Ipv6Reads packet
  swap
  · rw [if_neg hreads, if_neg (mt (ipv6Reads_append h).mp hreads)]
  rw [if_pos hreads, if_pos ((ipv6Reads_append h).mpr hreads)]
  dsimp only
  by_cases hforeign : Foreign (srcIp6 packet) (dstIp6 packet) targetIp
  · rw [if_pos hforeign]
    exact if_pos hforeign
  rw [if_neg hforeign]
  refine (if_neg hforeign).trans ?_
  have hnxt : (ipv6Header packet).nxt = (packet ++ trailer).getD 6 0 :=
    (List.getD_append _ _ _ _ (show 6 < packet.length by omega)).symm
  rw [ipv6TransportOffset_eq hsize, ok_bind, hnxt, ipv6Transport]
  cases hwalk : Receive.ipv6TransportOffset (packet ++ trailer) ((packet ++ trailer).getD 6 0) with
  | none => rfl
  | some r =>
    obtain ⟨next, off⟩ := r
    have hinside : off ≤ (packet ++ trailer).length :=
      ((transportLoop_iff (by omega)).mp hwalk).2
    have hshort : ((packet ++ trailer).drop off).length < 2 ^ 63 := by
      rw [List.length_drop]
      omega
    have htotal : (ipv6Header packet).plen.toNat = packet.length - 40 := by
      change (wordAt packet 4).toNat = packet.length - 40
      omega
    rw [Option.filter_some]
    dsimp only
    rw [sliceFrom_eq hinside, ok_bind, transport_eq hshort, ok_bind, htotal]
    by_cases hfits : HeaderFits next ((packet ++ trailer).drop off)
    · rw [if_pos hfits, if_pos (decide_eq_true hfits)]
      dsimp only
      rw [analysed, if_pos hfits, payloadLimit_eq hfits, ok_bind, length_found,
        add_to (show _ = packet.length by omega) (by omega), ok_bind]
      rfl
    · rw [if_neg hfits, if_neg (by rw [decide_eq_true_iff]; exact hfits)]

end Frame

/-! ## Ignoring the trailer -/

/-- **The trailer is ignored**: an analysis does with the packet and the trailer what it does with
the packet, at any time, for any target and in any state. -/
def Ignored (analyze : UInt64 → Bytes → Bytes → GlobalState → Except Panic GlobalState)
    (packet trailer : Bytes) : Prop :=
  ∀ now targetIp state,
    analyze now (packet ++ trailer) targetIp state = analyze now packet targetIp state

/-- A transport header that is there is there without the trailer. -/
def Ipv4Apart (packet trailer : Bytes) : Prop :=
  Ipv4Reads packet → HeaderFits (packet.getD 9 0) (ipv4Segment packet ++ trailer) →
    HeaderFits (packet.getD 9 0) (ipv4Segment packet)

/-- Headers that are there are there without the trailer; and then there is no extension header, or
no trailer. -/
def Ipv6Apart (packet trailer : Bytes) : Prop :=
  Ipv6Reads packet → ∀ next off, Ipv6Headers (packet ++ trailer) next off →
    Ipv6Headers packet next off ∧ (off = 40 ∨ trailer = [])

section Trailer

variable (text : Text) {packet trailer : Bytes}

theorem not_foreign_src (srcIp dstIp : Bytes) : ¬Foreign srcIp dstIp srcIp :=
  fun h => h.1 rfl

theorem length_of_append (hsize : (packet ++ trailer).length < 2 ^ 63) :
    packet.length < 2 ^ 63 := by
  rw [List.length_append] at hsize
  omega

/-- A packet that is dropped is not counted. -/
theorem ne_of_countsOne {state : GlobalState} {m : Except Panic GlobalState}
    (h : Safe m (CountsOne state)) : m ≠ return state := by
  obtain ⟨state', rfl, hone⟩ := h
  intro hsame
  obtain rfl := Except.ok.inj hsame
  exact absurd hone (Nat.succ_ne_self _).symm

theorem ipv4_ignored_iff (hsize : (packet ++ trailer).length < 2 ^ 63) (h : Ipv4Packet packet) :
    Ignored (analyzeIpv4 text) packet trailer ↔ Ipv4Apart packet trailer := by
  have hframe := fun now targetIp state => analyzeIpv4_frame trailer text now state targetIp hsize h
  have halone := fun now targetIp state =>
    analyzeIpv4_frame [] text now state targetIp
      (by rw [List.append_nil]; exact length_of_append hsize) h
  simp only [List.append_nil] at halone
  constructor
  · intro hignored hreads hfits
    by_contra hshort
    -- the packet alone is dropped, and with its trailer it is counted
    have heq := hignored 0 (srcIp4 packet) .new
    rw [hframe, halone, if_pos hreads, if_pos hreads, if_neg (not_foreign_src _ _),
      if_neg (not_foreign_src _ _)] at heq
    have hlong : (ipv4Segment packet ++ trailer).length < 2 ^ 63 := by
      rw [List.length_append] at hsize ⊢
      have hseg : (ipv4Segment packet).length = packet.length - _ := List.length_drop
      omega
    refine ne_of_countsOne (analysed_counts hfits hlong (by decide)) (heq.trans ?_)
    exact if_neg hshort
  · intro hapart now targetIp state
    rw [hframe, halone]
    split_ifs with hreads hforeign
    · rfl
    · by_cases hfits : HeaderFits (packet.getD 9 0) (ipv4Segment packet)
      · exact analysed_append hfits (Nat.le_refl _)
      · rw [analysed, analysed, if_neg hfits, if_neg (mt (hapart hreads) hfits)]
    · rfl

/-- The payload of a packet with extension headers is cut off where the packet ends, and with a
trailer it is not. -/
theorem payload_shorter {whole off len extra : ℕ} (hoff : 40 < off) (hlen : len ≤ whole - off)
    (hwhole : off ≤ whole) (hextra : 0 < extra) :
    min (whole - off - len) (whole - 40 - len) <
      min (whole + extra - off - len) (whole - 40 - len) := by
  omega

/-- **Behind extension headers a trailer becomes payload.** -/
theorem analysed_ext_ne {now : UInt64} {srcIp dstIp : Bytes} {next : UInt8} {off total : ℕ}
    (hsize : (packet ++ trailer).length < 2 ^ 63) (hword : packet.length < 2 ^ 32)
    (hin : off ≤ packet.length) (hfits : HeaderFits next (packet.drop off)) (hoff : 40 < off)
    (htrailer : trailer ≠ []) :
    analysed text now .new srcIp dstIp 58 next (packet.drop off ++ trailer) (packet.length - 40)
        total ≠
      analysed text now .new srcIp dstIp 58 next (packet.drop off) (packet.length - 40) total := by
  rw [List.length_append] at hsize
  have hlen : headerLen next (packet.drop off) ≤ packet.length - off := by
    rw [← List.length_drop]
    exact headerLen_le hfits
  have hshorter := payload_shorter hoff hlen hin (List.length_pos_iff.mpr htrailer)
  have hlong : (packet.drop off ++ trailer).length = packet.length + trailer.length - off := by
    rw [List.length_append, List.length_drop]
    omega
  have hboth : Safe (analysed text now .new srcIp dstIp 58 next (packet.drop off ++ trailer)
      (packet.length - 40) total) _ := analysed_new (hfits.append trailer) (by omega)
  have halone : Safe (analysed text now .new srcIp dstIp 58 next (packet.drop off)
      (packet.length - 40) total) _ := analysed_new hfits (by rw [List.length_drop]; omega)
  obtain ⟨s, hs, hlen₁⟩ := hboth
  obtain ⟨s', hs', hlen₂⟩ := halone
  rw [hs, hs']
  intro heq
  obtain rfl := Except.ok.inj heq
  rw [hlong, headerLen_append trailer hfits] at hlen₁
  rw [List.length_drop] at hlen₂
  have hnat := congrArg UInt32.toNat (Option.some_inj.mp (hlen₁.symm.trans hlen₂))
  rw [UInt32.toNat_ofNat_of_lt' (show _ < 2 ^ 32 by omega),
    UInt32.toNat_ofNat_of_lt' (show _ < 2 ^ 32 by omega)] at hnat
  omega

theorem ipv6_ignored_iff (hsize : (packet ++ trailer).length < 2 ^ 63) (h : Ipv6Packet packet) :
    Ignored (analyzeIpv6 text) packet trailer ↔ Ipv6Apart packet trailer := by
  have hlen := h.header
  have hplen := h.length
  have hword := (wordAt packet 4).toNat_lt
  have happend : (packet ++ trailer).length = packet.length + trailer.length :=
    List.length_append
  have hframe := fun now targetIp state => analyzeIpv6_frame trailer text now state targetIp hsize h
  have halone := fun now targetIp state =>
    analyzeIpv6_frame [] text now state targetIp
      (by rw [List.append_nil]; exact length_of_append hsize) h
  simp only [List.append_nil] at halone
  constructor
  · intro hignored hreads next off hheaders
    have heq := hignored 0 (srcIp6 packet) .new
    rw [hframe, halone, if_pos hreads, if_pos hreads, if_neg (not_foreign_src _ _),
      if_neg (not_foreign_src _ _), (ipv6Transport_eq_some (by omega)).mpr hheaders] at heq
    dsimp only at heq
    have hlong : ((packet ++ trailer).drop off).length < 2 ^ 63 := by
      rw [List.length_drop]
      omega
    cases hpacket : ipv6Transport packet with
    | none =>
      rw [hpacket] at heq
      exact absurd heq (ne_of_countsOne (analysed_counts hheaders.fits hlong (by decide)))
    | some r =>
      obtain ⟨next', off'⟩ := r
      have hheaders' := (ipv6Transport_eq_some hlen).mp hpacket
      -- the headers of the packet are the ones in the frame
      have hsame := (ipv6Transport_eq_some (by omega)).mpr (hheaders'.append hlen trailer)
      rw [(ipv6Transport_eq_some (by omega)).mpr hheaders] at hsame
      obtain ⟨rfl, rfl⟩ := Prod.mk.inj (Option.some_inj.mp hsame)
      refine ⟨hheaders', ?_⟩
      by_contra hneither
      rw [not_or] at hneither
      rw [hpacket, List.drop_append_of_le_length hheaders'.inside] at heq
      have hoff : 40 < off := lt_of_le_of_ne hheaders'.chain.le (Ne.symm hneither.1)
      exact absurd heq (analysed_ext_ne text hsize (by omega) hheaders'.inside hheaders'.fits hoff
        hneither.2)
  · intro hapart now targetIp state
    rw [hframe, halone]
    split_ifs with hreads hforeign
    · rfl
    · cases hboth : ipv6Transport (packet ++ trailer) with
      | none =>
        cases hpacket : ipv6Transport packet with
        | none => rfl
        | some r =>
          have hheaders := (ipv6Transport_eq_some hlen).mp hpacket
          have hsome := (ipv6Transport_eq_some (by omega)).mpr (hheaders.append hlen trailer)
          rw [hboth] at hsome
          cases hsome
      | some r =>
        obtain ⟨next, off⟩ := r
        obtain ⟨hheaders, hnone⟩ :=
          hapart hreads next off ((ipv6Transport_eq_some (by omega)).mp hboth)
        rw [(ipv6Transport_eq_some hlen).mpr hheaders]
        dsimp only
        rcases hnone with rfl | rfl
        · rw [List.drop_append_of_le_length hheaders.inside]
          exact analysed_append hheaders.fits (by rw [List.length_drop])
        · rw [List.append_nil]
    · rfl

/-- **When a trailer is ignored**: exactly if the headers are found with it that are found without
it, and, for a packet with extension headers that has them all, if there is no trailer. -/
theorem trailer_ignored_iff (hsize : (packet ++ trailer).length < 2 ^ 63) :
    (Ipv4Packet packet →
        (Ignored (analyzeIpv4 text) packet trailer ↔ Ipv4Apart packet trailer)) ∧
      (Ipv6Packet packet →
        (Ignored (analyzeIpv6 text) packet trailer ↔ Ipv6Apart packet trailer)) :=
  ⟨ipv4_ignored_iff text hsize, ipv6_ignored_iff text hsize⟩

end Trailer

/-- A UDP datagram from port 1000 to port 2000 with the payload `A`, behind an extension header with
no options, from 2001:db8::1 to 2001:db8::2. -/
def udpBehindOptions : Bytes :=
  [0x60, 0, 0, 0, 0, 17, 60, 64] ++
    [0x20, 0x01, 0x0d, 0xb8, 0, 0, 0, 0, 0, 0, 0, 0, 0, 0, 0, 1] ++
    [0x20, 0x01, 0x0d, 0xb8, 0, 0, 0, 0, 0, 0, 0, 0, 0, 0, 0, 2] ++
    [17, 0, 1, 4, 0, 0, 0, 0] ++ [0x03, 0xE8, 0x07, 0xD0, 0, 9, 0, 0] ++ [0x41]

/-- **Two bytes behind it become payload.** -/
theorem trailer_becomes_payload :
    Ipv6Packet udpBehindOptions ∧
      (analyzeIpv6 asciiText 5 udpBehindOptions (ascii "2001:db8::1") .new).map
        GlobalState.lastPayload = .ok [0x41] ∧
      (analyzeIpv6 asciiText 5 (udpBehindOptions ++ [0x58, 0x59]) (ascii "2001:db8::1") .new).map
        GlobalState.lastPayload = .ok [0x41, 0x58, 0x59] ∧
      ¬Ignored (analyzeIpv6 asciiText) udpBehindOptions [0x58, 0x59] := by
  have halone : (analyzeIpv6 asciiText 5 udpBehindOptions (ascii "2001:db8::1") .new).map
      GlobalState.lastPayload = .ok [0x41] := by
    decide +kernel
  have hboth : (analyzeIpv6 asciiText 5 (udpBehindOptions ++ [0x58, 0x59]) (ascii "2001:db8::1")
      .new).map GlobalState.lastPayload = .ok [0x41, 0x58, 0x59] := by
    decide +kernel
  refine ⟨⟨by decide, by decide⟩, halone, hboth, fun hignored => ?_⟩
  rw [hignored, halone] at hboth
  exact absurd hboth (by decide)

/-- The same datagram without extension headers. -/
def plainUdp : Bytes :=
  [0x60, 0, 0, 0, 0, 9, 17, 64] ++
    [0x20, 0x01, 0x0d, 0xb8, 0, 0, 0, 0, 0, 0, 0, 0, 0, 0, 0, 1] ++
    [0x20, 0x01, 0x0d, 0xb8, 0, 0, 0, 0, 0, 0, 0, 0, 0, 0, 0, 2] ++
    [0x03, 0xE8, 0x07, 0xD0, 0, 9, 0, 0] ++ [0x41]

theorem plainUdp_headers : Ipv6Headers plainUdp 17 40 where
  chain := .stop (by decide)
  inside := by decide
  fits := by decide

/-- Behind it they are ignored. -/
theorem trailer_ignored_plain : Ignored (analyzeIpv6 asciiText) plainUdp [0x58, 0x59] := by
  have hpacket : Ipv6Packet plainUdp := ⟨by decide, by decide⟩
  refine ((trailer_ignored_iff asciiText (by decide)).2 hpacket).mpr fun _ next off hheaders => ?_
  have hboth := plainUdp_headers.append (by decide) [0x58, 0x59]
  have hlen : 40 ≤ (plainUdp ++ [0x58, 0x59]).length := by decide
  have hsame := (ipv6Transport_eq_some hlen).mpr hheaders
  rw [(ipv6Transport_eq_some hlen).mpr hboth] at hsame
  obtain ⟨rfl, rfl⟩ := Prod.mk.inj (Option.some_inj.mp hsame)
  exact ⟨plainUdp_headers, Or.inl rfl⟩

end Nsr.Sniffer
