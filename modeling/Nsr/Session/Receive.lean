import Nsr.Session.Telemetry

/-!
# What the gatekeeper reads out of a received packet

The receive path of `nsr_gatekeeper_run` (`src/io/gatekeeper.c`): from the bytes
of one ICMP or ICMPv6 message it takes the observation type, the echo id and the
echo sequence number.  Messages it has no use for are skipped.

Every byte is read through `readByte`, which fails on an index outside the
received bytes; a skipped message is a different failure.  So the two ways a
message can come to nothing --- the source's `continue`, and a read the source
must never perform --- stay apart.
-/

namespace Nsr
namespace Receive

/-- Why no result came out of a packet. -/
inductive RxError where
  /-- The source's `continue`. -/
  | skip
  /-- A read outside the received bytes. -/
  | outOfBounds
  deriving DecidableEq, Repr

/-- `buf[i]`. -/
def readByte (buf : List UInt8) (i : ℕ) : Except RxError UInt8 :=
  match buf[i]? with
  | some b => .ok b
  | none => .error .outOfBounds

/-- `ntohs` of the two bytes at `i`. -/
def readBe16 (buf : List UInt8) (i : ℕ) : Except RxError UInt16 := do
  let hi ← readByte buf i
  let lo ← readByte buf (i + 1)
  return hi.toUInt16 <<< 8 ||| lo.toUInt16

/-- What a packet says: `type`, `rid`, `rseq`. -/
structure Rx where
  type : ObsType
  rid : UInt16
  rseq : UInt16
  deriving DecidableEq, Repr

/-- The header walk of `parse_ipv6_original_icmp6`: `next` is the type of the
header at `off`, and nothing at or past `fin` belongs to the quoted packet. -/
def walkOriginal (buf : List UInt8) (fin : ℕ) (next : UInt8) (off : ℕ) :
    Except RxError (UInt16 × UInt16) :=
  match next with
  | 0 | 43 | 60 => -- IPPROTO_HOPOPTS, IPPROTO_ROUTING, IPPROTO_DSTOPTS
      if _h : off + 2 > fin then .error .skip
      else
        match readByte buf off, readByte buf (off + 1) with
        | .ok next', .ok len =>
            if _h' : off + (len.toNat + 1) * 8 > fin then .error .skip
            else walkOriginal buf fin next' (off + (len.toNat + 1) * 8)
        | .error e, _ => .error e
        | _, .error e => .error e
  | 44 => -- IPPROTO_FRAGMENT
      if _h : off + 8 > fin then .error .skip
      else
        match readByte buf off with
        | .ok next' => walkOriginal buf fin next' (off + 8)
        | .error e => .error e
  | 51 => -- IPPROTO_AH
      if _h : off + 2 > fin then .error .skip
      else
        match readByte buf off, readByte buf (off + 1) with
        | .ok next', .ok len =>
            if _h' : off + (len.toNat + 2) * 4 > fin then .error .skip
            else walkOriginal buf fin next' (off + (len.toNat + 2) * 4)
        | .error e, _ => .error e
        | _, .error e => .error e
  | 58 => -- IPPROTO_ICMPV6
      if off + 8 > fin then .error .skip
      else do
        let type ← readByte buf off
        if type ≠ 128 then .error .skip -- ICMP6_ECHO_REQUEST
        else
          let rid ← readBe16 buf (off + 4)
          let rseq ← readBe16 buf (off + 6)
          return (rid, rseq)
  | _ => .error .skip
termination_by fin - off

/-- `parse_ipv6_original_icmp6`. -/
def parseIpv6OriginalIcmp6 (buf : List UInt8) (ip6Off : ℕ) : Except RxError (UInt16 × UInt16) :=
  if buf.length < ip6Off + 40 then .error .skip
  else do
    let next ← readByte buf (ip6Off + 6)
    let plen ← readBe16 buf (ip6Off + 4)
    let fin := min (ip6Off + 40 + plen.toNat) buf.length
    walkOriginal buf fin next (ip6Off + 40)

/-- The IPv4 branch: an IP header, then the ICMP message, then for an error the
quoted IP header and the first bytes of what it carried. -/
def parseIpv4 (buf : List UInt8) : Except RxError Rx := do
  if buf.length < 20 then throw .skip
  let b0 ← readByte buf 0
  if b0 >>> 4 ≠ 4 then throw .skip
  let ihl := (b0 &&& 0x0f).toNat
  let ipHdrLen := ihl * 4
  if ihl < 5 ∨ buf.length < ipHdrLen + 8 then throw .skip
  let type ← readByte buf ipHdrLen
  if type = 0 then -- ICMP_ECHOREPLY
    return ⟨.reply, ← readBe16 buf (ipHdrLen + 4), ← readBe16 buf (ipHdrLen + 6)⟩
  else if type = 11 ∨ type = 3 then -- ICMP_TIME_EXCEEDED, ICMP_DEST_UNREACH
    let innerOff := ipHdrLen + 8
    if buf.length < innerOff + 20 + 8 then throw .skip
    let iihl := ((← readByte buf innerOff) &&& 0x0f).toNat
    if iihl < 5 ∨ buf.length < innerOff + iihl * 4 + 8 then throw .skip
    let off := innerOff + iihl * 4
    return ⟨if type = 3 then .unreach else .exceeded,
      ← readBe16 buf (off + 4), ← readBe16 buf (off + 6)⟩
  else
    return ⟨.none, 0, 0⟩

/-- The IPv6 branch: the kernel hands over the ICMPv6 message without its IP
header. -/
def parseIpv6 (buf : List UInt8) : Except RxError Rx := do
  if buf.length < 8 then throw .skip
  let type ← readByte buf 0
  if type = 129 then -- ICMP6_ECHO_REPLY
    return ⟨.reply, ← readBe16 buf 4, ← readBe16 buf 6⟩
  else if type = 3 ∨ type = 1 then -- ICMP6_TIME_EXCEEDED, ICMP6_DST_UNREACH
    let (rid, rseq) ← parseIpv6OriginalIcmp6 buf 8
    return ⟨if type = 1 then .unreach else .exceeded, rid, rseq⟩
  else
    return ⟨.none, 0, 0⟩

/-- The parse of one received message. -/
def parsePacket (isV6 : Bool) (buf : List UInt8) : Except RxError Rx :=
  if isV6 then parseIpv6 buf else parseIpv4 buf

end Receive
end Nsr
