import Nsr.Lib.Checked
import Nsr.Lib.Utf8
import Nsr.Plugin.Rpc
import Nsr.Session.Headers

/-!
# Packets the sniffer reads

The header parsers of `plugins/sniffer/src/main.rs`, the guesses at the application protocol, and
the data they are made of.  A `String` is its UTF-8 bytes, a byte slice is a list, and everything
that may panic is a value in `Except Panic`.

* `TransProto`, `AppProto`, `SniffPacket`.
* `parseIpv4`, `parseIpv6`, `ipv6TransportOffset`, `parseTcp`, `parseUdp`.
* `detectAppByPorts`, `refineAppProto` and what they look at.
-/

namespace Nsr.Sniffer

open Checked

/-! ## Protocols -/

/-- `TransProto`. -/
inductive TransProto where
  | other
  | icmp
  | tcp
  | udp
  deriving DecidableEq, Repr

/-- `TransProto::name`. -/
def TransProto.name : TransProto → Bytes
  | .icmp => ascii "ICMP"
  | .tcp => ascii "TCP"
  | .udp => ascii "UDP"
  | .other => ascii "OTHER"

/-- `AppProto`. -/
inductive AppProto where
  | unknown
  | http
  | https
  | dns
  | ssh
  | ftp
  | smtp
  | tls
  deriving DecidableEq, Repr

/-- `AppProto::name`. -/
def AppProto.name : AppProto → Bytes
  | .http => ascii "HTTP"
  | .https => ascii "HTTPS"
  | .dns => ascii "DNS"
  | .ssh => ascii "SSH"
  | .ftp => ascii "FTP"
  | .smtp => ascii "SMTP"
  | .tls => ascii "TLS"
  | .unknown => ascii "?"

/-- `SniffPacket`. -/
structure SniffPacket where
  tsMs : UInt64
  srcIp : Bytes
  dstIp : Bytes
  srcPort : UInt16
  dstPort : UInt16
  trans : TransProto
  app : AppProto
  tcpFlags : UInt8
  payloadLen : UInt32
  ipTotalLen : UInt32
  info : Bytes
  deriving DecidableEq, Repr

/-! ## Addresses as text -/

/-- A number in decimal. -/
def decimal (n : ℕ) : Bytes :=
  (Nat.toDigits 10 n).map fun c => UInt8.ofNat c.toNat

/-- A number in hexadecimal. -/
def hex (n : ℕ) : Bytes :=
  (Nat.toDigits 16 n).map fun c => UInt8.ofNat c.toNat

/-- `Ipv4Addr::to_string`. -/
def ipv4ToString (octets : Bytes) : Bytes :=
  (ascii ".").intercalate (octets.map fun b => decimal b.toNat)

/-- The segments of an IPv6 address. -/
def segments : Bytes → List UInt16
  | hi :: lo :: bs => word hi lo :: segments bs
  | _ => []

/-- The longest run of zero segments, the first one of several: where it starts and how long it
is.  `i` is the position, `cur` the run that ends there. -/
def zeroSpan : ℕ → ℕ × ℕ → ℕ × ℕ → List UInt16 → ℕ × ℕ
  | _, _, longest, [] => longest
  | i, cur, longest, s :: ss =>
    if s = 0 then
      let cur := if cur.2 = 0 then (i, 1) else (cur.1, cur.2 + 1)
      zeroSpan (i + 1) cur (if cur.2 > longest.2 then cur else longest) ss
    else zeroSpan (i + 1) (0, 0) longest ss

def segmentsText (ss : List UInt16) : Bytes :=
  (ascii ":").intercalate (ss.map fun s => hex s.toNat)

/-- `Ipv6Addr::to_string`: an IPv4-mapped address ends in dotted decimal, and the longest run of
more than one zero segment is left out. -/
def ipv6ToString (octets : Bytes) : Bytes :=
  if octets.take 12 = [0, 0, 0, 0, 0, 0, 0, 0, 0, 0, 0xff, 0xff] then
    ascii "::ffff:" ++ ipv4ToString (octets.drop 12)
  else
    let ss := segments octets
    let zeroes := zeroSpan 0 (0, 0) (0, 0) ss
    if zeroes.2 > 1 then
      segmentsText (ss.take zeroes.1) ++ ascii "::" ++ segmentsText (ss.drop (zeroes.1 + zeroes.2))
    else segmentsText ss

/-- `copy_from_slice` into an array of `n` bytes. -/
def copyFromSlice (n : ℕ) (bs : Bytes) : Except Panic Bytes :=
  if bs.length = n then .ok bs else .error .outOfRange

/-! ## Headers -/

/-- `Ipv4Header`. -/
structure Ipv4Header where
  ihl : UInt8
  totLen : UInt16
  protocol : UInt8
  saddr : Bytes
  daddr : Bytes
  deriving DecidableEq, Repr

/-- **`parse_ipv4`.** -/
def parseIpv4 (data : Bytes) : Except Panic (Option Ipv4Header) := do
  if data.length < 20 then return none
  if (← byte data 0) >>> 4 ≠ 4 then return none
  let ihl := (← byte data 0) &&& 0x0F
  if ihl < 5 then return none
  let totLen ← be16 data 2
  if totLen < (← mul16 ihl.toUInt16 4) ∨ data.length < totLen.toNat then return none
  let protocol ← byte data 9
  let saddr ← copyFromSlice 4 (← slice data 12 16)
  let daddr ← copyFromSlice 4 (← slice data 16 20)
  return some { ihl, totLen, protocol, saddr, daddr }

/-- `Ipv6Header`. -/
structure Ipv6Header where
  plen : UInt16
  nxt : UInt8
  src : Bytes
  dst : Bytes
  deriving DecidableEq, Repr

/-- **`parse_ipv6`.** -/
def parseIpv6 (data : Bytes) : Except Panic (Option Ipv6Header) := do
  if data.length < 40 then return none
  if (← byte data 0) >>> 4 ≠ 6 then return none
  let plen ← be16 data 4
  if data.length < (← add 40 plen.toNat) then return none
  let nxt ← byte data 6
  let src ← copyFromSlice 16 (← slice data 8 24)
  let dst ← copyFromSlice 16 (← slice data 24 40)
  return some { plen, nxt, src, dst }

/-- One round of the loop of `ipv6_transport_offset`: the type of the header at an offset, and the
offset. -/
def offsetStep (data : Bytes) (s : UInt8 × ℕ) :
    Except Panic ((UInt8 × ℕ) ⊕ Option (UInt8 × ℕ)) := do
  let (next, offset) := s
  if next = 0 ∨ next = 43 ∨ next = 60 then
    if data.length < (← add offset 2) then return .inr none
    let next ← byte data offset
    let hdrLen ← mul (← add (← byte data (← add offset 1)).toNat 1) 8
    if hdrLen = 0 ∨ data.length < (← add offset hdrLen) then return .inr none
    return .inl (next, ← add offset hdrLen)
  else if next = 44 then
    if data.length < (← add offset 8) then return .inr none
    return .inl (← byte data offset, ← add offset 8)
  else if next = 51 then
    if data.length < (← add offset 2) then return .inr none
    let next ← byte data offset
    let hdrLen ← mul (← add (← byte data (← add offset 1)).toNat 2) 4
    if hdrLen = 0 ∨ data.length < (← add offset hdrLen) then return .inr none
    return .inl (next, ← add offset hdrLen)
  else return .inr (some (next, offset))

/-- What is left of the data behind the offset. -/
def offsetMeasure (data : Bytes) (s : UInt8 × ℕ) : ℕ :=
  data.length - s.2

/-- Every round that goes on has passed a header. -/
theorem offsetStep_decreases (data : Bytes) (s : UInt8 × ℕ) :
    Returns (offsetStep data s) (Below (offsetMeasure data) (offsetMeasure data s)) := by
  obtain ⟨next, offset⟩ := s
  -- the header that was passed is inside the data
  have hpass : ∀ (next : UInt8) (n : ℕ), n ≠ 0 → offset + n ≤ data.length →
      Returns (add offset n >>= fun c => Pure.pure (.inl (next, c)))
        (Below (β := Option (UInt8 × ℕ)) (offsetMeasure data)
          (offsetMeasure data (next, offset))) := by
    intro next n hn hle
    refine (add_returns _ _).bind fun c hc => .pure ?_
    rw [Below, offsetMeasure, offsetMeasure, hc]
    omega
  unfold offsetStep
  refine .ite (fun _ => ?_) fun _ => .ite (fun _ => ?_) fun _ => .ite (fun _ => ?_) fun _ => ?_
  · refine (add_returns _ _).bind fun _ _ => .ite (fun _ => .pure trivial) fun _ => ?_
    refine (byte_returns _ _).bind fun next _ => (add_returns _ _).bind fun _ _ => ?_
    refine (byte_returns _ _).bind fun len _ => (add_returns _ _).bind fun _ _ => ?_
    refine (mul_returns _ _).bind fun n _ => (add_returns _ _).bind fun _ hend => ?_
    exact .ite (fun _ => .pure trivial) fun h => hpass next n (by omega) (by omega)
  · refine (add_returns _ _).bind fun _ hend => .ite (fun _ => .pure trivial) fun h => ?_
    exact (byte_returns _ _).bind fun next _ => hpass next 8 (by omega) (by omega)
  · refine (add_returns _ _).bind fun _ _ => .ite (fun _ => .pure trivial) fun _ => ?_
    refine (byte_returns _ _).bind fun next _ => (add_returns _ _).bind fun _ _ => ?_
    refine (byte_returns _ _).bind fun len _ => (add_returns _ _).bind fun _ _ => ?_
    refine (mul_returns _ _).bind fun n _ => (add_returns _ _).bind fun _ hend => ?_
    exact .ite (fun _ => .pure trivial) fun h => hpass next n (by omega) (by omega)
  · exact .pure trivial

/-- The loop of `ipv6_transport_offset`. -/
def offsetLoop (data : Bytes) :
    BoundedLoop.Loop (UInt8 × ℕ) (Except Panic (Option (UInt8 × ℕ))) :=
  loop (offsetStep data) (offsetMeasure data) (offsetStep_decreases data)

/-- **`ipv6_transport_offset`.** -/
def ipv6TransportOffset (data : Bytes) (next : UInt8) : Except Panic (Option (UInt8 × ℕ)) :=
  (offsetLoop data).run (next, 40)

/-- `TcpHeader`. -/
structure TcpHeader where
  sport : UInt16
  dport : UInt16
  flags : UInt8
  doff : UInt8
  deriving DecidableEq, Repr

/-- **`parse_tcp`.** -/
def parseTcp (data : Bytes) : Except Panic (Option TcpHeader) := do
  if data.length < 20 then return none
  let sport ← be16 data 0
  let dport ← be16 data 2
  let flags ← byte data 13
  let doff := (← byte data 12) >>> 4 &&& 0x0F
  if doff < 5 ∨ data.length < (← mul doff.toNat 4) then return none
  return some { sport, dport, flags, doff }

/-- `UdpHeader`. -/
structure UdpHeader where
  sport : UInt16
  dport : UInt16
  deriving DecidableEq, Repr

/-- **`parse_udp`.** -/
def parseUdp (data : Bytes) : Except Panic (Option UdpHeader) := do
  if data.length < 8 then return none
  let len := (← be16 data 4).toNat
  if len < 8 ∨ data.length < len then return none
  let sport ← be16 data 0
  let dport ← be16 data 2
  return some { sport, dport }

/-! ## Guesses at the application protocol -/

/-- What a port says. -/
def appOfPort (port : UInt16) : Option AppProto :=
  match port with
  | 20 | 21 => some .ftp
  | 22 => some .ssh
  | 25 | 587 => some .smtp
  | 53 => some .dns
  | 80 => some .http
  | 443 => some .https
  | _ => none

/-- `detect_app_by_ports`. -/
def detectAppByPorts (sport dport : UInt16) : AppProto :=
  match appOfPort sport with
  | some app => app
  | none => (appOfPort dport).getD .unknown

/-- `payload_looks_like_tls`. -/
def payloadLooksLikeTls (payload : Bytes) : Except Panic Bool := do
  if payload.length < 3 then return false
  if (← byte payload 0) ≠ 0x16 then return false
  if (← byte payload 1) ≠ 0x03 then return false
  return (← byte payload 2) ≤ 0x04

/-- `payload_looks_like_http`. -/
def payloadLooksLikeHttp (payload : Bytes) : Except Panic Bool := do
  if payload.length < 8 then return false
  let s ← slice payload 0 (min 8 payload.length)
  if !Utf8.valid s then return false
  return (ascii "GET ").isPrefixOf s || (ascii "POST ").isPrefixOf s ||
    (ascii "PUT ").isPrefixOf s || (ascii "HTTP/").isPrefixOf s || (ascii "HEAD ").isPrefixOf s

/-- `payload_looks_like_dns`. -/
def payloadLooksLikeDns (payload : Bytes) : Except Panic Bool := do
  if payload.length < 12 then return false
  let flags ← be16 payload 2
  let opcode := flags >>> 11 &&& 0x0F
  return opcode ≤ 5

/-- `payload_looks_like_ssh`. -/
def payloadLooksLikeSsh (payload : Bytes) : Bool :=
  if payload.length < 7 then false
  else (ascii "SSH-2.0").isPrefixOf payload || (ascii "SSH-1.99").isPrefixOf payload

/-- **`refine_app_proto`.** -/
def refineAppProto (app : AppProto) (payload : Bytes) : Except Panic AppProto := do
  if payload = [] then return app
  if app = .https then
    return if ← payloadLooksLikeTls payload then .tls else app
  if app = .unknown then
    if ← payloadLooksLikeHttp payload then return .http
    if payloadLooksLikeSsh payload then return .ssh
    if ← payloadLooksLikeTls payload then return .tls
    if ← payloadLooksLikeDns payload then return .dns
  return app

end Nsr.Sniffer
