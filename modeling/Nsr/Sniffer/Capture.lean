import Nsr.Sniffer.Dns
import Nsr.Sniffer.Tls

/-!
# What the capture thread does with a packet

`build_info`, `packet_matches_filters`, `analyze_ipv4` and `analyze_ipv6` of
`plugins/sniffer/src/main.rs`.  The two analyses differ in their headers, and in how they limit the
payload; what they do with the transport header and with the packet is the same.

* `GlobalState`: the state of the sniffer.
* `Text`: what is left open.
* `buildInfo`, `packetMatchesFilters`.
* `transport`, `payloadLimit`, `record`: the parts of an analysis.
* `analyzeIpv4`, `analyzeIpv6`.
-/

namespace Nsr.Sniffer

open Checked

/-- `GlobalState`; of the capture thread only counts whether there is one. -/
structure GlobalState where
  targetIp : Bytes
  targetHost : Bytes
  telemetryTargetIp : Bytes
  isIpv6 : Bool
  running : Bool
  captureThread : Bool
  packets : List SniffPacket
  totalCaptured : UInt64
  totalFiltered : UInt64
  focusedAddr : Bytes
  errorNoPriv : Bool
  errorInvalidIp : Bool
  filterProto : Bytes
  filterString : Bytes
  curlThreadActive : Bool
  showDashboard : Bool
  inspectIp : Bytes
  inspectProtoIdx : ℕ
  inspectFilter : Bytes
  inspectShowRaw : Bool
  inspectBodyMode : ℕ
  inspectFocus : ℕ
  lastDashboardKeyMs : UInt64
  countdownActive : Bool
  countdownStartMs : UInt64
  stateShowRaw : Bool
  stateBodyMode : ℕ
  lastPayload : Bytes
  lastPacket : Option SniffPacket
  deriving DecidableEq

/-- `GlobalState::new`. -/
def GlobalState.new : GlobalState where
  targetIp := []
  targetHost := []
  telemetryTargetIp := []
  isIpv6 := false
  running := false
  captureThread := false
  packets := []
  totalCaptured := 0
  totalFiltered := 0
  focusedAddr := []
  errorNoPriv := false
  errorInvalidIp := false
  filterProto := []
  filterString := []
  curlThreadActive := false
  showDashboard := false
  inspectIp := []
  inspectProtoIdx := 0
  inspectFilter := []
  inspectShowRaw := false
  inspectBodyMode := 0
  inspectFocus := 0
  lastDashboardKeyMs := 0
  countdownActive := false
  countdownStartMs := 0
  stateShowRaw := false
  stateBodyMode := 0
  lastPayload := []
  lastPacket := none

/-- **What is left open** of texts: the case mappings of Unicode, and `parse_http_summary`. -/
structure Text where
  toUppercase : Bytes → Bytes
  toLowercase : Bytes → Bytes
  parseHttpSummary : Bytes → Option Bytes

/-! ## The text about a packet -/

/-- `tcp_flags_str`. -/
def tcpFlagsStr (flags : UInt8) : Bytes :=
  let s := (if flags &&& 0x01 ≠ 0 then ascii "F" else []) ++
    (if flags &&& 0x02 ≠ 0 then ascii "S" else []) ++
    (if flags &&& 0x04 ≠ 0 then ascii "R" else []) ++
    (if flags &&& 0x08 ≠ 0 then ascii "P" else []) ++
    (if flags &&& 0x10 ≠ 0 then ascii "A" else []) ++
    (if flags &&& 0x20 ≠ 0 then ascii "U" else [])
  if s = [] then ascii "[-]" else ascii "[" ++ s ++ ascii "]"

section BuildInfo

variable (pkt : SniffPacket) (payload : Bytes)

/-- Both ports are there. -/
def hasPorts : Prop :=
  pkt.srcPort ≠ 0 ∧ pkt.dstPort ≠ 0

instance : Decidable (hasPorts pkt) :=
  inferInstanceAs (Decidable (_ ∧ _))

def portsText : Bytes :=
  decimal pkt.srcPort.toNat ++ ascii "->" ++ decimal pkt.dstPort.toNat

/-- The protocol and the flags. -/
def tcpText : Bytes :=
  pkt.app.name ++ ascii " " ++ tcpFlagsStr pkt.tcpFlags

/-- The text about a payload that looks like HTTP. -/
def httpInfo (text : Text) : Except Panic (Option Bytes) := do
  if ¬(pkt.trans = .tcp ∧ payload ≠ []) then return none
  if ¬(pkt.app = .http ∨ pkt.app = .https ∨ (← payloadLooksLikeHttp payload) = true) then
    return none
  return (text.parseHttpSummary payload).map fun detail =>
    if hasPorts pkt then tcpText pkt ++ ascii " " ++ portsText pkt ++ ascii " " ++ detail
    else tcpText pkt ++ ascii " " ++ detail

/-- The text about a payload that looks like TLS. -/
def tlsInfo : Except Panic (Option Bytes) := do
  if ¬(pkt.trans = .tcp ∧ payload ≠ []) then return none
  if ¬(pkt.app = .tls ∨ pkt.app = .https ∨ (← payloadLooksLikeTls payload) = true) then
    return none
  match ← parseTlsClientHello payload with
  | some (sni, ech) =>
    let echSuffix := if ech then ascii " [ECH]" else []
    if sni ≠ [] then
      return some (tcpText pkt ++ ascii " " ++ portsText pkt ++ ascii " SNI=" ++ sni ++ echSuffix)
    return some (tcpText pkt ++ ascii " " ++ portsText pkt ++ ascii " TLS" ++ echSuffix)
  | none =>
    match ← parseTlsServerHello payload with
    | some (tlsVer, cipher) =>
      return some (tcpText pkt ++ ascii " " ++ portsText pkt ++ ascii " " ++ tlsVer ++ ascii " " ++
        cipherSuiteName cipher)
    | none => return none

/-- The text about a DNS message. -/
def dnsInfo : Except Panic (Option Bytes) := do
  if ¬(pkt.app = .dns ∧ payload.length ≥ 12) then return none
  let isQuery := (← byte payload 2) &&& 0x80 = 0
  let ancount ← be16 payload 6
  match ← parseDnsQueryName payload with
  | none => return none
  | some domain =>
    if isQuery then return some (ascii "DNS Query: " ++ domain)
    match ← parseDnsResponseIp payload with
    | some ipAns => return some (ascii "DNS Resp: " ++ domain ++ ascii " -> " ++ ipAns)
    | none =>
      return some (ascii "DNS Resp: " ++ domain ++ ascii " (ans=" ++ decimal ancount.toNat ++
        ascii ")")

/-- The text about an ICMPv6 message. -/
def icmp6Text (rtype code : UInt8) : Bytes :=
  if rtype = 128 then ascii "ICMPv6 Echo Req"
  else if rtype = 129 then ascii "ICMPv6 Echo Reply"
  else if rtype = 1 then ascii "ICMPv6 Dest Unreach code=" ++ decimal code.toNat
  else if rtype = 3 then ascii "ICMPv6 Time Exceeded code=" ++ decimal code.toNat
  else if rtype = 135 then ascii "ND Neighbor Solicit"
  else if rtype = 136 then ascii "ND Neighbor Advert"
  else if rtype = 133 then ascii "ND Router Solicit"
  else if rtype = 134 then ascii "ND Router Advert"
  else ascii "ICMPv6 type=" ++ decimal rtype.toNat ++ ascii " code=" ++ decimal code.toNat

/-- The text about an ICMP message. -/
def icmpText (rtype code : UInt8) (id seq : UInt16) : Bytes :=
  if rtype = 0 then
    ascii "ICMP Echo Reply id=" ++ decimal id.toNat ++ ascii " seq=" ++ decimal seq.toNat
  else if rtype = 8 then
    ascii "ICMP Echo Req id=" ++ decimal id.toNat ++ ascii " seq=" ++ decimal seq.toNat
  else if rtype = 3 then ascii "ICMP Dest Unreach code=" ++ decimal code.toNat
  else if rtype = 11 then ascii "ICMP Time Exceeded code=" ++ decimal code.toNat
  else ascii "ICMP type=" ++ decimal rtype.toNat ++ ascii " code=" ++ decimal code.toNat

/-- The text about an ICMP message of either family; a colon tells an IPv6 address. -/
def icmpInfo : Except Panic (Option Bytes) := do
  if ¬(pkt.trans = .icmp ∧ payload.length ≥ 8) then return none
  let rtype ← byte payload 0
  let code ← byte payload 1
  if (0x3a : UInt8) ∈ pkt.srcIp then return some (icmp6Text rtype code)
  let id ← be16 payload 4
  let seq ← be16 payload 6
  return some (icmpText rtype code id seq)

/-- The text about a packet there is nothing else to say about. -/
def plainInfo : Bytes :=
  let len := ascii "len=" ++ decimal payload.length
  match pkt.trans with
  | .tcp =>
    if hasPorts pkt then tcpText pkt ++ ascii " " ++ portsText pkt ++ ascii " " ++ len
    else tcpText pkt ++ ascii " " ++ len
  | .udp =>
    if hasPorts pkt then pkt.app.name ++ ascii " " ++ portsText pkt ++ ascii " " ++ len
    else pkt.app.name ++ ascii " " ++ len
  | _ => pkt.trans.name ++ ascii " " ++ len

/-- **`build_info`.** -/
def buildInfo (text : Text) : Except Panic Bytes := do
  if let some info ← httpInfo pkt payload text then return info
  if let some info ← tlsInfo pkt payload then return info
  if let some info ← dnsInfo pkt payload then return info
  if let some info ← icmpInfo pkt payload then return info
  return plainInfo pkt payload

end BuildInfo

/-! ## Filters -/

/-- The packet is of the protocol a filter names, in upper case. -/
def protoMatches (fp : Bytes) (pkt : SniffPacket) : Bool :=
  if fp = ascii "TCP" ∧ pkt.trans = .tcp then true
  else if fp = ascii "UDP" ∧ pkt.trans = .udp then true
  else if fp = ascii "ICMP" ∧ pkt.trans = .icmp then true
  else if fp = ascii "HTTP" ∧ pkt.app = .http then true
  else if fp = ascii "HTTPS" ∧ pkt.app = .https then true
  else if fp = ascii "DNS" ∧ pkt.app = .dns then true
  else if fp = ascii "SSH" ∧ pkt.app = .ssh then true
  else if fp = ascii "FTP" ∧ pkt.app = .ftp then true
  else if fp = ascii "SMTP" ∧ pkt.app = .smtp then true
  else if fp = ascii "TLS" ∧ pkt.app = .tls then true
  else false

/-- **`packet_matches_filters`.** -/
def packetMatchesFilters (text : Text) (state : GlobalState) (pkt : SniffPacket)
    (payload : Bytes) : Bool :=
  if state.filterProto ≠ [] ∧ state.filterProto ≠ ascii "ALL" ∧
      !protoMatches (text.toUppercase state.filterProto) pkt then false
  else if state.filterString ≠ [] then
    let fs := text.toLowercase state.filterString
    if payload ≠ [] ∧ fs <:+: text.toLowercase (Utf8.lossy payload) then true
    else fs <:+: text.toLowercase pkt.info
  else true

/-! ## Analyses -/

/-- What is found behind the network header. -/
structure Transport where
  proto : TransProto
  sport : UInt16
  dport : UInt16
  tcpFlags : UInt8
  app : AppProto
  payload : Bytes
  deriving DecidableEq, Repr

/-- What is behind a header of `n` bytes, and nothing where it is not all there. -/
def behind (transData : Bytes) (n : ℕ) : Except Panic Bytes :=
  if transData.length ≥ n then sliceFrom transData n else return []

/-- The transport header, for the protocol number `icmp` of ICMP. -/
def transport (icmp protocol : UInt8) (transData : Bytes) : Except Panic (Option Transport) := do
  if protocol = 6 then
    match ← parseTcp transData with
    | none => return none
    | some tcp =>
      let payload ← behind transData (← mul8 tcp.doff 4).toNat
      return some ⟨.tcp, tcp.sport, tcp.dport, tcp.flags, detectAppByPorts tcp.sport tcp.dport,
        payload⟩
  else if protocol = 17 then
    match ← parseUdp transData with
    | none => return none
    | some udp =>
      let payload ← behind transData 8
      return some ⟨.udp, udp.sport, udp.dport, 0, detectAppByPorts udp.sport udp.dport, payload⟩
  else if protocol = icmp then return some ⟨.icmp, 0, 0, 0, .unknown, transData⟩
  else return some ⟨.other, 0, 0, 0, .unknown, transData⟩

/-- How long the payload may be, if what is behind the network header may be `limit` bytes. -/
def payloadLimit (protocol : UInt8) (transData : Bytes) (limit : ℕ) : Except Panic ℕ := do
  if protocol = 6 then
    if transData.length < 20 then return limit
    let thl ← mul ((← byte transData 12) >>> 4 &&& 0x0F).toNat 4
    return limit - thl
  else if protocol = 17 then return limit - 8
  else return limit

/-- The length of the payload of an IPv4 packet. -/
def ipv4PayloadLen (protocol : UInt8) (transData payload : Bytes) (totLen ihlBytes : ℕ) :
    Except Panic ℕ := do
  if totLen < ihlBytes then return 0
  let limit ← payloadLimit protocol transData (← sub totLen ihlBytes)
  return min payload.length limit

/-- What an analysis does with a packet in the end. -/
def record (text : Text) (state : GlobalState) (pkt : SniffPacket) (payload : Bytes) :
    Except Panic GlobalState := do
  if !packetMatchesFilters text state pkt payload then
    return { state with totalFiltered := ← succ64 state.totalFiltered }
  let totalCaptured ← succ64 state.totalCaptured
  let packets := state.packets ++ [pkt]
  return { state with
    totalCaptured := totalCaptured
    lastPacket := some pkt
    lastPayload := payload
    packets := if packets.length > 128 then packets.tail else packets }

/-- An analysis from where the length of the payload is known. -/
def finish (text : Text) (now : UInt64) (state : GlobalState) (srcIp dstIp : Bytes)
    (t : Transport) (payloadLen ipTotalLen : ℕ) : Except Panic GlobalState := do
  let finalPayload ← slice t.payload 0 payloadLen
  let app ← refineAppProto t.app finalPayload
  let pkt : SniffPacket := {
    tsMs := now
    srcIp := srcIp
    dstIp := dstIp
    srcPort := t.sport
    dstPort := t.dport
    trans := t.proto
    app := app
    tcpFlags := t.tcpFlags
    payloadLen := UInt32.ofNat payloadLen
    ipTotalLen := UInt32.ofNat ipTotalLen
    info := [] }
  let info ← buildInfo pkt finalPayload text
  record text state { pkt with info := info } finalPayload

/-- **`analyze_ipv4`**, at the time `now`; `state` is what it finds when it takes the lock. -/
def analyzeIpv4 (text : Text) (now : UInt64) (data targetIp : Bytes) (state : GlobalState) :
    Except Panic GlobalState := do
  match ← parseIpv4 data with
  | none => return state
  | some ip =>
    let srcIp := ipv4ToString ip.saddr
    let dstIp := ipv4ToString ip.daddr
    if srcIp ≠ targetIp ∧ dstIp ≠ targetIp then
      return { state with totalFiltered := ← succ64 state.totalFiltered }
    let ihlBytes := (← mul8 ip.ihl 4).toNat
    if data.length < ihlBytes then return state
    let transData ← sliceFrom data ihlBytes
    match ← transport 1 ip.protocol transData with
    | none => return state
    | some t =>
      let totLen := ip.totLen.toNat
      let payloadLen ← ipv4PayloadLen ip.protocol transData t.payload totLen ihlBytes
      finish text now state srcIp dstIp t payloadLen totLen

/-- **`analyze_ipv6`.** -/
def analyzeIpv6 (text : Text) (now : UInt64) (data targetIp : Bytes) (state : GlobalState) :
    Except Panic GlobalState := do
  match ← parseIpv6 data with
  | none => return state
  | some ip6 =>
    let srcIp := ipv6ToString ip6.src
    let dstIp := ipv6ToString ip6.dst
    if srcIp ≠ targetIp ∧ dstIp ≠ targetIp then
      return { state with totalFiltered := ← succ64 state.totalFiltered }
    match ← ipv6TransportOffset data ip6.nxt with
    | none => return state
    | some (nextHeader, transOffset) =>
      let transData ← sliceFrom data transOffset
      match ← transport 58 nextHeader transData with
      | none => return state
      | some t =>
        let plen := ip6.plen.toNat
        let limit ← payloadLimit nextHeader transData plen
        finish text now state srcIp dstIp t (min t.payload.length limit) (← add 40 plen)

end Nsr.Sniffer
