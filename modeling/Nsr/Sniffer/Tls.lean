import Nsr.Sniffer.Packet

/-!
# TLS hellos

`parse_tls_server_hello` and `parse_tls_client_hello` of `plugins/sniffer/src/main.rs`: five length
fields, one inside the other, and a list of extensions to be walked.

* `serverExtLoop`, `parseTlsServerHello`.
* `sniName`, `clientExtLoop`, `parseTlsClientHello`.
-/

namespace Nsr.Sniffer

open Checked

/-- The length of a handshake message, from its three bytes. -/
def handshakeLen (payload : Bytes) : Except Panic ℕ := do
  let b₀ ← byte payload 6
  let b₁ ← byte payload 7
  let b₂ ← byte payload 8
  return b₀.toNat <<< 16 ||| b₁.toNat <<< 8 ||| b₂.toNat

/-- The length of the first record, with its header. -/
def recordEnd (payload : Bytes) : Except Panic ℕ := do
  add (← be16 payload 3).toNat 5

/-! ## ServerHello -/

/-- The version in an extension of a ServerHello, if it holds one. -/
def extVersion (payload : Bytes) (offset : ℕ) (extType : UInt16) (extDataLen : ℕ)
    (version : UInt16) : Except Panic UInt16 :=
  if extType = 0x002b then
    if extDataLen = 2 then be16 payload offset else return version
  else return version

/-- One round over the extensions of a ServerHello: the offset, and the version found so far. -/
def serverExtStep (payload : Bytes) (extEnd : ℕ) (s : ℕ × UInt16) :
    Except Panic ((ℕ × UInt16) ⊕ UInt16) := do
  let (offset, version) := s
  if ¬(← add offset 4) ≤ extEnd then return .inr version
  let extType ← be16 payload offset
  let extDataLen := (← be16 payload (← add offset 2)).toNat
  let offset ← add offset 4
  if (← add offset extDataLen) > extEnd then return .inr version
  let version ← extVersion payload offset extType extDataLen version
  return .inl (← add offset extDataLen, version)

theorem serverExtStep_decreases (payload : Bytes) (extEnd : ℕ) (s : ℕ × UInt16) :
    Returns (serverExtStep payload extEnd s)
      (Below (fun s : ℕ × UInt16 => extEnd - s.1) (extEnd - s.1)) := by
  obtain ⟨offset, version⟩ := s
  unfold serverExtStep
  refine (add_returns _ _).bind fun _ hroom => .ite (fun _ => .pure trivial) fun h => ?_
  refine .skip fun _ => ?_
  refine (add_returns _ _).bind fun _ _ => ?_
  refine .skip fun _ => ?_
  refine (add_returns _ _).bind fun off hoff => ?_
  refine (add_returns _ _).bind fun _ hend => .ite (fun _ => .pure trivial) fun _ => ?_
  refine .skip fun _ => ?_
  refine (add_returns _ _).bind fun next hnext => .pure ?_
  rw [Below]
  dsimp only
  omega

/-- The extensions of a ServerHello. -/
def serverExtLoop (payload : Bytes) (extEnd : ℕ) :
    BoundedLoop.Loop (ℕ × UInt16) (Except Panic UInt16) :=
  loop (serverExtStep payload extEnd) (fun s => extEnd - s.1)
    (serverExtStep_decreases payload extEnd)

/-- The version of a ServerHello whose fields end at `offset`. -/
def serverVersion (payload : Bytes) (offset fin : ℕ) : Except Panic UInt16 := do
  let tlsVersion := 0x0303
  if ¬(← add offset 2) ≤ fin then return tlsVersion
  let extLen := (← be16 payload offset).toNat
  let offset ← add offset 2
  let extEnd := min (← add offset extLen) fin
  (serverExtLoop payload extEnd).run (offset, tlsVersion)

/-- What a version is called. -/
def versionName (version : UInt16) : Bytes :=
  if version = 0x0304 then ascii "TLSv1.3"
  else if version = 0x0303 then ascii "TLSv1.2"
  else if version = 0x0302 then ascii "TLSv1.1"
  else if version = 0x0301 then ascii "TLSv1.0"
  else ascii "TLS Unknown"

/-- **`parse_tls_server_hello`.** -/
def parseTlsServerHello (payload : Bytes) : Except Panic (Option (Bytes × UInt16)) := do
  if payload.length < 47 then return none
  if (← byte payload 0) ≠ 0x16 then return none
  if (← recordEnd payload) > payload.length then return none
  if (← byte payload 5) ≠ 0x02 then return none
  let hsLen ← handshakeLen payload
  if (← add hsLen 9) > payload.length then return none
  let offset := 9
  let fin ← add 9 hsLen
  if (← add offset 34) > fin then return none
  let offset ← add offset 34
  if (← add offset 1) > fin then return none
  let sidLen := (← byte payload offset).toNat
  let offset ← add offset 1
  if (← add offset sidLen) > fin then return none
  let offset ← add offset sidLen
  if (← add offset 2) > fin then return none
  let cipher ← be16 payload offset
  let offset ← add offset 2
  if (← add offset 1) > fin then return none
  let offset ← add offset 1
  let tlsVersion ← serverVersion payload offset fin
  return some (versionName tlsVersion, cipher)

/-- `cipher_suite_name`. -/
def cipherSuiteName (cipher : UInt16) : Bytes :=
  if cipher = 0x1301 then ascii "AES_128_GCM_SHA256"
  else if cipher = 0x1302 then ascii "AES_256_GCM_SHA384"
  else if cipher = 0x1303 then ascii "CHACHA20_POLY1305_SHA256"
  else if cipher = 0xc02b then ascii "ECDHE_ECDSA_AES_128_GCM_SHA256"
  else if cipher = 0xc02c then ascii "ECDHE_ECDSA_AES_256_GCM_SHA384"
  else if cipher = 0xc02f then ascii "ECDHE_RSA_AES_128_GCM_SHA256"
  else if cipher = 0xc030 then ascii "ECDHE_RSA_AES_256_GCM_SHA384"
  else ascii "UNKNOWN"

/-! ## ClientHello -/

/-- The host name of a `server_name` extension whose data is between `p` and `nextExt`, if it is
read. -/
def sniName (payload : Bytes) (p nextExt : ℕ) : Except Panic (Option Bytes) := do
  if ¬(← add p 2) ≤ nextExt then return none
  let sniListLen := (← be16 payload p).toNat
  let p ← add p 2
  if ¬((← add (← add p 1) sniListLen) ≤ nextExt ∧ sniListLen > 0) then return none
  let nameType ← byte payload p
  let p ← add p 1
  if nameType ≠ 0 then return none
  if ¬(← add p 2) ≤ nextExt then return none
  let nameLen := (← be16 payload p).toNat
  let p ← add p 2
  if ¬(← add p nameLen) ≤ nextExt then return none
  return some (Utf8.lossy (← slice payload p (← add p nameLen)))

/-- The extensions that announce an encrypted ClientHello, as the sniffer sees it. -/
def isEch (extType : UInt16) : Bool :=
  extType = 0xfe0d ∨ extType ≥ 0xff03 ∧ extType ≤ 0xff09

/-- One round over the extensions of a ClientHello: the offset, the name found so far, and whether
a ClientHello is encrypted. -/
def clientExtStep (payload : Bytes) (extEnd : ℕ) (s : ℕ × Bytes × Bool) :
    Except Panic ((ℕ × Bytes × Bool) ⊕ (Bytes × Bool)) := do
  let (offset, sni, ech) := s
  if ¬(← add offset 4) ≤ extEnd then return .inr (sni, ech)
  let extType ← be16 payload offset
  let extDataLen := (← be16 payload (← add offset 2)).toNat
  let offset ← add offset 4
  if (← add offset extDataLen) > extEnd then return .inr (sni, ech)
  let nextExt ← add offset extDataLen
  if extType = 0 then return .inl (nextExt, (← sniName payload offset nextExt).getD sni, ech)
  if isEch extType then return .inl (nextExt, sni, true)
  return .inl (nextExt, sni, ech)

theorem clientExtStep_decreases (payload : Bytes) (extEnd : ℕ) (s : ℕ × Bytes × Bool) :
    Returns (clientExtStep payload extEnd s)
      (Below (fun s : ℕ × Bytes × Bool => extEnd - s.1) (extEnd - s.1)) := by
  obtain ⟨offset, sni, ech⟩ := s
  unfold clientExtStep
  refine (add_returns _ _).bind fun _ hroom => .ite (fun _ => .pure trivial) fun h => ?_
  refine .skip fun _ => ?_
  refine (add_returns _ _).bind fun _ _ => ?_
  refine .skip fun _ => ?_
  refine (add_returns _ _).bind fun off hoff => ?_
  refine (add_returns _ _).bind fun _ hend => .ite (fun _ => .pure trivial) fun _ => ?_
  refine (add_returns _ _).bind fun next hnext => ?_
  have hless : extEnd - next < extEnd - offset := by omega
  refine .ite (fun _ => ?_) fun _ => .ite (fun _ => .pure hless) fun _ => .pure hless
  exact .skip fun _ => .pure hless

/-- The extensions of a ClientHello. -/
def clientExtLoop (payload : Bytes) (extEnd : ℕ) :
    BoundedLoop.Loop (ℕ × Bytes × Bool) (Except Panic (Bytes × Bool)) :=
  loop (clientExtStep payload extEnd) (fun s => extEnd - s.1)
    (clientExtStep_decreases payload extEnd)

/-- **`parse_tls_client_hello`.** -/
def parseTlsClientHello (payload : Bytes) : Except Panic (Option (Bytes × Bool)) := do
  if payload.length < 43 then return none
  if (← byte payload 0) ≠ 0x16 then return none
  if (← recordEnd payload) > payload.length then return none
  if (← byte payload 5) ≠ 0x01 then return none
  let hsLen ← handshakeLen payload
  if (← add hsLen 9) > payload.length then return none
  let offset := 9
  let fin ← add 9 hsLen
  if (← add offset 34) > fin then return none
  let offset ← add offset 34
  if (← add offset 1) > fin then return none
  let sidLen := (← byte payload offset).toNat
  let offset ← add offset (← add 1 sidLen)
  if (← add offset 2) > fin then return none
  let cipherLen := (← be16 payload offset).toNat
  let offset ← add offset (← add 2 cipherLen)
  if (← add offset 1) > fin then return none
  let compLen := (← byte payload offset).toNat
  let offset ← add offset (← add 1 compLen)
  if (← add offset 2) > fin then return none
  let extLen := (← be16 payload offset).toNat
  let offset ← add offset 2
  let r ← (clientExtLoop payload (min (← add offset extLen) fin)).run (offset, [], false)
  return some r

end Nsr.Sniffer
