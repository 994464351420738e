import Nsr.Lib.Layout
import Nsr.Sniffer.Tls

/-!
# Well-formed hellos

What `parse_tls_server_hello` and `parse_tls_client_hello` make of messages that are what they
should be.  A hello is given by its fields, and comes in a record that may hold more messages and
have more bytes behind it.

* `Framing`, `Framed`: a handshake message in a record, and what is found of it first.
* `TlsExt`: an extension; `ClientHello`, `ServerHello`.
-/

namespace Nsr.Sniffer

open Checked

/-! ## Records -/

/-- A number in three bytes. -/
def bytes24 (n : ℕ) : Bytes :=
  [UInt8.ofNat (n / 65536), UInt8.ofNat (n / 256), UInt8.ofNat n]

theorem handshakeLen_at {payload x : Bytes} {n : ℕ} (hn : n < 2 ^ 24)
    (h : At payload 6 (bytes24 n ++ x)) : handshakeLen payload = .ok n := by
  have h₁ := h.tail (j := 7) rfl
  have h₂ := At.tail h₁ (j := 8) rfl
  rw [handshakeLen, bind_ok h.byte, bind_ok (At.byte h₁), bind_ok (At.byte h₂)]
  refine congrArg Except.ok ?_
  have hb : ∀ k, (UInt8.ofNat k).toNat = k % 256 := fun k => UInt8.toNat_ofNat
  have hmid : (n / 256 % 256) <<< 8 < 2 ^ 16 := by
    rw [Nat.shiftLeft_eq]
    omega
  have hhigh : (n / 65536 % 256) <<< 16 + (n / 256 % 256) <<< 8 = (n / 256) <<< 8 := by
    rw [Nat.shiftLeft_eq, Nat.shiftLeft_eq, Nat.shiftLeft_eq]
    omega
  rw [hb, hb, hb, ← Nat.shiftLeft_add_eq_or_of_lt hmid, hhigh,
    ← Nat.shiftLeft_add_eq_or_of_lt (by omega), Nat.shiftLeft_eq]
  omega

/-- How the body of a handshake message comes to the sniffer: as the first message of a record,
with more messages behind it in the record, and more bytes behind the record. -/
structure Framing (body : Bytes) where
  version : UInt16
  more : Bytes
  trailing : Bytes
  record : 4 + body.length + more.length < 2 ^ 16
  size : 9 + body.length + more.length + trailing.length < 2 ^ 63

/-- The bytes of a record that starts with a handshake message. -/
def Framing.encode {body : Bytes} (f : Framing body) (type : UInt8) : Bytes :=
  0x16 :: (bytes16 f.version ++
    (vec16 (type :: (bytes24 body.length ++ (body ++ f.more))) ++ f.trailing))

/-- What the parsers find of a record, before they look into the message. -/
structure Framed (payload : Bytes) (type : UInt8) (body : Bytes) : Prop where
  size : payload.length < 2 ^ 63
  contentType : byte payload 0 = .ok 0x16
  record : ∃ n, recordEnd payload = .ok n ∧ n ≤ payload.length
  type : byte payload 5 = .ok type
  len : handshakeLen payload = .ok body.length
  body : At payload 9 body

theorem Framing.framed {body : Bytes} (f : Framing body) (type : UInt8) :
    Framed (f.encode type) type body := by
  have hrecord := f.record
  have hsize : (f.encode type).length = 9 + body.length + f.more.length + f.trailing.length := by
    simp only [encode, bytes24, length_vec16, length_bytes16, List.length_cons, List.length_append,
      List.length_nil]
    omega
  have hlt : (f.encode type).length < 2 ^ 63 := hsize ▸ f.size
  have hmessage : (type :: (bytes24 body.length ++ (body ++ f.more))).length =
      4 + body.length + f.more.length := by
    simp only [bytes24, List.length_cons, List.length_append, List.length_nil]
    omega
  have h₀ : At (f.encode type) 0 (f.encode type) := At.whole _
  have h₁ : At (f.encode type) 1 _ := At.tail h₀ rfl
  have h₃ : At (f.encode type) 3 _ := At.right h₁ rfl
  obtain ⟨n, hn, hnlen, h₅⟩ := h₃.left.vec16 hlt (by omega)
  have h₆ := h₅.tail (j := 6) rfl
  refine ⟨hlt, h₀.byte, ⟨n.toNat + 5, ?_, ?_⟩, h₅.byte, handshakeLen_at (by omega) h₆, ?_⟩
  · rw [recordEnd, bind_ok hn, add_eq (by omega)]
  · omega
  · exact (h₆.right (j := 9) rfl).left

/-! ## Extensions -/

/-- An extension. -/
structure TlsExt where
  type : UInt16
  data : Bytes
  short : data.length < 2 ^ 16

def TlsExt.encode (e : TlsExt) : Bytes :=
  bytes16 e.type ++ vec16 e.data

/-- The list of extensions, behind its length. -/
def encodeExts (exts : List TlsExt) : Bytes :=
  exts.flatMap TlsExt.encode

theorem TlsExt.length_encode (e : TlsExt) : e.encode.length = 4 + e.data.length := by
  rw [encode, List.length_append, length_bytes16, length_vec16]
  omega

theorem encodeExts_cons (e : TlsExt) (exts : List TlsExt) :
    encodeExts (e :: exts) = e.encode ++ encodeExts exts :=
  List.flatMap_cons

/-- What is found of an extension first. -/
theorem TlsExt.at {payload : Bytes} {e : TlsExt} {offset : ℕ} (hsize : payload.length < 2 ^ 63)
    (h : At payload offset e.encode) :
    ∃ n : UInt16, be16 payload offset = .ok e.type ∧ be16 payload (offset + 2) = .ok n ∧
      n.toNat = e.data.length ∧ At payload (offset + 4) e.data := by
  obtain ⟨n, hn, hlen, hdata⟩ := (h.right (j := offset + 2) rfl).vec16 hsize e.short
  exact ⟨n, h.be16 hsize, hn, hlen, hdata⟩

/-! ## ClientHello -/

/-- A host name. -/
structure HostName where
  bytes : Bytes
  ascii : ∀ b ∈ bytes, b < 0x80
  nonempty : bytes ≠ []
  short : bytes.length + 5 < 2 ^ 16

/-- An extension of a ClientHello: a `server_name` with one host name, or one of another type. -/
inductive ClientExt where
  | serverName (host : HostName)
  | other (e : TlsExt) (hother : e.type ≠ 0)

/-- The data of a `server_name` extension: a list of one name, which is a host name. -/
def HostName.encode (host : HostName) : Bytes :=
  vec16 (0 :: vec16 host.bytes)

theorem HostName.length_encode (host : HostName) :
    host.encode.length = host.bytes.length + 5 := by
  rw [encode, length_vec16, List.length_cons, length_vec16]
  omega

def ClientExt.ext : ClientExt → TlsExt
  | serverName host => ⟨0, host.encode, host.length_encode ▸ host.short⟩
  | other e _ => e

/-- A ClientHello, with or without extensions. -/
structure ClientHello where
  version : UInt16
  random : Bytes
  sessionId : Bytes
  cipherSuites : List UInt16
  compression : Bytes
  exts : Option (List ClientExt)
  random_length : random.length = 32
  sessionId_short : sessionId.length < 2 ^ 8
  cipherSuites_short : 2 * cipherSuites.length < 2 ^ 16
  compression_short : compression.length < 2 ^ 8
  exts_short : ∀ es, exts = some es → (encodeExts (es.map ClientExt.ext)).length < 2 ^ 16

namespace ClientHello

/-- What stands behind the compression methods. -/
def extsBlock (hello : ClientHello) : Bytes :=
  match hello.exts with
  | none => []
  | some es => vec16 (encodeExts (es.map ClientExt.ext))

/-- The bytes of the message. -/
def body (hello : ClientHello) : Bytes :=
  bytes16 hello.version ++ (hello.random ++ (vec8 hello.sessionId ++
    (vec16 (hello.cipherSuites.flatMap bytes16) ++ (vec8 hello.compression ++ hello.extsBlock))))

/-- The host name in a list of extensions, and no text where there is none. -/
def hostName : List ClientExt → Bytes
  | [] => []
  | .serverName host :: _ => host.bytes
  | .other _ _ :: es => hostName es

/-- The host name of a ClientHello. -/
def serverName (hello : ClientHello) : Bytes :=
  hostName (hello.exts.getD [])

/-- Whether an extension announces an encrypted ClientHello. -/
def ech (hello : ClientHello) : Bool :=
  (hello.exts.getD []).any fun e =>
    e.ext.type = 0xfe0d ∨ 0xff03 ≤ e.ext.type ∧ e.ext.type ≤ 0xff09

end ClientHello

/-- **A host name is not read**: its list ends with the extension, and the sniffer asks for one byte
more. -/
theorem sniName_at {payload : Bytes} {host : HostName} {p : ℕ} (hsize : payload.length < 2 ^ 63)
    (h : At payload p host.encode) : sniName payload p (p + host.encode.length) = .ok none := by
  have hle := h.le
  have hlen := host.length_encode
  have hshort := host.short
  have hlist : (0 :: vec16 host.bytes).length = host.bytes.length + 3 := by
    rw [List.length_cons, length_vec16]
    omega
  obtain ⟨n, hn, hnlen, -⟩ := h.vec16 hsize (by omega)
  rw [sniName, bind_ok (add_eq (show p + 2 < 2 ^ 64 by omega)), if_neg (by omega), bind_ok hn,
    bind_ok (add_eq (show p + 2 < 2 ^ 64 by omega)),
    bind_ok (add_eq (show p + 2 + 1 < 2 ^ 64 by omega)),
    bind_ok (add_eq (show p + 2 + 1 + n.toNat < 2 ^ 64 by omega)), if_pos (by omega)]
  rfl

section ClientExts

variable {payload : Bytes} {extEnd : ℕ} (hsize : payload.length < 2 ^ 63)
  (hend : extEnd ≤ payload.length)

include hsize hend

/-- One extension. -/
theorem clientExtStep_at {e : ClientExt} {offset : ℕ} (h : At payload offset e.ext.encode)
    (hin : offset + e.ext.encode.length ≤ extEnd) (sni : Bytes) (ech : Bool) :
    clientExtStep payload extEnd (offset, sni, ech) =
      .ok (.inl (offset + e.ext.encode.length, sni, ech || isEch e.ext.type)) := by
  obtain ⟨n, htype, hn, hlen, hdata⟩ := TlsExt.at hsize h
  rw [TlsExt.length_encode] at hin ⊢
  have hnext : offset + 4 + e.ext.data.length = offset + (4 + e.ext.data.length) := by omega
  unfold clientExtStep
  dsimp only
  rw [bind_ok (add_eq (show offset + 4 < 2 ^ 64 by omega)), if_neg (by omega), bind_ok htype,
    bind_ok (add_eq (show offset + 2 < 2 ^ 64 by omega)), bind_ok hn,
    bind_ok (add_eq (show offset + 4 < 2 ^ 64 by omega)), hlen,
    bind_ok (add_eq (show offset + 4 + e.ext.data.length < 2 ^ 64 by omega)), if_neg (by omega),
    bind_ok (add_eq (show offset + 4 + e.ext.data.length < 2 ^ 64 by omega)), hnext]
  cases e with
  | serverName host =>
    have hnone := sniName_at hsize hdata
    rw [if_pos (show (ClientExt.serverName host).ext.type = 0 from rfl)]
    refine (bind_ok (hnext ▸ hnone) _).trans ?_
    rw [Option.getD_none, show isEch (ClientExt.serverName host).ext.type = false from rfl,
      Bool.or_false]
    rfl
  | other e hother =>
    rw [if_neg (show (ClientExt.other e hother).ext.type ≠ 0 from hother)]
    split
    next hech =>
      rw [hech, Bool.or_true]
      rfl
    next hech =>
      rw [Bool.eq_false_iff.mpr hech, Bool.or_false]
      rfl

/-- **The extensions are walked to their end**, and no host name is found. -/
theorem clientExtLoop_at {es : List ClientExt} {offset : ℕ}
    (h : At payload offset (encodeExts (es.map ClientExt.ext)))
    (hin : offset + (encodeExts (es.map ClientExt.ext)).length = extEnd) (sni : Bytes)
    (ech : Bool) :
    (clientExtLoop payload extEnd).run (offset, sni, ech) =
      .ok (sni, ech || es.any fun e => isEch e.ext.type) := by
  induction es generalizing offset ech with
  | nil =>
    have hoff : offset = extEnd := by simpa [encodeExts] using hin
    refine run_inr ?_
    unfold clientExtStep
    dsimp only
    rw [bind_ok (add_eq (show offset + 4 < 2 ^ 64 by omega)), if_pos (by omega)]
    rw [List.any_nil, Bool.or_false]
    rfl
  | cons e es ih =>
    rw [List.map_cons, encodeExts_cons] at h hin
    rw [List.length_append, ← Nat.add_assoc] at hin
    have hstep := clientExtStep_at hsize hend h.left (by omega) sni ech
    refine (run_inl hstep).trans ((ih (h.right rfl) hin _).trans ?_)
    rw [List.any_cons, Bool.or_assoc]

end ClientExts

namespace ClientHello

theorem length_cipherSuites (hello : ClientHello) :
    (hello.cipherSuites.flatMap bytes16).length = 2 * hello.cipherSuites.length := by
  induction hello.cipherSuites with
  | nil => rfl
  | cons w ws ih =>
    rw [List.flatMap_cons, List.length_append, length_bytes16, ih, List.length_cons]
    omega

theorem length_body (hello : ClientHello) :
    hello.body.length = 38 + hello.sessionId.length + 2 * hello.cipherSuites.length +
      hello.compression.length + hello.extsBlock.length := by
  rw [body]
  simp only [List.length_append, length_bytes16, length_vec8, length_vec16,
    hello.length_cipherSuites, hello.random_length]
  omega

/-- **The parser gets to the extensions**, if there are any. -/
theorem parse_fields (hello : ClientHello) {payload : Bytes}
    (h : Framed payload 0x01 hello.body) :
    parseTlsClientHello payload = .ok (match hello.exts with
      | none => none
      | some es => some ([], es.any fun e => isEch e.ext.type)) := by
  obtain ⟨hsize, htype, ⟨n, hn, hnle⟩, htype', hlen, hbody⟩ := h
  have hle := hbody.le
  have hlength := hello.length_body
  have hsidShort := hello.sessionId_short
  have hsuitesShort := hello.cipherSuites_short
  have hcompShort := hello.compression_short
  have hflat := hello.length_cipherSuites
  set sid := hello.sessionId.length with hsid
  set suites := 2 * hello.cipherSuites.length with hsuites
  set comp := hello.compression.length with hcomp
  have h₄₃ := (hbody.right (j := 11) rfl).right (j := 43) (by rw [hello.random_length])
  obtain ⟨sidLen, hsidLen, hsidLen', -⟩ := h₄₃.left.vec8 hsidShort
  have h₄₄ := h₄₃.right (j := 44 + sid) (by rw [length_vec8]; omega)
  obtain ⟨suitesLen, hsuitesLen, hsuitesLen', -⟩ := h₄₄.left.vec16 hsize (by omega)
  have h₄₆ := h₄₄.right (j := 46 + sid + suites) (by rw [length_vec16, hflat]; omega)
  obtain ⟨compLen, hcompLen, hcompLen', -⟩ := h₄₆.left.vec8 hcompShort
  have h₄₇ := h₄₆.right (j := 47 + sid + suites + comp) (by rw [length_vec8]; omega)
  rw [parseTlsClientHello, if_neg (by omega), bind_ok htype, if_neg (by decide), bind_ok hn,
    if_neg (by omega), bind_ok htype', if_neg (by decide), bind_ok hlen]
  -- the offset goes over the fields
  rw [bind_ok (add_to rfl (show hello.body.length + 9 < 2 ^ 64 by omega)), if_neg (by omega),
    bind_ok (add_to rfl (show 9 + hello.body.length < 2 ^ 64 by omega)),
    bind_ok (add_to (show 9 + 34 = 43 from rfl) (by omega)), if_neg (by omega),
    bind_ok (add_to (show 9 + 34 = 43 from rfl) (by omega)),
    bind_ok (add_to (show 43 + 1 = 44 from rfl) (by omega)), if_neg (by omega), bind_ok hsidLen]
  dsimp only
  rw [bind_ok (add_to (show 1 + sidLen.toNat = 1 + sid by omega) (by omega)),
    bind_ok (add_to (show 43 + (1 + sid) = 44 + sid by omega) (by omega)),
    bind_ok (add_to (show 44 + sid + 2 = 46 + sid by omega) (by omega)), if_neg (by omega),
    bind_ok hsuitesLen,
    bind_ok (add_to (show 2 + suitesLen.toNat = 2 + suites by omega) (by omega)),
    bind_ok (add_to (show 44 + sid + (2 + suites) = 46 + sid + suites by omega) (by omega)),
    bind_ok (add_to (show 46 + sid + suites + 1 = 47 + sid + suites by omega) (by omega)),
    if_neg (by omega), bind_ok hcompLen,
    bind_ok (add_to (show 1 + compLen.toNat = 1 + comp by omega) (by omega)),
    bind_ok (add_to (show 46 + sid + suites + (1 + comp) = 47 + sid + suites + comp by omega)
      (by omega)),
    bind_ok (add_to rfl (show 47 + sid + suites + comp + 2 < 2 ^ 64 by omega))]
  cases hexts : hello.exts with
  | none =>
    rw [extsBlock, hexts, List.length_nil] at hlength
    rw [if_pos (by omega)]
    rfl
  | some es =>
    have hshort := hello.exts_short es hexts
    rw [extsBlock, hexts, length_vec16] at hlength
    rw [extsBlock, hexts] at h₄₇
    obtain ⟨extLen, hextLen, hextLen', h₄₉⟩ := h₄₇.vec16 hsize hshort
    have hrun := clientExtLoop_at hsize hle h₄₉ (by omega) [] false
    rw [if_neg (by omega), bind_ok hextLen,
      bind_ok (add_to rfl (show 47 + sid + suites + comp + 2 < 2 ^ 64 by omega)),
      bind_ok (add_to (show 47 + sid + suites + comp + 2 + extLen.toNat = 9 + hello.body.length
        by omega) (by omega)), Nat.min_self, bind_ok hrun, Bool.false_or]
    rfl

/-- There is a `server_name` extension. -/
def HasServerName (hello : ClientHello) : Prop :=
  ∃ es host, hello.exts = some es ∧ ClientExt.serverName host ∈ es

theorem hostName_eq_nil {es : List ClientExt} :
    hostName es = [] ↔ ∀ host, ClientExt.serverName host ∉ es := by
  induction es with
  | nil => simp [hostName]
  | cons e es ih =>
    cases e with
    | serverName host =>
      rw [hostName]
      exact ⟨fun h => absurd h host.nonempty, fun h => absurd List.mem_cons_self (h host)⟩
    | other e hother =>
      rw [hostName, ih]
      simp

/-- **When the host name is found.**  For every well-formed ClientHello in one record, the parser
returns the host name, or no text where there is none, and whether an extension announces an
encrypted ClientHello, exactly if the message has extensions and none of them is a `server_name`:
a host name is never found. -/
theorem host_name_found_iff (hello : ClientHello) (f : Framing hello.body) :
    parseTlsClientHello (f.encode 0x01) = .ok (some (hello.serverName, hello.ech)) ↔
      hello.exts.isSome = true ∧ ¬hello.HasServerName := by
  rw [hello.parse_fields (f.framed 0x01), Except.ok.injEq, serverName, ech, HasServerName]
  cases hello.exts with
  | none => simp
  | some es =>
    dsimp only [Option.getD_some]
    rw [Option.some_inj, Prod.mk.injEq, eq_comm, hostName_eq_nil]
    constructor
    · rintro ⟨hnone, -⟩
      refine ⟨rfl, ?_⟩
      rintro ⟨es', host, hes, hmem⟩
      obtain rfl := Option.some_inj.mp hes
      exact hnone host hmem
    · rintro ⟨-, hnone⟩
      exact ⟨fun host hmem => hnone ⟨es, host, rfl, hmem⟩, rfl⟩

/-- A ClientHello for the host `a`, without any more than it needs. -/
def forHostA : ClientHello where
  version := 0x0303
  random := List.replicate 32 0
  sessionId := []
  cipherSuites := [0x1301]
  compression := [0]
  exts := some [.serverName
    ⟨[97], List.forall_mem_singleton.mpr (by decide), by decide, by decide⟩]
  random_length := rfl
  sessionId_short := by decide
  cipherSuites_short := by decide
  compression_short := by decide
  exts_short := by
    intro es hes
    obtain rfl := Option.some_inj.mp hes
    decide

/-- It comes in a record of its own. -/
def forHostA_framing : Framing forHostA.body :=
  ⟨0x0301, [], [], by decide, by decide⟩

/-- **Its host name is missed.** -/
theorem host_name_missed :
    parseTlsClientHello (forHostA_framing.encode 0x01) = .ok (some ([], false)) ∧
      forHostA.serverName = [97] ∧
      parseTlsClientHello (forHostA_framing.encode 0x01) ≠
        .ok (some (forHostA.serverName, forHostA.ech)) := by
  have hparse : parseTlsClientHello (forHostA_framing.encode 0x01) = .ok (some ([], false)) := by
    decide +kernel
  refine ⟨hparse, rfl, ?_⟩
  rw [hparse]
  decide +kernel

end ClientHello

/-! ## ServerHello -/

/-- An extension of a ServerHello: the version that was chosen, or one of another type. -/
inductive ServerExt where
  | supportedVersions (version : UInt16)
  | other (e : TlsExt) (hother : e.type ≠ 0x002b)

def ServerExt.ext : ServerExt → TlsExt
  | supportedVersions version => ⟨0x002b, bytes16 version, (by decide : 2 < 2 ^ 16)⟩
  | other e _ => e

/-- The version after an extension, if it was `version` before it. -/
def ServerExt.after (version : UInt16) : ServerExt → UInt16
  | supportedVersions v => v
  | other _ _ => version

/-- A ServerHello, with or without extensions; no two of them have one type. -/
structure ServerHello where
  version : UInt16
  random : Bytes
  sessionId : Bytes
  cipher : UInt16
  compression : UInt8
  exts : Option (List ServerExt)
  random_length : random.length = 32
  sessionId_short : sessionId.length ≤ 32
  exts_distinct : ((exts.getD []).map fun e => e.ext.type).Nodup
  exts_short : ∀ es, exts = some es → (encodeExts (es.map ServerExt.ext)).length < 2 ^ 16

namespace ServerHello

/-- What stands behind the compression method. -/
def extsBlock (hello : ServerHello) : Bytes :=
  match hello.exts with
  | none => []
  | some es => vec16 (encodeExts (es.map ServerExt.ext))

/-- The bytes of the message. -/
def body (hello : ServerHello) : Bytes :=
  bytes16 hello.version ++ (hello.random ++ (vec8 hello.sessionId ++
    (bytes16 hello.cipher ++ (hello.compression :: hello.extsBlock))))

/-- The version in a list of extensions. -/
def chosen : List ServerExt → Option UInt16
  | [] => none
  | .supportedVersions version :: _ => some version
  | .other _ _ :: es => chosen es

theorem chosen_eq_none {es : List ServerExt} :
    chosen es = none ↔ ∀ v, ServerExt.supportedVersions v ∉ es := by
  induction es with
  | nil => simp [chosen]
  | cons e es ih =>
    cases e with
    | supportedVersions v =>
      exact ⟨fun h => absurd h (Option.some_ne_none v), fun h => absurd List.mem_cons_self (h v)⟩
    | other e hother =>
      rw [chosen, ih]
      simp

/-- The version in a `supported_versions` extension. -/
def supported (hello : ServerHello) : Option UInt16 :=
  chosen (hello.exts.getD [])

/-- **The negotiated version.** -/
def negotiated (hello : ServerHello) : UInt16 :=
  hello.supported.getD hello.version

end ServerHello

section ServerExts

variable {payload : Bytes} {extEnd : ℕ} (hsize : payload.length < 2 ^ 63)
  (hend : extEnd ≤ payload.length)

include hsize hend

/-- One extension. -/
theorem serverExtStep_at {e : ServerExt} {offset : ℕ} (h : At payload offset e.ext.encode)
    (hin : offset + e.ext.encode.length ≤ extEnd) (version : UInt16) :
    serverExtStep payload extEnd (offset, version) =
      .ok (.inl (offset + e.ext.encode.length, e.after version)) := by
  obtain ⟨n, htype, hn, hlen, hdata⟩ := TlsExt.at hsize h
  rw [TlsExt.length_encode] at hin ⊢
  have hversion : extVersion payload (offset + 4) e.ext.type n.toNat version =
      .ok (e.after version) := by
    cases e with
    | supportedVersions v =>
      have hv : be16 payload (offset + 4) = .ok v :=
        At.be16 (x := []) hsize hdata
      rw [extVersion, hv, hlen]
      rfl
    | other e hother => exact if_neg hother
  unfold serverExtStep
  dsimp only
  rw [bind_ok (add_to rfl (show offset + 4 < 2 ^ 64 by omega)), if_neg (by omega), bind_ok htype,
    bind_ok (add_to rfl (show offset + 2 < 2 ^ 64 by omega)), bind_ok hn,
    bind_ok (add_to rfl (show offset + 4 < 2 ^ 64 by omega)),
    bind_ok (add_to (show offset + 4 + n.toNat = offset + (4 + e.ext.data.length) by omega)
      (by omega)), if_neg (by omega), bind_ok hversion,
    bind_ok (add_to (show offset + 4 + n.toNat = offset + (4 + e.ext.data.length) by omega)
      (by omega))]
  rfl

/-- **The extensions are walked to their end**, and the version is found. -/
theorem serverExtLoop_at {es : List ServerExt} {offset : ℕ}
    (h : At payload offset (encodeExts (es.map ServerExt.ext)))
    (hin : offset + (encodeExts (es.map ServerExt.ext)).length = extEnd)
    (hdistinct : (es.map fun e => e.ext.type).Nodup) (version : UInt16) :
    (serverExtLoop payload extEnd).run (offset, version) =
      .ok ((ServerHello.chosen es).getD version) := by
  induction es generalizing offset version with
  | nil =>
    have hoff : offset = extEnd := by simpa [encodeExts] using hin
    refine run_inr ?_
    unfold serverExtStep
    dsimp only
    rw [bind_ok (add_to rfl (show offset + 4 < 2 ^ 64 by omega)), if_pos (by omega)]
    rfl
  | cons e es ih =>
    rw [List.map_cons, encodeExts_cons] at h hin
    rw [List.length_append, ← Nat.add_assoc] at hin
    obtain ⟨hnew, hdistinct⟩ := List.nodup_cons.mp hdistinct
    have hstep := serverExtStep_at hsize hend h.left (by omega) version
    refine (run_inl hstep).trans ((ih (h.right rfl) hin hdistinct _).trans ?_)
    cases e with
    | supportedVersions v =>
      -- no other extension holds a version
      have hnone : ServerHello.chosen es = none := by
        refine ServerHello.chosen_eq_none.mpr fun v' hmem => hnew ?_
        exact List.mem_map.mpr ⟨_, hmem, rfl⟩
      rw [hnone]
      rfl
    | other e hother => rfl

end ServerExts

namespace ServerHello

theorem length_body (hello : ServerHello) :
    hello.body.length = 38 + hello.sessionId.length + hello.extsBlock.length := by
  rw [body]
  simp only [List.length_append, List.length_cons, length_bytes16, length_vec8,
    hello.random_length]
  omega

/-- **The parser gets to the extensions**: where there is no version in them, it takes TLS 1.2. -/
theorem parse_fields (hello : ServerHello) {payload : Bytes}
    (h : Framed payload 0x02 hello.body) :
    parseTlsServerHello payload =
      .ok (some (versionName (hello.supported.getD 0x0303), hello.cipher)) := by
  obtain ⟨hsize, htype, ⟨n, hn, hnle⟩, htype', hlen, hbody⟩ := h
  have hle := hbody.le
  have hlength := hello.length_body
  have hsidShort := hello.sessionId_short
  set sid := hello.sessionId.length with hsid
  have h₄₃ := (hbody.right (j := 11) rfl).right (j := 43) (by rw [hello.random_length])
  obtain ⟨sidLen, hsidLen, hsidLen', -⟩ := h₄₃.left.vec8 (by omega)
  have h₄₄ := h₄₃.right (j := 44 + sid) (by rw [length_vec8]; omega)
  have hcipher := h₄₄.be16 hsize
  have h₄₇ := (h₄₄.right (j := 46 + sid) (by rw [length_bytes16]; omega)).tail (j := 47 + sid)
    (by omega)
  rw [parseTlsServerHello, if_neg (by omega), bind_ok htype, if_neg (by decide), bind_ok hn,
    if_neg (by omega), bind_ok htype', if_neg (by decide), bind_ok hlen]
  -- the offset goes over the fields
  rw [bind_ok (add_to rfl (show hello.body.length + 9 < 2 ^ 64 by omega)), if_neg (by omega),
    bind_ok (add_to rfl (show 9 + hello.body.length < 2 ^ 64 by omega)),
    bind_ok (add_to (show 9 + 34 = 43 from rfl) (by omega)), if_neg (by omega),
    bind_ok (add_to (show 9 + 34 = 43 from rfl) (by omega)),
    bind_ok (add_to (show 43 + 1 = 44 from rfl) (by omega)), if_neg (by omega), bind_ok hsidLen,
    bind_ok (add_to (show 43 + 1 = 44 from rfl) (by omega)),
    bind_ok (add_to (show 44 + sidLen.toNat = 44 + sid by omega) (by omega)), if_neg (by omega),
    bind_ok (add_to (show 44 + sidLen.toNat = 44 + sid by omega) (by omega)),
    bind_ok (add_to (show 44 + sid + 2 = 46 + sid by omega) (by omega)), if_neg (by omega),
    bind_ok hcipher, bind_ok (add_to (show 44 + sid + 2 = 46 + sid by omega) (by omega)),
    bind_ok (add_to (show 46 + sid + 1 = 47 + sid by omega) (by omega)), if_neg (by omega),
    bind_ok (add_to (show 46 + sid + 1 = 47 + sid by omega) (by omega))]
  have hversion : serverVersion payload (47 + sid) (9 + hello.body.length) =
      .ok (hello.supported.getD 0x0303) := by
    rw [serverVersion, supported,
      bind_ok (add_to rfl (show 47 + sid + 2 < 2 ^ 64 by omega))]
    cases hexts : hello.exts with
    | none =>
      rw [extsBlock, hexts, List.length_nil] at hlength
      rw [if_pos (by omega)]
      rfl
    | some es =>
      have hshort := hello.exts_short es hexts
      have hdistinct := hello.exts_distinct
      rw [hexts] at hdistinct
      rw [extsBlock, hexts, length_vec16] at hlength
      rw [extsBlock, hexts] at h₄₇
      obtain ⟨extLen, hextLen, hextLen', h₄₉⟩ := h₄₇.vec16 hsize hshort
      have hrun := serverExtLoop_at hsize hle h₄₉ (by omega) hdistinct 0x0303
      rw [if_neg (by omega), bind_ok hextLen,
        bind_ok (add_to rfl (show 47 + sid + 2 < 2 ^ 64 by omega)),
        bind_ok (add_to (show 47 + sid + 2 + extLen.toNat = 9 + hello.body.length by omega)
          (by omega)), Nat.min_self, hrun]
      rfl
  rw [bind_ok hversion]
  rfl

/-- The name of TLS 1.2 is no other version's. -/
theorem versionName_eq {v : UInt16} : versionName 0x0303 = versionName v ↔ v = 0x0303 := by
  constructor
  · intro h
    by_contra hv
    unfold versionName at h
    rw [if_neg (by decide), if_pos rfl, if_neg hv] at h
    split at h
    · exact absurd h (by decide)
    split at h
    · exact absurd h (by decide)
    split at h
    · exact absurd h (by decide)
    · exact absurd h (by decide)
  · rintro rfl
    rfl

/-- **When the version is found.**  For every well-formed ServerHello in one record, the parser
returns the cipher suite, and the name of the negotiated version exactly if the message says the
version in an extension or the version is TLS 1.2. -/
theorem version_found_iff (hello : ServerHello) (f : Framing hello.body) :
    parseTlsServerHello (f.encode 0x02) =
        .ok (some (versionName hello.negotiated, hello.cipher)) ↔
      hello.supported.isSome = true ∨ hello.version = 0x0303 := by
  rw [hello.parse_fields (f.framed 0x02), Except.ok.injEq, Option.some_inj, Prod.mk.injEq,
    negotiated]
  cases hello.supported with
  | none => simpa using versionName_eq
  | some v => simp

/-- The ServerHello of an old server: TLS 1.0, no session and no extensions. -/
def fromOldServer : ServerHello where
  version := 0x0301
  random := List.replicate 32 0
  sessionId := []
  cipher := 0x002f
  compression := 0
  exts := none
  random_length := rfl
  sessionId_short := by decide
  exts_distinct := List.nodup_nil
  exts_short := fun es h => absurd h.symm (Option.some_ne_none es)

/-- It comes in a record of its own, of 47 bytes. -/
def fromOldServer_framing : Framing fromOldServer.body :=
  ⟨0x0301, [], [], by decide, by decide⟩

/-- **It is taken for TLS 1.2.** -/
theorem old_version_missed :
    parseTlsServerHello (fromOldServer_framing.encode 0x02) =
        .ok (some (ascii "TLSv1.2", 0x002f)) ∧
      versionName fromOldServer.negotiated = ascii "TLSv1.0" ∧
      parseTlsServerHello (fromOldServer_framing.encode 0x02) ≠
        .ok (some (versionName fromOldServer.negotiated, fromOldServer.cipher)) := by
  have hparse : parseTlsServerHello (fromOldServer_framing.encode 0x02) =
      .ok (some (ascii "TLSv1.2", 0x002f)) := by
    decide +kernel
  refine ⟨hparse, rfl, ?_⟩
  rw [hparse]
  decide +kernel

end ServerHello

end Nsr.Sniffer
