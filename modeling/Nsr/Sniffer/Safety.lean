import Nsr.Sniffer.Capture

/-!
# The capture thread does not panic

The parsers chain offsets taken from the packet, and some of them let an offset run past the end
before it is checked.  Every index and every slice is inside the data all the same, and no integer
operation overflows, whatever bytes come in; the counters last for `2 ^ 64` packets.

* `parseIpv4_safe`, ..., `buildInfo_safe`: one lemma for each function.
* `analyzeIpv4_safe`, `analyzeIpv6_safe`: the analyses, as long as the counters last.
* `CaptureRun`: packets that come in while other threads change the state.
* `capture_safe`: no packet makes the capture thread panic.
-/

namespace Nsr.Sniffer

open Checked

theorem and_le_15 (b : UInt8) : (b &&& 0x0F).toNat ≤ 15 := by
  rw [UInt8.toNat_and]
  exact Nat.and_le_right

/-- A header length of four bits, in bytes. -/
theorem fourBytes_safe {n : UInt8} (h : n.toNat ≤ 15) :
    Safe (mul8 n 4) fun c => c.toNat = n.toNat * 4 :=
  mul8_safe (show n.toNat * 4 < 2 ^ 8 by omega)

theorem fourBytes16_safe {n : UInt8} (h : n.toNat ≤ 15) :
    Safe (mul16 n.toUInt16 4) fun c => c.toNat = n.toNat * 4 :=
  mul16_safe (show n.toNat * 4 < 2 ^ 16 by omega)

theorem copyFromSlice_safe {n : ℕ} {bs : Bytes} (h : bs.length = n) :
    Safe (copyFromSlice n bs) fun _ => True :=
  ⟨bs, if_pos h, trivial⟩

section Parsers

variable {data : Bytes} (hdata : data.length < 2 ^ 63)

include hdata

/-! ## Headers -/

theorem parseIpv4_safe : Safe (parseIpv4 data) fun r => ∀ ip, r = some ip →
    ip.ihl.toNat ≤ 15 ∧ ip.ihl.toNat * 4 ≤ ip.totLen.toNat ∧ ip.totLen.toNat ≤ data.length := by
  unfold parseIpv4
  refine .ite (fun _ => .pure (by simp)) fun hlen => ?_
  refine (byte_safe (by omega)).bind fun b₀ _ => .ite (fun _ => .pure (by simp)) fun _ => ?_
  refine (byte_safe (by omega)).bind fun b _ => .ite (fun _ => .pure (by simp)) fun _ => ?_
  have hihl := and_le_15 b
  refine (be16_safe hdata (by omega)).bind fun totLen _ => ?_
  refine (fourBytes16_safe hihl).bind fun least hleast => ?_
  refine .ite (fun _ => .pure (by simp)) fun hends => ?_
  rw [not_or, UInt16.not_lt, UInt16.le_iff_toNat_le] at hends
  refine (byte_safe (by omega)).bind fun protocol _ => ?_
  refine (slice_safe (by omega) (by omega)).bind fun s hs => ?_
  refine (copyFromSlice_safe hs).bind fun saddr _ => ?_
  refine (slice_safe (by omega) (by omega)).bind fun d hd => ?_
  refine (copyFromSlice_safe hd).bind fun daddr _ => .pure fun ip hip => ?_
  obtain rfl := Option.some_inj.mp hip
  exact ⟨hihl, by dsimp only; omega, by dsimp only; omega⟩

theorem parseIpv6_safe : Safe (parseIpv6 data) fun r => ∀ ip6, r = some ip6 →
    40 ≤ data.length := by
  unfold parseIpv6
  refine .ite (fun _ => .pure (by simp)) fun hlen => ?_
  refine (byte_safe (by omega)).bind fun b₀ _ => .ite (fun _ => .pure (by simp)) fun _ => ?_
  refine (be16_safe hdata (by omega)).bind fun plen _ => ?_
  have hplen := plen.toNat_lt
  refine (add_safe (by omega)).bind fun _ _ => .ite (fun _ => .pure (by simp)) fun _ => ?_
  refine (byte_safe (by omega)).bind fun nxt _ => ?_
  refine (slice_safe (by omega) (by omega)).bind fun s hs => ?_
  refine (copyFromSlice_safe hs).bind fun src _ => ?_
  refine (slice_safe (by omega) (by omega)).bind fun d hd => ?_
  exact (copyFromSlice_safe hd).bind fun dst _ => .pure fun _ _ => by omega

/-- A round in which an extension header is passed, if it is all there. -/
theorem offsetStep_ext {next : UInt8} (hext : Receive.IsExt next) {off : ℕ}
    (hoff : off < 2 ^ 63) :
    offsetStep data (next, off) = .ok (
      if data.length < off + Receive.extLen next (data.getD (off + 1) 0) then .inr none
      else .inl (data.getD off 0, off + Receive.extLen next (data.getD (off + 1) 0))) := by
  have hlong := Receive.eight_le_extLen next (data.getD (off + 1) 0)
  have hlen := (data.getD (off + 1) 0).toNat_lt
  -- the end of a header whose length is known
  have hpass : ∀ (b : UInt8) (n : ℕ), n ≠ 0 → n < 2 ^ 62 →
      (do
        if n = 0 ∨ data.length < (← add off n) then return .inr none
        return .inl (b, ← add off n)) =
      (.ok (if data.length < off + n then .inr none else .inl (b, off + n)) :
        Except Panic ((UInt8 × ℕ) ⊕ Option (UInt8 × ℕ))) := by
    intro b n hn hlt
    rw [bind_ok (add_to rfl (show off + n < 2 ^ 64 by omega))]
    by_cases hend : data.length < off + n
    · rw [if_pos (Or.inr hend), if_pos hend]
      rfl
    · rw [if_neg (by omega), if_neg hend, bind_ok (add_to rfl (show off + n < 2 ^ 64 by omega))]
      rfl
  have htwo := add_to rfl (show off + 2 < 2 ^ 64 by omega)
  unfold offsetStep
  dsimp only
  by_cases hopt : next = 0 ∨ next = 43 ∨ next = 60
  · rw [Receive.extLen_options hopt] at hlong ⊢
    rw [if_pos hopt, bind_ok htwo]
    by_cases hshort : data.length < off + 2
    · rw [if_pos hshort, if_pos (show data.length < _ by omega)]
      rfl
    rw [if_neg hshort, bind_ok (byte_eq (Receive.getElem?_of_lt (by omega))),
      bind_ok (add_to rfl (show off + 1 < 2 ^ 64 by omega)),
      bind_ok (byte_eq (Receive.getElem?_of_lt (by omega))),
      bind_ok (add_to rfl (show (data.getD (off + 1) 0).toNat + 1 < 2 ^ 64 by omega)),
      bind_ok (mul_eq (show ((data.getD (off + 1) 0).toNat + 1) * 8 < 2 ^ 64 by omega))]
    exact hpass _ _ (by omega) (by omega)
  by_cases hfrag : next = 44
  · subst hfrag
    rw [if_neg hopt, if_pos rfl, Receive.extLen_fragment,
      bind_ok (add_to rfl (show off + 8 < 2 ^ 64 by omega))]
    by_cases hshort : data.length < off + 8
    · rw [if_pos hshort, if_pos hshort]
      rfl
    · rw [if_neg hshort, if_neg hshort, bind_ok (byte_eq (Receive.getElem?_of_lt (by omega))),
        bind_ok (add_to rfl (show off + 8 < 2 ^ 64 by omega))]
      rfl
  · obtain rfl : next = 51 := by
      rcases hext with rfl | rfl | rfl | rfl | rfl
      · exact absurd (Or.inl rfl) hopt
      · exact absurd (Or.inr (Or.inl rfl)) hopt
      · exact absurd (Or.inr (Or.inr rfl)) hopt
      · exact absurd rfl hfrag
      · rfl
    rw [Receive.extLen_auth] at hlong ⊢
    rw [if_neg hopt, if_neg hfrag, if_pos rfl, bind_ok htwo]
    by_cases hshort : data.length < off + 2
    · rw [if_pos hshort, if_pos (show data.length < _ by omega)]
      rfl
    rw [if_neg hshort, bind_ok (byte_eq (Receive.getElem?_of_lt (by omega))),
      bind_ok (add_to rfl (show off + 1 < 2 ^ 64 by omega)),
      bind_ok (byte_eq (Receive.getElem?_of_lt (by omega))),
      bind_ok (add_to rfl (show (data.getD (off + 1) 0).toNat + 2 < 2 ^ 64 by omega)),
      bind_ok (mul_eq (show ((data.getD (off + 1) 0).toNat + 2) * 4 < 2 ^ 64 by omega))]
    exact hpass _ _ (by omega) (by omega)

omit hdata in
theorem offsetStep_other {next : UInt8} (hext : ¬Receive.IsExt next) (off : ℕ) :
    offsetStep data (next, off) = .ok (.inr (some (next, off))) := by
  rw [Receive.IsExt] at hext
  unfold offsetStep
  dsimp only
  rw [if_neg (by tauto), if_neg (by tauto), if_neg (by tauto)]
  rfl

/-- **The walk over the extension headers** is the one of the walkers that agree. -/
theorem ipv6TransportOffset_eq (next : UInt8) :
    ipv6TransportOffset data next = .ok (Receive.ipv6TransportOffset data next) := by
  refine run_eq_run (I := fun s : UInt8 × ℕ => s.2 < 2 ^ 63) ?_ ?_ (by norm_num)
  · rintro ⟨next, off⟩ hoff
    by_cases hext : Receive.IsExt next
    · exact (offsetStep_ext hdata hext hoff).trans
        (congrArg Except.ok (Receive.transportStep_ext data hext off).symm)
    · exact (offsetStep_other hext off).trans
        (congrArg Except.ok (Receive.transportStep_other data hext off).symm)
  · rintro ⟨next, off⟩ s' hoff hstep
    by_cases hext : Receive.IsExt next
    · have hround : Receive.transportStep data (next, off) = .inl s' := hstep
      rw [Receive.transportStep_ext data hext] at hround
      split at hround
      · cases hround
      · obtain rfl := Sum.inl.inj hround
        dsimp only
        omega
    · have hround : Receive.transportStep data (next, off) = .inl s' := hstep
      rw [Receive.transportStep_other data hext] at hround
      cases hround

theorem parseTcp_safe : Safe (parseTcp data) fun r => ∀ tcp, r = some tcp →
    tcp.doff.toNat ≤ 15 := by
  unfold parseTcp
  refine .ite (fun _ => .pure (by simp)) fun hlen => ?_
  refine (be16_safe hdata (by omega)).bind fun sport _ => ?_
  refine (be16_safe hdata (by omega)).bind fun dport _ => ?_
  refine (byte_safe (by omega)).bind fun flags _ => ?_
  refine (byte_safe (by omega)).bind fun b _ => ?_
  have hdoff := and_le_15 (b >>> 4)
  refine (mul_safe (by omega)).bind fun _ _ => .ite (fun _ => .pure (by simp)) fun _ => ?_
  refine .pure fun tcp htcp => ?_
  obtain rfl := Option.some_inj.mp htcp
  exact hdoff

theorem parseUdp_safe : Safe (parseUdp data) fun _ => True := by
  unfold parseUdp
  refine .ite (fun _ => .pure trivial) fun hlen => ?_
  refine (be16_safe hdata (by omega)).bind fun len _ => .ite (fun _ => .pure trivial) fun _ => ?_
  refine (be16_safe hdata (by omega)).bind fun sport _ => ?_
  exact (be16_safe hdata (by omega)).bind fun dport _ => .pure trivial

end Parsers

section Payload

variable {payload : Bytes} (hsize : payload.length < 2 ^ 63)

/-! ## Guesses at the application protocol -/

theorem payloadLooksLikeTls_safe : Safe (payloadLooksLikeTls payload) fun _ => True := by
  unfold payloadLooksLikeTls
  refine .ite (fun _ => .pure trivial) fun hlen => ?_
  refine (byte_safe (by omega)).bind fun _ _ => .ite (fun _ => .pure trivial) fun _ => ?_
  refine (byte_safe (by omega)).bind fun _ _ => .ite (fun _ => .pure trivial) fun _ => ?_
  exact (byte_safe (by omega)).bind fun _ _ => .pure trivial

theorem payloadLooksLikeHttp_safe : Safe (payloadLooksLikeHttp payload) fun _ => True := by
  unfold payloadLooksLikeHttp
  refine .ite (fun _ => .pure trivial) fun _ => ?_
  refine (slice_safe (Nat.zero_le _) (Nat.min_le_right _ _)).bind fun _ _ => ?_
  exact .ite (fun _ => .pure trivial) fun _ => .pure trivial

include hsize

theorem payloadLooksLikeDns_safe : Safe (payloadLooksLikeDns payload) fun _ => True := by
  unfold payloadLooksLikeDns
  refine .ite (fun _ => .pure trivial) fun hlen => ?_
  exact (be16_safe hsize (by omega)).bind fun _ _ => .pure trivial

theorem refineAppProto_safe (app : AppProto) : Safe (refineAppProto app payload) fun _ => True := by
  unfold refineAppProto
  refine .ite (fun _ => .pure trivial) fun _ => ?_
  refine .ite (fun _ => ?_) fun _ => .ite (fun _ => ?_) fun _ => .pure trivial
  · exact payloadLooksLikeTls_safe.bind fun _ _ => .pure trivial
  · refine payloadLooksLikeHttp_safe.bind fun _ _ => .ite (fun _ => .pure trivial) fun _ => ?_
    refine .ite (fun _ => .pure trivial) fun _ => ?_
    refine payloadLooksLikeTls_safe.bind fun _ _ => .ite (fun _ => .pure trivial) fun _ => ?_
    refine (payloadLooksLikeDns_safe hsize).bind fun _ _ => ?_
    exact .ite (fun _ => .pure trivial) fun _ => .pure trivial

/-! ## TLS -/

theorem recordEnd_safe (h : 5 ≤ payload.length) : Safe (recordEnd payload) fun _ => True := by
  unfold recordEnd
  refine (be16_safe hsize (by omega)).bind fun len _ => ?_
  have hlen := len.toNat_lt
  exact (add_safe (by omega)).mono fun _ _ => trivial

theorem handshakeLen_safe (h : 9 ≤ payload.length) :
    Safe (handshakeLen payload) fun n => n < 2 ^ 24 := by
  unfold handshakeLen
  refine (byte_safe (by omega)).bind fun b₀ _ => (byte_safe (by omega)).bind fun b₁ _ => ?_
  refine (byte_safe (by omega)).bind fun b₂ _ => .pure ?_
  have h₀ := b₀.toNat_lt
  have h₁ := b₁.toNat_lt
  have h₂ := b₂.toNat_lt
  rw [Nat.shiftLeft_eq, Nat.shiftLeft_eq]
  exact Nat.or_lt_two_pow (Nat.or_lt_two_pow (by omega) (by omega)) (by omega)

theorem serverExtLoop_safe {extEnd offset : ℕ} (hend : extEnd ≤ payload.length)
    (hoff : offset ≤ payload.length) (version : UInt16) :
    Safe ((serverExtLoop payload extEnd).run (offset, version)) fun _ => True := by
  refine run_safe (I := fun s : ℕ × UInt16 => s.1 ≤ payload.length) ?_ hoff
  rintro ⟨offset, version⟩ (hoff : offset ≤ payload.length)
  unfold serverExtStep
  dsimp only
  refine (add_safe (by omega)).bind fun room hroom => .ite (fun _ => .pure trivial) fun hin => ?_
  refine (be16_safe hsize (by omega)).bind fun extType _ => ?_
  refine (add_safe (by omega)).bind fun at₂ hat => ?_
  refine (be16_safe hsize (by omega)).bind fun len _ => ?_
  have hlen := len.toNat_lt
  refine (add_safe (by omega)).bind fun offset' hoff' => ?_
  refine (add_safe (by omega)).bind fun fin hfin => .ite (fun _ => .pure trivial) fun hfits => ?_
  have hversion : Safe (extVersion payload offset' extType len.toNat version) fun _ => True := by
    unfold extVersion
    refine .ite (fun _ => .ite (fun htwo => ?_) fun _ => .pure trivial) fun _ => .pure trivial
    exact be16_safe hsize (by omega)
  refine hversion.bind fun _ _ => (add_safe (by omega)).bind fun next hnext => .pure ?_
  change next ≤ payload.length
  omega

theorem serverVersion_safe {offset fin : ℕ} (hfin : fin ≤ payload.length)
    (hoff : offset ≤ fin) : Safe (serverVersion payload offset fin) fun _ => True := by
  unfold serverVersion
  refine (add_safe (by omega)).bind fun _ hroom => .ite (fun _ => .pure trivial) fun hin => ?_
  refine (be16_safe hsize (by omega)).bind fun len _ => ?_
  have hlen := len.toNat_lt
  refine (add_safe (by omega)).bind fun offset' _ => (add_safe (by omega)).bind fun _ _ => ?_
  exact serverExtLoop_safe hsize (by omega) (by omega) _

theorem parseTlsServerHello_safe : Safe (parseTlsServerHello payload) fun _ => True := by
  unfold parseTlsServerHello
  refine .ite (fun _ => .pure trivial) fun hlen => ?_
  refine (byte_safe (by omega)).bind fun _ _ => .ite (fun _ => .pure trivial) fun _ => ?_
  refine (recordEnd_safe hsize (by omega)).bind fun _ _ => .ite (fun _ => .pure trivial) fun _ => ?_
  refine (byte_safe (by omega)).bind fun _ _ => .ite (fun _ => .pure trivial) fun _ => ?_
  refine (handshakeLen_safe hsize (by omega)).bind fun hsLen hhs => ?_
  refine (add_safe (by omega)).bind fun _ hhs' => .ite (fun _ => .pure trivial) fun hfits => ?_
  refine (add_safe (by omega)).bind fun fin hfin => ?_
  refine (add_safe (by omega)).bind fun _ h₁ => .ite (fun _ => .pure trivial) fun hin₁ => ?_
  refine (add_safe (by omega)).bind fun o₁ ho₁ => ?_
  refine (add_safe (by omega)).bind fun _ h₂ => .ite (fun _ => .pure trivial) fun hin₂ => ?_
  refine (byte_safe (by omega)).bind fun sidLen _ => ?_
  have hsid := sidLen.toNat_lt
  refine (add_safe (by omega)).bind fun o₂ ho₂ => ?_
  refine (add_safe (by omega)).bind fun _ h₃ => .ite (fun _ => .pure trivial) fun hin₃ => ?_
  refine (add_safe (by omega)).bind fun o₃ ho₃ => ?_
  refine (add_safe (by omega)).bind fun _ h₄ => .ite (fun _ => .pure trivial) fun hin₄ => ?_
  refine (be16_safe hsize (by omega)).bind fun cipher _ => ?_
  refine (add_safe (by omega)).bind fun o₄ ho₄ => ?_
  refine (add_safe (by omega)).bind fun _ h₅ => .ite (fun _ => .pure trivial) fun hin₅ => ?_
  refine (add_safe (by omega)).bind fun o₅ ho₅ => ?_
  exact (serverVersion_safe hsize (by omega) (by omega)).bind fun _ _ => .pure trivial

theorem sniName_safe {p nextExt : ℕ} (hnext : nextExt ≤ payload.length) (hp : p ≤ nextExt) :
    Safe (sniName payload p nextExt) fun _ => True := by
  unfold sniName
  refine (add_safe (by omega)).bind fun _ h₁ => .ite (fun _ => .pure trivial) fun hin₁ => ?_
  refine (be16_safe hsize (by omega)).bind fun listLen _ => ?_
  have hlist := listLen.toNat_lt
  refine (add_safe (by omega)).bind fun p₁ hp₁ => (add_safe (by omega)).bind fun _ h₂ => ?_
  refine (add_safe (by omega)).bind fun _ h₃ => .ite (fun _ => .pure trivial) fun hin₃ => ?_
  refine (byte_safe (by omega)).bind fun _ _ => (add_safe (by omega)).bind fun p₂ hp₂ => ?_
  refine .ite (fun _ => .pure trivial) fun _ => ?_
  refine (add_safe (by omega)).bind fun _ h₄ => .ite (fun _ => .pure trivial) fun hin₄ => ?_
  refine (be16_safe hsize (by omega)).bind fun nameLen _ => ?_
  have hname := nameLen.toNat_lt
  refine (add_safe (by omega)).bind fun p₃ hp₃ => ?_
  refine (add_safe (by omega)).bind fun _ h₅ => .ite (fun _ => .pure trivial) fun hin₅ => ?_
  refine (add_safe (by omega)).bind fun p₄ hp₄ => ?_
  exact (slice_safe (by omega) (by omega)).bind fun _ _ => .pure trivial

theorem clientExtLoop_safe {extEnd offset : ℕ} (hend : extEnd ≤ payload.length)
    (hoff : offset ≤ payload.length) (sni : Bytes) (ech : Bool) :
    Safe ((clientExtLoop payload extEnd).run (offset, sni, ech)) fun _ => True := by
  refine run_safe (I := fun s : ℕ × Bytes × Bool => s.1 ≤ payload.length) ?_ hoff
  rintro ⟨offset, sni, ech⟩ (hoff : offset ≤ payload.length)
  unfold clientExtStep
  dsimp only
  refine (add_safe (by omega)).bind fun room hroom => .ite (fun _ => .pure trivial) fun hin => ?_
  refine (be16_safe hsize (by omega)).bind fun extType _ => ?_
  refine (add_safe (by omega)).bind fun at₂ hat => ?_
  refine (be16_safe hsize (by omega)).bind fun len _ => ?_
  have hlen := len.toNat_lt
  refine (add_safe (by omega)).bind fun offset' hoff' => ?_
  refine (add_safe (by omega)).bind fun fin hfin => .ite (fun _ => .pure trivial) fun hfits => ?_
  refine (add_safe (by omega)).bind fun next hnext => ?_
  have hinside : next ≤ payload.length := by omega
  refine .ite (fun _ => ?_) fun _ => .ite (fun _ => .pure hinside) fun _ => .pure hinside
  exact (sniName_safe hsize hinside (by omega)).bind fun _ _ => .pure hinside

/-- The fields before the extensions may be said to end behind the message; nothing is read
there. -/
theorem parseTlsClientHello_safe : Safe (parseTlsClientHello payload) fun _ => True := by
  unfold parseTlsClientHello
  refine .ite (fun _ => .pure trivial) fun hlen => ?_
  refine (byte_safe (by omega)).bind fun _ _ => .ite (fun _ => .pure trivial) fun _ => ?_
  refine (recordEnd_safe hsize (by omega)).bind fun _ _ => .ite (fun _ => .pure trivial) fun _ => ?_
  refine (byte_safe (by omega)).bind fun _ _ => .ite (fun _ => .pure trivial) fun _ => ?_
  refine (handshakeLen_safe hsize (by omega)).bind fun hsLen hhs => ?_
  refine (add_safe (by omega)).bind fun _ hhs' => .ite (fun _ => .pure trivial) fun hfits => ?_
  refine (add_safe (by omega)).bind fun fin hfin => ?_
  refine (add_safe (by omega)).bind fun _ h₁ => .ite (fun _ => .pure trivial) fun hin₁ => ?_
  refine (add_safe (by omega)).bind fun o₁ ho₁ => ?_
  refine (add_safe (by omega)).bind fun _ h₂ => .ite (fun _ => .pure trivial) fun hin₂ => ?_
  refine (byte_safe (by omega)).bind fun sidLen _ => ?_
  have hsid := sidLen.toNat_lt
  refine (add_safe (by omega)).bind fun _ hn₁ => (add_safe (by omega)).bind fun o₂ ho₂ => ?_
  refine (add_safe (by omega)).bind fun _ h₃ => .ite (fun _ => .pure trivial) fun hin₃ => ?_
  refine (be16_safe hsize (by omega)).bind fun cipherLen _ => ?_
  have hcipher := cipherLen.toNat_lt
  refine (add_safe (by omega)).bind fun _ hn₂ => (add_safe (by omega)).bind fun o₃ ho₃ => ?_
  refine (add_safe (by omega)).bind fun _ h₄ => .ite (fun _ => .pure trivial) fun hin₄ => ?_
  refine (byte_safe (by omega)).bind fun compLen _ => ?_
  have hcomp := compLen.toNat_lt
  refine (add_safe (by omega)).bind fun _ hn₃ => (add_safe (by omega)).bind fun o₄ ho₄ => ?_
  refine (add_safe (by omega)).bind fun _ h₅ => .ite (fun _ => .pure trivial) fun hin₅ => ?_
  refine (be16_safe hsize (by omega)).bind fun extLen _ => ?_
  have hext := extLen.toNat_lt
  refine (add_safe (by omega)).bind fun o₅ ho₅ => (add_safe (by omega)).bind fun _ _ => ?_
  exact (clientExtLoop_safe hsize (by omega) (by omega) _ _).bind fun _ _ => .pure trivial

/-! ## DNS -/

theorem queryNameLoop_safe {offset : ℕ} (hoff : offset ≤ payload.length) (name : Bytes) :
    Safe ((queryNameLoop payload).run (offset, name)) fun _ => True := by
  refine run_safe (I := fun s : ℕ × Bytes => s.1 ≤ payload.length) ?_ hoff
  rintro ⟨offset, name⟩ (hoff : offset ≤ payload.length)
  unfold queryNameStep
  dsimp only
  refine .ite (fun _ => .pure trivial) fun hin => (byte_safe (by omega)).bind fun l _ => ?_
  have hl := l.toNat_lt
  refine .ite (fun _ => .pure trivial) fun _ => .ite (fun _ => .pure trivial) fun _ => ?_
  refine (add_safe (by omega)).bind fun _ h₁ => (add_safe (by omega)).bind fun _ h₂ => ?_
  refine .ite (fun _ => .pure trivial) fun hfits => ?_
  refine (add_safe (by omega)).bind fun _ h₃ => (add_safe (by omega)).bind fun _ h₄ => ?_
  refine (add_safe (by omega)).bind fun _ h₅ => ?_
  refine (slice_safe (by omega) (by omega)).bind fun _ _ => ?_
  refine (add_safe (by omega)).bind fun _ h₆ => (add_safe (by omega)).bind fun _ h₇ => .pure ?_
  change _ ≤ payload.length
  omega

theorem parseDnsQueryName_safe : Safe (parseDnsQueryName payload) fun _ => True := by
  unfold parseDnsQueryName
  refine .ite (fun _ => .pure trivial) fun hlen => ?_
  refine (be16_safe hsize (by omega)).bind fun _ _ => .ite (fun _ => .pure trivial) fun _ => ?_
  refine (queryNameLoop_safe hsize (by omega) _).bind fun name _ => ?_
  cases name with
  | none => exact .pure trivial
  | some name => exact .pure trivial

/-- A name that is cut off may be said to end behind the message, by less than a label. -/
theorem skipName_safe {offset : ℕ} (hoff : offset ≤ payload.length + 255) :
    Safe ((skipName payload).run offset) fun o => o ≤ payload.length + 255 := by
  refine run_safe (I := fun o => o ≤ payload.length + 255) ?_ hoff
  intro offset hoff
  unfold skipNameStep
  refine .ite (fun _ => .pure hoff) fun hin => (byte_safe (by omega)).bind fun l _ => ?_
  have hl := l.toNat_lt
  refine .ite (fun _ => ?_) fun _ => .ite (fun _ => ?_) fun _ => ?_
  · refine (add_safe (by omega)).bind fun o ho => .pure ?_
    change o ≤ payload.length + 255
    omega
  · refine (add_safe (by omega)).bind fun o ho => .pure ?_
    change o ≤ payload.length + 255
    omega
  · refine (add_safe (by omega)).bind fun _ h₁ => (add_safe (by omega)).bind fun o ho => .pure ?_
    change o ≤ payload.length + 255
    omega

theorem skipQuestions_safe (n : ℕ) {offset : ℕ} (hoff : offset ≤ payload.length) :
    Safe (skipQuestions payload n offset) fun r => ∀ o, r = some o → o ≤ payload.length := by
  induction n generalizing offset with
  | zero =>
    refine .pure fun o ho => ?_
    obtain rfl := Option.some_inj.mp ho
    exact hoff
  | succ n ih =>
    rw [skipQuestions]
    refine (skipName_safe hsize (by omega)).bind fun o ho => ?_
    refine (add_safe (by omega)).bind fun _ h₁ => .ite (fun _ => .pure (by simp)) fun hin => ?_
    exact (add_safe (by omega)).bind fun o' ho' => ih (by omega)

theorem findAnswer_safe (n : ℕ) {offset : ℕ} (hoff : offset ≤ payload.length) :
    Safe (findAnswer payload n offset) fun _ => True := by
  induction n generalizing offset with
  | zero => exact .pure trivial
  | succ n ih =>
    rw [findAnswer]
    refine (skipName_safe hsize (by omega)).bind fun o₀ ho₀ => ?_
    refine (add_safe (by omega)).bind fun _ h₁ => .ite (fun _ => .pure trivial) fun hin₁ => ?_
    refine (be16_safe hsize (by omega)).bind fun rtype _ => ?_
    refine (add_safe (by omega)).bind fun _ h₂ => ?_
    refine (be16_safe hsize (by omega)).bind fun rdlength _ => ?_
    have hlen := rdlength.toNat_lt
    refine (add_safe (by omega)).bind fun o ho => (add_safe (by omega)).bind fun _ h₃ => ?_
    refine .ite (fun _ => .pure trivial) fun hin₂ => ?_
    refine .ite (fun hfour => ?_) fun _ => .ite (fun hsixteen => ?_) fun _ => ?_
    · refine (add_safe (by omega)).bind fun _ h₄ => ?_
      refine (slice_safe (by omega) (by omega)).bind fun ip hip => ?_
      exact (copyFromSlice_safe (by omega)).bind fun _ _ => .pure trivial
    · refine (add_safe (by omega)).bind fun _ h₄ => ?_
      refine (slice_safe (by omega) (by omega)).bind fun ip hip => ?_
      exact (copyFromSlice_safe (by omega)).bind fun _ _ => .pure trivial
    · exact (add_safe (by omega)).bind fun o' ho' => ih (by omega)

theorem parseDnsResponseIp_safe : Safe (parseDnsResponseIp payload) fun _ => True := by
  unfold parseDnsResponseIp
  refine .ite (fun _ => .pure trivial) fun hlen => ?_
  refine (be16_safe hsize (by omega)).bind fun _ _ => ?_
  refine (be16_safe hsize (by omega)).bind fun _ _ => .ite (fun _ => .pure trivial) fun _ => ?_
  refine (skipQuestions_safe hsize _ (by omega)).bind fun r hr => ?_
  cases r with
  | none => exact .pure trivial
  | some offset => exact findAnswer_safe hsize _ (hr offset rfl)

/-! ## The text about a packet -/

variable (pkt : SniffPacket) (text : Text)

omit hsize in
theorem httpInfo_safe : Safe (httpInfo pkt payload text) fun _ => True := by
  unfold httpInfo
  refine .ite (fun _ => .pure trivial) fun _ => payloadLooksLikeHttp_safe.bind fun _ _ => ?_
  exact .ite (fun _ => .pure trivial) fun _ => .pure trivial

theorem tlsInfo_safe : Safe (tlsInfo pkt payload) fun _ => True := by
  unfold tlsInfo
  refine .ite (fun _ => .pure trivial) fun _ => payloadLooksLikeTls_safe.bind fun _ _ => ?_
  refine .ite (fun _ => .pure trivial) fun _ => ?_
  refine (parseTlsClientHello_safe hsize).bind fun hello _ => ?_
  cases hello with
  | some hello => exact .ite (fun _ => .pure trivial) fun _ => .pure trivial
  | none =>
    refine (parseTlsServerHello_safe hsize).bind fun hello _ => ?_
    cases hello with
    | some hello => exact .pure trivial
    | none => exact .pure trivial

theorem dnsInfo_safe : Safe (dnsInfo pkt payload) fun _ => True := by
  unfold dnsInfo
  refine .ite (fun _ => .pure trivial) fun hdns => ?_
  rw [not_not] at hdns
  refine (byte_safe (by omega)).bind fun _ _ => (be16_safe hsize (by omega)).bind fun _ _ => ?_
  refine (parseDnsQueryName_safe hsize).bind fun domain _ => ?_
  cases domain with
  | none => exact .pure trivial
  | some domain =>
    refine .ite (fun _ => .pure trivial) fun _ => ?_
    refine (parseDnsResponseIp_safe hsize).bind fun ipAns _ => ?_
    cases ipAns with
    | some ipAns => exact .pure trivial
    | none => exact .pure trivial

theorem icmpInfo_safe : Safe (icmpInfo pkt payload) fun _ => True := by
  unfold icmpInfo
  refine .ite (fun _ => .pure trivial) fun hicmp => ?_
  rw [not_not] at hicmp
  refine (byte_safe (by omega)).bind fun _ _ => (byte_safe (by omega)).bind fun _ _ => ?_
  refine .ite (fun _ => .pure trivial) fun _ => (be16_safe hsize (by omega)).bind fun _ _ => ?_
  exact (be16_safe hsize (by omega)).bind fun _ _ => .pure trivial

theorem buildInfo_safe : Safe (buildInfo pkt payload text) fun _ => True := by
  unfold buildInfo
  refine (httpInfo_safe pkt text).bind fun r _ => ?_
  cases r with
  | some info => exact .pure trivial
  | none =>
    refine (tlsInfo_safe hsize pkt).bind fun r _ => ?_
    cases r with
    | some info => exact .pure trivial
    | none =>
      refine (dnsInfo_safe hsize pkt).bind fun r _ => ?_
      cases r with
      | some info => exact .pure trivial
      | none =>
        refine (icmpInfo_safe hsize pkt).bind fun r _ => ?_
        cases r with
        | some info => exact .pure trivial
        | none => exact .pure trivial

end Payload

/-! ## Analyses -/

section Analysis

variable {data transData : Bytes}

theorem behind_safe (n : ℕ) :
    Safe (behind transData n) fun payload => payload.length ≤ transData.length := by
  unfold behind
  refine .ite (fun h => ?_) fun _ => .pure (Nat.zero_le _)
  refine (sliceFrom_safe h).mono fun payload hpayload => ?_
  rw [hpayload, List.length_drop]
  exact Nat.sub_le _ _

theorem transport_safe (hsize : transData.length < 2 ^ 63) (icmp protocol : UInt8) :
    Safe (transport icmp protocol transData) fun r => ∀ t, r = some t →
      t.payload.length ≤ transData.length := by
  unfold transport
  refine .ite (fun _ => ?_) fun _ => .ite (fun _ => ?_) fun _ => ?_
  · refine (parseTcp_safe hsize).bind fun r htcp => ?_
    cases r with
    | none => exact .pure (by simp)
    | some tcp =>
      have hdoff := htcp tcp rfl
      refine (fourBytes_safe hdoff).bind fun thl _ => ?_
      refine (behind_safe _).bind fun payload hpayload => .pure fun t ht => ?_
      obtain rfl := Option.some_inj.mp ht
      exact hpayload
  · refine (parseUdp_safe hsize).bind fun r _ => ?_
    cases r with
    | none => exact .pure (by simp)
    | some udp =>
      refine (behind_safe _).bind fun payload hpayload => .pure fun t ht => ?_
      obtain rfl := Option.some_inj.mp ht
      exact hpayload
  · refine .ite (fun _ => .pure fun t ht => ?_) fun _ => .pure fun t ht => ?_
    · obtain rfl := Option.some_inj.mp ht
      exact le_refl _
    · obtain rfl := Option.some_inj.mp ht
      exact le_refl _

theorem payloadLimit_safe (protocol : UInt8) (limit : ℕ) :
    Safe (payloadLimit protocol transData limit) fun _ => True := by
  unfold payloadLimit
  refine .ite (fun _ => .ite (fun _ => .pure trivial) fun hlen => ?_) fun _ => ?_
  · refine (byte_safe (by omega)).bind fun b _ => ?_
    have hdoff := and_le_15 (b >>> 4)
    exact (mul_safe (by omega)).bind fun _ _ => .pure trivial
  · exact .ite (fun _ => .pure trivial) fun _ => .pure trivial

theorem ipv4PayloadLen_safe (protocol : UInt8) (payload : Bytes) (totLen ihlBytes : ℕ) :
    Safe (ipv4PayloadLen protocol transData payload totLen ihlBytes) fun n =>
      n ≤ payload.length := by
  unfold ipv4PayloadLen
  refine .ite (fun _ => .pure (Nat.zero_le _)) fun h => ?_
  refine (sub_safe (by omega)).bind fun room _ => (payloadLimit_safe _ _).bind fun limit _ => ?_
  exact .pure (Nat.min_le_left _ _)

/-- How many packets have been counted. -/
def counted (state : GlobalState) : ℕ :=
  state.totalCaptured.toNat + state.totalFiltered.toNat

variable (text : Text) (now : UInt64) {state : GlobalState}

/-- The packet has been counted. -/
def CountsOne (state state' : GlobalState) : Prop :=
  counted state' = counted state + 1

/-- The packet has been counted, or it was not one. -/
def CountsAtMostOne (state state' : GlobalState) : Prop :=
  counted state' ≤ counted state + 1

theorem filtered_safe (hroom : counted state + 1 < 2 ^ 64) :
    Safe (do return { state with totalFiltered := ← succ64 state.totalFiltered })
      (CountsOne state) := by
  rw [counted] at hroom
  refine (succ64_safe (by omega)).bind fun n hn => .pure ?_
  change state.totalCaptured.toNat + n.toNat = counted state + 1
  rw [counted]
  omega

theorem record_safe (hroom : counted state + 1 < 2 ^ 64) (pkt : SniffPacket) (payload : Bytes) :
    Safe (record text state pkt payload) (CountsOne state) := by
  unfold record
  refine .ite (fun _ => filtered_safe hroom) fun _ => ?_
  rw [counted] at hroom
  refine (succ64_safe (by omega)).bind fun n hn => .pure ?_
  change n.toNat + state.totalFiltered.toNat = counted state + 1
  rw [counted]
  omega

theorem finish_safe (hroom : counted state + 1 < 2 ^ 64) (srcIp dstIp : Bytes) {t : Transport}
    (ht : t.payload.length < 2 ^ 63) {payloadLen : ℕ} (hlen : payloadLen ≤ t.payload.length)
    (ipTotalLen : ℕ) :
    Safe (finish text now state srcIp dstIp t payloadLen ipTotalLen) (CountsOne state) := by
  unfold finish
  refine (slice_safe (Nat.zero_le _) hlen).bind fun finalPayload hfinal => ?_
  have hsize : finalPayload.length < 2 ^ 63 := by omega
  refine (refineAppProto_safe hsize _).bind fun app _ => ?_
  refine (buildInfo_safe hsize _ text).bind fun info _ => ?_
  exact record_safe text hroom _ _

variable (hdata : data.length < 2 ^ 63) (targetIp : Bytes)

include hdata

theorem analyzeIpv4_safe (hroom : counted state + 1 < 2 ^ 64) :
    Safe (analyzeIpv4 text now data targetIp state) (CountsAtMostOne state) := by
  have hsame : CountsAtMostOne state state := Nat.le_succ _
  unfold analyzeIpv4
  refine (parseIpv4_safe hdata).bind fun r hip => ?_
  cases r with
  | none => exact .pure hsame
  | some ip =>
    obtain ⟨hihl, -, -⟩ := hip ip rfl
    refine .ite (fun _ => (filtered_safe hroom).mono fun _ => le_of_eq) fun _ => ?_
    refine (fourBytes_safe hihl).bind fun ihlBytes _ => ?_
    refine .ite (fun _ => .pure hsame) fun hshort => ?_
    refine (sliceFrom_safe (by omega)).bind fun transData htrans => ?_
    have htrans : transData.length ≤ data.length := by
      rw [htrans, List.length_drop]
      exact Nat.sub_le _ _
    refine (transport_safe (by omega) _ _).bind fun r ht => ?_
    cases r with
    | none => exact .pure hsame
    | some t =>
      have hpayload := ht t rfl
      refine (ipv4PayloadLen_safe _ _ _ _).bind fun n hn => ?_
      exact (finish_safe text now hroom _ _ (by omega) hn _).mono fun _ => le_of_eq

theorem analyzeIpv6_safe (hroom : counted state + 1 < 2 ^ 64) :
    Safe (analyzeIpv6 text now data targetIp state) (CountsAtMostOne state) := by
  have hsame : CountsAtMostOne state state := Nat.le_succ _
  unfold analyzeIpv6
  refine (parseIpv6_safe hdata).bind fun r hip => ?_
  cases r with
  | none => exact .pure hsame
  | some ip6 =>
    have hlong := hip ip6 rfl
    refine .ite (fun _ => (filtered_safe hroom).mono fun _ => le_of_eq) fun _ => ?_
    rw [ipv6TransportOffset_eq hdata, ok_bind]
    cases hwalk : Receive.ipv6TransportOffset data ip6.nxt with
    | none => exact .pure hsame
    | some r =>
      obtain ⟨nextHeader, transOffset⟩ := r
      have hinside : transOffset ≤ data.length := ((Receive.transportLoop_iff hlong).mp hwalk).2
      refine (sliceFrom_safe hinside).bind fun transData htrans => ?_
      have htrans : transData.length ≤ data.length := by
        rw [htrans, List.length_drop]
        exact Nat.sub_le _ _
      refine (transport_safe (by omega) _ _).bind fun r ht => ?_
      cases r with
      | none => exact .pure hsame
      | some t =>
        have hpayload := ht t rfl
        have hplen := ip6.plen.toNat_lt
        refine (payloadLimit_safe _ _).bind fun limit _ => (add_safe (by omega)).bind fun _ _ => ?_
        exact (finish_safe text now hroom _ _ (by omega) (Nat.min_le_left _ _) _).mono
          fun _ => le_of_eq

end Analysis

/-! ## Packets that come in -/

/-- **The state the capture thread works on**, after `n` packets.  Between two packets other
threads do with the state what they like; the counters they leave alone, or set to zero for a new
capture. -/
inductive CaptureRun (text : Text) : ℕ → GlobalState → Prop
  | start : CaptureRun text 0 .new
  | other {n : ℕ} {state state' : GlobalState} (run : CaptureRun text n state)
      (captured : state'.totalCaptured = state.totalCaptured ∨ state'.totalCaptured = 0)
      (filtered : state'.totalFiltered = state.totalFiltered ∨ state'.totalFiltered = 0) :
      CaptureRun text n state'
  | ipv4 {n : ℕ} {state state' : GlobalState} {now : UInt64} {data targetIp : Bytes}
      (run : CaptureRun text n state) (size : data.length < 2 ^ 63)
      (packet : analyzeIpv4 text now data targetIp state = .ok state') :
      CaptureRun text (n + 1) state'
  | ipv6 {n : ℕ} {state state' : GlobalState} {now : UInt64} {data targetIp : Bytes}
      (run : CaptureRun text n state) (size : data.length < 2 ^ 63)
      (packet : analyzeIpv6 text now data targetIp state = .ok state') :
      CaptureRun text (n + 1) state'

/-- The counters do not get ahead of the packets. -/
theorem CaptureRun.counted_le {text : Text} {n : ℕ} {state : GlobalState}
    (hrun : CaptureRun text n state) (hn : n < 2 ^ 64) : counted state ≤ n := by
  induction hrun with
  | start => exact Nat.le_refl 0
  | @other n state state' _ captured filtered ih =>
    have hle := ih hn
    have hcaptured : state'.totalCaptured.toNat ≤ state.totalCaptured.toNat := by
      rcases captured with h | h
      · rw [h]
      · rw [h]
        exact Nat.zero_le _
    have hfiltered : state'.totalFiltered.toNat ≤ state.totalFiltered.toNat := by
      rcases filtered with h | h
      · rw [h]
      · rw [h]
        exact Nat.zero_le _
    rw [counted] at hle ⊢
    omega
  | @ipv4 n state state' now data targetIp _ size packet ih =>
    have hle := ih (by omega)
    have hsafe : Safe (analyzeIpv4 text now data targetIp state) (CountsAtMostOne state) :=
      analyzeIpv4_safe text now size targetIp (by omega)
    obtain ⟨s, hs, hone⟩ := hsafe
    obtain rfl := Except.ok.inj (packet.symm.trans hs)
    exact hone.trans (Nat.succ_le_succ hle)
  | @ipv6 n state state' now data targetIp _ size packet ih =>
    have hle := ih (by omega)
    have hsafe : Safe (analyzeIpv6 text now data targetIp state) (CountsAtMostOne state) :=
      analyzeIpv6_safe text now size targetIp (by omega)
    obtain ⟨s, hs, hone⟩ := hsafe
    obtain rfl := Except.ok.inj (packet.symm.trans hs)
    exact hone.trans (Nat.succ_le_succ hle)

/-- The code does not panic. -/
abbrev Fine {α : Type} (m : Except Panic α) : Prop :=
  Safe m fun _ => True

/-- **No packet makes the capture thread panic.**  Whatever bytes come in, behind any number of
packets that the 64 bits of a counter can hold: both analyses run through, and so does every parser,
on any bytes at all.  A loop ends after at most one round for each byte, and one more. -/
theorem capture_safe {text : Text} {n : ℕ} {state : GlobalState} (hrun : CaptureRun text n state)
    (hn : n + 1 < 2 ^ 64) {data : Bytes} (hdata : data.length < 2 ^ 63) :
    (∀ now targetIp, Fine (analyzeIpv4 text now data targetIp state) ∧
        Fine (analyzeIpv6 text now data targetIp state)) ∧
      Fine (parseIpv4 data) ∧ Fine (parseIpv6 data) ∧
      (∀ next, Fine (ipv6TransportOffset data next)) ∧
      Fine (parseTcp data) ∧ Fine (parseUdp data) ∧
      (∀ app, Fine (refineAppProto app data)) ∧
      Fine (parseTlsClientHello data) ∧ Fine (parseTlsServerHello data) ∧
      Fine (parseDnsQueryName data) ∧ Fine (parseDnsResponseIp data) ∧
      (∀ pkt, Fine (buildInfo pkt data text)) ∧
      (offsetLoop data).EndsWithin (data.length + 1) ∧
      (∀ extEnd, (clientExtLoop data extEnd).EndsWithin (extEnd + 1) ∧
        (serverExtLoop data extEnd).EndsWithin (extEnd + 1)) ∧
      (queryNameLoop data).EndsWithin (data.length + 1) ∧
      (skipName data).EndsWithin (data.length + 1) := by
  have hle := hrun.counted_le (Nat.lt_of_succ_lt hn)
  -- a measure is what is left of the bytes
  have hleft : ∀ total done : ℕ, total - done < total + 1 := fun total done => by omega
  refine ⟨fun now targetIp => ⟨?_, ?_⟩, ?_, ?_, fun next => ?_, ?_, parseUdp_safe hdata,
    refineAppProto_safe hdata, parseTlsClientHello_safe hdata, parseTlsServerHello_safe hdata,
    parseDnsQueryName_safe hdata, parseDnsResponseIp_safe hdata,
    fun pkt => buildInfo_safe hdata pkt text, ?_, fun extEnd => ⟨?_, ?_⟩, ?_, ?_⟩
  · exact (analyzeIpv4_safe text now hdata targetIp (by omega)).mono fun _ _ => trivial
  · exact (analyzeIpv6_safe text now hdata targetIp (by omega)).mono fun _ _ => trivial
  · exact (parseIpv4_safe hdata).mono fun _ _ => trivial
  · exact (parseIpv6_safe hdata).mono fun _ _ => trivial
  · exact ⟨_, ipv6TransportOffset_eq hdata next, trivial⟩
  · exact (parseTcp_safe hdata).mono fun _ _ => trivial
  · exact (offsetLoop data).endsWithin fun s => hleft _ s.2
  · exact (clientExtLoop data extEnd).endsWithin fun s => hleft _ s.1
  · exact (serverExtLoop data extEnd).endsWithin fun s => hleft _ s.1
  · exact (queryNameLoop data).endsWithin fun s => hleft _ s.1
  · exact (skipName data).endsWithin fun offset => hleft _ offset

/-- Texts in ASCII, and no HTTP. -/
def asciiText : Text where
  toUppercase := List.map fun b => if 0x61 ≤ b ∧ b ≤ 0x7A then b - 0x20 else b
  toLowercase := List.map fun b => if 0x41 ≤ b ∧ b ≤ 0x5A then b + 0x20 else b
  parseHttpSummary := fun _ => none

/-- An echo request from 10.0.0.1 to 10.0.0.2. -/
def ping : Bytes :=
  [0x45, 0, 0, 28, 0, 0, 0, 0, 64, 1, 0, 0, 10, 0, 0, 1, 10, 0, 0, 2] ++ [8, 0, 0, 0, 0, 7, 0, 9]

def pingPacket : SniffPacket where
  tsMs := 5
  srcIp := ascii "10.0.0.1"
  dstIp := ascii "10.0.0.2"
  srcPort := 0
  dstPort := 0
  trans := .icmp
  app := .unknown
  tcpFlags := 0
  payloadLen := 8
  ipTotalLen := 28
  info := ascii "ICMP Echo Req id=7 seq=9"

/-- What is left of the echo request. -/
def pinged : GlobalState :=
  { GlobalState.new with
    packets := [pingPacket]
    totalCaptured := 1
    lastPayload := [8, 0, 0, 0, 0, 7, 0, 9]
    lastPacket := some pingPacket }

/-- A header that claims 15 words, of which 28 bytes are there, behind a packet that was
captured. -/
theorem capture_safe_ping :
    analyzeIpv4 asciiText 5 ping (ascii "10.0.0.2") .new = .ok pinged ∧
      Fine (analyzeIpv4 asciiText 6 (0x4F :: ping.tail) (ascii "10.0.0.2") pinged) := by
  have hping : analyzeIpv4 asciiText 5 ping (ascii "10.0.0.2") .new = .ok pinged := by
    decide +kernel
  have hrun : CaptureRun asciiText 1 pinged := .ipv4 .start (by decide) hping
  exact ⟨hping, ((capture_safe hrun (by norm_num) (by decide)).1 6 _).1⟩

end Nsr.Sniffer
