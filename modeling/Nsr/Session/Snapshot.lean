import Nsr.Session.Telemetry

/-!
# Snapshots of the telemetry

`nsr_telemetry_state_t`: what the logic process of a session hands over to `main`, which keeps the
last one it got and updates the topology from each.  A text is the list of its bytes, without the
NUL behind them and whatever follows it in its array; `Fits` says that there is room for the NUL.
-/

namespace Nsr

/-- **`nsr_telemetry_state_t`.** -/
structure TelemetryState where
  hops : ℕ → HopInfo
  targetIp : List UInt8
  targetHost : List UInt8
  startTimeUs : UInt64
  intervalMs : UInt32

/-- The texts of a hop fit their arrays, and there are no more aliases than slots for them. -/
structure HopInfo.Fits (h : HopInfo) : Prop where
  addr : h.addr.length ≤ 47
  aliases : h.aliases.length ≤ maxHopAliases
  aliasAddr : ∀ a ∈ h.aliases, a.addr.length ≤ 47

/-- **The texts of a snapshot fit their arrays.** -/
structure TelemetryState.Fits (tel : TelemetryState) : Prop where
  targetIp : tel.targetIp.length ≤ 47
  targetHost : tel.targetHost.length ≤ 127
  hops : ∀ i, (tel.hops i).Fits

end Nsr
