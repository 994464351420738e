import Mathlib.Data.List.Basic
import Mathlib.Logic.Function.Basic

/-!
# What the two processes of a session exchange, and the hop table

`include/nsr/telemetry.h`: the intents the logic process sends to the gatekeeper,
the observations it gets back, and the table of hops it keeps; and from
`src/io/logic.c` the functions that maintain a hop.

Two conventions.  The counters `sent`, `recv`, `primary_recv` and an alias's
`recv` are natural numbers: they are the counts the 32-bit fields of the source
hold modulo `2 ^ 32`.  And an intent, like everything made from it, carries an
`origin`: the number of the logic process that generated it.  No modelled
function branches on it; it is there so that a theorem can say whose probe an
observation answers.
-/

namespace Nsr

/-- `nsr_obs_type_t`. -/
inductive ObsType where
  | none
  | reply
  | exceeded
  | unreach
  | timeout
  | error
  deriving DecidableEq, Repr

/-- `nsr_intent_t`: a probe the logic process wants sent. -/
structure Intent where
  ttl : UInt8
  seq : UInt16
  action : UInt32
  timestampUs : UInt64
  integrity : UInt64
  origin : ℕ
  deriving DecidableEq, Repr

/-- `nsr_observation_t`: an answer to a probe. -/
structure Observation where
  ttl : UInt8
  seq : UInt16
  rttUs : UInt64
  type : ObsType
  addrBin : List UInt8
  isV6 : Bool
  origin : ℕ
  deriving DecidableEq, Repr

/-- The intent of a zeroed ring slot. -/
def Intent.zero : Intent := ⟨0, 0, 0, 0, 0, 0⟩

/-- The observation of a zeroed ring slot. -/
def Observation.zero : Observation := ⟨0, 0, 0, .none, [], false, 0⟩

/-- `NSR_MAX_HOPS`. -/
def maxHops : ℕ := 64

/-- `NSR_MAX_HOP_ALIASES`. -/
def maxHopAliases : ℕ := 3

/-- `inet_ntop` on an IPv4 address: dotted decimal.  What `addr_bin_to_str` does for
either family is left open below; this is what it does on the addresses of the
runs written out in this development. -/
def inetNtop4 (addrBin : List UInt8) : List UInt8 :=
  [(0x2e : UInt8)].intercalate
    (addrBin.map fun b => (Nat.toDigits 10 b.toNat).map fun c => c.toNat.toUInt8)

/-- `nsr_hop_alias_t`; an address is the bytes of its text. -/
structure HopAlias where
  addr : List UInt8
  recv : ℕ
  deriving DecidableEq, Repr

/-- `nsr_hop_info_t`; `aliases` holds the first `alias_count` entries of the
source's array. -/
structure HopInfo where
  addr : List UInt8
  rttUs : UInt64
  sent : ℕ
  recv : ℕ
  primaryRecv : ℕ
  lastStatus : ObsType
  aliases : List HopAlias
  deriving DecidableEq, Repr

/-- A zeroed hop. -/
def HopInfo.zero : HopInfo := ⟨[], 0, 0, 0, 0, .none, []⟩

namespace HopInfo

/-- `strncpy` into a zeroed or padded field of 48 bytes, of which 47 are copied. -/
def copyAddr (addrStr : List UInt8) : List UInt8 := addrStr.take 47

/-- The index of the least-seen alias, the first one of several: the scan over
`aliases[1..]` that keeps the smallest `recv` so far and its index. -/
def leastSeen (aliases : List HopAlias) : ℕ :=
  ((List.range' 1 (maxHopAliases - 1)).foldl
    (fun (best : ℕ × ℕ) i =>
      match aliases[i]? with
      | some a => if a.recv < best.1 then (a.recv, i) else best
      | none => best)
    ((aliases[0]?.map HopAlias.recv).getD 0, 0)).2

/-- `add_or_update_alias`. -/
def addOrUpdateAlias (h : HopInfo) (addrStr : List UInt8) : HopInfo :=
  if h.addr = [] then { h with addr := copyAddr addrStr, primaryRecv := 1 }
  else if h.addr = addrStr then { h with primaryRecv := h.primaryRecv + 1 }
  else
    match h.aliases.findIdx? (fun a => a.addr = addrStr) with
    | some i => { h with aliases := h.aliases.modify i fun a => { a with recv := a.recv + 1 } }
    | none =>
        if h.aliases.length < maxHopAliases then
          { h with aliases := h.aliases ++ [⟨copyAddr addrStr, 1⟩] }
        else
          -- LRU eviction: replace the least-seen alias
          { h with aliases := h.aliases.set (leastSeen h.aliases) ⟨copyAddr addrStr, 1⟩ }

/-- Alias bookkeeping does not touch the probe counters. -/
@[simp] theorem addOrUpdateAlias_sent (h : HopInfo) (addrStr : List UInt8) :
    (h.addOrUpdateAlias addrStr).sent = h.sent := by
  unfold addOrUpdateAlias
  repeat' split
  all_goals rfl

@[simp] theorem addOrUpdateAlias_recv (h : HopInfo) (addrStr : List UInt8) :
    (h.addOrUpdateAlias addrStr).recv = h.recv := by
  unfold addOrUpdateAlias
  repeat' split
  all_goals rfl

end HopInfo
end Nsr
