import Nsr.Lib.TableCount
import Nsr.Session.Receive

/-!
# The gatekeeper process

`src/io/gatekeeper.c` without its ring calls: the table of probes in flight, and
the program counter of the main loop of `nsr_gatekeeper_run`.  The table has one
entry for each 16-bit sequence number, so a number that comes round again
overwrites whatever its entry still held.

The locals of the loop live in the program counter: an intent that was popped and
not yet tracked is in `track`, an observation that was made and not yet pushed is
in `scan` or `pushObs`.  `Gatekeeper.untracked` and `Gatekeeper.unpushed` read
them off.
-/

namespace Nsr

open TableCount

/-- `NSR_GK_MAX_INFLIGHT`. -/
def gkMaxInflight : ℕ := 65536

/-- `nsr_inflight_t`. -/
structure Inflight where
  seq : UInt16
  ttl : UInt8
  sentUs : UInt64
  active : Bool
  origin : ℕ
  deriving DecidableEq, Repr

/-- A zeroed entry. -/
def Inflight.zero : Inflight := ⟨0, 0, 0, false, 0⟩

/-- `g_inflight`. -/
abbrev InflightTable := Fin gkMaxInflight → Inflight

namespace InflightTable

/-- `seq % NSR_GK_MAX_INFLIGHT`. -/
def idx (seq : UInt16) : Fin gkMaxInflight :=
  ⟨seq.toNat % gkMaxInflight, Nat.mod_lt _ (by decide)⟩

/-- The table of a process just started. -/
def empty : InflightTable := fun _ => .zero

/-- `track_probe`. -/
def trackProbe (g : InflightTable) (intent : Intent) (nowUs : UInt64) : InflightTable :=
  Function.update g (idx intent.seq) ⟨intent.seq, intent.ttl, nowUs, true, intent.origin⟩

/-- `g_inflight[idx].active = false`. -/
def deactivate (g : InflightTable) (i : Fin gkMaxInflight) : InflightTable :=
  Function.update g i { g i with active := false }

/-- The entry `find_probe` and `drop_probe` look for: active, and with that very
sequence number. -/
def Hit (g : InflightTable) (seq : UInt16) : Prop :=
  (g (idx seq)).active = true ∧ (g (idx seq)).seq = seq

instance (g : InflightTable) (seq : UInt16) : Decidable (g.Hit seq) :=
  inferInstanceAs (Decidable (_ ∧ _))

/-- `find_probe`: the entry, and the table with it deactivated. -/
def findProbe (g : InflightTable) (seq : UInt16) : Option (Inflight × InflightTable) :=
  if g.Hit seq then some (g (idx seq), g.deactivate (idx seq)) else none

/-- `drop_probe`. -/
def dropProbe (g : InflightTable) (seq : UInt16) : InflightTable :=
  if g.Hit seq then g.deactivate (idx seq) else g

/-- `reap_stale_inflight`, with its static `last_reap` passed through. -/
def reapStaleInflight (g : InflightTable) (lastReap nowUs : UInt64) : InflightTable × UInt64 :=
  if nowUs - lastReap < 1000000 then (g, lastReap)
  else
    (fun i =>
      if (g i).active = true ∧ nowUs - (g i).sentUs > 5000000 then { g i with active := false }
      else g i, nowUs)

/-! ## Active entries -/

/-- An active entry for `ttl`. -/
def ActiveTtl (ttl : UInt8) (e : Inflight) : Prop := e.active = true ∧ e.ttl = ttl

/-- The number of active entries for `ttl`. -/
noncomputable def activeTtl (g : InflightTable) (ttl : UInt8) : ℕ := count (ActiveTtl ttl) g

/-- The number of active entries. -/
noncomputable def activeCount (g : InflightTable) : ℕ :=
  count (fun e : Inflight => e.active = true) g

theorem activeCount_le (g : InflightTable) : g.activeCount ≤ 65536 := by
  have h := count_le_card (p := fun e : Inflight => e.active = true) (f := g)
  rwa [Nat.card_fin] at h

section Count

variable {p : Inflight → Prop}

/-- Deactivating entries makes no property of active entries hold of more. -/
theorem count_deactivate_le (hp : ∀ e, p e → e.active = true) (g : InflightTable)
    (i : Fin gkMaxInflight) : count p (g.deactivate i) ≤ count p g := by
  refine count_mono fun j hj => ?_
  by_cases hji : j = i
  · subst hji
    rw [deactivate, Function.update_self] at hj
    exact absurd (hp _ hj) (by simp)
  · rwa [deactivate, Function.update_of_ne hji] at hj

theorem count_dropProbe_le (hp : ∀ e, p e → e.active = true) (g : InflightTable) (seq : UInt16) :
    count p (g.dropProbe seq) ≤ count p g := by
  rw [dropProbe]
  split
  · exact count_deactivate_le hp g _
  · exact le_rfl

theorem count_reapStaleInflight_le (hp : ∀ e, p e → e.active = true) (g : InflightTable)
    (lastReap nowUs : UInt64) : count p (g.reapStaleInflight lastReap nowUs).1 ≤ count p g := by
  rw [reapStaleInflight]
  split
  · exact le_rfl
  · refine count_mono fun i hi => ?_
    dsimp only at hi
    split at hi
    · exact absurd (hp _ hi) (by simp)
    · exact hi

/-- Tracking a probe adds at most the entry it writes. -/
theorem count_trackProbe_le [DecidablePred p] (g : InflightTable) (intent : Intent)
    (nowUs : UInt64) :
    count p (g.trackProbe intent nowUs) ≤
      count p g + if p ⟨intent.seq, intent.ttl, nowUs, true, intent.origin⟩ then 1 else 0 :=
  count_update_le _ _

/-- **A found probe leaves the table.**  If its entry satisfied `p`, one entry
fewer does. -/
theorem count_findProbe [DecidablePred p] (hp : ∀ e, p e → e.active = true)
    {g g' : InflightTable} {seq : UInt16}
    {e : Inflight} (h : g.findProbe seq = some (e, g')) :
    count p g' + (if p e then 1 else 0) ≤ count p g := by
  rw [findProbe] at h
  split at h
  · obtain ⟨rfl, rfl⟩ := Prod.mk.inj (Option.some.inj h)
    split
    · rename_i hpe
      rw [deactivate]
      exact count_update_remove hpe fun hcon => absurd (hp _ hcon) (by simp)
    · rw [Nat.add_zero]
      exact count_deactivate_le hp g _
  · exact absurd h (by simp)

end Count
end InflightTable

/-! ## The main loop -/

/-- `BATCH_SIZE`. -/
def batchSize : ℕ := 1024

/-- A received message: its bytes and the address it came from. -/
structure Packet where
  buf : List UInt8
  src : List UInt8
  deriving DecidableEq, Repr

/-- Where the main loop of `nsr_gatekeeper_run` stands. -/
inductive GkPc where
  /-- At or inside `nsr_shm_ring_pop_batch(l2g, ...)`. -/
  | pop
  /-- The pop returned; the clock is not read and nothing is reaped yet. -/
  | popped (intents : List Intent)
  /-- Tracking the popped intents: `done` are tracked, `todo` are not. -/
  | track (now : UInt64) (done todo : List Intent)
  /-- At `sendmmsg`. -/
  | send (intents : List Intent)
  /-- Dropping the probes that were not sent. -/
  | drop (todo : List Intent)
  /-- At `recvmmsg`. -/
  | recv
  /-- Scanning received packets; `obs` are the observations made so far. -/
  | scan (now : UInt64) (pkts : List Packet) (obs : List Observation)
  /-- At or inside `nsr_shm_ring_push_batch(g2l, ...)`. -/
  | pushObs (obs : List Observation)

/-- The gatekeeper's private state. -/
structure Gatekeeper where
  /-- `g_gk_id`, from the process id. -/
  id : UInt16
  isV6 : Bool
  inflight : InflightTable
  /-- The static `last_reap`. -/
  lastReap : UInt64
  pc : GkPc

namespace Gatekeeper

/-- A gatekeeper just started. -/
def start (id : UInt16) (isV6 : Bool) : Gatekeeper := ⟨id, isV6, .empty, 0, .pop⟩

/-- Intents popped and not yet tracked. -/
def untracked (gk : Gatekeeper) : List Intent :=
  match gk.pc with
  | .popped intents => intents
  | .track _ _ todo => todo
  | _ => []

/-- Observations made and not yet pushed. -/
def unpushed (gk : Gatekeeper) : List Observation :=
  match gk.pc with
  | .scan _ _ obs => obs
  | .pushObs obs => obs
  | _ => []

/-- The scan of one received packet: the observation it gives rise to, if it
parses, carries the gatekeeper's id and hits an active entry. -/
def scanPacket (gk : Gatekeeper) (now : UInt64) (pkt : Packet) :
    InflightTable × List Observation :=
  match Receive.parsePacket gk.isV6 pkt.buf with
  | .error _ => (gk.inflight, [])
  | .ok rx =>
      if rx.type ≠ .none ∧ rx.rid = gk.id then
        match gk.inflight.findProbe rx.rseq with
        | some (e, inflight) =>
            (inflight, [⟨e.ttl, rx.rseq, now - e.sentUs, rx.type, pkt.src, gk.isV6, e.origin⟩])
        | none => (gk.inflight, [])
      else (gk.inflight, [])

/-- **A scan makes an observation only by emptying an entry.**  It makes none and
leaves the table alone, or makes one with the `ttl` and the origin of the entry
it deactivates. -/
theorem scanPacket_cases (gk : Gatekeeper) (now : UInt64) (pkt : Packet) :
    gk.scanPacket now pkt = (gk.inflight, []) ∨
      ∃ seq e inflight o, gk.inflight.findProbe seq = some (e, inflight) ∧
        gk.scanPacket now pkt = (inflight, [o]) ∧ o.ttl = e.ttl ∧ o.origin = e.origin := by
  rw [scanPacket]
  split
  · exact Or.inl rfl
  · split_ifs
    · split
      · rename_i rx _ _ _ e inflight hfind
        exact Or.inr ⟨rx.rseq, e, inflight, _, hfind, rfl, rfl, rfl⟩
      · exact Or.inl rfl
    · exact Or.inl rfl

end Gatekeeper
end Nsr
