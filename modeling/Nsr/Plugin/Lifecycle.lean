import Nsr.Plugin.Shape
import Nsr.Plugin.Spawn
import Nsr.Lib.Scope

/-!
# From spawn to stop

The life of one entry of the registry: it is loaded, its plugin is enabled and disabled any number
of times, the operations of the host run in between, and at the end `nsr_plugins_cleanup` empties
the registry.  `Seat` puts the entry next to a trace of what the host did to its processes.

Once `plugin_check_alive` has found a process gone, `initialized` is false and every operation
passes the entry by.  The exception is `plugin_stop`: it goes by the process number, which nothing
has reset.

* `Seat`, `Seat.act`: the entry, and what can be done to it.
* `LeftAlone`: nothing is written or signalled between an observed exit and the next process.
* `leftAlone_iff`: when that holds.
-/

namespace Nsr

open Transition

namespace Host

/-- A plugin that is not live is passed by. -/
theorem act_of_not_live {a : Action} {h : Host} (hdrain : ∀ timeoutMs env, a ≠ .drain timeoutMs env)
    (hlive : (h.checkAlive a.exited).e.live = false) : act a h = some (h.checkAlive a.exited) := by
  have hnot : (!(h.checkAlive a.exited).e.live) = true := by rw [hlive, Bool.not_false]
  cases a with
  | render view env => exact if_pos hnot
  | renderHops params env => exact if_pos hnot
  | updateTelemetry exited written =>
    have hneg : (h.checkAlive exited).e.live = false := hlive
    exact congrArg some (if_neg (by simp [hneg]))
  | modalActive exited => rfl
  | onKeyDrain exited drains =>
    exact congrArg (Option.map Prod.snd) (if_pos hnot)
  | onKeyPass pass ch env =>
    exact congrArg (Option.map Prod.snd) (if_pos hnot)
  | drain timeoutMs env => exact absurd rfl (hdrain timeoutMs env)

end Host

/-! ## The entry and its processes -/

/-- **An entry of the registry**: whether it is below `count`, and what was done to its processes
so far. -/
structure Seat where
  h : Host
  loaded : Bool
  io : List Io

/-- What can be done to an entry: an operation of the host, `nsr_plugins_set_enabled`, and
`nsr_plugins_cleanup`. -/
inductive Op where
  | call (a : Host.Action)
  | setEnabled (enabled written : Bool) (env : Host.SpawnEnv)
  | cleanup (written : Bool)

/-- The lines an operation writes that are no request: `update_telemetry` is a notification. -/
def notifyIo (a : Host.Action) (h : Host) : List Io :=
  match a with
  | .updateTelemetry exited _ =>
    if (h.checkAlive exited).e.live then sendIo (h.checkAlive exited).e.rpc else []
  | _ => []

/-- What an operation does to the process: `plugin_check_alive` may find it gone, and then there is
a line for each request that got as far as a number, and for a notification. -/
def callIo (a : Host.Action) (h h' : Host) : List Io :=
  (if h.e.initialized ∧ 0 < h.e.rpc.pid ∧ a.exited then [.exitSeen] else []) ++
    (h'.log.drop h.log.length).filterMap (fun
      | .sent _ _ _ _ => some .write
      | _ => none) ++
    notifyIo a h

namespace Seat

/-- The effect of an operation on an entry.  `plugin_drain_response` is part of the others, and not
called by itself; what is not in the registry is not reached. -/
def act (op : Op) (s : Seat) : Option Seat :=
  if !s.loaded then some s
  else
    match op with
    | .call (.drain _ _) => none
    | .call a => (Host.act a s.h).map fun h => ⟨h, true, s.io ++ callIo a s.h h⟩
    | .setEnabled enabled written env =>
      (s.h.setEnabled enabled written env).map fun r => ⟨r.2, true, s.io ++ r.1⟩
    | .cleanup written => some ⟨(s.h.stop written).2, false, s.io ++ (s.h.stop written).1⟩

/-- An entry as `nsr_plugins_load_dir` leaves it. -/
def load (name : CStr) (enabled : Bool) (env : Host.SpawnEnv) : Option Seat :=
  (Host.load name enabled env).map fun r => ⟨r.2, true, r.1⟩

/-- The operation is a `plugin_stop` of the entry. -/
def stops (op : Op) (s : Seat) : Bool :=
  s.loaded &&
    match op with
    | .call _ => false
    | .setEnabled enabled _ _ => !enabled && s.h.e.enabled
    | .cleanup _ => true

end Seat

/-- The exit of a process was observed, and there has been no new process since. -/
def exitObserved (io : List Io) : Bool :=
  Scope.isOpen (· == .exitSeen) (fun | .forked _ => true | _ => false) io

/-- A write or a signal. -/
def touches : Io → Bool
  | .write => true
  | .signal _ => true
  | _ => false

/-- **Nothing is written and no signal is sent between an observed exit and the next process.** -/
def LeftAlone (io : List Io) : Prop :=
  Scope.Respected (· == .exitSeen) (fun | .forked _ => true | _ => false) touches io

/-- Somewhere in a run the plugin is stopped while its process is known to be gone. -/
def stopsObserved : List Op → Seat → Bool
  | [], _ => false
  | op :: ops, s =>
    (exitObserved s.io && s.stops op) ||
      match s.act op with
      | none => false
      | some t => stopsObserved ops t

/-! ## What is done to a process -/

theorem sendIo_quiet (rpc : Rpc) : ∀ x ∈ sendIo rpc, x = .write := by
  unfold sendIo
  split <;> simp

/-- `plugin_stop` writes and signals. -/
theorem stop_io (h : Host) (written : Bool) :
    (∀ x ∈ (h.stop written).1, touches x = true) ∧
      (0 < h.e.rpc.pid → ∃ x, x ∈ (h.stop written).1) := by
  have hpid : (notify h.e.rpc written).2.pid = h.e.rpc.pid := by
    rw [notify, rpcSend]
    split
    · rfl
    split <;> rfl
  unfold Host.stop
  dsimp only
  split
  next hpos =>
    rw [rpcClose, hpid, if_pos hpos]
    constructor
    · intro x hx
      rcases List.mem_append.mp hx with hx | hx
      · rw [sendIo_quiet _ x hx]
        rfl
      · rw [List.mem_singleton.mp hx]
        rfl
    · exact fun _ => ⟨.signal h.e.rpc.pid, by simp⟩
  next hpos => exact ⟨by simp, fun h => absurd h hpos⟩

/-- `plugin_spawn` starts with a process, or does nothing. -/
theorem spawn_io {h h' : Host} {env : Host.SpawnEnv} {io : List Io}
    (hs : h.spawn env = some (io, h')) :
    h'.e.enabled = h.e.enabled ∧
      ((io = [] ∧ h'.e.initialized = h.e.initialized) ∨
        ∃ pid rest, io = .forked pid :: rest ∧ ∀ x ∈ rest, touches x = true) := by
  have hsend : ∀ rpc, ∀ x ∈ sendIo rpc, touches x = true := by
    intro rpc x hx
    rw [sendIo_quiet rpc x hx]
    rfl
  rcases Host.spawn_cases hs with ⟨-, rfl, rfl⟩ | ⟨p, resp, rpc, -, -, hstart⟩
  · exact ⟨rfl, .inl ⟨rfl, rfl⟩⟩
  rcases hstart with ⟨result, -, rfl, rfl⟩ | ⟨-, rfl, rfl⟩
  · exact ⟨rfl, .inr ⟨p.pid, _, rfl, hsend _⟩⟩
  · refine ⟨rfl, .inr ⟨p.pid, _, rfl, fun x hx => ?_⟩⟩
    rcases List.mem_append.mp hx with hx | hx
    · exact hsend _ x hx
    · rw [rpcClose] at hx
      dsimp only at hx
      split at hx
      · rw [List.mem_singleton.mp hx]
        rfl
      · simp at hx

/-- A plugin that is not live is not written to. -/
theorem callIo_of_not_live {a : Host.Action} {h h' : Host}
    (hdrain : ∀ timeoutMs env, a ≠ .drain timeoutMs env)
    (hlive : (h.checkAlive a.exited).e.live = false) (ha : Host.act a h = some h') :
    h' = h.checkAlive a.exited ∧
      callIo a h h' =
        if h.e.initialized ∧ 0 < h.e.rpc.pid ∧ a.exited then [.exitSeen] else [] := by
  rw [Host.act_of_not_live hdrain hlive] at ha
  obtain rfl := Option.some_inj.mp ha
  have hlog : (h.checkAlive a.exited).log = h.log := rfl
  have hnotify : notifyIo a h = [] := by
    cases a with
    | updateTelemetry exited written =>
      have hnot : (h.checkAlive exited).e.live = false := hlive
      exact if_neg (by simp [hnot])
    | _ => rfl
  refine ⟨rfl, ?_⟩
  rw [callIo, hlog, List.drop_length, hnotify, List.filterMap_nil, List.append_nil, List.append_nil]

/-- Where no exit is observed, an operation writes at most. -/
theorem callIo_write {a : Host.Action} {h h' : Host}
    (hno : ¬(h.e.initialized ∧ 0 < h.e.rpc.pid ∧ a.exited)) :
    ∀ x ∈ callIo a h h', x = .write := by
  intro x hx
  rw [callIo, if_neg hno, List.nil_append] at hx
  rcases List.mem_append.mp hx with hx | hx
  · obtain ⟨e, -, he⟩ := List.mem_filterMap.mp hx
    cases e with
    | sent m id line written => exact (Option.some_inj.mp he).symm
    | _ => cases he
  · cases a with
    | updateTelemetry exited written =>
      rw [notifyIo] at hx
      split at hx
      · exact sendIo_quiet _ x hx
      · simp at hx
    | _ => simp [notifyIo] at hx

theorem checkAlive_of_exit {h : Host} {exited : Bool}
    (hexit : h.e.initialized ∧ 0 < h.e.rpc.pid ∧ exited) :
    h.checkAlive exited = { h with e := { h.e with dead := true, initialized := false } } := by
  obtain ⟨hinit, hpid, hex⟩ := hexit
  rw [Host.checkAlive, Entry.checkAlive, if_neg, if_pos hex]
  simp [hinit, hpid]

theorem checkAlive_of_not_exit {h : Host} {exited : Bool}
    (hno : ¬(h.e.initialized ∧ 0 < h.e.rpc.pid ∧ exited)) : h.checkAlive exited = h := by
  rw [Host.checkAlive, Entry.checkAlive]
  split
  · rfl
  next hguard =>
    split
    next hex =>
      simp only [Bool.or_eq_true, Bool.not_eq_true', decide_eq_true_eq, not_or, not_le,
        Bool.not_eq_false] at hguard
      exact absurd ⟨hguard.1, hguard.2, hex⟩ hno
    · rfl

/-- A plugin that `plugin_check_alive` leaves live is as it was. -/
theorem checkAlive_of_live {h : Host} {exited : Bool}
    (hlive : (h.checkAlive exited).e.live = true) : h.checkAlive exited = h := by
  refine checkAlive_of_not_exit fun hexit => ?_
  rw [checkAlive_of_exit hexit] at hlive
  simp [Entry.live] at hlive

/-! ## Runs -/

/-- **What holds between the entry and the trace.**  A running plugin is an enabled one; and once
its exit is observed it does not run, and keeps its process number as long as it is left alone. -/
structure Seat.Inv (s : Seat) : Prop where
  running : s.h.e.initialized = true → s.h.e.enabled = true
  observed : exitObserved s.io = true → s.h.e.initialized = false ∧
    (LeftAlone s.io → s.loaded = true → s.h.e.enabled = true ∧ 0 < s.h.e.rpc.pid)

/-- Outside of an observed exit, writes and signals are free. -/
theorem leftAlone_touched {io io' : List Io} (hio : exitObserved io = false)
    (hio' : ∀ x ∈ io', x ≠ .exitSeen) :
    exitObserved (io ++ io') = false ∧ (LeftAlone (io ++ io') ↔ LeftAlone io) := by
  have happend : exitObserved (io ++ io') = false ∧ (LeftAlone io → LeftAlone (io ++ io')) :=
    Scope.closed_append hio fun x hx => by simpa using hio' x hx
  exact ⟨happend.1, Scope.Respected.of_append, happend.2⟩

/-- A new process ends the observation of an exit. -/
theorem leftAlone_forked (io : List Io) (pid : ℤ) :
    exitObserved (io ++ [.forked pid]) = false ∧
      (LeftAlone (io ++ [.forked pid]) ↔ LeftAlone io) := by
  refine ⟨Scope.isOpen_concat io (.forked pid), ?_⟩
  exact (Scope.respected_concat io (.forked pid)).trans ⟨And.left, fun h => ⟨h, fun _ => rfl⟩⟩

theorem ne_exitSeen_of_touches {x : Io} (h : touches x = true) : x ≠ .exitSeen := by
  rintro rfl
  cases h

/-- **Stopping a plugin breaks in on an observed exit**, and does no harm otherwise. -/
theorem stop_leftAlone (io : List Io) (h : Host) (written : Bool)
    (hpid : exitObserved io = true → LeftAlone io → 0 < h.e.rpc.pid) :
    (exitObserved (io ++ (h.stop written).1) = true → ¬LeftAlone (io ++ (h.stop written).1)) ∧
      (LeftAlone (io ++ (h.stop written).1) ↔ LeftAlone io ∧ exitObserved io = false) := by
  obtain ⟨htouch, hsome⟩ := stop_io h written
  cases hobs : exitObserved io with
  | true =>
    have hnot : ¬LeftAlone (io ++ (h.stop written).1) := by
      intro halone
      obtain ⟨x, hx⟩ := hsome (hpid hobs halone.of_append)
      refine Scope.not_respected_append hobs (fun y hy => ?_) hx (htouch x hx) halone
      have hy := htouch y hy
      cases y with
      | forked pid => cases hy
      | _ => rfl
    exact ⟨fun _ => hnot, fun h => absurd h hnot, fun h => by simp at h⟩
  | false =>
    obtain ⟨hclosed, hiff⟩ := leftAlone_touched hobs
      (fun x hx => ne_exitSeen_of_touches (htouch x hx))
    refine ⟨fun h => ?_, hiff.trans (by simp)⟩
    rw [hclosed] at h
    cases h

/-- An operation of the host. -/
theorem call_spec {s : Seat} {a : Host.Action} {h' : Host} (hinv : s.Inv)
    (hloaded : s.loaded = true)
    (hdrain : ∀ timeoutMs env, a ≠ .drain timeoutMs env) (ha : Host.act a s.h = some h') :
    Seat.Inv ⟨h', true, s.io ++ callIo a s.h h'⟩ ∧
      (LeftAlone (s.io ++ callIo a s.h h') ↔ LeftAlone s.io) := by
  by_cases hexit : s.h.e.initialized ∧ 0 < s.h.e.rpc.pid ∧ a.exited
  · have hcheck := checkAlive_of_exit hexit
    have hlive : (s.h.checkAlive a.exited).e.live = false := by
      rw [hcheck]
      simp [Entry.live]
    obtain ⟨rfl, hio⟩ := callIo_of_not_live hdrain hlive ha
    rw [if_pos hexit] at hio
    have hclosed : exitObserved s.io = false := by
      by_contra hobs
      have hinit := (hinv.observed (by simpa using hobs)).1
      rw [hexit.1] at hinit
      cases hinit
    rw [hio, hcheck]
    refine ⟨⟨fun h => (by cases h), fun _ => ⟨rfl, fun _ _ => ⟨hinv.running hexit.1, hexit.2.1⟩⟩⟩,
      ?_⟩
    exact (Scope.respected_concat s.io .exitSeen).trans ⟨And.left, fun h => ⟨h, fun _ => rfl⟩⟩
  · have hcheck := checkAlive_of_not_exit hexit
    have hsame := Host.same_parts.act a.asks_drawn ha
    rw [hcheck] at hsame
    cases hobs : exitObserved s.io with
    | true =>
      -- the entry is passed by, and nothing is written
      have hinit := (hinv.observed hobs).1
      have hlive : (s.h.checkAlive a.exited).e.live = false := by
        rw [hcheck]
        simp [Entry.live, hinit]
      obtain ⟨rfl, hio⟩ := callIo_of_not_live hdrain hlive ha
      rw [if_neg hexit] at hio
      rw [hio, List.append_nil, hcheck]
      exact ⟨⟨hinv.running, fun _ => ⟨hinit, fun halone _ => (hinv.observed hobs).2 halone hloaded⟩⟩,
        Iff.rfl⟩
    | false =>
      have hwrites : ∀ x ∈ callIo a s.h h', x ≠ .exitSeen := by
        intro x hx
        rw [callIo_write hexit x hx]
        exact fun h => by cases h
      obtain ⟨hclosed, hiff⟩ := leftAlone_touched hobs hwrites
      refine ⟨⟨fun h => ?_, fun h => ?_⟩, hiff⟩
      · rw [hsame.enabled]
        exact hinv.running (hsame.initialized ▸ h)
      · rw [hclosed] at h
        cases h

/-- `nsr_plugins_set_enabled`. -/
theorem setEnabled_spec {s : Seat} {enabled written : Bool} {env : Host.SpawnEnv} {io : List Io}
    {h' : Host} (hinv : s.Inv) (hloaded : s.loaded = true)
    (hset : s.h.setEnabled enabled written env = some (io, h')) :
    Seat.Inv ⟨h', true, s.io ++ io⟩ ∧
      (LeftAlone (s.io ++ io) ↔
        LeftAlone s.io ∧ (exitObserved s.io && (!enabled && s.h.e.enabled)) = false) := by
  rcases Host.setEnabled_cases hset with
    ⟨hsame, rfl, rfl⟩ | ⟨hoff, rfl, hspawn⟩ | ⟨hon, rfl, rfl, rfl⟩
  · rw [List.append_nil, hsame, Bool.not_and_self, Bool.and_false]
    refine ⟨⟨hinv.running, fun hobs => ?_⟩, by simp⟩
    exact ⟨(hinv.observed hobs).1, fun halone _ => (hinv.observed hobs).2 halone hloaded⟩
  · have hinit : s.h.e.initialized = false := by
      by_contra hinit
      have hon := hinv.running (by simpa using hinit)
      rw [hoff] at hon
      cases hon
    have hbroken : exitObserved s.io = true → ¬LeftAlone s.io := by
      intro hobs halone
      have hon := ((hinv.observed hobs).2 halone hloaded).1
      rw [hoff] at hon
      cases hon
    obtain ⟨hen, ⟨rfl, hinit'⟩ | ⟨pid, rest, rfl, hrest⟩⟩ := spawn_io hspawn
    · rw [List.append_nil]
      refine ⟨⟨fun _ => hen, fun hobs => ⟨hinit'.trans hinit, fun halone => ?_⟩⟩, by simp⟩
      exact absurd halone (hbroken hobs)
    · obtain ⟨hclosed, hforked⟩ := leftAlone_forked s.io pid
      obtain ⟨hclosed', hiff⟩ := leftAlone_touched hclosed
        (fun x hx => ne_exitSeen_of_touches (hrest x hx))
      rw [List.append_assoc, List.singleton_append] at hclosed' hiff
      refine ⟨⟨fun _ => hen, fun hobs => ?_⟩, (hiff.trans hforked).trans (by simp)⟩
      rw [hclosed'] at hobs
      cases hobs
  · obtain ⟨hbroken, hiff⟩ := stop_leftAlone s.io s.h written
      fun hobs halone => ((hinv.observed hobs).2 halone hloaded).2
    refine ⟨⟨fun h => (by cases h), fun hobs => ⟨rfl, fun halone => ?_⟩⟩, ?_⟩
    · exact absurd halone (hbroken hobs)
    · rw [hon, Bool.not_false, Bool.and_self, Bool.and_true]
      exact hiff

/-- **One operation**: the invariant is kept, and the plugin is left alone exactly if it was before
and is not stopped while its process is known to be gone. -/
theorem Seat.act_spec {s t : Seat} {op : Op} (hinv : s.Inv) (ha : s.act op = some t) :
    t.Inv ∧ (LeftAlone t.io ↔ LeftAlone s.io ∧ (exitObserved s.io && s.stops op) = false) := by
  unfold Seat.act at ha
  split at ha
  next hgone =>
    obtain rfl := Option.some_inj.mp ha
    have hloaded : s.loaded = false := by simpa using hgone
    exact ⟨hinv, by simp [Seat.stops, hloaded]⟩
  next hin =>
  have hloaded : s.loaded = true := by simpa using hin
  split at ha
  · cases ha
  next a hdrain =>
    obtain ⟨h', hact, rfl⟩ := Option.map_eq_some_iff.mp ha
    obtain ⟨hinv', hiff⟩ := call_spec hinv hloaded (fun t env he => hdrain t env he) hact
    exact ⟨hinv', hiff.trans (by simp [Seat.stops])⟩
  next enabled written env =>
    obtain ⟨⟨io, h'⟩, hset, rfl⟩ := Option.map_eq_some_iff.mp ha
    rw [Seat.stops, hloaded, Bool.true_and]
    exact setEnabled_spec hinv hloaded hset
  next written =>
    obtain rfl := Option.some_inj.mp ha
    obtain ⟨hbroken, hiff⟩ := stop_leftAlone s.io s.h written
      fun hobs halone => ((hinv.observed hobs).2 halone hloaded).2
    refine ⟨⟨fun h => (by cases h), fun hobs => ⟨rfl, fun halone => ?_⟩⟩, ?_⟩
    · exact absurd halone (hbroken hobs)
    · rw [Seat.stops, hloaded, Bool.and_self, Bool.and_true]
      exact hiff

/-- **A run**, from any entry that meets the invariant. -/
theorem exec_leftAlone {ops : List Op} {s t : Seat} (hinv : s.Inv)
    (hrun : exec Seat.act ops s = some t) :
    LeftAlone t.io ↔ LeftAlone s.io ∧ stopsObserved ops s = false := by
  induction ops generalizing s with
  | nil =>
    obtain rfl := Option.some_inj.mp hrun
    simp [stopsObserved]
  | cons op ops ih =>
    obtain ⟨u, hu, hrun⟩ := Option.bind_eq_some_iff.mp hrun
    obtain ⟨hinv', hiff⟩ := Seat.act_spec hinv hu
    rw [ih hinv' hrun, hiff, stopsObserved, hu, Bool.or_eq_false_iff, and_assoc]

/-- An entry that was just loaded has seen no exit. -/
theorem load_inv {name : CStr} {enabled : Bool} {env : Host.SpawnEnv} {s : Seat}
    (hload : Seat.load name enabled env = some s) : s.Inv ∧ LeftAlone s.io := by
  obtain ⟨⟨io, h⟩, hl, rfl⟩ := Option.map_eq_some_iff.mp hload
  cases enabled with
  | false =>
    obtain ⟨rfl, rfl⟩ := Prod.mk.inj (Option.some_inj.mp hl)
    exact ⟨⟨fun h => (by cases h), fun h => (by cases h)⟩, Scope.respected_nil⟩
  | true =>
    obtain ⟨hen, ⟨rfl, hinit⟩ | ⟨pid, rest, rfl, hrest⟩⟩ := spawn_io hl
    · exact ⟨⟨fun _ => hen, fun h => (by cases h)⟩, Scope.respected_nil⟩
    · obtain ⟨hclosed, hforked⟩ := leftAlone_forked [] pid
      obtain ⟨hclosed', hiff⟩ := leftAlone_touched hclosed
        (fun x hx => ne_exitSeen_of_touches (hrest x hx))
      refine ⟨⟨fun _ => hen, fun hobs => ?_⟩, (hiff.trans hforked).mpr Scope.respected_nil⟩
      cases hclosed'.symm.trans hobs

/-- **A plugin whose exit was observed is left alone unless it is stopped.**  Over every run of the
host from an entry as it is loaded: nothing is written to the plugin and no signal is sent between
an exit that `plugin_check_alive` has observed and the next process, if and only if in between
`nsr_plugins_set_enabled` does not disable it and `nsr_plugins_cleanup` does not run. -/
theorem leftAlone_iff {name : CStr} {enabled : Bool} {env : Host.SpawnEnv} {s t : Seat}
    {ops : List Op} (hload : Seat.load name enabled env = some s)
    (hrun : exec Seat.act ops s = some t) :
    LeftAlone t.io ↔ stopsObserved ops s = false := by
  obtain ⟨hinv, halone⟩ := load_inv hload
  rw [exec_leftAlone hinv hrun]
  exact ⟨And.right, fun h => ⟨halone, h⟩⟩

/-- A plugin's answer to `init`, which reserves the keys of a text. -/
def initReply (keys : CStr) : Bytes :=
  render (.obj [(cs "id", .int 1), (cs "result", .obj [(cs "status", .str (cs "ok")),
    (cs "reserved_keys", .str keys)])])

/-- A process that starts and answers `init` at once. -/
def Host.SpawnEnv.starts (pid : ℤ) (keys : CStr) : Host.SpawnEnv :=
  ⟨some ⟨pid, 3, 4⟩, true, [(Host.DrainEnv.reads (initReply keys ++ [0x0a])).recv]⟩

/-- A plugin exits, the next operation observes it, and nothing but frames follows. -/
theorem leftAlone_iff_frames :
    ∃ s t : Seat, Seat.load (cs "viewer") true (.starts 100 (cs "")) = some s ∧
      exec Seat.act [.call (.modalActive true), .call (.updateTelemetry false true)] s = some t ∧
      t.io = [.forked 100, .write, .exitSeen] ∧ LeftAlone t.io := by
  have hload : (Seat.load (cs "viewer") true (.starts 100 (cs ""))).map (fun s =>
      (stopsObserved [.call (.modalActive true), .call (.updateTelemetry false true)] s,
        (exec Seat.act [.call (.modalActive true), .call (.updateTelemetry false true)] s).map
          Seat.io)) = some (false, some [.forked 100, .write, .exitSeen]) := by
    decide +kernel
  obtain ⟨s, hs, hobs⟩ := Option.map_eq_some_iff.mp hload
  obtain ⟨hstops, hrun⟩ := Prod.mk.inj hobs
  obtain ⟨t, ht, hio⟩ := Option.map_eq_some_iff.mp hrun
  exact ⟨s, t, hs, ht, hio, (leftAlone_iff hs ht).mpr hstops⟩

/-- **A plugin whose process is gone is written to and signalled.**  The plugin exits, an operation
observes it, and it is disabled from the menu: `plugin_stop` writes `cleanup` to a pipe no one
reads, and signals the number of a process that has been waited for. -/
theorem stopped_after_exit :
    ∃ s t : Seat, Seat.load (cs "viewer") true (.starts 100 (cs "")) = some s ∧
      exec Seat.act [.call (.modalActive true), .setEnabled false true ⟨none, true, []⟩] s =
        some t ∧
      t.io = [.forked 100, .write, .exitSeen, .write, .signal 100] ∧ ¬LeftAlone t.io := by
  have hload : ((Seat.load (cs "viewer") true (.starts 100 (cs ""))).bind
      (exec Seat.act [.call (.modalActive true), .setEnabled false true ⟨none, true, []⟩])).map
        Seat.io = some [.forked 100, .write, .exitSeen, .write, .signal 100] := by
    decide +kernel
  obtain ⟨t, ht, hio⟩ := Option.map_eq_some_iff.mp hload
  obtain ⟨s, hs, hrun⟩ := Option.bind_eq_some_iff.mp ht
  refine ⟨s, t, hs, hrun, hio, fun halone => ?_⟩
  rw [hio] at halone
  cases halone [.forked 100, .write] .exitSeen [] .write [.signal 100] rfl rfl (by simp)

end Nsr
