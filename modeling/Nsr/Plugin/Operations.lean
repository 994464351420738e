import Nsr.Plugin.Entry
import Nsr.Lib.Reachable

/-!
# What the host does with a plugin

The operations of `src/plugin/plugin.c` on one entry of the registry, and the runs they make up.
The loops of `nsr_plugins_render` and its siblings treat the entries one after the other and
independently; which of the three passes of `nsr_plugins_on_key` reach an entry depends on the
other entries too, so here each pass is an operation of its own.

`Host.Action` lists the operations, with everything that comes in from outside; `Host.Step` is one
of them, or one call of `plugin_drain_response` by itself, which is what a loop of drains consists
of.  `Spawned` is an entry as `plugin_spawn` leaves it.
-/

namespace Nsr

/-- `nsr_ui_mode_t`. -/
inductive UiMode where
  | normal
  | grid
  | tree
  | tools
  deriving DecidableEq, Repr

/-- The mode as the plugin is told it. -/
def UiMode.name : UiMode → CStr
  | .normal => cs "normal"
  | .grid => cs "grid"
  | .tree => cs "tree"
  | .tools => cs "tools"

/-- What `nsr_plugins_render` is given: the mode, the panel, and the focused node with its address,
which is empty without one. -/
structure RenderView where
  mode : UiMode
  h : ℤ
  w : ℤ
  focusedNodeId : UInt32
  focusedAddr : CStr

namespace Entry

/-- The `result` of the cached response, where there is one. -/
def cachedResult (e : Entry) : Option Bytes :=
  if 0 < (e.lastResp .render).length then
    (objGet (cstr (e.lastResp .render)) (cs "result")).map Prod.fst
  else none

/-- The `is_modal` that `nsr_plugins_render` takes from the cached response. -/
def cachedModal (e : Entry) : Bool :=
  ((e.cachedResult.bind fun res => Host.boolMember res (cs "is_modal"))).getD false

/-- An integer of the cached response, as an `int`. -/
def cachedInt (e : Entry) (key : CStr) (default : ℤ) : ℤ :=
  match e.cachedResult.bind fun res => objGet res key with
  | none => default
  | some (val, len) => wrap32 (parseInt val len default).2

/-- The panel that `nsr_plugins_render` gives the plugin: `(pw, ph)`. -/
def panel (e : Entry) (view : RenderView) : ℤ × ℤ :=
  if e.isModal then (e.cachedInt (cs "modal_width") 60, e.cachedInt (cs "modal_height") 13)
  else if e.name = cs "sniffer" then (60, 18)
  else (view.w, view.h)

end Entry

namespace Host

/-- The parameters of a `render` request. -/
def renderParams (view : RenderView) (panel : ℤ × ℤ) : Bytes :=
  let params := JsonBuf.init.objStart
  let params := (params.key (cs "mode")).string (some view.mode.name)
  let params := (params.key (cs "width")).int (Int64.ofInt panel.1)
  let params := (params.key (cs "height")).int (Int64.ofInt panel.2)
  let params := (params.key (cs "focused_node_id")).int (Int64.ofInt view.focusedNodeId.toNat)
  let params := (params.key (cs "focused_addr")).string (some view.focusedAddr)
  params.objEnd.bytes

/-- `plugin_check_alive` on the entry. -/
def checkAlive (h : Host) (exited : Bool) : Host :=
  { h with e := h.e.checkAlive exited }

/-- What the system answers while `nsr_plugins_render` or `nsr_plugins_render_hops` treats an
entry. -/
structure FrameEnv where
  exited : Bool
  drain : DrainEnv
  written : Bool

/-- **`nsr_plugins_render`** for one entry. -/
def render (h : Host) (view : RenderView) (env : FrameEnv) : Option Host :=
  let h := h.checkAlive env.exited
  if !h.e.live then some h
  else
    let h := { h with e := { h.e with isModal := h.e.cachedModal } }
    let panel := h.e.panel view
    (h.drainResponse 5 env.drain).map fun r =>
      r.2.requestUnlessPending .render (renderParams view panel) env.written

/-- **`nsr_plugins_render_hops`** for one entry, with the parameters that describe the hops. -/
def renderHops (h : Host) (params : Bytes) (env : FrameEnv) : Option Host :=
  let h := h.checkAlive env.exited
  if !h.e.live then some h
  else
    (h.drainResponse 5 env.drain).map fun r =>
      r.2.requestUnlessPending .renderHops params env.written

/-- **`nsr_plugins_update_telemetry`** for one entry. -/
def updateTelemetry (h : Host) (exited written : Bool) : Host :=
  let h := h.checkAlive exited
  if h.e.live then { h with e := { h.e with rpc := (notify h.e.rpc written).2 } } else h

/-- The first loop of **`nsr_plugins_on_key`** for one entry: drain, and run a deferred editor,
which is what the `Bool` says. -/
def onKeyDrain (h : Host) (exited : Bool) (drains : List DrainEnv) : Option (Bool × Host) :=
  let h := h.checkAlive exited
  if !h.e.live then some (false, h)
  else
    (drainAll drains h).map fun h =>
      if h.e.pendingOpenEditor then
        (true, { h with e := { h.e with pendingOpenEditor := false, pendingOpenEditorFile := [] } })
      else (false, h)

/-- `NSR_PLUGIN_MODAL_KEY_INTERVAL_MS` and `NSR_PLUGIN_KEY_COALESCE_MS`: less than `interval` has
passed between two readings of the clock, where both could be taken. -/
def within (interval last now : ℤ) : Bool :=
  0 < now && 0 < last && now - last < interval

/-- The end of `plugin_try_on_key`: the key goes into the queue, at the cost of the oldest one
where it is full, and the next key is sent. -/
def enqueueKey (h : Host) (ev : KeyEvent) (written : Bool) : Host :=
  let r := h.e.keyQueueEnqueue ev
  let e := if r.1 then r.2 else (r.2.keyQueueDequeue.2.keyQueueEnqueue ev).2
  sendNextKey ⟨e, h.log ++ [.passed ev]⟩ written

/-- A key that is not queued. -/
def refuseKey (h : Host) (ev : KeyEvent) : Host :=
  { h with log := h.log ++ [.passed ev] }

/-- `plugin_try_on_key` behind its limit for modal input: identical keys in quick succession count
as one. -/
def coalesceKey (h : Host) (ev : KeyEvent) (t : ℤ) (written : Bool) : Host :=
  if ev.ch = h.e.lastKeyCh ∧ within 40 h.e.lastKeyMs t then h.refuseKey ev
  else
    enqueueKey { h with e := { h.e with lastKeyCh := ev.ch, lastKeyMs := t } } ev written

/-- `plugin_try_on_key` behind its loop of drains, with the two readings of the clock. -/
def pressKey (h : Host) (ev : KeyEvent) (reserved : Bool) (t₁ t₂ : ℤ) (written : Bool) :
    Bool × Host :=
  if ev.modalInput then
    if within 120 h.e.lastOnKeyMs t₁ then (true, h.refuseKey ev)
    else (true, coalesceKey { h with e := { h.e with lastOnKeyMs := t₁ } } ev t₂ written)
  else (reserved, h.coalesceKey ev t₂ written)

/-- What the system answers during one call of `plugin_try_on_key`. -/
structure KeyEnv where
  exited : Bool
  drains : List DrainEnv
  t₁ : ℤ
  t₂ : ℤ
  written : Bool

/-- **`plugin_try_on_key`.** -/
def tryOnKey (h : Host) (ev : KeyEvent) (reserved : Bool) (env : KeyEnv) :
    Option (Bool × Host) :=
  (drainAll env.drains h).map fun h => h.pressKey ev reserved env.t₁ env.t₂ env.written

/-- The passes of `nsr_plugins_on_key` over the entries. -/
inductive Pass where
  | modal
  | reserved
  | broadcast
  deriving DecidableEq, Repr

/-- **A pass of `nsr_plugins_on_key`** at one entry, for a key `0 ≤ ch`. -/
def onKeyPass (h : Host) (pass : Pass) (ch : Int32) (env : KeyEnv) : Option (Bool × Host) :=
  let h := h.checkAlive env.exited
  if !h.e.live then some (false, h)
  else
    match pass with
    | .modal => if h.e.isModal then h.tryOnKey ⟨ch, true⟩ false env else some (false, h)
    | .reserved =>
      if h.e.reservesKey ch then h.tryOnKey ⟨ch, false⟩ true env else some (false, h)
    | .broadcast => h.tryOnKey ⟨ch, false⟩ false env

/-! ## Runs -/

/-- The operations on an entry, with everything they take from outside. -/
inductive Action where
  | render (view : RenderView) (env : FrameEnv)
  | renderHops (params : Bytes) (env : FrameEnv)
  | updateTelemetry (exited written : Bool)
  | modalActive (exited : Bool)
  | onKeyDrain (exited : Bool) (drains : List DrainEnv)
  | onKeyPass (pass : Pass) (ch : Int32) (env : KeyEnv)
  | drain (timeoutMs : ℤ) (env : DrainEnv)

/-- The effect of an operation; `none` where the system did not answer enough for it to end. -/
def act (a : Action) (h : Host) : Option Host :=
  match a with
  | .render view env => h.render view env
  | .renderHops params env => h.renderHops params env
  | .updateTelemetry exited written => some (h.updateTelemetry exited written)
  | .modalActive exited => some (h.checkAlive exited)
  | .onKeyDrain exited drains => (h.onKeyDrain exited drains).map Prod.snd
  | .onKeyPass pass ch env => (h.onKeyPass pass ch env).map Prod.snd
  | .drain timeoutMs env => (h.drainResponse timeoutMs env).map Prod.snd

/-- **One step of the host.** -/
def Step (h h' : Host) : Prop :=
  ∃ a, act a h = some h'

/-- **An entry as `plugin_spawn` leaves it.**  Nothing is pending or cached, no key is queued, and
`init`, which the spawn waits for, was request number one. -/
structure Spawned (h : Host) : Prop where
  nextId : h.e.rpc.nextId = 2
  pending : ∀ m, h.e.pending m = false
  lastResp : ∀ m, h.e.lastResp m = []
  head : h.e.keyQueueHead = 0
  count : h.e.keyQueueCount = 0
  log : h.log = []

/-- The host of a plugin that reserves no keys, spawned as process 100. -/
def spawned (name : CStr) : Host where
  e := {
    name := name
    enabled := true
    initialized := true
    dead := false
    rpc := ⟨100, 3, 4, 2, -1, false, []⟩
    lastResp := fun _ => []
    pending := fun _ => false
    pendingId := fun _ => 0
    isModal := false
    lastOnKeyMs := 0
    reservedKeys := []
    keyQueue := fun _ => ⟨0, false⟩
    keyQueueHead := 0
    keyQueueCount := 0
    lastKeyCh := -1
    lastKeyMs := 0
    pendingOpenEditor := false
    pendingOpenEditorFile := [] }
  log := []

theorem spawned_spawned (name : CStr) : (spawned name).Spawned :=
  ⟨rfl, fun _ => rfl, fun _ => rfl, rfl, rfl, rfl⟩

/-- A drain that finds nothing to read. -/
def DrainEnv.silent : DrainEnv :=
  ⟨⟨some ⟨0, 0⟩, [⟨some ⟨1, 0⟩, .interrupted⟩]⟩, [], true⟩

/-- A drain that reads a chunk at once. -/
def DrainEnv.reads (bytes : Bytes) : DrainEnv :=
  ⟨⟨some ⟨0, 0⟩, [⟨some ⟨0, 0⟩, .ready (.chunk bytes)⟩]⟩, [], true⟩

/-- A frame in which nothing comes from the plugin. -/
def FrameEnv.silent : FrameEnv :=
  ⟨false, .silent, true⟩

/-- A frame that reads a line. -/
def FrameEnv.reads (line : Bytes) : FrameEnv :=
  ⟨false, .reads (line ++ [0x0a]), true⟩

end Host
end Nsr
