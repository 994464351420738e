import Nsr.Plugin.Rpc
import Mathlib.Logic.Function.Basic

/-!
# One plugin of the host

The part of `src/plugin/plugin.c` that talks to one running plugin: the key queue, the requests,
the routing of what comes back, and the bodies of `nsr_plugins_render`, `nsr_plugins_render_hops`,
`nsr_plugins_on_key`, `nsr_plugins_update_telemetry` and `nsr_plugins_modal_active` for one entry
of the registry.

The three kinds of request have a pending flag and a pending number each; here these are functions
of the method.  Every call of the operating system that can come out in more than one way takes its
outcome from an argument.

`Host` puts an entry next to a history of what passed between host and plugin.  No function reads
the history.  Drawing is left out.
-/

namespace Nsr

/-- `NSR_PLUGIN_KEY_QUEUE`. -/
def pluginKeyQueue : ℕ := 8

/-- **`nsr_key_event_t`.** -/
structure KeyEvent where
  ch : Int32
  modalInput : Bool
  deriving DecidableEq, Repr

/-- **`nsr_plugin_entry_t`**, without what only describes the plugin. -/
structure Entry where
  name : CStr
  enabled : Bool
  initialized : Bool
  dead : Bool
  rpc : Rpc
  /-- `last_render_resp` and `last_render_hops_resp`. -/
  lastResp : Method → Bytes
  /-- `render_pending`, `render_hops_pending` and `on_key_pending`. -/
  pending : Method → Bool
  /-- `pending_render_id`, `pending_render_hops_id` and `pending_on_key_id`. -/
  pendingId : Method → ℤ
  isModal : Bool
  lastOnKeyMs : ℤ
  /-- The first `reserved_count` of `reserved_keys`. -/
  reservedKeys : Bytes
  keyQueue : ℕ → KeyEvent
  keyQueueHead : ℤ
  keyQueueCount : ℤ
  lastKeyCh : Int32
  lastKeyMs : ℤ
  pendingOpenEditor : Bool
  pendingOpenEditorFile : Bytes

/-! ## The key queue -/

namespace Entry

/-- `plugin_key_queue_reset`. -/
def keyQueueReset (e : Entry) : Entry :=
  { e with keyQueueHead := 0, keyQueueCount := 0, lastKeyCh := -1, lastKeyMs := 0 }

/-- `plugin_key_queue_enqueue`. -/
def keyQueueEnqueue (e : Entry) (ev : KeyEvent) : Bool × Entry :=
  if e.keyQueueCount ≥ pluginKeyQueue then (false, e)
  else
    let idx := (e.keyQueueHead + e.keyQueueCount).tmod pluginKeyQueue
    (true, { e with
      keyQueue := Function.update e.keyQueue idx.toNat ev
      keyQueueCount := e.keyQueueCount + 1 })

/-- `plugin_key_queue_dequeue`. -/
def keyQueueDequeue (e : Entry) : Option KeyEvent × Entry :=
  if e.keyQueueCount ≤ 0 then (none, e)
  else
    (some (e.keyQueue e.keyQueueHead.toNat), { e with
      keyQueueHead := (e.keyQueueHead + 1).tmod pluginKeyQueue
      keyQueueCount := e.keyQueueCount - 1 })

/-- `plugin_check_alive`; `exited` is what `waitpid` says. -/
def checkAlive (e : Entry) (exited : Bool) : Entry :=
  if !e.initialized || e.rpc.pid ≤ 0 then e
  else if exited then { e with dead := true, initialized := false }
  else e

/-- The guard in front of every operation on an entry. -/
def live (e : Entry) : Bool :=
  e.enabled && e.initialized && !e.dead

/-- `plugin_reserves_key`. -/
def reservesKey (e : Entry) (ch : Int32) : Bool :=
  if ch < 0 || 127 < ch then false
  else
    let key := UInt8.ofNat ch.toInt.toNat
    let key := if 0x41 ≤ key && key ≤ 0x5a then key + 0x20 else key
    e.reservedKeys.contains key

end Entry

/-! ## The history -/

/-- **What passes between the host and a plugin.** -/
inductive Event where
  /-- A request line, with its number; `written` when it went out whole. -/
  | sent (m : Method) (id : ℤ) (line : Bytes) (written : Bool)
  /-- A line came in. -/
  | received (line : Bytes)
  /-- The line was taken for the answer to the pending request of a method: it becomes the cached
  response, or `plugin_handle_on_key_result` is applied to it. -/
  | answered (m : Method) (line : Bytes)
  /-- `plugin_force_sync`. -/
  | forceSync
  /-- A key was passed to `plugin_try_on_key`, whose loop of drains is through. -/
  | passed (ev : KeyEvent)

/-- **An entry and its history.** -/
structure Host where
  e : Entry
  log : List Event

namespace Host

/-! ## Sending -/

/-- `nsr_json_rpc_send_request` on the connection of the entry: what it returns, and the number it
stores. -/
def request (h : Host) (m : Method) (params : Bytes) (written : Bool) : Bool × Option ℤ × Host :=
  let r := sendRequest h.e.rpc written
  match r.id with
  | none => (r.ok, none, h)
  | some id =>
    (r.ok, some id, {
      e := { h.e with rpc := r.rpc }
      log := h.log ++ [.sent m id (buildRequest m.name params id) r.ok] })

/-- `build_key_params`. -/
def buildKeyParams (ev : KeyEvent) : Bytes :=
  let params := JsonBuf.init.objStart
  let params := (params.key (cs "key")).int ev.ch.toInt64
  let params := if ev.modalInput then (params.key (cs "modal_input")).bool true else params
  params.objEnd.bytes

/-- **`plugin_send_next_key`.** -/
def sendNextKey (h : Host) (written : Bool) : Host :=
  if h.e.pending .onKey ∨ h.e.rpc.dead ∨ h.e.rpc.inFd < 0 then h
  else
    match h.e.keyQueueDequeue with
    | (none, _) => h
    | (some ev, e) =>
      match request { h with e := e } .onKey (buildKeyParams ev) written with
      | (true, id, h) =>
        { h with e := { h.e with
            pending := Function.update h.e.pending .onKey true
            pendingId := Function.update h.e.pendingId .onKey (id.getD (-1)) } }
      | (false, _, h) => { h with e := { h.e with dead := h.e.dead || h.e.rpc.dead } }

/-- The end of `nsr_plugins_render` and `nsr_plugins_render_hops` for an entry: a new request,
unless one is pending. -/
def requestUnlessPending (h : Host) (m : Method) (params : Bytes) (written : Bool) : Host :=
  if h.e.pending m then h
  else
    match h.request m params written with
    | (ok, id, h) =>
      let e := { h.e with pendingId := Function.update h.e.pendingId m (id.getD (h.e.pendingId m)) }
      if ok then { h with e := { e with pending := Function.update e.pending m true } }
      else { h with e := { e with dead := e.dead || e.rpc.dead } }

/-! ## Synchronisation -/

/-- **`plugin_force_sync`.** -/
def forceSync (h : Host) (discard : List DiscardRound) : Host where
  e := { h.e.keyQueueReset with
    rpc := { discardQueued h.e.rpc discard with pendingId := -1 }
    pending := fun _ => false
    pendingId := fun _ => -1
    lastOnKeyMs := 0
    pendingOpenEditor := false
    pendingOpenEditorFile := []
    lastResp := fun _ => [] }
  log := h.log ++ [.forceSync]

/-- A string member as the source reads it into a buffer of `size` bytes; empty without one. -/
def strMember (json : Bytes) (key : CStr) (size : UInt64) : Bytes :=
  match objGet json key with
  | none => []
  | some (val, len) => (parseStr val len size).getD []

/-- A boolean member, where there is one that parses. -/
def boolMember (json : Bytes) (key : CStr) : Option Bool :=
  match objGet json key with
  | none => none
  | some (val, len) =>
    let r := parseBool val len false
    if r.1 then some r.2 else none

/-- `if (modal_known) e->is_modal = modal`. -/
def setModal (h : Host) (modal : Option Bool) : Host :=
  { h with e := { h.e with isModal := modal.getD h.e.isModal } }

/-- **`plugin_handle_force_sync`**; `none` when it returns false. -/
def handleForceSync (h : Host) (msg : Bytes) (discard : List DiscardRound) : Option Host :=
  if strMember (cstr msg) (cs "method") 64 ≠ ascii "force_sync" then none
  else
    let modal := (objGet (cstr msg) (cs "params")).bind fun params =>
      boolMember params.1 (cs "is_modal")
    some ((h.forceSync discard).setModal modal)

/-- **`plugin_result_requests_force_sync`**; `none` when it returns false. -/
def resultRequestsForceSync (h : Host) (result : Bytes) (discard : List DiscardRound) :
    Option Host :=
  if boolMember result (cs "force_sync") ≠ some true then none
  else some ((h.forceSync discard).setModal (boolMember result (cs "is_modal")))

/-! ## Answers -/

/-- **`plugin_handle_on_key_result`.** -/
def handleOnKeyResult (h : Host) (result : Bytes) (discard : List DiscardRound) : Bool × Host :=
  match h.resultRequestsForceSync result discard with
  | some h => (true, h)
  | none =>
    let h := h.setModal (boolMember result (cs "is_modal"))
    if strMember result (cs "action") 64 = ascii "open_editor" then
      let file := strMember result (cs "file") 256
      if file = [] then (true, h)
      else
        (true, { h with e := { h.e with
          pendingOpenEditor := true
          pendingOpenEditorFile := file.take 255 } })
    else
      let h := { h with e := { h.e with lastKeyCh := -1, lastKeyMs := 0 } }
      if boolMember result (cs "handled") = some true then
        (true, { h with e := { h.e with lastResp := Function.update h.e.lastResp .render [] } })
      else (false, h)

/-- The line answers the pending request of a method. -/
def answers (h : Host) (m : Method) (id : ℤ) : Bool :=
  h.e.pending m && id == h.e.pendingId m

/-- The pending request of a method is answered. -/
def answer (h : Host) (m : Method) (line : Bytes) : Host where
  e := { h.e with pending := Function.update h.e.pending m false }
  log := h.log ++ [.answered m line]

/-- A response is kept for the next frame. -/
def storeResp (h : Host) (m : Method) (line : Bytes) : Host :=
  { h with e := { h.e with lastResp := Function.update h.e.lastResp m line } }

/-- What `plugin_drain_response` does with a line, before it sends the next key. -/
def route (h : Host) (line : Bytes) (id : ℤ) (discard : List DiscardRound) : Host :=
  match h.handleForceSync line discard with
  | some h => h
  | none =>
    if h.answers .render id then (h.answer .render line).storeResp .render line
    else if h.answers .renderHops id then (h.answer .renderHops line).storeResp .renderHops line
    else if h.answers .onKey id then
      let h := h.answer .onKey line
      match objGet (cstr line) (cs "result") with
      | none => h
      | some (result, _) => (h.handleOnKeyResult result discard).2
    else h

/-- What the system answers during one call of `plugin_drain_response`. -/
structure DrainEnv where
  recv : RecvEnv
  discard : List DiscardRound
  written : Bool

/-- **`plugin_drain_response`.**  Every branch of the source that has a line ends by sending the
next key. -/
def drainResponse (h : Host) (timeoutMs : ℤ) (env : DrainEnv) : Option (Bool × Host) :=
  if h.e.rpc.dead ∨ h.e.rpc.outFd < 0 then some (false, h)
  else
    match tryRecvAny h.e.rpc timeoutMs env.recv with
    | none => none
    | some (none, rpc) => some (false, { h with e := { h.e with rpc := rpc } })
    | some (some (line, id), rpc) =>
      let h : Host := ⟨{ h.e with rpc := rpc }, h.log ++ [.received line]⟩
      some (true, (h.route line id env.discard).sendNextKey env.written)

/-- `while (plugin_drain_response(e, 0)) ;` -/
def drainAll : List DrainEnv → Host → Option Host
  | [], _ => none
  | env :: envs, h =>
    match h.drainResponse 0 env with
    | none => none
    | some (true, h) => drainAll envs h
    | some (false, h) => some h

end Host
end Nsr
