import Nsr.Lib.Reachable
import Nsr.Sniffer.Capture

/-!
# The settings of the sniffer

What the handlers of `plugins/sniffer/src/main.rs` do with the state: keys, the settings dashboard,
starting and stopping the capture, and the countdown before a request.  The handlers run one after
another; the capture thread and the thread of a request write only to fields that no handler reads
in between, so a handler is one step.

* `Platform`: what the handlers get from the standard library.
* `stopSniffer`, `startSniffer`.
* `dashboardKey`, `applySettings`, `openDashboard`, `onKey`.
* `handleRender`, `handleUpdateTelemetry`, `handleCleanup`.
* `handle`, `Step`, `Wf`: the state machine and its invariant.  `handle_safe`: no handler panics.
* `analyzeIpv4_captures`, `analyzeIpv6_captures`: what the capture thread writes to.
-/

namespace Nsr.Sniffer

open Checked Transition

/-! ## Addresses -/

/-- `IpAddr`, as its octets. -/
inductive IpAddr where
  | v4 (octets : Bytes) (h : octets.length = 4)
  | v6 (octets : Bytes) (h : octets.length = 16)

namespace IpAddr

/-- `IpAddr::to_string`. -/
def toString : IpAddr → Bytes
  | v4 octets _ => ipv4ToString octets
  | v6 octets _ => ipv6ToString octets

/-- `IpAddr::is_loopback`. -/
def isLoopback : IpAddr → Bool
  | v4 octets _ => octets.head? == some 127
  | v6 octets _ => octets == [0, 0, 0, 0, 0, 0, 0, 0, 0, 0, 0, 0, 0, 0, 0, 1]

/-- `IpAddr::is_ipv6`. -/
def isIpv6 : IpAddr → Bool
  | v4 _ _ => false
  | v6 _ _ => true

end IpAddr

/-- **What the handlers get from the standard library**: the texts, where upper case is left as it
is, and how an address is read. -/
structure Platform extends Text where
  toUppercase_upper : ∀ bs, (∀ b ∈ bs, 0x41 ≤ b ∧ b ≤ 0x5A) → toUppercase bs = bs
  parseIp : Bytes → Option IpAddr

/-- `PROTO_FILTERS`. -/
def protoFilters : List Bytes :=
  [ascii "ALL", ascii "TCP", ascii "UDP", ascii "ICMP", ascii "HTTP", ascii "HTTPS", ascii "DNS",
    ascii "SSH", ascii "FTP", ascii "SMTP", ascii "TLS"]

/-- `eq_ignore_ascii_case`. -/
def eqIgnoreAsciiCase (a b : Bytes) : Bool :=
  let lower : UInt8 → UInt8 := fun c => if 0x41 ≤ c ∧ c ≤ 0x5A then c + 0x20 else c
  a.map lower == b.map lower

/-- `String::pop`: a character and the bytes that continue it. -/
def pop (bs : Bytes) : Bytes :=
  ((bs.reverse.dropWhile Utf8.isCont).drop 1).reverse

section Handlers

variable (env : Platform)

/-! ## Starting and stopping -/

/-- **`stop_sniffer`.** -/
def stopSniffer (state : GlobalState) : GlobalState :=
  if !state.running then state
  else
    { state with
      running := false
      captureThread := false
      targetIp := []
      targetHost := []
      showDashboard := false
      countdownActive := false
      errorInvalidIp := false }

/-- `ip_is_loopback`. -/
def ipIsLoopback (ip : Bytes) : Bool :=
  ((env.parseIp ip).map IpAddr.isLoopback).getD false

/-- **`start_sniffer`**; `socket` is whether a raw socket is to be had. -/
def startSniffer (socket : Bool) (targetIp : Bytes) (state : GlobalState) : GlobalState × Bool :=
  let state := { stopSniffer state with
    errorNoPriv := false
    errorInvalidIp := false
    countdownActive := false }
  match env.parseIp targetIp with
  | none => ({ state with errorInvalidIp := true }, false)
  | some targetAddr =>
    if ipIsLoopback env targetIp then ({ state with errorInvalidIp := true }, false)
    else
      let resolvedIp := targetAddr.toString
      let targetHost :=
        if resolvedIp = state.telemetryTargetIp ∧ state.targetHost ≠ [] then state.targetHost
        else resolvedIp
      if !socket then ({ state with errorNoPriv := true }, false)
      else
        ({ state with
          targetIp := resolvedIp
          targetHost := targetHost
          isIpv6 := targetAddr.isIpv6
          running := true
          totalCaptured := 0
          totalFiltered := 0
          packets := []
          captureThread := true }, true)

/-! ## The dashboard -/

/-- The key left, or `h`. -/
def previousValue (state : GlobalState) : Except Panic GlobalState := do
  if state.inspectFocus = 0 then
    if state.inspectProtoIdx = 0 then
      return { state with inspectProtoIdx := ← sub protoFilters.length 1 }
    return { state with inspectProtoIdx := ← sub state.inspectProtoIdx 1 }
  if state.inspectFocus = 2 then return { state with inspectShowRaw := !state.inspectShowRaw }
  if state.inspectFocus = 3 then
    return { state with inspectBodyMode := ← sub 1 state.inspectBodyMode }
  return state

/-- The key right, or `l`. -/
def nextValue (state : GlobalState) : Except Panic GlobalState := do
  if state.inspectFocus = 0 then
    if state.inspectProtoIdx ≥ (← sub protoFilters.length 1) then
      return { state with inspectProtoIdx := 0 }
    return { state with inspectProtoIdx := ← add state.inspectProtoIdx 1 }
  if state.inspectFocus = 2 then return { state with inspectShowRaw := !state.inspectShowRaw }
  if state.inspectFocus = 3 then
    return { state with inspectBodyMode := ← sub 1 state.inspectBodyMode }
  return state

/-- **A key in the dashboard**, at the time `t`: the state, whether the settings are to be applied,
and whether the key has been handled. -/
def dashboardKey (t : UInt64) (key : ℤ) (state : GlobalState) :
    Except Panic (GlobalState × Bool × Bool) := do
  if t.toNat - state.lastDashboardKeyMs.toNat < 100 then return (state, false, true)
  let accepted := { state with lastDashboardKeyMs := t }
  if key = 27 then return ({ accepted with showDashboard := false }, false, true)
  -- up, k or K
  if key = 259 ∨ key = 107 ∨ key = 75 then
    return ({ accepted with inspectFocus := (← add state.inspectFocus 3) % 4 }, false, true)
  -- down, j or J
  if key = 258 ∨ key = 106 ∨ key = 74 then
    return ({ accepted with inspectFocus := (← add state.inspectFocus 1) % 4 }, false, true)
  -- left, h or H
  if key = 260 ∨ key = 104 ∨ key = 72 then return (← previousValue accepted, false, true)
  -- right, l or L
  if key = 261 ∨ key = 108 ∨ key = 76 then return (← nextValue accepted, false, true)
  -- Enter
  if key = 343 ∨ key = 10 ∨ key = 13 then
    return ({ accepted with showDashboard := false }, true, true)
  -- backspace
  if key = 263 ∨ key = 127 ∨ key = 8 then
    if state.inspectFocus = 1 then
      return ({ accepted with inspectFilter := pop state.inspectFilter }, false, true)
    return (accepted, false, true)
  if key ≥ 32 ∧ key ≤ 126 then
    let c := UInt8.ofNat key.toNat
    if state.inspectFocus = 1 ∧ state.inspectFilter.length < 63 then
      return ({ accepted with inspectFilter := state.inspectFilter ++ [c] }, false, true)
    return (accepted, false, true)
  return (state, false, false)

/-- The protocols that are asked for over the web, by name. -/
def isWeb (fp : Bytes) : Bool :=
  fp = ascii "HTTP" ∨ fp = ascii "HTTPS" ∨ fp = ascii "TLS"

/-- The settings are taken over: the state, and the address to be sniffed. -/
def takeSettings (now : UInt64) (filterProto : Bytes) (state : GlobalState) :
    GlobalState × Bytes :=
  let state := { state with
    filterProto := filterProto
    filterString := state.inspectFilter
    stateShowRaw := state.inspectShowRaw
    stateBodyMode := state.inspectBodyMode }
  let ipToUse := if state.inspectIp ≠ [] then state.inspectIp else state.targetIp
  if isWeb (env.toUppercase state.filterProto) then
    ({ state with countdownActive := true, countdownStartMs := now }, ipToUse)
  else ({ state with countdownActive := false }, ipToUse)

/-- **The settings are applied.** -/
def applySettings (now : UInt64) (socket : Bool) (state : GlobalState) :
    Except Panic GlobalState :=
  match protoFilters[state.inspectProtoIdx]? with
  | none => .error .outOfRange
  | some filterProto =>
    let (state, ipToSniff) := takeSettings env now filterProto state
    if ipToSniff ≠ [] then .ok (startSniffer env socket ipToSniff state).1
    else .ok (stopSniffer state)

/-- **The dashboard is opened.** -/
def openDashboard (state : GlobalState) : GlobalState :=
  { state with
    showDashboard := true
    countdownActive := false
    inspectFocus := 0
    inspectIp :=
      if state.targetIp ≠ [] then state.targetIp
      else if state.focusedAddr ≠ [] then state.focusedAddr
      else []
    inspectFilter := state.filterString
    inspectShowRaw := state.stateShowRaw
    inspectBodyMode := state.stateBodyMode
    lastDashboardKeyMs := 0
    inspectProtoIdx :=
      (protoFilters.findIdx? fun p => eqIgnoreAsciiCase p state.filterProto).getD 0 }

/-! ## Keys -/

/-- The parameters of `on_key`. -/
structure KeyParams where
  key : Option ℤ
  modalInput : Bool

/-- The answers to `on_key`. -/
inductive KeyResponse where
  | key (handled modalActive : Bool)
  | forceSync (handled modalActive : Bool)
  | openEditor
  deriving DecidableEq

/-- `send_key_response`. -/
def sendKeyResponse (state : GlobalState) (handled : Bool) : GlobalState × KeyResponse :=
  (state, .key handled (state.showDashboard || state.countdownActive))

/-- A key while the dashboard is open. -/
def onDashboardKey (t now : UInt64) (socket : Bool) (key : ℤ) (state : GlobalState) :
    Except Panic (GlobalState × KeyResponse) := do
  let (state, apply, handled) ← dashboardKey t key state
  if apply then return sendKeyResponse (← applySettings env now socket state) handled
  return sendKeyResponse state handled

/-- **`handle_on_key`**; `t` and `now` are the times it asks for. -/
def onKey (t now : UInt64) (socket : Bool) (params : KeyParams) (state : GlobalState) :
    Except Panic (GlobalState × KeyResponse) :=
  match params.key with
  | none => .ok (sendKeyResponse state false)
  | some key =>
    if params.modalInput ∧ !(state.showDashboard || state.countdownActive) then
      .ok (state, .forceSync true false)
    else if state.showDashboard then onDashboardKey env t now socket key state
    -- a or A, then s, then f or F
    else if key = 97 ∨ key = 65 then .ok (sendKeyResponse (openDashboard state) true)
    else if key = 115 then .ok (state, .openEditor)
    else if (key = 102 ∨ key = 70) ∧ state.focusedAddr ≠ [] then
      .ok (sendKeyResponse (startSniffer env socket state.focusedAddr state).1 true)
    else .ok (sendKeyResponse state false)

/-! ## Frames -/

/-- What a frame shows. -/
inductive RenderMode where
  | countdown (remSecs : ℕ)
  | dashboard (focus protoIdx : ℕ) (filter : Bytes) (showRaw : Bool) (bodyMode : ℕ)
  | normal
  deriving DecidableEq

/-- A host in a URL. -/
def bracketed (host : Bytes) : Bytes :=
  if (0x3a : UInt8) ∈ host then ascii "[" ++ host ++ ascii "]" else host

/-- The host that is asked, if one is known. -/
def hostBuf (state : GlobalState) : Bytes :=
  if state.targetHost ≠ [] then bracketed state.targetHost
  else if state.targetIp ≠ [] then bracketed state.targetIp
  else []

/-- The URL of the request. -/
def requestUrl (state : GlobalState) : Bytes :=
  (if env.toUppercase state.filterProto = ascii "HTTP" then ascii "http" else ascii "https") ++
    ascii "://" ++ hostBuf state

/-- What a frame does: the state, what is shown, and the request that is made. -/
structure Frame where
  state : GlobalState
  mode : RenderMode
  request : Option Bytes

/-- The end of the countdown. -/
def requestFrame (state : GlobalState) : Frame :=
  if hostBuf state ≠ [] ∧ !state.curlThreadActive then
    ⟨{ state with curlThreadActive := true, countdownActive := false }, .normal,
      some (requestUrl env state)⟩
  else ⟨{ state with countdownActive := false }, .normal, none⟩

/-- **`handle_render`**, up to the drawing. -/
def handleRender (now : UInt64) (focusedAddr : Option Bytes) (state : GlobalState) : Frame :=
  let state := { state with focusedAddr := focusedAddr.getD [] }
  if state.countdownActive ∧ !state.showDashboard then
    let elapsed := now.toNat - state.countdownStartMs.toNat
    if elapsed ≥ 3000 then requestFrame env state
    else ⟨state, .countdown (max (3 - elapsed / 1000) 1), none⟩
  else if state.showDashboard then
    ⟨state, .dashboard state.inspectFocus state.inspectProtoIdx state.inspectFilter
      state.inspectShowRaw state.inspectBodyMode, none⟩
  else ⟨state, .normal, none⟩

/-! ## Other messages -/

/-- `handle_update_telemetry`. -/
def handleUpdateTelemetry (targetIp targetHost : Option Bytes) (state : GlobalState) :
    GlobalState :=
  { state with
    telemetryTargetIp := targetIp.getD state.telemetryTargetIp
    targetHost := targetHost.getD state.targetHost }

/-- `handle_cleanup`. -/
def handleCleanup (state : GlobalState) : GlobalState :=
  { stopSniffer state with
    showDashboard := false
    inspectIp := []
    inspectFilter := []
    inspectFocus := 0
    countdownActive := false }

/-- What the capture thread writes to. -/
structure Captured where
  packets : List SniffPacket
  totalCaptured : UInt64
  totalFiltered : UInt64
  lastPayload : Bytes
  lastPacket : Option SniffPacket

/-- The state after the capture thread has written to it. -/
def Captured.into (c : Captured) (state : GlobalState) : GlobalState :=
  { state with
    packets := c.packets
    totalCaptured := c.totalCaptured
    totalFiltered := c.totalFiltered
    lastPayload := c.lastPayload
    lastPacket := c.lastPacket }

/-! ## The state machine -/

/-- What happens to the state. -/
inductive Event where
  | updateTelemetry (targetIp targetHost : Option Bytes)
  | cleanup
  | render (now : UInt64) (focusedAddr : Option Bytes)
  | onKey (t now : UInt64) (socket : Bool) (params : KeyParams)
  | captured (c : Captured)
  | requestDone

/-- **What an event does.** -/
def handle (state : GlobalState) : Event → Except Panic GlobalState
  | .updateTelemetry targetIp targetHost => .ok (handleUpdateTelemetry targetIp targetHost state)
  | .cleanup => .ok (handleCleanup state)
  | .render now focusedAddr => .ok (handleRender env now focusedAddr state).state
  | .onKey t now socket params => (onKey env t now socket params state).map Prod.fst
  | .captured c => .ok (c.into state)
  | .requestDone => .ok { state with curlThreadActive := false }

/-- A run of events. -/
def runEvents (state : GlobalState) (es : List Event) : Except Panic GlobalState :=
  es.foldlM (handle env) state

/-- One step of the sniffer. -/
def Step (state state' : GlobalState) : Prop :=
  ∃ e, handle env state e = .ok state'

end Handlers

/-! ## The invariant -/

/-- **What holds of every state**: the indices of the dashboard are in range, and a capture has a
target. -/
structure Wf (state : GlobalState) : Prop where
  focus : state.inspectFocus < 4
  protoIdx : state.inspectProtoIdx < protoFilters.length
  bodyMode : state.inspectBodyMode ≤ 1
  stateBodyMode : state.stateBodyMode ≤ 1
  target : state.running = true → state.targetIp ≠ []

theorem decimal_ne_nil (n : ℕ) : decimal n ≠ [] := by
  rw [decimal]
  exact fun h => Nat.toDigits_ne_nil (List.map_eq_nil_iff.mp h)

theorem hex_ne_nil (n : ℕ) : hex n ≠ [] := by
  rw [hex]
  exact fun h => Nat.toDigits_ne_nil (List.map_eq_nil_iff.mp h)

theorem intercalate_ne_nil {sep x : Bytes} (hx : x ≠ []) (xs : List Bytes) :
    sep.intercalate (x :: xs) ≠ [] := by
  cases xs with
  | nil => simpa [List.intercalate] using hx
  | cons y ys => simp [List.intercalate, hx]

/-- An address is not shown as nothing. -/
theorem IpAddr.toString_ne_nil (addr : IpAddr) : addr.toString ≠ [] := by
  have hv4 : ∀ octets : Bytes, octets ≠ [] → ipv4ToString octets ≠ [] := by
    intro octets h
    cases octets with
    | nil => exact absurd rfl h
    | cons b bs => exact intercalate_ne_nil (decimal_ne_nil _) _
  cases addr with
  | v4 octets h => exact hv4 octets fun hnil => by simp [hnil] at h
  | v6 octets h =>
    have hmapped : ascii "::ffff:" ≠ [] := by decide
    have hgap : ascii "::" ≠ [] := by decide
    change ipv6ToString octets ≠ []
    unfold ipv6ToString
    dsimp only
    split_ifs
    · exact List.append_ne_nil_of_left_ne_nil hmapped _
    · exact List.append_ne_nil_of_left_ne_nil (List.append_ne_nil_of_right_ne_nil _ hgap) _
    · match octets, h with
      | hi :: lo :: bs, _ => exact intercalate_ne_nil (hex_ne_nil _) _

section Invariant

variable {env : Platform} {state : GlobalState}

theorem stopSniffer_wf (h : Wf state) : Wf (stopSniffer state) := by
  unfold stopSniffer
  split
  · exact h
  · exact { h with target := fun hrunning => absurd hrunning Bool.false_ne_true }

theorem startSniffer_wf (h : Wf state) (socket : Bool) (targetIp : Bytes) :
    Wf (startSniffer env socket targetIp state).1 := by
  have hstop := stopSniffer_wf h
  unfold startSniffer
  dsimp only
  split
  · exact { hstop with }
  · split_ifs
    · exact { hstop with }
    · exact { hstop with }
    -- the host is the target, or the one it is known by
    · exact { hstop with target := fun _ => IpAddr.toString_ne_nil _ }
    · exact { hstop with target := fun _ => IpAddr.toString_ne_nil _ }

/-- A well-formed state, with the fields of the dashboard changed. -/
theorem previousValue_safe (h : Wf state) : Safe (previousValue state) Wf := by
  have hidx := h.protoIdx
  have hbody := h.bodyMode
  unfold previousValue
  refine .ite (fun _ => .ite (fun _ => ?_) fun hne => ?_) fun _ =>
    .ite (fun _ => .pure { h with }) fun _ => .ite (fun _ => ?_) fun _ => .pure h
  · exact .pure { h with protoIdx := show protoFilters.length - 1 < protoFilters.length by decide }
  · refine (sub_safe (by omega)).bind fun n hn => .pure { h with protoIdx := ?_ }
    exact hn ▸ (Nat.sub_le _ _).trans_lt hidx
  · refine (sub_safe hbody).bind fun n hn => .pure { h with bodyMode := ?_ }
    exact hn ▸ Nat.sub_le 1 _

theorem nextValue_safe (h : Wf state) : Safe (nextValue state) Wf := by
  have hbody := h.bodyMode
  unfold nextValue
  refine .ite (fun _ => ?_) fun _ =>
    .ite (fun _ => .pure { h with }) fun _ => .ite (fun _ => ?_) fun _ => .pure h
  · refine (sub_safe (by decide)).bind fun last hlast => .ite (fun _ => ?_) fun hbefore => ?_
    · exact .pure { h with protoIdx := show 0 < protoFilters.length by decide }
    · have hlen : protoFilters.length = 11 := rfl
      refine (add_safe (by omega)).bind fun n hn => .pure { h with protoIdx := ?_ }
      change n < protoFilters.length
      omega
  · refine (sub_safe hbody).bind fun n hn => .pure { h with bodyMode := ?_ }
    exact hn ▸ Nat.sub_le 1 _

theorem dashboardKey_safe (h : Wf state) (t : UInt64) (key : ℤ) :
    Safe (dashboardKey t key state) fun r => Wf r.1 := by
  have hfocus := h.focus
  have haccepted : Wf { state with lastDashboardKeyMs := t } := { h with }
  unfold dashboardKey
  refine .ite (fun _ => .pure h) fun _ => .ite (fun _ => .pure { h with }) fun _ => ?_
  refine .ite (fun _ => ?_) fun _ => .ite (fun _ => ?_) fun _ => ?_
  · exact (add_safe (by omega)).bind fun n _ =>
      .pure { h with focus := Nat.mod_lt n (by norm_num) }
  · exact (add_safe (by omega)).bind fun n _ =>
      .pure { h with focus := Nat.mod_lt n (by norm_num) }
  refine .ite (fun _ => ?_) fun _ => .ite (fun _ => ?_) fun _ => ?_
  · exact (previousValue_safe haccepted).bind fun s hs => .pure hs
  · exact (nextValue_safe haccepted).bind fun s hs => .pure hs
  refine .ite (fun _ => .pure { h with }) fun _ => .ite (fun _ => ?_) fun _ => ?_
  · exact .ite (fun _ => .pure { h with }) fun _ => .pure haccepted
  refine .ite (fun _ => ?_) fun _ => .pure h
  exact .ite (fun _ => .pure { h with }) fun _ => .pure haccepted

theorem takeSettings_wf (h : Wf state) (now : UInt64) (filterProto : Bytes) :
    Wf (takeSettings env now filterProto state).1 := by
  unfold takeSettings
  dsimp only
  split_ifs
  all_goals exact { h with stateBodyMode := h.bodyMode }

theorem applySettings_safe (h : Wf state) (now : UInt64) (socket : Bool) :
    Safe (applySettings env now socket state) Wf := by
  unfold applySettings
  have hidx := h.protoIdx
  rw [List.getElem?_eq_getElem hidx]
  have htaken : Wf (takeSettings env now protoFilters[state.inspectProtoIdx] state).1 :=
    takeSettings_wf h now _
  refine .ite (fun _ => ?_) fun _ => ?_
  · exact .pure (startSniffer_wf htaken socket _)
  · exact .pure (stopSniffer_wf htaken)

theorem openDashboard_wf (h : Wf state) : Wf (openDashboard state) where
  focus := show 0 < 4 by norm_num
  protoIdx := by
    change (protoFilters.findIdx? _).getD 0 < protoFilters.length
    cases hidx : protoFilters.findIdx? fun p => eqIgnoreAsciiCase p state.filterProto with
    | none => exact show 0 < protoFilters.length by decide
    | some i => exact (List.findIdx?_eq_some_iff_getElem.mp hidx).1
  bodyMode := h.stateBodyMode
  stateBodyMode := h.stateBodyMode
  target := h.target

theorem onKey_safe (h : Wf state) (t now : UInt64) (socket : Bool) (params : KeyParams) :
    Safe (onKey env t now socket params state) fun r => Wf r.1 := by
  unfold onKey
  cases params.key with
  | none => exact .pure h
  | some key =>
    refine .ite (fun _ => .pure h) fun _ => .ite (fun _ => ?_) fun _ => ?_
    · refine (dashboardKey_safe h t key).bind fun r hr => ?_
      refine .ite (fun _ => ?_) fun _ => .pure hr
      exact (applySettings_safe hr now socket).bind fun s hs => .pure hs
    · refine .ite (fun _ => .pure (openDashboard_wf h)) fun _ => .ite (fun _ => .pure h) fun _ => ?_
      exact .ite (fun _ => .pure (startSniffer_wf h socket _)) fun _ => .pure h

theorem handleRender_wf (h : Wf state) (now : UInt64) (focusedAddr : Option Bytes) :
    Wf (handleRender env now focusedAddr state).state := by
  unfold handleRender requestFrame
  dsimp only
  split_ifs
  all_goals exact { h with }

/-- **No handler panics, and the invariant is kept.** -/
theorem handle_safe (h : Wf state) (e : Event) : Safe (handle env state e) Wf := by
  cases e with
  | updateTelemetry targetIp targetHost => exact .pure { h with }
  | cleanup =>
    exact .pure { stopSniffer_wf h with focus := show 0 < 4 by norm_num }
  | render now focusedAddr => exact .pure (handleRender_wf h now focusedAddr)
  | onKey t now socket params =>
    obtain ⟨r, hr, hwf⟩ := onKey_safe h t now socket params
    exact ⟨r.1, by rw [handle, hr]; rfl, hwf⟩
  | captured c => exact .pure { h with }
  | requestDone => exact .pure { h with }

theorem new_wf : Wf .new where
  focus := by decide
  protoIdx := by decide
  bodyMode := by decide
  stateBodyMode := by decide
  target := by decide

/-- **Every state of a run is well-formed.** -/
theorem wf_of_reachable (h : Reachable (Step env) .new state) : Wf state := by
  refine h.invariant new_wf fun s s' _ hs hstep => ?_
  obtain ⟨e, he⟩ := hstep
  obtain ⟨s'', hs'', hwf⟩ := handle_safe hs e
  obtain rfl := Except.ok.inj (he.symm.trans hs'')
  exact hwf

/-- A run of events from a well-formed state. -/
theorem runEvents_safe (h : Wf state) (es : List Event) : Safe (runEvents env state es) Wf := by
  induction es generalizing state with
  | nil => exact .pure h
  | cons e es ih =>
    rw [runEvents, List.foldlM_cons]
    exact (handle_safe h e).bind fun s hs => ih hs

/-- A run of events arrives at reachable states. -/
theorem reachable_runEvents {s s' : GlobalState} (h : Reachable (Step env) .new s)
    {es : List Event} (hrun : runEvents env s es = .ok s') :
    Reachable (Step env) .new s' := by
  induction es generalizing s with
  | nil =>
    obtain rfl := Except.ok.inj hrun
    exact h
  | cons e es ih =>
    rw [runEvents, List.foldlM_cons] at hrun
    cases hstep : handle env s e with
    | error panic =>
      rw [hstep] at hrun
      cases hrun
    | ok middle =>
      rw [hstep] at hrun
      exact ih (h.tail ⟨e, hstep⟩) hrun

end Invariant

/-! ## The capture thread -/

theorem into_captured (state : GlobalState) : ∃ c : Captured, c.into state = state :=
  ⟨⟨state.packets, state.totalCaptured, state.totalFiltered, state.lastPayload,
    state.lastPacket⟩, rfl⟩

/-- What an analysis leaves behind. -/
def Captures (state state' : GlobalState) : Prop :=
  ∃ c : Captured, c.into state = state'

theorem filtered_captures (state : GlobalState) :
    Returns (do return { state with totalFiltered := ← succ64 state.totalFiltered })
      (Captures state) :=
  .skip fun n => .pure ⟨⟨state.packets, state.totalCaptured, n, state.lastPayload,
    state.lastPacket⟩, rfl⟩

theorem finish_captures (text : Text) (now : UInt64) (state : GlobalState) (srcIp dstIp : Bytes)
    (t : Transport) (payloadLen ipTotalLen : ℕ) :
    Returns (finish text now state srcIp dstIp t payloadLen ipTotalLen) (Captures state) := by
  unfold finish record
  refine .skip fun finalPayload => .skip fun app => .skip fun info => ?_
  refine .ite (fun _ => filtered_captures state) fun _ => .skip fun totalCaptured => .pure ?_
  exact ⟨⟨_, totalCaptured, state.totalFiltered, finalPayload, some _⟩, rfl⟩

/-- **The capture thread writes to nothing else.** -/
theorem analyzeIpv4_captures (text : Text) (now : UInt64) (data targetIp : Bytes)
    (state : GlobalState) :
    Returns (analyzeIpv4 text now data targetIp state) (Captures state) := by
  have hsame : Captures state state := into_captured state
  unfold analyzeIpv4
  refine .skip fun r => ?_
  cases r with
  | none => exact .pure hsame
  | some ip =>
    refine .ite (fun _ => filtered_captures state) fun _ => .skip fun ihlBytes => ?_
    refine .ite (fun _ => .pure hsame) fun _ => .skip fun transData => .skip fun r => ?_
    cases r with
    | none => exact .pure hsame
    | some t => exact .skip fun payloadLen => finish_captures text now state _ _ t _ _

theorem analyzeIpv6_captures (text : Text) (now : UInt64) (data targetIp : Bytes)
    (state : GlobalState) :
    Returns (analyzeIpv6 text now data targetIp state) (Captures state) := by
  have hsame : Captures state state := into_captured state
  unfold analyzeIpv6
  refine .skip fun r => ?_
  cases r with
  | none => exact .pure hsame
  | some ip6 =>
    refine .ite (fun _ => filtered_captures state) fun _ => .skip fun r => ?_
    cases r with
    | none => exact .pure hsame
    | some r =>
      refine .skip fun transData => .skip fun r => ?_
      cases r with
      | none => exact .pure hsame
      | some t =>
        exact .skip fun limit => .skip fun total => finish_captures text now state _ _ t _ _

end Nsr.Sniffer
