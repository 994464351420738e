import Nsr.Sniffer.Dashboard
import Nsr.Sniffer.Safety

/-!
# The countdown before a request

Enter in the dashboard takes the settings over, and with a web protocol it starts a countdown, at
the end of which a frame makes a request.  Then the capture is started anew for the address, or
stopped if there is none; and starting it ends the countdown.

* `Starts`: what applying the settings should do.
* `Counting`: while the countdown lasts.
* `enter_eq`: what Enter does.
* `countdown_iff`: when it does what it should.
-/

namespace Nsr.Sniffer

open Checked Transition

/-- The protocol that is selected. -/
def selected (state : GlobalState) : Bytes :=
  protoFilters.getD state.inspectProtoIdx []

/-- The keys that apply the settings. -/
def IsEnter (key : ℤ) : Prop :=
  key = 343 ∨ key = 10 ∨ key = 13

/-- What happens while a countdown from `start` is left alone: no key, no cleanup, and no frame
after its end. -/
def Waits (start : UInt64) : Event → Prop
  | .updateTelemetry _ _ | .captured _ | .requestDone => True
  | .render now _ => now.toNat - start.toNat < 3000
  | .cleanup | .onKey _ _ _ _ => False

/-- What is asked for with a protocol. -/
def announcedUrl (filterProto host : Bytes) : Bytes :=
  (if filterProto = ascii "HTTP" then ascii "http" else ascii "https") ++ ascii "://" ++ host

/-- **The announced request is made**: by the first frame after three seconds, if a host is known
then and no other request is on its way. -/
def Performs (env : Platform) (start : UInt64) (filterProto : Bytes) (state : GlobalState) : Prop :=
  ∀ es state', (∀ e ∈ es, Waits start e) → runEvents env state es = .ok state' →
    hostBuf state' ≠ [] → state'.curlThreadActive = false →
    ∀ now focusedAddr, 3000 ≤ now.toNat - start.toNat →
      (handleRender env now focusedAddr state').request =
        some (announcedUrl filterProto (hostBuf state'))

/-- **What applying the settings should do**: the countdown is on exactly for a web protocol, and
then the announced request is made. -/
def Starts (env : Platform) (now : UInt64) (state state' : GlobalState) : Prop :=
  (state'.countdownActive = true ↔ isWeb (selected state) = true) ∧
    (isWeb (selected state) = true → Performs env now (selected state) state')

section Countdown

variable {env : Platform} {state : GlobalState}

theorem selected_eq (h : Wf state) : protoFilters[state.inspectProtoIdx]? = some (selected state) :=
  by
  rw [selected, List.getD_eq_getElem?_getD, List.getElem?_eq_getElem h.protoIdx]
  rfl

/-- The names of the protocols are in upper case. -/
theorem toUppercase_selected (h : Wf state) :
    env.toUppercase (selected state) = selected state := by
  have hupper : ∀ p ∈ protoFilters, ∀ b ∈ p, (0x41 : UInt8) ≤ b ∧ b ≤ 0x5A := by
    decide +kernel
  exact env.toUppercase_upper _ (hupper _ (List.mem_of_getElem? (selected_eq h)))

/-! ## While it lasts -/

/-- **The countdown is on.** -/
structure Counting (start : UInt64) (filterProto : Bytes) (state : GlobalState) : Prop where
  active : state.countdownActive = true
  closed : state.showDashboard = false
  start : state.countdownStartMs = start
  proto : state.filterProto = filterProto

variable {start : UInt64} {filterProto : Bytes}

/-- A frame before its end leaves it alone. -/
theorem Counting.render (h : Counting start filterProto state) {now : UInt64}
    (hnow : now.toNat - start.toNat < 3000) (focusedAddr : Option Bytes) :
    Counting start filterProto (handleRender env now focusedAddr state).state := by
  have hearly : ¬now.toNat - state.countdownStartMs.toNat ≥ 3000 := by
    rw [h.start]
    omega
  unfold handleRender
  dsimp only
  rw [if_pos ⟨h.active, by rw [h.closed]; rfl⟩, if_neg hearly]
  exact { h with }

theorem Counting.handle (h : Counting start filterProto state) {e : Event} (he : Waits start e)
    {state' : GlobalState} (hstep : handle env state e = .ok state') :
    Counting start filterProto state' := by
  cases e with
  | updateTelemetry targetIp targetHost =>
    obtain rfl := Except.ok.inj hstep
    exact { h with }
  | captured c =>
    obtain rfl := Except.ok.inj hstep
    exact { h with }
  | requestDone =>
    obtain rfl := Except.ok.inj hstep
    exact { h with }
  | render now focusedAddr =>
    obtain rfl := Except.ok.inj hstep
    exact h.render he focusedAddr
  | cleanup => exact he.elim
  | onKey t now socket params => exact he.elim

theorem Counting.run (h : Counting start filterProto state) {es : List Event}
    (hes : ∀ e ∈ es, Waits start e) {state' : GlobalState}
    (hrun : runEvents env state es = .ok state') : Counting start filterProto state' := by
  induction es generalizing state with
  | nil =>
    obtain rfl := Except.ok.inj hrun
    exact h
  | cons e es ih =>
    rw [runEvents, List.foldlM_cons] at hrun
    cases hstep : Sniffer.handle env state e with
    | error panic =>
      rw [hstep] at hrun
      cases hrun
    | ok middle =>
      rw [hstep] at hrun
      exact ih (h.handle (hes e List.mem_cons_self) hstep)
        (fun e' he' => hes e' (List.mem_cons_of_mem e he')) hrun

/-- **At its end the request is made.** -/
theorem Counting.performs (h : Counting start filterProto state)
    (hproto : env.toUppercase filterProto = filterProto) :
    Performs env start filterProto state := by
  intro es state' hes hrun hhost hidle now focusedAddr hnow
  have hlast := h.run hes hrun
  have hover : now.toNat - state'.countdownStartMs.toNat ≥ 3000 := by
    rw [hlast.start]
    exact hnow
  unfold handleRender
  dsimp only
  rw [if_pos ⟨hlast.active, by rw [hlast.closed]; rfl⟩, if_pos hover, requestFrame,
    if_pos ⟨hhost, by rw [hidle]; rfl⟩]
  change some (requestUrl env _) = _
  rw [requestUrl, announcedUrl]
  dsimp only
  rw [hlast.proto, hproto]
  rfl

/-! ## Enter -/

/-- **Starting a capture ends the countdown**, whether it succeeds or not. -/
theorem startSniffer_countdown (socket : Bool) (targetIp : Bytes) :
    (startSniffer env socket targetIp state).1.countdownActive = false := by
  unfold startSniffer
  dsimp only
  split
  · rfl
  · split_ifs
    all_goals rfl

/-- The address the dashboard has been opened for, or the target. -/
def ipToUse (state : GlobalState) : Bytes :=
  if state.inspectIp ≠ [] then state.inspectIp else state.targetIp

theorem ipToUse_eq_nil : ipToUse state = [] ↔ state.inspectIp = [] ∧ state.targetIp = [] := by
  unfold ipToUse
  split
  next h => exact ⟨fun hip => absurd hip h, fun hip => absurd hip.1 h⟩
  next h => exact ⟨fun hip => ⟨not_not.mp h, hip⟩, fun hip => hip.2⟩

theorem stopSniffer_idle (h : state.running = false) : stopSniffer state = state := by
  rw [stopSniffer, h]
  rfl

theorem takeSettings_running (now : UInt64) :
    (takeSettings env now filterProto state).1.running = state.running := by
  unfold takeSettings
  dsimp only
  split
  all_goals rfl

/-- A web protocol starts the countdown. -/
theorem takeSettings_web (hclosed : state.showDashboard = false)
    (hproto : env.toUppercase filterProto = filterProto) (hweb : isWeb filterProto = true)
    (now : UInt64) :
    Counting now filterProto (takeSettings env now filterProto state).1 := by
  unfold takeSettings
  dsimp only
  rw [hproto, if_pos hweb]
  exact ⟨rfl, hclosed, rfl, rfl⟩

/-- Any other protocol ends it. -/
theorem takeSettings_other (hproto : env.toUppercase filterProto = filterProto)
    (hweb : isWeb filterProto ≠ true) (now : UInt64) :
    (takeSettings env now filterProto state).1.countdownActive = false := by
  unfold takeSettings
  dsimp only
  rw [hproto, if_neg hweb]

/-- The state in which the settings are taken over. -/
def closed (t : UInt64) (state : GlobalState) : GlobalState :=
  { state with lastDashboardKeyMs := t, showDashboard := false }

/-- **What Enter does.** -/
theorem enter_eq (h : Wf state) (hopen : state.showDashboard = true) {key : ℤ} (hkey : IsEnter key)
    {t : UInt64} (haccepted : 100 ≤ t.toNat - state.lastDashboardKeyMs.toNat) (now : UInt64)
    (socket modalInput : Bool) :
    onKey env t now socket ⟨some key, modalInput⟩ state =
      .ok (sendKeyResponse
        (if ipToUse state ≠ [] then
          (startSniffer env socket (ipToUse state)
            (takeSettings env now (selected state) (closed t state)).1).1
        else stopSniffer (takeSettings env now (selected state) (closed t state)).1) true) := by
  have hdashboard : dashboardKey t key state = .ok (closed t state, true, true) := by
    unfold dashboardKey
    rw [if_neg (by omega)]
    rcases hkey with rfl | rfl | rfl
    all_goals rfl
  have hip : (takeSettings env now (selected state) (closed t state)).2 = ipToUse state := by
    unfold takeSettings
    dsimp only
    split
    all_goals rfl
  have hidx : protoFilters[state.inspectProtoIdx]? = some (selected state) := selected_eq h
  unfold onKey
  dsimp only
  rw [if_neg (by rw [hopen]; simp), if_pos hopen, onDashboardKey, hdashboard, ok_bind]
  dsimp only
  rw [if_pos rfl, applySettings, show (closed t state).inspectProtoIdx = state.inspectProtoIdx
    from rfl, hidx]
  dsimp only
  rw [hip]
  split
  all_goals rfl

/-- **When the countdown starts.**  In any state with the dashboard open, Enter that is accepted
starts the countdown for a web protocol, and ends it for any other, exactly if no web protocol is
selected or there is no address to be sniffed. -/
theorem countdown_iff (hreach : Reachable (Step env) .new state)
    (hopen : state.showDashboard = true) {key : ℤ} (hkey : IsEnter key) {t : UInt64}
    (haccepted : 100 ≤ t.toNat - state.lastDashboardKeyMs.toNat) (now : UInt64)
    (socket modalInput : Bool) :
    ∃ state' response,
      onKey env t now socket ⟨some key, modalInput⟩ state = .ok (state', response) ∧
        (Starts env now state state' ↔
          (isWeb (selected state) = true → state.inspectIp = [] ∧ state.targetIp = [])) := by
  have h := wf_of_reachable hreach
  refine ⟨_, _, enter_eq h hopen hkey haccepted now socket modalInput, ?_⟩
  rw [← ipToUse_eq_nil]
  by_cases hip : ipToUse state = []
  · -- nothing is to be sniffed, and so nothing is: the settings are all that changes
    have hidle : state.running = false := by
      rw [← Bool.not_eq_true]
      exact fun hrunning => h.target hrunning (ipToUse_eq_nil.mp hip).2
    refine iff_of_true ?_ fun _ => hip
    have hstill : (takeSettings env now (selected state) (closed t state)).1.running = false :=
      (takeSettings_running now).trans hidle
    rw [if_neg (not_not.mpr hip), stopSniffer_idle hstill]
    have hproto : env.toUppercase (selected state) = selected state := toUppercase_selected h
    by_cases hweb : isWeb (selected state) = true
    · have hcounting : Counting now (selected state)
          (takeSettings env now (selected state) (closed t state)).1 :=
        takeSettings_web rfl hproto hweb now
      exact ⟨iff_of_true hcounting.active hweb, fun _ => hcounting.performs hproto⟩
    · have hoff : (takeSettings env now (selected state) (closed t state)).1.countdownActive =
          false := takeSettings_other hproto hweb now
      exact ⟨iff_of_false (by rw [hoff]; exact Bool.false_ne_true) hweb, fun h => absurd h hweb⟩
  · -- the capture is started, and the countdown ends
    rw [if_pos hip]
    constructor
    · intro hstarts hweb
      have hactive := hstarts.1.mpr hweb
      rw [startSniffer_countdown] at hactive
      cases hactive
    · intro hcondition
      have hweb : isWeb (selected state) ≠ true := fun hweb => hip (hcondition hweb)
      refine ⟨iff_of_false ?_ hweb, fun h => absurd h hweb⟩
      rw [startSniffer_countdown]
      exact Bool.false_ne_true

end Countdown

/-- Texts in ASCII, and one address that is read. -/
def plainPlatform : Platform where
  toText := asciiText
  toUppercase_upper := by
    intro bs hbs
    refine (List.map_congr_left fun b hb => if_neg fun h => ?_).trans (List.map_id bs)
    exact absurd (UInt8.le_trans h.1 (hbs b hb).2) (by decide)
  parseIp := fun bs => if bs = ascii "10.0.0.2" then some (.v4 [10, 0, 0, 2] rfl) else none

/-- A key at a time. -/
def pressed (key : ℤ) (t : UInt64) : Event :=
  .onKey t t true ⟨some key, false⟩

/-- The dashboard is opened, and HTTP is selected. -/
def selectHttp : List Event :=
  [pressed 97 1000, pressed 261 1100, pressed 261 1200, pressed 261 1300, pressed 261 1400]

/-- **With an address in focus the countdown does not start.** -/
theorem countdown_ended :
    (runEvents plainPlatform .new (.render 900 (some (ascii "10.0.0.2")) :: selectHttp)).map
        (fun s => (s.showDashboard, isWeb (selected s))) = .ok (true, true) ∧
      (runEvents plainPlatform .new
        (.render 900 (some (ascii "10.0.0.2")) :: selectHttp ++ [pressed 10 1500])).map
        (fun s => (s.filterProto, s.countdownActive)) = .ok (ascii "HTTP", false) := by
  constructor
  · decide +kernel
  · decide +kernel

/-- HTTP is selected, and no address is known. -/
def httpSelected : GlobalState :=
  { GlobalState.new with
    showDashboard := true
    inspectProtoIdx := 4
    lastDashboardKeyMs := 1400 }

/-- Without an address it does. -/
theorem countdown_starts :
    ∃ state' response,
      onKey plainPlatform 1500 1500 true ⟨some 10, false⟩ httpSelected = .ok (state', response) ∧
        Starts plainPlatform 1500 httpSelected state' := by
  have hrun : runEvents plainPlatform .new selectHttp = .ok httpSelected := by decide +kernel
  have hreach : Reachable (Step plainPlatform) .new httpSelected := reachable_runEvents .refl hrun
  obtain ⟨state', response, hkey, hiff⟩ := countdown_iff hreach rfl (Or.inr (Or.inl rfl))
    (show 100 ≤ (1500 : UInt64).toNat - (1400 : UInt64).toNat by decide) 1500 true false
  exact ⟨state', response, hkey, hiff.mpr fun _ => ⟨rfl, rfl⟩⟩

end Nsr.Sniffer
