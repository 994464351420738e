import Nsr.Plugin.Server
import Nsr.Plugin.Announce

/-!
# What the host says to a plugin

The messages that `src/plugin/plugin.c` writes to a plugin, from `init` in `plugin_spawn` to
`cleanup` in `plugin_stop`, each with the line it is written as and the text that this line spells.

* `HostCall`, `HostCall.line`: a message, and its line as the source builds it.
* `HostCall.message`, `HostCall.line_eq`: its method, parameters and number.
* `converse`: a plugin that is given a list of such messages on its standard input.
-/

namespace Nsr

open Ascii

/-- The parameters of `init`, as `plugin_spawn` builds them. -/
def initParams (configPath pluginDir : CStr) : Bytes :=
  let params := JsonBuf.init.objStart
  let params := (params.key (cs "config_path")).string (some configPath)
  let params := (params.key (cs "plugin_dir")).string (some pluginDir)
  params.objEnd.bytes

/-- **A message to a plugin.** -/
inductive HostCall where
  | init (configPath pluginDir : CStr) (id : ℤ)
  | updateTelemetry (tel : TelemetryState) (topo : Option Topology)
  | render (view : RenderView) (panel : ℤ × ℤ) (id : ℤ)
  | renderHops (hops : List HopInfo) (id : ℤ)
  | onKey (ev : KeyEvent) (id : ℤ)
  | cleanup

/-- **The line of a message**, without its line feed. -/
def HostCall.line (loss : ℕ → ℕ → Bytes) : HostCall → Bytes
  | .init configPath pluginDir id => buildRequest (cs "init") (initParams configPath pluginDir) id
  | .updateTelemetry tel topo =>
    buildNotification (cs "update_telemetry") (telemetryParams loss tel topo)
  | .render view panel id => buildRequest (Method.name .render) (Host.renderParams view panel) id
  | .renderHops hops id => hopsRequest loss hops id
  | .onKey ev id => buildRequest (Method.name .onKey) (Host.buildKeyParams ev) id
  | .cleanup => buildNotification (cs "cleanup") []

/-- The number of a message, where it is a request. -/
def HostCall.id : HostCall → Option ℤ
  | .init _ _ id => some id
  | .updateTelemetry _ _ => none
  | .render _ _ id => some id
  | .renderHops _ id => some id
  | .onKey _ id => some id
  | .cleanup => none

/-- The method of a message. -/
def HostCall.method : HostCall → CStr
  | .init _ _ _ => cs "init"
  | .updateTelemetry _ _ => cs "update_telemetry"
  | .render _ _ _ => cs "render"
  | .renderHops _ _ => cs "render_hops"
  | .onKey _ _ => cs "on_key"
  | .cleanup => cs "cleanup"

/-! ## Their texts -/

section Texts

variable (loss : ℕ → ℕ → Number)

/-- The parameters of `render`. -/
def renderText (view : RenderView) (panel : ℤ × ℤ) : Text :=
  .object [(cs "mode", .string view.mode.name), (cs "width", .int (Int64.ofInt panel.1)),
    (cs "height", .int (Int64.ofInt panel.2)),
    (cs "focused_node_id", .int (Int64.ofInt view.focusedNodeId.toNat)),
    (cs "focused_addr", .string view.focusedAddr)]

/-- The reports of a list of hops, from index one on. -/
def listReports (hops : List HopInfo) : List Report :=
  (hops.take maxHops).zipIdx.tail.flatMap fun h =>
    if count32 h.1.sent = 0 then [] else [.ofHop loss h.2 h.1]

/-- The parameters of `render_hops`. -/
def hopsText (hops : List HopInfo) : Text :=
  .object [(cs "hops", .array ((listReports loss hops).map Report.text))]

/-- The method, the parameters and the number of a message. -/
def HostCall.message (c : HostCall) : HostMessage where
  method := c.method
  params := match c with
    | .init configPath pluginDir _ =>
      .object [(cs "config_path", .string configPath), (cs "plugin_dir", .string pluginDir)]
    | .updateTelemetry tel topo => telemetryText loss tel topo
    | .render view panel _ => renderText view panel
    | .renderHops hops _ => hopsText loss hops
    | .onKey ev _ => (keyTree ev).text
    | .cleanup => .object []
  id := c.id

end Texts

/-- **A message whose addresses are texts**, and whose number is an `int`. -/
structure HostCall.Sound (c : HostCall) : Prop where
  id : ∀ id ∈ c.id, InRange id
  telemetry : ∀ tel topo, c = .updateTelemetry tel topo → Readable tel topo
  hops : ∀ hops id, c = .renderHops hops id → ∀ h ∈ hops, PlainAddr h.addr
  focus : ∀ view panel id, c = .render view panel id → view.focusedAddr.bytes.length ≤ 47 ∧
    ∀ b ∈ view.focusedAddr.bytes, 0x20 ≤ b

theorem initParams_eq (configPath pluginDir : CStr) :
    initParams configPath pluginDir = (Text.object [(cs "config_path", .string configPath),
      (cs "plugin_dir", .string pluginDir)]).bytes :=
  (writes_pair (cs "config_path") (cs "plugin_dir") (.string configPath) (.string pluginDir)).init

theorem renderParams_eq (view : RenderView) (panel : ℤ × ℤ) :
    Host.renderParams view panel = (renderText view panel).bytes := by
  have hmembers := ((((WritesAll.member (cs "mode") (.string view.mode.name)).append
    (.member (cs "width") (.int (Int64.ofInt panel.1)))).append
    (.member (cs "height") (.int (Int64.ofInt panel.2)))).append
    (.member (cs "focused_node_id") (.int (Int64.ofInt view.focusedNodeId.toNat)))).append
    (.member (cs "focused_addr") (.string view.focusedAddr))
  have hobj := (Writes.obj [(cs "mode", .string view.mode.name),
    (cs "width", .int (Int64.ofInt panel.1)), (cs "height", .int (Int64.ofInt panel.2)),
    (cs "focused_node_id", .int (Int64.ofInt view.focusedNodeId.toNat)),
    (cs "focused_addr", .string view.focusedAddr)] hmembers).init
  exact hobj

theorem hopsParams_eq (loss : ℕ → ℕ → Number) (hops : List HopInfo) :
    hopsParams (fun s r => (loss s r).bytes) hops = (hopsText loss hops).bytes := by
  have hloop : WritesAll (fun params => (hops.take maxHops).zipIdx.tail.foldl
      (fun params h => hopParams (fun s r => (loss s r).bytes) params h.2 h.1) params)
      ((listReports loss hops).map fun r => r.text.bytes) := by
    rw [listReports, List.map_flatMap]
    refine WritesAll.foldl fun h _ => ?_
    rw [apply_ite (List.map fun r : Report => r.text.bytes)]
    exact writes_hop h.2 h.1
  rw [← Function.comp_def Text.bytes Report.text, ← List.map_map] at hloop
  have hobj := (Writes.obj [(cs "hops", .array ((listReports loss hops).map Report.text))]
    (WritesAll.member (cs "hops") (.arr hloop))).init
  exact hobj

/-- Without parameters, `{}` is sent. -/
theorem buildNotification_nil (method : CStr) :
    buildNotification method [] = buildNotification method (Text.object []).bytes := by
  have hkey := sep_key ((((JsonBuf.init.objStart.key (cs "jsonrpc")).string (some (cs "2.0"))).key
    (cs "method")).string (some method)) (cs "params")
  rw [buildNotification, buildNotification, if_neg (by simp), if_pos (by decide)]
  simp only [JsonBuf.objEnd, JsonBuf.appendChar_bytes, JsonBuf.appendRaw_bytes]
  rw [JsonBuf.objStart, JsonBuf.appendChar_bytes, JsonBuf.separate_bytes, hkey, Text.object_bytes]
  simp

namespace HostCall

variable {loss : ℕ → ℕ → Number}

/-- **The line of a message spells its method, its parameters and its number.** -/
theorem line_eq {c : HostCall} (h : c.Sound) :
    c.line (fun s r => (loss s r).bytes) = (c.message loss).line := by
  cases c with
  | init configPath pluginDir id => exact congrArg (buildRequest _ · id) (initParams_eq _ _)
  | updateTelemetry tel topo =>
    exact congrArg (buildNotification _) (telemetryParams_eq (h.telemetry tel topo rfl))
  | render view panel id => exact congrArg (buildRequest _ · id) (renderParams_eq view panel)
  | renderHops hops id => exact congrArg (buildRequest _ · id) (hopsParams_eq loss hops)
  | onKey ev id =>
    exact congrArg (buildRequest _ · id) ((buildKeyParams_eq ev).trans (bytes_text _).symm)
  | cleanup => exact buildNotification_nil (cs "cleanup")

theorem oneLine_reports (rs : List Report) : (Text.array (rs.map Report.text)).OneLine := by
  refine Text.oneLine_array fun t ht => ?_
  obtain ⟨r, -, rfl⟩ := List.mem_map.mp ht
  refine Text.oneLine_object fun m hm => ?_
  simp only [Report.members, List.mem_cons, List.not_mem_nil, or_false] at hm
  rcases hm with rfl | rfl | rfl | rfl | rfl | rfl | rfl
  · exact Text.oneLine_int _
  · exact Text.oneLine_string _
  · exact Text.oneLine_int _
  · exact Text.oneLine_int _
  · exact Text.oneLine_int _
  · exact Text.oneLine_number _
  · exact Text.oneLine_string _

theorem oneLine_params (c : HostCall) : (c.message loss).params.OneLine := by
  cases c with
  | init configPath pluginDir id =>
    exact oneLine_pair _ _ (Text.oneLine_string _) (Text.oneLine_string _)
  | updateTelemetry tel topo =>
    refine Text.oneLine_object fun m hm => ?_
    simp only [List.mem_cons, List.not_mem_nil, or_false] at hm
    rcases hm with rfl | rfl | rfl | rfl
    · exact Text.oneLine_string _
    · exact Text.oneLine_string _
    · exact Text.oneLine_int _
    · exact oneLine_reports _
  | render view panel id =>
    refine Text.oneLine_object fun m hm => ?_
    simp only [List.mem_cons, List.not_mem_nil, or_false] at hm
    rcases hm with rfl | rfl | rfl | rfl | rfl
    · exact Text.oneLine_string _
    · exact Text.oneLine_int _
    · exact Text.oneLine_int _
    · exact Text.oneLine_int _
    · exact Text.oneLine_string _
  | renderHops hops id =>
    refine Text.oneLine_object fun m hm => ?_
    obtain rfl := List.mem_singleton.mp hm
    exact oneLine_reports _
  | onKey ev id =>
    change Printable (keyTree ev).text.bytes
    rw [bytes_text]
    exact printable_render _
  | cleanup => exact Text.oneLine_object (by simp)

theorem method_mem (c : HostCall) :
    c.method ∈ ["init", "update_telemetry", "render", "render_hops", "on_key", "cleanup"].map cs := by
  cases c <;> simp [method]

/-- The names of the methods are short and plain. -/
theorem sendable {c : HostCall} (h : c.Sound) : (c.message loss).Sendable := by
  have hshort : ∀ m ∈ ["init", "update_telemetry", "render", "render_hops", "on_key",
      "cleanup"].map cs, m.bytes.length ≤ 63 := by decide
  have hplain : Printable c.method.bytes := by
    cases c <;> exact Text.printable_of_all rfl
  exact ⟨hshort _ c.method_mem, hplain, c.oneLine_params, h.id⟩

end HostCall

namespace HostCall.Sound

/-- `init` names no address. -/
theorem init {configPath pluginDir : CStr} {id : ℤ} (h : InRange id) :
    (HostCall.init configPath pluginDir id).Sound :=
  ⟨fun _ hid => Option.some_inj.mp hid ▸ h, fun _ _ h => (by cases h), fun _ _ h => (by cases h),
    fun _ _ _ h => (by cases h)⟩

/-- An update about one hop. -/
theorem update {addr : Bytes} (h : PlainAddr addr) :
    (HostCall.updateTelemetry (oneProbed addr) none).Sound := by
  refine ⟨fun _ h => (by cases h), fun tel topo heq => ?_, fun _ _ h => (by cases h),
    fun _ _ _ h => (by cases h)⟩
  obtain ⟨rfl, rfl⟩ := HostCall.updateTelemetry.inj heq
  exact ⟨plainAddr_oneProbed h, by simp⟩

/-- A request about hops. -/
theorem renderHops {hops : List HopInfo} {id : ℤ} (hid : InRange id)
    (h : ∀ hop ∈ hops, PlainAddr hop.addr) : (HostCall.renderHops hops id).Sound := by
  refine ⟨fun id' h => ?_, fun _ _ h => (by cases h), fun hops' id' heq => ?_,
    fun _ _ _ h => (by cases h)⟩
  · exact Option.some_inj.mp h ▸ hid
  · obtain ⟨rfl, rfl⟩ := HostCall.renderHops.inj heq
    exact h

/-- A request to render. -/
theorem render {view : RenderView} {panel : ℤ × ℤ} {id : ℤ} (hid : InRange id)
    (h : view.focusedAddr.bytes.length ≤ 47 ∧ ∀ b ∈ view.focusedAddr.bytes, 0x20 ≤ b) :
    (HostCall.render view panel id).Sound := by
  refine ⟨fun id' h => ?_, fun _ _ h => (by cases h), fun _ _ h => (by cases h),
    fun view' panel' id' heq => ?_⟩
  · exact Option.some_inj.mp h ▸ hid
  · obtain ⟨rfl, rfl, rfl⟩ := HostCall.render.inj heq
    exact h

end HostCall.Sound

section Converse

variable {ε σ : Type} (dispatch : ε → PluginCall → σ → Option Bytes × σ)

/-- What the host writes to a plugin, one message a line. -/
def hostStream (loss : ℕ → ℕ → Bytes) (calls : List HostCall) : Bytes :=
  Lines.unlines 0x0a (calls.map (HostCall.line loss))

/-- **A conversation**: the lines that the plugin answers with, and its state at the end. -/
def converse (loss : ℕ → ℕ → Bytes) (env : ℕ → ε) (calls : List HostCall) (st : σ) :
    List Bytes × σ :=
  serve dispatch env (getlines (hostStream loss calls)) st

variable {dispatch}

/-- **What a plugin does with a conversation** is what it does with each message. -/
theorem converse_eq {loss : ℕ → ℕ → Number} {act : ε → HostCall → σ → Option Bytes × σ}
    (h : ∀ (c : HostCall) (params : Bytes), c.Sound → Starts params (c.message loss).params →
      ∀ env st, dispatch env ⟨c.method.bytes, params, c.id⟩ st = act env c st)
    (env : ℕ → ε) {calls : List HostCall} (hcalls : ∀ c ∈ calls, c.Sound) (st : σ) :
    converse dispatch (fun s r => (loss s r).bytes) env calls st =
      Service.run act env calls st := by
  have hlines : calls.map (HostCall.line fun s r => (loss s r).bytes) =
      calls.map fun c => (c.message loss).line :=
    List.map_congr_left fun c hc => HostCall.line_eq (hcalls c hc)
  rw [converse, hostStream, hlines]
  exact serve_hostLines (fun c hc => HostCall.sendable (hcalls c hc))
    (fun c hc params hparams => h c params (hcalls c hc) hparams) env st

end Converse

end Nsr
