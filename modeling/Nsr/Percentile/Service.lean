import Nsr.Percentile.Store
import Nsr.Plugin.Drawing

/-!
# The percentile plugin as the host sees it

`main` of `plugins/percentile/percentile.c` and the functions that write its answer to `render`:
`emit_title`, `emit_stats_line`, `emit_window_stats` and `handle_render`.

The text of a time, `%6.2f` of the microseconds over a thousand, is the decimal numeral of the
hundredths that `printf` rounds it to; these are a parameter.

* `Percentile.dispatch`: the calls that the plugin answers.
* `Percentile.board`: the lines that it shows, from what it has stored.
* `Percentile.act`: what it is for: each update adds samples, each `render` shows the board.
* `percentile_conversation`: behind the pipe, the lines and the screen, that is what it does.
-/

namespace Nsr

open Ascii

section Service

-- the hundredths of a millisecond that `%.2f` rounds a number of microseconds to
variable (hundredths : UInt64 → ℕ)

/-! ## The text of a line -/

/-- `%6.2f` of a number of microseconds over a thousand. -/
def msText (us : UInt64) : Bytes :=
  let n := hundredths us
  let text := decimal (n / 100) ++ [0x2e, digitByte (n / 10 % 10), digitByte (n % 10)]
  List.replicate (6 - text.length) 0x20 ++ text

/-- `%-5s`. -/
def padLabel (label : CStr) : Bytes :=
  label.bytes ++ List.replicate (5 - label.bytes.length) 0x20

/-- `buf` of `emit_stats_line`. -/
def statsText (label : CStr) (s : PctlStats) : Bytes :=
  let times :=
    if s.valid then
      msText hundredths s.minUs ++ ascii "/" ++ msText hundredths s.avgUs ++ ascii "/" ++
        msText hundredths s.maxUs
    else ascii "   N/A/   N/A/   N/A"
  (padLabel label ++ ascii " min/avg/max  " ++ times ++ ascii " ms").take 79

/-! ## Answers -/

/-- `emit_title`, for a line of its own. -/
def emitTitle (jb : JsonBuf) (title : CStr) (lineY startX : ℤ) : JsonBuf :=
  let jb := jb.objStart
  let jb := (jb.key (cs "y")).int (Int64.ofInt lineY)
  let jb := (jb.key (cs "x")).int (Int64.ofInt startX)
  let jb := (jb.key (cs "text")).string (some title)
  let jb := (jb.key (cs "color")).string (some (cs "cyan"))
  jb.objEnd

/-- `emit_stats_line`. -/
def emitStatsLine (jb : JsonBuf) (label : CStr) (s : PctlStats) (lineY startX : ℤ) : JsonBuf :=
  let jb := jb.objStart
  let jb := (jb.key (cs "y")).int (Int64.ofInt lineY)
  let jb := (jb.key (cs "x")).int (Int64.ofInt startX)
  let jb := (jb.key (cs "text")).string (some (.ofField (statsText hundredths label s)))
  jb.objEnd

/-- The labels of `WINDOWS`. -/
def pctlLabels : List CStr := [cs "1min", cs "5min", cs "15min", cs "1hr"]

/-- What `emit_window_stats` computes for each of `WINDOWS`, under its label. -/
def windowStats (stats : ℕ → PctlWindow → PctlStats) : List (CStr × PctlStats) :=
  (pctlWindows.zip pctlLabels).zipIdx.map fun w => (w.1.2, stats w.2 w.1.1)

/-- **`emit_window_stats`**: the buffer, and `line_y` behind it. -/
def emitWindowStats (jb : JsonBuf) (title : CStr) (lineY startX : ℤ)
    (stats : ℕ → PctlWindow → PctlStats) : JsonBuf × ℤ :=
  (windowStats stats).foldl
    (fun r w => (emitStatsLine hundredths r.1 w.1 w.2 r.2 startX, r.2 + 1))
    (emitTitle jb title lineY startX, lineY + 1)

/-- **`handle_render`**; `clock i` is what `now_ms` says for window `i`. -/
def handleRender (clock : ℕ → UInt64) (st : Percentile) (params : Bytes) (id : ℤ) : Bytes :=
  let focusAddr := Host.strMember params (cs "focused_addr") 64
  let resp := ((responseHead id).key (cs "result")).objStart
  let resp := (resp.key (cs "lines")).arrStart
  let r := emitWindowStats hundredths resp (cs "RTT Statistics (Global)") 1 1 fun _ w =>
    computeWindowStats st.buckets w.buckets
  let r :=
    if peek focusAddr ≠ 0 then
      emitWindowStats hundredths r.1 (cs "RTT Statistics (Focused)") (r.2 + 1) 1 fun i w =>
        computeWindowStatsForAddr st.samples (cstr focusAddr) w.windowMs (clock i)
    else r
  r.1.arrEnd.objEnd.objEnd.line

/-- The description that `handle_init` gives. -/
def pctlDescription : CStr := cs "Show RTT min/avg/max for 1m/5m/15m/1h windows"

/-- **What `main` does with a call.** -/
def Percentile.dispatch (clock : ℕ → UInt64) (call : PluginCall) (st : Percentile) :
    Option Bytes × Percentile :=
  if call.method = ascii "init" then (call.id.map (handleInit pctlDescription), st)
  else if call.method = ascii "update_telemetry" then
    (none, handleUpdateTelemetry (clock 0) call.params st)
  else if call.method = ascii "render" then
    (call.id.map (handleRender hundredths clock st call.params), st)
  else if call.method = ascii "cleanup" then (none, st)
  else (call.id.map fun id => sendError id (cs "Method not found"), st)

/-! ## The board -/

/-- The lines of the windows, from a row on. -/
def windowLines (y : ℤ) : List (CStr × PctlStats) → List PanelLine
  | [] => []
  | w :: ws =>
    ⟨Int64.ofInt y, 1, .ofField (statsText hundredths w.1 w.2), none⟩ :: windowLines (y + 1) ws

/-- A table: its title, and a line for each window. -/
def tableLines (title : CStr) (y : ℤ) (stats : ℕ → PctlWindow → PctlStats) : List PanelLine :=
  ⟨Int64.ofInt y, 1, title, some (cs "cyan")⟩ ::
    windowLines hundredths (y + 1) (windowStats stats)

/-- **The lines that the plugin shows** for a focused address, which may be empty. -/
def Percentile.board (clock : ℕ → UInt64) (st : Percentile) (focus : Bytes) : List PanelLine :=
  tableLines hundredths (cs "RTT Statistics (Global)") 1
      (fun _ w => computeWindowStats st.buckets w.buckets) ++
    if focus = [] then []
    else tableLines hundredths (cs "RTT Statistics (Focused)") 7 fun i w =>
      computeWindowStatsForAddr st.samples focus w.windowMs (clock i)

/-! ## What is written -/

variable {hundredths}

theorem writes_title (title : CStr) (y x : ℤ) :
    WritesAll (fun jb => emitTitle jb title y x)
      [(PanelLine.toText ⟨Int64.ofInt y, Int64.ofInt x, title, some (cs "cyan")⟩).bytes] := by
  have hmembers := (((WritesAll.member (cs "y") (.int (Int64.ofInt y))).append
    (.member (cs "x") (.int (Int64.ofInt x)))).append
    (.member (cs "text") (.string title))).append
    (.member (cs "color") (.string (cs "cyan")))
  have hobj := Writes.obj (PanelLine.members
    ⟨Int64.ofInt y, Int64.ofInt x, title, some (cs "cyan")⟩) hmembers
  exact .elem hobj

theorem writes_statsLine (label : CStr) (s : PctlStats) (y x : ℤ) :
    WritesAll (fun jb => emitStatsLine hundredths jb label s y x)
      [(PanelLine.toText ⟨Int64.ofInt y, Int64.ofInt x, .ofField (statsText hundredths label s),
        none⟩).bytes] := by
  have hmembers := ((WritesAll.member (cs "y") (.int (Int64.ofInt y))).append
    (.member (cs "x") (.int (Int64.ofInt x)))).append
    (.member (cs "text") (.string (.ofField (statsText hundredths label s))))
  have hobj := Writes.obj (PanelLine.members
    ⟨Int64.ofInt y, Int64.ofInt x, .ofField (statsText hundredths label s), none⟩) hmembers
  exact .elem hobj

/-- The loop over the windows: a line for each, on consecutive rows. -/
theorem writes_windows (ws : List (CStr × PctlStats)) (y : ℤ) :
    WritesAll (fun jb => (ws.foldl
        (fun r w => (emitStatsLine hundredths r.1 w.1 w.2 r.2 1, r.2 + 1)) (jb, y)).1)
      ((windowLines hundredths y ws).map fun l => l.toText.bytes) := by
  induction ws generalizing y with
  | nil => exact .nil
  | cons w ws ih => exact (writes_statsLine w.1 w.2 y 1).append (ih (y + 1))

theorem foldl_row (ws : List (CStr × PctlStats)) (jb : JsonBuf) (y : ℤ) :
    (ws.foldl (fun r w => (emitStatsLine hundredths r.1 w.1 w.2 r.2 1, r.2 + 1)) (jb, y)).2 =
      y + ws.length := by
  induction ws generalizing jb y with
  | nil => simp
  | cons w ws ih =>
    rw [List.foldl_cons, ih, List.length_cons]
    push_cast
    omega

variable (hundredths) in
/-- `emit_window_stats` writes a table. -/
theorem writes_table (title : CStr) (y : ℤ) (stats : ℕ → PctlWindow → PctlStats) :
    WritesAll (fun jb => (emitWindowStats hundredths jb title y 1 stats).1)
      ((tableLines hundredths title y stats).map fun l => l.toText.bytes) :=
  (writes_title title y 1).append (writes_windows (windowStats stats) (y + 1))

/-- `line_y` behind the first table. -/
theorem emitWindowStats_row (jb : JsonBuf) (title : CStr) (stats : ℕ → PctlWindow → PctlStats) :
    (emitWindowStats hundredths jb title 1 1 stats).2 = 6 := by
  rw [emitWindowStats, foldl_row]
  rfl

/-- The text of a board. -/
def boardText (lines : List PanelLine) : Text :=
  .object [(cs "lines", .array (lines.map PanelLine.toText))]

variable (hundredths) in
/-- What is written between the brackets of `lines`. -/
theorem writes_board (clock : ℕ → UInt64) (st : Percentile) (focus : Bytes) :
    WritesAll (fun jb =>
        let r := emitWindowStats hundredths jb (cs "RTT Statistics (Global)") 1 1 fun _ w =>
          computeWindowStats st.buckets w.buckets
        if focus = [] then r.1
        else (emitWindowStats hundredths r.1 (cs "RTT Statistics (Focused)") (r.2 + 1) 1 fun i w =>
          computeWindowStatsForAddr st.samples focus w.windowMs (clock i)).1)
      (((st.board hundredths clock focus).map PanelLine.toText).map Text.bytes) := by
  have hglobal := writes_table hundredths (cs "RTT Statistics (Global)") 1
    fun _ w => computeWindowStats st.buckets w.buckets
  rw [List.map_map, Percentile.board, List.map_append]
  by_cases hfocus : focus = []
  · simp only [if_pos hfocus, List.map_nil, List.append_nil]
    exact hglobal
  · have hfocused := writes_table hundredths (cs "RTT Statistics (Focused)") 7
      fun i w => computeWindowStatsForAddr st.samples focus w.windowMs (clock i)
    simp only [if_neg hfocus, emitWindowStats_row]
    exact hglobal.append hfocused

theorem oneLine_board (lines : List PanelLine) : (boardText lines).OneLine := by
  refine Text.oneLine_object fun m hm => ?_
  obtain rfl := List.mem_singleton.mp hm
  refine Text.oneLine_array fun t ht => ?_
  obtain ⟨l, -, rfl⟩ := List.mem_map.mp ht
  exact l.oneLine

theorem peek_eq_zero_iff (bs : Bytes) : peek bs = 0 ↔ cstr bs = [] := by
  cases bs with
  | nil => exact iff_of_true rfl rfl
  | cons c bs =>
    rw [peek_cons, cstr, List.takeWhile_cons]
    by_cases h : c = 0 <;> simp [h]

variable (hundredths) in
/-- **`handle_render` answers with the board.** -/
theorem handleRender_eq (clock : ℕ → UInt64) (st : Percentile) (params : Bytes) (id : ℤ) :
    handleRender hundredths clock st params id =
      (answerText id (cs "result", boardText (st.board hundredths clock
        (cstr (Host.strMember params (cs "focused_addr") 64))))).bytes := by
  set focusAddr := Host.strMember params (cs "focused_addr") 64 with hfocus
  have hall := writes_board hundredths clock st (cstr focusAddr)
  have hresult := Writes.obj [(cs "lines", .array _)]
    (WritesAll.member (cs "lines") (Writes.arr hall))
  have hline := line_answer id (cs "result") hresult (oneLine_board _)
  rw [boardText, ← hline, handleRender, ← hfocus]
  by_cases hempty : cstr focusAddr = []
  · simp only [if_pos hempty, if_neg (not_not.mpr ((peek_eq_zero_iff focusAddr).mpr hempty))]
  · simp only [if_neg hempty, if_pos (mt (peek_eq_zero_iff focusAddr).mp hempty)]

/-! ## What is seen -/

theorem printable_blanks (n : ℕ) : Printable (List.replicate n 0x20) := by
  intro c hc
  rw [List.eq_of_mem_replicate hc]
  decide

theorem printable_msText (us : UInt64) : Printable (msText hundredths us) := by
  have hdigit : ∀ d < 10, 0x20 ≤ digitByte d := by decide
  refine printable_append (printable_blanks _)
    (printable_append (printable_decimal _) fun c hc => ?_)
  simp only [List.mem_cons, List.not_mem_nil, or_false] at hc
  rcases hc with rfl | rfl | rfl
  · decide
  · exact hdigit _ (Nat.mod_lt _ (by omega))
  · exact hdigit _ (Nat.mod_lt _ (by omega))

variable (hundredths) in
theorem printable_statsText {label : CStr} (h : Printable label.bytes) (s : PctlStats) :
    Printable (statsText hundredths label s) := by
  have hpad : Printable (padLabel label) := printable_append h (printable_blanks _)
  have htimes : Printable (if s.valid then
      msText hundredths s.minUs ++ ascii "/" ++ msText hundredths s.avgUs ++ ascii "/" ++
        msText hundredths s.maxUs else ascii "   N/A/   N/A/   N/A") := by
    split
    · have hslash : Printable (ascii "/") := Text.printable_of_all rfl
      exact printable_append (printable_append (printable_append (printable_append
        (printable_msText _) hslash) (printable_msText _)) hslash) (printable_msText _)
    · exact Text.printable_of_all rfl
  intro c hc
  exact printable_append (printable_append (printable_append hpad (Text.printable_of_all rfl))
    htimes) (Text.printable_of_all rfl) c (List.mem_of_mem_take hc)

theorem statsText_ne_nil (label : CStr) (s : PctlStats) : statsText hundredths label s ≠ [] := by
  have hlen : 0 < (padLabel label).length := by
    rw [padLabel, List.length_append, List.length_replicate]
    omega
  refine List.ne_nil_of_length_pos ?_
  rw [statsText, List.length_take, List.length_append, List.length_append, List.length_append]
  omega

theorem column_range : 0 ≤ (1 : Int64).toInt ∧ (1 : Int64).toInt < 2 ^ 31 := by decide

/-- A row near the top of the screen. -/
theorem row_range {y : ℤ} (h0 : 0 ≤ y) (h : y < 2 ^ 31) :
    (Int64.ofInt y).toInt = y :=
  Int64.toInt_ofInt_of_le (by omega) (by omega)

theorem visible_windowLines {ws : List (CStr × PctlStats)} {y : ℤ} (h0 : 0 ≤ y)
    (h : y + ws.length < 2 ^ 31) (hlabels : ∀ w ∈ ws, Printable w.1.bytes) :
    ∀ l ∈ windowLines hundredths y ws, l.Visible := by
  induction ws generalizing y with
  | nil => intro l hl; cases hl
  | cons w ws ih =>
    rw [List.length_cons] at h
    push_cast at h
    intro l hl
    rcases List.mem_cons.mp hl with rfl | hl
    · have hplain := printable_statsText hundredths (hlabels w List.mem_cons_self)
        w.2
      have htext : (CStr.ofField (statsText hundredths w.1 w.2)).bytes =
          statsText hundredths w.1 w.2 := cstr_of_printable hplain
      have hy := row_range h0 (by omega)
      refine ⟨by rw [hy]; omega, column_range, ?_, by simp⟩
      rw [htext]
      refine ⟨statsText_ne_nil _ _, ?_, hplain⟩
      rw [statsText, List.length_take]
      omega
    · exact ih (by omega) (by omega) (fun w' hw' => hlabels w' (List.mem_cons_of_mem w hw')) l hl

theorem visible_table {title : CStr} {y : ℤ} (h0 : 0 ≤ y) (h : y < 1000)
    (htitle : title.bytes ≠ [] ∧ title.bytes.length ≤ 127 ∧ Printable title.bytes)
    (stats : ℕ → PctlWindow → PctlStats) :
    ∀ l ∈ tableLines hundredths title y stats, l.Visible := by
  intro l hl
  rcases List.mem_cons.mp hl with rfl | hl
  · have hy := row_range h0 (by omega)
    exact ⟨by rw [hy]; omega, column_range, htitle, by
      intro c hc
      obtain rfl := Option.some_inj.mp hc
      exact ⟨by decide, Text.printable_of_all rfl⟩⟩
  · have hlabels : ∀ w ∈ windowStats stats, Printable w.1.bytes := by
      intro w hw
      obtain ⟨v, hv, rfl⟩ := List.mem_map.mp hw
      have hlabel : v.1.2 ∈ pctlLabels := (List.of_mem_zip (List.fst_mem_of_mem_zipIdx hv)).2
      have hall : pctlLabels.all (fun c => c.bytes.all fun b => 0x20 ≤ b) = true := rfl
      exact Text.printable_of_all (List.all_eq_true.mp hall _ hlabel)
    refine visible_windowLines (by omega) ?_ hlabels l hl
    rw [windowStats, List.length_map, List.length_zipIdx]
    simp only [pctlWindows, pctlLabels, List.length_zip, List.length_cons, List.length_nil]
    omega

/-- Every line of a board can be seen. -/
theorem visible_board (clock : ℕ → UInt64) (st : Percentile) (focus : Bytes) :
    ∀ l ∈ st.board hundredths clock focus, l.Visible := by
  intro l hl
  rcases List.mem_append.mp hl with hl | hl
  · exact visible_table (by omega) (by omega)
      ⟨by decide, by decide, Text.printable_of_all rfl⟩ _ l hl
  · split at hl
    · cases hl
    · exact visible_table (by omega) (by omega)
        ⟨by decide, by decide, Text.printable_of_all rfl⟩ _ l hl

/-! ## The service -/

variable (hundredths)

/-- The hop of a report. -/
def Report.pctlHop (r : Report) : PctlHop :=
  ⟨r.addr.bytes, r.rttUs.toInt, r.recv.toInt⟩

/-- **What the plugin is for**: an update adds samples, `render` shows the board; the other requests
are answered with nothing to show. -/
def Percentile.act (loss : ℕ → ℕ → Number) (clock : ℕ → UInt64) (c : HostCall) (st : Percentile) :
    Option (ℤ × List PanelLine) × Percentile :=
  match c with
  | .init _ _ id => (some (id, []), st)
  | .updateTelemetry tel topo =>
    (none, (reports loss tel topo).foldl (fun st r => st.addHop (clock 0) r.pctlHop) st)
  | .render view _ id => (some (id, st.board hundredths clock view.focusedAddr.bytes), st)
  | .renderHops _ id => (some (id, []), st)
  | .onKey _ id => (some (id, []), st)
  | .cleanup => (none, st)

/-- What the plugin writes for a message. -/
def Percentile.reply (loss : ℕ → ℕ → Number) (clock : ℕ → UInt64) (c : HostCall)
    (st : Percentile) : Option Bytes × Percentile :=
  match c with
  | .init _ _ id => (some (handleInit pctlDescription id), st)
  | .updateTelemetry tel topo =>
    (none, (reports loss tel topo).foldl (fun st r => st.addHop (clock 0) r.pctlHop) st)
  | .render view _ id =>
    (some (answerText id (cs "result",
      boardText (st.board hundredths clock view.focusedAddr.bytes))).bytes, st)
  | .renderHops _ id => (some (sendError id (cs "Method not found")), st)
  | .onKey _ id => (some (sendError id (cs "Method not found")), st)
  | .cleanup => (none, st)

variable {hundredths} {loss : ℕ → ℕ → Number}

/-- The hops of an update are read as they were reported. -/
theorem pctlHops_starts {tel : TelemetryState} {topo : Option Topology} (h : Readable tel topo)
    {params : Bytes} (hp : Starts params (telemetryText loss tel topo)) :
    pctlHops params = (reports loss tel topo).map Report.pctlHop := by
  obtain ⟨hops, len, hget, hread⟩ := read_reports (f := pctlHop) (g := Report.pctlHop) hp rfl (by
    intro r hr e he
    obtain ⟨v, flen, hgeta, hparse⟩ := report_addr he (plain_reports h r hr)
    have hrtt := intMember_starts (k := cs "rtt_us") (i := r.rttUs) (plainName (by simp)) he rfl 0
    have hrecv := intMember_starts (k := cs "recv") (i := r.recv) (plainName (by simp)) he rfl 0
    rw [pctlHop, hgeta]
    dsimp only
    rw [hparse]
    exact congrArg₂ (PctlHop.mk r.addr.bytes) hrtt hrecv)
  rw [pctlHops, hget]
  exact hread

/-- The plugin answers a message of the host as it should. -/
theorem Percentile.dispatch_eq {c : HostCall} (hc : c.Sound) {params : Bytes}
    (hp : Starts params (c.message loss).params) (clock : ℕ → UInt64) (st : Percentile) :
    Percentile.dispatch hundredths clock ⟨c.method.bytes, params, c.id⟩ st =
      Percentile.reply hundredths loss clock c st := by
  cases c with
  | init configPath pluginDir id => rfl
  | updateTelemetry tel topo =>
    have hhops := pctlHops_starts (hc.telemetry tel topo rfl) hp
    change (none, handleUpdateTelemetry (clock 0) params st) = _
    rw [handleUpdateTelemetry, hhops, List.foldl_map]
    rfl
  | render view panel id =>
    obtain ⟨hlen, hplain⟩ := hc.focus view panel id rfl
    have hfocus := strMember_starts (k := cs "focused_addr") (s := view.focusedAddr) (n := 64)
      (plainName (by simp)) hp rfl (hlen.trans_lt (by decide)) hplain
    change (some (handleRender hundredths clock st params id), st) = _
    rw [handleRender_eq, hfocus, cstr_of_printable hplain]
    rfl
  | renderHops hops id => rfl
  | onKey ev id => rfl
  | cleanup => rfl

/-- A board is an answer. -/
theorem answer_board (id : ℤ) (lines : List PanelLine) :
    Answer id (answerText id (cs "result", boardText lines)).bytes :=
  ⟨_, oneLine_board lines, rfl⟩

/-- **The plugin is prompt**: only updates and `cleanup` are not answered. -/
theorem Percentile.prompt :
    Prompt (Percentile.dispatch hundredths) [ascii "update_telemetry", ascii "cleanup"] := by
  intro clock call st
  rw [Percentile.dispatch]
  by_cases h1 : call.method = ascii "init"
  · rw [if_pos h1]
    exact answered (h1 ▸ by decide) (answer_handleInit _)
  rw [if_neg h1]
  by_cases h2 : call.method = ascii "update_telemetry"
  · rw [if_pos h2]
    exact unanswered (by simp [h2])
  rw [if_neg h2]
  by_cases h3 : call.method = ascii "render"
  · rw [if_pos h3]
    exact answered (h3 ▸ by decide) fun id =>
      handleRender_eq hundredths clock st call.params id ▸ answer_board id _
  rw [if_neg h3]
  by_cases h4 : call.method = ascii "cleanup"
  · rw [if_pos h4]
    exact unanswered (by simp [h4])
  rw [if_neg h4]
  exact answered (by simp [h2, h4]) fun id => answer_sendError id _

/-- **Whatever comes in, what goes out are answers**: for each call that wants one a single line
with its number, in the order of the calls, and nothing else. -/
theorem percentile_answers (clock : ℕ → ℕ → UInt64) (stdin : Bytes) (st : Percentile) :
    (Lines.complete 0x0a (serveStream (Percentile.dispatch hundredths) clock stdin st)).map lineId =
      wanted [ascii "update_telemetry", ascii "cleanup"] (getlines stdin) :=
  Percentile.prompt.lines clock stdin st

/-- What the host sees of an answer that lists lines. -/
theorem draw_board {id : ℤ} (hid : InRange id) {lines : List PanelLine}
    (hvis : ∀ l ∈ lines, l.Visible) (y x : ℤ) :
    lineId (answerText id (cs "result", boardText lines)).bytes = id ∧
      drawRenderResponse (answerText id (cs "result", boardText lines)).bytes y x =
        lines.map (PanelLine.printed y x) :=
  ⟨(answer_board id lines).lineId_eq hid,
    drawRenderResponse_eq (starts_self (answerText id (cs "result", boardText lines))) rfl rfl
      hvis y x⟩

/-- What the host sees of an answer that lists none. -/
theorem draw_handleInit {id : ℤ} (hid : InRange id) (description : CStr) (y x : ℤ) :
    lineId (handleInit description id) = id ∧
      drawRenderResponse (handleInit description id) y x = [] := by
  refine ⟨(answer_handleInit description id).lineId_eq hid, ?_⟩
  rw [handleInit_eq]
  exact drawRenderResponse_blank (starts_self (answerText id (cs "result", initText description)))
    rfl rfl y x

theorem draw_sendError {id : ℤ} (hid : InRange id) (message : CStr) (y x : ℤ) :
    lineId (sendError id message) = id ∧ drawRenderResponse (sendError id message) y x = [] := by
  refine ⟨(answer_sendError id message).lineId_eq hid, ?_⟩
  rw [sendError_eq]
  exact drawRenderResponse_error (starts_self (answerText id (cs "error", errorText message))) rfl
    y x

/-- **What the host sees of a line** against what the plugin is for. -/
def Shows (y x : ℤ) (line : Bytes) (shown : ℤ × List PanelLine) : Prop :=
  lineId line = shown.1 ∧ drawRenderResponse line y x = shown.2.map (PanelLine.printed y x)

/-- The step: with a message, the plugin does what it is for. -/
theorem reply_shows {c : HostCall} (hc : c.Sound) (y x : ℤ) (clock : ℕ → UInt64)
    (st : Percentile) :
    Option.Rel (Shows y x) (Percentile.reply hundredths loss clock c st).1
        (Percentile.act hundredths loss clock c st).1 ∧
      (Percentile.reply hundredths loss clock c st).2 =
        (Percentile.act hundredths loss clock c st).2 := by
  cases c with
  | init configPath pluginDir id => exact ⟨.some (draw_handleInit (hc.id id rfl) _ y x), rfl⟩
  | updateTelemetry tel topo => exact ⟨.none, rfl⟩
  | render view panel id =>
    exact ⟨.some (draw_board (hc.id id rfl) (visible_board clock st _) y x), rfl⟩
  | renderHops hops id => exact ⟨.some (draw_sendError (hc.id id rfl) _ y x), rfl⟩
  | onKey ev id => exact ⟨.some (draw_sendError (hc.id id rfl) _ y x), rfl⟩
  | cleanup => exact ⟨.none, rfl⟩

/-- A time that is told, and then shown. -/
def toldOnce : List HostCall :=
  [.updateTelemetry (oneProbed (ascii "10.0.0.1")) none,
    .render ⟨.grid, 24, 80, 0, cs ""⟩ (80, 24) 2]

theorem sound_toldOnce : ∀ c ∈ toldOnce, c.Sound := by
  simp only [toldOnce, List.forall_mem_cons]
  have hplain : PlainAddr (ascii "10.0.0.1") :=
    ⟨by decide, Text.printable_of_all rfl⟩
  exact ⟨.update hplain, .render ⟨by decide, by decide⟩
    ⟨by decide, Text.printable_of_all rfl⟩, by simp⟩

end Service

end Nsr
