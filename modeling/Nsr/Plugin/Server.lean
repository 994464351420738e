import Nsr.Plugin.Wire
import Nsr.Json.Compact
import Nsr.Lib.Lines
import Nsr.Lib.Service

/-!
# The plugins' side of the pipe

The loop of `main` in `plugins/percentile/percentile.c` and `plugins/geoip/geoip.c`.  Both read
requests from standard input, one a line, and write an answer for each request with a number that
calls for one.

* `getlines`: a stream as `getline` cuts it.
* `readCall`: what the body of the loop reads from a line.
* `serve`: the loop, over what a plugin does with a call.
* `Prompt`, `Prompt.lines`: a plugin that answers exactly the calls that want an answer, and what
  the host reads from it.
* `readCall_hostLine`, `serve_hostLines`: the lines of the host, as a plugin reads them.
-/

namespace Nsr

open Ascii

/-! ## Lines -/

/-- The rest of a stream as `getline` cuts it, behind the part `cur` of its first line: every line
with its line feed, and what follows the last of these, where there is something. -/
def getlinesFrom (cur : Bytes) : Bytes → List Bytes
  | [] => if cur = [] then [] else [cur]
  | c :: s => if c = 0x0a then (cur ++ [c]) :: getlinesFrom [] s else getlinesFrom (cur ++ [c]) s

/-- **A stream as `getline` cuts it.** -/
def getlines (s : Bytes) : List Bytes :=
  getlinesFrom [] s

theorem getlinesFrom_line {l : Bytes} (hl : 0x0a ∉ l) (cur s : Bytes) :
    getlinesFrom cur (l ++ [0x0a] ++ s) = (cur ++ l ++ [0x0a]) :: getlines s := by
  induction l generalizing cur with
  | nil =>
    rw [List.nil_append, List.singleton_append, getlinesFrom, if_pos rfl, List.append_nil]
    rfl
  | cons b l ih =>
    obtain ⟨hb, hl⟩ := not_or.mp (List.mem_cons.not.mp hl)
    rw [List.cons_append, List.cons_append, getlinesFrom, if_neg (Ne.symm hb), ih hl]
    simp

/-- **Whole lines are cut where they end.** -/
theorem getlines_unlines {ls : List Bytes} (hls : ∀ l ∈ ls, 0x0a ∉ l) :
    getlines (Lines.unlines 0x0a ls) = ls.map (· ++ [0x0a]) := by
  induction ls with
  | nil => rfl
  | cons l ls ih =>
    rw [Lines.unlines_cons, getlines, getlinesFrom_line (hls l List.mem_cons_self),
      ih fun l' hl' => hls l' (List.mem_cons_of_mem l hl')]
    rfl

/-- A line without its end: `line[len - 1]` is overwritten where it is `\n`, and then where it is
`\r`. -/
def chomp (line : Bytes) : Bytes :=
  let line := cstr line
  let line := if line.getLast? = some 0x0a then line.dropLast else line
  if line.getLast? = some 0x0d then line.dropLast else line

theorem cstr_of_printable {bs : Bytes} (h : Printable bs) : cstr bs = bs := by
  have happ := cstr_append h []
  rw [List.append_nil] at happ
  rw [happ]
  exact List.append_nil bs

theorem chomp_of_printable {l : Bytes} (h : Printable l) : chomp (l ++ [0x0a]) = l := by
  have hcstr : cstr (l ++ [0x0a]) = l ++ [0x0a] := cstr_append h [0x0a]
  rw [chomp, hcstr, List.getLast?_concat, if_pos rfl, List.dropLast_concat]
  refine if_neg fun hlast => ?_
  exact absurd (h _ (List.mem_of_getLast? hlast)) (by decide)

/-! ## Calls -/

/-- **What the body of the loop has read when it comes to the method**: `id` is there where
`has_id` is true. -/
structure PluginCall where
  method : Bytes
  params : Bytes
  id : Option ℤ

/-- The variables of a round of the loop; `none` where it continues. -/
def readCall (line : Bytes) : Option PluginCall :=
  let line := chomp line
  (objGet line (cs "method")).bind fun method =>
    let params := ((objGet line (cs "params")).map Prod.fst).getD (ascii "{}")
    let id := (objGet line (cs "id")).map fun idv => (parseInt idv.1 idv.2 0).2
    (parseStr method.1 method.2 64).map fun methodStr => ⟨cstr methodStr, params, id⟩

theorem inRange_clampInt64 (i : ℤ) : InRange (clampInt64 i) := by
  rw [InRange, clampInt64]
  omega

theorem inRange_zero : InRange 0 := ⟨by decide, by decide⟩

/-- `strtoll` stays within its type. -/
theorem inRange_strtoll (s : Bytes) : InRange (strtoll s).1 := by
  unfold strtoll
  extract_lets p neg digitsStart ds
  split
  · exact inRange_zero
  · exact inRange_clampInt64 _

theorem inRange_parseInt (val : Bytes) (len : ℕ) : InRange (parseInt val len 0).2 := by
  rw [parseInt]
  split
  · exact inRange_zero
  · exact inRange_strtoll _

theorem inRange_of_readCall {line : Bytes} {call : PluginCall} {id : ℤ}
    (h : readCall line = some call) (hid : call.id = some id) : InRange id := by
  obtain ⟨method, -, hcall⟩ := Option.bind_eq_some_iff.mp h
  obtain ⟨methodStr, -, rfl⟩ := Option.map_eq_some_iff.mp hcall
  obtain ⟨idv, -, rfl⟩ := Option.map_eq_some_iff.mp hid
  exact inRange_parseInt _ _

/-! ## Answers -/

/-- The calls with which every answer begins. -/
def responseHead (id : ℤ) : JsonBuf :=
  let resp := JsonBuf.init.objStart
  let resp := (resp.key (cs "jsonrpc")).string (some (cs "2.0"))
  (resp.key (cs "id")).int (Int64.ofInt id)

/-- `printf("%s\n", nsr_json_cstr(&resp))`, without the line feed. -/
def JsonBuf.line (resp : JsonBuf) : Bytes :=
  cstr resp.bytes

/-- `handle_init`, with the description of the plugin. -/
def handleInit (description : CStr) (id : ℤ) : Bytes :=
  let resp := ((responseHead id).key (cs "result")).objStart
  let resp := (resp.key (cs "status")).string (some (cs "ok"))
  let resp := (resp.key (cs "description")).string (some description)
  resp.objEnd.objEnd.line

/-- `send_error`. -/
def sendError (id : ℤ) (message : CStr) : Bytes :=
  let resp := ((responseHead id).key (cs "error")).objStart
  let resp := (resp.key (cs "code")).int (-32601)
  let resp := (resp.key (cs "message")).string (some message)
  resp.objEnd.objEnd.line

/-- The text of an answer: an object with the number, and what is answered. -/
def answerText (id : ℤ) (m : CStr × Text) : Text :=
  .object [(cs "jsonrpc", .string (cs "2.0")), (cs "id", .int (Int64.ofInt id)), m]

/-- **An answer to a number.** -/
def Answer (id : ℤ) (line : Bytes) : Prop :=
  ∃ m : CStr × Text, m.2.OneLine ∧ line = (answerText id m).bytes

/-- What is written behind the head of an answer makes it one. -/
theorem line_answer {w : JsonBuf → JsonBuf} {t : Text} (id : ℤ) (k : CStr) (h : Writes w t)
    (ht : t.OneLine) : (w ((responseHead id).key k)).objEnd.line = (answerText id (k, t)).bytes := by
  have hhead := (WritesAll.member (cs "jsonrpc") (Writes.string (cs "2.0"))).append
    (WritesAll.member (cs "id") (Writes.int (Int64.ofInt id)))
  have hobj := (Writes.obj [(cs "jsonrpc", .string (cs "2.0")),
    (cs "id", .int (Int64.ofInt id)), (k, t)] (hhead.append (WritesAll.member k h))).init
  have hline : (answerText id (k, t)).OneLine := by
    refine Text.oneLine_object fun m hm => ?_
    simp only [List.mem_cons, List.not_mem_nil, or_false] at hm
    rcases hm with rfl | rfl | rfl
    · exact Text.oneLine_string _
    · exact Text.oneLine_int _
    · exact ht
  change cstr (w ((responseHead id).key k)).objEnd.bytes = _
  rw [← cstr_of_printable hline]
  exact congrArg cstr hobj

/-- Two members with a string or an integer each. -/
theorem writes_pair {v w : JsonBuf → JsonBuf} {t u : Text} (k l : CStr) (hv : Writes v t)
    (hw : Writes w u) :
    Writes (fun jb => (w ((v (jb.objStart.key k)).key l)).objEnd) (.object [(k, t), (l, u)]) :=
  Writes.obj [(k, t), (l, u)] ((WritesAll.member k hv).append (WritesAll.member l hw))

theorem oneLine_pair {t u : Text} (k l : CStr) (ht : t.OneLine) (hu : u.OneLine) :
    (Text.object [(k, t), (l, u)]).OneLine := by
  refine Text.oneLine_object fun m hm => ?_
  simp only [List.mem_cons, List.not_mem_nil, or_false] at hm
  rcases hm with rfl | rfl
  · exact ht
  · exact hu

/-- The result of `init`. -/
def initText (description : CStr) : Text :=
  .object [(cs "status", .string (cs "ok")), (cs "description", .string description)]

/-- The error of a request that is not answered. -/
def errorText (message : CStr) : Text :=
  .object [(cs "code", .int (-32601)), (cs "message", .string message)]

theorem oneLine_initText (description : CStr) : (initText description).OneLine :=
  oneLine_pair _ _ (Text.oneLine_string _) (Text.oneLine_string _)

theorem oneLine_errorText (message : CStr) : (errorText message).OneLine :=
  oneLine_pair _ _ (Text.oneLine_int _) (Text.oneLine_string _)

theorem handleInit_eq (description : CStr) (id : ℤ) :
    handleInit description id = (answerText id (cs "result", initText description)).bytes := by
  have hline := line_answer id (cs "result")
    (writes_pair (cs "status") (cs "description") (.string (cs "ok")) (.string description))
    (oneLine_initText description)
  exact hline

theorem sendError_eq (id : ℤ) (message : CStr) :
    sendError id message = (answerText id (cs "error", errorText message)).bytes := by
  have hline := line_answer id (cs "error")
    (writes_pair (cs "code") (cs "message") (.int (-32601)) (.string message))
    (oneLine_errorText message)
  exact hline

theorem answer_handleInit (description : CStr) (id : ℤ) : Answer id (handleInit description id) :=
  ⟨_, oneLine_initText description, handleInit_eq description id⟩

theorem answer_sendError (id : ℤ) (message : CStr) : Answer id (sendError id message) :=
  ⟨_, oneLine_errorText message, sendError_eq id message⟩

theorem Answer.printable {id : ℤ} {line : Bytes} (h : Answer id line) : Printable line := by
  obtain ⟨m, hm, rfl⟩ := h
  refine Text.oneLine_object fun m' hm' => ?_
  simp only [List.mem_cons, List.not_mem_nil, or_false] at hm'
  rcases hm' with rfl | rfl | rfl
  · exact Text.oneLine_string _
  · exact Text.oneLine_int _
  · exact hm

/-- The host sees the number of an answer. -/
theorem Answer.lineId_eq {id : ℤ} {line : Bytes} (h : Answer id line) (hid : InRange id) :
    lineId line = id := by
  have hline := cstr_of_printable h.printable
  obtain ⟨m, -, rfl⟩ := h
  obtain ⟨q, hget, hq⟩ := objGet_starts (k := cs "id") (t := .int (Int64.ofInt id))
    (plainName (by simp)) (starts_self (answerText id m)) (by
      rw [List.lookup_cons, List.lookup_cons]
      rfl)
  rw [lineId, hline, hget]
  dsimp only
  rw [parseInt_starts hq, Int64.toInt_ofInt_of_le hid.1 (by have := hid.2; omega)]

/-! ## The loop -/

section Serve

variable {ε σ : Type} (dispatch : ε → PluginCall → σ → Option Bytes × σ)

/-- A round of the loop of `main`: the line that is written, and the state. -/
def serveLine (env : ε) (line : Bytes) (st : σ) : Option Bytes × σ :=
  match readCall line with
  | none => (none, st)
  | some call => dispatch env call st

/-- **The loop of `main`**: the lines that are written, and the state at the end. -/
def serve (env : ℕ → ε) (lines : List Bytes) (st : σ) : List Bytes × σ :=
  Service.run (serveLine dispatch) env lines st

/-- What is written to standard output for what comes on standard input. -/
def serveStream (env : ℕ → ε) (stdin : Bytes) (st : σ) : Bytes :=
  Lines.unlines 0x0a (serve dispatch env (getlines stdin) st).1

/-- The number that a call wants an answer to; the calls of some methods want none. -/
def PluginCall.wants (silent : List Bytes) (call : PluginCall) : Option ℤ :=
  if silent.contains call.method then none else call.id

/-- **A prompt plugin**: a call that wants an answer is answered, with its number, and no other one
is. -/
def Prompt (silent : List Bytes) : Prop :=
  ∀ env call st, Option.Rel Answer (call.wants silent) (dispatch env call st).1

variable {dispatch} {silent : List Bytes}

/-- A call of a method that is answered. -/
theorem answered {call : PluginCall} (h : call.method ∉ silent) {f : ℤ → Bytes}
    (hf : ∀ id, Answer id (f id)) :
    Option.Rel Answer (call.wants silent) (call.id.map f) := by
  rw [PluginCall.wants, if_neg (by simpa using h)]
  cases call.id with
  | none => exact .none
  | some id => exact .some (hf id)

/-- A call of a method that is not answered. -/
theorem unanswered {call : PluginCall} (h : call.method ∈ silent) :
    Option.Rel Answer (call.wants silent) none := by
  rw [PluginCall.wants, if_pos (by simpa using h)]
  exact .none

/-- The numbers that the calls of a stream want an answer to. -/
def wanted (silent : List Bytes) (lines : List Bytes) : List ℤ :=
  lines.filterMap fun line => (readCall line).bind (PluginCall.wants silent)

/-- The step: what a round writes answers what its line wants. -/
theorem Prompt.line (h : Prompt dispatch silent) (env : ε) (line : Bytes) (st : σ) :
    Option.Rel Answer ((readCall line).bind (PluginCall.wants silent))
      (serveLine dispatch env line st).1 := by
  rw [serveLine]
  cases readCall line with
  | none => exact .none
  | some call => exact h env call st

/-- The run: answers, in the order of what was wanted. -/
theorem Prompt.run (h : Prompt dispatch silent) (env : ℕ → ε) (lines : List Bytes) (st : σ) :
    List.Forall₂ Answer (wanted silent lines) (serve dispatch env lines st).1 :=
  Service.run_rel h.line env lines st

theorem inRange_of_wants {line : Bytes} {id : ℤ}
    (h : (readCall line).bind (PluginCall.wants silent) = some id) : InRange id := by
  obtain ⟨call, hcall, hwants⟩ := Option.bind_eq_some_iff.mp h
  rw [PluginCall.wants] at hwants
  split at hwants
  · cases hwants
  · exact inRange_of_readCall hcall hwants

/-- The host gets the numbers back, from single lines. -/
theorem lineId_of_answers {ids : List ℤ} {lines : List Bytes} (h : List.Forall₂ Answer ids lines)
    (hids : ∀ id ∈ ids, InRange id) :
    lines.map lineId = ids ∧ ∀ line ∈ lines, (0x0a : UInt8) ∉ line := by
  induction h with
  | nil => exact ⟨rfl, by simp⟩
  | @cons id line ids lines hans hrest ih =>
    obtain ⟨hmap, hnl⟩ := ih fun id' hid' => hids id' (List.mem_cons_of_mem id hid')
    refine ⟨?_, List.forall_mem_cons.mpr ⟨fun hmem => ?_, hnl⟩⟩
    · rw [List.map_cons, hmap, hans.lineId_eq (hids id List.mem_cons_self)]
    · exact absurd (hans.printable _ hmem) (by decide)

/-- **What a prompt plugin writes**, cut into lines as the host cuts it: one line for each call that
wants an answer, in order, with its number. -/
theorem Prompt.lines (h : Prompt dispatch silent) (env : ℕ → ε) (stdin : Bytes) (st : σ) :
    (Lines.complete 0x0a (serveStream dispatch env stdin st)).map lineId =
      wanted silent (getlines stdin) := by
  have hids : ∀ id ∈ wanted silent (getlines stdin), InRange id := by
    intro id hid
    obtain ⟨line, -, hwants⟩ := List.mem_filterMap.mp hid
    exact inRange_of_wants hwants
  obtain ⟨hmap, hnl⟩ := lineId_of_answers (h.run env (getlines stdin) st) hids
  have hcut := Lines.complete_lines_append hnl []
  rw [List.append_nil] at hcut
  rw [serveStream, hcut, Lines.complete_eq_nil_iff.mpr List.not_mem_nil, List.append_nil, hmap]

end Serve

/-! ## The lines of the host -/

/-- The line of `nsr_json_rpc_notify`. -/
def buildNotification (method : CStr) (params : Bytes) : Bytes :=
  let req := JsonBuf.init.objStart
  let req := (req.key (cs "jsonrpc")).string (some (cs "2.0"))
  let req := (req.key (cs "method")).string (some method)
  let req := req.key (cs "params")
  let req := if 0 < params.length then req.appendRaw params else req.objStart.objEnd
  req.objEnd.bytes

/-- **A message of the host**: a request with its number, or a notification. -/
structure HostMessage where
  method : CStr
  params : Text
  id : Option ℤ

/-- The line of a message. -/
def HostMessage.line (m : HostMessage) : Bytes :=
  match m.id with
  | some id => buildRequest m.method m.params.bytes id
  | none => buildNotification m.method m.params.bytes

/-- The members of a message. -/
def HostMessage.members (m : HostMessage) : List (CStr × Text) :=
  [(cs "jsonrpc", .string (cs "2.0"))] ++
    (m.id.map fun id => (cs "id", Text.int (Int64.ofInt id))).toList ++
    [(cs "method", .string m.method), (cs "params", m.params)]

/-- A message that the host can send: the name of its method is short and plain, its parameters are
one line, its number is an `int`. -/
structure HostMessage.Sendable (m : HostMessage) : Prop where
  short : m.method.bytes.length ≤ 63
  plain : ∀ b ∈ m.method.bytes, 0x20 ≤ b
  params : m.params.OneLine
  id : ∀ id ∈ m.id, InRange id

/-- Parameters are pasted in as they are. -/
theorem writes_paste (t : Text) (k : CStr) :
    WritesAll (fun jb => (jb.key k).appendRaw t.bytes) [Text.memberBytes (k, t)] := by
  refine ⟨fun b hb => ?_, fun jb => ?_⟩
  · rw [List.mem_singleton.mp hb, Text.memberBytes]
    exact closed_append _ t.closed
  · simp [JsonBuf.key, Text.memberBytes]

theorem HostMessage.line_eq (m : HostMessage) : m.line = (Text.object m.members).bytes := by
  have hpos : 0 < m.params.bytes.length := by
    obtain ⟨pre, c, hc, -⟩ := m.params.closed
    rw [hc]
    simp
  have hfirst := WritesAll.member (cs "jsonrpc") (Writes.string (cs "2.0"))
  have hlast := (WritesAll.member (cs "method") (Writes.string m.method)).append
    (writes_paste m.params (cs "params"))
  obtain ⟨method, params, id⟩ := m
  cases id with
  | none =>
    have hobj := (Writes.obj (members ⟨method, params, none⟩) (hfirst.append hlast)).init
    rw [line]
    change buildNotification method params.bytes = _
    rw [buildNotification, if_pos hpos]
    exact hobj
  | some id =>
    have hid := WritesAll.member (cs "id") (Writes.int (Int64.ofInt id))
    have hobj := (Writes.obj (members ⟨method, params, some id⟩)
      ((hfirst.append hid).append hlast)).init
    rw [line]
    change buildRequest method params.bytes id = _
    rw [buildRequest, if_pos hpos]
    exact hobj

theorem HostMessage.printable_line {m : HostMessage} (h : m.Sendable) : Printable m.line := by
  rw [line_eq]
  refine Text.oneLine_object fun x hx => ?_
  simp only [members, List.mem_append, List.mem_cons, List.not_mem_nil, or_false,
    Option.mem_toList, Option.map_eq_some_iff] at hx
  rcases hx with (rfl | ⟨id, -, rfl⟩) | rfl | rfl
  · exact Text.oneLine_string _
  · exact Text.oneLine_int _
  · exact Text.oneLine_string _
  · exact h.params

/-- **A line of the host as a plugin reads it**: the method, the number, and a pointer to the
parameters. -/
theorem readCall_hostLine {m : HostMessage} (h : m.Sendable) :
    ∃ params, Starts params m.params ∧
      readCall (m.line ++ [0x0a]) = some ⟨m.method.bytes, params, m.id⟩ := by
  have hstart : Starts m.line (.object m.members) := by
    rw [m.line_eq]
    exact starts_self _
  have hmethod : m.members.lookup (cs "method") = some (.string m.method) := by
    obtain ⟨method, params, _ | id⟩ := m <;> rfl
  have hparams : m.members.lookup (cs "params") = some m.params := by
    obtain ⟨method, params, _ | id⟩ := m <;> rfl
  obtain ⟨q, hget, hq⟩ := objGet_starts (plainName (by simp)) hstart hmethod
  obtain ⟨p, hgetp, hp⟩ := objGet_starts (plainName (by simp)) hstart hparams
  have hid : (objGet m.line (cs "id")).map (fun idv => (parseInt idv.1 idv.2 0).2) = m.id := by
    cases hmid : m.id with
    | none =>
      have hnone : m.members.lookup (cs "id") = none := by
        obtain ⟨method, params, _⟩ := m
        obtain rfl := hmid
        rfl
      rw [objGet_starts_none (plainName (by simp)) hstart hnone]
      rfl
    | some id =>
      have hsome : m.members.lookup (cs "id") = some (.int (Int64.ofInt id)) := by
        obtain ⟨method, params, _⟩ := m
        obtain rfl := hmid
        rfl
      obtain ⟨v, hgetv, hv⟩ := objGet_starts (plainName (by simp)) hstart hsome
      have hrange := h.id id hmid
      rw [hgetv, Option.map_some, parseInt_starts hv,
        Int64.toInt_ofInt_of_le hrange.1 (by have := hrange.2; omega)]
  have hname : parseStr q (Text.string m.method).bytes.length 64 = some m.method.bytes :=
    parseStr_starts_plain hq (Nat.lt_succ_of_le h.short) h.plain
  refine ⟨p, hp, ?_⟩
  rw [readCall, chomp_of_printable (HostMessage.printable_line h)]
  dsimp only
  rw [hget, Option.bind_some, hgetp, hid, hname, Option.map_some,
    cstr_of_printable h.plain]
  rfl

/-- **What a plugin does with the messages of the host** is what it does with each, when that is
told from the method, a pointer to the parameters and the number. -/
theorem serve_hostLines {α ε σ : Type} {dispatch : ε → PluginCall → σ → Option Bytes × σ}
    {msg : α → HostMessage} {act : ε → α → σ → Option Bytes × σ} {as : List α}
    (hsend : ∀ a ∈ as, (msg a).Sendable)
    (h : ∀ a ∈ as, ∀ params, Starts params (msg a).params → ∀ env st,
      dispatch env ⟨(msg a).method.bytes, params, (msg a).id⟩ st = act env a st)
    (env : ℕ → ε) (st : σ) :
    serve dispatch env (getlines (Lines.unlines 0x0a (as.map fun a => (msg a).line))) st =
      Service.run act env as st := by
  have hnl : ∀ l ∈ as.map fun a => (msg a).line, (0x0a : UInt8) ∉ l := by
    intro l hl hmem
    obtain ⟨a, ha, rfl⟩ := List.mem_map.mp hl
    exact absurd (HostMessage.printable_line (hsend a ha) _ hmem) (by decide)
  rw [serve, getlines_unlines hnl, List.map_map]
  refine Service.run_congr ?_ env st
  rw [List.forall₂_map_left_iff, List.forall₂_same]
  intro a ha env st
  obtain ⟨params, hparams, hcall⟩ := readCall_hostLine (hsend a ha)
  rw [serveLine, Function.comp_apply, hcall]
  exact h a ha params hparams env st

end Nsr
