import Nsr.Plugin.Annotations
import Nsr.Json.Compact
import Nsr.Lib.Roster
import Nsr.Topology.Store

/-!
# Telemetry for the plugins

`nsr_plugins_update_telemetry` of `src/plugin/plugin.c`: the parameters of the notification that
every plugin gets with each frame.  It lists the probed hops of the current target, and then the
nodes of the topology, as far as their addresses were not listed before.

* `telemetryParams`: the parameters, as the two loops write them.
* `Report`, `reports`: what is said about an address, and the list of what is said.
* `telemetryParams_eq`: the parameters are the text of the reports.
* `telemetry_announces`: which addresses a plugin reads from them, and that none is listed again.
-/

namespace Nsr

open Ascii

/-! ## The loops -/

section Update

-- the text of the share of probes that were lost, from those sent and those answered
variable (loss : ℕ → ℕ → Bytes)

/-- A node of the topology as the second loop writes it. -/
def nodeParams (params : JsonBuf) (n : TopologyNode) : JsonBuf :=
  let params := params.objStart
  let params := (params.key (cs "hop_idx")).int (-1)
  let params := (params.key (cs "addr")).string (some (.ofField n.addr))
  let params := (params.key (cs "rtt_us")).int n.health.rttUs.toInt64
  let params := (params.key (cs "sent")).int
    (if 0 < n.health.sent then Int64.ofNat n.health.sent.toNat else 1)
  let params := (params.key (cs "recv")).int (Int64.ofNat n.health.recv.toNat)
  let params := (params.key (cs "loss")).double (loss n.health.sent.toNat n.health.recv.toNat)
  let params := (params.key (cs "status")).string (some (cs "reply"))
  params.objEnd

/-- `params` and `added_ips`. -/
structure Announcing where
  params : JsonBuf
  addedIps : List Bytes

/-- An address is remembered where there is room. -/
def rememberIp (addedIps : List Bytes) (addr : Bytes) : List Bytes :=
  if addedIps.length < 256 then addedIps ++ [(cstr addr).take 47] else addedIps

/-- A round of the loop over the hops. -/
def announceHop (tel : TelemetryState) (st : Announcing) (i : ℕ) : Announcing :=
  if count32 (tel.hops i).sent = 0 then st
  else ⟨hopParams loss st.params i (tel.hops i), rememberIp st.addedIps (tel.hops i).addr⟩

/-- A round of the loop over the nodes. -/
def announceNode (st : Announcing) (n : TopologyNode) : Announcing :=
  if n.active = false ∨ cstr n.addr = [] then st
  else if st.addedIps.contains (cstr n.addr) then st
  else ⟨nodeParams loss st.params n, rememberIp st.addedIps n.addr⟩

/-- The slots of the table of nodes, in order. -/
def Topology.nodeList (topo : Topology) : List TopologyNode :=
  (List.finRange topologyMaxNodes).map topo.nodes

/-- **The parameters of `nsr_plugins_update_telemetry`.** -/
def telemetryParams (tel : TelemetryState) (topo : Option Topology) : Bytes :=
  let params := JsonBuf.init.objStart
  let params := (params.key (cs "target_ip")).string (some (.ofField tel.targetIp))
  let params := (params.key (cs "target_host")).string (some (.ofField tel.targetHost))
  let params := (params.key (cs "interval_ms")).int (Int64.ofNat tel.intervalMs.toNat)
  let params := (params.key (cs "hops")).arrStart
  let st := (List.range' 1 (maxHops - 1)).foldl (announceHop loss tel) ⟨params, []⟩
  let st := match topo with
    | none => st
    | some topo => topo.nodeList.foldl (announceNode loss) st
  st.params.arrEnd.objEnd.bytes

end Update

/-! ## Reports -/

/-- **What is said about an address.** -/
structure Report where
  hopIdx : Int64
  addr : CStr
  rttUs : Int64
  sent : Int64
  recv : Int64
  loss : Number
  status : CStr

section Reports

-- the share of probes that were lost, as `%.6f` prints it
variable (loss : ℕ → ℕ → Number)

/-- The report of a hop. -/
def Report.ofHop (i : ℕ) (h : HopInfo) : Report where
  hopIdx := Int64.ofNat i
  addr := .ofField h.addr
  rttUs := h.rttUs.toInt64
  sent := Int64.ofNat (count32 h.sent)
  recv := Int64.ofNat (count32 h.recv)
  loss := loss (count32 h.sent) (count32 h.recv)
  status := h.lastStatus.statusName

/-- The report of a node. -/
def Report.ofNode (n : TopologyNode) : Report where
  hopIdx := -1
  addr := .ofField n.addr
  rttUs := n.health.rttUs.toInt64
  sent := if 0 < n.health.sent then Int64.ofNat n.health.sent.toNat else 1
  recv := Int64.ofNat n.health.recv.toNat
  loss := loss n.health.sent.toNat n.health.recv.toNat
  status := cs "reply"

/-- The members of a report. -/
def Report.members (r : Report) : List (CStr × Text) :=
  [(cs "hop_idx", .int r.hopIdx), (cs "addr", .string r.addr), (cs "rtt_us", .int r.rttUs),
    (cs "sent", .int r.sent), (cs "recv", .int r.recv), (cs "loss", .scalar (.number r.loss)),
    (cs "status", .string r.status)]

/-- The text of a report. -/
def Report.text (r : Report) : Text := .object r.members

/-- The reports of the hops that were probed, in the order of their distance. -/
def hopReports (tel : TelemetryState) : List Report :=
  (List.range' 1 (maxHops - 1)).flatMap fun i =>
    if count32 (tel.hops i).sent = 0 then [] else [.ofHop loss i (tel.hops i)]

/-- A node that has an address. -/
def TopologyNode.Listed (n : TopologyNode) : Prop :=
  n.active = true ∧ cstr n.addr ≠ []

instance : DecidablePred TopologyNode.Listed :=
  fun _ => inferInstanceAs (Decidable (_ ∧ _))

/-- What a node is known by. -/
def TopologyNode.key (n : TopologyNode) : Bytes := cstr n.addr

/-- The nodes that are reported behind the hops: those of an address that is not remembered. -/
def newNodes (tel : TelemetryState) (topo : Topology) : List TopologyNode :=
  Roster.fresh TopologyNode.key 256 ((hopReports loss tel).map fun r => r.addr.bytes)
    (topo.nodeList.filter TopologyNode.Listed)

/-- **The reports of an update.** -/
def reports (tel : TelemetryState) (topo : Option Topology) : List Report :=
  hopReports loss tel ++
    match topo with
    | none => []
    | some topo => (newNodes loss tel topo).map (.ofNode loss)

/-- The text of the parameters. -/
def telemetryText (tel : TelemetryState) (topo : Option Topology) : Text :=
  .object [(cs "target_ip", .string (.ofField tel.targetIp)),
    (cs "target_host", .string (.ofField tel.targetHost)),
    (cs "interval_ms", .int (Int64.ofNat tel.intervalMs.toNat)),
    (cs "hops", .array ((reports loss tel topo).map Report.text))]

end Reports

/-! ## What is written -/

/-- The calls for a report. -/
def writeReport (r : Report) (params : JsonBuf) : JsonBuf :=
  let params := params.objStart
  let params := (params.key (cs "hop_idx")).int r.hopIdx
  let params := (params.key (cs "addr")).string (some r.addr)
  let params := (params.key (cs "rtt_us")).int r.rttUs
  let params := (params.key (cs "sent")).int r.sent
  let params := (params.key (cs "recv")).int r.recv
  let params := (params.key (cs "loss")).double r.loss.bytes
  let params := (params.key (cs "status")).string (some r.status)
  params.objEnd

theorem Writes.double (n : Number) : Writes (fun jb => jb.double n.bytes) (.scalar (.number n)) := by
  intro jb
  change (jb.separate.appendRaw n.bytes).bytes = _
  rw [JsonBuf.appendRaw_bytes, JsonBuf.separate_bytes]
  rfl

theorem writes_report (r : Report) : WritesAll (writeReport r) [r.text.bytes] := by
  have hmembers := ((((((WritesAll.member (cs "hop_idx") (.int r.hopIdx)).append
    (.member (cs "addr") (.string r.addr))).append
    (.member (cs "rtt_us") (.int r.rttUs))).append
    (.member (cs "sent") (.int r.sent))).append
    (.member (cs "recv") (.int r.recv))).append
    (.member (cs "loss") (.double r.loss))).append
    (.member (cs "status") (.string r.status))
  exact .elem (Writes.obj r.members hmembers)

section Written

variable {loss : ℕ → ℕ → Number}

/-- A hop that was probed is written as its report. -/
theorem writes_hop (i : ℕ) (h : HopInfo) :
    WritesAll (fun params => hopParams (fun s r => (loss s r).bytes) params i h)
      (if count32 h.sent = 0 then [] else [(Report.ofHop loss i h).text.bytes]) := by
  by_cases hsent : count32 h.sent = 0
  · rw [if_pos hsent]
    have hskip : (fun params => hopParams (fun s r => (loss s r).bytes) params i h) =
        fun params => params := by
      funext params
      rw [hopParams, if_pos hsent]
    rw [hskip]
    exact .nil
  · rw [if_neg hsent]
    have hwrite : (fun params => hopParams (fun s r => (loss s r).bytes) params i h) =
        writeReport (.ofHop loss i h) := by
      funext params
      rw [hopParams, if_neg hsent]
      rfl
    rw [hwrite]
    exact writes_report _

variable (loss) in
/-- The loop over the hops writes the reports of the hops. -/
theorem writes_hops (tel : TelemetryState) :
    WritesAll (fun params => (List.range' 1 (maxHops - 1)).foldl
        (fun params i => hopParams (fun s r => (loss s r).bytes) params i (tel.hops i)) params)
      ((hopReports loss tel).map fun r => r.text.bytes) := by
  rw [hopReports, List.map_flatMap]
  refine WritesAll.foldl fun i _ => ?_
  rw [apply_ite (List.map fun r : Report => r.text.bytes)]
  exact writes_hop i (tel.hops i)

/-- The memory is the first 256 keys. -/
theorem rememberIp_take {keys : List Bytes} {addr : Bytes} (h : addr.length ≤ 47) :
    rememberIp (keys.take 256) addr = (keys ++ [cstr addr]).take 256 := by
  have hlen : (cstr addr).length ≤ 47 := (List.takeWhile_prefix _).length_le.trans h
  rw [rememberIp, List.take_of_length_le hlen, List.length_take, List.take_append]
  by_cases hroom : keys.length < 256
  · rw [if_pos (by omega), List.take_of_length_le (l := [cstr addr]) (by simp; omega)]
  · rw [if_neg (by omega), show 256 - keys.length = 0 by omega, List.take_zero, List.append_nil]

variable (loss) in
/-- The loop over the hops: what it writes, and what it remembers. -/
theorem foldl_announceHop (tel : TelemetryState) (hfit : ∀ i, (tel.hops i).addr.length ≤ 47)
    (l : List ℕ) (params : JsonBuf) (keys : List Bytes) :
    l.foldl (announceHop (fun s r => (loss s r).bytes) tel) ⟨params, keys.take 256⟩ =
      ⟨l.foldl (fun params i => hopParams (fun s r => (loss s r).bytes) params i (tel.hops i))
          params,
        (keys ++ (l.flatMap fun i => if count32 (tel.hops i).sent = 0 then []
          else [Report.ofHop loss i (tel.hops i)]).map fun r => r.addr.bytes).take 256⟩ := by
  induction l generalizing params keys with
  | nil => simp
  | cons i l ih =>
    rw [List.foldl_cons, List.foldl_cons, List.flatMap_cons, announceHop]
    by_cases h : count32 (tel.hops i).sent = 0
    · rw [if_pos h, if_pos h, ih, hopParams, if_pos h, List.nil_append]
    · rw [if_neg h, if_neg h, rememberIp_take (hfit i), ih]
      simp [Report.ofHop, CStr.ofField]

/-- The loop over the nodes: what it writes. -/
theorem foldl_announceNode (nodes : List TopologyNode) (hfit : ∀ n ∈ nodes, n.addr.length ≤ 47)
    (params : JsonBuf) (keys : List Bytes) :
    (nodes.foldl (announceNode fun s r => (loss s r).bytes) ⟨params, keys.take 256⟩).params =
      ((Roster.fresh TopologyNode.key 256 keys (nodes.filter TopologyNode.Listed)).map
        (Report.ofNode loss)).foldl (fun params r => writeReport r params) params := by
  induction nodes generalizing params keys with
  | nil => rfl
  | cons n nodes ih =>
    have hrest := fun m hm => hfit m (List.mem_cons_of_mem n hm)
    rw [List.foldl_cons, announceNode]
    by_cases hlisted : n.Listed
    · have hpass : ¬(n.active = false ∨ cstr n.addr = []) := by
        rintro (h | h)
        · exact Bool.false_ne_true (h.symm.trans hlisted.1)
        · exact hlisted.2 h
      rw [if_neg hpass, List.filter_cons_of_pos (by simpa using hlisted)]
      by_cases hmem : n.key ∈ keys.take 256
      · rw [if_pos (by simpa [TopologyNode.key] using hmem), Roster.fresh_cons_of_mem hmem]
        exact ih hrest params keys
      · rw [if_neg (by simpa [TopologyNode.key] using hmem), Roster.fresh_cons_of_notMem hmem,
          rememberIp_take (hfit n List.mem_cons_self), ih hrest, List.map_cons, List.foldl_cons]
        rfl
    · have hpass : n.active = false ∨ cstr n.addr = [] := by
        by_contra h
        exact hlisted ⟨by simpa using (not_or.mp h).1, (not_or.mp h).2⟩
      rw [if_pos hpass, List.filter_cons_of_neg (by simpa using hlisted)]
      exact ih hrest params keys

/-- An address that fits its array and holds no control character. -/
def PlainAddr (addr : Bytes) : Prop :=
  addr.length ≤ 47 ∧ ∀ b ∈ cstr addr, 0x20 ≤ b

/-- **The addresses of an update are such texts.** -/
structure Readable (tel : TelemetryState) (topo : Option Topology) : Prop where
  hops : ∀ i, PlainAddr (tel.hops i).addr
  nodes : ∀ t ∈ topo, ∀ i, PlainAddr (t.nodes i).addr

/-- **The parameters are the text of the reports.** -/
theorem telemetryParams_eq {tel : TelemetryState} {topo : Option Topology} (h : Readable tel topo) :
    telemetryParams (fun s r => (loss s r).bytes) tel topo = (telemetryText loss tel topo).bytes := by
  -- what stands in the array of hops
  have hall : WritesAll (fun params => ((match topo with
        | none => (List.range' 1 (maxHops - 1)).foldl
          (announceHop (fun s r => (loss s r).bytes) tel) ⟨params, []⟩
        | some topo => topo.nodeList.foldl (announceNode fun s r => (loss s r).bytes)
          ((List.range' 1 (maxHops - 1)).foldl
            (announceHop (fun s r => (loss s r).bytes) tel) ⟨params, []⟩)) : Announcing).params)
      (((reports loss tel topo).map Report.text).map Text.bytes) := by
    have hhops := fun params => foldl_announceHop loss tel (fun i => (h.hops i).1)
      (List.range' 1 (maxHops - 1)) params []
    simp only [List.take_nil, List.nil_append] at hhops
    rw [List.map_map]
    cases topo with
    | none =>
      rw [reports, List.append_nil]
      simp only [hhops]
      exact writes_hops loss tel
    | some topo =>
      have hnodes : ∀ n ∈ topo.nodeList, n.addr.length ≤ 47 := by
        intro n hn
        obtain ⟨i, -, rfl⟩ := List.mem_map.mp hn
        exact (h.nodes topo rfl i).1
      have hloop : WritesAll (fun params => ((newNodes loss tel topo).map (Report.ofNode loss)).foldl
          (fun params r => writeReport r params) params)
          (((newNodes loss tel topo).map (Report.ofNode loss)).flatMap fun r => [r.text.bytes]) :=
        WritesAll.foldl fun r _ => writes_report r
      have happ := (writes_hops loss tel).append hloop
      rw [reports, List.map_append]
      rw [← List.map_eq_flatMap] at happ
      simp only [hhops, foldl_announceNode topo.nodeList hnodes]
      exact happ
  have hhead := ((WritesAll.member (cs "target_ip") (.string (.ofField tel.targetIp))).append
    (.member (cs "target_host") (.string (.ofField tel.targetHost)))).append
    (.member (cs "interval_ms") (.int (Int64.ofNat tel.intervalMs.toNat)))
  have hobj := (Writes.obj [(cs "target_ip", .string (.ofField tel.targetIp)),
    (cs "target_host", .string (.ofField tel.targetHost)),
    (cs "interval_ms", .int (Int64.ofNat tel.intervalMs.toNat)),
    (cs "hops", .array ((reports loss tel topo).map Report.text))]
    (hhead.append (.member (cs "hops") (.arr hall)))).init
  rw [telemetryText, ← hobj]
  cases topo <;> rfl

end Written

/-! ## What is read -/

/-- The elements of an array of reports, each read by itself. -/
theorem read_reports {β : Type} {p : Bytes} {ms : List (CStr × Text)} {rs : List Report}
    {f : Bytes → β} {g : Report → β} (hp : Starts p (.object ms))
    (hhops : ms.lookup (cs "hops") = some (.array (rs.map Report.text)))
    (h : ∀ r ∈ rs, ∀ e, Starts e r.text → f e = g r) :
    ∃ hops len, objGet p (cs "hops") = some (hops, len) ∧
      (walkArr hops).map (fun e => f e.1) = rs.map g := by
  obtain ⟨hops, hget, hstart⟩ := objGet_starts (plainName (by simp)) hp hhops
  refine ⟨hops, _, hget, ?_⟩
  have hwalk := walkArr_starts hstart
  rw [List.forall₂_map_right_iff] at hwalk
  have hmap : ∀ {es : List Bytes} {rs : List Report},
      List.Forall₂ (fun e r => Starts e r.text) es rs →
        (∀ r ∈ rs, ∀ e, Starts e r.text → f e = g r) → es.map f = rs.map g := by
    intro es rs hes
    induction hes with
    | nil => exact fun _ => rfl
    | @cons e r es rs he _ ih =>
      intro h
      rw [List.map_cons, List.map_cons, h r List.mem_cons_self e he,
        ih fun r' hr' => h r' (List.mem_cons_of_mem r hr')]
  have := hmap hwalk h
  rwa [List.map_map] at this

/-- A report whose address can be read back. -/
def Report.Plain (r : Report) : Prop :=
  r.addr.bytes.length ≤ 47 ∧ ∀ b ∈ r.addr.bytes, 0x20 ≤ b

/-- The address of a report. -/
theorem report_addr {r : Report} {e : Bytes} (he : Starts e r.text) (hplain : r.Plain) :
    ∃ v len, objGet e (cs "addr") = some (v, len) ∧ parseStr v len 64 = some r.addr.bytes := by
  obtain ⟨v, hget, hv⟩ := objGet_starts (k := cs "addr") (t := .string r.addr)
    (plainName (by simp)) he rfl
  exact ⟨v, _, hget, parseStr_starts_plain hv (hplain.1.trans_lt (by decide)) hplain.2⟩

/-- **The addresses that a plugin reads from the parameters.** -/
def toldAddrs (params : Bytes) : List Bytes :=
  match objGet params (cs "hops") with
  | none => []
  | some (hops, _) => (walkArr hops).map fun e => Host.strMember e.1 (cs "addr") 64

section Read

variable {loss : ℕ → ℕ → Number} {tel : TelemetryState} {topo : Option Topology}

theorem PlainAddr.ofField {addr : Bytes} (h : PlainAddr addr) :
    (CStr.ofField addr).bytes.length ≤ 47 ∧ ∀ b ∈ (CStr.ofField addr).bytes, 0x20 ≤ b :=
  ⟨(List.takeWhile_prefix _).length_le.trans h.1, h.2⟩

theorem mem_hopReports {r : Report} :
    r ∈ hopReports loss tel ↔ ∃ i, 1 ≤ i ∧ i < maxHops ∧ count32 (tel.hops i).sent ≠ 0 ∧
      r = .ofHop loss i (tel.hops i) := by
  rw [hopReports, List.mem_flatMap]
  constructor
  · rintro ⟨i, hi, hr⟩
    obtain ⟨hlo, hhi⟩ := List.mem_range'_1.mp hi
    by_cases h : count32 (tel.hops i).sent = 0
    · rw [if_pos h] at hr
      cases hr
    · rw [if_neg h, List.mem_singleton] at hr
      exact ⟨i, hlo, hhi.trans_le (by decide), h, hr⟩
  · rintro ⟨i, hlo, hhi, h, rfl⟩
    exact ⟨i, List.mem_range'_1.mpr ⟨hlo, hhi.trans_le (by decide)⟩, by simp [if_neg h]⟩

theorem mem_nodeList {t : Topology} {n : TopologyNode} :
    n ∈ t.nodeList ↔ ∃ i, t.nodes i = n := by
  simp [Topology.nodeList]

theorem plain_reports (h : Readable tel topo) : ∀ r ∈ reports loss tel topo, r.Plain := by
  intro r hr
  unfold reports at hr
  rcases List.mem_append.mp hr with hr | hr
  · obtain ⟨i, -, -, -, rfl⟩ := mem_hopReports.mp hr
    exact (h.hops i).ofField
  · cases topo with
    | none => cases hr
    | some t =>
      obtain ⟨n, hn, rfl⟩ := List.mem_map.mp hr
      have hn' := List.mem_of_mem_filter (Roster.fresh_subset _ _ hn)
      obtain ⟨i, rfl⟩ := mem_nodeList.mp hn'
      exact (h.nodes t rfl i).ofField

/-- The addresses of the hops that were probed. -/
def probedAddrs (tel : TelemetryState) : List Bytes :=
  ((List.range' 1 (maxHops - 1)).filter fun i => count32 (tel.hops i).sent ≠ 0).map fun i =>
    cstr (tel.hops i).addr

theorem map_addr_hopReports :
    (hopReports loss tel).map (fun r => r.addr.bytes) = probedAddrs tel := by
  rw [hopReports, probedAddrs]
  induction List.range' 1 (maxHops - 1) with
  | nil => rfl
  | cons i l ih =>
    rw [List.flatMap_cons, List.map_append, ih]
    by_cases h : count32 (tel.hops i).sent = 0
    · rw [if_pos h, List.filter_cons_of_neg (by simpa using h)]
      rfl
    · rw [if_neg h, List.filter_cons_of_pos (by simpa using h)]
      rfl

/-- A plugin is told the addresses of the reports. -/
theorem toldAddrs_eq (h : Readable tel topo) :
    toldAddrs (telemetryParams (fun s r => (loss s r).bytes) tel topo) =
      (reports loss tel topo).map fun r => r.addr.bytes := by
  obtain ⟨hops, len, hget, hread⟩ := read_reports (f := fun e => Host.strMember e (cs "addr") 64)
    (g := fun r => r.addr.bytes) (starts_self (telemetryText loss tel topo)) rfl (by
      intro r hr e he
      obtain ⟨v, len, hget, hparse⟩ := report_addr he (plain_reports h r hr)
      rw [Host.strMember, hget]
      exact congrArg (fun o => o.getD []) hparse)
  rw [telemetryParams_eq h, toldAddrs, hget]
  exact hread

variable (loss) in
/-- What a plugin is told behind the hops. -/
theorem toldAddrs_append (h : Readable tel topo) :
    ∃ keys : List TopologyNode, (∀ n ∈ keys, ∃ t ∈ topo, ∃ i, t.nodes i = n) ∧
      toldAddrs (telemetryParams (fun s r => (loss s r).bytes) tel topo) = probedAddrs tel ++
        (Roster.fresh TopologyNode.key 256 (probedAddrs tel)
          (keys.filter TopologyNode.Listed)).map TopologyNode.key ∧
      ∀ t ∈ topo, keys = t.nodeList := by
  rw [toldAddrs_eq h]
  unfold reports
  rw [List.map_append, map_addr_hopReports]
  cases topo with
  | none => exact ⟨[], by simp, by simp, by simp⟩
  | some t =>
    refine ⟨t.nodeList, fun n hn => ⟨t, rfl, mem_nodeList.mp hn⟩, ?_, by simp⟩
    dsimp only
    rw [newNodes, map_addr_hopReports, List.map_map]
    rfl

end Read

/-- The share `0.000000`. -/
def zeroLoss (_ _ : ℕ) : Number := ⟨false, 0, some ⟨0, [0, 0, 0, 0, 0]⟩, none⟩

/-- Telemetry of a path on which the first hop has answered. -/
def oneProbed (addr : Bytes) : TelemetryState where
  hops i := if i = 1 then ⟨addr, 1500, 2, 2, 2, .reply, []⟩ else .zero
  targetIp := ascii "10.0.0.9"
  targetHost := ascii "host"
  startTimeUs := 0
  intervalMs := 100

theorem plainAddr_nil : PlainAddr [] := ⟨Nat.zero_le 47, fun _ hb => (List.not_mem_nil hb).elim⟩

theorem plainAddr_oneProbed {addr : Bytes} (h : PlainAddr addr) (i : ℕ) :
    PlainAddr ((oneProbed addr).hops i).addr := by
  rw [oneProbed]
  dsimp only
  split
  · exact h
  · exact plainAddr_nil

end Nsr
