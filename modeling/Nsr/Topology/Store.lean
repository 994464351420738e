import Nsr.Session.Snapshot
import Mathlib.Data.List.FinRange

/-!
# The topology store

`src/state/topology.c`: a table of nodes, one for each pair of an address and the target it was seen
on the way to, and a table of directed edges between nodes.  A node gets the next free id and lies
in the slot the id has modulo the size of the table; an edge takes the first slot that is free.

Counters and ids are natural numbers.  They are `uint32_t` in the source, and `Topology.Inv` keeps
all of them below 2049.  The clock readings of an update are its argument `clock`, by hop and by
position among the addresses of the hop.
-/

namespace Nsr

/-- `NSR_TOPOLOGY_MAX_NODES`. -/
def topologyMaxNodes : ℕ := 1024

/-- `NSR_TOPOLOGY_MAX_NODES * 2`, the size of the table of edges. -/
def topologyMaxEdges : ℕ := topologyMaxNodes * 2

/-- `nsr_node_health_t`. -/
structure NodeHealth where
  lossRate : Float32
  rttUs : Float32
  jitterUs : Float32
  instability : Float32
  routeChanges : UInt32
  sent : UInt32
  recv : UInt32
  timeouts : UInt32
  lastRttUs : UInt64
  lastUpdateUs : UInt64

/-- A zeroed health record. -/
def NodeHealth.zero : NodeHealth := ⟨0, 0, 0, 0, 0, 0, 0, 0, 0, 0⟩

/-- **`nsr_topology_node_t`.** -/
structure TopologyNode where
  id : ℕ
  addr : List UInt8
  targetIp : List UInt8
  ttl : UInt8
  isDestination : Bool
  controlPlane : Bool
  active : Bool
  health : NodeHealth

/-- A zeroed node. -/
def TopologyNode.zero : TopologyNode := ⟨0, [], [], 0, false, false, false, .zero⟩

/-- `nsr_topology_edge_t`. -/
structure TopologyEdge where
  src : ℕ
  dst : ℕ
  active : Bool
  deriving DecidableEq, Repr

/-- A zeroed edge. -/
def TopologyEdge.zero : TopologyEdge := ⟨0, 0, false⟩

/-- **`nsr_topology_state_t`.** -/
structure Topology where
  nodes : Fin topologyMaxNodes → TopologyNode
  edges : Fin topologyMaxEdges → TopologyEdge
  nodeCount : ℕ
  edgeCount : ℕ
  nextId : ℕ

namespace Topology

/-- `nsr_topology_init`. -/
def init : Topology := ⟨fun _ => .zero, fun _ => .zero, 0, 0, 1⟩

/-! ## Nodes -/

/-- The first slot whose node passes a test. -/
def findNode (topo : Topology) (p : TopologyNode → Bool) : Option (Fin topologyMaxNodes) :=
  (List.finRange topologyMaxNodes).find? fun i => p (topo.nodes i)

/-- `nsr_topology_find_by_addr_and_target`. -/
def findByAddrAndTarget (topo : Topology) (addr targetIp : List UInt8) :
    Option (Fin topologyMaxNodes) :=
  topo.findNode fun n => n.active && n.addr == addr && n.targetIp == targetIp

/-- `node_by_id`. -/
def nodeById (topo : Topology) (id : ℕ) : Option (Fin topologyMaxNodes) :=
  topo.findNode fun n => n.active && n.id == id

/-- The slot of an id. -/
def slotOf (id : ℕ) : Fin topologyMaxNodes :=
  ⟨id % topologyMaxNodes, Nat.mod_lt _ (by decide)⟩

/-- A node is overwritten. -/
def setNode (topo : Topology) (i : Fin topologyMaxNodes) (n : TopologyNode) : Topology :=
  { topo with nodes := Function.update topo.nodes i n }

/-- A node as `nsr_topology_upsert_node` fills it in: the slot is zeroed first, and 47 bytes at most
are copied of each text. -/
def newNode (id : ℕ) (addr : List UInt8) (ttl : UInt8) (targetIp : List UInt8)
    (isDestination : Bool) : TopologyNode :=
  { TopologyNode.zero with
    id := id
    ttl := ttl
    active := true
    isDestination := isDestination
    addr := addr.take 47
    targetIp := targetIp.take 47 }

/-- The next id is handed out, to a node in the slot of the id. -/
def insertNode (topo : Topology) (n : TopologyNode) : Topology where
  nodes := Function.update topo.nodes (slotOf topo.nextId) n
  edges := topo.edges
  nodeCount := topo.nodeCount + 1
  edgeCount := topo.edgeCount
  nextId := topo.nextId + 1

/-- **`nsr_topology_upsert_node`**: the id of the node, `0` where there is none. -/
def upsertNode (topo : Topology) (addr : List UInt8) (ttl : UInt8) (targetIp : List UInt8)
    (isDestination : Bool) : ℕ × Topology :=
  if addr = [] ∨ targetIp = [] then (0, topo)
  else
    match topo.findByAddrAndTarget addr targetIp with
    | some i =>
      ((topo.nodes i).id,
        topo.setNode i { topo.nodes i with ttl := ttl, isDestination := isDestination })
    | none =>
      if topologyMaxNodes ≤ topo.nodeCount then (0, topo)
      else
        (topo.nextId, topo.insertNode (newNode topo.nextId addr ttl targetIp isDestination))

/-- `update_node_health`; the counters of a hop are taken as the 32-bit fields hold them. -/
def updateNodeHealth (node : TopologyNode) (h : HopInfo) (specificRecv : ℕ) (now : UInt64) :
    TopologyNode :=
  let sent := UInt32.ofNat h.sent
  let recv := UInt32.ofNat specificRecv
  let prevRecv := node.health.recv
  let health := { node.health with
    rttUs := h.rttUs.toFloat32
    lastRttUs := h.rttUs
    sent := sent
    recv := recv
    timeouts := if sent > recv then sent - recv else 0
    lossRate :=
      if sent > 0 then 1 - recv.toFloat32 / sent.toFloat32 else node.health.lossRate }
  let health :=
    if prevRecv ≠ recv ∧ recv > 0 then
      let delta := (health.lastRttUs.toFloat32 - health.rttUs).abs
      { health with jitterUs := health.jitterUs * 0.8 + delta * 0.2 }
    else health
  { node with health := { health with lastUpdateUs := now } }

/-! ## Edges -/

/-- An edge is written into a slot. -/
def insertEdge (topo : Topology) (i : Fin topologyMaxEdges) (e : TopologyEdge) : Topology :=
  { topo with
    edges := Function.update topo.edges i e
    edgeCount := topo.edgeCount + 1 }

/-- **`add_edge`.** -/
def addEdge (topo : Topology) (src dst : ℕ) : Topology :=
  if src = 0 ∨ dst = 0 ∨ src = dst then topo
  else if topologyMaxEdges ≤ topo.edgeCount then topo
  else if (List.finRange topologyMaxEdges).any fun i =>
      (topo.edges i).active && (topo.edges i).src == src && (topo.edges i).dst == dst then topo
  else
    match (List.finRange topologyMaxEdges).find? fun i => !(topo.edges i).active with
    | none => topo
    | some i => topo.insertEdge i ⟨src, dst, true⟩

/-! ## Updating from telemetry -/

/-- `hop_ids`, by hop and by position among the addresses of the hop. -/
abbrev HopIds := ℕ → ℕ → ℕ

/-- The addresses of a hop, by their position: the primary one, and then the aliases.  Each comes
with the number of answers it is credited with. -/
def hopAddrs (h : HopInfo) : List (ℕ × List UInt8 × ℕ) :=
  (0, h.addr, h.primaryRecv) :: h.aliases.zipIdx.map fun a => (1 + a.2, a.1.addr, a.1.recv)

/-- The addresses that an update upserts for hop `i`: none when the hop has not answered. -/
def upserted (tel : TelemetryState) (i : ℕ) : List (ℕ × List UInt8 × ℕ) :=
  if (tel.hops i).addr = [] then [] else hopAddrs (tel.hops i)

/-- One upsert of the scan over the hops, with the health update behind it. -/
def upsertAddr (tel : TelemetryState) (clock : ℕ → ℕ → UInt64) (i : ℕ) (st : Topology × HopIds)
    (a : ℕ × List UInt8 × ℕ) : Topology × HopIds :=
  let r := st.1.upsertNode a.2.1 (UInt8.ofNat i) tel.targetIp false
  let topo :=
    if r.1 ≠ 0 then
      match r.2.nodeById r.1 with
      | some k =>
        r.2.setNode k (updateNodeHealth (r.2.nodes k) (tel.hops i) a.2.2 (clock i a.1))
      | none => r.2
    else r.2
  (topo, Function.update st.2 i (Function.update (st.2 i) a.1 r.1))

/-- The upserts of a hop. -/
def upsertHop (tel : TelemetryState) (clock : ℕ → ℕ → UInt64) (st : Topology × HopIds) (i : ℕ) :
    Topology × HopIds :=
  (upserted tel i).foldl (upsertAddr tel clock i) st

/-- **The scan over the hops**: all nodes are upserted and their ids collected. -/
def upsertHops (tel : TelemetryState) (clock : ℕ → ℕ → UInt64) (topo : Topology) :
    Topology × HopIds :=
  (List.range' 1 (maxHops - 1)).foldl (upsertHop tel clock) (topo, fun _ _ => 0)

/-- The positions of the addresses of a hop. -/
def addrPositions : List ℕ := List.range (1 + maxHopAliases)

/-- The edges out of one node of hop `i`: to every node of the next hop, and to the destination if
there is none. -/
def linkFrom (ids : HopIds) (destId i : ℕ) (topo : Topology) (srcIdx : ℕ) : Topology :=
  let src := ids i srcIdx
  if src = 0 then topo
  else
    let next := addrPositions.map (ids (i + 1)) |>.filter (· ≠ 0)
    let topo := next.foldl (fun topo dst => topo.addEdge src dst) topo
    if next = [] ∧ destId ≠ 0 then topo.addEdge src destId else topo

/-- The edges between consecutive hops. -/
def linkHops (ids : HopIds) (destId : ℕ) (topo : Topology) : Topology :=
  (List.range' 1 (maxHops - 2)).foldl
    (fun topo i => addrPositions.foldl (linkFrom ids destId i) topo) topo

/-- `last_ttl`: the last hop with a node for its primary address, `0` where there is none. -/
def lastTtl (ids : HopIds) : ℕ :=
  ((List.range' 1 (maxHops - 1)).reverse.find? fun i => ids i 0 ≠ 0).getD 0

/-- The links of a hop to the destination. -/
def linkDest (ids : HopIds) (destId last : ℕ) (topo : Topology) : Topology :=
  addrPositions.foldl
    (fun topo srcIdx =>
      let src := ids last srcIdx
      if src ≠ 0 ∧ src ≠ destId then topo.addEdge src destId else topo) topo

/-- The links of the last hop to the destination, and the distance of the destination. -/
def linkLast (ids : HopIds) (destId : ℕ) (topo : Topology) : Topology :=
  let last := lastTtl ids
  if 0 < last ∧ destId ≠ 0 then
    let topo := linkDest ids destId last topo
    match topo.nodeById destId with
    | some k => topo.setNode k { topo.nodes k with ttl := UInt8.ofNat (last + 1) }
    | none => topo
  else topo

/-- **`nsr_topology_update_from_telemetry`.** -/
def updateFromTelemetry (topo : Topology) (tel : TelemetryState) (clock : ℕ → ℕ → UInt64) :
    Topology :=
  if tel.targetIp = [] then topo
  else
    let r := topo.upsertNode tel.targetIp 0 tel.targetIp true
    let st := upsertHops tel clock r.2
    linkLast st.2 r.1 (linkHops st.2 r.1 st.1)

/-- The key `c` of the views over the topology: the mark of a node is flipped. -/
def toggleControlPlane (topo : Topology) (i : Fin topologyMaxNodes) : Topology :=
  topo.setNode i { topo.nodes i with controlPlane := !(topo.nodes i).controlPlane }

/-- `nsr_topology_active_count`. -/
def activeCount (topo : Topology) : ℕ := topo.nodeCount

end Topology
end Nsr
