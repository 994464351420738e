import Nsr.Lib.Reachable
import Nsr.Lib.TableCount
import Nsr.Topology.Store

/-!
# The topology store keeps its nodes

The slot of a node follows from its id, the id from a counter, the number of nodes from another, and
nothing ever removes a node.  So the ids in use are `1` to `node_count`, the slot that a new node
zeroes is one that no node has taken yet, and an id denotes the same node for ever --- also id 1024,
which lies in slot 0.

* `Inv`: the invariant of both tables and their counters.
* `Keeps`: the nodes of one topology are nodes of another, under the same ids.
* `upsertNode_cases`, `addEdge_cases`: what the two operations on the tables can do.
* `updateFromTelemetry_parts`, `updateFromTelemetry_spec`: what an update is made of; it keeps the
  invariant and the nodes.
* `store_invariant`: what holds of every run.
-/

namespace Nsr
namespace Topology

open TableCount Transition

/-! ## The invariant -/

/-- An active node. -/
def ActiveNode (n : TopologyNode) : Prop := n.active = true

/-- An active edge. -/
def ActiveEdge (e : TopologyEdge) : Prop := e.active = true

/-- An id denotes an active node on the way to a target. -/
def Denotes (topo : Topology) (id : ℕ) (targetIp : List UInt8) : Prop :=
  ∃ i, (topo.nodes i).active = true ∧ (topo.nodes i).id = id ∧ (topo.nodes i).targetIp = targetIp

/-- **The invariant of the topology store.** -/
structure Inv (topo : Topology) : Prop where
  nextId : topo.nextId = topo.nodeCount + 1
  room : topo.nodeCount ≤ topologyMaxNodes
  nodeTotal : count ActiveNode topo.nodes = topo.nodeCount
  /-- A node has an id handed out before, and lies in its slot. -/
  slot : ∀ i, (topo.nodes i).active = true →
    1 ≤ (topo.nodes i).id ∧ (topo.nodes i).id ≤ topo.nodeCount ∧ slotOf (topo.nodes i).id = i
  /-- Every id handed out belongs to a node. -/
  used : ∀ k, 1 ≤ k → k ≤ topo.nodeCount →
    (topo.nodes (slotOf k)).active = true ∧ (topo.nodes (slotOf k)).id = k
  unique : ∀ i j, (topo.nodes i).active = true → (topo.nodes j).active = true →
    (topo.nodes i).addr = (topo.nodes j).addr →
    (topo.nodes i).targetIp = (topo.nodes j).targetIp → i = j
  edgeRoom : topo.edgeCount ≤ topologyMaxEdges
  edgeTotal : count ActiveEdge topo.edges = topo.edgeCount
  joins : ∀ e, (topo.edges e).active = true → (topo.edges e).src ≠ (topo.edges e).dst ∧
    ∃ targetIp, topo.Denotes (topo.edges e).src targetIp ∧
      topo.Denotes (topo.edges e).dst targetIp
  edgeUnique : ∀ e e', (topo.edges e).active = true → (topo.edges e').active = true →
    (topo.edges e).src = (topo.edges e').src → (topo.edges e).dst = (topo.edges e').dst → e = e'

theorem init_inv : init.Inv where
  nextId := rfl
  room := by decide
  nodeTotal := count_eq_zero fun _ => Bool.false_ne_true
  slot := fun _ h => absurd h Bool.false_ne_true
  used := fun k h1 h2 => absurd h2 (by simp only [init]; omega)
  unique := fun _ _ h => absurd h Bool.false_ne_true
  edgeRoom := by decide
  edgeTotal := count_eq_zero fun _ => Bool.false_ne_true
  joins := fun _ h => absurd h Bool.false_ne_true
  edgeUnique := fun _ _ h => absurd h Bool.false_ne_true

/-- Two nodes are the same, whatever is known of them. -/
structure SameNode (n n' : TopologyNode) : Prop where
  active : n'.active = n.active
  id : n'.id = n.id
  addr : n'.addr = n.addr
  targetIp : n'.targetIp = n.targetIp

theorem SameNode.refl (n : TopologyNode) : SameNode n n :=
  ⟨rfl, rfl, rfl, rfl⟩

theorem SameNode.trans {n n' n'' : TopologyNode} (h : SameNode n n') (h' : SameNode n' n'') :
    SameNode n n'' where
  active := h'.active.trans h.active
  id := h'.id.trans h.id
  addr := h'.addr.trans h.addr
  targetIp := h'.targetIp.trans h.targetIp

/-- **The nodes of one topology are nodes of another**, in the same slots. -/
def Keeps (topo topo' : Topology) : Prop :=
  ∀ i, (topo.nodes i).active = true → SameNode (topo.nodes i) (topo'.nodes i)

theorem Keeps.refl (topo : Topology) : Keeps topo topo :=
  fun _ _ => SameNode.refl _

theorem Keeps.trans {topo topo' topo'' : Topology} (h : Keeps topo topo')
    (h' : Keeps topo' topo'') : Keeps topo topo'' := fun i hi =>
  (h i hi).trans (h' i ((h i hi).active.trans hi))

/-- **What an update preserves**: the nodes, and the marks that the user put on them. -/
structure Preserves (topo topo' : Topology) : Prop where
  keeps : Keeps topo topo'
  marks : ∀ i, (topo.nodes i).active = true →
    (topo'.nodes i).controlPlane = (topo.nodes i).controlPlane

theorem Preserves.refl (topo : Topology) : Preserves topo topo :=
  ⟨Keeps.refl topo, fun _ _ => rfl⟩

theorem Preserves.trans {topo topo' topo'' : Topology} (h : Preserves topo topo')
    (h' : Preserves topo' topo'') : Preserves topo topo'' :=
  ⟨h.keeps.trans h'.keeps, fun i hi =>
    (h'.marks i ((h.keeps i hi).active.trans hi)).trans (h.marks i hi)⟩

/-- What an id denotes it denotes for ever. -/
theorem Denotes.keeps {topo topo' : Topology} {id : ℕ} {targetIp : List UInt8}
    (h : topo.Denotes id targetIp) (hk : Keeps topo topo') : topo'.Denotes id targetIp := by
  obtain ⟨i, hact, hid, htgt⟩ := h
  have hsame := hk i hact
  exact ⟨i, hsame.active.trans hact, hsame.id.trans hid, hsame.targetIp.trans htgt⟩

/-! ## Nodes -/

theorem findNode_some {topo : Topology} {p : TopologyNode → Bool} {i : Fin topologyMaxNodes}
    (h : topo.findNode p = some i) : p (topo.nodes i) = true :=
  List.find?_some (p := fun i => p (topo.nodes i)) h

theorem findNode_none {topo : Topology} {p : TopologyNode → Bool} (h : topo.findNode p = none)
    (i : Fin topologyMaxNodes) : p (topo.nodes i) = false := by
  have hi := List.find?_eq_none.mp h i (List.mem_finRange i)
  simpa using hi

/-- There is an active node for an address and a target. -/
def Has (topo : Topology) (addr targetIp : List UInt8) : Prop :=
  ∃ i, (topo.nodes i).active = true ∧ (topo.nodes i).addr = addr ∧
    (topo.nodes i).targetIp = targetIp

/-- **What an upsert can do.** -/
theorem upsertNode_cases (topo : Topology) (addr : List UInt8) (ttl : UInt8)
    (targetIp : List UInt8) (isDestination : Bool) :
    (topo.upsertNode addr ttl targetIp isDestination = (0, topo) ∧
        (addr = [] ∨ targetIp = [] ∨
          ¬topo.Has addr targetIp ∧ topologyMaxNodes ≤ topo.nodeCount)) ∨
      (∃ i, (topo.nodes i).active = true ∧ (topo.nodes i).addr = addr ∧
        (topo.nodes i).targetIp = targetIp ∧
        topo.upsertNode addr ttl targetIp isDestination = ((topo.nodes i).id,
          topo.setNode i { topo.nodes i with ttl := ttl, isDestination := isDestination })) ∨
      (¬topo.Has addr targetIp ∧ topo.nodeCount < topologyMaxNodes ∧
        topo.upsertNode addr ttl targetIp isDestination = (topo.nextId,
          topo.insertNode (newNode topo.nextId addr ttl targetIp isDestination))) := by
  unfold upsertNode
  split
  · next hempty => exact .inl ⟨rfl, hempty.elim .inl (.inr ∘ .inl)⟩
  cases hfind : topo.findByAddrAndTarget addr targetIp with
  | some i =>
    have hp := findNode_some hfind
    simp only [Bool.and_eq_true, beq_iff_eq] at hp
    exact .inr (.inl ⟨i, hp.1.1, hp.1.2, hp.2, rfl⟩)
  | none =>
    have hnone : ¬topo.Has addr targetIp := by
      rintro ⟨i, hact, haddr, htgt⟩
      have hp := findNode_none hfind i
      simp [hact, haddr, htgt] at hp
    dsimp only
    split
    · next hfull => exact .inl ⟨rfl, .inr (.inr ⟨hnone, hfull⟩)⟩
    · next hroom => exact .inr (.inr ⟨hnone, by omega, rfl⟩)

/-- A node is overwritten by itself, as far as its identity goes. -/
theorem setNode_same {topo : Topology} {i : Fin topologyMaxNodes} {n : TopologyNode}
    (hn : SameNode (topo.nodes i) n) (j : Fin topologyMaxNodes) :
    SameNode (topo.nodes j) ((topo.setNode i n).nodes j) := by
  show SameNode (topo.nodes j) (Function.update topo.nodes i n j)
  by_cases hji : j = i
  · subst hji
    rw [Function.update_self]
    exact hn
  · rw [Function.update_of_ne hji]
    exact SameNode.refl _

theorem setNode_preserves {topo : Topology} {i : Fin topologyMaxNodes} {n : TopologyNode}
    (hn : SameNode (topo.nodes i) n) (hmark : n.controlPlane = (topo.nodes i).controlPlane) :
    Preserves topo (topo.setNode i n) := by
  refine ⟨fun j _ => setNode_same hn j, fun j _ => ?_⟩
  show (Function.update topo.nodes i n j).controlPlane = _
  by_cases hji : j = i
  · subst hji
    rw [Function.update_self]
    exact hmark
  · rw [Function.update_of_ne hji]

theorem Inv.setNode {topo : Topology} (h : topo.Inv) {i : Fin topologyMaxNodes}
    {n : TopologyNode} (hn : SameNode (topo.nodes i) n) :
    (topo.setNode i n).Inv := by
  have hsame := setNode_same hn
  have hkeeps : Keeps topo (topo.setNode i n) := fun j _ => hsame j
  refine ⟨h.nextId, h.room, ?_, ?_, ?_, ?_, h.edgeRoom, h.edgeTotal, ?_, h.edgeUnique⟩
  · refine (count_update_same ?_).trans h.nodeTotal
    rw [ActiveNode, ActiveNode, hn.active]
  · intro j hj
    rw [(hsame j).active] at hj
    rw [(hsame j).id]
    exact h.slot j hj
  · intro k h1 h2
    rw [(hsame _).active, (hsame _).id]
    exact h.used k h1 h2
  · intro j k hj hk haddr htgt
    rw [(hsame j).active] at hj
    rw [(hsame k).active] at hk
    rw [(hsame j).addr, (hsame k).addr] at haddr
    rw [(hsame j).targetIp, (hsame k).targetIp] at htgt
    exact h.unique j k hj hk haddr htgt
  · intro e he
    obtain ⟨hne, targetIp, hsrc, hdst⟩ := h.joins e he
    exact ⟨hne, targetIp, hsrc.keeps hkeeps, hdst.keeps hkeeps⟩

/-- The slot of the next id is free. -/
theorem Inv.nextSlot_free {topo : Topology} (h : topo.Inv)
    (hroom : topo.nodeCount < topologyMaxNodes) :
    (topo.nodes (slotOf topo.nextId)).active = false := by
  by_contra hact
  obtain ⟨h1, h2, hslot⟩ := h.slot (slotOf topo.nextId) (by simpa using hact)
  have hmod := congrArg Fin.val hslot
  have hnext := h.nextId
  simp only [slotOf, topologyMaxNodes] at hmod hroom h1 h2
  omega

/-- **A new node.**  It takes a free slot, so every node there was is still there. -/
theorem Inv.insertNode {topo : Topology} (h : topo.Inv)
    (hroom : topo.nodeCount < topologyMaxNodes) {n : TopologyNode} (hact : n.active = true)
    (hid : n.id = topo.nextId) (hnew : ¬topo.Has n.addr n.targetIp) :
    (topo.insertNode n).Inv ∧ Preserves topo (topo.insertNode n) := by
  set topo' := topo.insertNode n
  have hfree := h.nextSlot_free hroom
  have hnode : topo'.nodes (slotOf topo.nextId) = n := Function.update_self _ _ _
  have hother : ∀ j, j ≠ slotOf topo.nextId → topo'.nodes j = topo.nodes j := fun j hj =>
    Function.update_of_ne hj _ _
  have hold : ∀ j, (topo.nodes j).active = true → topo'.nodes j = topo.nodes j := by
    intro j hj
    refine hother j ?_
    rintro rfl
    rw [hfree] at hj
    exact Bool.noConfusion hj
  have hkeeps : Keeps topo topo' := by
    intro j hj
    rw [hold j hj]
    exact SameNode.refl _
  refine ⟨?_, hkeeps, fun j hj => by rw [hold j hj]⟩
  have hnext := h.nextId
  refine ⟨?_, ?_, ?_, ?_, ?_, ?_, h.edgeRoom, h.edgeTotal, ?_, h.edgeUnique⟩
  · show topo.nextId + 1 = topo.nodeCount + 1 + 1
    omega
  · show topo.nodeCount + 1 ≤ topologyMaxNodes
    omega
  · show TableCount.count ActiveNode topo'.nodes = topo.nodeCount + 1
    rw [← h.nodeTotal]
    refine count_update_insert ?_ hact
    rw [ActiveNode, hfree]
    exact Bool.false_ne_true
  · intro j hj
    by_cases hjs : j = slotOf topo.nextId
    · subst hjs
      rw [hnode, hid]
      show 1 ≤ topo.nextId ∧ topo.nextId ≤ topo.nodeCount + 1 ∧ _
      exact ⟨by omega, by omega, rfl⟩
    · rw [hother j hjs] at hj ⊢
      obtain ⟨h1, h2, h3⟩ := h.slot j hj
      exact ⟨h1, Nat.le_succ_of_le h2, h3⟩
  · intro k h1 h2
    rcases Nat.lt_or_ge topo.nodeCount k with hk | hk
    · have hk' : k = topo.nextId := by
        have : k ≤ topo.nodeCount + 1 := h2
        omega
      subst hk'
      rw [hnode]
      exact ⟨hact, hid⟩
    · obtain ⟨hact', hid'⟩ := h.used k h1 hk
      rw [hold _ hact']
      exact ⟨hact', hid'⟩
  · -- the new node is the only one with its name
    have hclash : ∀ j, j ≠ slotOf topo.nextId → (topo'.nodes j).active = true →
        (topo'.nodes j).addr = n.addr → (topo'.nodes j).targetIp ≠ n.targetIp := by
      intro j hj hjact hja hjt
      rw [hother j hj] at hjact hja hjt
      exact hnew ⟨j, hjact, hja, hjt⟩
    intro i j hi hj hij hij'
    by_cases his : i = slotOf topo.nextId
    · by_cases hjs : j = slotOf topo.nextId
      · rw [his, hjs]
      · rw [his, hnode] at hij hij'
        exact absurd hij'.symm (hclash j hjs hj hij.symm)
    · by_cases hjs : j = slotOf topo.nextId
      · rw [hjs, hnode] at hij hij'
        exact absurd hij' (hclash i his hi hij)
      · rw [hother i his, hother j hjs] at hij hij'
        rw [hother i his] at hi
        rw [hother j hjs] at hj
        exact h.unique i j hi hj hij hij'
  · intro e he
    obtain ⟨hne, targetIp, hsrc, hdst⟩ := h.joins e he
    exact ⟨hne, targetIp, hsrc.keeps hkeeps, hdst.keeps hkeeps⟩

/-- **An upsert keeps the invariant and the nodes**, and the id it returns denotes a node on the way
to the target. -/
theorem Inv.upsertNode {topo : Topology} (h : topo.Inv) {addr targetIp : List UInt8}
    (haddr : addr.length ≤ 47) (htgt : targetIp.length ≤ 47) (ttl : UInt8) (isDestination : Bool) :
    (topo.upsertNode addr ttl targetIp isDestination).2.Inv ∧
      Preserves topo (topo.upsertNode addr ttl targetIp isDestination).2 ∧
      ((topo.upsertNode addr ttl targetIp isDestination).1 ≠ 0 →
        (topo.upsertNode addr ttl targetIp isDestination).2.Denotes
          (topo.upsertNode addr ttl targetIp isDestination).1 targetIp) := by
  rcases upsertNode_cases topo addr ttl targetIp isDestination with
    ⟨heq, -⟩ | ⟨i, hact, -, hi, heq⟩ | ⟨hnew, hroom, heq⟩
  · rw [heq]
    exact ⟨h, Preserves.refl topo, fun hne => absurd rfl hne⟩
  · have hsame : SameNode (topo.nodes i)
        { topo.nodes i with ttl := ttl, isDestination := isDestination } := ⟨rfl, rfl, rfl, rfl⟩
    have hpres := setNode_preserves hsame rfl
    have hden : topo.Denotes (topo.nodes i).id targetIp := ⟨i, hact, rfl, hi⟩
    rw [heq]
    exact ⟨h.setNode hsame, hpres, fun _ => hden.keeps hpres.keeps⟩
  · have haddr' : (newNode topo.nextId addr ttl targetIp isDestination).addr = addr :=
      List.take_of_length_le haddr
    have htgt' : (newNode topo.nextId addr ttl targetIp isDestination).targetIp = targetIp :=
      List.take_of_length_le htgt
    obtain ⟨hinv, hpres⟩ := h.insertNode hroom (n := newNode topo.nextId addr ttl targetIp
      isDestination) rfl rfl (by rwa [haddr', htgt'])
    have hnode : (topo.insertNode (newNode topo.nextId addr ttl targetIp isDestination)).nodes
        (slotOf topo.nextId) = newNode topo.nextId addr ttl targetIp isDestination :=
      Function.update_self _ _ _
    rw [heq]
    refine ⟨hinv, hpres, fun _ => ⟨slotOf topo.nextId, ?_⟩⟩
    rw [hnode]
    exact ⟨rfl, rfl, htgt'⟩

theorem sameNode_updateNodeHealth (node : TopologyNode) (h : HopInfo) (recv : ℕ) (now : UInt64) :
    SameNode node (updateNodeHealth node h recv now) :=
  ⟨rfl, rfl, rfl, rfl⟩

/-! ## Edges -/

/-- **What adding an edge can do.** -/
theorem addEdge_cases (topo : Topology) (src dst : ℕ) :
    topo.addEdge src dst = topo ∨
      ∃ i, src ≠ dst ∧ topo.edgeCount < topologyMaxEdges ∧
        (∀ e, (topo.edges e).active = true → (topo.edges e).src = src →
          (topo.edges e).dst ≠ dst) ∧
        (topo.edges i).active = false ∧
        topo.addEdge src dst = topo.insertEdge i ⟨src, dst, true⟩ := by
  unfold addEdge
  split
  · exact .inl rfl
  next hids =>
  split
  · exact .inl rfl
  next hroom =>
  split
  · exact .inl rfl
  next hnew =>
  split
  · exact .inl rfl
  next i hfind =>
  refine .inr ⟨i, fun heq => hids (.inr (.inr heq)), by omega, ?_, ?_, rfl⟩
  · intro e hact hsrc hdst
    refine hnew (List.any_eq_true.mpr ⟨e, List.mem_finRange e, ?_⟩)
    simp [hact, hsrc, hdst]
  · have hfree := List.find?_some hfind
    simpa using hfree

/-- Edges leave the nodes alone. -/
@[simp] theorem addEdge_nodes (topo : Topology) (src dst : ℕ) :
    (topo.addEdge src dst).nodes = topo.nodes := by
  rcases addEdge_cases topo src dst with heq | ⟨i, -, -, -, -, heq⟩
  · rw [heq]
  · rw [heq]
    rfl

theorem Inv.addEdge {topo : Topology} (h : topo.Inv) {src dst : ℕ} {targetIp : List UInt8}
    (hsrc : topo.Denotes src targetIp) (hdst : topo.Denotes dst targetIp) :
    (topo.addEdge src dst).Inv := by
  rcases addEdge_cases topo src dst with heq | ⟨i, hne, hroom, hnew, hfree, heq⟩
  · rw [heq]
    exact h
  rw [heq]
  have hnode : (topo.insertEdge i ⟨src, dst, true⟩).edges i = ⟨src, dst, true⟩ :=
    Function.update_self _ _ _
  have hother : ∀ e, e ≠ i → (topo.insertEdge i ⟨src, dst, true⟩).edges e = topo.edges e :=
    fun e he => Function.update_of_ne he _ _
  refine ⟨h.nextId, h.room, h.nodeTotal, h.slot, h.used, h.unique, hroom, ?_, ?_, ?_⟩
  · show TableCount.count ActiveEdge _ = topo.edgeCount + 1
    rw [← h.edgeTotal]
    refine count_update_insert ?_ rfl
    rw [ActiveEdge, hfree]
    exact Bool.false_ne_true
  · intro e he
    by_cases hei : e = i
    · subst hei
      rw [hnode]
      exact ⟨hne, targetIp, hsrc, hdst⟩
    · rw [hother e hei] at he ⊢
      exact h.joins e he
  · intro e e' he he' hs hd
    by_cases hei : e = i
    · by_cases hei' : e' = i
      · rw [hei, hei']
      · rw [hei, hnode, hother e' hei'] at hs hd
        rw [hother e' hei'] at he'
        exact absurd hd.symm (hnew e' he' hs.symm)
    · by_cases hei' : e' = i
      · rw [hei', hnode, hother e hei] at hs hd
        rw [hother e hei] at he
        exact absurd hd (hnew e he hs)
      · rw [hother e hei, hother e' hei'] at hs hd
        rw [hother e hei] at he
        rw [hother e' hei'] at he'
        exact h.edgeUnique e e' he he' hs hd

/-! ## The scan over the hops -/

/-- The scan so far: an id that it has collected denotes a node on the way to the target. -/
structure Scan (topo0 : Topology) (targetIp : List UInt8) (st : Topology × HopIds) : Prop where
  inv : st.1.Inv
  preserves : Preserves topo0 st.1
  ids : ∀ i a, st.2 i a ≠ 0 → st.1.Denotes (st.2 i a) targetIp

/-- The nodes after one step of the scan: those of the upsert, with the health of one updated. -/
theorem upsertAddr_topo (tel : TelemetryState) (clock : ℕ → ℕ → UInt64) (i : ℕ)
    (st : Topology × HopIds) (a : ℕ × List UInt8 × ℕ) :
    (upsertAddr tel clock i st a).1 =
        (st.1.upsertNode a.2.1 (UInt8.ofNat i) tel.targetIp false).2 ∨
      ∃ k, (upsertAddr tel clock i st a).1 =
        (st.1.upsertNode a.2.1 (UInt8.ofNat i) tel.targetIp false).2.setNode k
          (updateNodeHealth ((st.1.upsertNode a.2.1 (UInt8.ofNat i) tel.targetIp false).2.nodes k)
            (tel.hops i) a.2.2 (clock i a.1)) := by
  simp only [upsertAddr]
  split
  · split
    · next k _ => exact .inr ⟨k, rfl⟩
    · exact .inl rfl
  · exact .inl rfl

theorem Scan.upsertAddr {topo0 : Topology} {tel : TelemetryState} {st : Topology × HopIds}
    (h : Scan topo0 tel.targetIp st) (htgt : tel.targetIp.length ≤ 47)
    (clock : ℕ → ℕ → UInt64) (i : ℕ) {a : ℕ × List UInt8 × ℕ} (ha : a.2.1.length ≤ 47) :
    Scan topo0 tel.targetIp (upsertAddr tel clock i st a) := by
  obtain ⟨hinv, hpres, hden⟩ := h.inv.upsertNode ha htgt (UInt8.ofNat i) false
  have htopo : (Topology.upsertAddr tel clock i st a).1.Inv ∧
      Preserves (st.1.upsertNode a.2.1 (UInt8.ofNat i) tel.targetIp false).2
        (Topology.upsertAddr tel clock i st a).1 := by
    rcases upsertAddr_topo tel clock i st a with heq | ⟨k, heq⟩
    · rw [heq]
      exact ⟨hinv, Preserves.refl _⟩
    · have hsame := sameNode_updateNodeHealth
        ((st.1.upsertNode a.2.1 (UInt8.ofNat i) tel.targetIp false).2.nodes k) (tel.hops i) a.2.2
        (clock i a.1)
      rw [heq]
      exact ⟨hinv.setNode hsame, setNode_preserves hsame rfl⟩
  refine ⟨htopo.1, h.preserves.trans (hpres.trans htopo.2), ?_⟩
  intro j b hne
  have hids : (Topology.upsertAddr tel clock i st a).2 = Function.update st.2 i
      (Function.update (st.2 i) a.1
        (st.1.upsertNode a.2.1 (UInt8.ofNat i) tel.targetIp false).1) := rfl
  rw [hids] at hne ⊢
  -- the new id denotes the node just upserted; the others still denote what they did
  have hold : st.2 j b ≠ 0 →
      (Topology.upsertAddr tel clock i st a).1.Denotes (st.2 j b) tel.targetIp := fun hne =>
    (h.ids j b hne).keeps (hpres.trans htopo.2).keeps
  by_cases hji : j = i
  · subst hji
    rw [Function.update_self] at hne ⊢
    by_cases hba : b = a.1
    · subst hba
      rw [Function.update_self] at hne ⊢
      exact (hden hne).keeps htopo.2.keeps
    · rw [Function.update_of_ne hba] at hne ⊢
      exact hold hne
  · rw [Function.update_of_ne hji] at hne ⊢
    exact hold hne

theorem hopAddrs_length {h : HopInfo} (hfits : h.Fits) {a : ℕ × List UInt8 × ℕ}
    (ha : a ∈ hopAddrs h) : a.2.1.length ≤ 47 := by
  rcases List.mem_cons.mp ha with rfl | ha
  · exact hfits.addr
  · obtain ⟨b, hb, rfl⟩ := List.mem_map.mp ha
    exact hfits.aliasAddr b.1 (List.fst_mem_of_mem_zipIdx hb)

theorem upserted_length {tel : TelemetryState} (hfits : tel.Fits) {i : ℕ}
    {a : ℕ × List UInt8 × ℕ} (ha : a ∈ upserted tel i) : a.2.1.length ≤ 47 := by
  unfold upserted at ha
  split at ha
  · exact absurd ha List.not_mem_nil
  · exact hopAddrs_length (hfits.hops i) ha

theorem Scan.upsertHops {topo0 topo : Topology} {tel : TelemetryState} (hfits : tel.Fits)
    (hinv : topo.Inv) (hpres : Preserves topo0 topo) (clock : ℕ → ℕ → UInt64) :
    Scan topo0 tel.targetIp (upsertHops tel clock topo) := by
  refine List.foldlRecOn _ _ ⟨hinv, hpres, fun i a hne => absurd rfl hne⟩ fun st hst i _ => ?_
  refine List.foldlRecOn _ _ hst fun st hst a ha => ?_
  exact hst.upsertAddr hfits.targetIp clock i (upserted_length hfits ha)

/-! ## The links -/

/-- Edges have been added to a topology. -/
structure Linked (topo topo' : Topology) : Prop where
  inv : topo'.Inv
  nodes : topo'.nodes = topo.nodes

/-- The ids that the links are made of denote nodes of one target. -/
structure Ends (topo : Topology) (ids : HopIds) (destId : ℕ) (targetIp : List UInt8) : Prop where
  hop : ∀ i a, ids i a ≠ 0 → topo.Denotes (ids i a) targetIp
  dest : destId ≠ 0 → topo.Denotes destId targetIp

section Links

variable {topo topo' : Topology} {ids : HopIds} {destId : ℕ} {targetIp : List UInt8}

theorem Linked.addEdge (h : Linked topo topo') {src dst : ℕ} (hsrc : topo.Denotes src targetIp)
    (hdst : topo.Denotes dst targetIp) : Linked topo (topo'.addEdge src dst) := by
  have hden : ∀ id, topo.Denotes id targetIp → topo'.Denotes id targetIp := by
    intro id hid
    rwa [Denotes, h.nodes]
  exact ⟨h.inv.addEdge (hden src hsrc) (hden dst hdst), (addEdge_nodes topo' src dst).trans h.nodes⟩

theorem Linked.linkFrom (hends : Ends topo ids destId targetIp) (h : Linked topo topo') (i a : ℕ) :
    Linked topo (linkFrom ids destId i topo' a) := by
  rw [Topology.linkFrom]
  split
  · exact h
  next hsrc =>
  set next := (addrPositions.map (ids (i + 1))).filter (· ≠ 0) with hnext
  have hfold : Linked topo (next.foldl (fun topo dst => topo.addEdge (ids i a) dst) topo') := by
    refine List.foldlRecOn _ _ h fun t ht dst hdst => ?_
    obtain ⟨hmem, hne⟩ := List.mem_filter.mp (hnext ▸ hdst)
    obtain ⟨b, -, rfl⟩ := List.mem_map.mp hmem
    exact ht.addEdge (hends.hop i a hsrc) (hends.hop (i + 1) b (by simpa using hne))
  dsimp only
  split
  · next hlast => exact hfold.addEdge (hends.hop i a hsrc) (hends.dest hlast.2)
  · exact hfold

theorem Linked.linkHops (hends : Ends topo ids destId targetIp) (h : Linked topo topo') :
    Linked topo (linkHops ids destId topo') := by
  refine List.foldlRecOn _ _ h fun t ht i _ => ?_
  exact List.foldlRecOn _ _ ht fun t ht a _ => ht.linkFrom hends i a

theorem Linked.linkDest (hends : Ends topo ids destId targetIp) (hdest : destId ≠ 0)
    (h : Linked topo topo') (last : ℕ) : Linked topo (linkDest ids destId last topo') := by
  refine List.foldlRecOn _ _ h fun t ht a _ => ?_
  dsimp only
  split
  · next hsrc => exact ht.addEdge (hends.hop last a hsrc.1) (hends.dest hdest)
  · exact ht

/-- The last links, and the distance of the destination. -/
theorem Linked.linkLast (hends : Ends topo ids destId targetIp) (h : Linked topo topo') :
    (linkLast ids destId topo').Inv ∧
      ∀ i, ∃ ttl, (linkLast ids destId topo').nodes i = { topo.nodes i with ttl := ttl } := by
  have hsame : ∀ {t : Topology}, Linked topo t → t.Inv ∧
      ∀ i, ∃ ttl, t.nodes i = { topo.nodes i with ttl := ttl } := fun ht =>
    ⟨ht.inv, fun i => ⟨(topo.nodes i).ttl, by rw [ht.nodes]⟩⟩
  unfold Topology.linkLast
  dsimp only
  split
  · next hlast =>
    have hdest := h.linkDest hends hlast.2 (lastTtl ids)
    generalize Topology.linkDest ids destId (lastTtl ids) topo' = t at hdest ⊢
    split
    · next k _ =>
      refine ⟨hdest.inv.setNode ⟨rfl, rfl, rfl, rfl⟩, fun i => ?_⟩
      rw [Topology.setNode, ← hdest.nodes]
      dsimp only
      by_cases hik : i = k
      · subst hik
        rw [Function.update_self]
        exact ⟨_, rfl⟩
      · rw [Function.update_of_ne hik]
        exact ⟨(t.nodes i).ttl, rfl⟩
    · exact hsame hdest
  · exact hsame h

end Links

/-! ## Runs -/

/-- **The parts of an update**: the upsert of the destination, the scan over the hops, and then
links, which leave the nodes as the scan has left them. -/
theorem updateFromTelemetry_parts {topo : Topology} (h : topo.Inv) {tel : TelemetryState}
    (hfits : tel.Fits) (clock : ℕ → ℕ → UInt64) (htgt : tel.targetIp ≠ []) :
    ∃ st, st = upsertHops tel clock (topo.upsertNode tel.targetIp 0 tel.targetIp true).2 ∧
      Scan (topo.upsertNode tel.targetIp 0 tel.targetIp true).2 tel.targetIp st ∧
      (topo.updateFromTelemetry tel clock).Inv ∧
      ∀ i, ∃ ttl,
        (topo.updateFromTelemetry tel clock).nodes i = { st.1.nodes i with ttl := ttl } := by
  rw [updateFromTelemetry, if_neg htgt]
  obtain ⟨hinv, -, hden⟩ := h.upsertNode hfits.targetIp hfits.targetIp 0 true
  dsimp only
  generalize topo.upsertNode tel.targetIp 0 tel.targetIp true = r at hinv hden ⊢
  have hscan := Scan.upsertHops hfits hinv (Preserves.refl r.2) clock
  refine ⟨_, rfl, hscan, ?_⟩
  generalize upsertHops tel clock r.2 = st at hscan ⊢
  have hends : Ends st.1 st.2 r.1 tel.targetIp :=
    ⟨hscan.ids, fun hne => (hden hne).keeps hscan.preserves.keeps⟩
  have hlinks : Linked st.1 (linkHops st.2 r.1 st.1) := Linked.linkHops hends ⟨hscan.inv, rfl⟩
  exact hlinks.linkLast hends

/-- **An update keeps the invariant**, the nodes and their marks. -/
theorem updateFromTelemetry_spec {topo : Topology} (h : topo.Inv) {tel : TelemetryState}
    (hfits : tel.Fits) (clock : ℕ → ℕ → UInt64) :
    (topo.updateFromTelemetry tel clock).Inv ∧
      Preserves topo (topo.updateFromTelemetry tel clock) := by
  by_cases htgt : tel.targetIp = []
  · rw [updateFromTelemetry, if_pos htgt]
    exact ⟨h, Preserves.refl topo⟩
  obtain ⟨-, hpres, -⟩ := h.upsertNode hfits.targetIp hfits.targetIp 0 true
  obtain ⟨st, -, hscan, hinv, hnodes⟩ := updateFromTelemetry_parts h hfits clock htgt
  refine ⟨hinv, hpres.trans (hscan.preserves.trans ⟨fun i _ => ?_, fun i _ => ?_⟩)⟩
  · obtain ⟨ttl, hi⟩ := hnodes i
    rw [hi]
    exact ⟨rfl, rfl, rfl, rfl⟩
  · obtain ⟨ttl, hi⟩ := hnodes i
    rw [hi]

theorem toggleControlPlane_spec {topo : Topology} (h : topo.Inv) (i : Fin topologyMaxNodes) :
    (topo.toggleControlPlane i).Inv ∧ Keeps topo (topo.toggleControlPlane i) := by
  have hsame : SameNode (topo.nodes i)
    { topo.nodes i with controlPlane := !(topo.nodes i).controlPlane } := ⟨rfl, rfl, rfl, rfl⟩
  exact ⟨h.setNode hsame, fun j _ => setNode_same hsame j⟩

/-- **A step of the store**: an update from a snapshot, or the user marking a node. -/
inductive Step : Topology → Topology → Prop
  | update {topo : Topology} (tel : TelemetryState) (clock : ℕ → ℕ → UInt64) (hfits : tel.Fits) :
    Step topo (topo.updateFromTelemetry tel clock)
  | mark {topo : Topology} (i : Fin topologyMaxNodes) : Step topo (topo.toggleControlPlane i)

theorem Step.spec {topo topo' : Topology} (hstep : Step topo topo') (h : topo.Inv) :
    topo'.Inv ∧ Keeps topo topo' := by
  cases hstep with
  | update tel clock hfits =>
    obtain ⟨hinv, hpres⟩ := updateFromTelemetry_spec h hfits clock
    exact ⟨hinv, hpres.keeps⟩
  | mark i => exact toggleControlPlane_spec h i

/-- The invariant holds along every run, and no run loses a node. -/
theorem inv_of_reachable {topo topo' : Topology} (h : topo.Inv) (hr : Reachable Step topo topo') :
    topo'.Inv ∧ Keeps topo topo' :=
  hr.invariant (P := fun t => t.Inv ∧ Keeps topo t) ⟨h, Keeps.refl topo⟩
    fun _ _ _ ht hstep => ⟨(hstep.spec ht.1).1, ht.2.trans (hstep.spec ht.1).2⟩

/-- **The topology store.**  In every state a run arrives at: the number of nodes is the counter,
which is one less than the next id and at most 1024; the ids in use are `1` to that number, each in
the slot it has modulo 1024; an address and a target name one node; whatever the run goes on to do,
an id keeps denoting the same address and target, and an update leaves the marks alone; the number
of edges is its counter, at most 2048; an edge joins two different nodes of one target, and no two
edges join the same ones. -/
theorem store_invariant {topo : Topology} (h : Reachable Step init topo) :
    (topo.nodeCount = count ActiveNode topo.nodes ∧ topo.nextId = topo.nodeCount + 1 ∧
        topo.nodeCount ≤ 1024) ∧
      (∀ k, (∃ i, (topo.nodes i).active = true ∧ (topo.nodes i).id = k) ↔
        1 ≤ k ∧ k ≤ topo.nodeCount) ∧
      (∀ i, (topo.nodes i).active = true → i.val = (topo.nodes i).id % 1024) ∧
      (∀ i j, (topo.nodes i).active = true → (topo.nodes j).active = true →
        (topo.nodes i).addr = (topo.nodes j).addr →
        (topo.nodes i).targetIp = (topo.nodes j).targetIp → i = j) ∧
      (∀ topo', Reachable Step topo topo' → ∀ i, (topo.nodes i).active = true →
        (topo'.nodes i).active = true ∧ (topo'.nodes i).id = (topo.nodes i).id ∧
          (topo'.nodes i).addr = (topo.nodes i).addr ∧
          (topo'.nodes i).targetIp = (topo.nodes i).targetIp) ∧
      (∀ tel clock, tel.Fits → ∀ i, (topo.nodes i).active = true →
        ((topo.updateFromTelemetry tel clock).nodes i).controlPlane =
          (topo.nodes i).controlPlane) ∧
      (topo.edgeCount = count ActiveEdge topo.edges ∧ topo.edgeCount ≤ 2048) ∧
      (∀ e, (topo.edges e).active = true → ∃ i j, i ≠ j ∧
        (topo.nodes i).active = true ∧ (topo.nodes i).id = (topo.edges e).src ∧
        (topo.nodes j).active = true ∧ (topo.nodes j).id = (topo.edges e).dst ∧
        (topo.nodes i).targetIp = (topo.nodes j).targetIp) ∧
      (∀ e e', (topo.edges e).active = true → (topo.edges e').active = true →
        (topo.edges e).src = (topo.edges e').src → (topo.edges e).dst = (topo.edges e').dst →
          e = e') := by
  obtain ⟨hinv, -⟩ := inv_of_reachable init_inv h
  refine ⟨⟨hinv.nodeTotal.symm, hinv.nextId, hinv.room⟩, ?_, ?_, hinv.unique, ?_, ?_,
    ⟨hinv.edgeTotal.symm, hinv.edgeRoom⟩, ?_, hinv.edgeUnique⟩
  · intro k
    constructor
    · rintro ⟨i, hact, rfl⟩
      obtain ⟨h1, h2, -⟩ := hinv.slot i hact
      exact ⟨h1, h2⟩
    · rintro ⟨h1, h2⟩
      exact ⟨slotOf k, hinv.used k h1 h2⟩
  · intro i hact
    obtain ⟨-, -, hslot⟩ := hinv.slot i hact
    exact (congrArg Fin.val hslot).symm
  · intro topo' hr i hact
    have hsame := (inv_of_reachable hinv hr).2 i hact
    exact ⟨hsame.active.trans hact, hsame.id, hsame.addr, hsame.targetIp⟩
  · intro tel clock hfits
    exact (updateFromTelemetry_spec hinv hfits clock).2.marks
  · intro e hact
    obtain ⟨hne, targetIp, ⟨i, hi, hsrc, hit⟩, ⟨j, hj, hdst, hjt⟩⟩ := hinv.joins e hact
    refine ⟨i, j, ?_, hi, hsrc, hj, hdst, hit.trans hjt.symm⟩
    rintro rfl
    exact hne (hsrc.symm.trans hdst)

/-- A route of one hop to the target `"t"`. -/
def oneHopRoute (addr : List UInt8) : TelemetryState where
  hops := fun i => if i = 1 then { HopInfo.zero with addr := addr, sent := 1, recv := 1 } else .zero
  targetIp := [116]
  targetHost := [116]
  startTimeUs := 0
  intervalMs := 100

theorem oneHopRoute_fits {addr : List UInt8} (haddr : addr.length ≤ 47) :
    (oneHopRoute addr).Fits where
  targetIp := show 1 ≤ 47 by decide
  targetHost := show 1 ≤ 127 by decide
  hops := by
    intro i
    unfold oneHopRoute
    dsimp only
    split
    · exact ⟨haddr, Nat.zero_le _, fun _ hmem => absurd hmem List.not_mem_nil⟩
    · exact ⟨by decide, by decide, by decide⟩

/-- The two nodes of a route over `"a"` have ids `1` and `2`. -/
theorem store_invariant_one_hop :
    (init.updateFromTelemetry (oneHopRoute [97]) fun _ _ => 0).nodeCount = 2 ∧
      (init.updateFromTelemetry (oneHopRoute [97]) fun _ _ => 0).nextId = 3 := by
  have hrun : Reachable Step init (init.updateFromTelemetry (oneHopRoute [97]) fun _ _ => 0) :=
    Reachable.refl.tail (.update (oneHopRoute [97]) (fun _ _ => 0) (oneHopRoute_fits (by decide)))
  have hcount : (init.updateFromTelemetry (oneHopRoute [97]) fun _ _ => 0).nodeCount = 2 := by
    decide +kernel
  refine ⟨hcount, ?_⟩
  rw [(store_invariant hrun).1.2.1, hcount]

end Topology
end Nsr
