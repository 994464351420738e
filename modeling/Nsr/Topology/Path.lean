import Nsr.Lib.Fold
import Nsr.Topology.Invariant

/-!
# Every node has a way to the destination

The edges of an update are made in three loops: a node is linked to every node of the next hop; to
the destination if the next hop is silent; and the nodes of the last hop that has answered are
linked to the destination.  A router that answers at two distances in a row gets no edge to itself,
so the node of one hop may be the node of the next.

* `upsertCalls`, `linkCalls`: the upserts of an update after the first, and its links, in order.
* `NodesFit`, `EdgesFit`: no upsert and no link of an update is refused for lack of room.
* `ids_name`, `ids_only`: what the scan collects.
* `path_of_id`: by induction from the last hop down, every id collected has a path.
* `path_to_destination`: so has every address of the snapshot.
-/

namespace Nsr
namespace Topology

open Transition Fold

/-- An active edge joins one id to another. -/
def Edge (topo : Topology) (src dst : ℕ) : Prop :=
  ∃ e, (topo.edges e).active = true ∧ (topo.edges e).src = src ∧ (topo.edges e).dst = dst

/-- **A path along active edges.** -/
def Path (topo : Topology) : ℕ → ℕ → Prop :=
  Relation.ReflTransGen topo.Edge

/-- An id is that of the node of an address on the way to a target. -/
def Names (topo : Topology) (id : ℕ) (addr targetIp : List UInt8) : Prop :=
  ∃ i, (topo.nodes i).active = true ∧ (topo.nodes i).id = id ∧ (topo.nodes i).addr = addr ∧
    (topo.nodes i).targetIp = targetIp

theorem Names.keeps {topo topo' : Topology} {id : ℕ} {addr targetIp : List UInt8}
    (h : topo.Names id addr targetIp) (hk : Keeps topo topo') : topo'.Names id addr targetIp := by
  obtain ⟨i, hact, hid, haddr, htgt⟩ := h
  have hsame := hk i hact
  exact ⟨i, hsame.active.trans hact, hsame.id.trans hid, hsame.addr.trans haddr,
    hsame.targetIp.trans htgt⟩

theorem Inv.id_pos {topo : Topology} (h : topo.Inv) {id : ℕ} {targetIp : List UInt8}
    (hid : topo.Denotes id targetIp) : id ≠ 0 := by
  obtain ⟨i, hact, rfl, -⟩ := hid
  have hpos := (h.slot i hact).1
  omega

/-! ## The upserts of an update -/

/-- There is neither a node for an address nor room for one. -/
def UpsertRefused (topo : Topology) (addr targetIp : List UInt8) : Prop :=
  addr ≠ [] ∧ targetIp ≠ [] ∧ ¬topo.Has addr targetIp ∧ topologyMaxNodes ≤ topo.nodeCount

/-- **An upsert that is not refused** returns the id of the node. -/
theorem Inv.upsertNode_names {topo : Topology} (h : topo.Inv) {addr targetIp : List UInt8}
    (haddr : addr ≠ []) (htgt : targetIp ≠ []) (hlen : addr.length ≤ 47)
    (hlen' : targetIp.length ≤ 47) (hfit : ¬topo.UpsertRefused addr targetIp) (ttl : UInt8)
    (isDestination : Bool) :
    (topo.upsertNode addr ttl targetIp isDestination).1 ≠ 0 ∧
      (topo.upsertNode addr ttl targetIp isDestination).2.Names
        (topo.upsertNode addr ttl targetIp isDestination).1 addr targetIp := by
  rcases upsertNode_cases topo addr ttl targetIp isDestination with
    ⟨-, hnil | hnil | ⟨hnew, hfull⟩⟩ | ⟨i, hact, hi, hi', heq⟩ | ⟨-, -, heq⟩
  · exact absurd hnil haddr
  · exact absurd hnil htgt
  · exact absurd ⟨haddr, htgt, hnew, hfull⟩ hfit
  · rw [heq]
    refine ⟨h.id_pos ⟨i, hact, rfl, hi'⟩, i, ?_⟩
    simp only [Topology.setNode, Function.update_self]
    exact ⟨hact, trivial, hi, hi'⟩
  · rw [heq]
    have hnext := h.nextId
    refine ⟨show topo.nextId ≠ 0 by omega, slotOf topo.nextId, ?_⟩
    simp only [Topology.insertNode, Function.update_self]
    exact ⟨rfl, rfl, List.take_of_length_le hlen, List.take_of_length_le hlen'⟩

/-- The upserts of the scan over the hops, in order: the hop, and the address with its position. -/
def upsertCalls (tel : TelemetryState) : List (ℕ × ℕ × List UInt8 × ℕ) :=
  (List.range' 1 (maxHops - 1)).flatMap fun i => (upserted tel i).map (Prod.mk i)

/-- One of the upserts of the scan. -/
def upsertCall (tel : TelemetryState) (clock : ℕ → ℕ → UInt64) (st : Topology × HopIds)
    (c : ℕ × ℕ × List UInt8 × ℕ) : Topology × HopIds :=
  upsertAddr tel clock c.1 st c.2

theorem upsertHops_eq_foldl (tel : TelemetryState) (clock : ℕ → ℕ → UInt64) (topo : Topology) :
    upsertHops tel clock topo =
      (upsertCalls tel).foldl (upsertCall tel clock) (topo, fun _ _ => 0) := by
  rw [upsertHops, upsertCalls, List.foldl_flatMap]
  congr 1
  funext st i
  rw [upsertHop, List.foldl_map]
  rfl

/-- **No upsert of an update is refused for lack of room.** -/
structure NodesFit (topo : Topology) (tel : TelemetryState) (clock : ℕ → ℕ → UInt64) : Prop where
  dest : ¬topo.UpsertRefused tel.targetIp tel.targetIp
  hops : Along (upsertCall tel clock) (fun st c => ¬st.1.UpsertRefused c.2.2.1 tel.targetIp)
    ((topo.upsertNode tel.targetIp 0 tel.targetIp true).2, fun _ _ => 0) (upsertCalls tel)

/-- The place in `hop_ids` that an upsert writes to. -/
def place (c : ℕ × ℕ × List UInt8 × ℕ) : ℕ × ℕ := (c.1, c.2.1)

theorem map_fst_hopAddrs (h : HopInfo) :
    (hopAddrs h).map Prod.fst = List.range (1 + h.aliases.length) := by
  rw [hopAddrs, List.map_cons, List.map_map, Nat.add_comm, List.range_succ_eq_map,
    List.range_eq_range', ← List.zipIdx_map_snd 0 h.aliases, List.map_map]
  refine congrArg (List.cons 0) (List.map_congr_left fun a _ => ?_)
  exact Nat.add_comm 1 a.2

/-- No place is written twice. -/
theorem upsertCalls_places (tel : TelemetryState) :
    (upsertCalls tel).Pairwise fun b c => place b ≠ place c := by
  refine List.pairwise_flatMap.mpr ⟨fun i _ => ?_, ?_⟩
  · rw [List.pairwise_map]
    have hpos : ((upserted tel i).map Prod.fst).Nodup := by
      rw [upserted]
      split
      · exact List.nodup_nil
      · rw [map_fst_hopAddrs]
        exact List.nodup_range
    refine (List.pairwise_map.mp hpos).imp fun {a b} hab heq => ?_
    exact hab (Prod.mk.inj heq).2
  · refine (List.nodup_range' (s := 1) (n := maxHops - 1)).imp fun {i j} hij b hb c hc heq => ?_
    obtain ⟨b', -, rfl⟩ := List.mem_map.mp hb
    obtain ⟨c', -, rfl⟩ := List.mem_map.mp hc
    exact hij (Prod.mk.inj heq).1

theorem mem_upsertCalls {tel : TelemetryState} {c : ℕ × ℕ × List UInt8 × ℕ} :
    c ∈ upsertCalls tel ↔ (1 ≤ c.1 ∧ c.1 < maxHops) ∧ c.2 ∈ upserted tel c.1 := by
  simp only [upsertCalls, List.mem_flatMap, List.mem_map, List.mem_range'_1]
  constructor
  · rintro ⟨i, hi, a, ha, rfl⟩
    exact ⟨by simp only [maxHops] at hi ⊢; omega, ha⟩
  · rintro ⟨hi, ha⟩
    exact ⟨c.1, by simp only [maxHops] at hi ⊢; omega, c.2, ha, rfl⟩

theorem upsertCall_ids_self (tel : TelemetryState) (clock : ℕ → ℕ → UInt64)
    (st : Topology × HopIds) (c : ℕ × ℕ × List UInt8 × ℕ) :
    (upsertCall tel clock st c).2 c.1 c.2.1 =
      (st.1.upsertNode c.2.2.1 (UInt8.ofNat c.1) tel.targetIp false).1 := by
  show Function.update st.2 c.1 (Function.update (st.2 c.1) c.2.1 _) c.1 c.2.1 = _
  rw [Function.update_self, Function.update_self]

theorem upsertCall_ids_of_ne (tel : TelemetryState) (clock : ℕ → ℕ → UInt64)
    (st : Topology × HopIds) {c : ℕ × ℕ × List UInt8 × ℕ} {i a : ℕ} (h : (i, a) ≠ place c) :
    (upsertCall tel clock st c).2 i a = st.2 i a := by
  show Function.update st.2 c.1 (Function.update (st.2 c.1) c.2.1 _) i a = _
  by_cases hi : i = c.1
  · subst hi
    have ha : a ≠ c.2.1 := fun heq => h (congrArg (Prod.mk c.1) heq)
    rw [Function.update_self, Function.update_of_ne ha]
  · rw [Function.update_of_ne hi]

section Scan

variable {topo0 : Topology} {tel : TelemetryState} (hfits : tel.Fits) (hne : tel.targetIp ≠ [])
  (clock : ℕ → ℕ → UInt64)

include hfits hne

/-- **Every upsert of a scan leaves the id of its node in its place**, if none is refused. -/
theorem ids_name (hinv : topo0.Inv)
    (hfit : Along (upsertCall tel clock)
      (fun st c => ¬st.1.UpsertRefused c.2.2.1 tel.targetIp)
      (topo0, fun _ _ => 0) (upsertCalls tel)) :
    ∀ c ∈ upsertCalls tel, c.2.2.1 ≠ [] →
      (upsertHops tel clock topo0).2 c.1 c.2.1 ≠ 0 ∧
        (upsertHops tel clock topo0).1.Names ((upsertHops tel clock topo0).2 c.1 c.2.1) c.2.2.1
          tel.targetIp := by
  rw [upsertHops_eq_foldl]
  have hkeeps : ∀ (st : Topology × HopIds) (c : ℕ × ℕ × List UInt8 × ℕ), c.2.2.1.length ≤ 47 →
      Scan topo0 tel.targetIp st → Keeps st.1 (upsertCall tel clock st c).1 := by
    intro st c hc hst
    have hself : Scan st.1 tel.targetIp st := ⟨hst.inv, Preserves.refl st.1, hst.ids⟩
    exact (hself.upsertAddr hfits.targetIp clock c.1 hc).preserves.keeps
  refine hfit.gains (I := Scan topo0 tel.targetIp) (M := fun c => c.2.2.1.length ≤ 47)
    (R := fun b c => place b ≠ place c) (Q := fun st c => c.2.2.1 ≠ [] → st.2 c.1 c.2.1 ≠ 0 ∧
      st.1.Names (st.2 c.1 c.2.1) c.2.2.1 tel.targetIp) ?_ ?_ ?_ ?_ (upsertCalls_places tel)
      ⟨hinv, Preserves.refl topo0, fun _ _ h0 => absurd rfl h0⟩
  · exact fun st c hc hst => hst.upsertAddr hfits.targetIp clock c.1 hc
  · intro st c hc hst hroom hcne
    obtain ⟨hid, hnames⟩ := hst.inv.upsertNode_names hcne hne hc hfits.targetIp hroom
      (UInt8.ofNat c.1) false
    rw [upsertCall_ids_self]
    refine ⟨hid, hnames.keeps ?_⟩
    rcases upsertAddr_topo tel clock c.1 st c.2 with heq | ⟨k, heq⟩
    · rw [upsertCall, heq]
      exact Keeps.refl _
    · rw [upsertCall, heq]
      exact fun j _ => setNode_same (sameNode_updateNodeHealth _ _ _ _) j
  · intro st c b hc hst hbc hb hbne
    obtain ⟨hid, hnames⟩ := hb hbne
    rw [upsertCall_ids_of_ne tel clock st hbc]
    exact ⟨hid, hnames.keeps (hkeeps st c hc hst)⟩
  · intro c hc
    exact upserted_length hfits (mem_upsertCalls.mp hc).2

end Scan

/-- The scan collects ids in the places of its upserts only. -/
theorem ids_only (tel : TelemetryState) (clock : ℕ → ℕ → UInt64) (topo : Topology) {i a : ℕ}
    (hia : (upsertHops tel clock topo).2 i a ≠ 0) :
    ∃ c ∈ upsertCalls tel, place c = (i, a) := by
  rw [upsertHops_eq_foldl] at hia
  revert i a
  refine List.foldlRecOn (motive := fun st : Topology × HopIds => ∀ {i a : ℕ}, st.2 i a ≠ 0 →
    ∃ c ∈ upsertCalls tel, place c = (i, a)) _ _ (fun h0 => absurd rfl h0) ?_
  intro st hst c hc i a hia
  by_cases heq : (i, a) = place c
  · exact ⟨c, hc, heq.symm⟩
  · rw [upsertCall_ids_of_ne tel clock st heq] at hia
    exact hst hia

/-! ## The links of an update -/

/-- The links out of one node of a hop. -/
def linkFromCalls (ids : HopIds) (destId i srcIdx : ℕ) : List (ℕ × ℕ) :=
  let src := ids i srcIdx
  if src = 0 then []
  else
    let next := addrPositions.map (ids (i + 1)) |>.filter (· ≠ 0)
    next.map (Prod.mk src) ++ if next = [] ∧ destId ≠ 0 then [(src, destId)] else []

/-- The links of a hop to the destination. -/
def linkDestCalls (ids : HopIds) (destId last : ℕ) : List (ℕ × ℕ) :=
  (addrPositions.map (ids last)).filter (fun src => src ≠ 0 ∧ src ≠ destId) |>.map (·, destId)

/-- The links of an update, in order. -/
def linkCalls (ids : HopIds) (destId : ℕ) : List (ℕ × ℕ) :=
  ((List.range' 1 (maxHops - 2)).flatMap fun i =>
      addrPositions.flatMap (linkFromCalls ids destId i)) ++
    if 0 < lastTtl ids ∧ destId ≠ 0 then linkDestCalls ids destId (lastTtl ids) else []

/-- One of the links. -/
def linkCall (topo : Topology) (c : ℕ × ℕ) : Topology := topo.addEdge c.1 c.2

theorem linkCall_mk (topo : Topology) (src dst : ℕ) :
    topo.linkCall (src, dst) = topo.addEdge src dst := rfl

theorem linkFrom_eq_foldl (ids : HopIds) (destId i : ℕ) (topo : Topology) (srcIdx : ℕ) :
    linkFrom ids destId i topo srcIdx =
      (linkFromCalls ids destId i srcIdx).foldl linkCall topo := by
  rw [linkFrom, linkFromCalls]
  dsimp only
  split
  · rfl
  · generalize (addrPositions.map (ids (i + 1))).filter (fun x => decide (x ≠ 0)) = next
    rw [List.foldl_append, List.foldl_map]
    by_cases hlast : next = [] ∧ destId ≠ 0
    · rw [if_pos hlast, if_pos hlast]
      simp only [List.foldl_cons, List.foldl_nil, linkCall_mk]
    · rw [if_neg hlast, if_neg hlast]
      simp only [List.foldl_nil, linkCall_mk]

theorem linkHops_eq_foldl (ids : HopIds) (destId : ℕ) (topo : Topology) :
    linkHops ids destId topo =
      ((List.range' 1 (maxHops - 2)).flatMap fun i =>
        addrPositions.flatMap (linkFromCalls ids destId i)).foldl linkCall topo := by
  have hhop : ∀ (topo : Topology) (i : ℕ),
      (addrPositions.flatMap (linkFromCalls ids destId i)).foldl linkCall topo =
        addrPositions.foldl (linkFrom ids destId i) topo := by
    intro topo i
    rw [List.foldl_flatMap]
    exact congrArg (fun f => addrPositions.foldl f topo)
      (funext₂ fun topo a => (linkFrom_eq_foldl ids destId i topo a).symm)
  rw [linkHops, List.foldl_flatMap]
  simp only [hhop]

theorem linkDest_eq_foldl (ids : HopIds) (destId last : ℕ) (topo : Topology) :
    linkDest ids destId last topo = (linkDestCalls ids destId last).foldl linkCall topo := by
  rw [linkDest, linkDestCalls, List.foldl_map, List.foldl_filter, List.foldl_map]
  congr 1
  funext topo a
  simp only [decide_eq_true_eq]
  rfl

/-- The edges that an update leaves are those its links make. -/
theorem linkLast_edges (ids : HopIds) (destId : ℕ) (topo : Topology) :
    (linkLast ids destId (linkHops ids destId topo)).edges =
      ((linkCalls ids destId).foldl linkCall topo).edges := by
  rw [linkCalls, List.foldl_append, ← linkHops_eq_foldl, linkLast]
  dsimp only
  split
  · rw [← linkDest_eq_foldl]
    split
    · rfl
    · rfl
  · rfl

/-- There is no room for a link that is not there yet. -/
def LinkRefused (topo : Topology) (c : ℕ × ℕ) : Prop :=
  c.1 ≠ 0 ∧ c.2 ≠ 0 ∧ c.1 ≠ c.2 ∧ ¬topo.Edge c.1 c.2 ∧ topologyMaxEdges ≤ topo.edgeCount

/-- **No link of an update is refused for lack of room.** -/
structure EdgesFit (topo : Topology) (tel : TelemetryState) (clock : ℕ → ℕ → UInt64) : Prop where
  links : Along linkCall (fun topo c => ¬topo.LinkRefused c)
    (upsertHops tel clock (topo.upsertNode tel.targetIp 0 tel.targetIp true).2).1
    (linkCalls (upsertHops tel clock (topo.upsertNode tel.targetIp 0 tel.targetIp true).2).2
      (topo.upsertNode tel.targetIp 0 tel.targetIp true).1)

/-- A free slot, while the edges are fewer than the slots. -/
theorem Inv.exists_free {topo : Topology} (h : topo.Inv)
    (hroom : topo.edgeCount < topologyMaxEdges) : ∃ e, (topo.edges e).active = false := by
  by_contra hall
  have hactive : ∀ e, ActiveEdge (topo.edges e) := fun e => by
    by_contra he
    exact hall ⟨e, Bool.eq_false_of_not_eq_true he⟩
  have hcount : TableCount.count ActiveEdge topo.edges = topologyMaxEdges := by
    rw [TableCount.count, Set.eq_univ_of_forall (s := {e | ActiveEdge (topo.edges e)}) hactive,
      Set.ncard_univ, Nat.card_fin]
  have htotal := h.edgeTotal
  omega

theorem addEdge_count_le (topo : Topology) (src dst : ℕ) :
    (topo.addEdge src dst).edgeCount ≤ topo.edgeCount + 1 := by
  rcases addEdge_cases topo src dst with heq | ⟨i, -, -, -, -, heq⟩
  · rw [heq]
    exact Nat.le_succ _
  · rw [heq]
    exact Nat.le_refl _

theorem Edge.addEdge {topo : Topology} {src dst : ℕ} (h : topo.Edge src dst) (a b : ℕ) :
    (topo.addEdge a b).Edge src dst := by
  rcases addEdge_cases topo a b with heq | ⟨i, -, -, -, hfree, heq⟩
  · rw [heq]
    exact h
  · obtain ⟨e, hact, hsrc, hdst⟩ := h
    have hei : e ≠ i := by
      rintro rfl
      rw [hfree] at hact
      exact Bool.false_ne_true hact
    rw [heq]
    refine ⟨e, ?_⟩
    simp only [insertEdge, Function.update_of_ne hei]
    exact ⟨hact, hsrc, hdst⟩

/-- **A link that is not refused is there afterwards.** -/
theorem Inv.edge_addEdge {topo : Topology} (h : topo.Inv) {src dst : ℕ} (hsrc : src ≠ 0)
    (hdst : dst ≠ 0) (hne : src ≠ dst) (hfit : ¬topo.LinkRefused (src, dst)) :
    (topo.addEdge src dst).Edge src dst := by
  by_cases hthere : topo.Edge src dst
  · exact hthere.addEdge src dst
  have hroom : topo.edgeCount < topologyMaxEdges := by
    by_contra hfull
    exact hfit ⟨hsrc, hdst, hne, hthere, by omega⟩
  have hnone : ¬((List.finRange topologyMaxEdges).any fun i =>
      (topo.edges i).active && (topo.edges i).src == src && (topo.edges i).dst == dst) = true := by
    rw [List.any_eq_true]
    rintro ⟨e, -, he⟩
    simp only [Bool.and_eq_true, beq_iff_eq] at he
    exact hthere ⟨e, he.1.1, he.1.2, he.2⟩
  rw [Topology.addEdge, if_neg (by simp [hsrc, hdst, hne]), if_neg (by omega), if_neg hnone]
  cases hfind : (List.finRange topologyMaxEdges).find? fun i => !(topo.edges i).active with
  | none =>
    obtain ⟨e, hfree⟩ := h.exists_free hroom
    have hact := List.find?_eq_none.mp hfind e (List.mem_finRange e)
    simp [hfree] at hact
  | some i =>
    refine ⟨i, ?_⟩
    simp only [Topology.insertEdge, Function.update_self]
    exact ⟨trivial, trivial, trivial⟩

theorem Path.addEdge {topo : Topology} {src dst : ℕ} (h : topo.Path src dst) (a b : ℕ) :
    (topo.addEdge a b).Path src dst :=
  Relation.ReflTransGen.mono (fun _ _ hedge => Edge.addEdge hedge a b) src dst h

theorem Path.of_edges {topo topo' : Topology} (h : topo'.edges = topo.edges) {src dst : ℕ}
    (hp : topo.Path src dst) : topo'.Path src dst := by
  have hle : topo.Edge ≤ topo'.Edge := by
    intro a b hedge
    rwa [Edge, h]
  exact Relation.ReflTransGen.mono hle src dst hp

/-- **Every link of an update is a path afterwards**, if none is refused. -/
theorem path_of_link {topo : Topology} (h : topo.Inv) {targetIp : List UInt8}
    {calls : List (ℕ × ℕ)}
    (hends : ∀ c ∈ calls, topo.Denotes c.1 targetIp ∧ topo.Denotes c.2 targetIp)
    (hfit : Along linkCall (fun topo c => ¬topo.LinkRefused c) topo calls) :
    ∀ c ∈ calls, (calls.foldl linkCall topo).Path c.1 c.2 := by
  refine hfit.gains (I := Linked topo) (R := fun _ _ => True)
    (M := fun c => topo.Denotes c.1 targetIp ∧ topo.Denotes c.2 targetIp)
    (Q := fun topo c => topo.Path c.1 c.2) ?_ ?_ ?_ hends ?_ ⟨h, rfl⟩
  · exact fun t c hc ht => ht.addEdge hc.1 hc.2
  · intro t c hc ht hroom
    by_cases hself : c.1 = c.2
    · rw [hself]
      exact Relation.ReflTransGen.refl
    · exact Relation.ReflTransGen.single
        (ht.inv.edge_addEdge (h.id_pos hc.1) (h.id_pos hc.2) hself hroom)
  · exact fun t c b _ _ _ hb => Path.addEdge hb c.1 c.2
  · exact List.pairwise_of_forall fun _ _ => trivial

/-! ## From the last hop down -/

section Down

variable {ids : HopIds} {destId : ℕ}

theorem mem_linkFromCalls_next {i a b : ℕ} (hb : b ∈ addrPositions) (hsrc : ids i a ≠ 0)
    (hdst : ids (i + 1) b ≠ 0) : (ids i a, ids (i + 1) b) ∈ linkFromCalls ids destId i a := by
  rw [linkFromCalls]
  dsimp only
  rw [if_neg hsrc, List.mem_append]
  refine .inl (List.mem_map.mpr ⟨ids (i + 1) b, List.mem_filter.mpr ⟨?_, ?_⟩, rfl⟩)
  · exact List.mem_map_of_mem hb
  · exact decide_eq_true hdst

theorem mem_linkFromCalls_dest {i a : ℕ} (hsrc : ids i a ≠ 0) (hdest : destId ≠ 0)
    (hgap : ∀ b ∈ addrPositions, ids (i + 1) b = 0) :
    (ids i a, destId) ∈ linkFromCalls ids destId i a := by
  have hnil : (addrPositions.map (ids (i + 1))).filter (fun x => decide (x ≠ 0)) = [] := by
    rw [List.filter_eq_nil_iff]
    intro x hx
    obtain ⟨b, hb, rfl⟩ := List.mem_map.mp hx
    simp [hgap b hb]
  rw [linkFromCalls]
  dsimp only
  rw [if_neg hsrc, hnil, if_pos ⟨rfl, hdest⟩]
  exact List.mem_append_right _ (List.mem_singleton_self _)

theorem mem_linkCalls_hop {i a : ℕ} (hi : 1 ≤ i ∧ i < maxHops - 1) (ha : a ∈ addrPositions)
    {c : ℕ × ℕ} (hc : c ∈ linkFromCalls ids destId i a) : c ∈ linkCalls ids destId := by
  refine List.mem_append_left _ (List.mem_flatMap.mpr ⟨i, List.mem_range'_1.mpr ?_, ?_⟩)
  · simp only [maxHops] at hi ⊢
    omega
  · exact List.mem_flatMap.mpr ⟨a, ha, hc⟩

theorem lastTtl_eq (hprim : ids (maxHops - 1) 0 ≠ 0) : lastTtl ids = maxHops - 1 := by
  have hrange : (List.range' 1 (maxHops - 1)).reverse =
      (maxHops - 1) :: (List.range' 1 (maxHops - 2)).reverse := by decide
  rw [lastTtl, hrange, List.find?_cons_of_pos (by simpa using hprim), Option.getD_some]

theorem mem_linkCalls_last {a : ℕ} (hprim : ids (maxHops - 1) 0 ≠ 0) (hdest : destId ≠ 0)
    (ha : a ∈ addrPositions) (hsrc : ids (maxHops - 1) a ≠ 0)
    (hne : ids (maxHops - 1) a ≠ destId) :
    (ids (maxHops - 1) a, destId) ∈ linkCalls ids destId := by
  have hlast := lastTtl_eq hprim
  refine List.mem_append_right _ ?_
  rw [hlast, if_pos ⟨by decide, hdest⟩]
  refine List.mem_map.mpr ⟨ids (maxHops - 1) a, List.mem_filter.mpr ⟨?_, ?_⟩, rfl⟩
  · exact List.mem_map_of_mem ha
  · exact decide_eq_true ⟨hsrc, hne⟩

/-- **Every id collected has a path to the destination.**  The induction is on the distance from
the last hop; a silent next hop and the last hop itself are the two ends. -/
theorem path_of_id {topo : Topology} (hdest : destId ≠ 0)
    (hids : ∀ i a, ids i a ≠ 0 → a ∈ addrPositions ∧ ids i 0 ≠ 0)
    (hlinks : ∀ c ∈ linkCalls ids destId, topo.Path c.1 c.2) {n i a : ℕ} (hi : 1 ≤ i)
    (hn : i + n = maxHops - 1) (hia : ids i a ≠ 0) : topo.Path (ids i a) destId := by
  obtain ⟨ha, hprim⟩ := hids i a hia
  induction n generalizing i a with
  | zero =>
    obtain rfl : i = maxHops - 1 := hn
    by_cases hself : ids (maxHops - 1) a = destId
    · rw [hself]
      exact Relation.ReflTransGen.refl
    · exact hlinks _ (mem_linkCalls_last hprim hdest ha hia hself)
  | succ n ih =>
    have hhop : 1 ≤ i ∧ i < maxHops - 1 := ⟨hi, by omega⟩
    by_cases hnext : ∃ b ∈ addrPositions, ids (i + 1) b ≠ 0
    · obtain ⟨b, hb, hib⟩ := hnext
      have hcall : (ids i a, ids (i + 1) b) ∈ linkFromCalls ids destId i a :=
        mem_linkFromCalls_next hb hia hib
      have hstep := hlinks _ (mem_linkCalls_hop hhop ha hcall)
      exact hstep.trans (ih (by omega) (by omega) hib hb (hids (i + 1) b hib).2)
    · push Not at hnext
      exact hlinks _ (mem_linkCalls_hop hhop ha (mem_linkFromCalls_dest hia hdest hnext))

theorem linkCalls_ends {topo : Topology} {targetIp : List UInt8}
    (hends : Ends topo ids destId targetIp) :
    ∀ c ∈ linkCalls ids destId, topo.Denotes c.1 targetIp ∧ topo.Denotes c.2 targetIp := by
  intro c hc
  rcases List.mem_append.mp hc with hc | hc
  · obtain ⟨i, -, hc⟩ := List.mem_flatMap.mp hc
    obtain ⟨a, -, hc⟩ := List.mem_flatMap.mp hc
    rw [linkFromCalls] at hc
    dsimp only at hc
    split at hc
    · exact absurd hc List.not_mem_nil
    next hsrc =>
    rcases List.mem_append.mp hc with hc | hc
    · obtain ⟨x, hx, rfl⟩ := List.mem_map.mp hc
      obtain ⟨hmem, hne⟩ := List.mem_filter.mp hx
      obtain ⟨b, -, rfl⟩ := List.mem_map.mp hmem
      exact ⟨hends.hop i a hsrc, hends.hop (i + 1) b (by simpa using hne)⟩
    · split at hc
      · next hlast =>
        obtain rfl := List.mem_singleton.mp hc
        exact ⟨hends.hop i a hsrc, hends.dest hlast.2⟩
      · exact absurd hc List.not_mem_nil
  · split at hc
    · next hlast =>
      obtain ⟨x, hx, rfl⟩ := List.mem_map.mp hc
      obtain ⟨hmem, hne⟩ := List.mem_filter.mp hx
      obtain ⟨a, -, rfl⟩ := List.mem_map.mp hmem
      have hsrc := of_decide_eq_true hne
      exact ⟨hends.hop _ a hsrc.1, hends.dest hlast.2⟩
    · exact absurd hc List.not_mem_nil

end Down

/-! ## The path -/

/-- A snapshot has an address: the primary one of a hop that has answered, or an alias of it. -/
def Lists (tel : TelemetryState) (addr : List UInt8) : Prop :=
  ∃ i, 1 ≤ i ∧ i < maxHops ∧ (tel.hops i).addr ≠ [] ∧
    (addr = (tel.hops i).addr ∨ ∃ a ∈ (tel.hops i).aliases, addr = a.addr)

theorem Lists.exists_call {tel : TelemetryState} {addr : List UInt8} (h : Lists tel addr) :
    ∃ c ∈ upsertCalls tel, c.2.2.1 = addr := by
  obtain ⟨i, h1, h2, hne, hwhere⟩ := h
  have hup : upserted tel i = hopAddrs (tel.hops i) := if_neg hne
  rcases hwhere with rfl | ⟨a, ha, rfl⟩
  · refine ⟨(i, 0, (tel.hops i).addr, (tel.hops i).primaryRecv),
      mem_upsertCalls.mpr ⟨⟨h1, h2⟩, ?_⟩, rfl⟩
    rw [hup]
    exact List.mem_cons_self
  · obtain ⟨k, hk, rfl⟩ := List.mem_iff_getElem.mp ha
    refine ⟨(i, 1 + k, (tel.hops i).aliases[k].addr, (tel.hops i).aliases[k].recv),
      mem_upsertCalls.mpr ⟨⟨h1, h2⟩, ?_⟩, rfl⟩
    rw [hup]
    refine List.mem_cons_of_mem _ (List.mem_map.mpr ⟨((tel.hops i).aliases[k], k), ?_, rfl⟩)
    exact List.mem_zipIdx_iff_getElem?.mpr (List.getElem?_eq_getElem hk)

/-- The place of an upsert: a position of the addresses of a hop whose primary address is upserted
too. -/
theorem place_of_call {tel : TelemetryState} (hfits : tel.Fits) {c : ℕ × ℕ × List UInt8 × ℕ}
    (hc : c ∈ upsertCalls tel) : (1 ≤ c.1 ∧ c.1 < maxHops) ∧ c.2.1 ∈ addrPositions ∧
      ∃ p ∈ upsertCalls tel, place p = (c.1, 0) ∧ p.2.2.1 ≠ [] := by
  obtain ⟨hhop, hmem⟩ := mem_upsertCalls.mp hc
  have hne : (tel.hops c.1).addr ≠ [] := by
    intro hnil
    rw [upserted, if_pos hnil] at hmem
    exact absurd hmem List.not_mem_nil
  rw [upserted, if_neg hne] at hmem
  refine ⟨hhop, ?_, (c.1, 0, (tel.hops c.1).addr, (tel.hops c.1).primaryRecv),
    mem_upsertCalls.mpr ⟨hhop, ?_⟩, rfl, hne⟩
  · have hpos : c.2.1 ∈ (hopAddrs (tel.hops c.1)).map Prod.fst := List.mem_map_of_mem hmem
    rw [map_fst_hopAddrs, List.mem_range] at hpos
    have hal := (hfits.hops c.1).aliases
    exact List.mem_range.mpr (by omega)
  · rw [upserted, if_neg hne]
    exact List.mem_cons_self

/-- **The path to the destination.**  Whatever has happened to the topology, after an update with a
target, none of whose upserts and none of whose links was refused for lack of room, there is a node
for the target, and for every address of the snapshot there is a node with a path of active edges to
it, whatever hops are silent and whatever addresses answer at several distances. -/
theorem path_to_destination {topo : Topology} (h : Reachable Step init topo)
    {tel : TelemetryState} (hfits : tel.Fits) (hne : tel.targetIp ≠ [])
    (clock : ℕ → ℕ → UInt64) (hnodes : topo.NodesFit tel clock)
    (hedges : topo.EdgesFit tel clock) :
    ∃ destId, (topo.updateFromTelemetry tel clock).Names destId tel.targetIp tel.targetIp ∧
      ∀ addr, Lists tel addr → addr ≠ [] →
        ∃ id, (topo.updateFromTelemetry tel clock).Names id addr tel.targetIp ∧
          (topo.updateFromTelemetry tel clock).Path id destId := by
  have hinv := (inv_of_reachable init_inv h).1
  obtain ⟨hinv', hpres', hden⟩ := hinv.upsertNode hfits.targetIp hfits.targetIp 0 true
  obtain ⟨hdest, hname⟩ := hinv.upsertNode_names hne hne hfits.targetIp hfits.targetIp hnodes.dest 0
    true
  obtain ⟨st, hst, hscan, -, hafter⟩ := updateFromTelemetry_parts hinv hfits clock hne
  have hupdate : topo.updateFromTelemetry tel clock =
      linkLast st.2 (topo.upsertNode tel.targetIp 0 tel.targetIp true).1
        (linkHops st.2 (topo.upsertNode tel.targetIp 0 tel.targetIp true).1 st.1) := by
    rw [Topology.updateFromTelemetry, if_neg hne, hst]
  have hkeep : Keeps st.1 (topo.updateFromTelemetry tel clock) := by
    intro i _
    obtain ⟨ttl, hi⟩ := hafter i
    rw [hi]
    exact ⟨rfl, rfl, rfl, rfl⟩
  have hnames := ids_name hfits hne clock hinv' hnodes.hops
  have honly := fun i a => ids_only tel clock
    (topo.upsertNode tel.targetIp 0 tel.targetIp true).2 (i := i) (a := a)
  have hfit := hedges.links
  rw [← hst] at hnames honly hfit
  generalize topo.upsertNode tel.targetIp 0 tel.targetIp true = r at *
  have hends : Ends st.1 st.2 r.1 tel.targetIp :=
    ⟨hscan.ids, fun hne => (hden hne).keeps hscan.preserves.keeps⟩
  have hids : ∀ i a, st.2 i a ≠ 0 → a ∈ addrPositions ∧ st.2 i 0 ≠ 0 := by
    intro i a hia
    obtain ⟨c, hc, hplace⟩ := honly i a hia
    obtain ⟨rfl, rfl⟩ := Prod.mk.inj hplace
    obtain ⟨-, hpos, p, hp, hpp, hpne⟩ := place_of_call hfits hc
    obtain ⟨hp1, hp2⟩ := Prod.mk.inj hpp
    have hprim := (hnames p hp hpne).1
    rw [hp1, hp2] at hprim
    exact ⟨hpos, hprim⟩
  have hlinks : ∀ c ∈ linkCalls st.2 r.1, (topo.updateFromTelemetry tel clock).Path c.1 c.2 := by
    intro c hc
    rw [hupdate]
    exact (path_of_link hscan.inv (linkCalls_ends hends) hfit c hc).of_edges
      (linkLast_edges st.2 r.1 st.1)
  refine ⟨r.1, (hname.keeps hscan.preserves.keeps).keeps hkeep, fun addr hlists haddr => ?_⟩
  obtain ⟨c, hc, rfl⟩ := hlists.exists_call
  obtain ⟨hid, hc'⟩ := hnames c hc haddr
  obtain ⟨hhop, -⟩ := place_of_call hfits hc
  exact ⟨st.2 c.1 c.2.1, hc'.keeps hkeep, path_of_id hdest hids hlinks (n := maxHops - 1 - c.1)
    hhop.1 (by omega) hid⟩

/-- The hop `"a"` of a route to `"t"` has a path to it. -/
theorem path_to_destination_one_hop :
    ∃ id destId,
      (init.updateFromTelemetry (oneHopRoute [97]) fun _ _ => 0).Names id [97] [116] ∧
        (init.updateFromTelemetry (oneHopRoute [97]) fun _ _ => 0).Names destId [116] [116] ∧
        (init.updateFromTelemetry (oneHopRoute [97]) fun _ _ => 0).Path id destId := by
  have hcalls : upsertCalls (oneHopRoute [97]) = [(1, 0, [97], 0)] := by decide
  have hnodes : init.NodesFit (oneHopRoute [97]) fun _ _ => 0 := by
    refine ⟨fun hfull => absurd hfull.2.2.2 (by decide), ?_⟩
    rw [hcalls]
    exact ⟨fun hfull => absurd hfull.2.2.2 (by decide +kernel), trivial⟩
  have hedges : init.EdgesFit (oneHopRoute [97]) fun _ _ => 0 := by
    constructor
    have hlinks : linkCalls (upsertHops (oneHopRoute [97]) (fun _ _ => 0)
        (init.upsertNode (oneHopRoute [97]).targetIp 0 (oneHopRoute [97]).targetIp true).2).2
        (init.upsertNode (oneHopRoute [97]).targetIp 0 (oneHopRoute [97]).targetIp true).1 =
        [(2, 1), (2, 1)] := by decide +kernel
    have hcount : (upsertHops (oneHopRoute [97]) (fun _ _ => 0)
        (init.upsertNode (oneHopRoute [97]).targetIp 0
          (oneHopRoute [97]).targetIp true).2).1.edgeCount = 0 := by decide +kernel
    rw [hlinks]
    generalize (upsertHops (oneHopRoute [97]) (fun _ _ => 0) (init.upsertNode
      (oneHopRoute [97]).targetIp 0 (oneHopRoute [97]).targetIp true).2).1 = topo at hcount
    have hle := addEdge_count_le topo 2 1
    refine ⟨fun hfull => ?_, fun hfull => ?_, trivial⟩
    · have hroom := hfull.2.2.2.2
      rw [hcount] at hroom
      exact absurd hroom (by decide)
    · have hroom : 2048 ≤ (topo.addEdge 2 1).edgeCount := hfull.2.2.2.2
      omega
  have hlists : Lists (oneHopRoute [97]) [97] :=
    ⟨1, by decide, by decide, by decide, .inl (by decide)⟩
  have hfits : (oneHopRoute [97]).Fits := oneHopRoute_fits (by decide)
  obtain ⟨destId, hdest, hpath⟩ :=
    path_to_destination Reachable.refl hfits (by decide) (fun _ _ => 0) hnodes hedges
  obtain ⟨id, hid, hto⟩ := hpath [97] hlists (by decide)
  exact ⟨id, destId, hid, hdest, hto⟩

end Topology
end Nsr
