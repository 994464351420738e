import Nsr.Topology.Invariant

/-!
# The destination of a route

An update upserts the node of the target first, as the destination, and then every address that has
answered at some distance, none of them as the destination.  The node of the target is the one named
by the target twice; so when the target itself has answered, the scan over the hops comes to that
node again and takes the mark away.

* `Honest`: a node marked as a destination carries its target's address.
* `DestFlag`: the mark of the target's node.
* `DestFlag.upsertHops`: the mark survives the scan exactly if no hop has the target's address.
* `destination_marked_iff`: so an update leaves exactly one destination, the target's node, exactly
  if the target has not answered.
-/

namespace Nsr
namespace Topology

open Transition

/-- A node marked as a destination carries its target's address. -/
def Honest (topo : Topology) : Prop :=
  ∀ i, (topo.nodes i).active = true → (topo.nodes i).isDestination = true →
    (topo.nodes i).addr = (topo.nodes i).targetIp

/-- The mark of the node of a target. -/
def DestFlag (targetIp : List UInt8) (b : Bool) (topo : Topology) : Prop :=
  ∃ i, (topo.nodes i).active = true ∧ (topo.nodes i).addr = targetIp ∧
    (topo.nodes i).targetIp = targetIp ∧ (topo.nodes i).isDestination = b

/-- The nodes of two topologies are the same, and so are the destinations. -/
structure SameMarks (topo topo' : Topology) : Prop where
  node : ∀ i, SameNode (topo.nodes i) (topo'.nodes i)
  dest : ∀ i, (topo'.nodes i).isDestination = (topo.nodes i).isDestination

theorem Honest.same {topo topo' : Topology} (h : topo.Honest) (hs : SameMarks topo topo') :
    topo'.Honest := by
  intro i hact hdest
  rw [(hs.node i).active] at hact
  rw [hs.dest i] at hdest
  rw [(hs.node i).addr, (hs.node i).targetIp]
  exact h i hact hdest

theorem DestFlag.same {targetIp : List UInt8} {b : Bool} {topo topo' : Topology}
    (h : DestFlag targetIp b topo) (hs : SameMarks topo topo') : DestFlag targetIp b topo' := by
  obtain ⟨i, hact, haddr, htgt, hdest⟩ := h
  exact ⟨i, (hs.node i).active.trans hact, (hs.node i).addr.trans haddr,
    (hs.node i).targetIp.trans htgt, (hs.dest i).trans hdest⟩

theorem setNode_sameMarks {topo : Topology} {i : Fin topologyMaxNodes} {n : TopologyNode}
    (hn : SameNode (topo.nodes i) n) (hdest : n.isDestination = (topo.nodes i).isDestination) :
    SameMarks topo (topo.setNode i n) := by
  refine ⟨setNode_same hn, fun j => ?_⟩
  show (Function.update topo.nodes i n j).isDestination = _
  by_cases hji : j = i
  · subst hji
    rw [Function.update_self]
    exact hdest
  · rw [Function.update_of_ne hji]

/-! ## One upsert -/

/-- An upsert as the destination is one of the target's own address. -/
theorem Honest.upsertNode {topo : Topology} (h : topo.Honest) {addr targetIp : List UInt8}
    {isDestination : Bool} (hflag : isDestination = true → addr = targetIp) (ttl : UInt8) :
    (topo.upsertNode addr ttl targetIp isDestination).2.Honest := by
  rcases upsertNode_cases topo addr ttl targetIp isDestination with
    ⟨heq, -⟩ | ⟨i, -, haddr, htgt, heq⟩ | ⟨-, -, heq⟩
  · rw [heq]
    exact h
  · rw [heq]
    intro j
    show (Function.update topo.nodes i _ j).active = true → _ → _
    by_cases hji : j = i
    · subst hji
      intro _ hdest
      simp only [setNode, Function.update_self] at hdest ⊢
      rw [haddr, htgt, hflag hdest]
    · simp only [setNode, Function.update_of_ne hji]
      exact h j
  · rw [heq]
    intro j hact hdest
    by_cases hji : j = slotOf topo.nextId
    · subst hji
      simp only [insertNode, Function.update_self] at hdest ⊢
      show addr.take 47 = targetIp.take 47
      rw [hflag hdest]
    · simp only [insertNode, Function.update_of_ne hji] at hact hdest ⊢
      exact h j hact hdest

/-- After the upsert of the target its node is marked, if there is one or room for one. -/
theorem destFlag_target {topo : Topology} {targetIp : List UInt8} (hne : targetIp ≠ [])
    (hlen : targetIp.length ≤ 47)
    (hroom : topo.Has targetIp targetIp ∨ topo.nodeCount < topologyMaxNodes) (ttl : UInt8) :
    DestFlag targetIp true (topo.upsertNode targetIp ttl targetIp true).2 := by
  rcases upsertNode_cases topo targetIp ttl targetIp true with
    ⟨-, hnil | hnil | ⟨hnew, hfull⟩⟩ | ⟨i, hact, haddr, htgt, heq⟩ | ⟨-, -, heq⟩
  · exact absurd hnil hne
  · exact absurd hnil hne
  · rcases hroom with hhas | hroom
    · exact absurd hhas hnew
    · omega
  · rw [heq]
    refine ⟨i, ?_⟩
    simp only [setNode, Function.update_self]
    exact ⟨hact, haddr, htgt, trivial⟩
  · rw [heq]
    refine ⟨slotOf topo.nextId, ?_⟩
    simp only [insertNode, Function.update_self]
    exact ⟨rfl, List.take_of_length_le hlen, List.take_of_length_le hlen, rfl⟩

/-- **An upsert of the scan** takes the mark away if it is one of the target's own address, and
leaves it alone otherwise. -/
theorem DestFlag.upsertNode {topo : Topology} (hinv : topo.Inv) (addr : List UInt8)
    {targetIp : List UInt8} {b : Bool} (hne : targetIp ≠ []) (h : DestFlag targetIp b topo)
    (ttl : UInt8) :
    DestFlag targetIp (b && addr != targetIp) (topo.upsertNode addr ttl targetIp false).2 := by
  obtain ⟨i, hact, haddr, htgt, hdest⟩ := h
  rcases upsertNode_cases topo addr ttl targetIp false with
    ⟨heq, hwhy⟩ | ⟨j, hj, hjaddr, hjtgt, heq⟩ | ⟨hnew, hroom, heq⟩
  · have hother : addr ≠ targetIp := by
      rintro rfl
      rcases hwhy with hnil | hnil | ⟨hnew, -⟩
      · exact hne hnil
      · exact hne hnil
      · exact hnew ⟨i, hact, haddr, htgt⟩
    rw [heq, bne_iff_ne.mpr hother, Bool.and_true]
    exact ⟨i, hact, haddr, htgt, hdest⟩
  · rw [heq]
    by_cases hself : addr = targetIp
    · have hij : j = i := hinv.unique j i hj hact (by rw [hjaddr, haddr, hself])
        (by rw [hjtgt, htgt])
      refine ⟨i, ?_⟩
      simp only [setNode, hij, Function.update_self]
      exact ⟨hact, haddr, htgt, by simp [hself]⟩
    · have hij : i ≠ j := by
        rintro rfl
        exact hself (hjaddr.symm.trans haddr)
      refine ⟨i, ?_⟩
      simp only [setNode, Function.update_of_ne hij]
      rw [bne_iff_ne.mpr hself, Bool.and_true]
      exact ⟨hact, haddr, htgt, hdest⟩
  · have hself : addr ≠ targetIp := by
      rintro rfl
      exact hnew ⟨i, hact, haddr, htgt⟩
    have hi : i ≠ slotOf topo.nextId := by
      rintro rfl
      rw [hinv.nextSlot_free hroom] at hact
      exact Bool.false_ne_true hact
    rw [heq, bne_iff_ne.mpr hself, Bool.and_true]
    refine ⟨i, ?_⟩
    simp only [insertNode, Function.update_of_ne hi]
    exact ⟨hact, haddr, htgt, hdest⟩

/-! ## The scan over the hops -/

theorem upsertAddr_sameMarks (tel : TelemetryState) (clock : ℕ → ℕ → UInt64) (i : ℕ)
    (st : Topology × HopIds) (a : ℕ × List UInt8 × ℕ) :
    SameMarks (st.1.upsertNode a.2.1 (UInt8.ofNat i) tel.targetIp false).2
      (upsertAddr tel clock i st a).1 := by
  rcases upsertAddr_topo tel clock i st a with heq | ⟨k, heq⟩
  · rw [heq]
    exact ⟨fun _ => SameNode.refl _, fun _ => rfl⟩
  · rw [heq]
    exact setNode_sameMarks (sameNode_updateNodeHealth _ _ _ _) rfl

theorem Honest.upsertHops {topo : Topology} (h : topo.Honest) (tel : TelemetryState)
    (clock : ℕ → ℕ → UInt64) : (upsertHops tel clock topo).1.Honest := by
  refine List.foldlRecOn (motive := fun st : Topology × HopIds => st.1.Honest) _ _ h
    fun st hst i _ => ?_
  refine List.foldlRecOn (motive := fun st : Topology × HopIds => st.1.Honest) _ _ hst
    fun st hst a _ => ?_
  have hflag : false = true → a.2.1 = tel.targetIp := fun hf => absurd hf Bool.false_ne_true
  exact (hst.upsertNode hflag (UInt8.ofNat i)).same (upsertAddr_sameMarks tel clock i st a)

/-- The scan comes to the node of the target at this hop. -/
def answersAt (tel : TelemetryState) (i : ℕ) : Bool :=
  (upserted tel i).any fun a => a.2.1 == tel.targetIp

section Scan

variable {topo0 : Topology} {tel : TelemetryState} (hfits : tel.Fits) (hne : tel.targetIp ≠ [])
  (clock : ℕ → ℕ → UInt64)

include hfits hne

theorem DestFlag.upsertHop (i : ℕ) {st : Topology × HopIds} (hst : Scan topo0 tel.targetIp st)
    {b : Bool} (h : DestFlag tel.targetIp b st.1) :
    Scan topo0 tel.targetIp (upsertHop tel clock st i) ∧
      DestFlag tel.targetIp (b && !answersAt tel i) (upsertHop tel clock st i).1 := by
  rw [Topology.upsertHop, answersAt]
  have hlen : ∀ a ∈ upserted tel i, a.2.1.length ≤ 47 := fun a ha => upserted_length hfits ha
  generalize upserted tel i = l at hlen ⊢
  induction l generalizing st b with
  | nil =>
    rw [List.any_nil, Bool.not_false, Bool.and_true]
    exact ⟨hst, h⟩
  | cons a l ih =>
    have hstep := hst.upsertAddr hfits.targetIp clock i (hlen a List.mem_cons_self)
    have hflag := (h.upsertNode hst.inv a.2.1 hne (UInt8.ofNat i)).same
      (upsertAddr_sameMarks tel clock i st a)
    rw [List.foldl_cons, List.any_cons, Bool.not_or, ← Bool.and_assoc]
    exact ih hstep hflag fun c hc => hlen c (List.mem_cons_of_mem a hc)

/-- **The mark survives the scan exactly if no hop has the target's address.** -/
theorem DestFlag.upsertHops {topo : Topology} (hinv : topo.Inv) {b : Bool}
    (h : DestFlag tel.targetIp b topo) :
    DestFlag tel.targetIp (b && !(List.range' 1 (maxHops - 1)).any (answersAt tel))
      (upsertHops tel clock topo).1 := by
  rw [Topology.upsertHops]
  have hscan : Scan topo tel.targetIp (topo, fun _ _ => 0) :=
    ⟨hinv, Preserves.refl topo, fun _ _ hne => absurd rfl hne⟩
  have hst : DestFlag tel.targetIp b ((topo, fun _ _ => 0) : Topology × HopIds).1 := h
  clear h
  generalize ((topo, fun _ _ => 0) : Topology × HopIds) = st at hscan hst ⊢
  induction List.range' 1 (maxHops - 1) generalizing st b with
  | nil =>
    rw [List.any_nil, Bool.not_false, Bool.and_true]
    exact hst
  | cons i l ih =>
    obtain ⟨hscan', hst'⟩ := DestFlag.upsertHop hfits hne clock i hscan hst
    rw [List.foldl_cons, List.any_cons, Bool.not_or, ← Bool.and_assoc]
    exact ih _ hscan' hst'

end Scan

/-- **The target has answered**, under its own address, at some distance. -/
def TargetAnswers (tel : TelemetryState) : Prop :=
  ∃ i, 1 ≤ i ∧ i < maxHops ∧ (tel.hops i).addr ≠ [] ∧
    ((tel.hops i).addr = tel.targetIp ∨ ∃ a ∈ (tel.hops i).aliases, a.addr = tel.targetIp)

theorem answersAt_iff (tel : TelemetryState) (i : ℕ) :
    answersAt tel i = true ↔ (tel.hops i).addr ≠ [] ∧
      ((tel.hops i).addr = tel.targetIp ∨
        ∃ a ∈ (tel.hops i).aliases, a.addr = tel.targetIp) := by
  rw [answersAt, upserted]
  split
  · next hnil => simp [hnil]
  · next hne =>
    simp only [hopAddrs, List.any_cons, List.any_map, Bool.or_eq_true, beq_iff_eq, List.any_eq_true,
      Function.comp_apply]
    constructor
    · rintro (hprim | ⟨a, ha, halias⟩)
      · exact ⟨hne, .inl hprim⟩
      · exact ⟨hne, .inr ⟨a.1, List.fst_mem_of_mem_zipIdx ha, halias⟩⟩
    · rintro ⟨-, hprim | ⟨a, ha, halias⟩⟩
      · exact .inl hprim
      · obtain ⟨k, hk, rfl⟩ := List.mem_iff_getElem.mp ha
        exact .inr ⟨((tel.hops i).aliases[k], k), List.mem_zipIdx_iff_getElem?.mpr
          (List.getElem?_eq_getElem hk), halias⟩

theorem any_answersAt_iff (tel : TelemetryState) :
    (List.range' 1 (maxHops - 1)).any (answersAt tel) = true ↔ TargetAnswers tel := by
  rw [List.any_eq_true]
  constructor
  · rintro ⟨i, hi, hans⟩
    have hmem := List.mem_range'_1.mp hi
    exact ⟨i, hmem.1, by have := hmem.2; simp only [maxHops] at this ⊢; omega,
      (answersAt_iff tel i).mp hans⟩
  · rintro ⟨i, h1, h2, hans⟩
    refine ⟨i, List.mem_range'_1.mpr ⟨h1, ?_⟩, (answersAt_iff tel i).mpr hans⟩
    simp only [maxHops] at h2 ⊢
    omega

/-! ## Runs -/

theorem Honest.updateFromTelemetry {topo : Topology} (hinv : topo.Inv) (h : topo.Honest)
    {tel : TelemetryState} (hfits : tel.Fits) (clock : ℕ → ℕ → UInt64) :
    (topo.updateFromTelemetry tel clock).Honest := by
  by_cases htgt : tel.targetIp = []
  · rw [Topology.updateFromTelemetry, if_pos htgt]
    exact h
  obtain ⟨st, rfl, -, -, hnodes⟩ := updateFromTelemetry_parts hinv hfits clock htgt
  have hdest : (topo.upsertNode tel.targetIp 0 tel.targetIp true).2.Honest :=
    h.upsertNode (fun _ => rfl) 0
  have hscan := hdest.upsertHops tel clock
  intro i
  obtain ⟨ttl, hi⟩ := hnodes i
  rw [hi]
  exact hscan i

theorem honest_of_reachable {topo : Topology} (h : Reachable Step init topo) : topo.Honest := by
  refine h.invariant (fun _ hact => absurd hact Bool.false_ne_true) fun t t' ht hhon hstep => ?_
  have hinv := (inv_of_reachable init_inv ht).1
  cases hstep with
  | update tel clock hfits => exact hhon.updateFromTelemetry hinv hfits clock
  | mark i => exact hhon.same (setNode_sameMarks ⟨rfl, rfl, rfl, rfl⟩ rfl)

/-- The mark of the target's node after an update. -/
theorem DestFlag.updateFromTelemetry {topo : Topology} (hinv : topo.Inv) {tel : TelemetryState}
    (hfits : tel.Fits) (hne : tel.targetIp ≠ [])
    (hroom : topo.Has tel.targetIp tel.targetIp ∨ topo.nodeCount < topologyMaxNodes)
    (clock : ℕ → ℕ → UInt64) :
    DestFlag tel.targetIp (!(List.range' 1 (maxHops - 1)).any (answersAt tel))
      (topo.updateFromTelemetry tel clock) := by
  obtain ⟨hinv', -, -⟩ := hinv.upsertNode hfits.targetIp hfits.targetIp 0 true
  obtain ⟨st, rfl, -, -, hnodes⟩ := updateFromTelemetry_parts hinv hfits clock hne
  have hscan := (destFlag_target hne hfits.targetIp hroom 0).upsertHops hfits hne clock hinv'
  rw [Bool.true_and] at hscan
  refine hscan.same ⟨fun i => ?_, fun i => ?_⟩
  · obtain ⟨ttl, hi⟩ := hnodes i
    rw [hi]
    exact ⟨rfl, rfl, rfl, rfl⟩
  · obtain ⟨ttl, hi⟩ := hnodes i
    rw [hi]

/-- **The destination of a route.**  Whatever has happened to the topology, an update with room for
the node of its target leaves exactly one node on the way to that target marked as the destination,
and that one with the address of the target, if and only if the target has not answered at any
distance. -/
theorem destination_marked_iff {topo : Topology} (h : Reachable Step init topo)
    {tel : TelemetryState} (hfits : tel.Fits) (hne : tel.targetIp ≠ [])
    (hroom : topo.Has tel.targetIp tel.targetIp ∨ topo.nodeCount < topologyMaxNodes)
    (clock : ℕ → ℕ → UInt64) :
    (∃ i, ((topo.updateFromTelemetry tel clock).nodes i).addr = tel.targetIp ∧
        ∀ j, (((topo.updateFromTelemetry tel clock).nodes j).active = true ∧
          ((topo.updateFromTelemetry tel clock).nodes j).targetIp = tel.targetIp ∧
          ((topo.updateFromTelemetry tel clock).nodes j).isDestination = true) ↔ j = i) ↔
      ¬TargetAnswers tel := by
  have hinv := (inv_of_reachable init_inv h).1
  obtain ⟨hinv', -⟩ := updateFromTelemetry_spec hinv hfits clock
  have hhon := (honest_of_reachable h).updateFromTelemetry hinv hfits clock
  obtain ⟨i, hact, haddr, htgt, hdest⟩ :=
    DestFlag.updateFromTelemetry hinv hfits hne hroom clock
  rw [← any_answersAt_iff]
  constructor
  · rintro ⟨k, -, hk⟩ hans
    -- the node marked would be the node of the target, which has lost its mark
    obtain ⟨hkact, hktgt, hkdest⟩ := (hk k).mpr rfl
    have hki : k = i := hinv'.unique k i hkact hact
      (by rw [hhon k hkact hkdest, hktgt, haddr]) (by rw [hktgt, htgt])
    rw [hki, hdest, hans] at hkdest
    exact Bool.false_ne_true hkdest
  · intro hans
    refine ⟨i, haddr, fun j => ⟨?_, ?_⟩⟩
    · rintro ⟨hjact, hjtgt, hjdest⟩
      exact hinv'.unique j i hjact hact (by rw [hhon j hjact hjdest, hjtgt, haddr])
        (by rw [hjtgt, htgt])
    · rintro rfl
      rw [hdest, Bool.eq_false_of_not_eq_true hans]
      exact ⟨hact, htgt, rfl⟩

/-- A route whose only hop, `"a"`, is not the target has one destination. -/
theorem destination_marked_iff_one_hop :
    ∃ i, ((init.updateFromTelemetry (oneHopRoute [97]) fun _ _ => 0).nodes i).addr = [116] ∧
      ((init.updateFromTelemetry (oneHopRoute [97]) fun _ _ => 0).nodes i).isDestination =
        true := by
  have hans : ¬TargetAnswers (oneHopRoute [97]) := by
    rintro ⟨i, -, -, hne, hwhere⟩
    by_cases hi : i = 1
    · subst hi
      revert hwhere
      decide
    · exact hne (by simp only [oneHopRoute, if_neg hi]; rfl)
  obtain ⟨i, haddr, hi⟩ := (destination_marked_iff Reachable.refl (oneHopRoute_fits (by decide))
    (by decide) (.inr (by decide)) fun _ _ => 0).mpr hans
  exact ⟨i, haddr, ((hi i).mpr rfl).2.2⟩

/-- **The target answers, one hop away, and there is no destination any more.** -/
theorem destination_lost :
    (oneHopRoute [116]).Fits ∧ (oneHopRoute [116]).targetIp ≠ [] ∧
      init.nodeCount + 2 ≤ topologyMaxNodes ∧
      ∀ i, ((init.updateFromTelemetry (oneHopRoute [116]) fun _ _ => 0).nodes i).isDestination =
        false := by
  refine ⟨oneHopRoute_fits (by decide), ?_⟩
  decide +kernel

end Topology
end Nsr
