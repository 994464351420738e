import Nsr.Lib.Rollup
import Nsr.Topology.Store
import Mathlib.Data.List.DropRight

/-!
# The tree view

`render_tree` of `src/ui/tui.c`, as far as lines are concerned: which nodes and headings the tree
has, in which rows of the screen they are drawn, and how the cursor and the scroll offset are moved
behind the drawing.  What stands in a line, and the columns, are left out.

The cursor counts nodes and the scroll offset counts lines, and every target has a heading above its
nodes.

* `renderTree`: one pass, with what it draws and where it leaves the cursor and the offset.
* `treeTargets`, `treeNodes`, `treeLines`: the headings, the nodes and both together.
* `paint_eq`: the drawing goes through `treeLines`, one line after the other.
* `selectedOnScreen_iff`: when the selected node is on the screen after a pass.
-/

namespace Nsr

open Nsr.Topology

/-- `NSR_MAX_TARGETS`. -/
def maxTargets : ℕ := 8

/-! ## The nodes of the tree -/

namespace Topology

variable (topo : Topology)

/-- A target that has been met, if there is room for it. -/
def addTarget (targets : List (List UInt8)) (targetIp : List UInt8) : List (List UInt8) :=
  if targets.contains targetIp then targets
  else if targets.length < maxTargets then targets ++ [targetIp]
  else targets

/-- The slots in use. -/
def activeSlots : List (Fin topologyMaxNodes) :=
  (List.finRange topologyMaxNodes).filter fun i => (topo.nodes i).active

/-- `targets`, in the order in which they are met. -/
def treeTargets : List (List UInt8) :=
  topo.activeSlots.foldl (fun targets i => addTarget targets (topo.nodes i).targetIp) []

/-- `tnodes`, before they are sorted. -/
def targetSlots (target : List UInt8) : List (Fin topologyMaxNodes) :=
  topo.activeSlots.filter fun i => (topo.nodes i).targetIp = target

/-- A round of the sort: `key` goes in front of the nodes at the end that are farther away. -/
def insertByTtl (tnodes : List (Fin topologyMaxNodes)) (key : Fin topologyMaxNodes) :
    List (Fin topologyMaxNodes) :=
  tnodes.rdropWhile (fun i => (topo.nodes key).ttl < (topo.nodes i).ttl) ++
    key :: tnodes.rtakeWhile fun i => (topo.nodes key).ttl < (topo.nodes i).ttl

/-- `tnodes`, sorted. -/
def sortByTtl (tnodes : List (Fin topologyMaxNodes)) : List (Fin topologyMaxNodes) :=
  tnodes.foldl topo.insertByTtl []

end Topology

/-! ## Drawing -/

/-- The fields of the interface that the tree moves, and the height of the screen. -/
structure TreeView where
  cursor : ℤ
  scroll : ℤ
  maxY : ℤ
  deriving DecidableEq

/-- `avail_rows`. -/
def TreeView.availRows (v : TreeView) : ℤ :=
  v.maxY - 2 - 2

/-- What a line shows. -/
inductive TreeLine where
  | heading (target : List UInt8)
  | node (i : Fin topologyMaxNodes)
  deriving DecidableEq

/-- A line on the screen. -/
structure DrawnLine where
  y : ℤ
  line : TreeLine
  highlighted : Bool
  deriving DecidableEq

/-- The variables `line_idx` and `cursor_idx`, `g_tree_nodes` and the screen. -/
structure TreePaint where
  lineIdx : ℤ
  cursorIdx : ℤ
  nodes : List (Fin topologyMaxNodes)
  drawn : List DrawnLine

/-- The row of a line, if it is drawn. -/
def TreeView.rowOf (v : TreeView) (lineIdx : ℤ) : Option ℤ :=
  if v.scroll ≤ lineIdx ∧ lineIdx < v.scroll + v.availRows then
    let y := 2 + (lineIdx - v.scroll)
    if y < v.maxY - 2 then some y else none
  else none

/-- A line is drawn, if it is in the window. -/
def TreePaint.draw (v : TreeView) (p : TreePaint) (line : TreeLine) (highlighted : Bool) :
    List DrawnLine :=
  match v.rowOf p.lineIdx with
  | some y => p.drawn ++ [⟨y, line, highlighted⟩]
  | none => p.drawn

/-- The heading of a target. -/
def TreePaint.paintHeading (v : TreeView) (p : TreePaint) (target : List UInt8) : TreePaint :=
  { p with
    drawn := p.draw v (.heading target) false
    lineIdx := p.lineIdx + 1 }

/-- A round of the loop over the nodes of a target. -/
def TreePaint.paintNode (v : TreeView) (p : TreePaint) (i : Fin topologyMaxNodes) : TreePaint where
  nodes := p.nodes ++ [i]
  drawn := p.draw v (.node i) (p.cursorIdx = v.cursor)
  lineIdx := p.lineIdx + 1
  cursorIdx := p.cursorIdx + 1

/-- A round of the loop over the targets. -/
def TreePaint.paintTarget (topo : Topology) (v : TreeView) (p : TreePaint) (target : List UInt8) :
    TreePaint :=
  let p := p.paintHeading v target
  let tnodes := topo.targetSlots target
  if tnodes = [] then p
  else ((topo.sortByTtl tnodes).take (topologyMaxNodes - p.nodes.length)).foldl (paintNode v) p

/-- Where the cursor and the scroll offset are left behind the drawing. -/
def TreeView.follow (v : TreeView) (total : ℤ) : TreeView :=
  let cursor := if v.cursor < 0 then 0 else v.cursor
  let cursor := if total ≤ cursor then total - 1 else cursor
  let cursor := if cursor < 0 then 0 else cursor
  let scroll := if cursor < v.scroll then cursor else v.scroll
  let scroll := if scroll + v.availRows ≤ cursor then cursor - v.availRows + 1 else scroll
  let scroll := if scroll < 0 then 0 else scroll
  { v with cursor := cursor, scroll := scroll }

/-- What the loops of a pass leave. -/
def paintTree (topo : Topology) (v : TreeView) : TreePaint :=
  topo.treeTargets.foldl (TreePaint.paintTarget topo v) ⟨0, 0, [], []⟩

/-- **`render_tree`**: what it draws, and where it leaves the cursor and the scroll offset. -/
def renderTree (topo : Topology) (v : TreeView) : TreePaint × TreeView :=
  let p := paintTree topo v
  (p, v.follow p.nodes.length)

/-- **The selected node is on the screen**: the pass after this one draws the node under the cursor,
highlighted. -/
def SelectedOnScreen (topo : Topology) (v : TreeView) : Prop :=
  let (p, v') := renderTree topo v
  ∃ i, p.nodes[v'.cursor.toNat]? = some i ∧
    ∃ y, ⟨y, .node i, true⟩ ∈ (renderTree topo v').1.drawn

/-! ## Lines -/

namespace Topology

variable {topo : Topology}

/-- The lines of a target. -/
def targetLines (topo : Topology) (target : List UInt8) : List TreeLine :=
  .heading target :: (topo.sortByTtl (topo.targetSlots target)).map .node

/-- **The lines of the tree.** -/
def treeLines (topo : Topology) : List TreeLine :=
  topo.treeTargets.flatMap topo.targetLines

/-- **The nodes of the tree**, as the cursor counts them. -/
def treeNodes (topo : Topology) : List (Fin topologyMaxNodes) :=
  topo.treeTargets.flatMap fun target => topo.sortByTtl (topo.targetSlots target)

/-- How many headings stand above a node. -/
def headingsAbove (topo : Topology) (i : Fin topologyMaxNodes) : ℕ :=
  topo.treeTargets.idxOf (topo.nodes i).targetIp + 1

theorem insertByTtl_perm (tnodes : List (Fin topologyMaxNodes)) (key : Fin topologyMaxNodes) :
    (topo.insertByTtl tnodes key).Perm (key :: tnodes) := by
  rw [insertByTtl]
  refine List.perm_middle.trans (List.Perm.cons key (.of_eq ?_))
  exact List.rdropWhile_append_rtakeWhile

theorem sortByTtl_perm (topo : Topology) (tnodes : List (Fin topologyMaxNodes)) :
    (topo.sortByTtl tnodes).Perm tnodes := by
  have hfold (l l' : List (Fin topologyMaxNodes)) :
      (l.foldl topo.insertByTtl l').Perm (l ++ l') := by
    induction l generalizing l' with
    | nil => rfl
    | cons key l ih =>
      rw [List.foldl_cons]
      refine (ih _).trans ?_
      exact ((insertByTtl_perm l' key).append_left l).trans List.perm_middle
  rw [sortByTtl]
  simpa using hfold tnodes []

theorem addTarget_nodup {targets : List (List UInt8)} (h : targets.Nodup) (targetIp : List UInt8) :
    (addTarget targets targetIp).Nodup := by
  rw [addTarget]
  split
  · exact h
  split
  · next hnew _ =>
    rw [← List.concat_eq_append]
    exact List.Nodup.concat (fun hmem => hnew (List.contains_iff_mem.mpr hmem)) h
  · exact h

/-- No target has two headings. -/
theorem treeTargets_nodup (topo : Topology) : topo.treeTargets.Nodup := by
  have hfold (l : List (Fin topologyMaxNodes)) (targets : List (List UInt8))
      (h : targets.Nodup) :
      (l.foldl (fun targets i => addTarget targets (topo.nodes i).targetIp) targets).Nodup := by
    induction l generalizing targets with
    | nil => exact h
    | cons i l ih => exact ih _ (addTarget_nodup h _)
  exact hfold _ _ List.nodup_nil

theorem prefix_addTarget (targets : List (List UInt8)) (targetIp : List UInt8) :
    targets <+: addTarget targets targetIp := by
  rw [addTarget]
  split
  · exact List.prefix_rfl
  split
  · exact List.prefix_append _ _
  · exact List.prefix_rfl

/-- The target of the first node in use has a heading. -/
theorem exists_mem_treeTargets (h : ∃ i, (topo.nodes i).active = true) :
    ∃ i ∈ topo.activeSlots, (topo.nodes i).targetIp ∈ topo.treeTargets := by
  have hfold (l : List (Fin topologyMaxNodes)) (targets : List (List UInt8)) :
      targets <+: l.foldl (fun targets i => addTarget targets (topo.nodes i).targetIp) targets := by
    induction l generalizing targets with
    | nil => exact List.prefix_rfl
    | cons i l ih => exact (prefix_addTarget targets _).trans (ih _)
  obtain ⟨i, hi⟩ := h
  have hne : topo.activeSlots ≠ [] :=
    List.ne_nil_of_mem (List.mem_filter.mpr ⟨List.mem_finRange i, hi⟩)
  obtain ⟨j, l, hslots⟩ := List.exists_cons_of_ne_nil hne
  refine ⟨j, hslots ▸ List.mem_cons_self, ?_⟩
  rw [treeTargets, hslots, List.foldl_cons]
  exact (hfold l _).subset (List.mem_singleton.mpr rfl)

theorem mem_targetSlots {target : List UInt8} {i : Fin topologyMaxNodes} :
    i ∈ topo.targetSlots target ↔ i ∈ topo.activeSlots ∧ (topo.nodes i).targetIp = target := by
  rw [targetSlots, List.mem_filter, decide_eq_true_iff]

theorem treeNodes_ne_nil (h : ∃ i, (topo.nodes i).active = true) : topo.treeNodes ≠ [] := by
  obtain ⟨i, hi, htarget⟩ := exists_mem_treeTargets h
  have hmem := (topo.sortByTtl_perm _).mem_iff.mpr (mem_targetSlots.mpr ⟨hi, rfl⟩)
  exact List.ne_nil_of_mem (List.mem_flatMap.mpr ⟨_, htarget, hmem⟩)

/-- The nodes of some targets fit into the table. -/
theorem length_flatMap_le (topo : Topology) {targets : List (List UInt8)} (h : targets.Nodup) :
    (targets.flatMap fun target => topo.sortByTtl (topo.targetSlots target)).length ≤
      topologyMaxNodes := by
  have hsorted : (targets.map fun target => (topo.sortByTtl (topo.targetSlots target)).length) =
      targets.map fun target => (topo.targetSlots target).length :=
    List.map_congr_left fun target _ => (topo.sortByTtl_perm _).length_eq
  have hperm := Rollup.perm_flatMap_filter (fun i => (topo.nodes i).targetIp) topo.activeSlots h
  have hslots : (targets.flatMap topo.targetSlots).length ≤ topo.activeSlots.length :=
    Nat.le_trans (Nat.le_of_eq hperm.length_eq) (List.length_filter_le _ _)
  calc
    (targets.flatMap fun target => topo.sortByTtl (topo.targetSlots target)).length
      = (targets.flatMap topo.targetSlots).length := by
        rw [List.length_flatMap, List.length_flatMap, hsorted]
    _ ≤ topo.activeSlots.length := hslots
    _ ≤ (List.finRange topologyMaxNodes).length := List.length_filter_le _ _
    _ = topologyMaxNodes := List.length_finRange

end Topology

/-! ## The drawing, line by line -/

/-- The node of a line, if it is not a heading. -/
def TreeLine.node? : TreeLine → Option (Fin topologyMaxNodes)
  | .heading _ => none
  | .node i => some i

theorem filterMap_map_node (l : List (Fin topologyMaxNodes)) :
    (l.map TreeLine.node).filterMap TreeLine.node? = l := by
  rw [List.filterMap_map]
  exact List.filterMap_some

theorem filterMap_targetLines (topo : Topology) (target : List UInt8) :
    (topo.targetLines target).filterMap TreeLine.node? =
      topo.sortByTtl (topo.targetSlots target) := by
  rw [targetLines, List.filterMap_cons_none rfl, filterMap_map_node]

theorem filterMap_flatMap_targetLines (topo : Topology) (targets : List (List UInt8)) :
    (targets.flatMap topo.targetLines).filterMap TreeLine.node? =
      targets.flatMap fun target => topo.sortByTtl (topo.targetSlots target) := by
  rw [List.filterMap_flatMap]
  simp only [filterMap_targetLines]

/-- The nodes among the lines of the tree. -/
theorem filterMap_treeLines (topo : Topology) :
    topo.treeLines.filterMap TreeLine.node? = topo.treeNodes :=
  filterMap_flatMap_targetLines topo topo.treeTargets

namespace TreePaint

variable {v : TreeView}

/-- A line is painted. -/
def paintLine (v : TreeView) (p : TreePaint) : TreeLine → TreePaint
  | .heading target => p.paintHeading v target
  | .node i => p.paintNode v i

theorem nodes_foldl (lines : List TreeLine) (p : TreePaint) :
    (lines.foldl (paintLine v) p).nodes = p.nodes ++ lines.filterMap TreeLine.node? := by
  induction lines generalizing p with
  | nil => exact (List.append_nil _).symm
  | cons line lines ih =>
    rw [List.foldl_cons, ih]
    cases line with
    | heading target => rfl
    | node i =>
      rw [List.filterMap_cons_some (f := TreeLine.node?) (a := .node i) rfl]
      exact List.append_assoc p.nodes [i] _

theorem lineIdx_foldl (lines : List TreeLine) (p : TreePaint) :
    (lines.foldl (paintLine v) p).lineIdx = p.lineIdx + lines.length := by
  induction lines generalizing p with
  | nil => exact (Int.add_zero _).symm
  | cons line lines ih =>
    have hline : (p.paintLine v line).lineIdx = p.lineIdx + 1 := by
      cases line with
      | heading target => rfl
      | node i => rfl
    rw [List.foldl_cons, ih, hline, List.length_cons]
    omega

theorem cursorIdx_foldl (lines : List TreeLine) (p : TreePaint) :
    (lines.foldl (paintLine v) p).cursorIdx =
      p.cursorIdx + (lines.filterMap TreeLine.node?).length := by
  induction lines generalizing p with
  | nil => exact (Int.add_zero _).symm
  | cons line lines ih =>
    rw [List.foldl_cons, ih]
    cases line with
    | heading target => rfl
    | node i =>
      rw [List.filterMap_cons_some (f := TreeLine.node?) (a := .node i) rfl, List.length_cons]
      change p.cursorIdx + 1 + _ = _
      omega

/-- A target with all its nodes, when there is room for them in `g_tree_nodes`. -/
theorem paintTarget_eq {topo : Topology} {p : TreePaint} {target : List UInt8}
    (hroom : p.nodes.length + (topo.sortByTtl (topo.targetSlots target)).length ≤
      topologyMaxNodes) :
    paintTarget topo v p target = (topo.targetLines target).foldl (paintLine v) p := by
  rw [paintTarget, targetLines, List.foldl_cons, List.foldl_map]
  split
  · next hnil =>
    rw [hnil]
    rfl
  · have hroom' : (topo.sortByTtl (topo.targetSlots target)).length ≤
        topologyMaxNodes - (p.paintHeading v target).nodes.length :=
      Nat.le_sub_of_add_le' hroom
    rw [List.take_of_length_le hroom']
    rfl

end TreePaint

/-- **The drawing goes through the lines of the tree**, and nothing is left out of `g_tree_nodes`.
The number of nodes drawn so far is the invariant that keeps the table large enough. -/
theorem paint_eq (topo : Topology) (v : TreeView) :
    paintTree topo v = topo.treeLines.foldl (TreePaint.paintLine v) ⟨0, 0, [], []⟩ := by
  have hfold (targets : List (List UInt8)) (h : targets.Nodup) :
      targets.foldl (TreePaint.paintTarget topo v) ⟨0, 0, [], []⟩ =
        (targets.flatMap topo.targetLines).foldl (TreePaint.paintLine v) ⟨0, 0, [], []⟩ := by
    induction targets using List.reverseRecOn with
    | nil => rfl
    | append_singleton targets target ih =>
      have hlen := topo.length_flatMap_le h
      rw [List.flatMap_append, List.length_append, List.flatMap_singleton] at hlen
      rw [List.foldl_append, ih (List.nodup_append.mp h).1, List.flatMap_append,
        List.foldl_append, List.flatMap_singleton, List.foldl_cons, List.foldl_nil]
      refine TreePaint.paintTarget_eq ?_
      rwa [TreePaint.nodes_foldl, List.nil_append, filterMap_flatMap_targetLines]
  exact hfold _ topo.treeTargets_nodup

/-- `g_tree_nodes` after a pass. -/
theorem nodes_paintTree (topo : Topology) (v : TreeView) :
    (paintTree topo v).nodes = topo.treeNodes := by
  rw [paint_eq, TreePaint.nodes_foldl, List.nil_append, filterMap_treeLines]

theorem renderTree_eq (topo : Topology) (v : TreeView) :
    renderTree topo v = (paintTree topo v, v.follow topo.treeNodes.length) := by
  rw [renderTree, nodes_paintTree]

/-- What a line adds to the highlighted nodes. -/
theorem mem_drawn_paintLine {v : TreeView} {p : TreePaint} {line : TreeLine}
    {i : Fin topologyMaxNodes} {y : ℤ} :
    ⟨y, .node i, true⟩ ∈ (p.paintLine v line).drawn ↔
      ⟨y, .node i, true⟩ ∈ p.drawn ∨
        line = .node i ∧ p.cursorIdx = v.cursor ∧ v.rowOf p.lineIdx = some y := by
  have hdraw (line : TreeLine) (highlighted : Bool) :
      ⟨y, .node i, true⟩ ∈ p.draw v line highlighted ↔ ⟨y, .node i, true⟩ ∈ p.drawn ∨
        line = .node i ∧ highlighted = true ∧ v.rowOf p.lineIdx = some y := by
    rw [TreePaint.draw]
    split
    · next y' hy =>
      rw [List.mem_append, List.mem_singleton, DrawnLine.mk.injEq, hy, Option.some_inj]
      refine or_congr_right ⟨?_, ?_⟩
      · rintro ⟨rfl, rfl, rfl⟩
        exact ⟨rfl, rfl, rfl⟩
      · rintro ⟨rfl, rfl, rfl⟩
        exact ⟨rfl, rfl, rfl⟩
    · next hy =>
      rw [hy]
      simp
  cases line with
  | heading target =>
    refine (hdraw (.heading target) false).trans ?_
    simp
  | node j =>
    refine (hdraw (.node j) _).trans ?_
    rw [decide_eq_true_iff]

/-- The places of an element in a list with one more at its end. -/
theorem exists_split_concat {α : Type*} {l : List α} {a b : α} {P : List α → Prop} :
    (∃ l₁ l₂, l ++ [a] = l₁ ++ b :: l₂ ∧ P l₁) ↔
      (∃ l₁ l₂, l = l₁ ++ b :: l₂ ∧ P l₁) ∨ a = b ∧ P l := by
  constructor
  · rintro ⟨l₁, l₂, heq, hP⟩
    rcases List.eq_nil_or_concat l₂ with rfl | ⟨l₂, c, rfl⟩
    · obtain ⟨rfl, hab⟩ := List.append_inj' heq rfl
      exact .inr ⟨(List.cons.inj hab).1, hP⟩
    · rw [List.concat_eq_append, ← List.cons_append, ← List.append_assoc] at heq
      exact .inl ⟨l₁, l₂, (List.append_inj' heq rfl).1, hP⟩
  · rintro (⟨l₁, l₂, rfl, hP⟩ | ⟨rfl, hP⟩)
    · exact ⟨l₁, l₂ ++ [a], by rw [List.append_assoc, List.cons_append], hP⟩
    · exact ⟨l, [], rfl, hP⟩

/-- **Which nodes are highlighted**: the one with as many nodes in front of it as the cursor says,
if its line has a row. -/
theorem mem_drawn_foldl {v : TreeView} {lines : List TreeLine} {i : Fin topologyMaxNodes} {y : ℤ} :
    ⟨y, .node i, true⟩ ∈ (lines.foldl (TreePaint.paintLine v) ⟨0, 0, [], []⟩).drawn ↔
      ∃ l₁ l₂, lines = l₁ ++ .node i :: l₂ ∧
        ((l₁.filterMap TreeLine.node?).length : ℤ) = v.cursor ∧ v.rowOf l₁.length = some y := by
  induction lines using List.reverseRecOn with
  | nil => simp
  | append_singleton lines line ih =>
    rw [List.foldl_append, List.foldl_cons, List.foldl_nil, mem_drawn_paintLine, ih,
      exists_split_concat, TreePaint.cursorIdx_foldl, TreePaint.lineIdx_foldl, Int.zero_add,
      Int.zero_add]

/-- A node among the lines: those in front of it are the headings and the nodes above. -/
theorem exists_split_of_lt {lines : List TreeLine} {c : ℕ}
    (hc : c < (lines.filterMap TreeLine.node?).length) :
    ∃ l₁ i l₂, lines = l₁ ++ .node i :: l₂ ∧ (l₁.filterMap TreeLine.node?).length = c := by
  induction lines using List.reverseRecOn with
  | nil => exact absurd hc (Nat.not_lt_zero c)
  | append_singleton lines line ih =>
    rcases Nat.lt_or_ge c (lines.filterMap TreeLine.node?).length with hlt | hge
    · obtain ⟨l₁, i, l₂, rfl, hlen⟩ := ih hlt
      exact ⟨l₁, i, l₂ ++ [line], by rw [List.append_assoc, List.cons_append], hlen⟩
    · rw [List.filterMap_append, List.length_append] at hc
      cases line with
      | heading target =>
        rw [show [TreeLine.heading target].filterMap TreeLine.node? = [] from rfl,
          List.length_nil] at hc
        omega
      | node i =>
        rw [show [TreeLine.node i].filterMap TreeLine.node? = [i] from rfl,
          List.length_singleton] at hc
        exact ⟨lines, i, [], rfl, by omega⟩

/-- The node at a place among the lines is the one at its place among the nodes. -/
theorem getElem?_filterMap_split (l₁ l₂ : List TreeLine) (i : Fin topologyMaxNodes) :
    ((l₁ ++ .node i :: l₂).filterMap TreeLine.node?)[(l₁.filterMap TreeLine.node?).length]? =
      some i := by
  rw [List.filterMap_append, List.getElem?_append_right (Nat.le_refl _), Nat.sub_self,
    List.filterMap_cons_some (f := TreeLine.node?) (a := .node i) rfl, List.getElem?_cons_zero]

theorem targetIp_of_mem_targetLines {topo : Topology} {target : List UInt8}
    {i : Fin topologyMaxNodes} (h : .node i ∈ topo.targetLines target) :
    (topo.nodes i).targetIp = target := by
  rw [targetLines, List.mem_cons] at h
  obtain ⟨j, hj, heq⟩ := List.mem_map.mp (h.resolve_left TreeLine.noConfusion)
  obtain rfl := TreeLine.node.inj heq
  exact (mem_targetSlots.mp ((topo.sortByTtl_perm _).mem_iff.mp hj)).2

/-- **Lines and nodes.**  In front of a node there are the nodes above it, and the headings of its
target and of the targets above. -/
theorem length_split {topo : Topology} {targets : List (List UInt8)} (h : targets.Nodup)
    {l₁ l₂ : List TreeLine} {i : Fin topologyMaxNodes}
    (hsplit : targets.flatMap topo.targetLines = l₁ ++ .node i :: l₂) :
    l₁.length = (l₁.filterMap TreeLine.node?).length +
      (targets.idxOf (topo.nodes i).targetIp + 1) := by
  induction targets generalizing l₁ with
  | nil => simp at hsplit
  | cons target targets ih =>
    obtain ⟨hnew, hnodup⟩ := List.nodup_cons.mp h
    -- the node stands behind the lines of the first target
    have hbehind (l : List TreeLine) (hl : l₁ = topo.targetLines target ++ l)
        (hrest : targets.flatMap topo.targetLines = l ++ .node i :: l₂) :
        l₁.length = (l₁.filterMap TreeLine.node?).length +
          ((target :: targets).idxOf (topo.nodes i).targetIp + 1) := by
      have hmem : TreeLine.node i ∈ targets.flatMap topo.targetLines := by
        rw [hrest]
        exact List.mem_append_right _ List.mem_cons_self
      obtain ⟨target', htarget', hi⟩ := List.mem_flatMap.mp hmem
      have hne : target ≠ (topo.nodes i).targetIp := by
        rw [targetIp_of_mem_targetLines hi]
        rintro rfl
        exact hnew htarget'
      rw [hl, List.filterMap_append, List.length_append, List.length_append, ih hnodup hrest,
        filterMap_targetLines, List.idxOf_cons_ne _ hne, targetLines, List.length_cons,
        List.length_map]
      omega
    rw [List.flatMap_cons] at hsplit
    rcases List.append_eq_append_iff.mp hsplit with ⟨l, hl, hrest⟩ | ⟨l, hl, hrest⟩
    · exact hbehind l hl hrest
    · cases l with
      | nil =>
        rw [List.append_nil] at hl
        exact hbehind [] (by rw [List.append_nil, hl]) hrest.symm
      | cons line l =>
        -- the node is one of the first target
        obtain ⟨rfl, -⟩ := List.cons.inj hrest
        have hmem : TreeLine.node i ∈ topo.targetLines target := by
          rw [hl]
          exact List.mem_append_right _ List.mem_cons_self
        have htarget := targetIp_of_mem_targetLines hmem
        cases l₁ with
        | nil => exact absurd (List.cons.inj hl).1 TreeLine.noConfusion
        | cons first l₁ =>
          obtain ⟨rfl, hnodes⟩ := List.cons.inj hl
          obtain ⟨above, -, -, rfl, -⟩ := List.map_eq_append_iff.mp hnodes
          rw [htarget, List.idxOf_cons_self, List.filterMap_cons_none rfl, filterMap_map_node,
            List.length_cons, List.length_map]

/-! ## The selected node -/

theorem exists_rowOf_iff {v : TreeView} {lineIdx : ℤ} :
    (∃ y, v.rowOf lineIdx = some y) ↔
      v.scroll ≤ lineIdx ∧ lineIdx < v.scroll + v.availRows := by
  rw [TreeView.rowOf]
  constructor
  · rintro ⟨y, hy⟩
    split at hy
    · next h => exact h
    · cases hy
  · intro h
    have hrow : 2 + (lineIdx - v.scroll) < v.maxY - 2 := by
      have hlt := h.2
      rw [TreeView.availRows] at hlt
      omega
    exact ⟨2 + (lineIdx - v.scroll), by rw [if_pos h, if_pos hrow]⟩

/-- The number of the node that the cursor of a view is moved to. -/
def TreeView.selected (v : TreeView) (topo : Topology) : ℕ :=
  (max 0 (min v.cursor (topo.treeNodes.length - 1))).toNat

theorem cursor_follow {v : TreeView} {topo : Topology} (hne : topo.treeNodes ≠ []) :
    (v.follow topo.treeNodes.length).cursor = v.selected topo := by
  have hpos := List.length_pos_iff.mpr hne
  rw [TreeView.selected, TreeView.follow]
  dsimp only
  omega

theorem selected_lt (v : TreeView) {topo : Topology} (hne : topo.treeNodes ≠ []) :
    v.selected topo < topo.treeNodes.length := by
  have hpos := List.length_pos_iff.mpr hne
  rw [TreeView.selected]
  omega

/-- **Where the window is moved to**: whether it has the line that stands `headings` below the
cursor. -/
theorem window_follow_iff {v : TreeView} {total c headings : ℤ}
    (hcursor : (v.follow total).cursor = c) (hc : 0 ≤ c) (hheadings : 1 ≤ headings)
    (havail : 1 ≤ v.availRows) :
    (v.follow total).scroll ≤ c + headings ∧
        c + headings < (v.follow total).scroll + v.availRows ↔
      headings < v.availRows ∧ c + headings < max v.scroll 0 + v.availRows := by
  rw [TreeView.follow] at hcursor ⊢
  dsimp only at hcursor ⊢
  rw [hcursor]
  split_ifs
  all_goals omega

/-- The highlighted nodes of a pass, by the lines that they stand in. -/
theorem mem_drawn_renderTree {topo : Topology} {v : TreeView} {i : Fin topologyMaxNodes} :
    (∃ y, ⟨y, .node i, true⟩ ∈ (renderTree topo v).1.drawn) ↔
      ∃ l₁ l₂, topo.treeLines = l₁ ++ .node i :: l₂ ∧
        ((l₁.filterMap TreeLine.node?).length : ℤ) = v.cursor ∧
        v.scroll ≤ (l₁.length : ℤ) ∧ (l₁.length : ℤ) < v.scroll + v.availRows := by
  have hdrawn (y : ℤ) : ⟨y, .node i, true⟩ ∈ (renderTree topo v).1.drawn ↔
      ∃ l₁ l₂, topo.treeLines = l₁ ++ .node i :: l₂ ∧
        ((l₁.filterMap TreeLine.node?).length : ℤ) = v.cursor ∧
        v.rowOf l₁.length = some y := by
    rw [renderTree_eq, paint_eq]
    exact mem_drawn_foldl
  constructor
  · rintro ⟨y, hy⟩
    obtain ⟨l₁, l₂, hlines, hcursor, hrow⟩ := (hdrawn y).mp hy
    exact ⟨l₁, l₂, hlines, hcursor, exists_rowOf_iff.mp ⟨y, hrow⟩⟩
  · rintro ⟨l₁, l₂, hlines, hcursor, hrow⟩
    obtain ⟨y, hy⟩ := exists_rowOf_iff.mpr hrow
    exact ⟨y, (hdrawn y).mpr ⟨l₁, l₂, hlines, hcursor, hy⟩⟩

/-- **When the selected node is on the screen.**  With the cursor moved to a node there is, and the
headings above this node counted: there have to be more rows than headings, and the line of the node
has to lie in front of the end of a window that starts where the offset was. -/
theorem selectedOnScreen_iff {topo : Topology} (hactive : ∃ i, (topo.nodes i).active = true)
    {v : TreeView} (havail : 1 ≤ v.availRows) :
    SelectedOnScreen topo v ↔ ∀ i, topo.treeNodes[v.selected topo]? = some i →
      (topo.headingsAbove i : ℤ) < v.availRows ∧
        (v.selected topo : ℤ) + topo.headingsAbove i < max v.scroll 0 + v.availRows := by
  have hne := treeNodes_ne_nil hactive
  have hcursor := cursor_follow (v := v) hne
  -- the node that the cursor is moved to, and the line it stands in
  have hlt := selected_lt v hne
  rw [← filterMap_treeLines] at hlt
  obtain ⟨l₁, i, l₂, hlines, hlen⟩ := exists_split_of_lt hlt
  have hselected : topo.treeNodes[v.selected topo]? = some i := by
    rw [← filterMap_treeLines, ← hlen, hlines, getElem?_filterMap_split]
  have hline {l₁' l₂' : List TreeLine} (hsplit : topo.treeLines = l₁' ++ .node i :: l₂')
      (hcount : (l₁'.filterMap TreeLine.node?).length = v.selected topo) :
      (l₁'.length : ℤ) = v.selected topo + topo.headingsAbove i := by
    rw [length_split topo.treeTargets_nodup hsplit, hcount, headingsAbove, Int.natCast_add]
  have hheadings : (1 : ℤ) ≤ topo.headingsAbove i := by
    rw [headingsAbove]
    omega
  have hwindow := window_follow_iff hcursor (Int.natCast_nonneg _) hheadings havail
  have hnode : (renderTree topo v).1.nodes[(renderTree topo v).2.cursor.toNat]? = some i := by
    rw [renderTree_eq]
    dsimp only
    rw [nodes_paintTree, hcursor, Int.toNat_natCast, hselected]
  have hdrawn : (∃ y, ⟨y, .node i, true⟩ ∈ (renderTree topo (renderTree topo v).2).1.drawn) ↔
      (topo.headingsAbove i : ℤ) < v.availRows ∧
        (v.selected topo : ℤ) + topo.headingsAbove i < max v.scroll 0 + v.availRows := by
    rw [renderTree_eq topo v, mem_drawn_renderTree, hcursor, ← hwindow]
    constructor
    · rintro ⟨l₁', l₂', hsplit, hcount, hrow⟩
      rwa [hline hsplit (Int.ofNat_inj.mp hcount)] at hrow
    · intro hrow
      refine ⟨l₁, l₂, hlines, congrArg Nat.cast hlen, ?_⟩
      rwa [hline hlines hlen]
  constructor
  · rintro ⟨i', hi', hy⟩ j hj
    obtain rfl := Option.some.inj (hnode.symm.trans hi')
    obtain rfl := Option.some.inj (hselected.symm.trans hj)
    exact hdrawn.mp hy
  · intro h
    exact ⟨i, hnode, hdrawn.mpr (h i hselected)⟩

/-- A path of twenty nodes to one target. -/
def twentyNodes : Topology :=
  { init with
    nodes := fun i => if i.val < 20 then newNode i [49] (UInt8.ofNat i) [50] false else .zero }

theorem twentyNodes_active : ∃ i, (twentyNodes.nodes i).active = true :=
  ⟨⟨0, by decide⟩, by decide⟩

/-- On the fourth node of the path, and twenty rows. -/
theorem selectedOnScreen_iff_twentyNodes : SelectedOnScreen twentyNodes ⟨3, 0, 24⟩ :=
  (selectedOnScreen_iff twentyNodes_active (by decide)).mpr (by decide +kernel)

/-- With the cursor on the last of them and twenty rows, the pass leaves the offset at zero, and the
next pass has no highlighted line. -/
theorem last_of_twenty_below_screen :
    ¬∀ topo : Topology, (∃ i, (topo.nodes i).active = true) →
      ∀ v : TreeView, 1 ≤ v.availRows → SelectedOnScreen topo v := by
  intro hclaim
  obtain ⟨i, -, y, hy⟩ := hclaim twentyNodes twentyNodes_active ⟨19, 0, 24⟩ (by decide)
  have hdark : ∀ l ∈ (renderTree twentyNodes (renderTree twentyNodes ⟨19, 0, 24⟩).2).1.drawn,
      l.highlighted = false := by
    decide +kernel
  exact absurd (hdark _ hy) Bool.noConfusion

end Nsr
