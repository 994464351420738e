import Nsr.Ui.KeySlots
import Nsr.Topology.Store

/-!
# The user interface

`nsr_tui_update` of `src/ui/tui.c`: what a key does.  A modal plugin gets every key; the built-in
shortcuts come next, then the plugins, and what no plugin took moves the cursors of the view.

`Program` is what the main loop keeps for the interface: its state, the topology, the nodes as the
tree view lists them, and the registry.  Scroll offsets, the size of the screen and the time a
notice stays are left out; only drawing reads them.
-/

namespace Nsr

/-- **`nsr_tui_state_t`.**  The stack of views lists the latest one first. -/
structure Tui where
  currentMode : UiMode
  navStack : List UiMode
  gridCursor : ℤ
  treeCursor : ℤ
  toolsCursor : ℤ
  focusedNodeId : ℕ
  showStats : Bool
  showDashboard : Bool
  frozen : Bool
  msg : Bytes
  keys : KeyManager

/-- `NSR_UI_STACK_DEPTH`. -/
def uiStackDepth : ℕ := 8

namespace Tui

/-- `push_nav`. -/
def pushNav (tui : Tui) (mode : UiMode) : Tui :=
  { tui with
    navStack := if tui.navStack.length < uiStackDepth then tui.currentMode :: tui.navStack
      else tui.navStack
    currentMode := mode }

/-- `pop_nav`. -/
def popNav (tui : Tui) : Tui :=
  match tui.navStack with
  | [] => { tui with currentMode := .normal }
  | mode :: rest => { tui with navStack := rest, currentMode := mode }

/-- `goto_normal`. -/
def gotoNormal (tui : Tui) : Tui :=
  { tui with navStack := [], currentMode := .normal }

/-- A view is entered, unless it is the current one. -/
def enter (tui : Tui) (mode : UiMode) : Tui :=
  if tui.currentMode ≠ mode then tui.pushNav mode else tui

end Tui

/-- **What the main loop keeps for the interface.** -/
structure Program where
  tui : Tui
  topo : Topology
  /-- `g_tree_nodes`. -/
  treeNodes : List (Fin topologyMaxNodes)
  reg : Registry

/-- What the system answers during one call of `nsr_tui_update`; `cols` is the width of the
screen. -/
structure UpdateEnv where
  cols : ℤ
  modalExited : ℕ → Bool
  onKey : ℕ → Registry.OnKeyEnv
  written : Bool
  spawn : Host.SpawnEnv

/-- `KEY_DOWN`. -/
def keyDown : Int32 := 258

/-- `KEY_UP`. -/
def keyUp : Int32 := 259

/-- `KEY_LEFT`. -/
def keyLeft : Int32 := 260

/-- `KEY_RIGHT`. -/
def keyRight : Int32 := 261

/-- `KEY_ENTER`. -/
def keyEnter : Int32 := 343

/-- The key of a character. -/
def keyOf (c : Char) : Int32 :=
  Int32.ofNat c.toNat

/-- `node_by_visual_index`: the active nodes, counted in the order of the table. -/
def nodeByVisualIndex (topo : Topology) (index : ℤ) : Option (Fin topologyMaxNodes) :=
  if index < 0 then none
  else ((List.finRange topologyMaxNodes).filter fun i => (topo.nodes i).active)[index.toNat]?

namespace Program

/-- `tree_node_by_index`. -/
def treeNodeByIndex (p : Program) (index : ℤ) : Option (Fin topologyMaxNodes) :=
  if index < 0 then none else p.treeNodes[index.toNat]?

/-- `Enter` in the grid and the tree: the node under the cursor gets the focus. -/
def focus (p : Program) (cursor total : ℤ) (node : Option (Fin topologyMaxNodes)) : Program :=
  if 0 ≤ cursor ∧ cursor < total then
    let tui := match node with
      | none => p.tui
      | some i => { p.tui with focusedNodeId := (p.topo.nodes i).id }
    { p with tui := tui.pushNav .normal }
  else p

/-- `c` in the grid and the tree: the mark of the node under the cursor is flipped. -/
def flipControlPlane (p : Program) (node : Option (Fin topologyMaxNodes)) : Program :=
  match node with
  | none => p
  | some i =>
    let n := p.topo.nodes i
    { p with topo := p.topo.setNode i { n with controlPlane := !n.controlPlane } }

/-- A cursor between `0` and the last node. -/
def clampCursor (cursor total : ℤ) : ℤ :=
  let cursor := if cursor < 0 then 0 else cursor
  if total ≤ cursor then total - 1 else cursor

/-- `nsr_tui_update` in the grid, behind the plugins. -/
def updateGrid (p : Program) (ch : Int32) (cols : ℤ) : ℤ × Program :=
  let total : ℤ := p.topo.nodeCount
  let cols := if cols.tdiv 14 < 1 then 1 else cols.tdiv 14
  let move (d : ℤ) : ℤ × Program :=
    (0, { p with tui := { p.tui with
      gridCursor := clampCursor (p.tui.gridCursor + d) total } })
  let node := nodeByVisualIndex p.topo p.tui.gridCursor
  if ch = keyOf 'h' ∨ ch = keyLeft then move (-1)
  else if ch = keyOf 'l' ∨ ch = keyRight then move 1
  else if ch = keyOf 'k' ∨ ch = keyUp then move (-cols)
  else if ch = keyOf 'j' ∨ ch = keyDown then move cols
  else if ch = keyOf '\n' ∨ ch = keyEnter then (0, p.focus p.tui.gridCursor total node)
  else if ch = keyOf 'c' ∨ ch = keyOf 'C' then (0, p.flipControlPlane node)
  else move 0

/-- `nsr_tui_update` in the tree, behind the plugins. -/
def updateTree (p : Program) (ch : Int32) : ℤ × Program :=
  let total : ℤ := p.topo.nodeCount
  let cursor := p.tui.treeCursor
  let move (d : ℤ) : ℤ × Program :=
    (0, { p with tui := { p.tui with treeCursor := clampCursor (cursor + d) total } })
  let node := p.treeNodeByIndex cursor
  if ch = keyOf 'k' ∨ ch = keyUp then move (if 0 < cursor then -1 else 0)
  else if ch = keyOf 'j' ∨ ch = keyDown then move (if cursor < total - 1 then 1 else 0)
  else if ch = keyOf 'h' ∨ ch = keyLeft then move (if 0 < cursor then -5 else 0)
  else if ch = keyOf 'l' ∨ ch = keyRight then move (if cursor < total - 1 then 5 else 0)
  else if ch = keyOf '\n' ∨ ch = keyEnter then (0, p.focus cursor total node)
  else if ch = keyOf 'c' ∨ ch = keyOf 'C' then (0, p.flipControlPlane node)
  else move 0

/-- `nsr_tui_update` in the normal view, behind the plugins. -/
def updateNormal (p : Program) (ch : Int32) : ℤ × Program :=
  if p.tui.keys.isBoundTo 'z' ch then (2, p)
  else if ch = keyOf 'S' then (3, { p with tui := { p.tui with showStats := !p.tui.showStats } })
  else if p.tui.showDashboard ∧ ch = keyOf 'k' then (4, p)
  else if p.tui.showDashboard ∧ ch = keyOf 'j' then (5, p)
  else (0, p)

/-- The cursor of the menu of plugins, kept inside the list. -/
def clampTools (p : Program) : Program :=
  let count : ℤ := p.reg.length
  let cursor := if p.tui.toolsCursor < 0 then 0 else p.tui.toolsCursor
  let cursor := if count ≤ cursor then (if 0 < count then count - 1 else 0) else cursor
  { p with tui := { p.tui with toolsCursor := cursor } }

/-- `Enter` in the menu: the plugin under the cursor is enabled or disabled. -/
def togglePlugin (p : Program) (env : UpdateEnv) : Option Program :=
  if p.tui.toolsCursor < 0 then some p
  else
    match p.reg[p.tui.toolsCursor.toNat]? with
    | none => some p
    | some h =>
      (h.setEnabled (!h.e.enabled) env.written env.spawn).map fun r =>
        { p with reg := p.reg.set p.tui.toolsCursor.toNat r.2 }

/-- `nsr_tui_update` in the menu of plugins. -/
def updateTools (p : Program) (ch : Int32) (env : UpdateEnv) : Option (ℤ × Program) :=
  let count : ℤ := p.reg.length
  let cursor := p.tui.toolsCursor
  let move (d : ℤ) : Program := { p with tui := { p.tui with toolsCursor := cursor + d } }
  let done (p : Program) : ℤ × Program := (0, p.clampTools)
  if ch = keyOf 'k' ∨ ch = keyUp then some (done (move (if 0 < cursor then -1 else 0)))
  else if ch = keyOf 'j' ∨ ch = keyDown then
    some (done (move (if cursor < count - 1 then 1 else 0)))
  else if ch = keyOf 'h' ∨ ch = keyLeft then some (done (move (if 0 < cursor then -5 else 0)))
  else if ch = keyOf 'l' ∨ ch = keyRight then
    some (done (move (if cursor < count - 1 then 5 else 0)))
  else if ch = keyOf '\n' ∨ ch = keyOf '\r' ∨ ch = keyEnter then (p.togglePlugin env).map done
  else if ch = 27 ∨ ((ch = keyOf 't' ∨ ch = keyOf 'T') ∧ p.tui.keys.isBoundTo 't' ch) then
    some (done { p with tui := p.tui.popNav })
  else some (done p)

/-- The notice of `d` outside of the normal view. -/
def dashboardMsg : Bytes :=
  ascii "Please enter a dashboard at Normal Mode"

/-- `nsr_tui_update` behind the plugins. -/
def updateView (p : Program) (ch : Int32) (cols : ℤ) : ℤ × Program :=
  match p.tui.currentMode with
  | .grid => p.updateGrid ch cols
  | .tree => p.updateTree ch
  | _ => p.updateNormal ch

/-- `nsr_tui_update` outside of the menu, where no plugin is modal: the shortcuts of the views, the
plugins, the view. -/
def updateKeys (p : Program) (ch : Int32) (env : UpdateEnv) : Option (ℤ × Program) :=
  if p.tui.keys.isBoundTo 'n' ch then some (0, { p with tui := p.tui.gotoNormal })
  else if p.tui.keys.isBoundTo 'g' ch then some (0, { p with tui := p.tui.enter .grid })
  else if p.tui.keys.isBoundTo 'm' ch then some (0, { p with tui := p.tui.enter .tools })
  else if p.tui.keys.isBoundTo 't' ch then some (0, { p with tui := p.tui.enter .tree })
  else if ch = 27 then some (0, { p with tui := p.tui.popNav })
  else if p.tui.keys.isBoundTo 'p' ch then
    some (0, { p with tui := { p.tui with frozen := !p.tui.frozen } })
  else
    (p.reg.onKey ch env.onKey).map fun r =>
      if r.1 then (0, { p with reg := r.2 }) else updateView { p with reg := r.2 } ch env.cols

/-- **`nsr_tui_update`**, for the key `getch` returns; `-1` is `ERR`. -/
def update (p : Program) (ch : Int32) (env : UpdateEnv) : Option (ℤ × Program) :=
  if ch = -1 then some (0, p)
  else
    match p.reg.modalActive env.modalExited with
    | none => none
    | some (true, reg) => (reg.onKey ch env.onKey).map fun r => (0, { p with reg := r.2 })
    | some (false, reg) =>
      let p := { p with reg := reg }
      if p.tui.keys.isBoundTo 'q' ch then some (1, p)
      else if p.tui.keys.isBoundTo 'd' ch then
        if p.tui.currentMode ≠ .normal then
          some (0, { p with tui := { p.tui with msg := dashboardMsg } })
        else some (6, p)
      else if p.tui.currentMode = .tools then p.updateTools ch env
      else p.updateKeys ch env

end Program
end Nsr
