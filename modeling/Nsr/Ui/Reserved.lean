import Nsr.Ui.Tui

/-!
# Reserved keys and built-in shortcuts

A plugin that reserves a key is to get it, and no built-in shortcut is to act on it.  The key table
that sees to this is filled at start-up, from the plugins that run then; it does not change when
plugins are enabled later, and the letters it gives out may themselves be reserved.

* `Program.Step`: the interface over a whole run: drawing, the operations of the host, keys.
* `KeysFixed`: in a run the key table stays, and reserved keys are small letters and digits.
* `Routed`: the key went to a plugin, and nothing else happened.
* `reserved_key_routed_iff`: when that is the case.
-/

namespace Nsr

open Transition

namespace Program

/-! ## Runs -/

/-- **The program as it starts**: the plugins are loaded, and the key table is filled from them. -/
structure Started (p : Program) : Prop where
  loaded : ∀ h ∈ p.reg, ∃ name enabled env io, Host.load name enabled env = some (io, h)
  keys : p.tui.keys = KeyManager.init p.reg
  currentMode : p.tui.currentMode = .normal
  navStack : p.tui.navStack = []

/-- `nsr_tui_toggle_dashboard`. -/
def toggleDashboard (p : Program) : Program :=
  { p with tui := { p.tui with showDashboard := !p.tui.showDashboard } }

/-- A key in the main loop: `1` ends the program, and `6` is the dashboard. -/
def press (p : Program) (ch : Int32) (env : UpdateEnv) : Option Program :=
  match p.update ch env with
  | none => none
  | some (ret, p) => if ret = 1 then none else if ret = 6 then some p.toggleDashboard else some p

/-- **One step of the interface.**  A frame consists of operations of the host and of drawing, which
moves cursors into range, drops a notice and lists the nodes of the tree; the topology changes with
the telemetry. -/
inductive Step : Program → Program → Prop where
  | host (p : Program) (k : ℕ) (a : Host.Action) (h h' : Host) (hk : p.reg[k]? = some h)
      (ha : Host.act a h = some h') : Step p { p with reg := p.reg.set k h' }
  | draw (p : Program) (topo : Topology) (treeNodes : List (Fin topologyMaxNodes))
      (gridCursor treeCursor toolsCursor : ℤ) (msg : Bytes) :
      Step p { p with
        topo := topo
        treeNodes := treeNodes
        tui := { p.tui with
          gridCursor := gridCursor
          treeCursor := treeCursor
          toolsCursor := toolsCursor
          msg := msg } }
  | key (p p' : Program) (ch : Int32) (env : UpdateEnv) (hp : p.press ch env = some p') : Step p p'

/-- The program with its plugins loaded. -/
def start (reg : Registry) : Program where
  tui := {
    currentMode := .normal
    navStack := []
    gridCursor := 0
    treeCursor := 0
    toolsCursor := 0
    focusedNodeId := 0
    showStats := false
    showDashboard := false
    frozen := false
    msg := []
    keys := KeyManager.init reg }
  topo := Topology.init
  treeNodes := []
  reg := reg

theorem start_started {reg : Registry}
    (h : ∀ h ∈ reg, ∃ name enabled env io, Host.load name enabled env = some (io, h)) :
    (start reg).Started :=
  ⟨h, rfl, rfl, rfl⟩

end Program

/-! ## What a run keeps -/

/-- The reserved keys of an entry are small letters and digits. -/
def ReservedOk (h : Host) : Prop :=
  ∀ k ∈ h.e.reservedKeys, (0x61 ≤ k ∧ k ≤ 0x7a) ∨ (0x30 ≤ k ∧ k ≤ 0x39)

namespace ReservedOk

theorem checkAlive {h : Host} (hok : ReservedOk h) (exited : Bool) :
    ReservedOk (h.checkAlive exited) := by
  obtain ⟨dead, initialized, hcheck⟩ := h.checkAlive_shape exited
  rw [hcheck]
  exact hok

theorem same {h h' : Host} (hok : ReservedOk h) (hsame : Host.Same h h') : ReservedOk h' := by
  rw [ReservedOk, hsame.reservedKeys]
  exact hok

theorem spawn {h h' : Host} {env : Host.SpawnEnv} {io : List Io} (hok : ReservedOk h)
    (hs : h.spawn env = some (io, h')) : ReservedOk h' := by
  rcases Host.spawn_cases hs with ⟨-, -, rfl⟩ | ⟨p, resp, rpc, -, -, hstart⟩
  · exact hok
  rcases hstart with ⟨result, -, -, rfl⟩ | ⟨-, -, rfl⟩
  · intro k hk
    dsimp only [initKeys] at hk
    split at hk
    · exact hok k hk
    · exact mem_parseReservedKeys hk
  · exact hok

theorem setEnabled {h h' : Host} {enabled written : Bool} {env : Host.SpawnEnv} {io : List Io}
    (hok : ReservedOk h) (hs : h.setEnabled enabled written env = some (io, h')) :
    ReservedOk h' := by
  rcases Host.setEnabled_cases hs with ⟨-, -, rfl⟩ | ⟨-, -, hspawn⟩ | ⟨-, -, -, rfl⟩
  · exact hok
  · exact spawn (h := { h with e := { h.e with enabled := true } }) hok hspawn
  · intro k hk
    cases hk

theorem load {h : Host} {name : CStr} {enabled : Bool} {env : Host.SpawnEnv} {io : List Io}
    (hl : Host.load name enabled env = some (io, h)) : ReservedOk h := by
  have hnone : ∀ enabled, ReservedOk (Host.unloaded name enabled) := by
    intro enabled k hk
    cases hk
  unfold Host.load at hl
  split at hl
  · exact (hnone true).spawn hl
  · obtain ⟨-, rfl⟩ := Prod.mk.inj (Option.some_inj.mp hl)
    exact hnone false

end ReservedOk

/-- **What a run keeps**: the key table, and what reserved keys look like. -/
structure KeysFixed (keys : KeyManager) (p : Program) : Prop where
  keys : p.tui.keys = keys
  reserved : ∀ h ∈ p.reg, ReservedOk h

/-- What is kept of every entry is kept of the registry. -/
theorem forall_of_rel {P : Host → Prop} {reg reg' : Registry}
    (h : List.Forall₂ (fun h h' => P h → P h') reg reg') (hreg : ∀ h ∈ reg, P h) :
    ∀ h ∈ reg', P h := by
  intro h' hmem
  obtain ⟨i, hi⟩ := List.mem_iff_getElem?.mp hmem
  obtain ⟨a, ha, himp⟩ := Scan.entry_of_rel h hi
  exact himp (hreg a (List.mem_of_getElem? ha))

theorem modalActive_reserved {reg reg' : Registry} {exited : ℕ → Bool} {b : Bool}
    (h : reg.modalActive exited = some (b, reg')) (hreg : ∀ h ∈ reg, ReservedOk h) :
    ∀ h ∈ reg', ReservedOk h := by
  refine forall_of_rel (Scan.first_rel (fun _ => id) (fun i a c a' hr hok => ?_) h) hreg
  obtain ⟨-, rfl⟩ := Prod.mk.inj (Option.some_inj.mp hr)
  exact hok.checkAlive _

theorem passLoop_keeps {reg reg' : Registry} {pass : Host.Pass} {ch : Int32}
    {env : ℕ → Registry.OnKeyEnv} {handled b : Bool}
    (h : reg.passLoop pass ch env handled = some (b, reg')) (hreg : ∀ h ∈ reg, ReservedOk h) :
    ∀ h ∈ reg', ReservedOk h := by
  unfold Registry.passLoop at h
  split at h
  · obtain ⟨-, rfl⟩ := Prod.mk.inj (Option.some_inj.mp h)
    exact hreg
  · refine forall_of_rel (Scan.first_rel (fun _ => id) (fun i a c a' hr hok => ?_) h) hreg
    exact (hok.checkAlive _).same (Host.same_parts.onKeyPass hr)

theorem onKey_reserved {reg reg' : Registry} {ch : Int32} {env : ℕ → Registry.OnKeyEnv} {b : Bool}
    (h : reg.onKey ch env = some (b, reg')) (hreg : ∀ h ∈ reg, ReservedOk h) :
    ∀ h ∈ reg', ReservedOk h := by
  unfold Registry.onKey at h
  split at h
  · obtain ⟨-, rfl⟩ := Prod.mk.inj (Option.some_inj.mp h)
    exact hreg
  · obtain ⟨⟨b₁, reg₁⟩, hdrain, h⟩ := Option.bind_eq_some_iff.mp h
    obtain ⟨⟨b₂, reg₂⟩, hmodal, h⟩ := Option.bind_eq_some_iff.mp h
    obtain ⟨⟨b₃, reg₃⟩, hreserved, h⟩ := Option.bind_eq_some_iff.mp h
    have hreg₁ : ∀ h ∈ reg₁, ReservedOk h := by
      refine forall_of_rel (Scan.every_rel (fun i a c a' hr hok => ?_) hdrain) hreg
      exact (hok.checkAlive _).same (Host.same_parts.onKeyDrain (fun _ _ => trivial) hr)
    exact passLoop_keeps h (passLoop_keeps hreserved (passLoop_keeps hmodal hreg₁))

namespace Program

/-- What the view does with a key touches neither the key table nor the plugins. -/
theorem updateView_frame (p : Program) (ch : Int32) (cols : ℤ) :
    (p.updateView ch cols).2.tui.keys = p.tui.keys ∧ (p.updateView ch cols).2.reg = p.reg := by
  have hfocus : ∀ cursor total node, (p.focus cursor total node).tui.keys = p.tui.keys ∧
      (p.focus cursor total node).reg = p.reg := by
    intro cursor total node
    unfold focus
    split
    · cases node <;> exact ⟨rfl, rfl⟩
    · exact ⟨rfl, rfl⟩
  have hflip : ∀ node, (p.flipControlPlane node).tui.keys = p.tui.keys ∧
      (p.flipControlPlane node).reg = p.reg := by
    intro node
    cases node <;> exact ⟨rfl, rfl⟩
  unfold updateView
  split
  · rw [updateGrid]
    dsimp only
    repeat' split
    all_goals first | exact ⟨rfl, rfl⟩ | exact hfocus _ _ _ | exact hflip _
  · rw [updateTree]
    dsimp only
    repeat' split
    all_goals first | exact ⟨rfl, rfl⟩ | exact hfocus _ _ _ | exact hflip _
  · rw [updateNormal]
    repeat' split
    all_goals exact ⟨rfl, rfl⟩

/-- The menu leaves the key table alone, and spawns and stops plugins. -/
theorem updateTools_keeps {p p' : Program} {ch : Int32} {env : UpdateEnv} {ret : ℤ}
    {keys : KeyManager} (hp : KeysFixed keys p) (hu : p.updateTools ch env = some (ret, p')) :
    KeysFixed keys p' := by
  have hdone : ∀ {q : Program}, (0, q.clampTools) = (ret, p') → KeysFixed keys q →
      KeysFixed keys p' := by
    rintro q heq hq
    obtain ⟨-, rfl⟩ := Prod.mk.inj heq
    exact ⟨hq.keys, hq.reserved⟩
  have hmove : ∀ {d : ℤ},
      (0, clampTools { p with tui := { p.tui with toolsCursor := p.tui.toolsCursor + d } }) =
        (ret, p') → KeysFixed keys p' :=
    fun heq => hdone heq ⟨hp.keys, hp.reserved⟩
  unfold updateTools at hu
  dsimp only at hu
  split at hu
  · exact hmove (Option.some_inj.mp hu)
  split at hu
  · exact hmove (Option.some_inj.mp hu)
  split at hu
  · exact hmove (Option.some_inj.mp hu)
  split at hu
  · exact hmove (Option.some_inj.mp hu)
  split at hu
  · obtain ⟨q, hq, heq⟩ := Option.map_eq_some_iff.mp hu
    refine hdone heq ?_
    unfold togglePlugin at hq
    split at hq
    · obtain rfl := Option.some_inj.mp hq
      exact hp
    split at hq
    · obtain rfl := Option.some_inj.mp hq
      exact hp
    next h hk =>
      obtain ⟨⟨io, h'⟩, hset, rfl⟩ := Option.map_eq_some_iff.mp hq
      refine ⟨hp.keys, fun x hx => ?_⟩
      rcases List.mem_or_eq_of_mem_set hx with hx | rfl
      · exact hp.reserved x hx
      · exact (hp.reserved h (List.mem_of_getElem? hk)).setEnabled hset
  split at hu
  · refine hdone (Option.some_inj.mp hu) ⟨?_, hp.reserved⟩
    rw [← hp.keys, Tui.popNav]
    split <;> rfl
  · exact hdone (Option.some_inj.mp hu) hp

/-- The shortcuts of the views, the plugins and the view keep the key table. -/
theorem updateKeys_keeps {p p' : Program} {ch : Int32} {env : UpdateEnv} {ret : ℤ}
    {keys : KeyManager} (hp : KeysFixed keys p) (hu : p.updateKeys ch env = some (ret, p')) :
    KeysFixed keys p' := by
  have htui : ∀ {tui : Tui}, (0, { p with tui := tui }) = (ret, p') → tui.keys = p.tui.keys →
      KeysFixed keys p' := by
    rintro tui heq htui
    obtain ⟨-, rfl⟩ := Prod.mk.inj heq
    exact ⟨htui.trans hp.keys, hp.reserved⟩
  have henter : ∀ mode, (p.tui.enter mode).keys = p.tui.keys := by
    intro mode
    unfold Tui.enter
    split <;> rfl
  have hpop : p.tui.popNav.keys = p.tui.keys := by
    unfold Tui.popNav
    split <;> rfl
  unfold updateKeys at hu
  split at hu
  · exact htui (Option.some_inj.mp hu) rfl
  split at hu
  · exact htui (Option.some_inj.mp hu) (henter _)
  split at hu
  · exact htui (Option.some_inj.mp hu) (henter _)
  split at hu
  · exact htui (Option.some_inj.mp hu) (henter _)
  split at hu
  · exact htui (Option.some_inj.mp hu) hpop
  split at hu
  · exact htui (Option.some_inj.mp hu) rfl
  · obtain ⟨⟨b, reg⟩, hon, heq⟩ := Option.map_eq_some_iff.mp hu
    have hreg := onKey_reserved hon hp.reserved
    dsimp only at heq
    split at heq
    · obtain ⟨-, rfl⟩ := Prod.mk.inj heq
      exact ⟨hp.keys, hreg⟩
    · obtain ⟨hkeys, hsame⟩ := updateView_frame { p with reg := reg } ch env.cols
      rw [heq] at hkeys hsame
      exact ⟨hkeys.trans hp.keys, by rw [hsame]; exact hreg⟩

/-- `nsr_tui_update` keeps the key table. -/
theorem update_keeps {p p' : Program} {ch : Int32} {env : UpdateEnv} {ret : ℤ} {keys : KeyManager}
    (hp : KeysFixed keys p) (hu : p.update ch env = some (ret, p')) : KeysFixed keys p' := by
  unfold update at hu
  split at hu
  · obtain ⟨-, rfl⟩ := Prod.mk.inj (Option.some_inj.mp hu)
    exact hp
  split at hu
  · cases hu
  next reg hmodal =>
    obtain ⟨⟨b, reg'⟩, hon, heq⟩ := Option.map_eq_some_iff.mp hu
    obtain ⟨-, rfl⟩ := Prod.mk.inj heq
    exact ⟨hp.keys, onKey_reserved hon (modalActive_reserved hmodal hp.reserved)⟩
  next reg hmodal =>
    have hp' : KeysFixed keys { p with reg := reg } :=
      ⟨hp.keys, modalActive_reserved hmodal hp.reserved⟩
    dsimp only at hu
    split at hu
    · obtain ⟨-, rfl⟩ := Prod.mk.inj (Option.some_inj.mp hu)
      exact hp'
    split at hu
    · split at hu
      · obtain ⟨-, rfl⟩ := Prod.mk.inj (Option.some_inj.mp hu)
        exact ⟨hp'.keys, hp'.reserved⟩
      · obtain ⟨-, rfl⟩ := Prod.mk.inj (Option.some_inj.mp hu)
        exact hp'
    split at hu
    · exact updateTools_keeps hp' hu
    · exact updateKeys_keeps hp' hu

/-- One step keeps the key table. -/
theorem step_keeps {p p' : Program} {keys : KeyManager} (hp : KeysFixed keys p)
    (hstep : Step p p') : KeysFixed keys p' := by
  cases hstep with
  | host k a h h' hk ha =>
    refine ⟨hp.keys, fun x hx => ?_⟩
    rcases List.mem_or_eq_of_mem_set hx with hx | rfl
    · exact hp.reserved x hx
    · have hok := hp.reserved h (List.mem_of_getElem? hk)
      exact (hok.checkAlive a.exited).same (Host.same_parts.act a.asks_drawn ha)
  | draw topo treeNodes gridCursor treeCursor toolsCursor msg => exact ⟨hp.keys, hp.reserved⟩
  | key _ ch env hpress =>
    unfold press at hpress
    split at hpress
    · cases hpress
    next ret q hu =>
      have hq := update_keeps hp hu
      split at hpress
      · cases hpress
      split at hpress
      · obtain rfl := Option.some_inj.mp hpress
        exact ⟨hq.keys, hq.reserved⟩
      · obtain rfl := Option.some_inj.mp hpress
        exact hq

/-- **In a run the key table is the one of the start.** -/
theorem keysFixed_of_reachable {p₀ p : Program} (hs : p₀.Started) (hr : Reachable Step p₀ p) :
    KeysFixed (KeyManager.init p₀.reg) p := by
  refine hr.invariant ⟨hs.keys, fun h hmem => ?_⟩ fun _ _ _ ih hstep => step_keeps ih hstep
  obtain ⟨name, enabled, env, io, hl⟩ := hs.loaded h hmem
  exact ReservedOk.load hl

end Program

/-! ## A reserved key -/

/-- The key is bound to one of the shortcuts that `nsr_tui_update` tests before it asks the
plugins. -/
def KeyManager.hasShortcut (keys : KeyManager) (ch : Int32) : Bool :=
  ['q', 'd', 'n', 'g', 'm', 't', 'p'].any fun c => keys.isBoundTo c ch

/-- **The key went to a plugin, and nothing else happened**: the call returns `0`, and the view, the
stack of views, the frozen flag and the cursors are as they were. -/
structure Routed (ch : Int32) (p : Program) (r : ℤ × Program) : Prop where
  ret : r.1 = 0
  currentMode : r.2.tui.currentMode = p.tui.currentMode
  navStack : r.2.tui.navStack = p.tui.navStack
  frozen : r.2.tui.frozen = p.tui.frozen
  gridCursor : r.2.tui.gridCursor = p.tui.gridCursor
  treeCursor : r.2.tui.treeCursor = p.tui.treeCursor
  toolsCursor : r.2.tui.toolsCursor = p.tui.toolsCursor
  took : Took ch p.reg r.2.reg

/-- A reserved key is a character, and not `Escape`. -/
theorem reservesKey_range {h : Host} {ch : Int32} (hok : ReservedOk h)
    (hres : h.e.reservesKey ch = true) : ¬ch < 0 ∧ ch ≠ -1 ∧ ch ≠ 27 := by
  unfold Entry.reservesKey at hres
  split at hres
  · cases hres
  next hrange =>
    have hneg : ¬ch < 0 := fun h => hrange (by simp [h])
    refine ⟨hneg, ?_, ?_⟩
    · rintro rfl
      exact hneg (by decide)
    · rintro rfl
      have hmem : (27 : UInt8) ∈ h.e.reservedKeys := by
        simpa using hres
      have hnot := hok 27 hmem
      revert hnot
      decide

/-- The plugin is there for the whole call: its process does not exit, and its pipe takes what is
written. -/
structure UpdateEnv.Stays (env : UpdateEnv) (k : ℕ) : Prop where
  modalExited : env.modalExited k = false
  onKey : (env.onKey k).Stays

namespace Program

variable {p : Program} {ch : Int32} {env : UpdateEnv} {r : ℤ × Program} {reg : Registry}

/-- A shortcut does not ask the plugins. -/
theorem update_shortcut (hch : ch ≠ -1) (hmode : p.tui.currentMode ≠ .tools)
    (hmodal : p.reg.modalActive env.modalExited = some (false, reg))
    (hkey : p.tui.keys.hasShortcut ch = true) (hu : p.update ch env = some r) : r.2.reg = reg := by
  rw [update, if_neg hch, hmodal] at hu
  dsimp only at hu
  split at hu
  · rw [← Option.some_inj.mp hu]
  next hq =>
  split at hu
  · split at hu
    · rw [← Option.some_inj.mp hu]
    · rw [← Option.some_inj.mp hu]
  next hd =>
  unfold updateKeys at hu
  dsimp only at hu
  split at hu
  · rw [← Option.some_inj.mp hu]
  next hn =>
  split at hu
  · rw [← Option.some_inj.mp hu]
  next hg =>
  split at hu
  · rw [← Option.some_inj.mp hu]
  next hm =>
  split at hu
  · rw [← Option.some_inj.mp hu]
  next ht =>
  split at hu
  · rw [← Option.some_inj.mp hu]
  split at hu
  · rw [← Option.some_inj.mp hu]
  next hp =>
    rw [KeyManager.hasShortcut] at hkey
    simp only [List.any_cons, List.any_nil, Bool.or_false, hq, hd, hn, hg, hm, ht, hp] at hkey
    cases hkey

/-- A key that is no shortcut is offered to the plugins. -/
theorem update_no_shortcut (hch : ch ≠ -1) (hesc : ch ≠ 27) (hmode : p.tui.currentMode ≠ .tools)
    (hmodal : p.reg.modalActive env.modalExited = some (false, reg))
    (hkey : p.tui.keys.hasShortcut ch = false) :
    p.update ch env = (reg.onKey ch env.onKey).map fun r =>
      if r.1 then (0, { p with reg := r.2 }) else updateView { p with reg := r.2 } ch env.cols := by
  simp only [KeyManager.hasShortcut, List.any_cons, List.any_nil, Bool.or_false,
    Bool.or_eq_false_iff] at hkey
  obtain ⟨hq, hd, hn, hg, hm, ht, hp⟩ := hkey
  rw [update, if_neg hch, hmodal]
  simp only [hq, hd, hmode, updateKeys, hn, hg, hm, ht, hesc, hp, Bool.false_eq_true, if_false]

end Program

/-- **A reserved key goes to a plugin, unless it is bound to a shortcut at start-up.**  In every run
of the program, for a call of `nsr_tui_update` outside of the menu with a key that a live plugin
has reserved, where the plugin stays for the call: the key is passed to a plugin and nothing else
happens if and only if some plugin is modal or the key table of the start binds no built-in shortcut
to the key, and no editor that a plugin has asked for is run in its place. -/
theorem reserved_key_routed_iff {p₀ p : Program} (hs : p₀.Started)
    (hr : Reachable Program.Step p₀ p) {ch : Int32} {env : UpdateEnv} {r : ℤ × Program}
    (hu : p.update ch env = some r) (hmode : p.tui.currentMode ≠ .tools) {k : ℕ} {h : Host}
    (hk : p.reg[k]? = some h) (hlive : h.e.live = true) (hres : h.e.reservesKey ch = true)
    (hstays : env.Stays k) {active : Bool} {reg : Registry}
    (hmodal : p.reg.modalActive env.modalExited = some (active, reg)) :
    Routed ch p r ↔
      (active = true ∨ (KeyManager.init p₀.reg).hasShortcut ch = false) ∧
        reg.editorRuns env.onKey = false := by
  have hfixed := Program.keysFixed_of_reachable hs hr
  obtain ⟨hneg, herr, hesc⟩ :=
    reservesKey_range (hfixed.reserved h (List.mem_of_getElem? hk)) hres
  have hquiet := Registry.modalActive_unpassed hmodal
  have hk' := Registry.modalActive_stays hk hstays.modalExited hmodal
  -- what the plugins do with the key, once they are asked
  have hasked : ∀ {b reg'}, reg.onKey ch env.onKey = some (b, reg') →
      (Took ch p.reg reg' ↔ reg.editorRuns env.onKey = false) ∧
        (reg.editorRuns env.onKey = false → b = true) := by
    intro b reg' hon
    refine ⟨⟨fun htook => ?_, fun hed => ?_⟩, fun hed => ?_⟩
    · by_contra hed
      refine Registry.not_took (Registry.unpassed_trans hquiet ?_) htook
      exact Registry.onKey_editor (by simpa using hed) hon
    · exact Registry.took_after hquiet
        (Registry.onKey_takes hk' hstays.onKey hlive hneg hres hed hon).2
    · exact (Registry.onKey_takes hk' hstays.onKey hlive hneg hres hed hon).1
  cases active with
  | true =>
    rw [Program.update, if_neg herr, hmodal] at hu
    obtain ⟨⟨b, reg'⟩, hon, rfl⟩ := Option.map_eq_some_iff.mp hu
    obtain ⟨hiff, -⟩ := hasked hon
    exact ⟨fun h => ⟨.inl rfl, hiff.mp h.took⟩,
      fun h => ⟨rfl, rfl, rfl, rfl, rfl, rfl, rfl, hiff.mpr h.2⟩⟩
  | false =>
    cases hkey : (KeyManager.init p₀.reg).hasShortcut ch with
    | true =>
      have hreg := Program.update_shortcut herr hmode hmodal (by rw [hfixed.keys, hkey]) hu
      refine ⟨fun h => ?_, fun h => by simp at h⟩
      have htook := h.took
      rw [hreg] at htook
      exact absurd htook (Registry.not_took hquiet)
    | false =>
      rw [Program.update_no_shortcut herr hesc hmode hmodal (by rw [hfixed.keys, hkey])] at hu
      obtain ⟨⟨b, reg'⟩, hon, heq⟩ := Option.map_eq_some_iff.mp hu
      obtain ⟨hiff, hyes⟩ := hasked hon
      refine ⟨fun h => ⟨.inr rfl, ?_⟩, fun h => ?_⟩
      · have hreg : r.2.reg = reg' := by
          rw [← heq]
          dsimp only
          split
          · rfl
          · exact (Program.updateView_frame _ ch env.cols).2
        exact hiff.mp (hreg ▸ h.took)
      · rw [hyes h.2, if_pos rfl] at heq
        rw [← heq]
        exact ⟨rfl, rfl, rfl, rfl, rfl, rfl, rfl, hiff.mpr h.2⟩

/-- A call during which nothing comes from the plugins; a plugin that is enabled in it reserves the
keys of a text. -/
def UpdateEnv.quiet (keys : CStr) : UpdateEnv where
  cols := 80
  modalExited := fun _ => false
  onKey := fun _ => ⟨false, [.silent], fun _ => ⟨false, [.silent], 1000, 1000, true⟩⟩
  written := true
  spawn := .starts 100 keys

theorem UpdateEnv.quiet_stays (keys : CStr) (k : ℕ) : (UpdateEnv.quiet keys).Stays k :=
  ⟨rfl, rfl, by simp [quiet, Host.DrainEnv.silent], fun _ => rfl⟩

/-- A plugin that has reserved `x` gets it in the grid. -/
theorem reserved_key_routed_grid :
    ∃ (p₀ p : Program) (r : ℤ × Program), p₀.Started ∧ Reachable Program.Step p₀ p ∧
      p.tui.currentMode = .grid ∧ p.update (keyOf 'x') (.quiet (cs "")) = some r ∧
      Routed (keyOf 'x') p r := by
  have hrun : ((Host.load (cs "viewer") true (.starts 100 (cs "x"))).bind fun l =>
      (exec (fun ch p => p.press ch (.quiet (cs ""))) [keyOf 'g'] (Program.start [l.2])).bind fun p =>
        (p.update (keyOf 'x') (.quiet (cs ""))).bind fun _ =>
        (p.reg.modalActive (fun _ => false)).map fun m =>
          (p.tui.currentMode, (p.reg[0]?).map fun h => (h.e.live, h.e.reservesKey (keyOf 'x')),
            m.1, m.2.editorRuns (UpdateEnv.quiet (cs "")).onKey,
            (KeyManager.init [l.2]).hasShortcut (keyOf 'x'))) =
      some (.grid, some (true, true), false, false, false) := by
    decide +kernel
  obtain ⟨⟨io, h₀⟩, hload, hrun⟩ := Option.bind_eq_some_iff.mp hrun
  obtain ⟨p, hexec, hrun⟩ := Option.bind_eq_some_iff.mp hrun
  obtain ⟨r, hu, hrun⟩ := Option.bind_eq_some_iff.mp hrun
  obtain ⟨⟨active, reg⟩, hmodal, hobs⟩ := Option.map_eq_some_iff.mp hrun
  simp only [Prod.mk.injEq] at hobs
  obtain ⟨hgrid, hhost, -, heditor, hkey⟩ := hobs
  obtain ⟨h, hk, hh⟩ := Option.map_eq_some_iff.mp hhost
  obtain ⟨hlive, hres⟩ := Prod.mk.inj hh
  have hs : (Program.start [h₀]).Started := by
    refine Program.start_started fun h hmem => ?_
    rw [List.mem_singleton.mp hmem]
    exact ⟨_, _, _, io, hload⟩
  have hr : Reachable Program.Step (Program.start [h₀]) p :=
    Reachable.exec (fun ch _ s t hst => .key s t ch _ hst) Reachable.refl hexec
  have hmode : p.tui.currentMode ≠ .tools := by
    rw [hgrid]
    decide
  exact ⟨_, p, r, hs, hr, hgrid, hu,
    (reserved_key_routed_iff hs hr hu hmode hk hlive hres (UpdateEnv.quiet_stays _ 0) hmodal).mpr
      ⟨.inr hkey, heditor⟩⟩

/-- **A reserved key opens the tree.**  A plugin that is disabled at start-up is enabled from the
menu and reserves `t`; back in the normal view, `t` switches to the tree, and no plugin is passed
the key. -/
theorem reserved_key_not_routed :
    ∃ (p₀ p : Program) (r : ℤ × Program) (h : Host), p₀.Started ∧ Reachable Program.Step p₀ p ∧
      p.tui.currentMode = .normal ∧ p.reg[0]? = some h ∧ h.e.live = true ∧ h.e.isModal = false ∧
      h.e.reservesKey (keyOf 't') = true ∧
      p.update (keyOf 't') (.quiet (cs "t")) = some r ∧ (UpdateEnv.quiet (cs "t")).Stays 0 ∧
      r.2.tui.currentMode = .tree ∧ ¬Routed (keyOf 't') p r := by
  have hrun : ((exec (fun ch p => p.press ch (.quiet (cs "t"))) [keyOf 'm', keyOf '\n', 27]
      (Program.start [Host.unloaded (cs "viewer") false])).map fun p =>
        (p.tui.currentMode,
          (p.reg[0]?).map fun h => (h.e.live, h.e.isModal, h.e.reservesKey (keyOf 't')),
          (p.update (keyOf 't') (.quiet (cs "t"))).map fun r => r.2.tui.currentMode)) =
      some (.normal, some (true, false, true), some .tree) := by
    decide +kernel
  obtain ⟨p, hr, hobs⟩ := Reachable.exists_of_exec Program.Step hrun
    fun ch _ s t hst => .key s t ch _ hst
  simp only [Prod.mk.injEq] at hobs
  obtain ⟨hmode, hhost, hupdate⟩ := hobs
  obtain ⟨h, hk, hh⟩ := Option.map_eq_some_iff.mp hhost
  simp only [Prod.mk.injEq] at hh
  obtain ⟨r, hu, htree⟩ := Option.map_eq_some_iff.mp hupdate
  refine ⟨_, p, r, h, Program.start_started ?_, hr, hmode, hk, hh.1, hh.2.1, hh.2.2, hu,
    UpdateEnv.quiet_stays _ 0, htree, fun hrouted => ?_⟩
  · intro h hmem
    rw [List.mem_singleton.mp hmem]
    exact ⟨cs "viewer", false, .starts 100 (cs "t"), [], rfl⟩
  · have hsame := hrouted.currentMode
    rw [hmode, htree] at hsame
    cases hsame

end Nsr
