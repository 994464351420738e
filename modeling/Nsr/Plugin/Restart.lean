import Nsr.Plugin.Deadlines

/-!
# A plugin that is started again

`nsr_plugins_set_enabled` stops a plugin and starts it again in the same entry of the registry.
What the entry has gathered from the old process must not reach the new one.  `plugin_stop` resets
the entry field by field, and `plugin_spawn` writes the rest, except for the description, which
it only replaces by another one.

* `Described`: an entry with the description of its plugin.
* `Agree`: two entries that cannot be told apart.
* `restart_agrees`: whatever came before, entries agree after a restart with the same process.
-/

namespace Nsr

/-- An entry and `description`, which no other part of the host reads. -/
structure Described where
  host : Host
  description : Bytes

/-- The description that the result of an `init` gives: a string, cut to 255 bytes. -/
def resultDescription (result : Bytes) : Option Bytes :=
  match objGet result (cs "description") with
  | none => none
  | some (val, len) => parseStr val len 256

namespace Host

/-- The description that `plugin_spawn` finds, if there is a process and it answers `init` with
one. -/
def SpawnEnv.description (env : SpawnEnv) : Option Bytes :=
  match env.process with
  | none => none
  | some p =>
    match rpcCall (spawnRpc (some p)) 2000 env.written env.recv with
    | none => none
    | some (resp, _) => (resp.bind initResult).bind resultDescription

end Host

namespace Described

/-- `nsr_plugins_set_enabled` with the description: a plugin that is started may give another. -/
def setEnabled (d : Described) (enabled written : Bool) (env : Host.SpawnEnv) :
    Option (List Io × Described) :=
  (d.host.setEnabled enabled written env).map fun r =>
    (r.1, ⟨r.2,
      if enabled ∧ d.host.e.enabled = false then env.description.getD d.description
      else d.description⟩)

/-- The plugin is disabled and enabled again; `env` is what the system answers to the second
call. -/
def restart (d : Described) (written : Bool) (env : Host.SpawnEnv) : Option Described :=
  (d.setEnabled false written env).bind fun r => (r.2.setEnabled true written env).map Prod.snd

end Described

/-- **Entries that cannot be told apart.**  Of the key queue only the queued keys count. -/
structure Agree (e e' : Entry) : Prop where
  name : e.name = e'.name
  enabled : e.enabled = e'.enabled
  initialized : e.initialized = e'.initialized
  dead : e.dead = e'.dead
  rpc : e.rpc = e'.rpc
  lastResp : e.lastResp = e'.lastResp
  pending : e.pending = e'.pending
  pendingId : e.pendingId = e'.pendingId
  isModal : e.isModal = e'.isModal
  lastOnKeyMs : e.lastOnKeyMs = e'.lastOnKeyMs
  reservedKeys : e.reservedKeys = e'.reservedKeys
  queue : queueList e = queueList e'
  lastKeyCh : e.lastKeyCh = e'.lastKeyCh
  lastKeyMs : e.lastKeyMs = e'.lastKeyMs
  editor : e.pendingOpenEditor = e'.pendingOpenEditor
  editorFile : e.pendingOpenEditorFile = e'.pendingOpenEditorFile

namespace Host

/-- An entry that was stopped and is enabled again, up to the connection, which is set up anew. -/
def emptied (h : Host) : Host :=
  ⟨{ (h.stop true).2.e with enabled := true, rpc := spawnRpc none }, h.log⟩

/-- **What a stop leaves of an entry** is its name. -/
theorem emptied_agree {h₁ h₂ : Host} (hname : h₁.e.name = h₂.e.name) :
    Agree h₁.emptied.e h₂.emptied.e :=
  ⟨hname, rfl, rfl, rfl, rfl, rfl, rfl, rfl, rfl, rfl, rfl, rfl, rfl, rfl, rfl, rfl⟩

theorem emptied_idle (h : Host) : h.emptied.Idle :=
  ⟨rfl, rfl, fun _ => rfl, fun _ => rfl, rfl, rfl, rfl, rfl, rfl⟩

/-- **A spawn leaves entries alike.** -/
theorem spawn_agree {h₁ h₂ h₁' : Host} {env : SpawnEnv} {io : List Io} (hag : Agree h₁.e h₂.e)
    (hs : h₁.spawn env = some (io, h₁')) :
    ∃ h₂', h₂.spawn env = some (io, h₂') ∧ Agree h₁'.e h₂'.e := by
  unfold spawn at hs ⊢
  cases hp : env.process with
  | none =>
    rw [hp] at hs
    obtain ⟨rfl, rfl⟩ := Prod.mk.inj (Option.some_inj.mp hs)
    exact ⟨_, rfl, { hag with rpc := rfl }⟩
  | some p =>
    rw [hp] at hs
    dsimp only at hs ⊢
    split at hs
    · cases hs
    next resp rpc hcall =>
      cases hresult : resp.bind initResult with
      | none =>
        rw [hresult] at hs
        obtain ⟨rfl, rfl⟩ := Prod.mk.inj (Option.some_inj.mp hs)
        exact ⟨_, rfl, { hag with rpc := rfl, dead := rfl }⟩
      | some result =>
        rw [hresult] at hs
        obtain ⟨rfl, rfl⟩ := Prod.mk.inj (Option.some_inj.mp hs)
        refine ⟨_, rfl, { hag with rpc := rfl, initialized := rfl, reservedKeys := ?_ }⟩
        exact congrArg (initKeys result) hag.reservedKeys

/-- A spawn queues no key. -/
theorem spawn_queueList {h h' : Host} {env : SpawnEnv} {io : List Io}
    (hs : h.emptied.spawn env = some (io, h')) : queueList h'.e = [] := by
  rcases spawn_cases hs with ⟨-, -, rfl⟩ | ⟨p, resp, rpc, -, -, ⟨result, -, -, rfl⟩ | ⟨-, -, rfl⟩⟩
  all_goals rfl

end Host

namespace Described

theorem setEnabled_off {d : Described} (hon : d.host.e.enabled = true) (written : Bool)
    (env : Host.SpawnEnv) :
    d.setEnabled false written env =
      some ((d.host.stop written).1,
        ⟨(Host.stop { d.host with e := { d.host.e with enabled := false } } written).2,
          d.description⟩) := by
  rw [setEnabled, if_neg fun h => Bool.false_ne_true h.1, Host.setEnabled,
    if_neg (by rw [hon]; decide)]
  rfl

theorem setEnabled_on {d : Described} (hoff : d.host.e.enabled = false) (written : Bool)
    (env : Host.SpawnEnv) :
    d.setEnabled true written env =
      (Host.spawn { d.host with e := { d.host.e with enabled := true } } env).map fun r =>
        (r.1, ⟨r.2, env.description.getD d.description⟩) := by
  rw [setEnabled, if_pos ⟨rfl, hoff⟩, Host.setEnabled, if_neg (by rw [hoff]; decide)]
  rfl

/-- A restart is a stop and a spawn. -/
theorem restart_eq {d : Described} (hon : d.host.e.enabled = true) (written : Bool)
    (env : Host.SpawnEnv) :
    d.restart written env =
      (d.host.emptied.spawn env).map fun r => ⟨r.2, env.description.getD d.description⟩ := by
  rw [restart, setEnabled_off hon, Option.bind_some, setEnabled_on rfl, Option.map_map]
  rfl

/-- **Starting again starts clean.**  Two entries of one plugin, both enabled, that differ in
whatever their histories have left in them, agree after a restart with a process that answers
alike.  If it answers `init`, the next request is number two.  The descriptions are the one it
gives; if it gives none, both entries keep their own. -/
theorem restart_agrees (d₁ d₂ d₁' : Described) (w₁ w₂ : Bool) (env : Host.SpawnEnv)
    (hname : d₁.host.e.name = d₂.host.e.name) (hon₁ : d₁.host.e.enabled = true)
    (hon₂ : d₂.host.e.enabled = true) (hrestart : d₁.restart w₁ env = some d₁') :
    ∃ d₂', d₂.restart w₂ env = some d₂' ∧ Agree d₁'.host.e d₂'.host.e ∧
      queueList d₁'.host.e = [] ∧ (d₁'.host.e.initialized = true → d₁'.host.Spawned) ∧
      d₁'.description = env.description.getD d₁.description ∧
      d₂'.description = env.description.getD d₂.description := by
  rw [restart_eq hon₁ w₁ env] at hrestart
  obtain ⟨⟨io, h₁'⟩, hspawn, rfl⟩ := Option.map_eq_some_iff.mp hrestart
  obtain ⟨h₂', hspawn', hag⟩ := Host.spawn_agree (Host.emptied_agree hname) hspawn
  refine ⟨⟨h₂', env.description.getD d₂.description⟩, ?_, hag, ?_, ?_, rfl, rfl⟩
  · rw [restart_eq hon₂ w₂ env]
    exact Option.map_eq_some_iff.mpr ⟨⟨io, h₂'⟩, hspawn', rfl⟩
  · exact Host.spawn_queueList hspawn
  · exact fun hinit => (Host.spawn_spawned d₁.host.emptied_idle hspawn hinit).1

/-- What a process says that answers `init` with a description that is no string. -/
def numberForDescription : Bytes :=
  ascii "\x7b\"id\":1,\"result\":\x7b\"status\":\"ok\",\"description\":5\x7d\x7d\n"

/-- A process that says so at once. -/
def oddProcess : Host.SpawnEnv :=
  ⟨some ⟨200, 5, 6⟩, true, [readAtOnce numberForDescription]⟩

/-- An entry with requests on the way and a panel open. -/
def leftModal : Described where
  host := ⟨{ (Host.spawned (cs "demo")).e with
    isModal := true, pending := fun _ => true, lastKeyCh := 97 }, []⟩
  description := ascii "old"

/-- An entry whose plugin has just been started. -/
def leftIdle : Described where
  host := Host.spawned (cs "demo")
  description := ascii "older"

/-- The two agree after a restart. -/
theorem restart_agrees_modal :
    ∃ d₁' d₂' : Described, leftModal.restart false oddProcess = some d₁' ∧
      leftIdle.restart true oddProcess = some d₂' ∧ Agree d₁'.host.e d₂'.host.e := by
  have hsome : (leftModal.restart false oddProcess).isSome = true := by decide +kernel
  obtain ⟨d₁', h₁⟩ := Option.isSome_iff_exists.mp hsome
  obtain ⟨d₂', h₂, hag, -⟩ :=
    restart_agrees leftModal leftIdle d₁' false true oddProcess rfl rfl rfl h₁
  exact ⟨d₁', d₂', h₁, h₂, hag⟩

/-- **Descriptions of old processes stay apart** although the new one answers with a description,
which is not a string. -/
theorem description_kept :
    (objGet numberForDescription (cs "result")).bind (fun r =>
      (objGet r.1 (cs "description")).map Prod.snd) = some 1 ∧
    (leftModal.restart false oddProcess).map (fun d => (d.host.e.initialized, d.description)) =
      some (true, ascii "old") ∧
    (leftIdle.restart true oddProcess).map (fun d => (d.host.e.initialized, d.description)) =
      some (true, ascii "older") := by
  refine ⟨?_, ?_, ?_⟩
  · decide +kernel
  · decide +kernel
  · decide +kernel

end Described
end Nsr
