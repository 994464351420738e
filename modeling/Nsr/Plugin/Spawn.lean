import Nsr.Plugin.Protocol
import Mathlib.Data.List.Destutter
import Mathlib.Data.List.Sort

/-!
# Starting and stopping a plugin

`plugin_spawn`, `plugin_stop` and `nsr_plugins_set_enabled` of `src/plugin/plugin.c`, with the part
of `src/json/json_rpc.c` they use: the pipe is made, `init` is sent and its answer waited for, and
the keys the plugin reserves are read from it.

Each function also returns what it does to the process: `Io` lists the system calls a plugin can
notice.  What `init` is told, and the description a plugin gives of itself, are left out.

* `parseReservedKeys`, `mem_parseReservedKeys`: reserved keys are small letters and digits.
* `spawn`, `stop`, `setEnabled`.
* `spawn_spawned`: an entry that was stopped is `Spawned` when `plugin_spawn` succeeds.
-/

namespace Nsr

open Ascii

/-- **What the host does to the process of a plugin**, and learns about it. -/
inductive Io where
  /-- `plugin_check_alive` finds that the process has exited. -/
  | exitSeen
  /-- `fork`. -/
  | forked (pid : ℤ)
  /-- A line is written to the standard input of the process. -/
  | write
  /-- `kill(pid, SIGTERM)`. -/
  | signal (pid : ℤ)
  deriving DecidableEq, Repr

/-! ## The connection -/

/-- What `rpc_send` writes: nothing on a dead or closed connection. -/
def sendIo (rpc : Rpc) : List Io :=
  if rpc.dead ∨ rpc.inFd < 0 then [] else [.write]

/-- **`nsr_json_rpc_close`.** -/
def rpcClose (rpc : Rpc) : List Io × Rpc :=
  (if 0 < rpc.pid then [.signal rpc.pid] else [],
    { rpc with
      inFd := if 0 ≤ rpc.inFd then -1 else rpc.inFd
      outFd := if 0 ≤ rpc.outFd then -1 else rpc.outFd
      pid := if 0 < rpc.pid then 0 else rpc.pid
      rx := []
      dead := true
      pendingId := -1 })

/-- `slice`: the part of the budget that one turn of `nsr_json_rpc_try_recv_response` waits for. -/
def recvSlice (deadline : ℤ) : ℤ :=
  if deadline < 0 then 50 else if 50 < deadline then 50 else deadline

/-- The loop of `nsr_json_rpc_try_recv_response`: lines that do not answer the pending request are
dropped. -/
def tryRecvLoop (timeoutMs : ℤ) : List RecvEnv → ℤ → Rpc → Option (Option Bytes × Rpc)
  | [], _, _ => none
  | env :: envs, deadline, rpc =>
    match recvLine rpc (recvSlice deadline) env with
    | none => none
    | some (none, rpc) =>
      let deadline := deadline - recvSlice deadline
      if deadline ≤ 0 ∧ 0 ≤ timeoutMs then some (none, rpc)
      else if rpc.dead then some (none, rpc)
      else tryRecvLoop timeoutMs envs deadline rpc
    | some (some line, rpc) =>
      if lineId line = rpc.pendingId then some (some line, { rpc with pendingId := -1 })
      else
        let deadline := deadline - recvSlice deadline
        if deadline ≤ 0 ∧ 0 ≤ timeoutMs then some (none, rpc)
        else tryRecvLoop timeoutMs envs deadline rpc

/-- **`nsr_json_rpc_try_recv_response`.** -/
def tryRecvResponse (rpc : Rpc) (timeoutMs : ℤ) (envs : List RecvEnv) :
    Option (Option Bytes × Rpc) :=
  if rpc.dead ∨ rpc.outFd < 0 ∨ rpc.pendingId < 0 then some (none, rpc)
  else tryRecvLoop timeoutMs envs timeoutMs rpc

/-- **`nsr_json_rpc_call`**: the request, and the wait for its answer. -/
def rpcCall (rpc : Rpc) (timeoutMs : ℤ) (written : Bool) (envs : List RecvEnv) :
    Option (Option Bytes × Rpc) :=
  let r := sendRequest rpc written
  if r.ok then tryRecvResponse r.rpc timeoutMs envs else some (none, r.rpc)

/-! ## The answer to `init` -/

/-- What `parse_reserved_keys` makes of a byte of the value. -/
def reservedKey (c : UInt8) : Option UInt8 :=
  if c = 0x22 ∨ c = 0x27 ∨ c = 0x2c ∨ c = 0x20 ∨ c = 0x09 then none
  else
    let c := if 0x41 ≤ c ∧ c ≤ 0x5a then c + 0x20 else c
    if (0x61 ≤ c ∧ c ≤ 0x7a) ∨ (0x30 ≤ c ∧ c ≤ 0x39) then some c else none

/-- **`parse_reserved_keys`**: the letters and digits of the value, 32 at most, as small letters,
sorted and each once. -/
def parseReservedKeys (val : Bytes) (valLen : ℕ) : Bytes :=
  let tmp := ((val.take valLen).filterMap reservedKey).take 32
  (tmp.insertionSort (· ≤ ·)).destutter (· ≠ ·)

theorem reservedKey_range {c k : UInt8} (h : reservedKey c = some k) :
    (0x61 ≤ k ∧ k ≤ 0x7a) ∨ (0x30 ≤ k ∧ k ≤ 0x39) := by
  unfold reservedKey at h
  split at h
  · cases h
  · dsimp only at h
    generalize (if 0x41 ≤ c ∧ c ≤ 0x5a then c + 0x20 else c) = d at h
    split at h
    next hk =>
      obtain rfl := Option.some_inj.mp h
      exact hk
    · cases h

/-- **Reserved keys are small letters and digits.** -/
theorem mem_parseReservedKeys {val : Bytes} {valLen : ℕ} {k : UInt8}
    (h : k ∈ parseReservedKeys val valLen) :
    (0x61 ≤ k ∧ k ≤ 0x7a) ∨ (0x30 ≤ k ∧ k ≤ 0x39) := by
  have hsort := (List.destutter_sublist (· ≠ ·) _).subset h
  have htake := (List.mem_insertionSort _).mp hsort
  obtain ⟨c, -, hc⟩ := List.mem_filterMap.mp (List.mem_of_mem_take htake)
  exact reservedKey_range hc

/-- The result of an `init` that succeeded. -/
def initResult (resp : Bytes) : Option Bytes :=
  match objGet (cstr resp) (cs "result") with
  | none => none
  | some (result, _) =>
    match objGet result (cs "status") with
    | none => none
    | some (status, len) =>
      if len = 4 ∧ status.take 4 = ascii "\"ok\"" then some result else none

/-- `reserved_keys` after an `init`: without the member, they stay. -/
def initKeys (result : Bytes) (keys : Bytes) : Bytes :=
  match objGet result (cs "reserved_keys") with
  | none => keys
  | some (val, len) => parseReservedKeys val len

/-! ## Spawn and stop -/

namespace Host

/-- What `fork` and `pipe` give: the process and the two ends the host keeps. -/
structure Process where
  pid : ℤ
  inFd : ℤ
  outFd : ℤ

/-- What the system answers to `plugin_spawn`: the process, where there is one, whether `init`
could be written, and what is read while its answer is waited for. -/
structure SpawnEnv where
  process : Option Process
  written : Bool
  recv : List RecvEnv

/-- The connection as `nsr_json_rpc_spawn` sets it up: zeroed where there is no process. -/
def spawnRpc (process : Option Process) : Rpc :=
  match process with
  | none => ⟨0, 0, 0, 1, -1, false, []⟩
  | some p => ⟨p.pid, p.inFd, p.outFd, 1, -1, false, []⟩

/-- **`plugin_spawn`.**  The history is about one process, and starts again with it. -/
def spawn (h : Host) (env : SpawnEnv) : Option (List Io × Host) :=
  let rpc := spawnRpc env.process
  match env.process with
  | none => some ([], ⟨{ h.e with rpc := rpc }, []⟩)
  | some p =>
    match rpcCall rpc 2000 env.written env.recv with
    | none => none
    | some (resp, rpc') =>
      match resp.bind initResult with
      | some result =>
        some (.forked p.pid :: sendIo rpc, ⟨{ h.e with
          rpc := rpc'
          initialized := true
          reservedKeys := initKeys result h.e.reservedKeys }, []⟩)
      | none =>
        let r := rpcClose rpc'
        some (.forked p.pid :: sendIo rpc ++ r.1, ⟨{ h.e with rpc := r.2, dead := true }, []⟩)

/-- **`plugin_stop`.** -/
def stop (h : Host) (written : Bool) : List Io × Host :=
  let io :=
    if 0 < h.e.rpc.pid then sendIo h.e.rpc ++ (rpcClose (notify h.e.rpc written).2).1 else []
  let rpc := if 0 < h.e.rpc.pid then (rpcClose (notify h.e.rpc written).2).2 else h.e.rpc
  (io, { h with e := { h.e.keyQueueReset with
    rpc := rpc
    lastResp := fun _ => []
    reservedKeys := []
    initialized := false
    dead := false
    pending := fun _ => false
    isModal := false
    pendingId := fun _ => -1
    lastOnKeyMs := 0
    pendingOpenEditor := false
    pendingOpenEditorFile := [] } })

/-- **`nsr_plugins_set_enabled`** on an entry, without the line in the configuration. -/
def setEnabled (h : Host) (enabled : Bool) (written : Bool) (env : SpawnEnv) :
    Option (List Io × Host) :=
  if h.e.enabled = enabled then some ([], h)
  else
    let h := { h with e := { h.e with enabled := enabled } }
    if enabled then h.spawn env else some (h.stop written)

/-- An entry as `nsr_plugins_load_dir` makes it, before the plugin is spawned. -/
def unloaded (name : CStr) (enabled : Bool) : Host where
  e := {
    name := name
    enabled := enabled
    initialized := false
    dead := false
    rpc := ⟨0, 0, 0, 0, 0, false, []⟩
    lastResp := fun _ => []
    pending := fun _ => false
    pendingId := fun _ => 0
    isModal := false
    lastOnKeyMs := 0
    reservedKeys := []
    keyQueue := fun _ => ⟨0, false⟩
    keyQueueHead := 0
    keyQueueCount := 0
    lastKeyCh := -1
    lastKeyMs := 0
    pendingOpenEditor := false
    pendingOpenEditorFile := [] }
  log := []

/-- `nsr_plugins_load_dir` for one plugin; `enabled` is what the configuration says. -/
def load (name : CStr) (enabled : Bool) (env : SpawnEnv) : Option (List Io × Host) :=
  if enabled then (unloaded name true).spawn env else some ([], unloaded name false)

/-! ## A spawned plugin -/

/-- **No process is behind the entry**, and nothing of an earlier one is left in it. -/
structure Idle (h : Host) : Prop where
  initialized : h.e.initialized = false
  dead : h.e.dead = false
  pending : ∀ m, h.e.pending m = false
  lastResp : ∀ m, h.e.lastResp m = []
  isModal : h.e.isModal = false
  reservedKeys : h.e.reservedKeys = []
  head : h.e.keyQueueHead = 0
  count : h.e.keyQueueCount = 0
  editor : h.e.pendingOpenEditor = false

theorem unloaded_idle (name : CStr) (enabled : Bool) : (unloaded name enabled).Idle :=
  ⟨rfl, rfl, fun _ => rfl, fun _ => rfl, rfl, rfl, rfl, rfl, rfl⟩

theorem stop_idle (h : Host) (written : Bool) : (h.stop written).2.Idle :=
  ⟨rfl, rfl, fun _ => rfl, fun _ => rfl, rfl, rfl, rfl, rfl, rfl⟩

end Host

theorem tryRecvLoop_nextId {timeoutMs : ℤ} {envs : List RecvEnv} {deadline : ℤ} {rpc rpc' : Rpc}
    {line : Option Bytes} (h : tryRecvLoop timeoutMs envs deadline rpc = some (line, rpc')) :
    rpc'.nextId = rpc.nextId := by
  induction envs generalizing deadline rpc with
  | nil => cases h
  | cons env envs ih =>
    unfold tryRecvLoop at h
    dsimp only at h
    split at h
    · cases h
    next r hr =>
      obtain ⟨rx, dead, rfl⟩ := recvLine_shape hr
      split at h
      · obtain ⟨-, rfl⟩ := Prod.mk.inj (Option.some_inj.mp h)
        rfl
      split at h
      · obtain ⟨-, rfl⟩ := Prod.mk.inj (Option.some_inj.mp h)
        rfl
      · exact (ih h).trans rfl
    next l r hr =>
      obtain ⟨rx, dead, rfl⟩ := recvLine_shape hr
      split at h
      · obtain ⟨-, rfl⟩ := Prod.mk.inj (Option.some_inj.mp h)
        rfl
      split at h
      · obtain ⟨-, rfl⟩ := Prod.mk.inj (Option.some_inj.mp h)
        rfl
      · exact (ih h).trans rfl

/-- A call takes one number. -/
theorem rpcCall_nextId {rpc rpc' : Rpc} {timeoutMs : ℤ} {written : Bool} {envs : List RecvEnv}
    {line : Bytes} (h : rpcCall rpc timeoutMs written envs = some (some line, rpc')) :
    rpc'.nextId = wrap32 (rpc.nextId + 1) := by
  rw [rpcCall] at h
  split at h
  next hok =>
    have hlive : ¬(rpc.dead ∨ rpc.inFd < 0) := by
      intro hd
      rw [sendRequest_dead hd] at hok
      cases hok
    obtain ⟨-, -, hsent⟩ := sendRequest_live hlive written
    unfold tryRecvResponse at h
    split at h
    · cases Option.some_inj.mp h
    · exact (tryRecvLoop_nextId h).trans hsent
  · cases Option.some_inj.mp h

namespace Host

/-- **What `plugin_spawn` can do**: there is no process; or it answers `init`; or it is closed and
counts as dead. -/
theorem spawn_cases {h h' : Host} {env : SpawnEnv} {io : List Io}
    (hs : h.spawn env = some (io, h')) :
    (env.process = none ∧ io = [] ∧ h' = ⟨{ h.e with rpc := spawnRpc none }, []⟩) ∨
      ∃ p resp rpc, env.process = some p ∧
        rpcCall (spawnRpc (some p)) 2000 env.written env.recv = some (resp, rpc) ∧
        ((∃ result, resp.bind initResult = some result ∧
            io = .forked p.pid :: sendIo (spawnRpc (some p)) ∧
            h' = ⟨{ h.e with
              rpc := rpc
              initialized := true
              reservedKeys := initKeys result h.e.reservedKeys }, []⟩) ∨
          (resp.bind initResult = none ∧
            io = .forked p.pid :: sendIo (spawnRpc (some p)) ++ (rpcClose rpc).1 ∧
            h' = ⟨{ h.e with rpc := (rpcClose rpc).2, dead := true }, []⟩)) := by
  unfold spawn at hs
  cases hp : env.process with
  | none =>
    rw [hp] at hs
    obtain ⟨rfl, rfl⟩ := Prod.mk.inj (Option.some_inj.mp hs)
    exact .inl ⟨rfl, rfl, rfl⟩
  | some p =>
    rw [hp] at hs
    dsimp only at hs
    split at hs
    · cases hs
    next resp rpc hcall =>
      refine .inr ⟨p, resp, rpc, rfl, hcall, ?_⟩
      split at hs
      next result hresult =>
        obtain ⟨rfl, rfl⟩ := Prod.mk.inj (Option.some_inj.mp hs)
        exact .inl ⟨result, hresult, rfl, rfl⟩
      next hresult =>
        obtain ⟨rfl, rfl⟩ := Prod.mk.inj (Option.some_inj.mp hs)
        exact .inr ⟨hresult, rfl, rfl⟩

/-- The history starts again with a process. -/
theorem spawn_log {h h' : Host} {env : SpawnEnv} {io : List Io}
    (hs : h.spawn env = some (io, h')) : h'.log = [] := by
  rcases spawn_cases hs with ⟨-, -, rfl⟩ | ⟨p, resp, rpc, -, -, ⟨result, -, -, rfl⟩ | ⟨-, -, rfl⟩⟩
  · rfl
  · rfl
  · rfl

/-- **A plugin that starts is a spawned one.** -/
theorem spawn_spawned {h h' : Host} {env : SpawnEnv} {io : List Io} (hidle : h.Idle)
    (hs : h.spawn env = some (io, h')) (hinit : h'.e.initialized = true) :
    h'.Spawned ∧ h'.e.isModal = false ∧ h'.e.dead = false := by
  rcases spawn_cases hs with ⟨-, -, rfl⟩ | ⟨p, resp, rpc, -, hcall, hstart⟩
  · rw [hidle.initialized] at hinit
    cases hinit
  rcases hstart with ⟨result, hresult, -, rfl⟩ | ⟨-, -, rfl⟩
  · obtain ⟨line, rfl, -⟩ := Option.bind_eq_some_iff.mp hresult
    have hid : rpc.nextId = 2 := by
      rw [rpcCall_nextId hcall]
      exact (by decide : wrap32 (1 + 1) = 2)
    exact ⟨⟨hid, hidle.pending, hidle.lastResp, hidle.head, hidle.count, rfl⟩,
      hidle.isModal, hidle.dead⟩
  · rw [hidle.initialized] at hinit
    cases hinit

/-- **What `nsr_plugins_set_enabled` can do.** -/
theorem setEnabled_cases {h h' : Host} {enabled written : Bool} {env : SpawnEnv} {io : List Io}
    (hs : h.setEnabled enabled written env = some (io, h')) :
    (h.e.enabled = enabled ∧ io = [] ∧ h' = h) ∨
      (h.e.enabled = false ∧ enabled = true ∧
        spawn { h with e := { h.e with enabled := true } } env = some (io, h')) ∨
      (h.e.enabled = true ∧ enabled = false ∧ io = (h.stop written).1 ∧
        h' = (stop { h with e := { h.e with enabled := false } } written).2) := by
  unfold setEnabled at hs
  split at hs
  next hsame =>
    obtain ⟨rfl, rfl⟩ := Prod.mk.inj (Option.some_inj.mp hs)
    exact .inl ⟨hsame, rfl, rfl⟩
  next hne =>
    cases enabled with
    | true => exact .inr (.inl ⟨by simpa using hne, rfl, hs⟩)
    | false =>
      obtain ⟨rfl, rfl⟩ := Prod.mk.inj (Option.some_inj.mp hs)
      exact .inr (.inr ⟨by simpa using hne, rfl, rfl, rfl⟩)

theorem setEnabled_log {h h' : Host} {enabled written : Bool} {env : SpawnEnv} {io : List Io}
    (hs : h.setEnabled enabled written env = some (io, h')) : h'.log = h.log ∨ h'.log = [] := by
  rcases setEnabled_cases hs with ⟨-, -, rfl⟩ | ⟨-, -, hspawn⟩ | ⟨-, -, -, rfl⟩
  · exact .inl rfl
  · exact .inr (spawn_log hspawn)
  · exact .inl rfl

end Host
end Nsr
