import Nsr.Lib.ProcessTable
import Nsr.Lib.Reachable
import Mathlib.Data.List.Basic

/-!
# `main` and its processes

`main` starts a gatekeeper process and a logic process for every target, on
rings the two share, and then goes round: it waits for one child that has ended,
starts another in its place if a signal ended it, gives the session up if it
exited, lets the plugins run, and reads a key.  When no session is active, or it
is told to stop, it ends the children it has on record and waits for them.

The rings are made for one producer and one consumer.  Nothing in the rings
checks that; it is this file's business that there is never a second gatekeeper
or a second logic process on them, whatever order children end in and whichever
numbers the system gives out again.

* `Role`, `Post`: what a child runs, and the place at a session's rings that
  comes with it.
* `Entry`: what `g_sessions` holds of a session.
* `reapEntry`, `reapAll`: what `main` does with a child it has waited for.  The
  numbers on record are compared with it session by session; those of a session
  that was given up are compared too.
* `Main`, `Around`: the steps of `main` itself, and those of its children and of the
  plugin code in it.  The plugin code forks, and waits for children, by numbers of
  its own.
-/

namespace Nsr
namespace Supervision

open Posix

/-- The two processes of a session. -/
inductive Side
  | gatekeeper
  | logic
  deriving DecidableEq, Repr

/-- A place at the rings of a session. -/
structure Post where
  side : Side
  session : ℕ
  deriving DecidableEq, Repr

/-- What a child of `main` runs.  A logic process keeps the interval it was started
with. -/
inductive Role
  | gatekeeper (s : ℕ)
  | logic (s intervalMs : ℕ)
  | plugin
  deriving DecidableEq, Repr

/-- The place a child takes. -/
def Role.post : Role → Option Post
  | .gatekeeper s => some ⟨.gatekeeper, s⟩
  | .logic s _ => some ⟨.logic, s⟩
  | .plugin => none

/-- `nsr_session_t`, less the rings and the target, which never change. -/
structure Entry where
  gkPid : ℤ
  logicPid : ℤ
  active : Bool
  deriving DecidableEq, Repr

/-- The number on record for a side. -/
def Entry.pid (e : Entry) : Side → ℤ
  | .gatekeeper => e.gkPid
  | .logic => e.logicPid

abbrev Children := Table Role

/-- `NSR_MAX_TARGETS`. -/
def maxTargets : ℕ := 8

/-! ## Starting -/

/-- `spawn_gatekeeper`, in the parent. -/
def spawnGatekeeper (forks : Forks Role) (s : ℕ) (e : Entry) (t : Children) : Entry × Children :=
  let r := fork forks (.gatekeeper s) t
  ({ e with gkPid := r.1 }, r.2)

/-- The fork of a logic process, in the parent; the child copies `interval_ms` into
a configuration of its own. -/
def spawnLogic (forks : Forks Role) (s intervalMs : ℕ) (e : Entry) (t : Children) :
    Entry × Children :=
  let r := fork forks (.logic s intervalMs) t
  ({ e with logicPid := r.1 }, r.2)

/-- The two forks for a target, on an entry that was zeroed and set active. -/
def startSession (forks : Forks Role) (s intervalMs : ℕ) (t : Children) : Entry × Children :=
  let r := spawnGatekeeper forks s ⟨0, 0, true⟩ t
  spawnLogic forks s intervalMs r.1 r.2

/-- The `-i` option. -/
def setInterval (ms : ℕ) : ℕ := if ms < 10 then 10 else if 1000 < ms then 1000 else ms

/-! ## The round -/

/-- What `main` does for session `s` when `waitpid` has returned `exited`. -/
def reapEntry (forks : Forks Role) (intervalMs : ℕ) (exited : ℤ) (status : WaitStatus) (s : ℕ)
    (e : Entry) (t : Children) : Entry × Children :=
  if exited = e.gkPid then
    if status.ifExited then
      ({ e with active := false }, if 0 < e.logicPid then terminate e.logicPid t else t)
    else
      spawnGatekeeper forks s e t
  else if exited = e.logicPid then
    if status.ifExited || !e.active then
      ({ e with active := false }, t)
    else
      spawnLogic forks s intervalMs e t
  else
    (e, t)

/-- The loop over `g_sessions`, from session `s` on. -/
def reapAll (forks : Forks Role) (intervalMs : ℕ) (exited : ℤ) (status : WaitStatus) :
    ℕ → List Entry → Children → List Entry × Children
  | _, [], t => ([], t)
  | s, e :: es, t =>
    let r := reapEntry forks intervalMs exited status s e t
    let rs := reapAll forks intervalMs exited status (s + 1) es r.2
    (r.1 :: rs.1, rs.2)

/-- What commands `4` and `5` do to `interval_ms`. -/
def changeInterval (cmd intervalMs : ℕ) : ℕ :=
  if cmd = 4 then
    if intervalMs < 1000 then intervalMs + 10 else intervalMs
  else if cmd = 5 then
    if 10 < intervalMs then intervalMs - 10 else if 0 < intervalMs then 10 else intervalMs
  else
    intervalMs

/-! ## Stopping -/

/-- The numbers of a session that `main` signals and waits for. -/
def Entry.pids (e : Entry) : List ℤ := [e.gkPid, e.logicPid].filter (0 < ·)

/-- The loop that sends `SIGTERM`. -/
def terminateAll (es : List Entry) (t : Children) : Children :=
  (es.flatMap Entry.pids).foldl (fun t p => terminate p t) t

/-! ## The system -/

/-- Where `main` is. -/
inductive Phase
  /-- It loads plugins. -/
  | loading
  /-- It starts sessions. -/
  | starting
  /-- At `while (g_running)`. -/
  | loop
  /-- It has waited for a child, or found that none has ended. -/
  | reaped
  /-- It has looked for an active session; plugins and the screen come next. -/
  | checked
  /-- It has left the loop. -/
  | stopping
  /-- It has sent the signals and waits for these. -/
  | waiting (pids : List ℤ)
  /-- It cleans the plugins up. -/
  | cleanup
  /-- It has returned. -/
  | stopped
  /-- It has returned without starting: no ring could be mapped, or no target was named. -/
  | failed
  deriving DecidableEq, Repr

structure State where
  phase : Phase
  procs : Children
  sessions : List Entry
  intervalMs : ℕ
  running : Bool

/-- `main` after its options, with the interval they gave. -/
def init (intervalMs : ℕ) : State := ⟨.loading, fun _ => none, [], intervalMs, true⟩

/-- The phases in which plugin code runs. -/
def Phase.runsPlugins : Phase → Bool
  | .loading | .checked | .cleanup => true
  | _ => false

/-- What happens around `main`'s own steps: to its children, and in the plugin code
it calls.  With `own`, that code waits for plugin processes only. -/
inductive Around (own : Bool) : State → State → Prop
  /-- A child exits, or a signal ends it. -/
  | ends (s : State) (p : ℤ) (c : Process Role) (status : WaitStatus) :
      s.procs p = some c → c.ended = none →
      Around own s { s with procs := alter (fun c => { c with ended := some status }) p s.procs }
  /-- A child puts the action of `SIGTERM` back to the default. -/
  | settles (s : State) (p : ℤ) :
      Around own s { s with procs := alter (fun c => { c with settled := true }) p s.procs }
  /-- `SIGINT` or `SIGTERM` reaches `main`, which has a handler once it is in its loop. -/
  | interrupted (s : State) :
      s.phase ≠ .loading → s.phase ≠ .starting → Around own s { s with running := false }
  /-- The plugin code forks. -/
  | forks (s : State) (forks : Forks Role) :
      s.phase.runsPlugins → Around own s { s with procs := (fork forks .plugin s.procs).2 }
  /-- The plugin code waits for a child that has ended. -/
  | reaps (s : State) (p : ℤ) (c : Process Role) :
      s.phase.runsPlugins → s.procs p = some c → c.ended.isSome →
      (own → c.role = .plugin) → Around own s { s with procs := reap p s.procs }

/-- A step of `main`.  The middle argument are its children once it has waited for
one, if it does so in the step, and before it forks. -/
inductive Main : State → Children → State → Prop
  | loads (s : State) : s.phase = .loading → Main s s.procs { s with phase := .starting }
  | startsSession (s : State) (forks : Forks Role) :
      s.phase = .starting → s.sessions.length < maxTargets →
      Main s s.procs { s with
        procs := (startSession forks s.sessions.length s.intervalMs s.procs).2
        sessions := s.sessions ++ [(startSession forks s.sessions.length s.intervalMs s.procs).1] }
  | fails (s : State) : s.phase = .starting → Main s s.procs { s with phase := .failed }
  | enters (s : State) :
      s.phase = .starting → s.sessions ≠ [] → Main s s.procs { s with phase := .loop }
  /-- `waitpid(-1, &status, WNOHANG)` returns a child, and `main` goes through its
  sessions. -/
  | waits (s : State) (forks : Forks Role) (p : ℤ) (c : Process Role) (status : WaitStatus) :
      s.phase = .loop → s.running → 0 < p → s.procs p = some c → c.ended = some status →
      Main s (reap p s.procs) { s with
        phase := .reaped
        procs := (reapAll forks s.intervalMs p status 0 s.sessions (reap p s.procs)).2
        sessions := (reapAll forks s.intervalMs p status 0 s.sessions (reap p s.procs)).1 }
  /-- No child has ended. -/
  | waitsNone (s : State) :
      s.phase = .loop → s.running → (∀ p c, s.procs p = some c → c.ended = none) →
      Main s s.procs { s with phase := .reaped }
  | checks (s : State) :
      s.phase = .reaped →
      Main s s.procs
        { s with phase := .checked, running := s.running && s.sessions.any Entry.active }
  /-- The command of the screen; `0` when there is none.  Of command `2` the logic
  processes get a `SIGUSR1`; what becomes of them is a step of theirs. -/
  | commands (s : State) (cmd : ℕ) :
      s.phase = .checked →
      Main s s.procs { s with
        phase := if cmd = 1 then .stopping else .loop
        intervalMs := changeInterval cmd s.intervalMs }
  | leaves (s : State) :
      s.phase = .loop → s.running = false → Main s s.procs { s with phase := .stopping }
  | terminates (s : State) :
      s.phase = .stopping →
      Main s s.procs { s with
        phase := .waiting (s.sessions.flatMap Entry.pids)
        procs := terminateAll s.sessions s.procs }
  /-- `waitpid(p, nullptr, 0)` returns: the child has ended, or there is none of that
  number. -/
  | awaits (s : State) (p : ℤ) (ps : List ℤ) :
      s.phase = .waiting (p :: ps) → (∀ c, s.procs p = some c → c.ended.isSome) →
      Main s (reap p s.procs) { s with phase := .waiting ps, procs := reap p s.procs }
  | awaited (s : State) : s.phase = .waiting [] → Main s s.procs { s with phase := .cleanup }
  | returns (s : State) : s.phase = .cleanup → Main s s.procs { s with phase := .stopped }

/-- One step of the system. -/
def Step (own : Bool) (s t : State) : Prop := Around own s t ∨ ∃ left, Main s left t

end Supervision
end Nsr
