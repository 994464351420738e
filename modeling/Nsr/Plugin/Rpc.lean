import Nsr.Json.Encoder
import Nsr.Json.Decoder

/-!
# The pipe to a plugin

`src/json/json_rpc.c`, as far as the asynchronous part of the plugin host uses it: requests are
written to the plugin's standard input as one line each, numbered by a counter, and lines are read
from its standard output into a buffer that keeps what follows the last complete line.

What the system calls answer comes in from outside: `Round` is one turn of the reading loop, a
`Bool` says whether a line could be written whole.  A `recvLine` that has used up the turns it was
given and still waits is `none`.
-/

namespace Nsr

open Ascii

/-- A string constant of the source, as bytes. -/
def ascii (s : String) : Bytes :=
  s.toList.map fun c => UInt8.ofNat c.toNat

/-- A string constant of the source, as a C string. -/
def cs (s : String) : CStr :=
  ⟨(ascii s).filter (· ≠ 0), by simp⟩

/-- `nsr_json_cstr` of a buffer, read as a C string: its bytes up to the first NUL. -/
def cstr (bs : Bytes) : Bytes :=
  bs.takeWhile (· ≠ 0)

/-- The requests the host sends without waiting. -/
inductive Method where
  | render
  | renderHops
  | onKey
  deriving DecidableEq, Repr

/-- The name of a method on the wire. -/
def Method.name : Method → CStr
  | .render => cs "render"
  | .renderHops => cs "render_hops"
  | .onKey => cs "on_key"

/-- **`nsr_json_rpc_t`.** -/
structure Rpc where
  pid : ℤ
  inFd : ℤ
  outFd : ℤ
  nextId : ℤ
  pendingId : ℤ
  dead : Bool
  rx : Bytes

/-- An `int` after an increment. -/
def wrap32 (i : ℤ) : ℤ :=
  Int.bmod i (2 ^ 32)

/-! ## Writing -/

/-- The request up to its parameters, as `build_request` starts it. -/
def requestHead (method : CStr) (id : ℤ) : JsonBuf :=
  let req := JsonBuf.init.objStart
  let req := (req.key (cs "jsonrpc")).string (some (cs "2.0"))
  let req := (req.key (cs "id")).int (Int64.ofInt id)
  let req := (req.key (cs "method")).string (some method)
  req.key (cs "params")

/-- `build_request`. -/
def buildRequest (method : CStr) (params : Bytes) (id : ℤ) : Bytes :=
  let req := requestHead method id
  let req := if 0 < params.length then req.appendRaw params else req.objStart.objEnd
  req.objEnd.bytes

/-- `rpc_send`: `written` says whether the line could be written whole. -/
def rpcSend (rpc : Rpc) (written : Bool) : Bool × Rpc :=
  if rpc.dead ∨ rpc.inFd < 0 then (false, rpc)
  else if written then (true, rpc)
  else (false, { rpc with dead := true })

/-- What `nsr_json_rpc_send_request` leaves behind: what it returns, what it stores through
`id_out` where it gets that far, and the connection. -/
structure Sending where
  ok : Bool
  id : Option ℤ
  rpc : Rpc

/-- **`nsr_json_rpc_send_request`.**  The number is taken, and stored for the caller, before the
line is written; a failed write does not give it back. -/
def sendRequest (rpc : Rpc) (written : Bool) : Sending :=
  if rpc.dead ∨ rpc.inFd < 0 then ⟨false, none, rpc⟩
  else
    let id := rpc.nextId
    let rpc := { rpc with nextId := wrap32 (rpc.nextId + 1), pendingId := id }
    let r := rpcSend rpc written
    if r.1 then ⟨true, some id, r.2⟩
    else ⟨false, some id, { r.2 with pendingId := -1 }⟩

/-- `nsr_json_rpc_notify`. -/
def notify (rpc : Rpc) (written : Bool) : Bool × Rpc :=
  rpcSend rpc written

/-! ## Reading -/

/-- A reading of the monotonic clock. -/
structure Timespec where
  sec : ℤ
  nsec : ℤ

/-- The deadline of `recv_line`. -/
def deadlineAfter (now : Timespec) (timeoutMs : ℤ) : Timespec :=
  let sec := now.sec + timeoutMs.tdiv 1000
  let nsec := now.nsec + timeoutMs.tmod 1000 * 1000000
  if 1000000000 ≤ nsec then ⟨sec + 1, nsec - 1000000000⟩ else ⟨sec, nsec⟩

/-- `left`: the milliseconds to the deadline. -/
def msLeft (deadline now : Timespec) : ℤ :=
  (deadline.sec - now.sec) * 1000 + (deadline.nsec - now.nsec).tdiv 1000000

/-- The deadline has passed. -/
def deadlinePassed (deadline now : Timespec) : Bool :=
  deadline.sec < now.sec || (now.sec == deadline.sec && deadline.nsec ≤ now.nsec)

/-- What `read` does. -/
inductive ReadResult where
  | interrupted
  | failed
  | eof
  | chunk (bytes : Bytes)

/-- What `poll` does; after a timeout the loop looks at the clock, and then whether the child has
exited. -/
inductive PollResult where
  | interrupted
  | failed
  | timeout (now : Option Timespec) (exited : Bool)
  | ready (r : ReadResult)

/-- One turn of the loop of `recv_line`: the clock before polling, where it can be read, and the
poll. -/
structure Round where
  now : Option Timespec
  poll : PollResult

/-- A complete line at the front of the receive buffer, and what follows its newline. -/
def popLine (rx : Bytes) : Option (Bytes × Bytes) :=
  if 0x0a ∈ rx then some (rx.takeWhile (· ≠ 0x0a), (rx.dropWhile (· ≠ 0x0a)).tail) else none

/-- Out of time, or without a clock to tell. -/
def outOfTime (deadline : Option Timespec) (late : Timespec → Timespec → Bool)
    (now : Option Timespec) : Bool :=
  match deadline with
  | none => false
  | some d =>
    match now with
    | none => true
    | some now => late d now

/-- The loop of `recv_line`. -/
def recvLoop (deadline : Option Timespec) (rounds : List Round) (rpc : Rpc) :
    Option (Option Bytes × Rpc) :=
  match popLine rpc.rx with
  | some (line, rest) => some (some line, { rpc with rx := rest })
  | none =>
    match rounds with
    | [] => none
    | r :: rounds =>
      if outOfTime deadline (fun d now => msLeft d now ≤ 0) r.now then some (none, rpc)
      else
        match r.poll with
        | .interrupted => recvLoop deadline rounds rpc
        | .failed => some (none, { rpc with dead := true })
        | .timeout now exited =>
          if outOfTime deadline deadlinePassed now then some (none, rpc)
          else if exited then some (none, { rpc with dead := true })
          else recvLoop deadline rounds rpc
        | .ready .interrupted => recvLoop deadline rounds rpc
        | .ready .failed => some (none, { rpc with dead := true })
        | .ready .eof => some (none, { rpc with dead := true })
        | .ready (.chunk bytes) => recvLoop deadline rounds { rpc with rx := rpc.rx ++ bytes }

/-- What the system answers to a call of `recv_line`: the clock at the start, and the turns. -/
structure RecvEnv where
  start : Option Timespec
  rounds : List Round

/-- **`recv_line`.** -/
def recvLine (rpc : Rpc) (timeoutMs : ℤ) (env : RecvEnv) : Option (Option Bytes × Rpc) :=
  if 0 ≤ timeoutMs then
    match env.start with
    | none => some (none, rpc)
    | some now => recvLoop (some (deadlineAfter now timeoutMs)) env.rounds rpc
  else recvLoop none env.rounds rpc

/-- The number of a line: what `strtoll` reads from its `id` member, and `-1` without one. -/
def lineId (line : Bytes) : ℤ :=
  match objGet (cstr line) (cs "id") with
  | none => -1
  | some (val, len) => (parseInt val len (-1)).2

/-- **`nsr_json_rpc_try_recv_any`**: a line and its number, or nothing. -/
def tryRecvAny (rpc : Rpc) (timeoutMs : ℤ) (env : RecvEnv) :
    Option (Option (Bytes × ℤ) × Rpc) :=
  if rpc.dead ∨ rpc.outFd < 0 then some (none, rpc)
  else
    (recvLine rpc timeoutMs env).map fun r => (r.1.map fun line => (line, lineId line), r.2)

/-- What one turn of `nsr_json_rpc_discard_queued` meets. -/
inductive DiscardRound where
  | interrupted
  | failed
  | empty
  | ready (r : ReadResult)

/-- The loop of `nsr_json_rpc_discard_queued`. -/
def discardLoop : List DiscardRound → Rpc → Rpc
  | [], rpc => rpc
  | .interrupted :: rounds, rpc => discardLoop rounds rpc
  | .failed :: _, rpc => { rpc with dead := true }
  | .empty :: _, rpc => rpc
  | .ready .interrupted :: rounds, rpc => discardLoop rounds rpc
  | .ready .failed :: _, rpc => { rpc with dead := true }
  | .ready .eof :: _, rpc => { rpc with dead := true }
  | .ready (.chunk _) :: rounds, rpc => discardLoop rounds rpc

/-- `nsr_json_rpc_discard_queued`: the buffer is emptied, and what can be read at once is read and
dropped, 64 times at most. -/
def discardQueued (rpc : Rpc) (rounds : List DiscardRound) : Rpc :=
  let rpc := { rpc with rx := [] }
  if rpc.dead ∨ rpc.outFd < 0 then rpc else discardLoop (rounds.take 64) rpc

/-! ## What reading leaves alone -/

/-- Reading changes the buffer and, where the pipe fails, `dead`. -/
theorem recvLoop_shape {deadline : Option Timespec} {rounds : List Round} {rpc rpc' : Rpc}
    {line : Option Bytes} (h : recvLoop deadline rounds rpc = some (line, rpc')) :
    ∃ rx dead, rpc' = { rpc with rx := rx, dead := dead } := by
  induction rounds generalizing rpc with
  | nil =>
    rw [recvLoop] at h
    split at h
    next rest _ =>
      obtain ⟨-, rfl⟩ := Prod.mk.inj (Option.some_inj.mp h)
      exact ⟨rest, rpc.dead, rfl⟩
    · simp at h
  | cons r rounds ih =>
    rw [recvLoop] at h
    split at h
    next rest _ =>
      obtain ⟨-, rfl⟩ := Prod.mk.inj (Option.some_inj.mp h)
      exact ⟨rest, rpc.dead, rfl⟩
    split at h
    · obtain ⟨-, rfl⟩ := Prod.mk.inj (Option.some_inj.mp h)
      exact ⟨rpc.rx, rpc.dead, rfl⟩
    split at h
    · exact ih h
    · obtain ⟨-, rfl⟩ := Prod.mk.inj (Option.some_inj.mp h)
      exact ⟨rpc.rx, true, rfl⟩
    · split at h
      · obtain ⟨-, rfl⟩ := Prod.mk.inj (Option.some_inj.mp h)
        exact ⟨rpc.rx, rpc.dead, rfl⟩
      split at h
      · obtain ⟨-, rfl⟩ := Prod.mk.inj (Option.some_inj.mp h)
        exact ⟨rpc.rx, true, rfl⟩
      · exact ih h
    · exact ih h
    · obtain ⟨-, rfl⟩ := Prod.mk.inj (Option.some_inj.mp h)
      exact ⟨rpc.rx, true, rfl⟩
    · obtain ⟨-, rfl⟩ := Prod.mk.inj (Option.some_inj.mp h)
      exact ⟨rpc.rx, true, rfl⟩
    · obtain ⟨rx, dead, rfl⟩ := ih h
      exact ⟨rx, dead, rfl⟩

theorem recvLine_shape {rpc rpc' : Rpc} {timeoutMs : ℤ} {env : RecvEnv} {line : Option Bytes}
    (h : recvLine rpc timeoutMs env = some (line, rpc')) :
    ∃ rx dead, rpc' = { rpc with rx := rx, dead := dead } := by
  rw [recvLine] at h
  split at h
  · split at h
    · obtain ⟨-, rfl⟩ := Prod.mk.inj (Option.some_inj.mp h)
      exact ⟨rpc.rx, rpc.dead, rfl⟩
    · exact recvLoop_shape h
  · exact recvLoop_shape h

theorem tryRecvAny_shape {rpc rpc' : Rpc} {timeoutMs : ℤ} {env : RecvEnv}
    {r : Option (Bytes × ℤ)} (h : tryRecvAny rpc timeoutMs env = some (r, rpc')) :
    ∃ rx dead, rpc' = { rpc with rx := rx, dead := dead } := by
  rw [tryRecvAny] at h
  split at h
  · obtain ⟨-, rfl⟩ := Prod.mk.inj (Option.some_inj.mp h)
    exact ⟨rpc.rx, rpc.dead, rfl⟩
  · obtain ⟨⟨line, rpc''⟩, hrecv, hr⟩ := Option.map_eq_some_iff.mp h
    obtain ⟨-, rfl⟩ := Prod.mk.inj hr
    exact recvLine_shape hrecv

/-- The number that comes with a line is the number of the line. -/
theorem tryRecvAny_id {rpc rpc' : Rpc} {timeoutMs : ℤ} {env : RecvEnv} {line : Bytes} {id : ℤ}
    (h : tryRecvAny rpc timeoutMs env = some (some (line, id), rpc')) : id = lineId line := by
  rw [tryRecvAny] at h
  split at h
  · simp at h
  · obtain ⟨⟨l, rpc''⟩, -, hr⟩ := Option.map_eq_some_iff.mp h
    obtain ⟨hl, -⟩ := Prod.mk.inj hr
    obtain ⟨l', -, hl'⟩ := Option.map_eq_some_iff.mp hl
    obtain ⟨rfl, rfl⟩ := Prod.mk.inj hl'
    rfl

theorem discardQueued_shape (rpc : Rpc) (rounds : List DiscardRound) :
    ∃ dead, discardQueued rpc rounds = { rpc with rx := [], dead := dead } := by
  have hloop : ∀ (rounds : List DiscardRound) (rpc : Rpc),
      ∃ dead, discardLoop rounds rpc = { rpc with dead := dead } := by
    intro rounds rpc
    fun_induction discardLoop rounds rpc <;> first | assumption | exact ⟨_, rfl⟩
  rw [discardQueued]
  dsimp only
  split
  · exact ⟨rpc.dead, rfl⟩
  · obtain ⟨dead, hdead⟩ := hloop (rounds.take 64) { rpc with rx := [] }
    exact ⟨dead, hdead⟩

end Nsr
