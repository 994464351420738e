import Nsr.Lib.Lines
import Nsr.Lib.Reachable
import Nsr.Plugin.Rpc

/-!
# Lines out of a pipe

`recv_line` (`src/json/json_rpc.c`) reads whatever the pipe holds, up to 4096 bytes at a time, and
returns lines.  A read may bring a part of a line, several lines, or end with a newline; a call may
give up in the middle of a line.  What has been read and not returned waits in `rx_buf`.

* `loopReads`, `lineReads`: what one call reads.
* `recvLoop_splits`, `recvLine_splits`: one call takes at most one line off the front of what was
  waiting and what it reads.
* `PipeRun`, `PipeRun.Step`: a plugin's output and the calls that read it.
* `line_framing`: the lines returned are those of the stream, whatever the reads and the timeouts.
-/

namespace Nsr

open Transition

/-- The newline. -/
abbrev newline : UInt8 := 0x0a

/-! ## One call -/

/-- What the loop of `recv_line` reads: the chunks of the turns it takes. -/
def loopReads (deadline : Option Timespec) : List Round → Bytes → List Bytes
  | rounds, rx =>
    if (popLine rx).isSome then []
    else
      match rounds with
      | [] => []
      | r :: rounds =>
        if outOfTime deadline (fun d now => msLeft d now ≤ 0) r.now then []
        else
          match r.poll with
          | .interrupted => loopReads deadline rounds rx
          | .failed => []
          | .timeout now exited =>
            if outOfTime deadline deadlinePassed now then []
            else if exited then []
            else loopReads deadline rounds rx
          | .ready .interrupted => loopReads deadline rounds rx
          | .ready .failed => []
          | .ready .eof => []
          | .ready (.chunk bytes) => bytes :: loopReads deadline rounds (rx ++ bytes)

/-- What a call of `recv_line` reads. -/
def lineReads (rpc : Rpc) (timeoutMs : ℤ) (env : RecvEnv) : List Bytes :=
  if 0 ≤ timeoutMs then
    match env.start with
    | none => []
    | some now => loopReads (some (deadlineAfter now timeoutMs)) env.rounds rpc.rx
  else loopReads none env.rounds rpc.rx

/-- A line off the front of the buffer. -/
theorem popLine_eq_some {rx line rest : Bytes} (h : popLine rx = some (line, rest)) :
    newline ∉ line ∧ rx = line ++ [newline] ++ rest := by
  rw [popLine] at h
  split at h
  next hmem =>
    obtain ⟨rfl, rfl⟩ := Prod.mk.inj (Option.some_inj.mp h)
    exact Lines.eq_line_append hmem
  next => exact nomatch h

theorem popLine_eq_none {rx : Bytes} : popLine rx = none ↔ newline ∉ rx := by
  rw [popLine]
  split
  next h => simpa using h
  next h => simpa using h

/-- What a call takes out of the buffer. -/
def taken : Option Bytes → Bytes
  | none => []
  | some line => line ++ [newline]

/-- **How a call splits the bytes**: what was waiting and what it read are the line it returns, and
what waits now; and a line has no newline. -/
structure Splits (rx : Bytes) (reads : List Bytes) (r : Option Bytes) (rx' : Bytes) : Prop where
  bytes : rx ++ reads.flatten = taken r ++ rx'
  line : ∀ line, r = some line → newline ∉ line

/-- A call that gives up has taken nothing. -/
theorem Splits.gaveUp {rx : Bytes} {rpc rpc' : Rpc} {r : Option Bytes}
    (h : some (none, rpc) = some (r, rpc')) (hrx : rpc.rx = rx) : Splits rx [] r rpc'.rx := by
  obtain ⟨rfl, rfl⟩ := Prod.mk.inj (Option.some_inj.mp h)
  rw [hrx]
  exact ⟨List.append_nil rx, fun _ h => nomatch h⟩

/-- A call that finds a line waiting has read nothing. -/
theorem Splits.found {rpc rpc' : Rpc} {line rest : Bytes} {r : Option Bytes}
    (hpop : popLine rpc.rx = some (line, rest))
    (h : some (some line, { rpc with rx := rest }) = some (r, rpc')) :
    Splits rpc.rx [] r rpc'.rx := by
  obtain ⟨rfl, rfl⟩ := Prod.mk.inj (Option.some_inj.mp h)
  obtain ⟨hline, hrx⟩ := popLine_eq_some hpop
  exact ⟨(List.append_nil rpc.rx).trans hrx, fun l hl => Option.some_inj.mp hl ▸ hline⟩

theorem Splits.chunk {rx rx' bytes : Bytes} {reads : List Bytes} {r : Option Bytes}
    (h : Splits (rx ++ bytes) reads r rx') : Splits rx (bytes :: reads) r rx' :=
  ⟨by rw [List.flatten_cons, ← List.append_assoc, h.bytes], h.line⟩

theorem loopReads_of_some {deadline : Option Timespec} {rounds : List Round} {rx : Bytes}
    (h : (popLine rx).isSome = true) : loopReads deadline rounds rx = [] := by
  unfold loopReads
  rw [if_pos h]

theorem recvLoop_splits {deadline : Option Timespec} {rounds : List Round} {rpc rpc' : Rpc}
    {r : Option Bytes} (h : recvLoop deadline rounds rpc = some (r, rpc')) :
    Splits rpc.rx (loopReads deadline rounds rpc.rx) r rpc'.rx := by
  induction rounds generalizing rpc with
  | nil =>
    rw [recvLoop] at h
    split at h
    next line rest hpop =>
      rw [loopReads_of_some (by rw [hpop]; rfl)]
      exact .found hpop h
    · cases h
  | cons round rounds ih =>
    rw [recvLoop] at h
    split at h
    next line rest hpop =>
      rw [loopReads_of_some (by rw [hpop]; rfl)]
      exact .found hpop h
    next hpop =>
    unfold loopReads
    rw [if_neg (by rw [hpop]; simp)]
    dsimp only
    split at h
    next hlate =>
      rw [if_pos hlate]
      exact .gaveUp h rfl
    next hlate =>
    rw [if_neg hlate]
    cases hpoll : round.poll with
    | interrupted =>
      rw [hpoll] at h
      exact ih h
    | failed =>
      rw [hpoll] at h
      exact .gaveUp h rfl
    | timeout now exited =>
      rw [hpoll] at h
      dsimp only at h ⊢
      split at h
      next hpassed =>
        rw [if_pos hpassed]
        exact .gaveUp h rfl
      next hpassed =>
      rw [if_neg hpassed]
      split at h
      next hexited =>
        rw [if_pos hexited]
        exact .gaveUp h rfl
      next hexited =>
        rw [if_neg hexited]
        exact ih h
    | ready read =>
      rw [hpoll] at h
      cases read with
      | interrupted => exact ih h
      | chunk bytes => exact .chunk (ih h)
      | failed => exact .gaveUp h rfl
      | eof => exact .gaveUp h rfl

theorem recvLine_splits {rpc rpc' : Rpc} {timeoutMs : ℤ} {env : RecvEnv} {r : Option Bytes}
    (h : recvLine rpc timeoutMs env = some (r, rpc')) :
    Splits rpc.rx (lineReads rpc timeoutMs env) r rpc'.rx := by
  rw [recvLine] at h
  rw [lineReads]
  split at h
  next htime =>
    rw [if_pos htime]
    cases hstart : env.start with
    | none =>
      rw [hstart] at h
      exact .gaveUp h rfl
    | some now =>
      rw [hstart] at h
      exact recvLoop_splits h
  next htime =>
    rw [if_neg htime]
    exact recvLoop_splits h

/-- Where a call gives up and the clock could be read, no complete line waits. -/
theorem recvLoop_none {deadline : Option Timespec} {rounds : List Round} {rpc rpc' : Rpc}
    (h : recvLoop deadline rounds rpc = some (none, rpc')) : newline ∉ rpc'.rx := by
  induction rounds generalizing rpc with
  | nil =>
    rw [recvLoop] at h
    split at h
    · cases h
    · cases h
  | cons round rounds ih =>
    rw [recvLoop] at h
    split at h
    · cases h
    next hpop =>
    have hrx := popLine_eq_none.mp hpop
    repeat' split at h
    all_goals
      first
        | exact ih h
        | (obtain ⟨-, rfl⟩ := Prod.mk.inj (Option.some_inj.mp h)
           exact hrx)

theorem recvLine_none {rpc rpc' : Rpc} {timeoutMs : ℤ} {env : RecvEnv} (hclock : env.start ≠ none)
    (h : recvLine rpc timeoutMs env = some (none, rpc')) : newline ∉ rpc'.rx := by
  rw [recvLine] at h
  split at h
  · cases hstart : env.start with
    | none => exact absurd hstart hclock
    | some now =>
      rw [hstart] at h
      exact recvLoop_none h
  · exact recvLoop_none h

/-! ## Many calls -/

/-- The rest of `rx_buf` is moved to its front; the allocated size stays. -/
def JsonBuf.dropFront (jb : JsonBuf) (n : ℕ) : JsonBuf where
  bytes := jb.bytes.drop n
  cap := jb.cap
  terminated := by
    rcases jb.terminated with hlt | ⟨hnil, hcap⟩
    · exact .inl (Nat.lt_of_le_of_lt (by rw [List.length_drop]; omega) hlt)
    · exact .inr ⟨by rw [hnil, List.drop_nil], hcap⟩

/-- `rx_buf` after a call: every chunk is appended, and the line that is returned is cut off. -/
def rxBufAfter (jb : JsonBuf) (reads : List Bytes) (r : Option Bytes) : JsonBuf :=
  (reads.foldl JsonBuf.appendRaw jb).dropFront (taken r).length

/-- **A connection that is being read**: `rx_buf` as the buffer it is, what the plugin has written
and nobody has read, and the lines returned so far. -/
structure PipeRun where
  rpc : Rpc
  rxBuf : JsonBuf
  unread : Bytes
  lines : List Bytes

namespace PipeRun

/-- A connection just made, to a plugin that will write `stream`. -/
def start (rpc : Rpc) (stream : Bytes) : PipeRun :=
  ⟨{ rpc with rx := [] }, JsonBuf.init, stream, []⟩

/-- **What happens to the connection**: a call of `recv_line`, by itself or as the one call in
`nsr_json_rpc_try_recv_any`, which gets its chunks from the front of what is unread; or something
that leaves `rx_buf` alone. -/
inductive Step : PipeRun → PipeRun → Prop
  | recv {s : PipeRun} (timeoutMs : ℤ) (env : RecvEnv) (unread' : Bytes) {r : Option Bytes}
    {rpc' : Rpc} (hcall : recvLine s.rpc timeoutMs env = some (r, rpc'))
    (hread : s.unread = (lineReads s.rpc timeoutMs env).flatten ++ unread') :
    Step s ⟨rpc', rxBufAfter s.rxBuf (lineReads s.rpc timeoutMs env) r, unread',
      s.lines ++ r.toList⟩
  | any {s : PipeRun} (timeoutMs : ℤ) (env : RecvEnv) (unread' : Bytes) {r : Option (Bytes × ℤ)}
    {rpc' : Rpc} (hlive : ¬(s.rpc.dead = true ∨ s.rpc.outFd < 0))
    (hcall : tryRecvAny s.rpc timeoutMs env = some (r, rpc'))
    (hread : s.unread = (lineReads s.rpc timeoutMs env).flatten ++ unread') :
    Step s ⟨rpc', rxBufAfter s.rxBuf (lineReads s.rpc timeoutMs env) (r.map Prod.fst), unread',
      s.lines ++ (r.map Prod.fst).toList⟩
  | other {s : PipeRun} {rpc' : Rpc} (hrx : rpc'.rx = s.rpc.rx) : Step s { s with rpc := rpc' }

/-- The invariant: the bytes are where they should be. -/
structure Framed (stream : Bytes) (s : PipeRun) : Prop where
  bytes : Lines.unlines newline s.lines ++ s.rpc.rx ++ s.unread = stream
  lines : ∀ line ∈ s.lines, newline ∉ line
  rxBuf : s.rxBuf.bytes = s.rpc.rx

theorem foldl_appendRaw_bytes (jb : JsonBuf) (reads : List Bytes) :
    (reads.foldl JsonBuf.appendRaw jb).bytes = jb.bytes ++ reads.flatten := by
  induction reads generalizing jb with
  | nil => exact (List.append_nil _).symm
  | cons c reads ih =>
    rw [List.foldl_cons, ih, JsonBuf.appendRaw_bytes, List.flatten_cons, List.append_assoc]

theorem unlines_toList (r : Option Bytes) : Lines.unlines newline r.toList = taken r := by
  cases r with
  | none => rfl
  | some line => exact List.append_nil _

theorem rxBufAfter_bytes (jb : JsonBuf) (reads : List Bytes) (r : Option Bytes) :
    (rxBufAfter jb reads r).bytes = (jb.bytes ++ reads.flatten).drop (taken r).length := by
  rw [← foldl_appendRaw_bytes]
  rfl

theorem Framed.recv {stream : Bytes} {s : PipeRun} (h : s.Framed stream) {reads : List Bytes}
    {r : Option Bytes} {rpc' : Rpc} {unread' : Bytes} (hsplits : Splits s.rpc.rx reads r rpc'.rx)
    (hread : s.unread = reads.flatten ++ unread') :
    Framed stream ⟨rpc', rxBufAfter s.rxBuf reads r, unread', s.lines ++ r.toList⟩ := by
  obtain ⟨hbytes, hline⟩ := hsplits
  constructor
  · dsimp only
    rw [← h.bytes, hread, Lines.unlines_append, unlines_toList, ← List.append_assoc,
      List.append_assoc _ (taken r), ← hbytes]
    simp only [List.append_assoc]
  · intro line hmem
    rcases List.mem_append.mp hmem with hmem | hmem
    · exact h.lines line hmem
    · exact hline line (Option.mem_toList.mp hmem)
  · dsimp only
    rw [rxBufAfter_bytes, h.rxBuf, hbytes, List.drop_left]

theorem Framed.step {stream : Bytes} {s t : PipeRun} (h : s.Framed stream) (hst : Step s t) :
    t.Framed stream := by
  cases hst with
  | recv _ _ _ hcall hread => exact h.recv (recvLine_splits hcall) hread
  | any _ _ _ hlive hcall hread =>
    rw [tryRecvAny, if_neg hlive] at hcall
    obtain ⟨⟨line, rpc'⟩, hrecv, heq⟩ := Option.map_eq_some_iff.mp hcall
    obtain ⟨rfl, rfl⟩ := Prod.mk.inj heq
    have hline : (line.map fun l => (l, lineId l)).map Prod.fst = line := by
      rw [Option.map_map]
      exact Option.map_id'
    rw [hline]
    exact h.recv (recvLine_splits hrecv) hread
  | other hrx => exact ⟨by rw [← h.bytes, hrx], h.lines, by rw [hrx]; exact h.rxBuf⟩

theorem framed_of_reachable {rpc : Rpc} {stream : Bytes} {s : PipeRun}
    (h : Reachable Step (start rpc stream) s) : s.Framed stream :=
  h.invariant ⟨rfl, fun _ hmem => absurd hmem List.not_mem_nil, rfl⟩ fun _ _ _ hs hst => hs.step hst

end PipeRun

/-- **Lines do not depend on reads.**  A plugin writes `stream`, and `recv_line` is called any
number of times, with any timeouts and whatever chunks `read` delivers.  Then the lines returned
and, behind them, the complete lines still waiting are those of what was read, and together with
the unread ones those of the stream; and `rx_buf` holds exactly what was read and not returned.  A
call that returns no line although the clock works leaves no complete line waiting. -/
theorem line_framing {rpc : Rpc} {stream : Bytes} {s : PipeRun}
    (h : Reachable PipeRun.Step (PipeRun.start rpc stream) s) :
    (∃ read, read ++ s.unread = stream ∧
        Lines.unlines newline s.lines ++ s.rxBuf.bytes = read ∧
        s.lines ++ Lines.complete newline s.rxBuf.bytes = Lines.complete newline read) ∧
      s.rxBuf.bytes = s.rpc.rx ∧
      s.lines ++ Lines.complete newline (s.rxBuf.bytes ++ s.unread) =
        Lines.complete newline stream ∧
      ∀ timeoutMs env rpc', env.start ≠ none →
        recvLine s.rpc timeoutMs env = some (none, rpc') → newline ∉ rpc'.rx := by
  have hframed := PipeRun.framed_of_reachable h
  rw [hframed.rxBuf]
  refine ⟨⟨_, hframed.bytes, rfl, ?_⟩, rfl, ?_,
    fun _ _ _ hclock hcall => recvLine_none hclock hcall⟩
  · rw [Lines.complete_lines_append hframed.lines]
  · rw [← hframed.bytes, List.append_assoc, Lines.complete_lines_append hframed.lines]

/-- A turn that reads `bytes` at once. -/
def readAtOnce (bytes : Bytes) : RecvEnv :=
  ⟨some ⟨0, 0⟩, [⟨some ⟨0, 0⟩, .ready (.chunk bytes)⟩]⟩

/-- A turn that comes too late. -/
def tooLate : RecvEnv := ⟨some ⟨0, 0⟩, [⟨some ⟨1, 0⟩, .interrupted⟩]⟩

/-- A plugin writes `a` and `b` on two lines.  The first read ends in the second line, the second
call gives up, and the third one reads the newline. -/
theorem line_framing_two_lines :
    ∃ s, Reachable PipeRun.Step (PipeRun.start ⟨1, 3, 4, 1, -1, false, []⟩ [97, 10, 98, 10]) s ∧
      s.lines = [[97], [98]] ∧ s.lines ++ Lines.complete newline (s.rxBuf.bytes ++ s.unread) =
        Lines.complete newline [97, 10, 98, 10] := by
  have h₀ : Reachable PipeRun.Step _ (PipeRun.start ⟨1, 3, 4, 1, -1, false, []⟩ [97, 10, 98, 10]) :=
    .refl
  have h₁ := h₀.tail (.recv 50 (readAtOnce [97, 10, 98]) [10] rfl rfl)
  have h₂ := h₁.tail (.recv 50 tooLate [10] rfl rfl)
  have h₃ := h₂.tail (.recv 50 (readAtOnce [10]) [] rfl rfl)
  obtain ⟨-, -, hlines, -⟩ := line_framing h₃
  exact ⟨_, h₃, rfl, hlines⟩

end Nsr
