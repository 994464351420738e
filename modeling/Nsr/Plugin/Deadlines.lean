import Nsr.Plugin.Entry
import Nsr.Plugin.Pipe
import Nsr.Plugin.Spawn

/-!
# Reading with a deadline

`recv_line` looks at the clock before it looks at the pipe.  With a timeout of 0 its deadline has
passed when it does, and so the pipe is never read: `while (plugin_drain_response(e, 0))` goes
through the lines in `rx_buf` and leaves those in the pipe.  `nsr_json_rpc_try_recv_response` spends
up to 50 milliseconds of its budget on every line that is not its answer, however fast the line
comes; so with enough such lines before it the answer is not found.

* `Serves pipe env`: what the system answers while the plugin has `pipe` ready.
* `recvLine_zero`: `recv_line` with a timeout of 0.  `recvLine_served`: with time left.
* `Drains`: a run of the loop.  `drain_complete_iff`: when it is complete.
* `response_found_iff`: when the answer is found.
-/

namespace Nsr

/-! ## What the system answers -/

/-- A normalised reading of the clock. -/
def Timespec.Valid (t : Timespec) : Prop := 0 ≤ t.nsec ∧ t.nsec < 1000000000

/-- The order of readings. -/
def Timespec.LE (t t' : Timespec) : Prop := t.sec < t'.sec ∨ t.sec = t'.sec ∧ t.nsec ≤ t'.nsec

/-- Turns of the reading loop while the pipe holds `pipe`: a poll finds the pipe ready or is
interrupted, and a read delivers what is at the front of the pipe, 4096 bytes at most.  An empty
pipe may do anything. -/
inductive Offers : Bytes → List Round → Prop
  | empty (rounds : List Round) : Offers [] rounds
  | pollInterrupted {pipe : Bytes} {rounds : List Round} (now : Option Timespec)
    (hrest : Offers pipe rounds) : Offers pipe (⟨now, .interrupted⟩ :: rounds)
  | readInterrupted {pipe : Bytes} {rounds : List Round} (now : Option Timespec)
    (hrest : Offers pipe rounds) : Offers pipe (⟨now, .ready .interrupted⟩ :: rounds)
  | chunk {pipe : Bytes} {rounds : List Round} (now : Option Timespec) {bytes : Bytes}
    (hpos : bytes ≠ []) (hlen : bytes.length ≤ 4096) (hrest : Offers pipe rounds) :
    Offers (bytes ++ pipe) (⟨now, .ready (.chunk bytes)⟩ :: rounds)

/-- **A call of `recv_line` while the plugin has `pipe` ready**: there is at least one turn, and the
clock works and does not go back. -/
structure Serves (pipe : Bytes) (env : RecvEnv) : Prop where
  clock : ∃ t₀, env.start = some t₀ ∧ t₀.Valid ∧
    ∀ r ∈ env.rounds, ∃ t, r.now = some t ∧ t.Valid ∧ t₀.LE t
  turn : env.rounds ≠ []
  offers : Offers pipe env.rounds

/-! ## No time at all -/

theorem deadlineAfter_zero {t : Timespec} (h : t.Valid) : deadlineAfter t 0 = t := by
  obtain ⟨hlow, hhigh⟩ := h
  have hsec : t.sec + Int.tdiv 0 1000 = t.sec := by simp
  have hnsec : t.nsec + Int.tmod 0 1000 * 1000000 = t.nsec := by simp
  rw [deadlineAfter, hsec, hnsec, if_neg (by omega)]

/-- No time is left once the deadline has passed. -/
theorem msLeft_nonpos {d t : Timespec} (hd : d.Valid) (ht : t.Valid) (h : d.LE t) :
    msLeft d t ≤ 0 := by
  obtain ⟨hd₀, hd₁⟩ := hd
  obtain ⟨ht₀, ht₁⟩ := ht
  rw [msLeft]
  by_cases hnsec : 0 ≤ d.nsec - t.nsec
  · rw [Int.tdiv_eq_ediv_of_nonneg hnsec]
    rcases h with hsec | ⟨hsec, hle⟩
    · omega
    · omega
  · have hneg : (d.nsec - t.nsec).tdiv 1000000 ≤ 0 := by
      rw [show d.nsec - t.nsec = -(t.nsec - d.nsec) by omega, Int.neg_tdiv,
        Int.tdiv_eq_ediv_of_nonneg (by omega)]
      omega
    rcases h with hsec | ⟨hsec, -⟩
    · omega
    · omega

/-- **`recv_line` with a timeout of 0**: a line of `rx_buf`, or none; and nothing is read. -/
theorem recvLine_zero (rpc : Rpc) {pipe : Bytes} {env : RecvEnv} (h : Serves pipe env) :
    lineReads rpc 0 env = [] ∧
      recvLine rpc 0 env =
        match popLine rpc.rx with
        | some (line, rest) => some (some line, { rpc with rx := rest })
        | none => some (none, rpc) := by
  obtain ⟨⟨t₀, hstart, hvalid, hnow⟩, hturn, -⟩ := h
  obtain ⟨start, rounds⟩ := env
  obtain rfl : start = some t₀ := hstart
  cases rounds with
  | nil => exact absurd rfl hturn
  | cons r rounds =>
    obtain ⟨t, ht, hvalid', hle⟩ := hnow r List.mem_cons_self
    have hlate : outOfTime (some (deadlineAfter t₀ 0)) (fun d now => msLeft d now ≤ 0) r.now =
        true := by
      rw [deadlineAfter_zero hvalid, ht]
      exact decide_eq_true (msLeft_nonpos hvalid hvalid' hle)
    rw [lineReads, recvLine, if_pos (Int.le_refl 0), if_pos (Int.le_refl 0)]
    dsimp only
    rw [recvLoop, loopReads]
    cases hpop : popLine rpc.rx with
    | some p => exact ⟨rfl, rfl⟩
    | none =>
      dsimp only
      rw [if_neg (by simp), if_pos hlate, if_pos hlate]
      exact ⟨rfl, rfl⟩

/-! ## The loop of drains -/

open Host in
/-- **A run of `while (plugin_drain_response(e, 0))`** while the plugin has `pipe` ready: the host
and the pipe before it, and after it.  Each call reads from the front of the pipe.  No line asks the
host to resynchronise, which would drop output on purpose. -/
inductive Drains : Host → Bytes → Host → Bytes → Prop
  | stop {h h' : Host} {pipe pipe' : Bytes} {env : DrainEnv} (hserves : Serves pipe env.recv)
    (hdrain : h.drainResponse 0 env = some (false, h'))
    (hread : pipe = (lineReads h.e.rpc 0 env.recv).flatten ++ pipe') : Drains h pipe h' pipe'
  | line {h h₁ h' : Host} {pipe pipe₁ pipe' : Bytes} {env : DrainEnv} {new : List Event}
    (hserves : Serves pipe env.recv) (hdrain : h.drainResponse 0 env = some (true, h₁))
    (hread : pipe = (lineReads h.e.rpc 0 env.recv).flatten ++ pipe₁)
    (hlog : h₁.log = h.log ++ new) (hsync : Event.forceSync ∉ new)
    (hrest : Drains h₁ pipe₁ h' pipe') : Drains h pipe h' pipe'

/-- The loop goes through the lines in `rx_buf`, and leaves the pipe alone. -/
theorem Drains.leaves {h h' : Host} {pipe pipe' : Bytes} (hd : Drains h pipe h' pipe')
    (hlive : h'.e.rpc.dead = false ∧ 0 ≤ h'.e.rpc.outFd) :
    pipe' = pipe ∧ newline ∉ h'.e.rpc.rx := by
  induction hd with
  | @stop h h' pipe pipe' env hserves hdrain hread =>
    obtain ⟨hreads, hrecv⟩ := recvLine_zero h.e.rpc hserves
    rw [hreads] at hread
    refine ⟨hread.symm, ?_⟩
    rw [Host.drainResponse] at hdrain
    split at hdrain
    next hdead =>
      obtain ⟨-, rfl⟩ := Prod.mk.inj (Option.some_inj.mp hdrain)
      rw [hlive.1] at hdead
      exact absurd hdead (by simpa using hlive.2)
    next hdead =>
      rw [tryRecvAny, if_neg hdead, hrecv] at hdrain
      cases hpop : popLine h.e.rpc.rx with
      | some p =>
        rw [hpop] at hdrain
        cases hdrain
      | none =>
        rw [hpop] at hdrain
        obtain ⟨-, rfl⟩ := Prod.mk.inj (Option.some_inj.mp hdrain)
        exact popLine_eq_none.mp hpop
  | @line h h₁ h' pipe pipe₁ pipe' env new hserves hdrain hread _ _ hrest ih =>
    obtain ⟨hreads, -⟩ := recvLine_zero h.e.rpc hserves
    rw [hreads] at hread
    obtain ⟨hpipe, hrx⟩ := ih hlive
    exact ⟨hpipe.trans hread.symm, hrx⟩

/-- **When draining is complete.**  `recv_line` with a timeout of 0 returns a line whenever one is
complete in `rx_buf` or in the pipe, exactly if one is complete in `rx_buf` or no newline is in the
pipe.  And a run of the loop that ends with a live connection leaves no complete line, exactly if no
newline was in the pipe. -/
theorem drain_complete_iff (pipe : Bytes) :
    (∀ (rpc : Rpc) (env : RecvEnv), Serves pipe env →
      ((newline ∈ rpc.rx ++ pipe → ∃ line rpc', recvLine rpc 0 env = some (some line, rpc')) ↔
        newline ∈ rpc.rx ∨ newline ∉ pipe)) ∧
      ∀ (h h' : Host) (pipe' : Bytes), Drains h pipe h' pipe' → h'.e.rpc.dead = false →
        0 ≤ h'.e.rpc.outFd →
        (Lines.complete newline (h'.e.rpc.rx ++ pipe') = [] ↔ newline ∉ pipe) := by
  refine ⟨fun rpc env hserves => ?_, fun h h' pipe' hdrains hdead hfd => ?_⟩
  · obtain ⟨-, hrecv⟩ := recvLine_zero rpc hserves
    rw [hrecv]
    cases hpop : popLine rpc.rx with
    | some p =>
      have hrx : newline ∈ rpc.rx := by
        by_contra hcon
        rw [popLine_eq_none.mpr hcon] at hpop
        exact nomatch hpop
      exact ⟨fun _ => Or.inl hrx, fun _ _ => ⟨p.1, _, rfl⟩⟩
    | none =>
      have hrx := popLine_eq_none.mp hpop
      constructor
      · intro hline
        refine Or.inr fun hpipe => ?_
        obtain ⟨line, rpc', heq⟩ := hline (List.mem_append_right _ hpipe)
        exact nomatch heq
      · intro hor hmem
        rcases List.mem_append.mp hmem with hmem | hmem
        · exact absurd hmem hrx
        · exact absurd hmem (hor.resolve_left hrx)
  · obtain ⟨rfl, hrx⟩ := hdrains.leaves ⟨hdead, hfd⟩
    rw [Lines.complete_eq_nil_iff, List.mem_append, not_or, and_iff_right hrx]

theorem serves_readAtOnce {bytes : Bytes} (hpos : bytes ≠ []) (hlen : bytes.length ≤ 4096) :
    Serves bytes (readAtOnce bytes) := by
  have hzero : Timespec.Valid ⟨0, 0⟩ := ⟨Int.le_refl 0, by decide⟩
  refine ⟨⟨⟨0, 0⟩, rfl, hzero, fun r hr => ?_⟩, List.cons_ne_nil _ _, ?_⟩
  · obtain rfl := List.mem_singleton.mp hr
    exact ⟨⟨0, 0⟩, rfl, hzero, Or.inr ⟨rfl, Int.le_refl 0⟩⟩
  · have hoffers := Offers.chunk (some ⟨0, 0⟩) hpos hlen (.empty [])
    rwa [List.append_nil] at hoffers

/-- A plugin that has been initialised, with what waits in `rx_buf`. -/
def initialised (rx : Bytes) : Host :=
  let h := Host.unloaded (cs "demo") true
  { h with e := { h.e with initialized := true, rpc := ⟨100, 3, 4, 2, -1, false, rx⟩ } }

/-- A line that waits in `rx_buf` is returned. -/
theorem drain_complete_iff_waiting :
    ∃ line rpc', recvLine (initialised [120, 10]).e.rpc 0 (readAtOnce [121]) =
      some (some line, rpc') :=
  (((drain_complete_iff [121]).1 _ _ (serves_readAtOnce (by decide) (by decide))).mpr
    (Or.inl (by decide))) (by decide)

/-- **A line in the pipe is not.**  The plugin has written one line and the pipe is ready; the loop
ends, and the line is still there. -/
theorem drain_leaves_pipe :
    Serves [120, 10] (readAtOnce [120, 10]) ∧
      recvLine (initialised []).e.rpc 0 (readAtOnce [120, 10]) =
        some (none, (initialised []).e.rpc) ∧
      lineReads (initialised []).e.rpc 0 (readAtOnce [120, 10]) = [] ∧
      Host.drainAll [⟨readAtOnce [120, 10], [], true⟩] (initialised []) = some (initialised []) ∧
      Lines.complete newline ((initialised []).e.rpc.rx ++ [120, 10]) = [[120]] :=
  ⟨serves_readAtOnce (by decide) (by decide), rfl, rfl, rfl, rfl⟩

/-! ## Waiting for an answer -/

/-- Whenever the call looks at the clock, some of its time is left. -/
def Timely (timeoutMs : ℤ) (env : RecvEnv) : Prop :=
  ∀ t₀, env.start = some t₀ → ∀ r ∈ env.rounds, ∀ t, r.now = some t →
    0 < msLeft (deadlineAfter t₀ timeoutMs) t

/-- A line is returned, and what has been read stood at the front of the pipe. -/
def Served (d : Timespec) (rounds : List Round) (rpc : Rpc) (pipe : Bytes) : Prop :=
  ∃ line rpc' pipe', recvLoop (some d) rounds rpc = some (some line, rpc') ∧
    pipe = (loopReads (some d) rounds rpc.rx).flatten ++ pipe'

section Served

variable {d : Timespec} {rounds : List Round} {rpc : Rpc} {pipe : Bytes}

theorem Served.waiting (h : newline ∈ rpc.rx) : Served d rounds rpc pipe := by
  cases hpop : popLine rpc.rx with
  | none => exact absurd h (popLine_eq_none.mp hpop)
  | some p =>
    refine ⟨p.1, { rpc with rx := p.2 }, pipe, ?_, ?_⟩
    · unfold recvLoop
      rw [hpop]
    · rw [loopReads_of_some (by rw [hpop]; rfl)]
      rfl

/-- With time left, a turn goes on to its poll. -/
theorem not_outOfTime {r : Round} (h : ∃ t, r.now = some t ∧ 0 < msLeft d t) :
    ¬outOfTime (some d) (fun d now => msLeft d now ≤ 0) r.now = true := by
  obtain ⟨t, ht, hleft⟩ := h
  rw [ht]
  simpa [outOfTime] using hleft

theorem Served.interrupted {r : Round} (hrx : newline ∉ rpc.rx)
    (htime : ∃ t, r.now = some t ∧ 0 < msLeft d t)
    (hpoll : r.poll = .interrupted ∨ r.poll = .ready .interrupted)
    (h : Served d rounds rpc pipe) : Served d (r :: rounds) rpc pipe := by
  obtain ⟨line, rpc', pipe', hrecv, hpipe⟩ := h
  have hpop := popLine_eq_none.mpr hrx
  refine ⟨line, rpc', pipe', ?_, ?_⟩
  · rw [recvLoop, hpop]
    dsimp only
    rw [if_neg (not_outOfTime htime)]
    rcases hpoll with hpoll | hpoll
    · rw [hpoll]
      exact hrecv
    · rw [hpoll]
      exact hrecv
  · rw [loopReads, if_neg (by rw [hpop]; simp), if_neg (not_outOfTime htime)]
    rcases hpoll with hpoll | hpoll
    · rw [hpoll]
      exact hpipe
    · rw [hpoll]
      exact hpipe

theorem Served.chunk {r : Round} {bytes : Bytes} (hrx : newline ∉ rpc.rx)
    (htime : ∃ t, r.now = some t ∧ 0 < msLeft d t) (hpoll : r.poll = .ready (.chunk bytes))
    (h : Served d rounds { rpc with rx := rpc.rx ++ bytes } pipe) :
    Served d (r :: rounds) rpc (bytes ++ pipe) := by
  obtain ⟨line, rpc', pipe', hrecv, hpipe⟩ := h
  have hpop := popLine_eq_none.mpr hrx
  refine ⟨line, rpc', pipe', ?_, ?_⟩
  · rw [recvLoop, hpop]
    dsimp only
    rw [if_neg (not_outOfTime htime), hpoll]
    exact hrecv
  · rw [loopReads, if_neg (by rw [hpop]; simp), if_neg (not_outOfTime htime), hpoll,
      List.flatten_cons, List.append_assoc, ← hpipe]

end Served

/-- **The loop of `recv_line` gets a line that is there**, if there is time. -/
theorem recvLoop_served {d : Timespec} {pipe : Bytes} {rounds : List Round}
    (hoffers : Offers pipe rounds) (htime : ∀ r ∈ rounds, ∃ t, r.now = some t ∧ 0 < msLeft d t)
    (rpc : Rpc) (hline : newline ∈ rpc.rx ++ pipe) : Served d rounds rpc pipe := by
  induction hoffers generalizing rpc with
  | empty rounds =>
    rw [List.append_nil] at hline
    exact .waiting hline
  | @pollInterrupted pipe rounds now _ ih =>
    by_cases hrx : newline ∈ rpc.rx
    · exact .waiting hrx
    · obtain ⟨htime₀, htime⟩ := List.forall_mem_cons.mp htime
      exact .interrupted hrx htime₀ (Or.inl rfl) (ih htime rpc hline)
  | @readInterrupted pipe rounds now _ ih =>
    by_cases hrx : newline ∈ rpc.rx
    · exact .waiting hrx
    · obtain ⟨htime₀, htime⟩ := List.forall_mem_cons.mp htime
      exact .interrupted hrx htime₀ (Or.inr rfl) (ih htime rpc hline)
  | @chunk pipe rounds now bytes _ _ _ ih =>
    by_cases hrx : newline ∈ rpc.rx
    · exact .waiting hrx
    · obtain ⟨htime₀, htime⟩ := List.forall_mem_cons.mp htime
      rw [← List.append_assoc] at hline
      exact .chunk hrx htime₀ rfl (ih htime { rpc with rx := rpc.rx ++ bytes } hline)

/-- **`recv_line` gets a line that is there**: it returns the first line of what waits and what the
pipe holds, and leaves the rest. -/
theorem recvLine_served {rpc : Rpc} {pipe line rest : Bytes} {timeoutMs : ℤ} {env : RecvEnv}
    (hpos : 0 ≤ timeoutMs) (hserves : Serves pipe env) (htimely : Timely timeoutMs env)
    (hline : newline ∉ line) (hbytes : rpc.rx ++ pipe = line ++ [newline] ++ rest) :
    ∃ rpc' pipe', recvLine rpc timeoutMs env = some (some line, rpc') ∧
      pipe = (lineReads rpc timeoutMs env).flatten ++ pipe' ∧ rpc'.rx ++ pipe' = rest ∧
      rpc'.pendingId = rpc.pendingId := by
  obtain ⟨⟨t₀, hstart, -, hnow⟩, -, hoffers⟩ := hserves
  have hthere : newline ∈ rpc.rx ++ pipe := by
    rw [hbytes]
    simp
  have htime : ∀ r ∈ env.rounds, ∃ t, r.now = some t ∧
      0 < msLeft (deadlineAfter t₀ timeoutMs) t := by
    intro r hr
    obtain ⟨t, ht, -⟩ := hnow r hr
    exact ⟨t, ht, htimely t₀ hstart r hr t ht⟩
  obtain ⟨line', rpc', pipe', hloop, hpipe⟩ := recvLoop_served hoffers htime rpc hthere
  have hrecv : recvLine rpc timeoutMs env = some (some line', rpc') := by
    rw [recvLine, if_pos hpos, hstart]
    exact hloop
  have hread : pipe = (lineReads rpc timeoutMs env).flatten ++ pipe' := by
    rw [lineReads, if_pos hpos, hstart]
    exact hpipe
  obtain ⟨hsplit, hline'⟩ := recvLine_splits hrecv
  have hcut : line' ++ [newline] ++ (rpc'.rx ++ pipe') = line ++ [newline] ++ rest := by
    rw [← hbytes, hread, ← List.append_assoc rpc.rx, hsplit, taken, List.append_assoc (_ ++ _)]
  obtain ⟨rfl, hrest⟩ := Lines.line_append_inj (hline' line' rfl) hline hcut
  obtain ⟨rx, dead, rfl⟩ := recvLine_shape hrecv
  exact ⟨_, pipe', hrecv, hread, hrest, rfl⟩

/-- **The calls of `recv_line` in `nsr_json_rpc_try_recv_response`** while the plugin has `pipe`
ready: each has time left whenever it looks at the clock, and finds in the pipe what the one before
has left there.  Once the budget is spent there is no further call. -/
inductive Fed : ℤ → List RecvEnv → Rpc → Bytes → Prop
  | nil (deadline : ℤ) (rpc : Rpc) (pipe : Bytes) : Fed deadline [] rpc pipe
  | cons {deadline : ℤ} {env : RecvEnv} {envs : List RecvEnv} {rpc : Rpc} {pipe : Bytes}
    (hserves : Serves pipe env) (htimely : Timely (recvSlice deadline) env)
    (hrest : ∀ line rpc' pipe', recvLine rpc (recvSlice deadline) env = some (some line, rpc') →
      pipe = (lineReads rpc (recvSlice deadline) env).flatten ++ pipe' →
      0 < deadline - recvSlice deadline → Fed (deadline - recvSlice deadline) envs rpc' pipe') :
    Fed deadline (env :: envs) rpc pipe

theorem recvSlice_pos {deadline : ℤ} (h : 0 < deadline) :
    recvSlice deadline = min 50 deadline := by
  rw [recvSlice, if_neg (by omega)]
  split
  · omega
  · omega

/-- **Every line that is not the answer costs 50 milliseconds of the budget.** -/
theorem tryRecvLoop_iff {timeoutMs : ℤ} (htimeout : 0 ≤ timeoutMs) {foreign : List Bytes}
    {answer rest pipe : Bytes} {deadline : ℤ} (hdeadline : 0 < deadline) {envs : List RecvEnv}
    {rpc : Rpc} (hforeign : ∀ l ∈ foreign, newline ∉ l ∧ lineId l ≠ rpc.pendingId)
    (hanswer : newline ∉ answer) (hid : lineId answer = rpc.pendingId)
    (hbytes : rpc.rx ++ pipe = Lines.unlines newline (foreign ++ [answer]) ++ rest)
    (hfed : Fed deadline envs rpc pipe) (henough : foreign.length < envs.length) :
    (∃ rpc', tryRecvLoop timeoutMs envs deadline rpc = some (some answer, rpc') ∧
      rpc'.pendingId = -1) ↔ 50 * (foreign.length : ℤ) < deadline := by
  have hslice := recvSlice_pos hdeadline
  induction foreign generalizing deadline envs rpc pipe with
  | nil =>
    cases hfed with
    | nil => exact absurd henough (Nat.lt_irrefl 0)
    | cons hserves htimely _ =>
      have hfirst : rpc.rx ++ pipe = answer ++ [newline] ++ rest := by
        rw [hbytes, List.nil_append, Lines.unlines_cons, Lines.unlines_nil, List.append_nil]
      obtain ⟨rpc', pipe', hrecv, -, -, hpending⟩ :=
        recvLine_served (by omega) hserves htimely hanswer hfirst
      rw [tryRecvLoop, hrecv]
      dsimp only
      rw [if_pos (hid.trans hpending.symm)]
      exact ⟨fun _ => by simpa using hdeadline, fun _ => ⟨_, rfl, rfl⟩⟩
  | cons l foreign ih =>
    cases hfed with
    | nil => exact absurd henough (Nat.not_lt_zero _)
    | @cons _ env envs _ _ hserves htimely hnext =>
      obtain ⟨⟨hl, hlid⟩, hforeign⟩ := List.forall_mem_cons.mp hforeign
      have hfirst : rpc.rx ++ pipe =
          l ++ [newline] ++ (Lines.unlines newline (foreign ++ [answer]) ++ rest) := by
        rw [hbytes, List.cons_append, Lines.unlines_cons, List.append_assoc (_ ++ _)]
      obtain ⟨rpc', pipe', hrecv, hread, hbytes', hpending⟩ :=
        recvLine_served (by omega) hserves htimely hl hfirst
      rw [tryRecvLoop, hrecv]
      dsimp only
      rw [if_neg (by rw [hpending]; exact hlid)]
      by_cases hspent : deadline ≤ 50
      · -- the budget ends with this line
        rw [if_pos ⟨by omega, htimeout⟩]
        constructor
        · rintro ⟨rpc'', heq, -⟩
          exact nomatch heq
        · intro hlt
          rw [List.length_cons] at hlt
          omega
      · rw [if_neg (by omega)]
        rw [← hpending] at hforeign hid
        have hleft : 0 < deadline - recvSlice deadline := by omega
        have hfed' := hnext l rpc' pipe' hrecv hread hleft
        have henough' : foreign.length < envs.length := by
          simpa using henough
        refine (ih hleft hforeign hid hbytes' hfed' henough' (recvSlice_pos hleft)).trans ?_
        rw [List.length_cons]
        omega

/-- **When the answer is found.**  The plugin has some lines ready, of which `answer` is the first
that answers the pending request, with `foreign` before it, and the clock stands still, as far as
the loop can tell.  Then `nsr_json_rpc_try_recv_response` returns the answer and clears
`pending_id`, exactly if 50 milliseconds for every line of `foreign` do not use up the timeout. -/
theorem response_found_iff {rpc : Rpc} {timeoutMs : ℤ} (htimeout : 0 < timeoutMs)
    (hlive : rpc.dead = false) (hfd : 0 ≤ rpc.outFd) (hpending : 0 ≤ rpc.pendingId)
    {foreign : List Bytes} {answer rest pipe : Bytes}
    (hforeign : ∀ l ∈ foreign, newline ∉ l ∧ lineId l ≠ rpc.pendingId)
    (hanswer : newline ∉ answer ∧ lineId answer = rpc.pendingId)
    (hbytes : rpc.rx ++ pipe = Lines.unlines newline (foreign ++ [answer]) ++ rest)
    {envs : List RecvEnv} (hfed : Fed timeoutMs envs rpc pipe)
    (henough : foreign.length < envs.length) :
    (∃ rpc', tryRecvResponse rpc timeoutMs envs = some (some answer, rpc') ∧
      rpc'.pendingId = -1) ↔ 50 * (foreign.length : ℤ) < timeoutMs := by
  have hready : ¬(rpc.dead = true ∨ rpc.outFd < 0 ∨ rpc.pendingId < 0) := by
    rw [hlive]
    simpa using ⟨hfd, hpending⟩
  rw [tryRecvResponse, if_neg hready]
  exact tryRecvLoop_iff (Int.le_of_lt htimeout) htimeout hforeign hanswer.1 hanswer.2 hbytes hfed
    henough

/-- A connection that waits for the answer to request 1. -/
def waitsForOne (rx : Bytes) : Rpc := ⟨100, 3, 4, 2, 1, false, rx⟩

/-- What the plugin has ready: a line of its standard error, and the answer. -/
def chatter : Bytes := Lines.unlines newline [ascii "note", ascii "\x7b\"id\":1\x7d"]

theorem timely_readAtOnce {timeoutMs : ℤ} (hpos : 0 < timeoutMs) (hle : timeoutMs ≤ 50)
    (bytes : Bytes) : Timely timeoutMs (readAtOnce bytes) := by
  intro t₀ hstart r hr t ht
  obtain rfl := Option.some_inj.mp hstart
  obtain rfl := List.mem_singleton.mp hr
  obtain rfl := Option.some_inj.mp ht
  have hsec : timeoutMs.tdiv 1000 = 0 := by
    rw [Int.tdiv_eq_ediv_of_nonneg (by omega)]
    omega
  have hmod : timeoutMs.tmod 1000 = timeoutMs := by
    rw [Int.tmod_eq_emod_of_nonneg (by omega)]
    omega
  rw [deadlineAfter, hsec, hmod, if_neg (by dsimp only; omega), msLeft]
  dsimp only
  rw [Int.tdiv_eq_ediv_of_nonneg (by omega)]
  omega

theorem fed_chatter {timeoutMs : ℤ} (hlow : 50 ≤ timeoutMs) (hhigh : timeoutMs ≤ 100) :
    Fed timeoutMs [readAtOnce chatter, readAtOnce chatter] (waitsForOne []) chatter := by
  have hserves : Serves chatter (readAtOnce chatter) :=
    serves_readAtOnce (by decide) (by decide)
  have hslice : recvSlice timeoutMs = 50 := by
    rw [recvSlice_pos (by omega)]
    omega
  refine .cons hserves ?_ fun line rpc' pipe' hrecv hread hleft => ?_
  · rw [hslice]
    exact timely_readAtOnce (by decide) (by decide) _
  · -- the first call has read everything
    have hreads : lineReads (waitsForOne []) 50 (readAtOnce chatter) = [chatter] := rfl
    rw [hslice, hreads, List.flatten_cons, List.flatten_nil, List.append_nil] at hread
    obtain rfl : pipe' = [] := List.append_right_eq_self.mp hread.symm
    refine .cons ⟨hserves.clock, hserves.turn, .empty _⟩ ?_ fun _ _ _ _ _ _ => .nil _ _ _
    rw [recvSlice_pos hleft]
    exact timely_readAtOnce (by omega) (by omega) _

/-- With 51 milliseconds the answer is found. -/
theorem response_found_iff_enough :
    ∃ rpc', tryRecvResponse (waitsForOne []) 51 [readAtOnce chatter, readAtOnce chatter] =
      some (some (ascii "\x7b\"id\":1\x7d"), rpc') ∧ rpc'.pendingId = -1 := by
  have hforeign : ∀ l ∈ [ascii "note"], newline ∉ l ∧ lineId l ≠ (waitsForOne []).pendingId := by
    decide +kernel
  have hanswer : newline ∉ ascii "\x7b\"id\":1\x7d" ∧
      lineId (ascii "\x7b\"id\":1\x7d") = (waitsForOne []).pendingId := by decide +kernel
  have hbytes : (waitsForOne []).rx ++ chatter = Lines.unlines newline ([ascii "note"] ++
      [ascii "\x7b\"id\":1\x7d"]) ++ [] := rfl
  exact (response_found_iff (by decide) rfl (by decide) (by decide) hforeign hanswer hbytes
    (fed_chatter (by decide) (by decide)) (by decide)).mpr (by decide)

/-- **With 50 milliseconds it is not**, although it has come in with the first read. -/
theorem response_lost_behind_note :
    Fed 50 [readAtOnce chatter, readAtOnce chatter] (waitsForOne []) chatter ∧
      lineId (ascii "\x7b\"id\":1\x7d") = (waitsForOne []).pendingId ∧
      tryRecvResponse (waitsForOne []) 50 [readAtOnce chatter, readAtOnce chatter] =
        some (none, waitsForOne (ascii "\x7b\"id\":1\x7d" ++ [newline])) := by
  refine ⟨fed_chatter (by decide) (by decide), by decide +kernel, ?_⟩
  rfl

end Nsr
