import Nsr.Ui.Reserved
import Mathlib.Data.List.Induction

/-!
# The modal flag

A plugin says with `is_modal` whether it wants every key, in its answers to `render` and `on_key`
and in `force_sync` messages.  An answer to `on_key` and a `force_sync` set the flag of the entry at
once.  An answer to `render` is kept, and each frame sets the flag anew from the answer that is kept
then --- also where something newer has been said since, and where the answer was discarded because
the plugin handled a key.

* `lastModal`, `keptModal`: what a history says was announced last, and what the kept answer says.
* `shown_of_reachable`: the cached response is the kept answer, in every run.
* `Current`: the flag is what was announced last.
* `FrameAgrees`, `StepAgrees`: what must be the case when a frame, or another step, starts.
* `modal_last_writer_iff`: exactly then the flag is right after a frame, and it stays right.
-/

namespace Nsr

open Transition

/-! ## Messages -/

/-- `is_modal` in an answer, where it has one that parses. -/
def resultModal (line : Bytes) : Option Bool :=
  (objGet (cstr line) (cs "result")).bind fun result => Host.boolMember result.1 (cs "is_modal")

/-- A `force_sync` message. -/
def isForceSync (line : Bytes) : Bool :=
  Host.strMember (cstr line) (cs "method") 64 == ascii "force_sync"

/-- `is_modal` in a `force_sync` message, where it has one that parses. -/
def syncModal (line : Bytes) : Option Bool :=
  (objGet (cstr line) (cs "params")).bind fun params => Host.boolMember params.1 (cs "is_modal")

/-- The result of `on_key` says that the plugin handled the key, and asks for no editor. -/
def handles (result : Bytes) : Bool :=
  Host.strMember result (cs "action") 64 != ascii "open_editor" &&
    Host.boolMember result (cs "handled") == some true

/-- The answer to a key says that the plugin handled it. -/
def handlesKey (line : Bytes) : Bool :=
  match objGet (cstr line) (cs "result") with
  | none => false
  | some (result, _) => handles result

/-- What an event announces: a `force_sync` when it comes in, and an answer to `render` or `on_key`
when it is taken for one. -/
def announced : Event → Option Bool
  | .received line => if isForceSync line then syncModal line else none
  | .answered .render line => resultModal line
  | .answered .onKey line => resultModal line
  | _ => none

/-- **What the plugin announced last.** -/
def lastModal (log : List Event) : Option Bool :=
  log.foldl (fun acc e => (announced e).or acc) none

/-- What an event does to the answer to `render` that is kept. -/
def keptStep (kept : Option Bytes) : Event → Option Bytes
  | .answered .render line => some line
  | .answered .onKey line => if handlesKey line then none else kept
  | .forceSync => none
  | _ => kept

/-- **The answer to `render` that is kept**: the last one, unless the plugin has handled a key or
synchronised since. -/
def keptRender (log : List Event) : Option Bytes :=
  log.foldl keptStep none

/-- What the kept answer says; without one, or where it says nothing, the plugin is not modal. -/
def keptModal (log : List Event) : Bool :=
  ((keptRender log).bind resultModal).getD false

theorem lastModal_concat (log : List Event) (e : Event) :
    lastModal (log ++ [e]) = (announced e).or (lastModal log) := by
  rw [lastModal, List.foldl_append]
  rfl

theorem keptRender_concat (log : List Event) (e : Event) :
    keptRender (log ++ [e]) = keptStep (keptRender log) e := by
  rw [keptRender, List.foldl_append]
  rfl

/-! ## The cached response -/

/-- **The cached response is the kept answer.** -/
def Shown (h : Host) : Prop :=
  h.e.lastResp .render = (keptRender h.log).getD []

/-- What the host says announces nothing, and keeps what is kept. -/
theorem messages_append {asks : Method → Bytes → Prop} {log new : List Event}
    (hnew : ∀ ev ∈ new, Host.IsSent asks ev) :
    lastModal (log ++ new) = lastModal log ∧ keptRender (log ++ new) = keptRender log := by
  induction new using List.reverseRecOn with
  | nil =>
    rw [List.append_nil]
    exact ⟨rfl, rfl⟩
  | append_singleton new ev ih =>
    obtain ⟨hlast, hkept⟩ := ih fun x hx => hnew x (by simp [hx])
    obtain ⟨m, params, id, written, -, rfl⟩ := hnew ev (by simp)
    rw [← List.append_assoc, lastModal_concat, keptRender_concat, hlast, hkept]
    exact ⟨rfl, rfl⟩

/-! ## A line -/

/-- What a line announces, as the host takes it. -/
def lineModal (h : Host) (line : Bytes) : Option Bool :=
  if isForceSync line then syncModal line
  else if h.answers .render (lineId line) then resultModal line
  else if h.answers .renderHops (lineId line) then none
  else if h.answers .onKey (lineId line) then resultModal line
  else none

/-- The line is taken for the answer to `render`. -/
def isRenderResult (h : Host) (line : Bytes) : Bool :=
  !isForceSync line && h.answers .render (lineId line)

/-- **What a line does**: the announcement counts from then on, it sets the flag unless it is the
answer to `render`, and the cached response stays the kept answer. -/
structure Taken (h h' : Host) (line : Bytes) : Prop where
  isModal : h'.e.isModal =
    if isRenderResult h line then h.e.isModal else (lineModal h line).getD h.e.isModal
  last : lastModal h'.log = (lineModal h line).or (lastModal h.log)
  shown : Shown h → Shown h'

/-- The answer to a key: the flag and the cached response. -/
theorem handleOnKeyResult_modal (h : Host) (result : Bytes) (discard : List DiscardRound) :
    (h.handleOnKeyResult result discard).2.e.isModal =
        (Host.boolMember result (cs "is_modal")).getD h.e.isModal ∧
      lastModal (h.handleOnKeyResult result discard).2.log = lastModal h.log ∧
      (∀ kept : Option Bytes, h.e.lastResp .render = kept.getD [] →
        keptRender h.log = (if handles result then none else kept) →
        Shown (h.handleOnKeyResult result discard).2) := by
  unfold Host.handleOnKeyResult
  split
  next h' hf =>
    unfold Host.resultRequestsForceSync at hf
    split at hf
    · cases hf
    · obtain rfl := Option.some_inj.mp hf
      refine ⟨rfl, lastModal_concat h.log .forceSync, fun kept _ _ => ?_⟩
      rw [Shown]
      exact congrArg (Option.getD · []) (keptRender_concat h.log .forceSync).symm
  dsimp only
  split
  next haction =>
    have hkeeps : ∀ kept : Option Bytes, h.e.lastResp .render = kept.getD [] →
        keptRender h.log = (if handles result then none else kept) →
        h.e.lastResp .render = (keptRender h.log).getD [] := by
      intro kept hlast hkept
      rw [hkept, handles, haction, hlast]
      simp
    split
    · exact ⟨rfl, rfl, hkeeps⟩
    · exact ⟨rfl, rfl, hkeeps⟩
  next haction =>
    split
    next hhandled =>
      refine ⟨rfl, rfl, fun kept _ hkept => ?_⟩
      have hnone : keptRender h.log = none := by
        rw [hkept, handles, hhandled]
        simp [haction]
      rw [Shown]
      simp only [Host.setModal, Function.update_self, hnone, Option.getD_none]
    next hhandled =>
      refine ⟨rfl, rfl, fun kept hlast hkept => ?_⟩
      have hsome : keptRender h.log = kept := by
        rw [hkept, handles]
        simp [hhandled]
      rw [Shown]
      exact hlast.trans (congrArg (Option.getD · []) hsome.symm)

/-- An answer that is kept aside: the flag stays. -/
theorem storeAnswer_taken {h : Host} {m : Method} {line : Bytes} (hm : m ≠ .onKey)
    (hsync : isForceSync line = false) :
    ((⟨h.e, h.log ++ [.received line]⟩ : Host).answer m line |>.storeResp m line).e.isModal =
        h.e.isModal ∧
      lastModal ((⟨h.e, h.log ++ [.received line]⟩ : Host).answer m line |>.storeResp m line).log =
        (announced (.answered m line)).or (lastModal h.log) ∧
      (Shown h → Shown ((⟨h.e, h.log ++ [.received line]⟩ : Host).answer m line
        |>.storeResp m line)) := by
  have hreceived : announced (.received line) = none := by
    simp [announced, hsync]
  refine ⟨rfl, ?_, fun hs => ?_⟩
  · exact (lastModal_concat _ _).trans (by rw [lastModal_concat, hreceived, Option.none_or])
  · rw [Shown]
    simp only [Host.storeResp, Host.answer, keptRender_concat]
    cases m with
    | render => rfl
    | renderHops => exact hs
    | onKey => exact absurd rfl hm

/-- A `force_sync` message sets the flag, and nothing is kept. -/
theorem handleForceSync_taken {h h' : Host} {line : Bytes} {discard : List DiscardRound}
    (hf : (⟨h.e, h.log ++ [.received line]⟩ : Host).handleForceSync line discard = some h') :
    Taken h h' line := by
  unfold Host.handleForceSync at hf
  split at hf
  · cases hf
  next hmethod =>
    have hsync : isForceSync line = true := by simpa [isForceSync] using hmethod
    obtain rfl := Option.some_inj.mp hf
    refine ⟨?_, ?_, fun _ => ?_⟩
    · simp only [isRenderResult, lineModal, hsync, Bool.not_true, Bool.false_and, if_true,
        Bool.false_eq_true, if_false]
      rfl
    · refine (lastModal_concat _ .forceSync).trans ?_
      rw [lastModal_concat, announced, lineModal, if_pos hsync, if_pos hsync]
      rfl
    · rw [Shown]
      exact congrArg (Option.getD · []) (keptRender_concat _ .forceSync).symm

theorem isForceSync_of_none {h : Host} {line : Bytes} {discard : List DiscardRound}
    (hf : h.handleForceSync line discard = none) : isForceSync line = false := by
  unfold Host.handleForceSync at hf
  split at hf
  next hmethod => simpa [isForceSync] using hmethod
  · cases hf

/-- The answer to a key sets the flag; the kept answer goes if the plugin handled the key. -/
theorem answerKey_taken {h : Host} {line : Bytes} {discard : List DiscardRound}
    (hsync : isForceSync line = false) (hrender : h.answers .render (lineId line) = false)
    (hhops : h.answers .renderHops (lineId line) = false)
    (hkey : h.answers .onKey (lineId line) = true) :
    Taken h (match objGet (cstr line) (cs "result") with
      | none => (⟨h.e, h.log ++ [.received line]⟩ : Host).answer .onKey line
      | some (result, _) => (((⟨h.e, h.log ++ [.received line]⟩ : Host).answer .onKey line
        |>.handleOnKeyResult result discard)).2) line := by
  set g : Host := (⟨h.e, h.log ++ [.received line]⟩ : Host).answer .onKey line with hg
  have hmodal : lineModal h line = resultModal line := by
    simp only [lineModal, hsync, hrender, hhops, hkey, if_true, Bool.false_eq_true, if_false]
  have hresult : isRenderResult h line = false := by
    rw [isRenderResult, hrender, Bool.and_false]
  have hlast : lastModal g.log = (resultModal line).or (lastModal h.log) := by
    refine (lastModal_concat _ _).trans ?_
    rw [lastModal_concat, announced, if_neg (by simp [hsync]), Option.none_or]
    rfl
  have hkept : keptRender g.log = if handlesKey line then none else keptRender h.log := by
    refine (keptRender_concat _ _).trans ?_
    rw [keptRender_concat]
    rfl
  cases hres : objGet (cstr line) (cs "result") with
  | none =>
    have hnone : resultModal line = none := by rw [resultModal, hres, Option.bind_none]
    refine ⟨?_, ?_, fun hs => ?_⟩
    · rw [hresult, hmodal, hnone]
      rfl
    · rw [hmodal]
      exact hlast
    · rw [handlesKey, hres] at hkept
      rw [Shown]
      exact hs.trans (congrArg (Option.getD · []) hkept.symm)
  | some r =>
    obtain ⟨result, len⟩ := r
    have hsome : resultModal line = Host.boolMember result (cs "is_modal") := by
      rw [resultModal, hres, Option.bind_some]
    obtain ⟨hm, hl, hshown⟩ := handleOnKeyResult_modal g result discard
    refine ⟨?_, ?_, fun hs => ?_⟩
    · rw [hresult, hmodal, hsome]
      exact hm
    · rw [hmodal]
      exact hl.trans hlast
    · rw [handlesKey, hres] at hkept
      exact hshown (keptRender h.log) hs hkept

/-- **What a line does**, whatever it is. -/
theorem take_taken (h : Host) (line : Bytes) (discard : List DiscardRound) :
    Taken h (h.take line discard) line := by
  rw [Host.take, Host.route]
  split
  next h' hf => exact handleForceSync_taken hf
  next hf =>
  have hsync := isForceSync_of_none hf
  split
  next hrender =>
    have hrender : h.answers .render (lineId line) = true := hrender
    obtain ⟨hm, hl, hs⟩ := storeAnswer_taken (h := h) (m := .render) (by decide) hsync
    refine ⟨?_, ?_, hs⟩
    · rw [isRenderResult, hsync, hrender]
      exact hm
    · rw [lineModal, if_neg (by simp [hsync]), if_pos hrender]
      exact hl
  next hrender =>
  have hrender : h.answers .render (lineId line) = false := Bool.eq_false_of_not_eq_true hrender
  have hresult : isRenderResult h line = false := by
    rw [isRenderResult, hrender, Bool.and_false]
  split
  next hhops =>
    have hhops : h.answers .renderHops (lineId line) = true := hhops
    obtain ⟨hm, hl, hs⟩ := storeAnswer_taken (h := h) (m := .renderHops) (by decide) hsync
    have hmodal : lineModal h line = none := by
      simp only [lineModal, hsync, hrender, hhops, if_true, Bool.false_eq_true, if_false]
    refine ⟨?_, ?_, hs⟩
    · rw [hresult, hmodal]
      exact hm
    · rw [hmodal]
      exact hl
  next hhops =>
  have hhops : h.answers .renderHops (lineId line) = false := Bool.eq_false_of_not_eq_true hhops
  split
  next hkey => exact answerKey_taken hsync hrender hhops hkey
  next hkey =>
    have hkey : h.answers .onKey (lineId line) = false := Bool.eq_false_of_not_eq_true hkey
    have hmodal : lineModal h line = none := by
      simp only [lineModal, hsync, hrender, hhops, hkey, Bool.false_eq_true, if_false]
    refine ⟨?_, ?_, fun hs => ?_⟩
    · rw [hresult, hmodal]
      rfl
    · rw [hmodal, lastModal_concat, announced, if_neg (by simp [hsync])]
    · rw [Shown, keptRender_concat]
      exact hs

/-! ## Runs -/

theorem shown_parts : Host.Parts Host.drawn fun h h' => Shown h → Shown h' where
  refl := fun _ => id
  trans := fun h₁ h₂ => h₂ ∘ h₁
  read := fun _ _ _ => id
  take := fun h line discard => (take_taken h line discard).shown
  nextKey := by
    intro h written _ hs
    obtain ⟨new, hspoke, hnew, -⟩ := Host.sendNextKey_spoke h written
    rw [Shown, hspoke.lastResp, hspoke.log, (messages_append hnew).2]
    exact hs
  request := by
    intro h m params written _ hs
    obtain ⟨new, hspoke, hnew⟩ := Host.requestUnlessPending_spoke h m params written
    rw [Shown, hspoke.lastResp, hspoke.log, (messages_append hnew).2]
    exact hs
  modal := fun _ _ => id
  editor := fun _ => id
  press := by
    intro h ev reserved t₁ t₂ written hs
    obtain ⟨new, hspoke, hnew⟩ := Host.pressKey_spoke h ev reserved t₁ t₂ written
    rw [Shown, hspoke.lastResp, hspoke.log, List.append_cons, (messages_append hnew).2,
      keptRender_concat]
    exact hs

theorem Shown.step {h h' : Host} (hs : Shown h) (hstep : Host.Step h h') : Shown h' := by
  obtain ⟨a, ha⟩ := hstep
  refine shown_parts.act a.asks_drawn ha ?_
  obtain ⟨dead, initialized, hcheck⟩ := h.checkAlive_shape a.exited
  rw [hcheck]
  exact hs

/-- **In every run, the cached response is the kept answer.** -/
theorem shown_of_reachable {h₀ h : Host} (hs : h₀.Spawned) (hr : Reachable Host.Step h₀ h) :
    Shown h := by
  refine hr.invariant ?_ fun s t _ ih hst => ih.step hst
  rw [Shown, hs.lastResp, hs.log]
  rfl

/-- What a frame sets the flag to. -/
theorem cachedModal_of_shown {h : Host} (hs : Shown h) : h.e.cachedModal = keptModal h.log := by
  rw [Entry.cachedModal, Entry.cachedResult, hs, keptModal]
  cases keptRender h.log with
  | none => rfl
  | some line =>
    rw [Option.getD_some, Option.bind_some]
    by_cases hlen : 0 < line.length
    · rw [if_pos hlen, resultModal]
      cases objGet (cstr line) (cs "result") <;> rfl
    · have hnil : line = [] := List.eq_nil_of_length_eq_zero (by omega)
      rw [if_neg hlen, hnil]
      decide +kernel

/-! ## Reading -/

/-- The line that a drain reads, where one comes in time. -/
def drainLine (h : Host) (timeoutMs : ℤ) (env : Host.DrainEnv) : Option Bytes :=
  if h.e.rpc.dead ∨ h.e.rpc.outFd < 0 then none
  else
    match tryRecvAny h.e.rpc timeoutMs env.recv with
    | some (some (line, _), _) => some line
    | _ => none

/-- What a drain reads, and what it announces. -/
def drainModal (h : Host) (timeoutMs : ℤ) (env : Host.DrainEnv) : Option (Bytes × Bool) :=
  (drainLine h timeoutMs env).bind fun line => (lineModal h line).map fun b => (line, b)

/-- What a drain does to the flag and to what counts as announced; the flag it starts with is
`m`. -/
theorem drainResponse_modal {h h' : Host} {timeoutMs : ℤ} {env : Host.DrainEnv} {b m : Bool}
    (hdrain : Host.drainResponse { h with e := { h.e with isModal := m } } timeoutMs env =
      some (b, h')) :
    match drainLine h timeoutMs env with
    | none => h'.e.isModal = m ∧ lastModal h'.log = lastModal h.log
    | some line =>
      h'.e.isModal = (if isRenderResult h line then m else (lineModal h line).getD m) ∧
        lastModal h'.log = (lineModal h line).or (lastModal h.log) := by
  rw [Host.drainResponse] at hdrain
  unfold drainLine
  dsimp only at hdrain
  split at hdrain
  next hdead =>
    obtain ⟨-, rfl⟩ := Prod.mk.inj (Option.some_inj.mp hdrain)
    rw [if_pos hdead]
    exact ⟨rfl, rfl⟩
  next hdead =>
  rw [if_neg hdead]
  split at hdrain
  · cases hdrain
  next rpc hrecv =>
    obtain ⟨-, rfl⟩ := Prod.mk.inj (Option.some_inj.mp hdrain)
    rw [hrecv]
    exact ⟨rfl, rfl⟩
  next line id rpc hrecv =>
    obtain ⟨-, rfl⟩ := Prod.mk.inj (Option.some_inj.mp hdrain)
    obtain rfl := tryRecvAny_id hrecv
    rw [hrecv]
    have htaken := take_taken ⟨{ h.e with isModal := m, rpc := rpc }, h.log⟩ line env.discard
    obtain ⟨new, hspoke, hnew, -⟩ := Host.sendNextKey_spoke
      (Host.take ⟨{ h.e with isModal := m, rpc := rpc }, h.log⟩ line env.discard) env.written
    refine ⟨hspoke.isModal.trans htaken.isModal, ?_⟩
    have hlog := congrArg lastModal hspoke.log
    rw [(messages_append hnew).1] at hlog
    exact hlog.trans htaken.last

/-- **The flag is what was announced last.** -/
def Current (h : Host) : Prop :=
  h.e.isModal = (lastModal h.log).getD false

/-- After a drain that starts with the flag `m`, the flag is what was announced last if and only if
it was so before and nothing is read that announces anything, or what is read sets the flag, or it
is an answer to `render` that says `m`. -/
theorem drainResponse_current_iff {h h' : Host} {timeoutMs : ℤ} {env : Host.DrainEnv} {b m : Bool}
    (hdrain : Host.drainResponse { h with e := { h.e with isModal := m } } timeoutMs env =
      some (b, h')) :
    Current h' ↔
      match drainModal h timeoutMs env with
      | none => m = (lastModal h.log).getD false
      | some (line, b) => isRenderResult h line = true → m = b := by
  have hread := drainResponse_modal hdrain
  rw [Current, drainModal]
  cases hline : drainLine h timeoutMs env with
  | none =>
    rw [hline] at hread
    rw [hread.1, hread.2]
    rfl
  | some line =>
    rw [hline] at hread
    rw [hread.1, hread.2, Option.bind_some]
    cases hmodal : lineModal h line with
    | none =>
      rw [Option.none_or, Option.getD_none, ite_self]
      rfl
    | some b =>
      show (if isRenderResult h line then m else b) = b ↔ (isRenderResult h line = true → m = b)
      cases isRenderResult h line with
      | true => exact ⟨fun heq _ => heq, fun heq => heq rfl⟩
      | false => exact ⟨fun _ heq => absurd heq (by decide), fun _ => rfl⟩

/-- What the host says leaves the flag and what counts as announced. -/
theorem Current.of_spoke {h h' : Host} {new : List Event} (hspoke : Host.Spoke h h' new)
    (hnew : lastModal (h.log ++ new) = lastModal h.log) : Current h' ↔ Current h := by
  rw [Current, Current, hspoke.isModal, hspoke.log, hnew]

theorem requestUnlessPending_current (h : Host) (m : Method) (params : Bytes) (written : Bool) :
    Current (h.requestUnlessPending m params written) ↔ Current h := by
  obtain ⟨new, hspoke, hnew⟩ := Host.requestUnlessPending_spoke h m params written
  exact Current.of_spoke hspoke (messages_append hnew).1

theorem pressKey_current (h : Host) (ev : KeyEvent) (reserved : Bool) (t₁ t₂ : ℤ)
    (written : Bool) : Current (h.pressKey ev reserved t₁ t₂ written).2 ↔ Current h := by
  obtain ⟨new, hspoke, hnew⟩ := Host.pressKey_spoke h ev reserved t₁ t₂ written
  refine Current.of_spoke hspoke ?_
  rw [List.append_cons, (messages_append hnew).1, lastModal_concat]
  rfl

theorem checkAlive_current (h : Host) (exited : Bool) :
    Current (h.checkAlive exited) ↔ Current h := by
  obtain ⟨dead, initialized, hcheck⟩ := h.checkAlive_shape exited
  rw [hcheck]
  exact Iff.rfl

/-! ## Frames -/

/-- **When a frame leaves the flag right**: if it reads nothing that announces anything, the kept
answer says what was announced last; if it reads an answer to `render`, that says the same as the
answer kept so far. -/
def FrameAgrees (h : Host) (env : Host.FrameEnv) : Prop :=
  match drainModal h 5 env.drain with
  | none => keptModal h.log = (lastModal h.log).getD false
  | some (line, b) => isRenderResult h line = true → keptModal h.log = b

/-- **The flag after a frame is what was announced last, exactly when the frame agrees.** -/
theorem render_current_iff {h h' : Host} {view : RenderView} {env : Host.FrameEnv} (hs : Shown h)
    (hrender : h.render view env = some h') (hlive : (h.checkAlive env.exited).e.live = true) :
    Current h' ↔ FrameAgrees h env := by
  have hcheck := checkAlive_of_live hlive
  rw [Host.render, hcheck] at hrender
  rw [hcheck] at hlive
  simp only [hlive, Bool.not_true, Bool.false_eq_true, if_false] at hrender
  obtain ⟨⟨b, h₁⟩, hdrain, rfl⟩ := Option.map_eq_some_iff.mp hrender
  rw [cachedModal_of_shown hs] at hdrain
  exact (requestUnlessPending_current h₁ .render _ env.written).trans
    (drainResponse_current_iff hdrain)

/-! ## Steps -/

/-- **When a drain leaves the flag right**: an answer to `render` that it reads says what the flag
is already. -/
def DrainAgrees (h : Host) (timeoutMs : ℤ) (env : Host.DrainEnv) : Prop :=
  match drainModal h timeoutMs env with
  | none => True
  | some (line, b) => isRenderResult h line = true → h.e.isModal = b

/-- A loop of drains, each from where the one before ends. -/
def DrainsAgree : List Host.DrainEnv → Host → Prop
  | [], _ => True
  | env :: envs, h => DrainAgrees h 0 env ∧
    match h.drainResponse 0 env with
    | some (true, h') => DrainsAgree envs h'
    | _ => True

/-- The pass of `nsr_plugins_on_key` is one for this plugin. -/
def Host.offers (h : Host) (ch : Int32) : Host.Pass → Bool
  | .modal => h.e.isModal
  | .reserved => h.e.reservesKey ch
  | .broadcast => true

/-- **When a step leaves the flag right**: it is a frame that agrees, or what it drains agrees. -/
def StepAgrees (h : Host) : Host.Action → Prop
  | .render _ env => (h.checkAlive env.exited).e.live = true → FrameAgrees h env
  | .renderHops _ env => (h.checkAlive env.exited).e.live = true → DrainAgrees h 5 env.drain
  | .onKeyDrain exited drains => (h.checkAlive exited).e.live = true → DrainsAgree drains h
  | .onKeyPass pass ch env =>
    (h.checkAlive env.exited).e.live = true → h.offers ch pass = true → DrainsAgree env.drains h
  | .drain timeoutMs env => DrainAgrees h timeoutMs env
  | .updateTelemetry _ _ => True
  | .modalActive _ => True

/-- A step that leaves the flag right. -/
def AgreeingStep (h h' : Host) : Prop :=
  ∃ a, StepAgrees h a ∧ Host.act a h = some h'

theorem AgreeingStep.step {h h' : Host} (hstep : AgreeingStep h h') : Host.Step h h' := by
  obtain ⟨a, -, ha⟩ := hstep
  exact ⟨a, ha⟩

theorem Current.drainResponse {h h' : Host} {timeoutMs : ℤ} {env : Host.DrainEnv} {b : Bool}
    (hc : Current h) (hagree : DrainAgrees h timeoutMs env)
    (hdrain : h.drainResponse timeoutMs env = some (b, h')) : Current h' := by
  have hiff : Current h' ↔ _ := drainResponse_current_iff (m := h.e.isModal) hdrain
  refine hiff.mpr ?_
  rw [DrainAgrees] at hagree
  cases hread : drainModal h timeoutMs env with
  | none => exact hc
  | some r =>
    rw [hread] at hagree
    exact hagree

theorem Current.drainAll {envs : List Host.DrainEnv} {h h' : Host} (hc : Current h)
    (hagree : DrainsAgree envs h) (hdrain : Host.drainAll envs h = some h') : Current h' := by
  induction envs generalizing h with
  | nil => cases hdrain
  | cons env envs ih =>
    obtain ⟨hfirst, hrest⟩ := hagree
    unfold Host.drainAll at hdrain
    split at hdrain
    · cases hdrain
    next h₁ hr =>
      rw [hr] at hrest
      exact ih (hc.drainResponse hfirst hr) hrest hdrain
    next h₁ hr =>
      obtain rfl := Option.some_inj.mp hdrain
      exact hc.drainResponse hfirst hr

theorem Current.tryOnKey {h h' : Host} {ev : KeyEvent} {reserved b : Bool} {env : Host.KeyEnv}
    (hc : Current h) (hagree : DrainsAgree env.drains h)
    (hr : h.tryOnKey ev reserved env = some (b, h')) : Current h' := by
  obtain ⟨h₁, hd, hpress⟩ := Option.map_eq_some_iff.mp hr
  have hiff := pressKey_current h₁ ev reserved env.t₁ env.t₂ env.written
  rw [hpress] at hiff
  exact hiff.mpr (hc.drainAll hagree hd)

theorem Current.onKeyPass {h h' : Host} {pass : Host.Pass} {ch : Int32} {env : Host.KeyEnv}
    {b : Bool} (hc : Current h) (hlive : h.e.live = true)
    (hagree : h.offers ch pass = true → DrainsAgree env.drains h)
    (hcheck : h.checkAlive env.exited = h)
    (hr : h.onKeyPass pass ch env = some (b, h')) : Current h' := by
  have hstay : ∀ {r : Bool × Host}, (false, h) = r → Current r.2 := by
    rintro r rfl
    exact hc
  unfold Host.onKeyPass at hr
  simp only [hcheck, hlive, Bool.not_true, Bool.false_eq_true, if_false] at hr
  cases pass with
  | modal =>
    dsimp only at hr
    split at hr
    next hoffer => exact hc.tryOnKey (hagree hoffer) hr
    · exact hstay (Option.some_inj.mp hr)
  | reserved =>
    dsimp only at hr
    split at hr
    next hoffer => exact hc.tryOnKey (hagree hoffer) hr
    · exact hstay (Option.some_inj.mp hr)
  | broadcast => exact hc.tryOnKey (hagree rfl) hr

/-- **A step that agrees leaves the flag right.** -/
theorem Current.agreeingStep {h h' : Host} (hs : Shown h) (hc : Current h)
    (hstep : AgreeingStep h h') : Current h' := by
  obtain ⟨a, hagree, ha⟩ := hstep
  -- an entry that is passed by only has been looked after
  have hpassed : ∀ exited, Current (h.checkAlive exited) :=
    fun exited => (checkAlive_current h exited).mpr hc
  cases a with
  | render view env =>
    cases hlive : (h.checkAlive env.exited).e.live with
    | true => exact (render_current_iff hs ha hlive).mpr (hagree hlive)
    | false =>
      rw [Host.act, Host.render] at ha
      simp only [hlive, Bool.not_false, if_true] at ha
      obtain rfl := Option.some_inj.mp ha
      exact hpassed env.exited
  | renderHops params env =>
    rw [Host.act, Host.renderHops] at ha
    cases hlive : (h.checkAlive env.exited).e.live with
    | true =>
      simp only [hlive, Bool.not_true, Bool.false_eq_true, if_false] at ha
      obtain ⟨⟨b, h₁⟩, hdrain, rfl⟩ := Option.map_eq_some_iff.mp ha
      rw [checkAlive_of_live hlive] at hdrain
      exact (requestUnlessPending_current h₁ .renderHops params env.written).mpr
        (hc.drainResponse (hagree hlive) hdrain)
    | false =>
      simp only [hlive, Bool.not_false, if_true] at ha
      obtain rfl := Option.some_inj.mp ha
      exact hpassed env.exited
  | updateTelemetry exited written =>
    obtain rfl := Option.some_inj.mp ha
    unfold Host.updateTelemetry
    dsimp only
    split
    · exact hpassed exited
    · exact hpassed exited
  | modalActive exited =>
    obtain rfl := Option.some_inj.mp ha
    exact hpassed exited
  | onKeyDrain exited drains =>
    obtain ⟨⟨b, h₁⟩, hr, rfl⟩ := Option.map_eq_some_iff.mp ha
    rw [Host.onKeyDrain] at hr
    cases hlive : (h.checkAlive exited).e.live with
    | true =>
      simp only [hlive, Bool.not_true, Bool.false_eq_true, if_false] at hr
      obtain ⟨h₂, hdrain, heq⟩ := Option.map_eq_some_iff.mp hr
      rw [checkAlive_of_live hlive] at hdrain
      have hc₂ := hc.drainAll (hagree hlive) hdrain
      split at heq
      · obtain ⟨-, rfl⟩ := Prod.mk.inj heq
        exact hc₂
      · obtain ⟨-, rfl⟩ := Prod.mk.inj heq
        exact hc₂
    | false =>
      simp only [hlive, Bool.not_false, if_true] at hr
      obtain ⟨-, rfl⟩ := Prod.mk.inj (Option.some_inj.mp hr)
      exact hpassed exited
  | onKeyPass pass ch env =>
    obtain ⟨⟨b, h₁⟩, hr, rfl⟩ := Option.map_eq_some_iff.mp ha
    cases hlive : (h.checkAlive env.exited).e.live with
    | true =>
      have hcheck := checkAlive_of_live hlive
      exact hc.onKeyPass (hcheck ▸ hlive) (hagree hlive) hcheck hr
    | false =>
      unfold Host.onKeyPass at hr
      simp only [hlive, Bool.not_false, if_true] at hr
      obtain ⟨-, rfl⟩ := Prod.mk.inj (Option.some_inj.mp hr)
      exact hpassed env.exited
  | drain timeoutMs env =>
    obtain ⟨⟨b, h₁⟩, hr, rfl⟩ := Option.map_eq_some_iff.mp ha
    exact hc.drainResponse hagree hr

/-! ## The interface -/

/-- A modal plugin that is live gets every key: the interface is as it was. -/
theorem update_of_modal {p : Program} {k : ℕ} {h : Host} {ch : Int32} {env : UpdateEnv}
    {r : ℤ × Program} (hk : p.reg[k]? = some h) (hlive : h.e.live = true)
    (hmodal : h.e.isModal = true) (hexited : env.modalExited k = false)
    (hu : p.update ch env = some r) : r = (0, { p with reg := r.2.reg }) := by
  unfold Program.update at hu
  split at hu
  · rw [← Option.some_inj.mp hu]
  split at hu
  · cases hu
  · obtain ⟨⟨b, reg⟩, -, rfl⟩ := Option.map_eq_some_iff.mp hu
    rfl
  next reg hno =>
    obtain ⟨h', hr, -⟩ := Scan.first_no hno hk
    rw [hexited, Host.checkAlive_false] at hr
    simp [hlive, hmodal] at hr

/-- The interface keeps its hands off a plugin that is modal: whatever key comes, while the plugin
runs, the key does nothing but go to the plugins. -/
def KeysPassed (h : Host) : Prop :=
  ∀ (p : Program) (k : ℕ) (ch : Int32) (env : UpdateEnv) (r : ℤ × Program), p.reg[k]? = some h →
    h.e.live = true → env.modalExited k = false → p.update ch env = some r →
    r = (0, { p with reg := r.2.reg })

/-- **The modal flag is what was announced last, frame by frame, exactly when the frame agrees.**
Over every run: after a frame of a live plugin the flag is what the plugin announced last, if and
only if what is kept of its answers to `render` says so when the frame starts and a newer answer
that the frame reads repeats it.  From such a frame on the flag stays right through all steps that
agree, and while the plugin's last word is that it is modal, every key goes to the plugins. -/
theorem modal_last_writer_iff {h₀ h h₁ : Host} {view : RenderView} {env : Host.FrameEnv}
    (hs : h₀.Spawned) (hr : Reachable Host.Step h₀ h) (hrender : h.render view env = some h₁)
    (hlive : (h.checkAlive env.exited).e.live = true) :
    (Current h₁ ↔ FrameAgrees h env) ∧
      (FrameAgrees h env → ∀ h₂, Reachable AgreeingStep h₁ h₂ →
        Current h₂ ∧ (lastModal h₂.log = some true → KeysPassed h₂)) := by
  have hshown := shown_of_reachable hs hr
  have hiff := render_current_iff hshown hrender hlive
  refine ⟨hiff, fun hagree h₂ hrun => ?_⟩
  have hframe : Host.Step h h₁ := ⟨.render view env, hrender⟩
  have hboth : Shown h₂ ∧ Current h₂ := by
    refine hrun.invariant (P := fun h => Shown h ∧ Current h)
      ⟨hshown.step hframe, hiff.mpr hagree⟩ fun s t _ ih hst => ?_
    exact ⟨ih.1.step hst.step, ih.2.agreeingStep ih.1 hst⟩
  refine ⟨hboth.2, fun hlast p k ch uenv r hk hlive' hexited hu => ?_⟩
  have hmodal : h₂.e.isModal = true := by
    have hcurrent : h₂.e.isModal = (lastModal h₂.log).getD false := hboth.2
    rw [hcurrent, hlast, Option.getD_some]
  exact update_of_modal hk hlive' hmodal hexited hu

/-- A plugin's answer that says whether it has handled a key and whether it is modal. -/
def modalReply (id : Int64) (handled isModal : Bool) : Bytes :=
  render (.obj [(cs "id", .int id),
    (cs "result", .obj [(cs "handled", .bool handled), (cs "is_modal", .bool isModal)])])

/-- The normal view, without a focused node. -/
def RenderView.plain : RenderView :=
  ⟨.normal, 20, 38, 0, cs ""⟩

/-- A plugin answers `render` and is modal; the answer is kept for the next frame, and in that one
`q` goes to the plugin. -/
theorem modal_last_writer_iff_render :
    ∃ h h₁ : Host, ∃ r : ℤ × Program,
      Reachable Host.Step (Host.spawned (cs "viewer")) h ∧
      h.render .plain .silent = some h₁ ∧ lastModal h₁.log = some true ∧ Current h₁ ∧
      (Program.start [h₁]).update (keyOf 'q') (.quiet (cs "")) = some r ∧
      r = (0, { Program.start [h₁] with reg := r.2.reg }) := by
  have hrun : (exec Host.act [.render .plain .silent,
      .render .plain (.reads (modalReply 2 false true))] (Host.spawned (cs "viewer"))).map (fun h =>
        ((h.checkAlive false).e.live && (drainModal h 5 .silent).isNone && keptModal h.log,
          lastModal h.log, (h.render .plain .silent).map fun h₁ => (h₁.e.live, lastModal h₁.log,
            ((Program.start [h₁]).update (keyOf 'q') (.quiet (cs ""))).isSome))) =
      some (true, some true, some (true, some true, true)) := by
    decide +kernel
  obtain ⟨h, hr, hobs⟩ := Reachable.exists_of_exec Host.Step hrun fun a _ s t ha => ⟨a, ha⟩
  simp only [Prod.mk.injEq, Bool.and_eq_true, Option.isNone_iff_eq_none] at hobs
  obtain ⟨⟨⟨hlive, hread⟩, hkept⟩, hlast, hframe⟩ := hobs
  obtain ⟨h₁, hrender, hobs₁⟩ := Option.map_eq_some_iff.mp hframe
  simp only [Prod.mk.injEq] at hobs₁
  obtain ⟨hlive₁, hlast₁, hupdate⟩ := hobs₁
  obtain ⟨r, hu⟩ := Option.isSome_iff_exists.mp hupdate
  have hagree : FrameAgrees h .silent := by
    have hnone : drainModal h 5 Host.FrameEnv.silent.drain = none := hread
    rw [FrameAgrees, hnone, hlast]
    exact hkept
  obtain ⟨hcurrent, hpassed⟩ :=
    (modal_last_writer_iff (Host.spawned_spawned _) hr hrender hlive).2 hagree h₁ .refl
  exact ⟨h, h₁, r, hr, hrender, hlast₁, hcurrent, hu,
    hpassed hlast₁ (Program.start [h₁]) 0 (keyOf 'q') (.quiet (cs "")) r rfl hlive₁ rfl hu⟩

/-- **A modal plugin loses its keys.**  A key is passed to the plugin, which handles it and says in
the answer that it is modal; a frame reads the answer, and sets the flag.  The next frame reads
nothing and clears the flag, since the cached response is gone: `q` ends the program. -/
theorem modal_flag_cleared :
    ∃ h : Host, ∃ r : ℤ × Program, Reachable Host.Step (Host.spawned (cs "viewer")) h ∧
      h.e.live = true ∧ lastModal h.log = some true ∧ h.e.isModal = false ∧ ¬Current h ∧
      (Program.start [h]).update (keyOf 'q') (.quiet (cs "")) = some r ∧ r.1 = 1 := by
  have hrun : (exec Host.act [
      .onKeyPass .broadcast (keyOf 'x') ⟨false, [.silent], 1000, 1000, true⟩,
      .render .plain (.reads (modalReply 2 true true)), .render .plain .silent]
      (Host.spawned (cs "viewer"))).map (fun h => (h.e.live, lastModal h.log, h.e.isModal,
        ((Program.start [h]).update (keyOf 'q') (.quiet (cs ""))).map Prod.fst)) =
      some (true, some true, false, some 1) := by
    decide +kernel
  obtain ⟨h, hr, hobs⟩ := Reachable.exists_of_exec Host.Step hrun fun a _ s t ha => ⟨a, ha⟩
  simp only [Prod.mk.injEq] at hobs
  obtain ⟨hlive, hlast, hmodal, hupdate⟩ := hobs
  obtain ⟨r, hu, hret⟩ := Option.map_eq_some_iff.mp hupdate
  refine ⟨h, r, hr, hlive, hlast, hmodal, fun hcurrent => ?_, hu, hret⟩
  rw [Current, hlast, hmodal] at hcurrent
  cases hcurrent

end Nsr
