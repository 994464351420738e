import Nsr.Plugin.Protocol

/-!
# What the parts of an operation can do

To an entry and its history, the parts of an operation (`Host.Parts`) do one of two things.  The
host speaks: requests are made, a key is queued, and nothing of what the plugin has said changes.
Or the host listens: a line comes in, is taken for an answer or a `force_sync`, and the flags that
say whether the plugin runs stay.

* `Same`: what both leave alone, and `same_parts`.
* `Spoke`: `sendNextKey_spoke`, `requestUnlessPending_spoke`, `pressKey_spoke`.
* `Heard`: `take_heard`.
-/

namespace Nsr.Host

/-- **What the conversation with a plugin leaves alone.** -/
structure Same (h h' : Host) : Prop where
  enabled : h'.e.enabled = h.e.enabled
  initialized : h'.e.initialized = h.e.initialized
  reservedKeys : h'.e.reservedKeys = h.e.reservedKeys
  pid : h'.e.rpc.pid = h.e.rpc.pid

theorem Same.refl (h : Host) : Same h h :=
  ⟨rfl, rfl, rfl, rfl⟩

theorem Same.trans {h h' h'' : Host} (h₁ : Same h h') (h₂ : Same h' h'') : Same h h'' :=
  ⟨h₂.enabled.trans h₁.enabled, h₂.initialized.trans h₁.initialized,
    h₂.reservedKeys.trans h₁.reservedKeys, h₂.pid.trans h₁.pid⟩

/-! ## Speaking -/

/-- The event is a request such as `asks` allows. -/
def IsSent (asks : Method → Bytes → Prop) (ev : Event) : Prop :=
  ∃ m params id written, asks m params ∧ ev = .sent m id (buildRequest m.name params id) written

/-- A request that passes on a key. -/
def keyed (m : Method) (_ : Bytes) : Prop := m = .onKey

/-- **The host has spoken**: the history has grown by `new`. -/
structure Spoke (h h' : Host) (new : List Event) : Prop extends Same h h' where
  lastResp : h'.e.lastResp = h.e.lastResp
  isModal : h'.e.isModal = h.e.isModal
  log : h'.log = h.log ++ new

theorem Spoke.silent {h h' : Host} (hsame : Same h h') (hlast : h'.e.lastResp = h.e.lastResp)
    (hmodal : h'.e.isModal = h.e.isModal) (hlog : h'.log = h.log) : Spoke h h' [] :=
  ⟨hsame, hlast, hmodal, by rw [hlog, List.append_nil]⟩

theorem Spoke.trans {h h' h'' : Host} {new new' : List Event} (h₁ : Spoke h h' new)
    (h₂ : Spoke h' h'' new') : Spoke h h'' (new ++ new') :=
  ⟨h₁.toSame.trans h₂.toSame, h₂.lastResp.trans h₁.lastResp, h₂.isModal.trans h₁.isModal, by
    rw [h₂.log, h₁.log, List.append_assoc]⟩

/-- What is silent may come before. -/
theorem Spoke.after_silent {h h' h'' : Host} {new : List Event} (h₂ : Spoke h' h'' new)
    (h₁ : Spoke h h' []) : Spoke h h'' new :=
  h₁.trans h₂

/-- What is silent may come after. -/
theorem Spoke.then_silent {h h' h'' : Host} {new : List Event} (h₁ : Spoke h h' new)
    (h₂ : Spoke h' h'' []) : Spoke h h'' new := by
  have hspoke := h₁.trans h₂
  rw [List.append_nil] at hspoke
  exact hspoke

/-- A request speaks, and leaves `dead` of the entry to its caller. -/
theorem request_spoke (h : Host) (m : Method) (params : Bytes) (written : Bool) :
    ∃ new, Spoke h (h.request m params written).2.2 new ∧
      (∀ ev ∈ new, IsSent (fun m' params' => m' = m ∧ params' = params) ev) ∧
      (h.request m params written).2.2.e.dead = h.e.dead := by
  by_cases hd : h.e.rpc.dead ∨ h.e.rpc.inFd < 0
  · rw [request_dead hd]
    exact ⟨[], .silent (.refl h) rfl rfl rfl, by simp, rfl⟩
  · have hpid : (sendRequest h.e.rpc written).rpc.pid = h.e.rpc.pid := by
      rw [sendRequest, if_neg hd]
      dsimp only
      rw [rpcSend, if_neg hd]
      cases written <;> rfl
    rw [request_live hd]
    refine ⟨_, ⟨⟨rfl, rfl, rfl, hpid⟩, rfl, rfl, rfl⟩, fun ev hev => ?_, rfl⟩
    exact ⟨m, params, _, written, ⟨rfl, rfl⟩, List.mem_singleton.mp hev⟩

/-- `plugin_send_next_key`; a line that can be written leaves the plugin alive. -/
theorem sendNextKey_spoke (h : Host) (written : Bool) :
    ∃ new, Spoke h (h.sendNextKey written) new ∧ (∀ ev ∈ new, IsSent keyed ev) ∧
      (written = true → (h.sendNextKey written).e.dead = h.e.dead) := by
  have hquiet : ∃ new, Spoke h h new ∧ (∀ ev ∈ new, IsSent keyed ev) ∧
      (written = true → h.e.dead = h.e.dead) :=
    ⟨[], .silent (.refl h) rfl rfl rfl, by simp, fun _ => rfl⟩
  unfold sendNextKey
  split
  · exact hquiet
  next hguard =>
  have hdeq : Spoke h ⟨h.e.keyQueueDequeue.2, h.log⟩ [] ∧
      h.e.keyQueueDequeue.2.dead = h.e.dead ∧ h.e.keyQueueDequeue.2.rpc = h.e.rpc := by
    unfold Entry.keyQueueDequeue
    split <;> exact ⟨.silent ⟨rfl, rfl, rfl, rfl⟩ rfl rfl rfl, rfl, rfl⟩
  split
  · exact hquiet
  next ev e hev =>
    rw [hev] at hdeq
    obtain ⟨hdeq, hdead, hrpc⟩ := hdeq
    obtain ⟨new, hreq, hsent, hdead'⟩ := request_spoke ⟨e, h.log⟩ .onKey (buildKeyParams ev) written
    have hspoke := hdeq.trans hreq
    have hkeyed : ∀ ev ∈ new, IsSent keyed ev := by
      intro x hx
      obtain ⟨m, params, id, w, ⟨hm, -⟩, rfl⟩ := hsent x hx
      exact ⟨m, params, id, w, hm, rfl⟩
    split
    next hr =>
      rw [hr] at hspoke hdead'
      exact ⟨_, hspoke.then_silent (.silent ⟨rfl, rfl, rfl, rfl⟩ rfl rfl rfl), hkeyed,
        fun _ => hdead'.trans hdead⟩
    next hr =>
      -- the line could not be written
      have hlive : ¬(e.rpc.dead ∨ e.rpc.inFd < 0) := by
        rw [hrpc]
        exact fun hd => hguard (.inr hd)
      have hw : written = false := by
        rw [request_live (h := ⟨e, h.log⟩) hlive] at hr
        exact (Prod.mk.inj hr).1
      rw [hr] at hspoke
      refine ⟨_, hspoke.then_silent (.silent ⟨rfl, rfl, rfl, rfl⟩ rfl rfl rfl), hkeyed,
        fun htrue => ?_⟩
      rw [hw] at htrue
      cases htrue

theorem requestUnlessPending_spoke (h : Host) (m : Method) (params : Bytes) (written : Bool) :
    ∃ new, Spoke h (h.requestUnlessPending m params written) new ∧
      ∀ ev ∈ new, IsSent (fun m' params' => m' = m ∧ params' = params) ev := by
  unfold requestUnlessPending
  split
  · exact ⟨[], .silent (.refl h) rfl rfl rfl, by simp⟩
  · obtain ⟨new, hreq, hsent, -⟩ := request_spoke h m params written
    refine ⟨new, ?_, hsent⟩
    dsimp only
    split
    · exact hreq.then_silent (.silent ⟨rfl, rfl, rfl, rfl⟩ rfl rfl rfl)
    · exact hreq.then_silent (.silent ⟨rfl, rfl, rfl, rfl⟩ rfl rfl rfl)

/-- A key is queued: the queue is all that changes before the next key is sent. -/
theorem enqueueKey_spoke (h : Host) (ev : KeyEvent) (written : Bool) :
    ∃ new, Spoke h (h.enqueueKey ev written) (.passed ev :: new) ∧ ∀ ev ∈ new, IsSent keyed ev := by
  have henq : ∀ e : Entry, Spoke ⟨e, h.log⟩ ⟨(e.keyQueueEnqueue ev).2, h.log⟩ [] := by
    intro e
    unfold Entry.keyQueueEnqueue
    split <;> exact .silent ⟨rfl, rfl, rfl, rfl⟩ rfl rfl rfl
  have hdeq : ∀ e : Entry, Spoke ⟨e, h.log⟩ ⟨e.keyQueueDequeue.2, h.log⟩ [] := by
    intro e
    unfold Entry.keyQueueDequeue
    split <;> exact .silent ⟨rfl, rfl, rfl, rfl⟩ rfl rfl rfl
  rw [enqueueKey]
  set e := if (h.e.keyQueueEnqueue ev).1 then (h.e.keyQueueEnqueue ev).2
    else ((h.e.keyQueueEnqueue ev).2.keyQueueDequeue.2.keyQueueEnqueue ev).2 with he
  have hqueued : Spoke h ⟨e, h.log⟩ [] := by
    rw [he]
    split
    · exact henq h.e
    · exact ((henq h.e).trans (hdeq _)).trans (henq _)
  have hpassed : Spoke h ⟨e, h.log ++ [.passed ev]⟩ [.passed ev] :=
    hqueued.trans ⟨⟨rfl, rfl, rfl, rfl⟩, rfl, rfl, rfl⟩
  obtain ⟨new, hnext, hsent, -⟩ := sendNextKey_spoke ⟨e, h.log ++ [.passed ev]⟩ written
  exact ⟨new, hpassed.trans hnext, hsent⟩

/-- `plugin_try_on_key` behind its loop of drains: the key counts as passed, and requests may
follow. -/
theorem pressKey_spoke (h : Host) (ev : KeyEvent) (reserved : Bool) (t₁ t₂ : ℤ) (written : Bool) :
    ∃ new, Spoke h (h.pressKey ev reserved t₁ t₂ written).2 (.passed ev :: new) ∧
      ∀ ev ∈ new, IsSent keyed ev := by
  have hrefuse : ∀ h : Host, ∃ new, Spoke h (h.refuseKey ev) (.passed ev :: new) ∧
      ∀ ev ∈ new, IsSent keyed ev := fun h =>
    ⟨[], ⟨⟨rfl, rfl, rfl, rfl⟩, rfl, rfl, rfl⟩, by simp⟩
  have hcoalesce : ∀ h : Host, ∃ new, Spoke h (h.coalesceKey ev t₂ written) (.passed ev :: new) ∧
      ∀ ev ∈ new, IsSent keyed ev := by
    intro h
    unfold coalesceKey
    split
    · exact hrefuse h
    · obtain ⟨new, hq, hsent⟩ :=
        enqueueKey_spoke { h with e := { h.e with lastKeyCh := ev.ch, lastKeyMs := t₂ } } ev written
      exact ⟨new, hq.after_silent (.silent ⟨rfl, rfl, rfl, rfl⟩ rfl rfl rfl), hsent⟩
  unfold pressKey
  split
  · split
    · exact hrefuse h
    · obtain ⟨new, hq, hsent⟩ := hcoalesce { h with e := { h.e with lastOnKeyMs := t₁ } }
      exact ⟨new, hq.after_silent (.silent ⟨rfl, rfl, rfl, rfl⟩ rfl rfl rfl), hsent⟩
  · exact hcoalesce h

/-! ## Listening -/

/-- **The host has listened**: the history has grown by `new`, and the plugin runs if it did. -/
structure Heard (h h' : Host) (new : List Event) : Prop extends Same h h' where
  dead : h'.e.dead = h.e.dead
  log : h'.log = h.log ++ new

theorem Heard.trans {h h' h'' : Host} {new new' : List Event} (h₁ : Heard h h' new)
    (h₂ : Heard h' h'' new') : Heard h h'' (new ++ new') :=
  ⟨h₁.toSame.trans h₂.toSame, h₂.dead.trans h₁.dead, by
    rw [h₂.log, h₁.log, List.append_assoc]⟩

/-- The event says what became of a line. -/
def IsTaken (ev : Event) : Prop :=
  ev = .forceSync ∨ ∃ m line, ev = .answered m line

theorem forceSync_heard (h : Host) (discard : List DiscardRound) (modal : Option Bool) :
    Heard h ((h.forceSync discard).setModal modal) [.forceSync] := by
  obtain ⟨dead, hdead⟩ := discardQueued_shape h.e.rpc discard
  refine ⟨⟨rfl, rfl, rfl, ?_⟩, rfl, rfl⟩
  simp only [forceSync, setModal, hdead]

theorem handleOnKeyResult_heard (h : Host) (result : Bytes) (discard : List DiscardRound) :
    ∃ new, Heard h (h.handleOnKeyResult result discard).2 new ∧ ∀ ev ∈ new, IsTaken ev := by
  have hquiet : ∀ {h' : Host}, Same h h' → h'.e.dead = h.e.dead → h'.log = h.log →
      ∃ new, Heard h h' new ∧ ∀ ev ∈ new, IsTaken ev := fun hsame hdead hlog =>
    ⟨[], ⟨hsame, hdead, by rw [hlog, List.append_nil]⟩, by simp⟩
  unfold handleOnKeyResult
  split
  next h' hf =>
    unfold resultRequestsForceSync at hf
    split at hf
    · cases hf
    · obtain rfl := Option.some_inj.mp hf
      exact ⟨_, forceSync_heard h discard _, by simp [IsTaken]⟩
  dsimp only
  split
  · split
    · exact hquiet ⟨rfl, rfl, rfl, rfl⟩ rfl rfl
    · exact hquiet ⟨rfl, rfl, rfl, rfl⟩ rfl rfl
  · split
    · exact hquiet ⟨rfl, rfl, rfl, rfl⟩ rfl rfl
    · exact hquiet ⟨rfl, rfl, rfl, rfl⟩ rfl rfl

/-- **A line that comes in** is taken for an answer or a `force_sync`, or for nothing. -/
theorem take_heard (h : Host) (line : Bytes) (discard : List DiscardRound) :
    ∃ new, Heard h (h.take line discard) (.received line :: new) ∧ ∀ ev ∈ new, IsTaken ev := by
  set h₁ : Host := ⟨h.e, h.log ++ [.received line]⟩ with hh₁
  have hreceived : Heard h h₁ [.received line] := ⟨⟨rfl, rfl, rfl, rfl⟩, rfl, rfl⟩
  have hanswer : ∀ m, Heard h₁ (h₁.answer m line) [.answered m line] := fun m =>
    ⟨⟨rfl, rfl, rfl, rfl⟩, rfl, rfl⟩
  have htaken : ∀ m, ∀ ev ∈ [Event.answered m line], IsTaken ev := fun m ev hev =>
    .inr ⟨m, line, List.mem_singleton.mp hev⟩
  rw [Host.take, ← hh₁, route]
  split
  next h' hf =>
    unfold handleForceSync at hf
    split at hf
    · cases hf
    · obtain rfl := Option.some_inj.mp hf
      exact ⟨[.forceSync], hreceived.trans (forceSync_heard h₁ discard _), by simp [IsTaken]⟩
  split
  · exact ⟨_, hreceived.trans ⟨⟨rfl, rfl, rfl, rfl⟩, rfl, rfl⟩, htaken .render⟩
  split
  · exact ⟨_, hreceived.trans ⟨⟨rfl, rfl, rfl, rfl⟩, rfl, rfl⟩, htaken .renderHops⟩
  split
  · dsimp only
    split
    · exact ⟨_, hreceived.trans (hanswer .onKey), htaken .onKey⟩
    · obtain ⟨new, hheard, hnew⟩ := handleOnKeyResult_heard (h₁.answer .onKey line) _ discard
      refine ⟨.answered .onKey line :: new, hreceived.trans ((hanswer .onKey).trans hheard), ?_⟩
      exact List.forall_mem_cons.mpr ⟨.inr ⟨_, _, rfl⟩, hnew⟩
  · exact ⟨[], hreceived, by simp⟩

/-! ## What both leave alone -/

theorem same_parts : Parts drawn Same where
  refl := Same.refl
  trans := Same.trans
  read := fun _ _ _ => ⟨rfl, rfl, rfl, rfl⟩
  take := fun h line discard =>
    have ⟨_, hheard, _⟩ := take_heard h line discard
    hheard.toSame
  nextKey := fun h written _ =>
    have ⟨_, hspoke, _⟩ := sendNextKey_spoke h written
    hspoke.toSame
  request := fun h m params written _ =>
    have ⟨_, hspoke, _⟩ := requestUnlessPending_spoke h m params written
    hspoke.toSame
  modal := fun _ _ => ⟨rfl, rfl, rfl, rfl⟩
  editor := fun _ => ⟨rfl, rfl, rfl, rfl⟩
  press := fun h ev reserved t₁ t₂ written =>
    have ⟨_, hspoke, _⟩ := pressKey_spoke h ev reserved t₁ t₂ written
    hspoke.toSame

end Nsr.Host
