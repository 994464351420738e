import Nsr.Plugin.Parts
import Nsr.Lib.CyclicBuffer

/-!
# The host as a protocol

What an operation of the host can do to its conversation with a plugin, said once.  `Core` keeps of
an entry what the conversation consists of --- the counter, the pending requests, the cached
responses, the queued keys and the history --- and `Core.Move` lists the few things that can happen
to it.  `act_runs` shows that every operation is a sequence of moves; what is true of every
sequence of moves is then true of the host.

The key queue of an entry is a cyclic array with a head and a count.  `QueueOk` is its invariant,
`queueList` the keys it holds.
-/

namespace Nsr

/-! ## The key queue -/

/-- **The bounds of the key queue.** -/
def QueueOk (e : Entry) : Prop :=
  (0 ≤ e.keyQueueHead ∧ e.keyQueueHead < pluginKeyQueue) ∧
    0 ≤ e.keyQueueCount ∧ e.keyQueueCount ≤ pluginKeyQueue

/-- The cell of a position of the key queue. -/
def keySlot (i : ℕ) : ℕ := i % pluginKeyQueue

/-- **The queued keys**, oldest first. -/
def queueList (e : Entry) : List KeyEvent :=
  CyclicBuffer.segment keySlot e.keyQueue e.keyQueueHead.toNat e.keyQueueCount.toNat

theorem keySlot_windowInjective : CyclicBuffer.WindowInjective keySlot pluginKeyQueue := by
  intro i j hij hji
  simp only [keySlot, pluginKeyQueue] at hji ⊢
  omega

/-- The window from a position depends on the position's cell only. -/
theorem segment_keySlot_mod (q : ℕ → KeyEvent) (a n : ℕ) :
    CyclicBuffer.segment keySlot q (a % pluginKeyQueue) n = CyclicBuffer.segment keySlot q a n := by
  refine List.map_congr_left fun i _ => ?_
  simp only [keySlot, Nat.mod_add_mod]

theorem queueList_reset (e : Entry) : queueList e.keyQueueReset = [] := rfl

theorem queueOk_reset (e : Entry) : QueueOk e.keyQueueReset :=
  ⟨⟨le_refl 0, show (0 : ℤ) < pluginKeyQueue by decide⟩, le_refl 0,
    show (0 : ℤ) ≤ pluginKeyQueue by decide⟩

theorem length_queueList (e : Entry) : (queueList e).length = e.keyQueueCount.toNat :=
  CyclicBuffer.length_segment _ _

/-- Taking a key: the oldest one leaves the queue. -/
theorem dequeue_spec {e : Entry} (h : QueueOk e) (hpos : 0 < e.keyQueueCount) :
    ∃ ev q, queueList e = ev :: q ∧ e.keyQueueDequeue.1 = some ev ∧
      QueueOk e.keyQueueDequeue.2 ∧ queueList e.keyQueueDequeue.2 = q := by
  obtain ⟨⟨hh, hh'⟩, hc, hc'⟩ := h
  have hdeq : e.keyQueueDequeue = (some (e.keyQueue e.keyQueueHead.toNat), { e with
      keyQueueHead := (e.keyQueueHead + 1).tmod pluginKeyQueue
      keyQueueCount := e.keyQueueCount - 1 }) := by
    rw [Entry.keyQueueDequeue, if_neg (by omega)]
  have hcount : e.keyQueueCount.toNat = 1 + (e.keyQueueCount - 1).toNat := by omega
  have hslot : keySlot e.keyQueueHead.toNat = e.keyQueueHead.toNat := by
    rw [keySlot, Nat.mod_eq_of_lt (by omega)]
  have hmod : (e.keyQueueHead + 1).tmod (pluginKeyQueue : ℤ) =
      ((e.keyQueueHead.toNat + 1) % pluginKeyQueue : ℕ) := by
    rw [Int.tmod_eq_emod_of_nonneg (by omega)]
    simp only [pluginKeyQueue]
    omega
  refine ⟨e.keyQueue e.keyQueueHead.toNat,
    CyclicBuffer.segment keySlot e.keyQueue (e.keyQueueHead.toNat + 1)
      (e.keyQueueCount - 1).toNat, ?_, ?_, ?_, ?_⟩
  · rw [queueList, hcount, CyclicBuffer.segment_add, CyclicBuffer.segment_succ,
      CyclicBuffer.segment_zero, Nat.add_zero, hslot]
    rfl
  · rw [hdeq]
  · have hlt : (e.keyQueueHead.toNat + 1) % pluginKeyQueue < pluginKeyQueue :=
      Nat.mod_lt _ (by decide)
    rw [hdeq]
    simp only [QueueOk, hmod]
    omega
  · rw [hdeq]
    simp only [queueList, hmod, Int.toNat_natCast]
    exact segment_keySlot_mod _ _ _

/-- Adding a key where there is room: it becomes the newest. -/
theorem enqueue_spec {e : Entry} (h : QueueOk e) (hroom : e.keyQueueCount < pluginKeyQueue)
    (ev : KeyEvent) :
    (e.keyQueueEnqueue ev).1 = true ∧ QueueOk (e.keyQueueEnqueue ev).2 ∧
      queueList (e.keyQueueEnqueue ev).2 = queueList e ++ [ev] := by
  obtain ⟨⟨hh, hh'⟩, hc, hc'⟩ := h
  have henq : e.keyQueueEnqueue ev = (true, { e with
      keyQueue := Function.update e.keyQueue
        ((e.keyQueueHead + e.keyQueueCount).tmod pluginKeyQueue).toNat ev
      keyQueueCount := e.keyQueueCount + 1 }) := by
    rw [Entry.keyQueueEnqueue, if_neg (by omega)]
  have hidx : ((e.keyQueueHead + e.keyQueueCount).tmod (pluginKeyQueue : ℤ)).toNat =
      keySlot (e.keyQueueHead.toNat + e.keyQueueCount.toNat) := by
    rw [Int.tmod_eq_emod_of_nonneg (by omega)]
    simp only [keySlot, pluginKeyQueue]
    omega
  have hcount : (e.keyQueueCount + 1).toNat = e.keyQueueCount.toNat + 1 := by omega
  rw [henq]
  refine ⟨rfl, ?_, ?_⟩
  · simp only [QueueOk]
    omega
  · simp only [queueList, hidx, hcount]
    exact CyclicBuffer.segment_update_succ keySlot_windowInjective (by omega)

theorem enqueue_full {e : Entry} (h : ¬e.keyQueueCount < pluginKeyQueue) (ev : KeyEvent) :
    e.keyQueueEnqueue ev = (false, e) := by
  rw [Entry.keyQueueEnqueue, if_pos (by omega)]

/-! ## The conversation -/

/-- **The conversation with a plugin.** -/
@[ext]
structure Core where
  nextId : ℤ
  pending : Method → Option ℤ
  cached : Method → Bytes
  queue : List KeyEvent
  log : List Event

namespace Core

/-- A request that took the next number. -/
def numbered (c : Core) (m : Method) (line : Bytes) (written : Bool) : Core :=
  { c with
    nextId := wrap32 (c.nextId + 1)
    pending := if written then Function.update c.pending m (some c.nextId) else c.pending
    log := c.log ++ [.sent m c.nextId line written] }

/-- **What can happen to the conversation.** -/
inductive Move : Core → Core → Prop where
  /-- A line comes in. -/
  | receive (c : Core) (line : Bytes) : Move c { c with log := c.log ++ [.received line] }
  /-- The cached response of a method is dropped. -/
  | forget (c : Core) (m : Method) : Move c { c with cached := Function.update c.cached m [] }
  /-- A request other than `on_key` is sent; none of the method is pending. -/
  | send (c : Core) (m : Method) (params : Bytes) (written : Bool) (hm : m ≠ .onKey)
      (hfree : c.pending m = none) :
      Move c (c.numbered m (buildRequest m.name params c.nextId) written)
  /-- The oldest key is sent; no `on_key` is pending. -/
  | sendKey (c : Core) (ev : KeyEvent) (q : List KeyEvent) (written : Bool)
      (hqueue : c.queue = ev :: q) (hfree : c.pending .onKey = none) :
      Move c { c.numbered .onKey
        (buildRequest Method.onKey.name (Host.buildKeyParams ev) c.nextId) written with queue := q }
  /-- A line answers the pending request of a method, and becomes the cached response of the
  methods that have one. -/
  | answer (c : Core) (m : Method) (line : Bytes) (hpend : c.pending m = some (lineId line)) :
      Move c { c with
        pending := Function.update c.pending m none
        cached := if m = .onKey then c.cached else Function.update c.cached m line
        log := c.log ++ [.answered m line] }
  /-- Everything is forgotten. -/
  | forceSync (c : Core) :
      Move c ⟨c.nextId, fun _ => none, fun _ => [], [], c.log ++ [.forceSync]⟩
  /-- A key is passed and not queued. -/
  | refuse (c : Core) (ev : KeyEvent) : Move c { c with log := c.log ++ [.passed ev] }
  /-- A key is passed and queued, possibly at the cost of older ones. -/
  | accept (c : Core) (ev : KeyEvent) (q : List KeyEvent) (hq : q.Sublist c.queue) :
      Move c { c with queue := q ++ [ev], log := c.log ++ [.passed ev] }

/-- Any number of moves. -/
abbrev Moves : Core → Core → Prop := Relation.ReflTransGen Move

end Core

/-- The pending request of a method. -/
def Entry.pendingOf (e : Entry) (m : Method) : Option ℤ :=
  if e.pending m then some (e.pendingId m) else none

/-- The conversation of a host. -/
def Host.core (h : Host) : Core :=
  ⟨h.e.rpc.nextId, h.e.pendingOf, h.e.lastResp, queueList h.e, h.log⟩

open Nsr.Core

/-- **One host state follows from another by moves**, and the bounds of the queue are kept. -/
def Runs (h h' : Host) : Prop :=
  QueueOk h.e → QueueOk h'.e ∧ Moves h.core h'.core

namespace Runs

variable {h h' h'' : Host}

theorem refl (h : Host) : Runs h h :=
  fun hq => ⟨hq, .refl⟩

theorem trans (h₁ : Runs h h') (h₂ : Runs h' h'') : Runs h h'' := fun hq =>
  ⟨(h₂ (h₁ hq).1).1, (h₁ hq).2.trans (h₂ (h₁ hq).1).2⟩

/-- What the conversation does not show. -/
theorem quiet (hq : QueueOk h.e → QueueOk h'.e) (hcore : h'.core = h.core) : Runs h h' :=
  fun hok => ⟨hq hok, hcore ▸ .refl⟩

theorem after_quiet (h₂ : Runs h' h'') (hq : QueueOk h.e → QueueOk h'.e)
    (hcore : h'.core = h.core) : Runs h h'' :=
  (quiet hq hcore).trans h₂

theorem single (hq : QueueOk h.e → QueueOk h'.e) (hmove : Move h.core h'.core) : Runs h h' :=
  fun hok => ⟨hq hok, .single hmove⟩

end Runs

/-! ## Sending -/

theorem pendingOf_update_true (e : Entry) (m : Method) (id : ℤ) :
    ({ e with
        pending := Function.update e.pending m true
        pendingId := Function.update e.pendingId m id } : Entry).pendingOf =
      Function.update e.pendingOf m (some id) := by
  funext m'
  by_cases hm : m' = m
  · subst hm
    simp [Entry.pendingOf]
  · simp [Entry.pendingOf, hm]

theorem pendingOf_update_false (e : Entry) (m : Method) :
    ({ e with pending := Function.update e.pending m false } : Entry).pendingOf =
      Function.update e.pendingOf m none := by
  funext m'
  by_cases hm : m' = m
  · subst hm
    simp [Entry.pendingOf]
  · simp [Entry.pendingOf, hm]

/-- The number of a method that is not pending does not count. -/
theorem pendingOf_update_id {e : Entry} {m : Method} (hfree : e.pending m = false) (id : ℤ) :
    ({ e with pendingId := Function.update e.pendingId m id } : Entry).pendingOf =
      e.pendingOf := by
  funext m'
  by_cases hm : m' = m
  · subst hm
    simp [Entry.pendingOf, hfree]
  · simp [Entry.pendingOf, hm]

/-- A request on a live connection takes the next number, whether it can be written or not. -/
theorem sendRequest_live {rpc : Rpc} (h : ¬(rpc.dead ∨ rpc.inFd < 0)) (written : Bool) :
    (sendRequest rpc written).ok = written ∧ (sendRequest rpc written).id = some rpc.nextId ∧
      (sendRequest rpc written).rpc.nextId = wrap32 (rpc.nextId + 1) := by
  rw [sendRequest, if_neg h]
  dsimp only
  rw [rpcSend, if_neg h]
  cases written <;> exact ⟨rfl, rfl, rfl⟩

theorem sendRequest_dead {rpc : Rpc} (h : rpc.dead ∨ rpc.inFd < 0) (written : Bool) :
    sendRequest rpc written = ⟨false, none, rpc⟩ := by
  rw [sendRequest, if_pos h]

theorem request_live {h : Host} (hl : ¬(h.e.rpc.dead ∨ h.e.rpc.inFd < 0)) (m : Method)
    (params : Bytes) (written : Bool) :
    h.request m params written = (written, some h.e.rpc.nextId,
      ⟨{ h.e with rpc := (sendRequest h.e.rpc written).rpc },
        h.log ++ [.sent m h.e.rpc.nextId (buildRequest m.name params h.e.rpc.nextId)
          written]⟩) := by
  obtain ⟨hok, hid, -⟩ := sendRequest_live hl written
  rw [Host.request]
  simp only [hid, hok]

theorem request_dead {h : Host} (hd : h.e.rpc.dead ∨ h.e.rpc.inFd < 0) (m : Method)
    (params : Bytes) (written : Bool) : h.request m params written = (false, none, h) := by
  rw [Host.request, sendRequest_dead hd]

theorem dequeue_frame (e : Entry) :
    e.keyQueueDequeue.2.rpc = e.rpc ∧ e.keyQueueDequeue.2.pending = e.pending ∧
      e.keyQueueDequeue.2.pendingId = e.pendingId ∧
      e.keyQueueDequeue.2.lastResp = e.lastResp := by
  rw [Entry.keyQueueDequeue]
  split <;> exact ⟨rfl, rfl, rfl, rfl⟩

theorem enqueue_frame (e : Entry) (ev : KeyEvent) :
    (e.keyQueueEnqueue ev).2.rpc = e.rpc ∧ (e.keyQueueEnqueue ev).2.pending = e.pending ∧
      (e.keyQueueEnqueue ev).2.pendingId = e.pendingId ∧
      (e.keyQueueEnqueue ev).2.lastResp = e.lastResp := by
  rw [Entry.keyQueueEnqueue]
  split <;> exact ⟨rfl, rfl, rfl, rfl⟩

theorem pendingOf_congr {e e' : Entry} (hp : e'.pending = e.pending)
    (hi : e'.pendingId = e.pendingId) : e'.pendingOf = e.pendingOf := by
  funext m
  rw [Entry.pendingOf, Entry.pendingOf, hp, hi]

theorem sendNextKey_runs (h : Host) (written : Bool) : Runs h (h.sendNextKey written) := by
  rw [Host.sendNextKey]
  split
  · exact Runs.refl h
  next hguard =>
  intro hok
  have hpend : h.e.pending .onKey = false := by
    by_contra hp
    exact hguard (.inl (by simpa using hp))
  by_cases hpos : 0 < h.e.keyQueueCount
  · obtain ⟨ev, q, hqueue, hev, hok', hq⟩ := dequeue_spec hok hpos
    obtain ⟨hrpc, hp, hi, hlast⟩ := dequeue_frame h.e
    rcases hdeq : h.e.keyQueueDequeue with ⟨ev', e⟩
    rw [hdeq] at hev hok' hq hrpc hp hi hlast
    dsimp only at hev hok' hq hrpc hp hi hlast
    subst hev
    have hlive : ¬(e.rpc.dead ∨ e.rpc.inFd < 0) := by
      rw [hrpc]
      exact fun hd => hguard (.inr hd)
    have hid := (sendRequest_live hlive written).2.2
    have hmove := Move.sendKey h.core ev q written hqueue
      (by simp [Host.core, Entry.pendingOf, hpend])
    have hreq := request_live (h := ⟨e, h.log⟩) hlive .onKey (Host.buildKeyParams ev) written
    dsimp only at hreq ⊢
    rw [hreq]
    cases written with
    | true =>
      refine ⟨hok', .single ?_⟩
      convert hmove using 1
      ext1
      · simpa [Host.core, Core.numbered, hrpc] using hid
      · simp only [Host.core, Core.numbered, if_true, Option.getD_some]
        rw [pendingOf_update_true { e with rpc := (sendRequest e.rpc true).rpc }, hrpc]
        exact congrArg (Function.update · Method.onKey _) (pendingOf_congr hp hi)
      · exact hlast
      · exact hq
      · simp only [Host.core, Core.numbered, hrpc]
    | false =>
      refine ⟨hok', .single ?_⟩
      convert hmove using 1
      ext1
      · simpa [Host.core, Core.numbered, hrpc] using hid
      · exact pendingOf_congr hp hi
      · exact hlast
      · exact hq
      · simp only [Host.core, Core.numbered, hrpc]
  · have hnone : h.e.keyQueueDequeue = (none, h.e) := by
      rw [Entry.keyQueueDequeue, if_pos (by omega)]
    rw [hnone]
    exact ⟨hok, .refl⟩

theorem requestUnlessPending_runs (h : Host) {m : Method} (hm : m ≠ .onKey) (params : Bytes)
    (written : Bool) : Runs h (h.requestUnlessPending m params written) := by
  rw [Host.requestUnlessPending]
  split
  · exact Runs.refl h
  next hpend =>
  have hfree : h.e.pending m = false := by simpa using hpend
  by_cases hd : h.e.rpc.dead ∨ h.e.rpc.inFd < 0
  · rw [request_dead hd]
    refine Runs.quiet id ?_
    ext1
    · rfl
    · exact pendingOf_update_id hfree _
    · rfl
    · rfl
    · rfl
  · have hid := (sendRequest_live hd written).2.2
    have hmove := Move.send h.core m params written hm (by simp [Host.core, Entry.pendingOf, hfree])
    rw [request_live hd]
    cases written with
    | true =>
      refine Runs.single id ?_
      convert hmove using 1
      ext1
      · exact hid
      · simp only [Host.core, Core.numbered, if_true, Option.getD_some]
        exact pendingOf_update_true { h.e with rpc := (sendRequest h.e.rpc true).rpc } m _
      · rfl
      · rfl
      · rfl
    | false =>
      refine Runs.single id ?_
      convert hmove using 1
      ext1
      · exact hid
      · exact pendingOf_update_id (e := { h.e with rpc := (sendRequest h.e.rpc false).rpc }) hfree _
      · rfl
      · rfl
      · rfl

/-! ## Receiving -/

theorem setModal_runs (h : Host) (modal : Option Bool) : Runs h (h.setModal modal) :=
  Runs.quiet id rfl

theorem forceSync_runs (h : Host) (discard : List DiscardRound) :
    Runs h (h.forceSync discard) := by
  refine Runs.single (fun _ => queueOk_reset h.e) ?_
  convert Move.forceSync h.core using 1
  ext1
  · obtain ⟨dead, hdead⟩ := discardQueued_shape h.e.rpc discard
    simp only [Host.core, Host.forceSync, hdead]
  · rfl
  · rfl
  · exact queueList_reset h.e
  · rfl

theorem handleForceSync_runs {h h' : Host} {msg : Bytes} {discard : List DiscardRound}
    (hf : h.handleForceSync msg discard = some h') : Runs h h' := by
  rw [Host.handleForceSync] at hf
  split at hf
  · simp at hf
  · obtain rfl := Option.some_inj.mp hf
    exact (forceSync_runs h discard).trans (setModal_runs _ _)

theorem resultRequestsForceSync_runs {h h' : Host} {result : Bytes} {discard : List DiscardRound}
    (hf : h.resultRequestsForceSync result discard = some h') : Runs h h' := by
  rw [Host.resultRequestsForceSync] at hf
  split at hf
  · simp at hf
  · obtain rfl := Option.some_inj.mp hf
    exact (forceSync_runs h discard).trans (setModal_runs _ _)

theorem handleOnKeyResult_runs (h : Host) (result : Bytes) (discard : List DiscardRound) :
    Runs h (h.handleOnKeyResult result discard).2 := by
  rw [Host.handleOnKeyResult]
  split
  · next h' hf => exact resultRequestsForceSync_runs hf
  · refine (setModal_runs h (Host.boolMember result (cs "is_modal"))).trans ?_
    dsimp only
    split
    · split
      · exact Runs.refl _
      · exact Runs.quiet id rfl
    split
    · exact Runs.single id (Move.forget _ .render)
    · exact Runs.quiet id rfl

theorem pendingOf_of_answers {h : Host} {m : Method} {id : ℤ} (ha : h.answers m id = true) :
    h.e.pendingOf m = some id := by
  rw [Host.answers, Bool.and_eq_true, beq_iff_eq] at ha
  rw [Entry.pendingOf, if_pos ha.1, ha.2]

/-- The answer to `render` or `render_hops` becomes the cached response. -/
theorem storeAnswer_runs {h : Host} {m : Method} {line : Bytes} (hm : m ≠ .onKey)
    (ha : h.answers m (lineId line) = true) :
    Runs h ((h.answer m line).storeResp m line) := by
  have hmove := Move.answer h.core m line (pendingOf_of_answers ha)
  rw [if_neg hm] at hmove
  refine Runs.single id ?_
  convert hmove using 1
  ext1
  · rfl
  · exact pendingOf_update_false h.e m
  · rfl
  · rfl
  · rfl

/-- The answer to `on_key` is not kept. -/
theorem answerKey_runs {h : Host} {line : Bytes} (ha : h.answers .onKey (lineId line) = true) :
    Runs h (h.answer .onKey line) := by
  have hmove := Move.answer h.core .onKey line (pendingOf_of_answers ha)
  rw [if_pos rfl] at hmove
  refine Runs.single id ?_
  convert hmove using 1
  ext1
  · rfl
  · exact pendingOf_update_false h.e .onKey
  · rfl
  · rfl
  · rfl

theorem route_runs (h : Host) (line : Bytes) (discard : List DiscardRound) :
    Runs h (h.route line (lineId line) discard) := by
  rw [Host.route]
  split
  · next h' hf => exact handleForceSync_runs hf
  split
  · next ha => exact storeAnswer_runs (by decide) ha
  split
  · next ha => exact storeAnswer_runs (by decide) ha
  split
  · next ha =>
    refine (answerKey_runs ha).trans ?_
    dsimp only
    split
    · exact Runs.refl _
    · exact handleOnKeyResult_runs _ _ _
  · exact Runs.refl h

/-! ## The operations -/

theorem checkAlive_runs (h : Host) (exited : Bool) : Runs h (h.checkAlive exited) := by
  obtain ⟨dead, initialized, hcheck⟩ := h.checkAlive_shape exited
  rw [hcheck]
  exact Runs.quiet id rfl

/-- A key is queued: where the queue is full, the oldest one makes room. -/
theorem enqueueKey_runs (h : Host) (ev : KeyEvent) (written : Bool) :
    Runs h (h.enqueueKey ev written) := by
  rw [Host.enqueueKey]
  refine Runs.trans ?_ (sendNextKey_runs _ written)
  intro hok
  by_cases hroom : h.e.keyQueueCount < pluginKeyQueue
  · obtain ⟨htrue, hok', hlist⟩ := enqueue_spec hok hroom ev
    obtain ⟨hrpc, hp, hi, hlast⟩ := enqueue_frame h.e ev
    rw [if_pos htrue]
    refine ⟨hok', .single ?_⟩
    convert Move.accept h.core ev (queueList h.e) (List.Sublist.refl _) using 1
    ext1
    · exact congrArg Rpc.nextId hrpc
    · exact pendingOf_congr hp hi
    · exact hlast
    · exact hlist
    · rfl
  · have hfull := enqueue_full hroom ev
    have hpos : 0 < h.e.keyQueueCount := by
      simp only [pluginKeyQueue] at hroom
      omega
    obtain ⟨old, q, hqueue, -, hok', hq⟩ := dequeue_spec hok hpos
    have hroom' : h.e.keyQueueDequeue.2.keyQueueCount < pluginKeyQueue := by
      have hlen := congrArg List.length hqueue
      have hlen' := congrArg List.length hq
      rw [length_queueList, List.length_cons] at hlen
      rw [length_queueList] at hlen'
      have hmax := hok.2.2
      omega
    obtain ⟨-, hok'', hlist⟩ := enqueue_spec hok' hroom' ev
    obtain ⟨hrpc, hp, hi, hlast⟩ := dequeue_frame h.e
    obtain ⟨hrpc', hp', hi', hlast'⟩ := enqueue_frame h.e.keyQueueDequeue.2 ev
    rw [hfull]
    simp only [Bool.false_eq_true, if_false]
    refine ⟨hok'', .single ?_⟩
    have hsub : q.Sublist h.core.queue := by
      rw [Host.core, hqueue]
      exact List.sublist_cons_self old q
    convert Move.accept h.core ev q hsub using 1
    ext1
    · exact congrArg Rpc.nextId (hrpc'.trans hrpc)
    · exact pendingOf_congr (hp'.trans hp) (hi'.trans hi)
    · exact hlast'.trans hlast
    · exact hlist.trans (congrArg (· ++ [ev]) hq)
    · rfl

theorem pressKey_runs (h : Host) (ev : KeyEvent) (reserved : Bool) (t₁ t₂ : ℤ) (written : Bool) :
    Runs h (h.pressKey ev reserved t₁ t₂ written).2 := by
  have hcoalesce : ∀ h : Host, Runs h (h.coalesceKey ev t₂ written) := by
    intro h
    rw [Host.coalesceKey]
    split
    · exact Runs.single id (Move.refuse _ ev)
    · exact Runs.after_quiet (enqueueKey_runs _ ev written) id rfl
  rw [Host.pressKey]
  split
  · split
    · exact Runs.single id (Move.refuse _ ev)
    · exact Runs.after_quiet (hcoalesce _) id rfl
  · exact hcoalesce h

/-- A line comes in and is dealt with. -/
theorem take_runs (h : Host) (line : Bytes) (discard : List DiscardRound) :
    Runs h (h.take line discard) := by
  have hreceive : Runs h ⟨h.e, h.log ++ [.received line]⟩ :=
    Runs.single id (Move.receive _ line)
  exact hreceive.trans (route_runs _ line discard)

theorem runs_parts : Host.Parts Host.drawn Runs where
  refl := Runs.refl
  trans := Runs.trans
  read := fun _ _ _ => Runs.quiet id rfl
  take := take_runs
  nextKey := fun h written _ => sendNextKey_runs h written
  request := fun h _ params written hm => requestUnlessPending_runs h hm params written
  modal := fun _ _ => Runs.quiet id rfl
  editor := fun _ => Runs.quiet id rfl
  press := pressKey_runs

/-- **Every operation of the host is a sequence of moves.** -/
theorem act_runs {a : Host.Action} {h h' : Host} (ha : Host.act a h = some h') : Runs h h' :=
  (checkAlive_runs h a.exited).trans (runs_parts.act a.asks_drawn ha)

/-- The conversation with a plugin that has just been spawned. -/
def Core.start : Core := ⟨2, fun _ => none, fun _ => [], [], []⟩

theorem core_spawned {h : Host} (hs : h.Spawned) : QueueOk h.e ∧ h.core = Core.start := by
  refine ⟨?_, ?_⟩
  · rw [QueueOk, hs.head, hs.count]
    exact ⟨⟨le_refl 0, by decide⟩, le_refl 0, by decide⟩
  · ext1
    · exact hs.nextId
    · funext m
      simp [Host.core, Core.start, Entry.pendingOf, hs.pending m]
    · exact funext hs.lastResp
    · simp [Host.core, Core.start, queueList, hs.count]
    · exact hs.log

/-- **What runs of the host refine**: a reachable host has its queue in bounds, and its conversation
is reached by moves. -/
theorem core_of_reachable {h₀ h : Host} (hs : h₀.Spawned)
    (hr : Transition.Reachable Host.Step h₀ h) :
    QueueOk h.e ∧ Transition.Reachable Move Core.start h.core := by
  obtain ⟨hq₀, hcore₀⟩ := core_spawned hs
  have hruns : Runs h₀ h := by
    refine hr.invariant (P := Runs h₀) (Runs.refl h₀) fun s t _ ih hst => ?_
    obtain ⟨a, ha⟩ := hst
    exact ih.trans (act_runs ha)
  obtain ⟨hq, hmoves⟩ := hruns hq₀
  rw [hcore₀] at hmoves
  exact ⟨hq, hmoves⟩

end Nsr
