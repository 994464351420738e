import Nsr.Plugin.Routing
import Nsr.Lib.LossyQueue

/-!
# Keys reach the plugin in order

Keys that are passed to `plugin_try_on_key` may be refused, because they come too fast, and queued
keys may be lost: the oldest one when the queue is full, all of them in a `force_sync`, one when the
line that carries it cannot be written.  The queue of an entry, between the keys passed to it and
the keys written to the plugin, is a `LossyQueue`, whatever the four places that drain it do in
between; so the plugin sees the keys in the order they were pressed, and none of them twice.

* `passedKeys`, `writtenKeys`, `openKeys`: what a history says about keys.
* `keys_of_reachable`: the queue is a lossy queue.
* `keys_delivered`: what holds of every run.
-/

namespace Nsr

open Transition Nsr.Core

/-! ## Reading a history -/

/-- The keys passed to `plugin_try_on_key`. -/
def passedKeys (log : List Event) : List KeyEvent :=
  log.filterMap fun
    | .passed ev => some ev
    | _ => none

/-- What an `on_key` line that went out whole says. -/
def writtenKey : Event → Option KeyEvent
  | .sent .onKey _ line true => wireKey line
  | _ => none

/-- **The keys written to the plugin**, read off the lines. -/
def writtenKeys (log : List Event) : List KeyEvent :=
  log.filterMap writtenKey

/-- The numbers of the `on_key` requests that went out since the last `force_sync` and to which no
line was taken for the answer. -/
def openKeys (log : List Event) : List ℤ :=
  RequestRouting.openIds .onKey (routeLog log)

theorem writtenKeys_concat (log : List Event) (e : Event) :
    writtenKeys (log ++ [e]) = writtenKeys log ++ (writtenKey e).toList := by
  rw [writtenKeys, List.filterMap_append]
  congr 1

theorem writtenKey_of_ne {m : Method} (hm : m ≠ .onKey) (id : ℤ) (line : Bytes) (written : Bool) :
    writtenKey (.sent m id line written) = none := by
  cases m with
  | render => rfl
  | renderHops => rfl
  | onKey => exact absurd rfl hm

/-! ## The queue is a lossy queue -/

/-- The queue between the keys passed and the keys written. -/
def Core.keys (c : Core) : LossyQueue.State KeyEvent :=
  ⟨passedKeys c.log, c.queue, writtenKeys c.log⟩

/-- An event that is about no key leaves the three sequences as they are. -/
theorem keys_other {c c' : Core} {e : Event} (hlog : c'.log = c.log ++ [e])
    (hqueue : c'.queue = c.queue) (hpassed : ∀ ev, e ≠ .passed ev) (hkey : writtenKey e = none) :
    Relation.ReflTransGen LossyQueue.Step c.keys c'.keys := by
  have hp : passedKeys (c.log ++ [e]) = passedKeys c.log := by
    cases e with
    | passed ev => exact absurd rfl (hpassed ev)
    | _ => simp [passedKeys]
  have hsame : c'.keys = c.keys := by
    rw [Core.keys, hlog, hqueue, hp, writtenKeys_concat, hkey, Option.toList_none, List.append_nil]
    rfl
  rw [hsame]

/-- **Every move is something that may happen to a lossy queue.** -/
theorem keys_move {c c' : Core} (hmove : Move c c') :
    Relation.ReflTransGen LossyQueue.Step c.keys c'.keys := by
  cases hmove with
  | receive line => exact keys_other rfl rfl (by simp) rfl
  | forget m => exact .refl
  | send m params written hm hfree =>
    exact keys_other rfl rfl (by simp) (writtenKey_of_ne hm _ _ _)
  | sendKey ev q written hqueue hfree =>
    have hpassed : passedKeys (c.log ++ [.sent .onKey c.nextId (buildRequest Method.onKey.name
        (Host.buildKeyParams ev) c.nextId) written]) = passedKeys c.log := by
      simp [passedKeys]
    refine .single ?_
    cases written with
    | true =>
      convert LossyQueue.Step.deliver c.keys ev q hqueue using 1
      simp only [Core.keys, Core.numbered, hpassed, writtenKeys_concat, writtenKey,
        wireKey_buildRequest, Option.toList_some]
    | false =>
      have hsub : q.Sublist c.keys.queued := by
        rw [Core.keys, hqueue]
        exact List.sublist_cons_self ev q
      convert LossyQueue.Step.lose c.keys q hsub using 1
      simp only [Core.keys, Core.numbered, hpassed, writtenKeys_concat, writtenKey,
        Option.toList_none, List.append_nil]
  | answer m line hpend => exact keys_other rfl rfl (by simp) rfl
  | forceSync =>
    refine .single ?_
    convert LossyQueue.Step.lose c.keys [] (List.nil_sublist _) using 1
    simp [Core.keys, passedKeys, writtenKeys, writtenKey]
  | refuse ev =>
    refine .single ?_
    convert LossyQueue.Step.refuse c.keys ev using 1
    simp [Core.keys, passedKeys, writtenKeys, writtenKey]
  | accept ev q hq =>
    -- room is made first
    refine .tail (.single (LossyQueue.Step.lose c.keys q hq)) ?_
    convert LossyQueue.Step.accept ⟨c.keys.offered, q, c.keys.delivered⟩ ev using 1
    simp [Core.keys, passedKeys, writtenKeys, writtenKey]

theorem keys_of_reachable {c : Core} (h : Reachable Move Core.start c) :
    Reachable LossyQueue.Step LossyQueue.State.start c.keys :=
  h.map Core.keys fun _ _ _ hmove => keys_move hmove

/-! ## Every run -/

/-- **Keys reach the plugin in order.**  In every run of a spawned plugin's operations: the head and
the count of the key queue are in bounds; the keys written to the plugin are a subsequence of the
keys passed; at any time at most one `on_key` request is unanswered since the last `force_sync`, and
one is written only when none is. -/
theorem keys_delivered {h₀ h : Host} (hs : h₀.Spawned) (hr : Reachable Host.Step h₀ h) :
    (0 ≤ h.e.keyQueueHead ∧ h.e.keyQueueHead < pluginKeyQueue) ∧
      (0 ≤ h.e.keyQueueCount ∧ h.e.keyQueueCount ≤ pluginKeyQueue) ∧
      (writtenKeys h.log).Sublist (passedKeys h.log) ∧
      (∀ pre, pre <+: h.log → (openKeys pre).length ≤ 1) ∧
      (∀ pre id line post, h.log = pre ++ .sent .onKey id line true :: post →
        openKeys pre = []) := by
  obtain ⟨hqueue, hcore⟩ := core_of_reachable hs hr
  have hrouted := (RequestRouting.Inv.of_reachable (routing_of_reachable hcore)).routed
  refine ⟨hqueue.1, hqueue.2, ?_, ?_, ?_⟩
  · have hsub := LossyQueue.sublist_of_reachable (keys_of_reachable hcore)
    exact (List.sublist_append_left (writtenKeys h.log) h.core.queue).trans hsub
  · intro pre hpre
    exact hrouted.one_open (routeLog pre) .onKey (hpre.filterMap routeEvent)
  · intro pre id line post hlog
    refine hrouted.sent_when_closed (routeLog pre) .onKey id (routeLog post) ?_
    change routeLog h.log = _
    rw [hlog, routeLog_append]
    rfl

/-- Three keys, the last of them a repetition that comes too fast, and then the answer to the
first: the second one goes out. -/
theorem keys_delivered_three_keys :
    ∃ h : Host, passedKeys h.log = [⟨113, false⟩, ⟨119, false⟩, ⟨119, false⟩] ∧
      writtenKeys h.log = [⟨113, false⟩, ⟨119, false⟩] ∧
      (writtenKeys h.log).Sublist (passedKeys h.log) ∧ (openKeys h.log).length ≤ 1 := by
  have hrun : ((exec Host.act
      [.onKeyPass .broadcast 113 ⟨false, [.silent], 1000, 1000, true⟩,
        .onKeyPass .broadcast 119 ⟨false, [.silent], 1010, 1010, true⟩,
        .onKeyPass .broadcast 119 ⟨false, [.silent], 1020, 1020, true⟩,
        .drain 5 (.reads (requestReply 2 ++ [0x0a]))]
      (Host.spawned (cs "viewer"))).map fun h => (passedKeys h.log, writtenKeys h.log)) =
      some ([⟨113, false⟩, ⟨119, false⟩, ⟨119, false⟩], [⟨113, false⟩, ⟨119, false⟩]) := by
    decide +kernel
  obtain ⟨h, hr, hobs⟩ := Reachable.exists_of_exec Host.Step hrun fun a _ s t hst => ⟨a, hst⟩
  obtain ⟨hpassed, hwritten⟩ := Prod.mk.inj hobs
  obtain ⟨-, -, hsub, hopen, -⟩ := keys_delivered (Host.spawned_spawned _) hr
  exact ⟨h, hpassed, hwritten, hsub, hopen h.log (List.prefix_refl _)⟩

end Nsr
