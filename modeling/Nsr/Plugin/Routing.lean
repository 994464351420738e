import Nsr.Plugin.Protocol
import Nsr.Plugin.Wire
import Nsr.Lib.RequestRouting

/-!
# Responses reach the request they answer

Three kinds of request share one counter and one stream of lines, and a plugin may write anything
at any time: late and repeated answers, answers to nothing, `force_sync` messages.  The
conversation of the host is a client in the sense of `RequestRouting`, so every answer is taken for
the latest request of its kind; and as long as the counter has not run through the range of an
`int`, no request is answered twice.

* `requestIds`, `routeLog`, `lastAnswer`: what a history says about numbers and answers.
* `Numbered`: the counter, the lines and the cached responses agree with the history.
* `responses_routed`: what holds of every run.
-/

namespace Nsr

open Transition Nsr.Core

/-! ## Reading a history -/

/-- The numbers of the requests, in the order they were made. -/
def requestIds (log : List Event) : List ℤ :=
  log.filterMap fun
    | .sent _ id _ _ => some id
    | _ => none

/-- What an event is to the routing: a request counts when it went out whole. -/
def routeEvent : Event → Option (RequestRouting.Event Method ℤ)
  | .sent m id _ true => some (.sent m id)
  | .answered m line => some (.answered m (lineId line))
  | .forceSync => some .dropped
  | _ => none

/-- **The history as the routing sees it.** -/
def routeLog (log : List Event) : List (RequestRouting.Event Method ℤ) :=
  log.filterMap routeEvent

/-- The line that was last taken for the answer to a request of a method. -/
def lastAnswer (m : Method) (log : List Event) : Option Bytes :=
  log.foldl (fun acc e =>
    match e with
    | .answered m' line => if m' = m then some line else acc
    | _ => acc) none

theorem routeLog_append (log log' : List Event) :
    routeLog (log ++ log') = routeLog log ++ routeLog log' :=
  List.filterMap_append

theorem routeLog_concat (log : List Event) (e : Event) :
    routeLog (log ++ [e]) = routeLog log ++ (routeEvent e).toList := by
  rw [routeLog_append]
  congr 1

/-- The requests that went out are among the requests made. -/
theorem sentIds_routeLog_sublist (log : List Event) :
    (RequestRouting.sentIds (routeLog log)).Sublist (requestIds log) := by
  induction log with
  | nil => exact List.Sublist.refl []
  | cons e log ih =>
    cases e with
    | sent m id line written =>
      cases written with
      | true => exact ih.cons_cons id
      | false => exact ih.cons id
    | received line => exact ih
    | answered m line => exact ih
    | forceSync => exact ih
    | passed ev => exact ih

/-- The numbers of the requests that were answered. -/
def answeredIds (log : List Event) : List ℤ :=
  log.filterMap fun
    | .answered _ line => some (lineId line)
    | _ => none

theorem answeredIds_routeLog (log : List Event) :
    RequestRouting.answeredIds (routeLog log) = answeredIds log := by
  rw [RequestRouting.answeredIds, routeLog, List.filterMap_filterMap, answeredIds]
  refine List.filterMap_congr fun e _ => ?_
  cases e with
  | sent m id line written => cases written <;> rfl
  | _ => rfl

/-! ## Numbers, lines and cached responses -/

theorem wrap32_of_lt {n : ℕ} (h : n < 2 ^ 31) : wrap32 n = n := by
  rw [wrap32]
  exact Int.bmod_eq_of_le (by omega) (by omega)

/-- **The counter, the lines and the cached responses agree with the history.** -/
structure Numbered (c : Core) : Prop where
  nextId : c.nextId = wrap32 ((requestIds c.log).length + 2 : ℕ)
  ids : requestIds c.log =
    (List.range (requestIds c.log).length).map fun k => wrap32 (k + 2 : ℕ)
  lines : ∀ m id line written, Event.sent m id line written ∈ c.log →
    ∃ params, line = buildRequest m.name params id
  cached : ∀ m, c.cached m = [] ∨ m ≠ .onKey ∧ lastAnswer m c.log = some (c.cached m)

theorem numbered_start : Numbered Core.start where
  nextId := (wrap32_of_lt (by decide : 2 < 2 ^ 31)).symm
  ids := rfl
  lines := by simp [Core.start]
  cached := fun m => .inl rfl

/-- An event that is no request and no answer. -/
theorem Numbered.other {c c' : Core} {e : Event} (h : Numbered c) (hlog : c'.log = c.log ++ [e])
    (hid : c'.nextId = c.nextId) (hcached : ∀ m, c'.cached m = [] ∨ c'.cached m = c.cached m)
    (hsent : ∀ m id line written, e ≠ .sent m id line written)
    (hans : ∀ m line, e ≠ .answered m line) : Numbered c' := by
  have hids : requestIds c'.log = requestIds c.log := by
    rw [hlog, requestIds, List.filterMap_append]
    cases e with
    | sent m id line written => exact absurd rfl (hsent m id line written)
    | _ => simp [requestIds]
  have hlast : ∀ m, lastAnswer m c'.log = lastAnswer m c.log := by
    intro m
    rw [hlog, lastAnswer, List.foldl_append]
    cases e with
    | answered m' line => exact absurd rfl (hans m' line)
    | _ => rfl
  refine ⟨by rw [hid, hids]; exact h.nextId, by rw [hids]; exact h.ids, ?_, ?_⟩
  · intro m id line written hmem
    rw [hlog, List.mem_append, List.mem_singleton] at hmem
    rcases hmem with hmem | rfl
    · exact h.lines m id line written hmem
    · exact absurd rfl (hsent m id line written)
  · intro m
    rw [hlast]
    rcases hcached m with hnil | hsame
    · exact .inl hnil
    · rw [hsame]
      exact h.cached m

/-- A request. -/
theorem Numbered.request {c : Core} (h : Numbered c) (m : Method) (params : Bytes)
    (written : Bool) :
    Numbered (c.numbered m (buildRequest m.name params c.nextId) written) := by
  set c' := c.numbered m (buildRequest m.name params c.nextId) written with hc'
  have hids : requestIds c'.log = requestIds c.log ++ [c.nextId] := by
    simp [hc', Core.numbered, requestIds]
  have hlast : ∀ m', lastAnswer m' c'.log = lastAnswer m' c.log := by
    intro m'
    rw [hc', Core.numbered, lastAnswer, List.foldl_append]
    rfl
  have hlen : (requestIds c'.log).length = (requestIds c.log).length + 1 := by
    rw [hids, List.length_append, List.length_singleton]
  refine ⟨?_, ?_, ?_, ?_⟩
  · have hnext : c'.nextId = wrap32 (c.nextId + 1) := rfl
    rw [hnext, hlen, h.nextId, wrap32, wrap32, wrap32, Int.bmod_add_bmod]
    congr 1
  · rw [hlen, List.range_succ, List.map_append, List.map_singleton, ← h.ids, ← h.nextId, hids]
  · intro m' id line written' hmem
    rw [hc'] at hmem
    simp only [Core.numbered, List.mem_append, List.mem_singleton] at hmem
    rcases hmem with hmem | hmem
    · exact h.lines m' id line written' hmem
    · obtain ⟨rfl, rfl, rfl, -⟩ := Event.sent.inj hmem
      exact ⟨params, rfl⟩
  · intro m'
    rw [hlast]
    exact h.cached m'

/-- An answer. -/
theorem Numbered.answer {c : Core} (h : Numbered c) (m : Method) (line : Bytes)
    (pending : Method → Option ℤ) :
    Numbered { c with
      pending := pending
      cached := if m = .onKey then c.cached else Function.update c.cached m line
      log := c.log ++ [.answered m line] } := by
  have hids : requestIds (c.log ++ [.answered m line]) = requestIds c.log := by
    simp [requestIds]
  have hlast : ∀ m', lastAnswer m' (c.log ++ [.answered m line]) =
      if m = m' then some line else lastAnswer m' c.log := by
    intro m'
    simp [lastAnswer]
  refine ⟨by rw [hids]; exact h.nextId, by rw [hids]; exact h.ids, ?_, ?_⟩
  · intro m' id line' written hmem
    simp only [List.mem_append, List.mem_singleton, reduceCtorEq, or_false] at hmem
    exact h.lines m' id line' written hmem
  · intro m'
    rw [hlast]
    dsimp only
    by_cases hkey : m = .onKey
    · rw [if_pos hkey]
      rcases h.cached m' with hnil | ⟨hm', hl⟩
      · exact .inl hnil
      · have hne : ¬m = m' := by
          rintro rfl
          exact hm' hkey
        exact .inr ⟨hm', by rw [if_neg hne, hl]⟩
    · rw [if_neg hkey]
      by_cases hm : m = m'
      · subst hm
        exact .inr ⟨hkey, by rw [if_pos rfl, Function.update_self]⟩
      · rw [if_neg hm, Function.update_of_ne (Ne.symm hm)]
        exact h.cached m'

theorem Numbered.move {c c' : Core} (h : Numbered c) (hmove : Move c c') : Numbered c' := by
  cases hmove with
  | receive line =>
    exact h.other rfl rfl (fun _ => .inr rfl) (by simp) (by simp)
  | forget m =>
    refine ⟨h.nextId, h.ids, h.lines, fun m' => ?_⟩
    by_cases hm : m' = m
    · subst hm
      exact .inl (Function.update_self _ _ _)
    · simp only [Function.update_of_ne hm]
      exact h.cached m'
  | send m params written hm hfree => exact h.request m params written
  | sendKey ev q written hqueue hfree =>
    have hr := h.request .onKey (Host.buildKeyParams ev) written
    exact ⟨hr.nextId, hr.ids, hr.lines, hr.cached⟩
  | answer m line hpend => exact h.answer m line _
  | forceSync => exact h.other rfl rfl (fun _ => .inl rfl) (by simp) (by simp)
  | refuse ev => exact h.other rfl rfl (fun _ => .inr rfl) (by simp) (by simp)
  | accept ev q hq => exact h.other rfl rfl (fun _ => .inr rfl) (by simp) (by simp)

theorem Numbered.of_reachable {c : Core} (h : Reachable Move Core.start c) : Numbered c :=
  h.invariant (P := Numbered) numbered_start fun _ _ _ ih hmove => ih.move hmove

/-- There have been fewer requests than an `int` can number, `init` included. -/
def Few (log : List Event) : Prop :=
  (requestIds log).length + 1 < 2 ^ 31

/-- Before the counter has run through the range of an `int`, request `k` has number `k + 2`. -/
theorem Numbered.ids_eq {c : Core} (h : Numbered c) (hfew : Few c.log) :
    requestIds c.log =
      (List.range (requestIds c.log).length).map fun k => ((k + 2 : ℕ) : ℤ) := by
  refine h.ids.trans (List.map_congr_left fun k hk => ?_)
  have hlt := List.mem_range.mp hk
  rw [Few] at hfew
  exact wrap32_of_lt (by omega)

/-! ## The conversation is a client -/

/-- The conversation as a client. -/
def Core.routing (c : Core) : RequestRouting.State Method ℤ :=
  ⟨c.pending, routeLog c.log⟩

/-- A request is a step of the client, where it goes out. -/
theorem routing_numbered {c : Core} {m : Method} (hfree : c.pending m = none) (line : Bytes)
    (written : Bool) :
    Relation.ReflTransGen RequestRouting.Step c.routing (c.numbered m line written).routing := by
  cases written with
  | false =>
    have hsame : (c.numbered m line false).routing = c.routing := by
      simp [Core.routing, Core.numbered, routeLog, routeEvent]
    rw [hsame]
  | true =>
    have hstep := RequestRouting.Step.send c.routing m c.nextId hfree
    have hafter : (c.numbered m line true).routing =
        ⟨Function.update c.routing.pending m (some c.nextId),
          c.routing.log ++ [.sent m c.nextId]⟩ := by
      simp [Core.routing, Core.numbered, routeLog, routeEvent]
    rw [hafter]
    exact .single hstep

/-- **Every move is something a client may do**, or nothing to it. -/
theorem routing_move {c c' : Core} (hmove : Move c c') :
    Relation.ReflTransGen RequestRouting.Step c.routing c'.routing := by
  have hskip : ∀ e : Event, routeEvent e = none → routeLog (c.log ++ [e]) = routeLog c.log := by
    intro e he
    rw [routeLog_concat, he, Option.toList_none, List.append_nil]
  cases hmove with
  | receive line =>
    simp only [Core.routing, hskip (.received line) rfl]
    exact .refl
  | forget m => exact .refl
  | send m params written hm hfree => exact routing_numbered hfree _ written
  | sendKey ev q written hqueue hfree => exact routing_numbered hfree _ written
  | answer m line hpend =>
    have hstep := RequestRouting.Step.answer c.routing m (lineId line) hpend
    simp only [Core.routing, routeLog_concat, routeEvent, Option.toList_some] at hstep ⊢
    exact .single hstep
  | forceSync =>
    have hstep := RequestRouting.Step.drop c.routing
    simp only [Core.routing, routeLog_concat, routeEvent, Option.toList_some] at hstep ⊢
    exact .single hstep
  | refuse ev =>
    simp only [Core.routing, hskip (.passed ev) rfl]
    exact .refl
  | accept ev q hq =>
    simp only [Core.routing, hskip (.passed ev) rfl]
    exact .refl

/-- **The conversation is a client of the routing protocol.** -/
theorem routing_of_reachable {c : Core} (h : Reachable Move Core.start c) :
    Reachable RequestRouting.Step RequestRouting.State.start c.routing :=
  h.map Core.routing fun _ _ _ hmove => routing_move hmove

/-! ## Every run -/

/-- Numbers of requests are numbers `strtoll` reads back. -/
theorem Numbered.inRange {c : Core} (h : Numbered c) (hfew : Few c.log) {id : ℤ}
    (hid : id ∈ requestIds c.log) : InRange id := by
  rw [h.ids_eq hfew, List.mem_map] at hid
  obtain ⟨k, hk, rfl⟩ := hid
  have hlt := List.mem_range.mp hk
  rw [Few] at hfew
  constructor
  · omega
  · omega

theorem Numbered.increasing {c : Core} (h : Numbered c) (hfew : Few c.log) :
    (requestIds c.log).Pairwise (· < ·) := by
  rw [h.ids_eq hfew, List.pairwise_map]
  refine List.pairwise_lt_range.imp fun hlt => ?_
  exact_mod_cast Nat.add_lt_add_right hlt 2

/-- A request line carries its number. -/
theorem Numbered.lineId_sent {c : Core} (h : Numbered c) (hfew : Few c.log) {m : Method} {id : ℤ}
    {line : Bytes} {written : Bool} (hsent : Event.sent m id line written ∈ c.log) :
    lineId line = id := by
  have hid : id ∈ requestIds c.log := List.mem_filterMap.mpr ⟨_, hsent, rfl⟩
  obtain ⟨params, rfl⟩ := h.lines m id line written hsent
  exact lineId_buildRequest m.name params (h.inRange hfew hid)

/-- **Responses reach the request they answer.**  In every run of a spawned plugin's operations with
fewer than `2 ^ 31` requests, whatever lines the plugin writes: requests are numbered upwards and
carry their number; a line that is taken for an answer has the number of the latest request of its
kind; the cached response of a kind, where there is one, is the line last taken for an answer; and
no request is answered twice. -/
theorem responses_routed {h₀ h : Host} (hs : h₀.Spawned) (hr : Reachable Host.Step h₀ h)
    (hfew : Few h.log) :
    (requestIds h.log).Pairwise (· < ·) ∧
      (∀ m id line written, Event.sent m id line written ∈ h.log → lineId line = id) ∧
      (∀ pre m line post, h.log = pre ++ .answered m line :: post →
        RequestRouting.latest m (routeLog pre) = some (lineId line)) ∧
      (∀ m, h.e.lastResp m = [] ∨ lastAnswer m h.log = some (h.e.lastResp m)) ∧
      (answeredIds h.log).Nodup := by
  obtain ⟨-, hcore⟩ := core_of_reachable hs hr
  have hnum : Numbered h.core := Numbered.of_reachable hcore
  have hinc := hnum.increasing hfew
  have hclient := routing_of_reachable hcore
  refine ⟨hinc, ?_, ?_, ?_, ?_⟩
  · intro m id line written hsent
    exact hnum.lineId_sent hfew hsent
  · intro pre m line post hlog
    refine (RequestRouting.Inv.of_reachable hclient).routed.answers_latest (routeLog pre) m
      (lineId line) (routeLog post) ?_
    change routeLog h.log = _
    rw [hlog, routeLog_append]
    rfl
  · intro m
    exact (hnum.cached m).imp_right And.right
  · have hsent : (RequestRouting.sentIds (routeLog h.log)).Nodup :=
      (hinc.sublist (sentIds_routeLog_sublist h.log)).imp ne_of_lt
    rw [← answeredIds_routeLog]
    exact (RequestRouting.Distinct.of_reachable hclient hsent).answered_once

/-- A plugin's answer to a request, without anything in it. -/
def requestReply (id : Int64) : Bytes :=
  render (.obj [(cs "id", .int id), (cs "result", .obj [])])

/-- A frame, a key, and a frame that reads the answer to the first one twice over: the repetition
is left for later, and will be the answer to nothing. -/
theorem responses_routed_two_frames :
    ∃ h : Host, requestIds h.log = [2, 3, 4] ∧ answeredIds h.log = [2] ∧
      lastAnswer .render h.log = some (h.e.lastResp .render) := by
  have hrun : ((exec Host.act
      [.render ⟨.grid, 24, 80, 7, cs "::1"⟩ ⟨false, .silent, true⟩,
        .onKeyPass .broadcast 113 ⟨false, [.silent], 1000, 1000, true⟩,
        .render ⟨.grid, 24, 80, 7, cs "::1"⟩
          ⟨false, .reads (requestReply 2 ++ 0x0a :: requestReply 2 ++ [0x0a]), true⟩]
      (Host.spawned (cs "viewer"))).map fun h =>
        (requestIds h.log, answeredIds h.log, h.e.lastResp .render)) =
      some ([2, 3, 4], [2], requestReply 2) := by
    decide +kernel
  obtain ⟨h, hr, hobs⟩ := Reachable.exists_of_exec Host.Step hrun fun a _ s t hst => ⟨a, hst⟩
  simp only [Prod.mk.injEq] at hobs
  obtain ⟨hids, hans, hresp⟩ := hobs
  have hfew : Few h.log := by
    rw [Few, hids]
    decide
  obtain ⟨-, -, -, hcached, -⟩ := responses_routed (Host.spawned_spawned _) hr hfew
  refine ⟨h, hids, hans, (hcached .render).resolve_left ?_⟩
  rw [hresp]
  decide +kernel

end Nsr
