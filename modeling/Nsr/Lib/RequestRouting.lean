import Nsr.Lib.Reachable
import Mathlib.Data.List.Nodup
import Mathlib.Tactic.Common

/-!
# Requests of several kinds over one stream

A client issues numbered requests of several kinds and has at most one request of each kind open at
a time.  What comes back is matched against the open request of a kind, and the client may at any
time forget everything that is open.  What the other side sends is not constrained at all.

* `Event`, `latest`, `openIds`: the history, and what it says is the latest request of a kind and
  which requests of a kind are unanswered since everything was last forgotten.
* `State`, `Step`: the client.
* `Routed`: what the history of a client always looks like; `Inv.of_reachable` proves it.
* `Distinct.of_reachable`: with all requests numbered differently, no request is answered twice.
-/

namespace RequestRouting

open Transition

variable {K ι : Type*}

/-- What happens between the client and the other side. -/
inductive Event (K ι : Type*) where
  /-- A request of kind `k` goes out, numbered `i`. -/
  | sent (k : K) (i : ι)
  /-- Something came back and was taken for the answer to request `i` of kind `k`. -/
  | answered (k : K) (i : ι)
  /-- Everything open is forgotten. -/
  | dropped

/-- The numbers of the requests, in the order they went out. -/
def sentIds (log : List (Event K ι)) : List ι :=
  log.filterMap fun
    | .sent _ i => some i
    | _ => none

/-- The numbers of the requests that were answered. -/
def answeredIds (log : List (Event K ι)) : List ι :=
  log.filterMap fun
    | .answered _ i => some i
    | _ => none

section Ids

variable {k : K} {i : ι} {log : List (Event K ι)}

@[simp] theorem sentIds_sent : sentIds (log ++ [.sent k i]) = sentIds log ++ [i] := by
  simp [sentIds]

@[simp] theorem sentIds_answered : sentIds (log ++ [.answered k i]) = sentIds log := by
  simp [sentIds]

@[simp] theorem sentIds_dropped : sentIds (log ++ [.dropped]) = sentIds log := by
  simp [sentIds]

@[simp] theorem answeredIds_sent : answeredIds (log ++ [.sent k i]) = answeredIds log := by
  simp [answeredIds]

@[simp] theorem answeredIds_answered :
    answeredIds (log ++ [.answered k i]) = answeredIds log ++ [i] := by
  simp [answeredIds]

@[simp] theorem answeredIds_dropped : answeredIds (log ++ [.dropped]) = answeredIds log := by
  simp [answeredIds]

end Ids

section Kind

variable [DecidableEq K]

/-- The latest request of kind `k`. -/
def latest (k : K) (log : List (Event K ι)) : Option ι :=
  log.foldl (fun acc e =>
    match e with
    | .sent k' i => if k' = k then some i else acc
    | _ => acc) none

/-- The requests of kind `k` that are unanswered since everything was last forgotten. -/
def openIds [DecidableEq ι] (k : K) (log : List (Event K ι)) : List ι :=
  log.foldl (fun acc e =>
    match e with
    | .sent k' i => if k' = k then acc ++ [i] else acc
    | .answered k' i => if k' = k then acc.erase i else acc
    | .dropped => []) []

variable {k k' : K} {i : ι} {log : List (Event K ι)}

@[simp] theorem latest_sent :
    latest k (log ++ [.sent k' i]) = if k' = k then some i else latest k log := by
  simp [latest]

@[simp] theorem latest_answered : latest k (log ++ [.answered k' i]) = latest k log := by
  simp [latest]

variable [DecidableEq ι]

@[simp] theorem openIds_sent :
    openIds k (log ++ [.sent k' i]) =
      if k' = k then openIds k log ++ [i] else openIds k log := by
  simp [openIds]

@[simp] theorem openIds_answered :
    openIds k (log ++ [.answered k' i]) =
      if k' = k then (openIds k log).erase i else openIds k log := by
  simp [openIds]

@[simp] theorem openIds_dropped : openIds k (log ++ [.dropped]) = [] := by
  simp [openIds]

end Kind

/-! ## The client -/

/-- The client: the open request of each kind, and the history, which it does not read. -/
structure State (K ι : Type*) where
  pending : K → Option ι
  log : List (Event K ι)

/-- Nothing sent, nothing open. -/
def State.start : State K ι := ⟨fun _ => none, []⟩

variable [DecidableEq K]

/-- **What the client may do.** -/
inductive Step : State K ι → State K ι → Prop where
  | send (s : State K ι) (k : K) (i : ι) (hfree : s.pending k = none) :
      Step s ⟨Function.update s.pending k (some i), s.log ++ [.sent k i]⟩
  | answer (s : State K ι) (k : K) (i : ι) (hopen : s.pending k = some i) :
      Step s ⟨Function.update s.pending k none, s.log ++ [.answered k i]⟩
  | drop (s : State K ι) : Step s ⟨fun _ => none, s.log ++ [.dropped]⟩

section Pending

variable {pending : K → Option ι} {k k' : K} {i j : ι}

/-- After a request: the new one is open, and what was open of the other kinds. -/
theorem of_update_some (h : Function.update pending k (some i) k' = some j) :
    (k = k' ∧ i = j) ∨ (k ≠ k' ∧ pending k' = some j) := by
  by_cases hk : k = k'
  · subst hk
    rw [Function.update_self] at h
    exact .inl ⟨rfl, Option.some_inj.mp h⟩
  · rw [Function.update_of_ne (Ne.symm hk)] at h
    exact .inr ⟨hk, h⟩

/-- After an answer: what was open of the other kinds. -/
theorem of_update_none (h : Function.update pending k none k' = some j) :
    k ≠ k' ∧ pending k' = some j := by
  by_cases hk : k = k'
  · subst hk
    rw [Function.update_self] at h
    exact absurd h (by simp)
  · rw [Function.update_of_ne (Ne.symm hk)] at h
    exact ⟨hk, h⟩

end Pending

/-! ## One request of a kind at a time -/

section Routed

variable [DecidableEq ι]

/-- **A well-routed history.** -/
structure Routed (log : List (Event K ι)) : Prop where
  /-- An answer is to the latest request of its kind. -/
  answers_latest : ∀ pre k i post, log = pre ++ .answered k i :: post → latest k pre = some i
  /-- At any time, at most one request of a kind is open. -/
  one_open : ∀ pre k, pre <+: log → (openIds k pre).length ≤ 1
  /-- A request goes out only when none of its kind is open. -/
  sent_when_closed : ∀ pre k i post, log = pre ++ .sent k i :: post → openIds k pre = []

/-- The invariant of the client. -/
structure Inv (s : State K ι) : Prop where
  routed : Routed s.log
  pending_latest : ∀ k i, s.pending k = some i → latest k s.log = some i
  open_pending : ∀ k, openIds k s.log = (s.pending k).toList

/-- Splitting a history at an event: the event is the last one, or the split is one of the history
without its last event. -/
theorem split_concat {α : Type*} {l pre post : List α} {e x : α}
    (h : l ++ [e] = pre ++ x :: post) :
    (∃ post', l = pre ++ x :: post') ∨ (pre = l ∧ x = e) := by
  rcases List.eq_nil_or_concat' post with rfl | ⟨post', y, rfl⟩
  · obtain ⟨h₁, h₂⟩ := List.append_inj' h rfl
    exact .inr ⟨h₁.symm, (List.singleton_inj.mp h₂).symm⟩
  · refine .inl ⟨post', ?_⟩
    rw [← List.cons_append, ← List.append_assoc] at h
    exact (List.append_inj' h rfl).1

theorem routed_nil : Routed ([] : List (Event K ι)) where
  answers_latest := by simp
  one_open := by
    intro pre k h
    rw [List.prefix_nil.mp h]
    exact Nat.zero_le _
  sent_when_closed := by simp

theorem inv_start : Inv (State.start : State K ι) where
  routed := routed_nil
  pending_latest := by simp [State.start]
  open_pending := by simp [State.start, openIds]

/-- One more event keeps a history well routed. -/
theorem Routed.concat {log : List (Event K ι)} {e : Event K ι} (h : Routed log)
    {pending : K → Option ι} (hopen : ∀ k, openIds k (log ++ [e]) = (pending k).toList)
    (hans : ∀ k i, e = .answered k i → latest k log = some i)
    (hsent : ∀ k i, e = .sent k i → openIds k log = []) : Routed (log ++ [e]) where
  answers_latest := by
    intro pre k i post hsplit
    rcases split_concat hsplit with ⟨post', hlog⟩ | ⟨rfl, he⟩
    · exact h.answers_latest pre k i post' hlog
    · exact hans k i he.symm
  one_open := by
    intro pre k hpre
    rcases List.prefix_concat_iff.mp hpre with rfl | hpre
    · rw [hopen]
      cases pending k <;> simp
    · exact h.one_open pre k hpre
  sent_when_closed := by
    intro pre k i post hsplit
    rcases split_concat hsplit with ⟨post', hlog⟩ | ⟨rfl, he⟩
    · exact h.sent_when_closed pre k i post' hlog
    · exact hsent k i he.symm

variable {s : State K ι}

theorem Inv.send (h : Inv s) {k : K} {i : ι} (hfree : s.pending k = none) :
    Inv ⟨Function.update s.pending k (some i), s.log ++ [.sent k i]⟩ := by
  have hnone : openIds k s.log = [] := by rw [h.open_pending, hfree]; rfl
  have hopen : ∀ k', openIds k' (s.log ++ [.sent k i]) =
      (Function.update s.pending k (some i) k').toList := by
    intro k'
    rw [openIds_sent]
    by_cases hk : k = k'
    · subst hk
      rw [if_pos rfl, hnone, Function.update_self]
      rfl
    · rw [if_neg hk, Function.update_of_ne (Ne.symm hk), h.open_pending]
  refine ⟨h.routed.concat hopen (by simp) ?_, ?_, hopen⟩
  · intro k' j hkj
    obtain ⟨rfl, rfl⟩ := Event.sent.inj hkj
    exact hnone
  · intro k' j hj
    rw [latest_sent]
    obtain ⟨rfl, rfl⟩ | ⟨hk, hj⟩ := of_update_some hj
    · exact if_pos rfl
    · rw [if_neg hk]
      exact h.pending_latest k' j hj

theorem Inv.answer (h : Inv s) {k : K} {i : ι} (hpend : s.pending k = some i) :
    Inv ⟨Function.update s.pending k none, s.log ++ [.answered k i]⟩ := by
  have hopen : ∀ k', openIds k' (s.log ++ [.answered k i]) =
      (Function.update s.pending k none k').toList := by
    intro k'
    rw [openIds_answered]
    by_cases hk : k = k'
    · subst hk
      rw [if_pos rfl, h.open_pending, hpend, Function.update_self]
      simp
    · rw [if_neg hk, Function.update_of_ne (Ne.symm hk), h.open_pending]
  refine ⟨h.routed.concat hopen ?_ (by simp), ?_, hopen⟩
  · intro k' j hkj
    obtain ⟨rfl, rfl⟩ := Event.answered.inj hkj
    exact h.pending_latest k i hpend
  · intro k' j hj
    rw [latest_answered]
    exact h.pending_latest k' j (of_update_none hj).2

theorem Inv.drop (h : Inv s) : Inv ⟨fun _ => none, s.log ++ [.dropped]⟩ := by
  have hopen : ∀ k', openIds k' (s.log ++ [.dropped]) = (none : Option ι).toList :=
    fun _ => openIds_dropped
  exact ⟨h.routed.concat hopen (by simp) (by simp), by simp, hopen⟩

/-- **Every history of a client is well routed**, whatever the other side sends. -/
theorem Inv.of_reachable (h : Reachable Step State.start s) : Inv s := by
  refine h.invariant (P := Inv) inv_start fun s t _ hs hst => ?_
  cases hst with
  | send k i hfree => exact hs.send hfree
  | answer k i hopen => exact hs.answer hopen
  | drop => exact hs.drop

end Routed

/-! ## Requests that are numbered differently -/

/-- What is open is unanswered, and open as one kind only. -/
structure Distinct (s : State K ι) : Prop where
  answered_once : (answeredIds s.log).Nodup
  answered_sent : ∀ i ∈ answeredIds s.log, i ∈ sentIds s.log
  pending_sent : ∀ k i, s.pending k = some i → i ∈ sentIds s.log
  pending_open : ∀ k i, s.pending k = some i → i ∉ answeredIds s.log
  pending_inj : ∀ k k' i, s.pending k = some i → s.pending k' = some i → k = k'

omit [DecidableEq K] in
theorem distinct_start : Distinct (State.start : State K ι) where
  answered_once := List.nodup_nil
  answered_sent := by simp [State.start, answeredIds]
  pending_sent := by simp [State.start]
  pending_open := by simp [State.start]
  pending_inj := by simp [State.start]

variable {s : State K ι}

theorem Distinct.send (h : Distinct s) {k : K} {i : ι} (hnew : i ∉ sentIds s.log) :
    Distinct ⟨Function.update s.pending k (some i), s.log ++ [.sent k i]⟩ := by
  refine ⟨?_, ?_, ?_, ?_, ?_⟩
  · rw [answeredIds_sent]
    exact h.answered_once
  · intro j hj
    rw [answeredIds_sent] at hj
    rw [sentIds_sent]
    exact List.mem_append_left _ (h.answered_sent j hj)
  · intro k' j hj
    rw [sentIds_sent]
    obtain ⟨-, rfl⟩ | ⟨-, hj⟩ := of_update_some hj
    · exact List.mem_append_right _ (List.mem_singleton_self i)
    · exact List.mem_append_left _ (h.pending_sent k' j hj)
  · intro k' j hj
    rw [answeredIds_sent]
    obtain ⟨-, rfl⟩ | ⟨-, hj⟩ := of_update_some hj
    · exact fun hmem => hnew (h.answered_sent i hmem)
    · exact h.pending_open k' j hj
  · -- the new number is nobody else's: the others are numbers sent before
    have hclash : ∀ k' j, s.pending k' = some j → i ≠ j := by
      rintro k' j hj rfl
      exact hnew (h.pending_sent k' i hj)
    intro k₁ k₂ j h₁ h₂
    obtain ⟨rfl, rfl⟩ | ⟨-, h₁⟩ := of_update_some h₁
    · obtain ⟨rfl, -⟩ | ⟨-, h₂⟩ := of_update_some h₂
      · rfl
      · exact absurd rfl (hclash k₂ i h₂)
    · obtain ⟨-, hij⟩ | ⟨-, h₂⟩ := of_update_some h₂
      · exact absurd hij (hclash k₁ j h₁)
      · exact h.pending_inj k₁ k₂ j h₁ h₂

theorem Distinct.answer (h : Distinct s) {k : K} {i : ι} (hpend : s.pending k = some i) :
    Distinct ⟨Function.update s.pending k none, s.log ++ [.answered k i]⟩ := by
  refine ⟨?_, ?_, ?_, ?_, ?_⟩
  · rw [answeredIds_answered, List.nodup_append]
    refine ⟨h.answered_once, List.nodup_singleton i, ?_⟩
    intro j hj j' hj' hjj
    rw [hjj, List.mem_singleton.mp hj'] at hj
    exact h.pending_open k i hpend hj
  · intro j hj
    rw [answeredIds_answered, List.mem_append, List.mem_singleton] at hj
    rw [sentIds_answered]
    rcases hj with hj | rfl
    · exact h.answered_sent j hj
    · exact h.pending_sent k j hpend
  · intro k' j hj
    rw [sentIds_answered]
    exact h.pending_sent k' j (of_update_none hj).2
  · intro k' j hj
    obtain ⟨hk, hj'⟩ := of_update_none hj
    rw [answeredIds_answered, List.mem_append, List.mem_singleton]
    rintro (hmem | rfl)
    · exact h.pending_open k' j hj' hmem
    · exact hk (h.pending_inj k k' j hpend hj')
  · intro k₁ k₂ j h₁ h₂
    exact h.pending_inj k₁ k₂ j (of_update_none h₁).2 (of_update_none h₂).2

omit [DecidableEq K] in
theorem Distinct.drop (h : Distinct s) : Distinct ⟨fun _ => none, s.log ++ [.dropped]⟩ := by
  refine ⟨?_, ?_, by simp, by simp, by simp⟩
  · rw [answeredIds_dropped]
    exact h.answered_once
  · intro j hj
    rw [answeredIds_dropped] at hj
    rw [sentIds_dropped]
    exact h.answered_sent j hj

/-- **Requests numbered differently are answered once at most.** -/
theorem Distinct.of_reachable (h : Reachable Step State.start s) (hids : (sentIds s.log).Nodup) :
    Distinct s := by
  refine h.invariant (P := fun s => (sentIds s.log).Nodup → Distinct s) (fun _ => distinct_start)
    (fun s t _ ih hst hids => ?_) hids
  cases hst with
  | send k i hfree =>
    rw [sentIds_sent, List.nodup_append] at hids
    obtain ⟨hids, -, hne⟩ := hids
    refine (ih hids).send fun hi => ?_
    exact hne i hi i (List.mem_singleton_self i) rfl
  | answer k i hopen =>
    rw [sentIds_answered] at hids
    exact (ih hids).answer hopen
  | drop =>
    rw [sentIds_dropped] at hids
    exact (ih hids).drop

end RequestRouting
