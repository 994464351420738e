import Nsr.Lib.Reachable
import Nsr.Ring.ShmRing

/-!
# One producer and one consumer on a ring

Two processes share a `ShmRing`.  The producer calls `nsr_shm_ring_push_batch`
and the consumer `nsr_shm_ring_pop_batch`, one call at a time each, and their
memory accesses interleave freely.  Either side may crash between any two of its
accesses; `main` then starts a new process on the same ring, which is to say that
the side's call is forgotten and the ring is left as it is.

The state carries two histories that no code reads: the batches whose `head` was
published, in order, and the items of the pops whose `tail` was published, in
order.  Their lengths are the two indices before masking, and with them the
invariant is short (`Inv`): what is published is what was accepted and not yet
delivered, and a side in the middle of a call holds an index that is still
current, together with one inequality.  The producer's inequality only gets
weaker as the consumer moves, and the consumer's as the producer moves, which is
why working from a stale copy of the other side's index does no harm.
-/

namespace Nsr

universe u

variable {α : Type u}

open ShmRing CyclicBuffer Transition

/-- A ring with its two sides.  `none` is a side between two calls. -/
structure Spsc (α : Type u) where
  ring : ShmRing α
  push : Option (PushPc α)
  pop : Option (PopPc α)
  /-- The batches accepted so far (history, read by no code). -/
  accepted : List (List α)
  /-- The items delivered so far (history, read by no code). -/
  delivered : List α

namespace Spsc

/-- Both sides idle on a zeroed ring. -/
def init (zero : α) : Spsc α := ⟨zeroed zero, none, none, [], []⟩

/-- The producer enters `nsr_shm_ring_push_batch`. -/
def callPush (s : Spsc α) (items : List α) : Spsc α :=
  { s with push := some (.loadHead items) }

/-- The consumer enters `nsr_shm_ring_pop_batch`. -/
def callPop (s : Spsc α) (maxCount : ℕ) : Spsc α :=
  { s with pop := some (.loadTail maxCount) }

/-- One memory access of the producer's call, with the value returned if the call
ends there. -/
def advancePush (s : Spsc α) (pc : PushPc α) : Spsc α × Option Bool :=
  match pushStep s.ring pc with
  | (r, .inl pc') => ({ s with ring := r, push := some pc' }, none)
  | (r, .inr true) =>
      ({ s with ring := r, push := none, accepted := s.accepted ++ [pc.items] }, some true)
  | (r, .inr false) => ({ s with ring := r, push := none }, some false)

/-- One memory access of the consumer's call, with the items returned if the call
ends there. -/
def advancePop (s : Spsc α) (pc : PopPc α) : Spsc α × Option (List α) :=
  match popStep s.ring pc with
  | (r, .inl pc') => ({ s with ring := r, pop := some pc' }, none)
  | (r, .inr out) =>
      ({ s with ring := r, pop := none, delivered := s.delivered ++ out }, some out)

/-- The producer dies and is started again. -/
def crashPush (s : Spsc α) : Spsc α := { s with push := none }

/-- The consumer dies and is started again. -/
def crashPop (s : Spsc α) : Spsc α := { s with pop := none }

/-- What the two processes and their restarts can do. -/
inductive Step (s : Spsc α) : Spsc α → Prop where
  | callPush (items : List α) (hitems : 1 ≤ items.length ∧ items.length ≤ 1024)
      (hidle : s.push = none) : Step s (s.callPush items)
  | push (pc : PushPc α) (hpc : s.push = some pc) : Step s (s.advancePush pc).1
  | crashPush : Step s s.crashPush
  | callPop (maxCount : ℕ) (hmax : 1 ≤ maxCount ∧ maxCount ≤ 1024)
      (hidle : s.pop = none) : Step s (s.callPop maxCount)
  | pop (pc : PopPc α) (hpc : s.pop = some pc) : Step s (s.advancePop pc).1
  | crashPop : Step s s.crashPop

/-! ## The invariant -/

/-- The producer's position in the stream: the number of items accepted. -/
def headPos (s : Spsc α) : ℕ := s.accepted.flatten.length

/-- The consumer's position in the stream: the number of items delivered. -/
def tailPos (s : Spsc α) : ℕ := s.delivered.length

/-- What a push in progress knows.  Past the test for room the batch fits between
the current `tail` and one turn later, and its copied part is in place. -/
def PushInv (s : Spsc α) : PushPc α → Prop
  | .loadHead items => items.length ≤ 1024
  | .loadTail items h => items.length ≤ 1024 ∧ h = slot s.headPos
  | .copy items h i =>
      h = slot s.headPos ∧ i ≤ items.length ∧
        s.headPos + items.length < s.tailPos + 131071 ∧
        segment slot s.ring.data s.headPos i = items.take i

/-- What a pop in progress knows.  Past the load of `head` the items it will copy
are published, and those it has copied are the next ones of the stream. -/
def PopInv (s : Spsc α) : PopPc α → Prop
  | .loadTail maxCount => 1 ≤ maxCount ∧ maxCount ≤ 1024
  | .loadHead maxCount t => (1 ≤ maxCount ∧ maxCount ≤ 1024) ∧ t = slot s.tailPos
  | .copy t count out =>
      t = slot s.tailPos ∧ s.tailPos + count ≤ s.headPos ∧ (1 ≤ count ∧ count ≤ 1024) ∧
        out.length ≤ count ∧ out = segment slot s.ring.data s.tailPos out.length

/-- The invariant of the ring and both of its sides. -/
structure Inv (s : Spsc α) : Prop where
  head_eq : s.ring.head = slot s.headPos
  tail_eq : s.ring.tail = slot s.tailPos
  le : s.tailPos ≤ s.headPos
  room : s.headPos < s.tailPos + 131071
  stream : s.accepted.flatten =
    s.delivered ++ segment slot s.ring.data s.tailPos (s.headPos - s.tailPos)
  pushInv : ∀ pc, s.push = some pc → s.PushInv pc
  popInv : ∀ pc, s.pop = some pc → s.PopInv pc

theorem init_inv (zero : α) : (init zero).Inv where
  head_eq := rfl
  tail_eq := rfl
  le := le_rfl
  room := by simp [init, headPos, tailPos]
  stream := rfl
  pushInv := by simp [init]
  popInv := by simp [init]

/-- What is published is what was accepted and not yet delivered. -/
theorem Inv.published_eq {s : Spsc α} (h : s.Inv) :
    s.ring.published = segment slot s.ring.data s.tailPos (s.headPos - s.tailPos) :=
  published_eq_segment h.head_eq h.tail_eq h.le (by have := h.room; omega)

theorem Inv.stream_eq {s : Spsc α} (h : s.Inv) :
    s.accepted.flatten = s.delivered ++ s.ring.published := by
  rw [h.published_eq]
  exact h.stream

theorem Inv.length_published {s : Spsc α} (h : s.Inv) :
    s.ring.published.length = s.headPos - s.tailPos := by
  rw [h.published_eq, length_segment]

/-! ## Every step keeps it -/

theorem crashPush_inv {s : Spsc α} (h : s.Inv) : s.crashPush.Inv where
  head_eq := h.head_eq
  tail_eq := h.tail_eq
  le := h.le
  room := h.room
  stream := h.stream
  pushInv := by simp [crashPush]
  popInv := h.popInv

theorem crashPop_inv {s : Spsc α} (h : s.Inv) : s.crashPop.Inv where
  head_eq := h.head_eq
  tail_eq := h.tail_eq
  le := h.le
  room := h.room
  stream := h.stream
  pushInv := h.pushInv
  popInv := by simp [crashPop]

/-- A load by the producer: nothing but its program counter changes. -/
theorem Inv.withPush {s : Spsc α} (h : s.Inv) {pc : PushPc α} (hpc : s.PushInv pc) :
    ({ s with push := some pc } : Spsc α).Inv where
  head_eq := h.head_eq
  tail_eq := h.tail_eq
  le := h.le
  room := h.room
  stream := h.stream
  pushInv := by
    intro pc' hpc'
    obtain rfl : pc = pc' := Option.some.inj hpc'
    exact hpc
  popInv := h.popInv

/-- A load or a copy by the consumer: nothing but its program counter changes. -/
theorem Inv.withPop {s : Spsc α} (h : s.Inv) {pc : PopPc α} (hpc : s.PopInv pc) :
    ({ s with pop := some pc } : Spsc α).Inv where
  head_eq := h.head_eq
  tail_eq := h.tail_eq
  le := h.le
  room := h.room
  stream := h.stream
  pushInv := h.pushInv
  popInv := by
    intro pc' hpc'
    obtain rfl : pc = pc' := Option.some.inj hpc'
    exact hpc

theorem callPush_inv {s : Spsc α} (h : s.Inv) {items : List α} (hitems : items.length ≤ 1024) :
    (s.callPush items).Inv :=
  h.withPush (show s.PushInv (.loadHead items) from hitems)

theorem callPop_inv {s : Spsc α} (h : s.Inv) {maxCount : ℕ}
    (hmax : 1 ≤ maxCount ∧ maxCount ≤ 1024) : (s.callPop maxCount).Inv :=
  h.withPop (show s.PopInv (.loadTail maxCount) from hmax)

/-- **Copying a slot.**  The position written is past `head` and less than one turn
past `tail`, so neither what is published nor what the consumer is reading
changes. -/
theorem Inv.copySlot {s : Spsc α} (h : s.Inv) {items : List α} {i : ℕ} {x : α}
    (hpc : s.PushInv (.copy items (slot s.headPos) i)) (hx : items[i]? = some x) :
    ({ s with
        ring := { s.ring with data := Function.update s.ring.data (slot (s.headPos + i)) x }
        push := some (.copy items (slot s.headPos) (i + 1)) } : Spsc α).Inv := by
  obtain ⟨-, hi, hroom, hcopied⟩ := hpc
  obtain ⟨hlt, hget⟩ := List.getElem?_eq_some_iff.mp hx
  have hle := h.le
  have hold : ∀ n, n ≤ s.headPos - s.tailPos →
      segment slot (Function.update s.ring.data (slot (s.headPos + i)) x) s.tailPos n =
        segment slot s.ring.data s.tailPos n := fun n hn =>
    segment_update_outside slot_windowInjective (by omega) (by omega)
  refine ⟨h.head_eq, h.tail_eq, h.le, h.room, ?_, ?_, ?_⟩
  · show s.accepted.flatten = _
    rw [h.stream]
    exact congrArg (s.delivered ++ ·) (hold _ le_rfl).symm
  · intro pc hpc
    obtain rfl : PushPc.copy items (slot s.headPos) (i + 1) = pc := Option.some.inj hpc
    refine ⟨rfl, hlt, hroom, ?_⟩
    show segment slot (Function.update s.ring.data (slot (s.headPos + i)) x) s.headPos (i + 1) = _
    rw [segment_update_succ slot_windowInjective (by omega), hcopied, List.take_add_one, hx,
      Option.toList_some]
  · intro pc hpc
    have hpop := h.popInv pc hpc
    cases pc with
    | loadTail maxCount => exact hpop
    | loadHead maxCount t => exact hpop
    | copy t count out =>
      obtain ⟨ht, hcount, hmax, hout, heq⟩ := hpop
      refine ⟨ht, hcount, hmax, hout, ?_⟩
      show out = segment slot (Function.update s.ring.data _ x) s.tailPos out.length
      rw [hold out.length (by omega)]
      exact heq

/-- **Publishing `head`.**  The copied batch becomes part of the stream at once. -/
theorem Inv.publishHead {s : Spsc α} (h : s.Inv) {items : List α}
    (hpc : s.PushInv (.copy items (slot s.headPos) items.length)) :
    ({ s with
        ring := { s.ring with head := slot (s.headPos + items.length) }
        push := none
        accepted := s.accepted ++ [items] } : Spsc α).Inv := by
  obtain ⟨-, -, hroom, hcopied⟩ := hpc
  rw [List.take_length] at hcopied
  have hle := h.le
  have hpos : (s.accepted ++ [items]).flatten.length = s.headPos + items.length := by
    simp [headPos]
  refine ⟨?_, h.tail_eq, ?_, ?_, ?_, by simp, ?_⟩
  · exact congrArg slot hpos.symm
  · show s.tailPos ≤ (s.accepted ++ [items]).flatten.length
    omega
  · show (s.accepted ++ [items]).flatten.length < s.tailPos + 131071
    omega
  · show (s.accepted ++ [items]).flatten = s.delivered ++ segment slot s.ring.data s.tailPos
      ((s.accepted ++ [items]).flatten.length - s.tailPos)
    rw [hpos, show s.headPos + items.length - s.tailPos =
      (s.headPos - s.tailPos) + items.length by omega, segment_add,
      show s.tailPos + (s.headPos - s.tailPos) = s.headPos by omega, hcopied,
      ← List.append_assoc, ← h.stream]
    simp
  · intro pc hpc
    have hpop := h.popInv pc hpc
    cases pc with
    | loadTail maxCount => exact hpop
    | loadHead maxCount t => exact hpop
    | copy t count out =>
      obtain ⟨ht, hcount, hrest⟩ := hpop
      refine ⟨ht, ?_, hrest⟩
      show s.tailPos + count ≤ (s.accepted ++ [items]).flatten.length
      omega

/-- **Publishing `tail`.**  The copied items leave the ring at once. -/
theorem Inv.publishTail {s : Spsc α} (h : s.Inv) {count : ℕ} {out : List α}
    (hpc : s.PopInv (.copy (slot s.tailPos) count out)) (hcount : ¬ out.length < count) :
    ({ s with
        ring := { s.ring with tail := slot (s.tailPos + count) }
        pop := none
        delivered := s.delivered ++ out } : Spsc α).Inv := by
  obtain ⟨-, hle, -, hout, heq⟩ := hpc
  have hlen : out.length = count := by omega
  have hroom := h.room
  have hpos : (s.delivered ++ out).length = s.tailPos + count := by
    rw [List.length_append, hlen, tailPos]
  refine ⟨h.head_eq, ?_, ?_, ?_, ?_, ?_, by simp⟩
  · exact congrArg slot hpos.symm
  · show (s.delivered ++ out).length ≤ s.headPos
    omega
  · show s.headPos < (s.delivered ++ out).length + 131071
    omega
  · show s.accepted.flatten = (s.delivered ++ out) ++
      segment slot s.ring.data (s.delivered ++ out).length
        (s.headPos - (s.delivered ++ out).length)
    rw [hpos, h.stream, List.append_assoc, show s.headPos - s.tailPos =
      out.length + (s.headPos - (s.tailPos + count)) by omega, segment_add, ← heq, hlen]
  · intro pc hpc
    have hpush := h.pushInv pc hpc
    cases pc with
    | loadHead items => exact hpush
    | loadTail items h => exact hpush
    | copy items h i =>
      obtain ⟨hh, hi, hfits, hcopied⟩ := hpush
      refine ⟨hh, hi, ?_, hcopied⟩
      show s.headPos + items.length < (s.delivered ++ out).length + 131071
      omega

/-! ## The branches of an access -/

theorem advancePush_refused {s : Spsc α} {items : List α} {h : UInt32}
    (hr : refuses h s.ring.tail items.length = true) :
    s.advancePush (.loadTail items h) = (s.crashPush, some false) := by
  simp [advancePush, pushStep, hr, crashPush]

theorem advancePush_fits {s : Spsc α} {items : List α} {h : UInt32}
    (hr : refuses h s.ring.tail items.length = false) :
    s.advancePush (.loadTail items h) = ({ s with push := some (.copy items h 0) }, none) := by
  simp [advancePush, pushStep, hr]

theorem advancePush_copy {s : Spsc α} {items : List α} {H i : ℕ} {x : α}
    (hx : items[i]? = some x) :
    s.advancePush (.copy items (slot H) i) =
      ({ s with
          ring := { s.ring with data := Function.update s.ring.data (slot (H + i)) x }
          push := some (.copy items (slot H) (i + 1)) }, none) := by
  simp [advancePush, pushStep, hx, mask_slot_add]

theorem advancePush_publish {s : Spsc α} {items : List α} {H : ℕ} :
    s.advancePush (.copy items (slot H) items.length) =
      ({ s with
          ring := { s.ring with head := slot (H + items.length) }
          push := none
          accepted := s.accepted ++ [items] }, some true) := by
  simp [advancePush, pushStep, mask_slot_add, PushPc.items]

theorem advancePop_empty {s : Spsc α} {maxCount : ℕ} {t : UInt32}
    (hz : used s.ring.head t = 0) :
    s.advancePop (.loadHead maxCount t) = (s.crashPop, some []) := by
  simp [advancePop, popStep, hz, crashPop]

theorem advancePop_load {s : Spsc α} {maxCount : ℕ} {t : UInt32}
    (hz : used s.ring.head t ≠ 0) :
    s.advancePop (.loadHead maxCount t) =
      ({ s with pop := some (.copy t
          (if used s.ring.head t < UInt32.ofNat maxCount then (used s.ring.head t).toNat
            else maxCount) []) }, none) := by
  simp [advancePop, popStep, hz]

theorem advancePop_copy {s : Spsc α} {T count : ℕ} {out : List α} (hlt : out.length < count) :
    s.advancePop (.copy (slot T) count out) =
      ({ s with
          pop := some (.copy (slot T) count (out ++ [s.ring.data (slot (T + out.length))])) },
        none) := by
  simp [advancePop, popStep, hlt, mask_slot_add]

theorem advancePop_publish {s : Spsc α} {T count : ℕ} {out : List α} (hlt : ¬ out.length < count) :
    s.advancePop (.copy (slot T) count out) =
      ({ s with
          ring := { s.ring with tail := slot (T + count) }
          pop := none
          delivered := s.delivered ++ out }, some out) := by
  simp [advancePop, popStep, hlt, mask_slot_add]

/-! ## What one access can do -/

/-- **The producer's accesses, all of them.**  A call goes on with the published
contents as they were, or is refused because the published items and the batch
come to `SHM_RING_SIZE - 1`, or publishes its whole batch. -/
theorem advancePush_spec {s : Spsc α} (h : s.Inv) {pc : PushPc α} (hpc : s.push = some pc) :
    (s.advancePush pc).1.Inv ∧
      (s.advancePush pc).1.pop = s.pop ∧ (s.advancePush pc).1.delivered = s.delivered ∧
      (((s.advancePush pc).2 = none ∧ (s.advancePush pc).1.accepted = s.accepted ∧
          ∃ pc', (s.advancePush pc).1.push = some pc' ∧ pc'.items = pc.items) ∨
        ((s.advancePush pc).2 = some false ∧ (s.advancePush pc).1 = s.crashPush ∧
          131071 ≤ s.ring.published.length + pc.items.length) ∨
        ((s.advancePush pc).2 = some true ∧ (s.advancePush pc).1.push = none ∧
          (s.advancePush pc).1.accepted = s.accepted ++ [pc.items])) := by
  have hpush := h.pushInv pc hpc
  have hle := h.le
  have hroom := h.room
  cases pc with
  | loadHead items =>
    refine ⟨h.withPush ⟨hpush, h.head_eq⟩, rfl, rfl, Or.inl ⟨rfl, rfl, _, rfl, rfl⟩⟩
  | loadTail items hd =>
    obtain ⟨hitems, rfl⟩ := hpush
    have hiff := refuses_slot_iff hle (by omega) hitems
    rw [← h.tail_eq] at hiff
    cases hr : refuses (slot s.headPos) s.ring.tail items.length with
    | true =>
      have hfull := hiff.mp hr
      rw [advancePush_refused hr]
      refine ⟨crashPush_inv h, rfl, rfl, Or.inr (Or.inl ⟨rfl, rfl, ?_⟩)⟩
      rw [h.length_published]
      exact hfull
    | false =>
      have hfits : s.headPos + items.length < s.tailPos + 131071 := by
        by_contra hcon
        rw [hiff.mpr (by omega)] at hr
        exact Bool.noConfusion hr
      rw [advancePush_fits hr]
      exact ⟨h.withPush ⟨rfl, Nat.zero_le _, hfits, rfl⟩, rfl, rfl, Or.inl ⟨rfl, rfl, _, rfl, rfl⟩⟩
  | copy items hd i =>
    obtain ⟨rfl, hi, hfits, hcopied⟩ := hpush
    cases hx : items[i]? with
    | some x =>
      rw [advancePush_copy hx]
      exact ⟨h.copySlot ⟨rfl, hi, hfits, hcopied⟩ hx, rfl, rfl, Or.inl ⟨rfl, rfl, _, rfl, rfl⟩⟩
    | none =>
      obtain rfl : i = items.length := by
        have := List.getElem?_eq_none_iff.mp hx
        omega
      rw [advancePush_publish]
      exact ⟨h.publishHead ⟨rfl, hi, hfits, hcopied⟩, rfl, rfl, Or.inr (Or.inr ⟨rfl, rfl, rfl⟩)⟩

/-- **The consumer's accesses, all of them.**  A call goes on, or ends having
delivered the front of the published contents; it ends with nothing exactly when
nothing was published. -/
theorem advancePop_spec {s : Spsc α} (h : s.Inv) {pc : PopPc α} (hpc : s.pop = some pc) :
    (s.advancePop pc).1.Inv ∧
      (s.advancePop pc).1.push = s.push ∧ (s.advancePop pc).1.accepted = s.accepted ∧
      (((s.advancePop pc).2 = none ∧ (s.advancePop pc).1.delivered = s.delivered ∧
          ∃ pc', (s.advancePop pc).1.pop = some pc') ∨
        ∃ out, (s.advancePop pc).2 = some out ∧ (s.advancePop pc).1.pop = none ∧
          (s.advancePop pc).1.delivered = s.delivered ++ out ∧ out.length ≤ 1024 ∧
          (out = [] → s.ring.published = [])) := by
  have hpop := h.popInv pc hpc
  have hle := h.le
  have hroom := h.room
  cases pc with
  | loadTail maxCount =>
    exact ⟨h.withPop ⟨hpop, h.tail_eq⟩, rfl, rfl, Or.inl ⟨rfl, rfl, _, rfl⟩⟩
  | loadHead maxCount t =>
    obtain ⟨⟨hmax1, hmax⟩, rfl⟩ := hpop
    have havail : (used s.ring.head (slot s.tailPos)).toNat = s.headPos - s.tailPos := by
      rw [h.head_eq]
      exact toNat_used_slot hle (by omega)
    by_cases hz : used s.ring.head (slot s.tailPos) = 0
    · rw [hz] at havail
      rw [advancePop_empty hz]
      refine ⟨crashPop_inv h, rfl, rfl,
        Or.inr ⟨[], rfl, rfl, (List.append_nil _).symm, Nat.zero_le _, fun _ => ?_⟩⟩
      refine List.length_eq_zero_iff.mp ?_
      rw [h.length_published]
      exact havail.symm
    · have hpos : 0 < s.headPos - s.tailPos := by
        rw [← havail]
        exact Nat.pos_of_ne_zero fun h0 => hz (UInt32.toNat_inj.mp h0)
      rw [advancePop_load hz]
      refine ⟨h.withPop ⟨rfl, ?_, ⟨?_, ?_⟩, Nat.zero_le _, rfl⟩, rfl, rfl,
        Or.inl ⟨rfl, rfl, _, rfl⟩⟩
      all_goals
        split
        · rename_i hlt
          rw [UInt32.lt_iff_toNat_lt, UInt32.toNat_ofNat'] at hlt
          omega
        · rename_i hlt
          rw [UInt32.lt_iff_toNat_lt, UInt32.toNat_ofNat'] at hlt
          omega
  | copy t count out =>
    obtain ⟨rfl, hcount, hmax, hout, heq⟩ := hpop
    by_cases hlt : out.length < count
    · rw [advancePop_copy hlt]
      refine ⟨h.withPop ⟨rfl, hcount, hmax, ?_, ?_⟩, rfl, rfl, Or.inl ⟨rfl, rfl, _, rfl⟩⟩
      · rw [List.length_append, List.length_singleton]
        exact hlt
      · rw [List.length_append, List.length_singleton, segment_succ, ← heq]
    · rw [advancePop_publish hlt]
      refine ⟨h.publishTail ⟨rfl, hcount, hmax, hout, heq⟩ hlt, rfl, rfl,
        Or.inr ⟨out, rfl, rfl, rfl, by omega, fun hnil => ?_⟩⟩
      rw [hnil, List.length_nil] at hlt
      omega

/-! ## The published contents -/

section Published

variable {s t : Spsc α}

/-- A step that neither accepts nor delivers leaves the published contents alone. -/
theorem Inv.published_eq_of_eq (hs : s.Inv) (ht : t.Inv) (hacc : t.accepted = s.accepted)
    (hdel : t.delivered = s.delivered) : t.ring.published = s.ring.published := by
  have h := ht.stream_eq
  rw [hacc, hdel, hs.stream_eq] at h
  exact (List.append_cancel_left h).symm

/-- An accepted batch goes to the back of the published contents. -/
theorem Inv.published_eq_append (hs : s.Inv) (ht : t.Inv) {items : List α}
    (hacc : t.accepted = s.accepted ++ [items]) (hdel : t.delivered = s.delivered) :
    t.ring.published = s.ring.published ++ items := by
  have h := ht.stream_eq
  rw [hacc, hdel, List.flatten_append, hs.stream_eq, List.append_assoc] at h
  simpa using (List.append_cancel_left h).symm

/-- Delivered items come off the front of the published contents. -/
theorem Inv.eq_append_published (hs : s.Inv) (ht : t.Inv) {out : List α}
    (hacc : t.accepted = s.accepted) (hdel : t.delivered = s.delivered ++ out) :
    s.ring.published = out ++ t.ring.published := by
  have h := ht.stream_eq
  rw [hacc, hdel, hs.stream_eq, List.append_assoc] at h
  exact List.append_cancel_left h

end Published

/-! ## Runs -/

/-- **Every step keeps the invariant.** -/
theorem step_inv {s t : Spsc α} (h : s.Inv) (hst : Step s t) : t.Inv := by
  cases hst with
  | callPush items hitems _ => exact callPush_inv h hitems.2
  | push pc hpc => exact (advancePush_spec h hpc).1
  | crashPush => exact crashPush_inv h
  | callPop maxCount hmax _ => exact callPop_inv h hmax
  | pop pc hpc => exact (advancePop_spec h hpc).1
  | crashPop => exact crashPop_inv h

/-- **Every reachable state satisfies the invariant.** -/
theorem reachable_inv {zero : α} {s : Spsc α} (h : Reachable Step (init zero) s) : s.Inv :=
  h.invariant (init_inv zero) fun _ _ _ hs hst => step_inv hs hst

/-- **A batch becomes visible all at once.**  A step either leaves what has been
accepted as it is, or appends the whole batch of the push in progress to what is
published. -/
theorem Inv.visible_at_once {s t : Spsc α} (h : s.Inv) (hst : Step s t) :
    (t.accepted = s.accepted ∧
        t.delivered ++ t.ring.published = s.delivered ++ s.ring.published) ∨
      ∃ pc, s.push = some pc ∧ t.accepted = s.accepted ++ [pc.items] ∧
        t.delivered = s.delivered ∧ t.ring.published = s.ring.published ++ pc.items := by
  have ht := step_inv h hst
  have hkeep : t.accepted = s.accepted →
      t.delivered ++ t.ring.published = s.delivered ++ s.ring.published := fun hacc => by
    rw [← ht.stream_eq, ← h.stream_eq, hacc]
  cases hst with
  | callPush items hitems _ => exact Or.inl ⟨rfl, hkeep rfl⟩
  | push pc hpc =>
    obtain ⟨-, -, hdel, ⟨-, hacc, -⟩ | ⟨-, heq, -⟩ | ⟨-, -, hacc⟩⟩ := advancePush_spec h hpc
    · exact Or.inl ⟨hacc, hkeep hacc⟩
    · have hacc : (s.advancePush pc).1.accepted = s.accepted := by rw [heq]; rfl
      exact Or.inl ⟨hacc, hkeep hacc⟩
    · exact Or.inr ⟨pc, hpc, hacc, hdel, h.published_eq_append ht hacc hdel⟩
  | crashPush => exact Or.inl ⟨rfl, hkeep rfl⟩
  | callPop maxCount hmax _ => exact Or.inl ⟨rfl, hkeep rfl⟩
  | pop pc hpc =>
    have hacc := (advancePop_spec h hpc).2.2.1
    exact Or.inl ⟨hacc, hkeep hacc⟩
  | crashPop => exact Or.inl ⟨rfl, hkeep rfl⟩

/-- From current indices the test for room is a test of what is published. -/
theorem Inv.refuses_iff {s : Spsc α} (h : s.Inv) {n : ℕ} (hn : n ≤ 1024) :
    refuses s.ring.head s.ring.tail n = true ↔ 131071 ≤ s.ring.published.length + n := by
  have hroom := h.room
  rw [h.head_eq, h.tail_eq, h.length_published]
  exact refuses_slot_iff h.le (by omega) hn

/-- The occupancy computed from current indices is the number of published items. -/
theorem Inv.toNat_used {s : Spsc α} (h : s.Inv) :
    (used s.ring.head s.ring.tail).toNat = s.ring.published.length := by
  have hroom := h.room
  rw [h.head_eq, h.tail_eq, h.length_published]
  exact toNat_used_slot h.le (by omega)

/-- The ring never holds more than `SHM_RING_SIZE - 2` items. -/
theorem Inv.length_published_le {s : Spsc α} (h : s.Inv) : s.ring.published.length ≤ 131070 := by
  have hroom := h.room
  rw [h.length_published]
  omega

/-- **When a push is refused.**  Only the step that loads `tail` refuses; the
occupancy it computes there is the number of published items, and it refuses
exactly when that and the batch come to `SHM_RING_SIZE - 1` or more. -/
theorem Inv.refused_iff {s : Spsc α} (h : s.Inv) {pc : PushPc α} (hpc : s.push = some pc) :
    (s.advancePush pc).2 = some false ↔
      ∃ items hd, pc = .loadTail items hd ∧
        (used hd s.ring.tail).toNat = s.ring.published.length ∧
        shmRingSize.toNat - 1 ≤ (used hd s.ring.tail).toNat + items.length := by
  have hpush := h.pushInv pc hpc
  cases pc with
  | loadHead items => simp [advancePush, pushStep]
  | loadTail items hd =>
    obtain ⟨hitems, rfl⟩ := hpush
    rw [← h.head_eq]
    have hiff := h.refuses_iff hitems
    constructor
    · intro hf
      refine ⟨items, _, rfl, h.toNat_used, ?_⟩
      cases hr : refuses s.ring.head s.ring.tail items.length with
      | true =>
        rw [h.toNat_used]
        exact hiff.mp hr
      | false =>
        rw [advancePush_fits hr] at hf
        exact absurd hf (by simp)
    · rintro ⟨items', hd', heq, hocc, hfull⟩
      obtain ⟨rfl, rfl⟩ := PushPc.loadTail.inj heq
      rw [hocc] at hfull
      rw [advancePush_refused (hiff.mpr hfull)]
  | copy items hd i =>
    cases hx : items[i]? <;> simp [advancePush, pushStep, hx]

/-- **The ring is a queue.**  In every run of one producer and one consumer on a
zeroed ring, under every interleaving of their memory accesses and with crashes
and restarts of either side: what has been delivered is a prefix of what has been
accepted, in order; the rest of it lies published, intact, in the ring; a batch
becomes visible all at once; and a push is refused exactly when the occupancy it
computed --- the number of published items --- and its batch come to
`SHM_RING_SIZE - 1` or more, in which case the ring is left as it was. -/
theorem ring_is_queue (zero : α) {s : Spsc α} (hs : Reachable Step (init zero) s) :
    s.delivered <+: s.accepted.flatten ∧
    s.accepted.flatten = s.delivered ++ s.ring.published ∧
    (∀ t, Step s t →
      (t.accepted = s.accepted ∧
          t.delivered ++ t.ring.published = s.delivered ++ s.ring.published) ∨
        ∃ pc, s.push = some pc ∧ t.accepted = s.accepted ++ [pc.items] ∧
          t.delivered = s.delivered ∧ t.ring.published = s.ring.published ++ pc.items) ∧
    (∀ pc, s.push = some pc →
      ((s.advancePush pc).2 = some false ↔
        ∃ items hd, pc = .loadTail items hd ∧
          (used hd s.ring.tail).toNat = s.ring.published.length ∧
          shmRingSize.toNat - 1 ≤ (used hd s.ring.tail).toNat + items.length) ∧
      ((s.advancePush pc).2 = some false → (s.advancePush pc).1.ring = s.ring)) := by
  have h := reachable_inv hs
  refine ⟨⟨_, h.stream_eq.symm⟩, h.stream_eq, fun t hst => h.visible_at_once hst,
    fun pc hpc => ⟨h.refused_iff hpc, fun hf => ?_⟩⟩
  obtain ⟨-, -, -, ⟨hnone, -⟩ | ⟨-, heq, -⟩ | ⟨htrue, -⟩⟩ := advancePush_spec h hpc
  · rw [hnone] at hf
    exact absurd hf (by simp)
  · rw [heq]
    rfl
  · rw [htrue] at hf
    exact absurd hf (by simp)

/-- One batch through the ring, with a producer crash in front of it. -/
theorem ring_is_queue_one_batch :
    ∃ s : Spsc ℕ, s.delivered = [7] ∧ s.accepted = [[7, 8]] ∧
      s.accepted.flatten = s.delivered ++ s.ring.published := by
  have h0 : Reachable Step (init 0) (init 0) := Reachable.refl
  have h1 := h0.tail (.callPush [5] (by decide) rfl)
  have h2 := (h1.tail (.push _ rfl)).tail .crashPush
  have h3 := h2.tail (.callPush [7, 8] (by decide) rfl)
  have h4 := (h3.tail (.push _ rfl)).tail (.push _ rfl)
  have h5 := (h4.tail (.push _ rfl)).tail (.push _ rfl)
  have h6 := (h5.tail (.push _ rfl)).tail (.callPop 1 (by decide) rfl)
  have h7 := (h6.tail (.pop _ rfl)).tail (.pop _ rfl)
  have h8 := (h7.tail (.pop _ rfl)).tail (.pop _ rfl)
  exact ⟨_, rfl, rfl, (ring_is_queue 0 h8).2.1⟩

end Spsc
end Nsr
