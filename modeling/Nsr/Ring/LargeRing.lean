import Nsr.Lib.CyclicBuffer
import Mathlib.Data.List.Infix

/-!
# The ring of snapshots

The second ring of `include/nsr/shm_ring.h` has 16 slots of 16384 cells, and an item is copied into
its slot, and out of it, while the other side runs.  As for the ring of batches a call is a program
counter that `pushStep` and `popStep` advance by one memory access; here the copy of an item is one
access for each of its cells, so that a side may see half an item of the other.

`LargeSpsc` is the ring with its two sides and with two histories that no code reads, the items
accepted and the items obtained.  The ring may be found at any position, with anything in its slots,
as long as it is empty.

* `Inv`: the invariant, over stream positions that never wrap.  A push in the middle of its copy
  has a slot to itself, because there is one more slot than items.
* `advancePush_spec`, `advancePop_spec`: what one access of either side can do.
-/

namespace Nsr

universe u

variable {β : Type u}

open CyclicBuffer

/-- `nsr_shm_ring_large_t`; the cells of all slots lie one behind the other. -/
structure ShmRingLarge (β : Type u) where
  head : UInt32
  tail : UInt32
  data : ℕ → β

namespace ShmRingLarge

/-- The size of a slot. -/
def slotSize : ℕ := 16384

/-- `&r->data[h][i]`. -/
def cell (h : UInt32) (i : ℕ) : ℕ := slotSize * h.toNat + i

/-- `(h + 1) & 15`. -/
def next (h : UInt32) : UInt32 := (h + 1) &&& 15

/-- Where a call of `nsr_shm_ring_large_push` stands. -/
inductive PushPc (β : Type u) where
  /-- Called with an item; `head` not loaded yet. -/
  | loadHead (item : List β)
  /-- `head` loaded as `h`; `tail` not loaded yet. -/
  | loadTail (item : List β) (h : UInt32)
  /-- There is room; the first `i` cells are copied. -/
  | copy (item : List β) (h : UInt32) (i : ℕ)

/-- The item a call was given. -/
def PushPc.item : PushPc β → List β
  | .loadHead item => item
  | .loadTail item _ => item
  | .copy item _ _ => item

/-- **`nsr_shm_ring_large_push`**, one memory access of it. -/
def pushStep (r : ShmRingLarge β) : PushPc β → ShmRingLarge β × (PushPc β ⊕ Bool)
  | .loadHead item => (r, .inl (.loadTail item r.head))
  | .loadTail item h => if next h = r.tail then (r, .inr false) else (r, .inl (.copy item h 0))
  | .copy item h i =>
      match item[i]? with
      | some x =>
          ({ r with data := Function.update r.data (cell h i) x }, .inl (.copy item h (i + 1)))
      | none => ({ r with head := next h }, .inr true)

/-- Where a call of `nsr_shm_ring_large_pop` stands. -/
inductive PopPc (β : Type u) where
  /-- Called for an item of `size` cells; `tail` not loaded yet. -/
  | loadTail (size : ℕ)
  /-- `tail` loaded as `t`; `head` not loaded yet. -/
  | loadHead (size : ℕ) (t : UInt32)
  /-- There is an item; `out` holds the cells already copied. -/
  | copy (size : ℕ) (t : UInt32) (out : List β)

/-- **`nsr_shm_ring_large_pop`**, one memory access of it; it ends with the item, if any. -/
def popStep (r : ShmRingLarge β) : PopPc β → ShmRingLarge β × (PopPc β ⊕ Option (List β))
  | .loadTail size => (r, .inl (.loadHead size r.tail))
  | .loadHead size t => if t = r.head then (r, .inr none) else (r, .inl (.copy size t []))
  | .copy size t out =>
      if out.length < size then
        (r, .inl (.copy size t (out ++ [r.data (cell t out.length)])))
      else ({ r with tail := next t }, .inr (some out))

/-! ## Stream positions -/

/-- The index of a stream position. -/
def slot (k : ℕ) : UInt32 := UInt32.ofNat (k % 16)

theorem toNat_slot (k : ℕ) : (slot k).toNat = k % 16 := by
  rw [slot, UInt32.toNat_ofNat']
  omega

theorem next_slot (k : ℕ) : next (slot k) = slot (k + 1) := by
  apply UInt32.toNat_inj.mp
  rw [next, UInt32.toNat_and, UInt32.toNat_add, toNat_slot, toNat_slot,
    show (15 : UInt32).toNat = 2 ^ 4 - 1 by decide, Nat.and_two_pow_sub_one_eq_mod,
    show (1 : UInt32).toNat = 1 by decide]
  omega

theorem slot_windowInjective : WindowInjective slot 16 := by
  intro i j hij hj h
  have := congrArg UInt32.toNat h
  rw [toNat_slot, toNat_slot] at this
  omega

/-- The test of a push, on positions. -/
theorem next_slot_eq_iff {H T : ℕ} (hle : T ≤ H) (hlt : H ≤ T + 15) :
    next (slot H) = slot T ↔ H = T + 15 := by
  rw [next_slot]
  constructor
  · intro h
    have := congrArg UInt32.toNat h
    rw [toNat_slot, toNat_slot] at this
    omega
  · rintro rfl
    apply UInt32.toNat_inj.mp
    rw [toNat_slot, toNat_slot]
    omega

/-- The test of a pop, on positions. -/
theorem slot_eq_iff {H T : ℕ} (hle : T ≤ H) (hlt : H ≤ T + 15) : slot T = slot H ↔ H = T := by
  constructor
  · intro h
    have := congrArg UInt32.toNat h
    rw [toNat_slot, toNat_slot] at this
    omega
  · rintro rfl
    rfl

/-! ## The cells of a slot -/

/-- The first `n` cells of a slot. -/
def cells (data : ℕ → β) (n : ℕ) (h : UInt32) : List β := segment (cell h) data 0 n

theorem cell_windowInjective (h : UInt32) (N : ℕ) : WindowInjective (cell h) N := by
  intro i j hij _ heq
  rw [cell, cell] at heq
  omega

/-- A write into one slot leaves the others alone. -/
theorem cells_update_of_ne {data : ℕ → β} {h h' : UInt32} (hne : h' ≠ h) {n i : ℕ}
    (hn : n ≤ slotSize) (hi : i < slotSize) (x : β) :
    cells (Function.update data (cell h i) x) n h' = cells data n h' := by
  refine segment_update_of_ne fun j hj heq => hne (UInt32.toNat_inj.mp ?_)
  rw [cell, cell] at heq
  simp only [slotSize] at heq hn hi
  omega

theorem cells_update_succ {data : ℕ → β} {h : UInt32} {i : ℕ} (x : β) :
    cells (Function.update data (cell h i) x) (i + 1) h = cells data i h ++ [x] := by
  have hext : segment (cell h) (Function.update data (cell h (0 + i)) x) 0 (i + 1) =
      segment (cell h) data 0 i ++ [x] :=
    segment_update_succ (cell_windowInjective h (i + 1)) (Nat.lt_succ_self i)
  rw [Nat.zero_add] at hext
  exact hext

theorem cells_succ {data : ℕ → β} {h : UInt32} (i : ℕ) :
    cells data (i + 1) h = cells data i h ++ [data (cell h i)] := by
  rw [cells, segment_succ, Nat.zero_add]
  rfl

end ShmRingLarge

open ShmRingLarge

/-- A ring of snapshots with its two sides.  `none` is a side between two calls. -/
structure LargeSpsc (β : Type u) where
  ring : ShmRingLarge β
  push : Option (PushPc β)
  pop : Option (PopPc β)
  /-- The items accepted so far (history, read by no code). -/
  accepted : List (List β)
  /-- The items obtained so far (history, read by no code). -/
  obtained : List (List β)

namespace LargeSpsc

/-- Both sides idle on an empty ring: `start` is where both indices stand, and `data` is what the
slots happen to hold. -/
def init (start : ℕ) (data : ℕ → β) : LargeSpsc β :=
  ⟨⟨slot start, slot start, data⟩, none, none, [], []⟩

/-- The producer enters `nsr_shm_ring_large_push`. -/
def callPush (s : LargeSpsc β) (item : List β) : LargeSpsc β :=
  { s with push := some (.loadHead item) }

/-- The consumer enters `nsr_shm_ring_large_pop`. -/
def callPop (s : LargeSpsc β) (size : ℕ) : LargeSpsc β :=
  { s with pop := some (.loadTail size) }

/-- One memory access of the producer's call, with the value returned if the call ends there. -/
def advancePush (s : LargeSpsc β) (pc : PushPc β) : LargeSpsc β × Option Bool :=
  match pushStep s.ring pc with
  | (r, .inl pc') => ({ s with ring := r, push := some pc' }, none)
  | (r, .inr true) =>
      ({ s with ring := r, push := none, accepted := s.accepted ++ [pc.item] }, some true)
  | (r, .inr false) => ({ s with ring := r, push := none }, some false)

/-- One memory access of the consumer's call. -/
def advancePop (s : LargeSpsc β) (pc : PopPc β) : LargeSpsc β :=
  match popStep s.ring pc with
  | (r, .inl pc') => { s with ring := r, pop := some pc' }
  | (r, .inr none) => { s with ring := r, pop := none }
  | (r, .inr (some out)) => { s with ring := r, pop := none, obtained := s.obtained ++ [out] }

/-! ## The invariant -/

section Invariant

variable (start size : ℕ)

/-- The producer's position in the stream. -/
def headPos (s : LargeSpsc β) : ℕ := start + s.accepted.length

/-- The consumer's position in the stream. -/
def tailPos (s : LargeSpsc β) : ℕ := start + s.obtained.length

/-- What a push in progress knows.  Past the test there is a slot between `head` and the item that
the consumer may be reading, and the copied part is in place. -/
def PushInv (s : LargeSpsc β) : PushPc β → Prop
  | .loadHead item => item.length = size
  | .loadTail item h => item.length = size ∧ h = slot (s.headPos start)
  | .copy item h i =>
      item.length = size ∧ h = slot (s.headPos start) ∧ i ≤ size ∧
        s.headPos start < s.tailPos start + 15 ∧ cells s.ring.data i h = item.take i

/-- What a pop in progress knows.  Past the test there is an item, and the copied part is its
front. -/
def PopInv (s : LargeSpsc β) : PopPc β → Prop
  | .loadTail size' => size' = size
  | .loadHead size' t => size' = size ∧ t = slot (s.tailPos start)
  | .copy size' t out =>
      size' = size ∧ t = slot (s.tailPos start) ∧ s.tailPos start < s.headPos start ∧
        out.length ≤ size ∧ out = cells s.ring.data out.length t

/-- The invariant of the ring and both of its sides. -/
structure Inv (s : LargeSpsc β) : Prop where
  head_eq : s.ring.head = slot (s.headPos start)
  tail_eq : s.ring.tail = slot (s.tailPos start)
  le : s.tailPos start ≤ s.headPos start
  room : s.headPos start ≤ s.tailPos start + 15
  stream : s.accepted = s.obtained ++ segment slot (cells s.ring.data size) (s.tailPos start)
    (s.headPos start - s.tailPos start)
  pushInv : ∀ pc, s.push = some pc → s.PushInv start size pc
  popInv : ∀ pc, s.pop = some pc → s.PopInv start size pc

end Invariant

variable {start size : ℕ}

theorem init_inv (start size : ℕ) (data : ℕ → β) : (init start data).Inv start size where
  head_eq := rfl
  tail_eq := rfl
  le := le_rfl
  room := Nat.le_add_right _ _
  stream := by simp [init, headPos, tailPos]
  pushInv := by simp [init]
  popInv := by simp [init]

/-- The items obtained are the first ones of those accepted. -/
theorem Inv.obtained_prefix {s : LargeSpsc β} (h : s.Inv start size) :
    s.obtained <+: s.accepted :=
  ⟨_, h.stream.symm⟩

/-- The items accepted and not yet obtained. -/
theorem unpopped_eq (s : LargeSpsc β) (start : ℕ) :
    s.accepted.length - s.obtained.length = s.headPos start - s.tailPos start := by
  simp only [headPos, tailPos]
  omega

/-- The producer moves on within its call, or out of it without having published anything. -/
theorem Inv.withPush {s : LargeSpsc β} (h : s.Inv start size) {push : Option (PushPc β)}
    (hpush : ∀ pc, push = some pc → s.PushInv start size pc) :
    ({ s with push := push } : LargeSpsc β).Inv start size :=
  ⟨h.head_eq, h.tail_eq, h.le, h.room, h.stream, hpush, h.popInv⟩

/-- The consumer moves on within its call, or out of it with nothing. -/
theorem Inv.withPop {s : LargeSpsc β} (h : s.Inv start size) {pop : Option (PopPc β)}
    (hpop : ∀ pc, pop = some pc → s.PopInv start size pc) :
    ({ s with pop := pop } : LargeSpsc β).Inv start size :=
  ⟨h.head_eq, h.tail_eq, h.le, h.room, h.stream, h.pushInv, hpop⟩

theorem callPush_inv {s : LargeSpsc β} (h : s.Inv start size) {item : List β}
    (hitem : item.length = size) : (s.callPush item).Inv start size :=
  h.withPush fun pc hpc => by
    obtain rfl : PushPc.loadHead item = pc := Option.some.inj hpc
    exact hitem

theorem callPop_inv {s : LargeSpsc β} (h : s.Inv start size) : (s.callPop size).Inv start size :=
  h.withPop fun pc hpc => by
    obtain rfl : PopPc.loadTail size = pc := Option.some.inj hpc
    rfl

/-- **Copying a cell in.**  The slot written is neither published nor the one being read. -/
theorem Inv.copyCell {s : LargeSpsc β} (h : s.Inv start size) (hsize : size ≤ slotSize)
    {item : List β} {i : ℕ} {x : β}
    (hpc : s.PushInv start size (.copy item (slot (s.headPos start)) i)) (hx : item[i]? = some x) :
    ({ s with
        ring := { s.ring with
          data := Function.update s.ring.data (cell (slot (s.headPos start)) i) x }
        push := some (.copy item (slot (s.headPos start)) (i + 1)) } :
      LargeSpsc β).Inv start size := by
  obtain ⟨hlen, -, hi, hroom, hcopied⟩ := hpc
  obtain ⟨hlt, -⟩ := List.getElem?_eq_some_iff.mp hx
  have hle := h.le
  have hother : ∀ k, s.tailPos start ≤ k → k < s.headPos start → ∀ n, n ≤ size →
      cells (Function.update s.ring.data (cell (slot (s.headPos start)) i) x) n (slot k) =
        cells s.ring.data n (slot k) := fun k hk hk' n hn =>
    cells_update_of_ne (slot_windowInjective k _ hk' (by omega)) (by omega) (by omega) x
  refine ⟨h.head_eq, h.tail_eq, h.le, h.room, ?_, ?_, ?_⟩
  · show s.accepted = s.obtained ++ segment slot
      (cells (Function.update s.ring.data _ x) size) (s.tailPos start)
      (s.headPos start - s.tailPos start)
    refine h.stream.trans (congrArg (s.obtained ++ ·) (List.map_congr_left fun j hj => ?_))
    have hj' := List.mem_range.mp hj
    exact (hother _ (by omega) (by omega) size le_rfl).symm
  · intro pc hpc
    obtain rfl : PushPc.copy item (slot (s.headPos start)) (i + 1) = pc := Option.some.inj hpc
    refine ⟨hlen, rfl, by omega, hroom, ?_⟩
    show cells (Function.update s.ring.data _ x) (i + 1) _ = _
    rw [cells_update_succ, hcopied, List.take_add_one, hx, Option.toList_some]
  · intro pc hpc
    have hpop := h.popInv pc hpc
    cases pc with
    | loadTail size' => exact hpop
    | loadHead size' t => exact hpop
    | copy size' t out =>
      obtain ⟨hsz, rfl, hitem, hout, heq⟩ := hpop
      refine ⟨hsz, rfl, hitem, hout, ?_⟩
      show out = cells (Function.update s.ring.data _ x) out.length _
      rw [hother _ le_rfl hitem _ hout]
      exact heq

/-- **Publishing `head`.**  The copied item becomes part of the stream at once. -/
theorem Inv.publishHead {s : LargeSpsc β} (h : s.Inv start size) {item : List β}
    (hpc : s.PushInv start size (.copy item (slot (s.headPos start)) size)) :
    ({ s with
        ring := { s.ring with head := slot (s.headPos start + 1) }
        push := none
        accepted := s.accepted ++ [item] } : LargeSpsc β).Inv start size := by
  obtain ⟨hlen, -, -, hroom, hcopied⟩ := hpc
  rw [← hlen, List.take_length, hlen] at hcopied
  have hle := h.le
  have hpos : start + (s.accepted ++ [item]).length = s.headPos start + 1 := by
    rw [List.length_append, headPos, List.length_singleton]
    omega
  refine ⟨?_, h.tail_eq, ?_, ?_, ?_, by simp, ?_⟩
  · exact congrArg slot hpos.symm
  · show s.tailPos start ≤ start + (s.accepted ++ [item]).length
    omega
  · show start + (s.accepted ++ [item]).length ≤ s.tailPos start + 15
    omega
  · show s.accepted ++ [item] = s.obtained ++ segment slot (cells s.ring.data size)
      (s.tailPos start) (start + (s.accepted ++ [item]).length - s.tailPos start)
    rw [hpos, Nat.sub_add_comm hle, segment_succ, ← List.append_assoc, ← h.stream,
      Nat.add_sub_cancel' hle, hcopied]
  · intro pc hpc
    have hpop := h.popInv pc hpc
    cases pc with
    | loadTail size' => exact hpop
    | loadHead size' t => exact hpop
    | copy size' t out =>
      obtain ⟨hsz, ht, hitem, hrest⟩ := hpop
      refine ⟨hsz, ht, ?_, hrest⟩
      show s.tailPos start < start + (s.accepted ++ [item]).length
      omega

/-- **Publishing `tail`.**  The copied item leaves the ring, and its slot may be written again. -/
theorem Inv.publishTail {s : LargeSpsc β} (h : s.Inv start size) {out : List β}
    (hpc : s.PopInv start size (.copy size (slot (s.tailPos start)) out))
    (hfull : ¬out.length < size) :
    ({ s with
        ring := { s.ring with tail := slot (s.tailPos start + 1) }
        pop := none
        obtained := s.obtained ++ [out] } : LargeSpsc β).Inv start size := by
  obtain ⟨-, -, hitem, hout, heq⟩ := hpc
  have hlen : out.length = size := by omega
  rw [hlen] at heq
  have hroom := h.room
  have hpos : start + (s.obtained ++ [out]).length = s.tailPos start + 1 := by
    rw [List.length_append, tailPos, List.length_singleton]
    omega
  refine ⟨h.head_eq, ?_, ?_, ?_, ?_, ?_, by simp⟩
  · exact congrArg slot hpos.symm
  · show start + (s.obtained ++ [out]).length ≤ s.headPos start
    omega
  · show s.headPos start ≤ start + (s.obtained ++ [out]).length + 15
    omega
  · show s.accepted = (s.obtained ++ [out]) ++ segment slot (cells s.ring.data size)
      (start + (s.obtained ++ [out]).length)
      (s.headPos start - (start + (s.obtained ++ [out]).length))
    rw [hpos, h.stream, List.append_assoc, show s.headPos start - s.tailPos start =
      1 + (s.headPos start - (s.tailPos start + 1)) by omega, segment_add]
    refine congrArg (fun l => s.obtained ++ (l ++ _)) ?_
    rw [segment_succ, segment_zero, List.nil_append, Nat.add_zero, ← heq]
  · intro pc hpc
    have hpush := h.pushInv pc hpc
    cases pc with
    | loadHead item => exact hpush
    | loadTail item hd => exact hpush
    | copy item hd i =>
      obtain ⟨hl, hh, hi, hfits, hcopied⟩ := hpush
      refine ⟨hl, hh, hi, ?_, hcopied⟩
      show s.headPos start < start + (s.obtained ++ [out]).length + 15
      omega

/-! ## What one access can do -/

/-- **The producer's accesses, all of them.**  A call goes on, or is refused because 15 items are
accepted and not obtained, or publishes its item. -/
theorem advancePush_spec {s : LargeSpsc β} (h : s.Inv start size) (hsize : size ≤ slotSize)
    {pc : PushPc β} (hpc : s.push = some pc) :
    (s.advancePush pc).1.Inv start size ∧ (s.advancePush pc).1.obtained = s.obtained ∧
      (((s.advancePush pc).2 = none ∧ (s.advancePush pc).1.accepted = s.accepted ∧
          ∃ pc', (s.advancePush pc).1.push = some pc' ∧ pc'.item = pc.item) ∨
        ((s.advancePush pc).2 = some false ∧ (s.advancePush pc).1.push = none ∧
          (s.advancePush pc).1.accepted = s.accepted ∧ (∃ item hd, pc = .loadTail item hd) ∧
          s.accepted.length - s.obtained.length = 15) ∨
        ((s.advancePush pc).2 = some true ∧ (s.advancePush pc).1.push = none ∧
          (s.advancePush pc).1.accepted = s.accepted ++ [pc.item])) := by
  have hpush := h.pushInv pc hpc
  have hle := h.le
  have hroom := h.room
  have hwith : ∀ {pc'}, s.PushInv start size pc' →
      ({ s with push := some pc' } : LargeSpsc β).Inv start size := fun hpc' =>
    h.withPush fun pc'' hpc'' => Option.some.inj hpc'' ▸ hpc'
  cases pc with
  | loadHead item =>
    exact ⟨hwith ⟨hpush, h.head_eq⟩, rfl, .inl ⟨rfl, rfl, _, rfl, rfl⟩⟩
  | loadTail item hd =>
    obtain ⟨hlen, rfl⟩ := hpush
    have hiff := next_slot_eq_iff hle hroom
    by_cases hfull : next (slot (s.headPos start)) = s.ring.tail
    · have heq : s.advancePush (.loadTail item (slot (s.headPos start))) =
          ({ s with push := none }, some false) := by simp [advancePush, pushStep, hfull]
      rw [h.tail_eq] at hfull
      rw [heq]
      refine ⟨h.withPush (by simp), rfl, .inr (.inl ⟨rfl, rfl, rfl, ⟨_, _, rfl⟩, ?_⟩)⟩
      have := hiff.mp hfull
      rw [unpopped_eq s start]
      omega
    · have heq : s.advancePush (.loadTail item (slot (s.headPos start))) =
          ({ s with push := some (.copy item (slot (s.headPos start)) 0) }, none) := by
        simp [advancePush, pushStep, hfull]
      rw [h.tail_eq] at hfull
      rw [heq]
      have hne := mt hiff.mpr hfull
      exact ⟨hwith ⟨hlen, rfl, Nat.zero_le _, by omega, rfl⟩, rfl, .inl ⟨rfl, rfl, _, rfl, rfl⟩⟩
  | copy item hd i =>
    obtain ⟨hlen, rfl, hi, hfits, hcopied⟩ := hpush
    cases hx : item[i]? with
    | some x =>
      have heq : s.advancePush (.copy item (slot (s.headPos start)) i) =
          ({ s with
              ring := { s.ring with
                data := Function.update s.ring.data (cell (slot (s.headPos start)) i) x }
              push := some (.copy item (slot (s.headPos start)) (i + 1)) }, none) := by
        simp [advancePush, pushStep, hx]
      rw [heq]
      exact ⟨h.copyCell hsize ⟨hlen, rfl, hi, hfits, hcopied⟩ hx, rfl,
        .inl ⟨rfl, rfl, _, rfl, rfl⟩⟩
    | none =>
      obtain rfl : i = size := by
        have := List.getElem?_eq_none_iff.mp hx
        omega
      have heq : s.advancePush (.copy item (slot (s.headPos start)) i) =
          ({ s with
              ring := { s.ring with head := slot (s.headPos start + 1) }
              push := none
              accepted := s.accepted ++ [item] }, some true) := by
        simp [advancePush, pushStep, hx, next_slot, PushPc.item]
      rw [heq]
      exact ⟨h.publishHead ⟨hlen, rfl, hi, hfits, hcopied⟩, rfl, .inr (.inr ⟨rfl, rfl, rfl⟩)⟩

/-- **The consumer's accesses, all of them.** -/
theorem advancePop_spec {s : LargeSpsc β} (h : s.Inv start size) {pc : PopPc β}
    (hpc : s.pop = some pc) :
    (s.advancePop pc).Inv start size ∧ (s.advancePop pc).push = s.push ∧
      (s.advancePop pc).accepted = s.accepted := by
  have hpop := h.popInv pc hpc
  have hwith : ∀ {pc'}, s.PopInv start size pc' →
      ({ s with pop := some pc' } : LargeSpsc β).Inv start size := fun hpc' =>
    h.withPop fun pc'' hpc'' => Option.some.inj hpc'' ▸ hpc'
  cases pc with
  | loadTail size' => exact ⟨hwith ⟨hpop, h.tail_eq⟩, rfl, rfl⟩
  | loadHead size' t =>
    obtain ⟨rfl, rfl⟩ := hpop
    by_cases hempty : slot (s.tailPos start) = s.ring.head
    · have heq : s.advancePop (.loadHead size' (slot (s.tailPos start))) = { s with pop := none } := by
        simp [advancePop, popStep, hempty]
      rw [heq]
      exact ⟨h.withPop (by simp), rfl, rfl⟩
    · have heq : s.advancePop (.loadHead size' (slot (s.tailPos start))) =
          { s with pop := some (.copy size' (slot (s.tailPos start)) []) } := by
        simp [advancePop, popStep, hempty]
      rw [h.head_eq, slot_eq_iff h.le h.room] at hempty
      rw [heq]
      have hle := h.le
      exact ⟨hwith ⟨rfl, rfl, by omega, Nat.zero_le _, rfl⟩, rfl, rfl⟩
  | copy size' t out =>
    obtain ⟨rfl, rfl, hitem, hout, hcopied⟩ := hpop
    by_cases hlt : out.length < size'
    · have heq : s.advancePop (.copy size' (slot (s.tailPos start)) out) =
          { s with pop := some (.copy size' (slot (s.tailPos start))
            (out ++ [s.ring.data (cell (slot (s.tailPos start)) out.length)])) } := by
        simp [advancePop, popStep, hlt]
      rw [heq]
      refine ⟨hwith ⟨rfl, rfl, hitem, ?_, ?_⟩, rfl, rfl⟩
      · rw [List.length_append, List.length_singleton]
        exact hlt
      · rw [List.length_append, List.length_singleton, cells_succ, ← hcopied]
    · have heq : s.advancePop (.copy size' (slot (s.tailPos start)) out) =
          { s with
            ring := { s.ring with tail := slot (s.tailPos start + 1) }
            pop := none
            obtained := s.obtained ++ [out] } := by
        simp [advancePop, popStep, hlt, next_slot]
      rw [heq]
      exact ⟨h.publishTail ⟨rfl, rfl, hitem, hout, hcopied⟩ hlt, rfl, rfl⟩

end LargeSpsc
end Nsr
