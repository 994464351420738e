import Nsr.Lib.CyclicBuffer
import Mathlib.Data.List.Infix

/-!
# The shared-memory ring

`include/nsr/shm_ring.h` is a single-producer, single-consumer ring of 131072
slots in memory two processes share.  The producer owns `head`, the consumer owns
`tail`; each side loads its own index, loads the other side's, copies slots and
then publishes its own index.  The other side can run between any two of these
accesses, and so can a crash, so a call is not one step here: `pushStep` and
`popStep` perform one memory access each, and a call is a program counter
(`PushPc`, `PopPc`) that they advance.  What a call computes without touching
shared memory --- the next index, the occupancy, the test for room --- happens
in the step that loads the index it needs.

The indices are 32-bit words masked to the ring size, as in the source.  Read as
stream positions they never wrap; `slot` is the way back from a position to its
index, and `mask_slot_add`, `toNat_used_slot` say that the masked word arithmetic of
the source is the arithmetic of positions as long as the two sides are less than
one turn apart.
-/

namespace Nsr

universe u

/-- `SHM_RING_SIZE`. -/
def shmRingSize : UInt32 := 131072

/-- The ring as it lies in shared memory: `nsr_shm_ring_t`, with the items of a
slot as one value. -/
structure ShmRing (α : Type u) where
  head : UInt32
  tail : UInt32
  data : UInt32 → α

namespace ShmRing

variable {α : Type u}

/-- `x & (SHM_RING_SIZE - 1)`. -/
def mask (x : UInt32) : UInt32 := x &&& (shmRingSize - 1)

/-- A zeroed ring; `zero` is the item whose bytes are all zero. -/
def zeroed (zero : α) : ShmRing α := ⟨0, 0, fun _ => zero⟩

/-- The occupancy a side computes from the two indices, `(h - t) & (SIZE - 1)`. -/
def used (h t : UInt32) : UInt32 := mask (h - t)

/-- What lies published in the ring: the slots from `tail` up to `head`. -/
def published (r : ShmRing α) : List α :=
  (List.range (used r.head r.tail).toNat).map fun i => r.data (mask (r.tail + UInt32.ofNat i))

theorem published_zeroed (zero : α) : (zeroed zero).published = [] := by
  simp [published, zeroed, used, mask]

/-! ## `nsr_shm_ring_push_batch` -/

/-- Where a call of `nsr_shm_ring_push_batch` stands. -/
inductive PushPc (α : Type u) where
  /-- Called with a batch; `head` not loaded yet. -/
  | loadHead (items : List α)
  /-- `head` loaded as `h`; `tail` not loaded yet. -/
  | loadTail (items : List α) (h : UInt32)
  /-- The batch fits; the first `i` items are copied. -/
  | copy (items : List α) (h : UInt32) (i : ℕ)

/-- The batch a call was given. -/
def PushPc.items : PushPc α → List α
  | .loadHead items => items
  | .loadTail items _ => items
  | .copy items _ _ => items

/-- `used + count >= SHM_RING_SIZE - 1`: the batch does not fit. -/
def refuses (h t : UInt32) (count : ℕ) : Bool :=
  decide (shmRingSize - 1 ≤ used h t + UInt32.ofNat count)

/-- One memory access of a push: the ring after it, and either the call's next
program counter or the value it returns. -/
def pushStep (r : ShmRing α) : PushPc α → ShmRing α × (PushPc α ⊕ Bool)
  | .loadHead items => (r, .inl (.loadTail items r.head))
  | .loadTail items h =>
      if refuses h r.tail items.length then (r, .inr false) else (r, .inl (.copy items h 0))
  | .copy items h i =>
      match items[i]? with
      | some x =>
          ({ r with data := Function.update r.data (mask (h + UInt32.ofNat i)) x },
            .inl (.copy items h (i + 1)))
      | none => ({ r with head := mask (h + UInt32.ofNat items.length) }, .inr true)

/-! ## `nsr_shm_ring_pop_batch` -/

/-- Where a call of `nsr_shm_ring_pop_batch` stands. -/
inductive PopPc (α : Type u) where
  /-- Called for at most `maxCount` items; `tail` not loaded yet. -/
  | loadTail (maxCount : ℕ)
  /-- `tail` loaded as `t`; `head` not loaded yet. -/
  | loadHead (maxCount : ℕ) (t : UInt32)
  /-- `count` items are to be copied, and `out` holds those already copied. -/
  | copy (t : UInt32) (count : ℕ) (out : List α)

/-- One memory access of a pop: the ring after it, and either the call's next
program counter or the items it returns. -/
def popStep (r : ShmRing α) : PopPc α → ShmRing α × (PopPc α ⊕ List α)
  | .loadTail maxCount => (r, .inl (.loadHead maxCount r.tail))
  | .loadHead maxCount t =>
      let available := used r.head t
      if available = 0 then (r, .inr [])
      else
        let count := if available < UInt32.ofNat maxCount then available.toNat else maxCount
        (r, .inl (.copy t count []))
  | .copy t count out =>
      if out.length < count then
        (r, .inl (.copy t count (out ++ [r.data (mask (t + UInt32.ofNat out.length))])))
      else ({ r with tail := mask (t + UInt32.ofNat count) }, .inr out)

/-! ## Stream positions -/

/-- The index of a stream position. -/
def slot (k : ℕ) : UInt32 := UInt32.ofNat (k % 131072)

theorem toNat_mask (x : UInt32) : (mask x).toNat = x.toNat % 131072 := by
  rw [mask, UInt32.toNat_and, show (shmRingSize - 1).toNat = 2 ^ 17 - 1 by decide,
    Nat.and_two_pow_sub_one_eq_mod]

theorem toNat_slot (k : ℕ) : (slot k).toNat = k % 131072 := by
  rw [slot, UInt32.toNat_ofNat']
  omega

/-- Masked addition on indices is addition on positions. -/
theorem mask_slot_add (k i : ℕ) : mask (slot k + UInt32.ofNat i) = slot (k + i) := by
  apply UInt32.toNat_inj.mp
  rw [toNat_mask, UInt32.toNat_add, toNat_slot, toNat_slot, UInt32.toNat_ofNat']
  omega

/-- Masked subtraction on indices is subtraction on positions, for positions less
than one turn apart. -/
theorem toNat_used_slot {H T : ℕ} (hle : T ≤ H) (hlt : H < T + 131072) :
    (used (slot H) (slot T)).toNat = H - T := by
  rw [used, toNat_mask, UInt32.toNat_sub, toNat_slot, toNat_slot]
  omega

theorem slot_windowInjective : CyclicBuffer.WindowInjective slot 131072 := by
  intro i j hij hj h
  have := congrArg UInt32.toNat h
  rw [toNat_slot, toNat_slot] at this
  omega

/-- The published slots, read as a window of the stream. -/
theorem published_eq_segment {r : ShmRing α} {H T : ℕ} (hh : r.head = slot H)
    (ht : r.tail = slot T) (hle : T ≤ H) (hlt : H < T + 131072) :
    r.published = CyclicBuffer.segment slot r.data T (H - T) := by
  rw [published, CyclicBuffer.segment, hh, ht, toNat_used_slot hle hlt]
  refine List.map_congr_left fun i _ => ?_
  rw [mask_slot_add]

/-- A batch of at most 1024 items is refused exactly when the positions in use
and the batch together come to `SHM_RING_SIZE - 1` or more: the 32-bit sum does
not wrap. -/
theorem refuses_slot_iff {H T n : ℕ} (hle : T ≤ H) (hlt : H < T + 131072) (hn : n ≤ 1024) :
    refuses (slot H) (slot T) n = true ↔ 131071 ≤ H - T + n := by
  rw [refuses, decide_eq_true_iff, UInt32.le_iff_toNat_le, UInt32.toNat_add,
    toNat_used_slot hle hlt, UInt32.toNat_ofNat', show (shmRingSize - 1).toNat = 131071 by decide]
  omega

end ShmRing
end Nsr
