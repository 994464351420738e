import Nsr.Ui.KeySlots
import Mathlib.Data.Finset.Card
import Mathlib.Data.Finset.Insert
import Mathlib.Data.Finset.Filter

/-!
# Keys that are given out instead

A built-in shortcut whose letter a plugin has reserved gets a letter of the row `QWERTYUIOP`.  The
row is gone through from its first letter on, without a look at who has the letter, and its first
letter is that of the shortcut which quits.

* `reservedBy`: the keys that the live plugins reserve.
* `Remapped`: the key table after some reserved keys.
* `remap_conflictFree_iff`: the table is free of conflicts if and only if no shortcut had to be
  moved.
-/

namespace Nsr
namespace KeyManager

/-- The letters of the built-in shortcuts, as the interface asks for them. -/
def builtins : List Char :=
  "qngmtzspd".toList

/-- The keys that the live plugins reserve, in the order in which `key_mgr_init` sees them. -/
def reservedBy (reg : Registry) : Bytes :=
  (reg.filter fun h => h.e.live).flatMap fun h => h.e.reservedKeys

/-- How far `key_mgr_init` gets in the row of slots. -/
def slotsUsed (reg : Registry) : ℕ :=
  (reg.foldl initEntry (⟨fun _ => 0⟩, 0)).2

/-- **No conflict**: no key belongs to two shortcuts, and as long as the row of slots lasts no key
of a shortcut is reserved by a live plugin. -/
structure ConflictFree (reg : Registry) : Prop where
  distinct : ∀ ch, ∀ b ∈ builtins, ∀ b' ∈ builtins, (init reg).isBoundTo b ch = true →
    (init reg).isBoundTo b' ch = true → b = b'
  unreserved : slotsUsed reg < fallbackSlots.length → ∀ ch, ∀ b ∈ builtins,
    (init reg).isBoundTo b ch = true → ∀ h ∈ reg, h.e.live = true → h.e.reservesKey ch = false

theorem builtinKeys_eq : builtinKeys = builtins.map ord := by decide

theorem ord_mem {b : Char} (hb : b ∈ builtins) : ord b ∈ builtinKeys := by
  rw [builtinKeys_eq]
  exact List.mem_map_of_mem hb

theorem foldl_initEntry (reg : Registry) (s : KeyManager × ℕ) :
    reg.foldl initEntry s = (reservedBy reg).foldl initKey s := by
  induction reg generalizing s with
  | nil => rfl
  | cons h reg ih =>
    rw [List.foldl_cons, ih, initEntry]
    cases hlive : h.e.live with
    | false =>
      have hskip : reservedBy (h :: reg) = reservedBy reg := by simp [reservedBy, hlive]
      rw [hskip]
      rfl
    | true =>
      have htake : reservedBy (h :: reg) = h.e.reservedKeys ++ reservedBy reg := by
        simp [reservedBy, hlive]
      rw [htake, List.foldl_append]
      rfl

theorem mem_reservedBy {reg : Registry} {k : UInt8} :
    k ∈ reservedBy reg ↔ ∃ h ∈ reg, h.e.live = true ∧ k ∈ h.e.reservedKeys := by
  simp only [reservedBy, List.mem_flatMap, List.mem_filter]
  exact ⟨fun ⟨h, ⟨hmem, hlive⟩, hk⟩ => ⟨h, hmem, hlive, hk⟩,
    fun ⟨h, hmem, hlive, hk⟩ => ⟨h, ⟨hmem, hlive⟩, hk⟩⟩

theorem any_tolower_iff (rk : UInt8) :
    (builtinKeys.any fun p => tolowerChar p == rk) = true ↔ rk ∈ builtinKeys := by
  have hlower : ∀ p ∈ builtinKeys, tolowerChar p = p := by decide +kernel
  rw [List.any_eq_true]
  constructor
  · rintro ⟨p, hp, heq⟩
    rw [← beq_iff_eq.mp heq, hlower p hp]
    exact hp
  · exact fun hrk => ⟨rk, hrk, beq_iff_eq.mpr (hlower rk hrk)⟩

/-- **What a reserved key does to the table.** -/
theorem initKey_cases (s : KeyManager × ℕ) (rk : UInt8) :
    ((rk ∉ builtinKeys ∨ s.1.remap rk ≠ 0 ∨ fallbackSlots.length ≤ s.2) ∧ initKey s rk = s) ∨
      (rk ∈ builtinKeys ∧ s.1.remap rk = 0 ∧ ∃ slot, fallbackSlots[s.2]? = some slot ∧
        initKey s rk = (⟨Function.update (Function.update s.1.remap rk slot) (toupperChar rk) slot⟩,
          s.2 + 1)) := by
  unfold initKey
  by_cases hrk : rk ∈ builtinKeys
  · rw [(any_tolower_iff rk).mpr hrk, Bool.not_true, if_neg Bool.false_ne_true]
    by_cases hfree : s.1.remap rk = 0
    · rw [if_neg (not_not.mpr hfree)]
      cases hslot : fallbackSlots[s.2]? with
      | none => exact .inl ⟨.inr (.inr (List.getElem?_eq_none_iff.mp hslot)), rfl⟩
      | some slot => exact .inr ⟨hrk, hfree, slot, rfl, rfl⟩
    · rw [if_pos hfree]
      exact .inl ⟨.inr (.inl hfree), rfl⟩
  · rw [Bool.eq_false_iff.mpr fun hany => hrk ((any_tolower_iff rk).mp hany), Bool.not_false,
      if_pos rfl]
    exact .inl ⟨.inl hrk, rfl⟩

/-- The shortcuts that were moved. -/
def moved (keys : KeyManager) : Finset UInt8 :=
  builtinKeys.toFinset.filter fun k => keys.remap k ≠ 0

/-- **The table after the reserved keys `seen`**, at a position in the row of slots. -/
structure Remapped (seen : Bytes) (s : KeyManager × ℕ) : Prop where
  reserved : ∀ k ∈ s.1.moved, k ∈ seen
  count : s.2 = s.1.moved.card
  /-- Where a shortcut had to be moved, one has the first letter of the row. -/
  first : (∃ k ∈ builtinKeys, k ∈ seen) → ∃ k ∈ builtinKeys, s.1.remap k = ord 'Q'

theorem Remapped.start : Remapped [] (⟨fun _ => 0⟩, 0) where
  reserved := by simp [moved]
  count := by simp [moved]
  first := by simp

theorem mem_moved {keys : KeyManager} {k : UInt8} :
    k ∈ keys.moved ↔ k ∈ builtinKeys ∧ keys.remap k ≠ 0 := by
  rw [moved, Finset.mem_filter, List.mem_toFinset]

/-- There are nine shortcuts. -/
theorem moved_card_le (keys : KeyManager) : keys.moved.card ≤ 9 :=
  (Finset.card_le_card (Finset.filter_subset _ _)).trans (by decide)

theorem Remapped.initKey {seen : Bytes} {s : KeyManager × ℕ} (h : Remapped seen s) (rk : UInt8) :
    Remapped (seen ++ [rk]) (initKey s rk) := by
  rcases initKey_cases s rk with ⟨hwhy, heq⟩ | ⟨hrk, hfree, slot, hslot, heq⟩
  · rw [heq]
    refine ⟨fun k hk => List.mem_append_left _ (h.reserved k hk), h.count, ?_⟩
    rintro ⟨k, hk, hmem⟩
    rcases List.mem_append.mp hmem with hmem | hmem
    · exact h.first ⟨k, hk, hmem⟩
    obtain rfl := List.mem_singleton.mp hmem
    rcases hwhy with hno | htaken | hfull
    · exact absurd hk hno
    · exact h.first ⟨k, hk, h.reserved k (mem_moved.mpr ⟨hk, htaken⟩)⟩
    · -- the row has ten letters
      have hle := moved_card_le s.1
      rw [h.count] at hfull
      exact absurd (hfull.trans hle) (by decide)
  · have hupper : ∀ k ∈ builtinKeys, ∀ k' ∈ builtinKeys, k ≠ toupperChar k' := by
      decide +kernel
    have hslot0 : ∀ x ∈ fallbackSlots, x ≠ 0 := by decide +kernel
    have hremap : ∀ k ∈ builtinKeys, (KeyManager.initKey s rk).1.remap k =
        if k = rk then slot else s.1.remap k := by
      intro k hk
      rw [heq]
      dsimp only
      rw [Function.update_of_ne (hupper k hk rk hrk), Function.update_apply]
    have hmoved : (KeyManager.initKey s rk).1.moved = insert rk s.1.moved := by
      ext k
      rw [Finset.mem_insert, mem_moved, mem_moved]
      by_cases hk : k ∈ builtinKeys
      · rw [hremap k hk, and_iff_right hk, and_iff_right hk]
        by_cases hkrk : k = rk
        · simp [hkrk, hslot0 slot (List.mem_of_getElem? hslot)]
        · simp [hkrk]
      · have hkrk : k ≠ rk := fun hcon => hk (hcon ▸ hrk)
        simp [hk, hkrk]
    have hnew : rk ∉ s.1.moved := fun hmem => (mem_moved.mp hmem).2 hfree
    refine ⟨fun k hk => ?_, ?_, fun _ => ?_⟩
    · rw [hmoved, Finset.mem_insert] at hk
      rcases hk with rfl | hk
      · exact List.mem_append_right _ (List.mem_singleton_self k)
      · exact List.mem_append_left _ (h.reserved k hk)
    · rw [hmoved, Finset.card_insert_of_notMem hnew, ← h.count, heq]
    · by_cases hfirst : s.2 = 0
      · rw [hfirst] at hslot
        refine ⟨rk, hrk, ?_⟩
        rw [hremap rk hrk, if_pos rfl]
        exact (Option.some_inj.mp hslot).symm
      · -- some shortcut was moved before, and it keeps its letter
        have hpos : 0 < s.1.moved.card := by
          rw [← h.count]
          exact Nat.pos_of_ne_zero hfirst
        obtain ⟨k, hk⟩ := Finset.card_pos.mp hpos
        obtain ⟨k', hk', hq⟩ := h.first ⟨k, (mem_moved.mp hk).1, h.reserved k hk⟩
        refine ⟨k', hk', ?_⟩
        rw [hremap k' hk', if_neg, hq]
        rintro rfl
        rw [hfree] at hq
        exact absurd hq (by decide)

theorem remapped_foldl (keys : Bytes) {seen : Bytes} {s : KeyManager × ℕ} (h : Remapped seen s) :
    Remapped (seen ++ keys) (keys.foldl KeyManager.initKey s) := by
  induction keys generalizing seen s with
  | nil => simpa using h
  | cons rk keys ih =>
    rw [List.foldl_cons, List.append_cons]
    exact ih (h.initKey rk)

theorem remapped_init (reg : Registry) :
    Remapped (reservedBy reg) (reg.foldl initEntry (⟨fun _ => 0⟩, 0)) := by
  rw [foldl_initEntry]
  exact remapped_foldl (reservedBy reg) .start

/-- The row of slots lasts. -/
theorem slotsUsed_lt (reg : Registry) : slotsUsed reg < fallbackSlots.length := by
  rw [slotsUsed, (remapped_init reg).count]
  exact Nat.lt_of_le_of_lt (moved_card_le _) (by decide)

/-- A shortcut is moved only where a live plugin reserves its letter. -/
theorem reserved_of_moved {reg : Registry} {k : UInt8} (hk : k ∈ builtinKeys)
    (hmoved : (init reg).remap k ≠ 0) : ∃ h ∈ reg, h.e.live = true ∧ k ∈ h.e.reservedKeys :=
  mem_reservedBy.mp ((remapped_init reg).reserved k (mem_moved.mpr ⟨hk, hmoved⟩))

/-- A shortcut that was not moved has the key of its letter, in either case. -/
theorem key_of_isBoundTo {keys : KeyManager} {b : Char} (hb : b ∈ builtins)
    (hkept : keys.remap (ord b) = 0) {ch : Int32} (hbound : keys.isBoundTo b ch = true) :
    tolowerChar (UInt8.ofNat ch.toInt.toNat) = ord b := by
  have hlower : (builtins.all fun b => tolowerChar (ord b) == ord b) = true := by decide
  rw [isBoundTo] at hbound
  split at hbound
  · exact absurd hbound Bool.false_ne_true
  · rw [hkept] at hbound
    rw [← beq_iff_eq.mp (List.all_eq_true.mp hlower b hb)]
    exact beq_iff_eq.mp hbound

/-- A plugin that reserves a key has the key in lower case in its list. -/
theorem mem_reservedKeys {e : Entry} {ch : Int32} (h : e.reservesKey ch = true) :
    tolowerChar (UInt8.ofNat ch.toInt.toNat) ∈ e.reservedKeys := by
  rw [Entry.reservesKey] at h
  split at h
  · exact absurd h Bool.false_ne_true
  · have hkey := List.contains_iff_mem.mp h
    simpa only [tolowerChar, Bool.and_eq_true, decide_eq_true_eq] using hkey

/-- **Remapped keys are never free of conflicts.**  The table is free of conflicts exactly if no
live plugin reserves the letter of a shortcut: the first one that is moved gets the key of the
shortcut that quits. -/
theorem remap_conflictFree_iff (reg : Registry) :
    ConflictFree reg ↔
      ∀ h ∈ reg, h.e.live = true → ∀ k ∈ h.e.reservedKeys, k ∉ builtinKeys := by
  constructor
  · intro hfree h hh hlive k hk hbuiltin
    obtain ⟨k₀, hk₀, hQ⟩ :=
      (remapped_init reg).first ⟨k, hbuiltin, mem_reservedBy.mpr ⟨h, hh, hlive, hk⟩⟩
    rw [builtinKeys_eq, List.mem_map] at hk₀
    obtain ⟨b, hb, rfl⟩ := hk₀
    -- the shortcut `b` has the key `q`
    have hbound : (init reg).isBoundTo b 113 = true := by
      have hremap : (init reg).remap (ord b) = ord 'Q' := hQ
      rw [isBoundTo, if_neg (by decide), hremap]
      rfl
    by_cases hq : (init reg).remap (ord 'q') = 0
    · have hquit : (init reg).isBoundTo 'q' 113 = true := by
        rw [isBoundTo, if_neg (by decide), hq]
        decide
      obtain rfl := hfree.distinct 113 b hb 'q' (by decide) hbound hquit
      rw [show (init reg).remap (ord 'q') = ord 'Q' from hQ] at hq
      exact absurd hq (by decide)
    · obtain ⟨h', hh', hlive', hres⟩ := reserved_of_moved (by decide) hq
      have hno := hfree.unreserved (slotsUsed_lt reg) 113 b hb hbound h' hh' hlive'
      have hyes : h'.e.reservesKey 113 = true := List.contains_iff_mem.mpr hres
      rw [hyes] at hno
      exact absurd hno (by decide)
  · intro hnone
    have hremap : ∀ b ∈ builtins, (init reg).remap (ord b) = 0 := by
      intro b hb
      by_contra hmoved
      obtain ⟨h, hh, hlive, hres⟩ := reserved_of_moved (ord_mem hb) hmoved
      exact hnone h hh hlive _ hres (ord_mem hb)
    refine ⟨fun ch b hb b' hb' h h' => ?_, fun _ ch b hb hch h hh hlive => ?_⟩
    · have hnodup : (builtins.map ord).Nodup := by decide
      have hsame : ord b = ord b' :=
        (key_of_isBoundTo hb (hremap b hb) h).symm.trans (key_of_isBoundTo hb' (hremap b' hb') h')
      exact List.inj_on_of_nodup_map hnodup hb hb' hsame
    · rw [Bool.eq_false_iff]
      intro hreserves
      have hmem := mem_reservedKeys hreserves
      rw [key_of_isBoundTo hb (hremap b hb) hch] at hmem
      exact hnone h hh hlive _ hmem (ord_mem hb)

/-- A running plugin that reserves `n`. -/
def reservingN : Host :=
  { Host.spawned (cs "demo") with
    e := { (Host.spawned (cs "demo")).e with reservedKeys := ascii "n" } }

/-- **A harmless shortcut quits.**  Once a plugin has reserved `n`, the key `q` belongs to two
shortcuts. -/
theorem quit_bound_twice :
    (init [reservingN]).isBoundTo 'q' 113 = true ∧ (init [reservingN]).isBoundTo 'n' 113 = true ∧
      ¬ConflictFree [reservingN] := by
  have hq : (init [reservingN]).isBoundTo 'q' 113 = true := by decide +kernel
  have hn : (init [reservingN]).isBoundTo 'n' 113 = true := by decide +kernel
  refine ⟨hq, hn, fun hfree => ?_⟩
  exact absurd (hfree.distinct 113 'q' (by decide) 'n' (by decide) hq hn) (by decide)

end KeyManager
end Nsr
