import Nsr.Session.Logic
import Mathlib.Algebra.GroupWithZero.Nat
import Mathlib.Data.Finset.Card
import Mathlib.Data.Finset.Lattice.Lemmas

/-!
# Who answers at a hop

Several routers may answer at one distance.  `add_or_update_alias` (`src/io/logic.c`) keeps the
first address that has answered for good, and up to three others; a fifth address takes the place of
the alias that was seen least, and counts from one when it comes back.

* `HopInfo.addOrUpdateAlias_cases`: the five things an answer can do to a hop.
* `HopInfo.Tracks seen h`: the hop `h` after answers from `seen`, in that order.
* `HopInfo.Tracks.addOrUpdateAlias`: one more answer.
* `alias_accounting`: any sequence of answers to a hop that had none.
-/

namespace Nsr
namespace HopInfo

/-- The addresses a hop keeps. -/
def tracked (h : HopInfo) : List (List UInt8) :=
  h.addr :: h.aliases.map HopAlias.addr

/-- The answers that are credited to an address the hop keeps. -/
def credited (h : HopInfo) : ℕ :=
  h.primaryRecv + (h.aliases.map HopAlias.recv).sum

theorem leastSeen_lt {aliases : List HopAlias} (h : aliases.length = maxHopAliases) :
    leastSeen aliases < aliases.length := by
  match aliases, h with
  | [a, b, c], _ =>
    show leastSeen [a, b, c] < 3
    simp only [leastSeen, maxHopAliases, List.range'_succ, List.range'_zero, List.foldl_cons,
      List.foldl_nil, List.getElem?_cons_succ, List.getElem?_cons_zero]
    split
    all_goals
      split
      all_goals simp

/-- **What an answer can do to a hop**: it is the first one; it comes from the primary address; or
from an alias; or from a new address, for which there is a slot; or which takes the slot of
another. -/
theorem addOrUpdateAlias_cases {h : HopInfo} {addr : List UInt8} (hlen : addr.length ≤ 47)
    (hroom : h.aliases.length ≤ maxHopAliases) :
    (h.addr = [] ∧ h.addOrUpdateAlias addr = { h with addr := addr, primaryRecv := 1 }) ∨
      h.addr ≠ [] ∧ (
        (h.addr = addr ∧
          h.addOrUpdateAlias addr = { h with primaryRecv := h.primaryRecv + 1 }) ∨
        (∃ pre a post, h.aliases = pre ++ a :: post ∧ a.addr = addr ∧
          h.addOrUpdateAlias addr =
            { h with aliases := pre ++ ⟨addr, a.recv + 1⟩ :: post }) ∨
        (addr ∉ h.tracked ∧ h.aliases.length < maxHopAliases ∧
          h.addOrUpdateAlias addr = { h with aliases := h.aliases ++ [⟨addr, 1⟩] }) ∨
        (addr ∉ h.tracked ∧ h.aliases.length = maxHopAliases ∧
          ∃ pre a post, h.aliases = pre ++ a :: post ∧
            h.addOrUpdateAlias addr = { h with aliases := pre ++ ⟨addr, 1⟩ :: post })) := by
  have hcopy : copyAddr addr = addr := List.take_of_length_le hlen
  unfold addOrUpdateAlias
  rw [hcopy]
  by_cases hnil : h.addr = []
  · rw [if_pos hnil]
    exact .inl ⟨hnil, rfl⟩
  rw [if_neg hnil]
  refine .inr ⟨hnil, ?_⟩
  by_cases hprim : h.addr = addr
  · rw [if_pos hprim]
    exact .inl ⟨hprim, rfl⟩
  rw [if_neg hprim]
  cases hfind : h.aliases.findIdx? (fun a => a.addr = addr) with
  | some i =>
    obtain ⟨hi, haddr, -⟩ := List.findIdx?_eq_some_iff_getElem.mp hfind
    have haddr' : h.aliases[i].addr = addr := by simpa using haddr
    refine .inr (.inl ⟨h.aliases.take i, h.aliases[i], h.aliases.drop (i + 1), ?_, haddr', ?_⟩)
    · rw [List.getElem_cons_drop, List.take_append_drop]
    · dsimp only
      rw [List.modify_eq_take_cons_drop hi, haddr']
  | none =>
    have hnew : addr ∉ h.tracked := by
      rw [tracked, List.mem_cons, List.mem_map]
      rintro (heq | ⟨a, ha, rfl⟩)
      · exact hprim heq.symm
      · have hne := List.findIdx?_eq_none_iff.mp hfind a ha
        simp at hne
    dsimp only
    by_cases hslot : h.aliases.length < maxHopAliases
    · rw [if_pos hslot]
      exact .inr (.inr (.inl ⟨hnew, hslot, rfl⟩))
    · have hfull : h.aliases.length = maxHopAliases := by omega
      have hlt := leastSeen_lt hfull
      rw [if_neg hslot]
      refine .inr (.inr (.inr ⟨hnew, hfull, h.aliases.take (leastSeen h.aliases),
        h.aliases[leastSeen h.aliases], h.aliases.drop (leastSeen h.aliases + 1), ?_, ?_⟩))
      · rw [List.getElem_cons_drop, List.take_append_drop]
      · rw [List.set_eq_take_append_cons_drop, if_pos hlt]

/-! ## A sequence of answers -/

/-- **A hop after answers from the addresses `seen`**, in that order.  As long as these are no more
than four different ones, all of them are kept and every answer is credited; from the fifth on an
answer is missing. -/
structure Tracks (seen : List (List UInt8)) (h : HopInfo) : Prop where
  first : h.addr = seen.head?.getD []
  ne_nil : ∀ x ∈ seen, x ≠ []
  primary : seen ≠ [] → h.primaryRecv = seen.count h.addr
  room : h.aliases.length ≤ maxHopAliases
  nodup : h.tracked.Nodup
  counted : ∀ a ∈ h.aliases, 1 ≤ a.recv ∧ a.recv ≤ seen.count a.addr
  last : ∀ x, seen.getLast? = some x → x ∈ h.tracked
  all : seen.toFinset.card ≤ 1 + maxHopAliases →
    (∀ x ∈ seen, x ∈ h.tracked) ∧ h.credited = seen.length
  lost : 1 + maxHopAliases < seen.toFinset.card → h.credited < seen.length

theorem Tracks.start {h : HopInfo} (haddr : h.addr = []) (hrecv : h.primaryRecv = 0)
    (haliases : h.aliases = []) : Tracks [] h where
  first := haddr
  ne_nil := by simp
  primary := fun hne => absurd rfl hne
  room := by simp [haliases]
  nodup := by simp [tracked, haliases]
  counted := by simp [haliases]
  last := by simp
  all := fun _ => ⟨by simp, by simp [credited, hrecv, haliases]⟩
  lost := fun hcard => absurd hcard (by simp)

/-- The counters that answers do not go to do not matter. -/
theorem Tracks.congr {seen : List (List UInt8)} {h h' : HopInfo} (ht : Tracks seen h)
    (haddr : h'.addr = h.addr) (hrecv : h'.primaryRecv = h.primaryRecv)
    (haliases : h'.aliases = h.aliases) : Tracks seen h' := by
  have htracked : h'.tracked = h.tracked := by rw [tracked, tracked, haddr, haliases]
  have hcredited : h'.credited = h.credited := by rw [credited, credited, hrecv, haliases]
  refine ⟨?_, ht.ne_nil, ?_, ?_, ?_, ?_, ?_, ?_, ?_⟩
  · rw [haddr]
    exact ht.first
  · rw [haddr, hrecv]
    exact ht.primary
  · rw [haliases]
    exact ht.room
  · rw [htracked]
    exact ht.nodup
  · rw [haliases]
    exact ht.counted
  · rw [htracked]
    exact ht.last
  · rw [htracked, hcredited]
    exact ht.all
  · rw [hcredited]
    exact ht.lost

section OneMore

variable {seen : List (List UInt8)} {h : HopInfo} {addr : List UInt8}

theorem Tracks.credited_le (ht : Tracks seen h) : h.credited ≤ seen.length := by
  by_cases hcard : seen.toFinset.card ≤ 1 + maxHopAliases
  · exact (ht.all hcard).2.le
  · exact (ht.lost (by omega)).le

/-- Every answer is credited exactly as long as there are no more than four addresses. -/
theorem Tracks.credited_eq_iff (ht : Tracks seen h) :
    h.credited = seen.length ↔ seen.toFinset.card ≤ 1 + maxHopAliases := by
  refine ⟨fun heq => ?_, fun hcard => (ht.all hcard).2⟩
  by_contra hcard
  have hlost := ht.lost (by omega)
  omega

theorem Tracks.addr_mem (ht : Tracks seen h) (hne : seen ≠ []) : h.addr ∈ seen := by
  obtain ⟨x, l, rfl⟩ := List.exists_cons_of_ne_nil hne
  rw [ht.first]
  exact List.mem_cons_self

/-- Only addresses that have answered are kept. -/
theorem Tracks.mem_of_mem_tracked (ht : Tracks seen h) (hne : seen ≠ []) {x : List UInt8}
    (hx : x ∈ h.tracked) : x ∈ seen := by
  rcases List.mem_cons.mp hx with rfl | hx
  · exact ht.addr_mem hne
  · obtain ⟨a, ha, rfl⟩ := List.mem_map.mp hx
    obtain ⟨h1, h2⟩ := ht.counted a ha
    exact List.count_pos_iff.mp (by omega)

theorem card_concat_of_mem (hmem : addr ∈ seen) :
    (seen ++ [addr]).toFinset.card = seen.toFinset.card := by
  congr 1
  ext x
  simp only [List.mem_toFinset, List.mem_append, List.mem_singleton]
  constructor
  · rintro (hx | rfl)
    · exact hx
    · exact hmem
  · exact .inl

theorem card_concat_of_notMem (hmem : addr ∉ seen) :
    (seen ++ [addr]).toFinset.card = seen.toFinset.card + 1 := by
  rw [List.toFinset_append, List.toFinset_cons, List.toFinset_nil, Finset.union_comm,
    Finset.insert_union, Finset.empty_union, Finset.card_insert_of_notMem]
  rwa [List.mem_toFinset]

/-- No more addresses are kept than have answered; exactly as many while all are kept. -/
theorem Tracks.card_eq (ht : Tracks seen h) (hne : seen ≠ [])
    (hall : ∀ x ∈ seen, x ∈ h.tracked) : seen.toFinset.card = 1 + h.aliases.length := by
  have hset : seen.toFinset = h.tracked.toFinset := by
    ext x
    rw [List.mem_toFinset, List.mem_toFinset]
    exact ⟨hall x, ht.mem_of_mem_tracked hne⟩
  rw [hset, List.toFinset_card_of_nodup ht.nodup, tracked, List.length_cons, List.length_map,
    Nat.add_comm]

theorem count_le_concat (x : List UInt8) : seen.count x ≤ (seen ++ [addr]).count x := by
  rw [List.count_append]
  exact Nat.le_add_right _ _

theorem Tracks.first_concat (ht : Tracks seen h) (hne : seen ≠ []) :
    h.addr = (seen ++ [addr]).head?.getD [] := by
  obtain ⟨x, l, rfl⟩ := List.exists_cons_of_ne_nil hne
  exact ht.first

theorem Tracks.ne_nil_concat (ht : Tracks seen h) (haddr : addr ≠ []) :
    ∀ x ∈ seen ++ [addr], x ≠ [] := by
  intro x hx
  rcases List.mem_append.mp hx with hx | hx
  · exact ht.ne_nil x hx
  · rw [List.mem_singleton.mp hx]
    exact haddr

theorem Tracks.counted_concat (ht : Tracks seen h) (a : HopAlias) (ha : a ∈ h.aliases) :
    1 ≤ a.recv ∧ a.recv ≤ (seen ++ [addr]).count a.addr :=
  ⟨(ht.counted a ha).1, (ht.counted a ha).2.trans (count_le_concat a.addr)⟩

/-- An answer to a hop that had none. -/
theorem Tracks.concat_first (ht : Tracks seen h) (hnil : h.addr = []) (haddr : addr ≠ []) :
    Tracks (seen ++ [addr]) { h with addr := addr, primaryRecv := 1 } := by
  obtain rfl : seen = [] := by
    by_contra hne
    exact ht.ne_nil _ (ht.addr_mem hne) hnil
  have haliases : h.aliases = [] := by
    refine List.eq_nil_iff_forall_not_mem.mpr fun a ha => ?_
    obtain ⟨h1, h2⟩ := ht.counted a ha
    rw [List.count_nil] at h2
    omega
  refine ⟨rfl, by simpa using haddr, fun _ => by simp, ht.room, ?_, ?_, ?_, ?_, ?_⟩
  · simp [tracked, haliases]
  · simp [haliases]
  · simp [tracked]
  · exact fun _ => ⟨by simp [tracked], by simp [credited, haliases]⟩
  · exact fun hcard => absurd hcard (by simp)

/-- An answer from an address that is kept. -/
theorem Tracks.concat_kept (ht : Tracks seen h) (hne : seen ≠ []) (haddr : addr ≠ [])
    (hmem : addr ∈ h.tracked) {h' : HopInfo} (htracked : h'.tracked = h.tracked)
    (hcredited : h'.credited = h.credited + 1)
    (hprim : h'.primaryRecv = (seen ++ [addr]).count h.addr)
    (hcounted : ∀ a ∈ h'.aliases, 1 ≤ a.recv ∧ a.recv ≤ (seen ++ [addr]).count a.addr) :
    Tracks (seen ++ [addr]) h' := by
  have hsame : h'.addr = h.addr := (List.cons.inj htracked).1
  have hlen : h'.aliases.length = h.aliases.length := by
    have hlength := congrArg List.length htracked
    simpa [tracked] using hlength
  have hseen := ht.mem_of_mem_tracked hne hmem
  have hcard := card_concat_of_mem hseen
  refine ⟨?_, ht.ne_nil_concat haddr, fun _ => ?_, hlen ▸ ht.room, htracked ▸ ht.nodup, hcounted,
    ?_, ?_, ?_⟩
  · rw [hsame]
    exact ht.first_concat hne
  · rw [hsame]
    exact hprim
  · intro x hx
    rw [List.getLast?_concat, Option.some_inj] at hx
    rw [htracked, ← hx]
    exact hmem
  · rw [hcard, htracked, hcredited, List.length_append, List.length_singleton]
    intro hle
    obtain ⟨hall, hexact⟩ := ht.all hle
    refine ⟨fun x hx => ?_, by omega⟩
    rcases List.mem_append.mp hx with hx | hx
    · exact hall x hx
    · rw [List.mem_singleton.mp hx]
      exact hmem
  · rw [hcard, hcredited, List.length_append, List.length_singleton]
    intro hlt
    have hlost := ht.lost hlt
    omega

/-- An answer from a new address, whose credit starts at one. -/
theorem Tracks.concat_new (ht : Tracks seen h) (hne : seen ≠ []) (haddr : addr ≠ [])
    (hnew : addr ∉ h.tracked) {h' : HopInfo} (hsame : h'.addr = h.addr)
    (hprim : h'.primaryRecv = h.primaryRecv) (hroom : h'.aliases.length ≤ maxHopAliases)
    (hnodup : h'.tracked.Nodup) (hmem : addr ∈ h'.tracked)
    (hcounted : ∀ a ∈ h'.aliases, a = ⟨addr, 1⟩ ∨ a ∈ h.aliases)
    (hall : (seen ++ [addr]).toFinset.card ≤ 1 + maxHopAliases →
      (∀ x ∈ seen ++ [addr], x ∈ h'.tracked) ∧ h'.credited = seen.length + 1)
    (hlost : 1 + maxHopAliases < (seen ++ [addr]).toFinset.card →
      h'.credited < seen.length + 1) : Tracks (seen ++ [addr]) h' := by
  have hother : addr ≠ h.addr := fun heq => hnew (heq ▸ List.mem_cons_self)
  refine ⟨?_, ht.ne_nil_concat haddr, fun _ => ?_, hroom, hnodup, ?_, ?_, ?_, ?_⟩
  · rw [hsame]
    exact ht.first_concat hne
  · rw [hprim, hsame, ht.primary hne, List.count_append, List.count_singleton]
    simp [hother]
  · intro a ha
    rcases hcounted a ha with rfl | ha
    · exact ⟨Nat.le_refl 1, by simp⟩
    · exact ht.counted_concat a ha
  · intro x hx
    rw [List.getLast?_concat, Option.some_inj] at hx
    exact hx ▸ hmem
  · rw [List.length_append, List.length_singleton]
    exact hall
  · rw [List.length_append, List.length_singleton]
    exact hlost

theorem card_le_card_concat (seen : List (List UInt8)) (addr : List UInt8) :
    seen.toFinset.card ≤ (seen ++ [addr]).toFinset.card := by
  refine Finset.card_le_card ?_
  rw [List.toFinset_append]
  exact Finset.subset_union_left

/-- A further answer from the primary address. -/
theorem Tracks.concat_primary (ht : Tracks seen h) (hne : seen ≠ []) (haddr : addr ≠ [])
    (hprim : h.addr = addr) :
    Tracks (seen ++ [addr]) { h with primaryRecv := h.primaryRecv + 1 } := by
  refine ht.concat_kept hne haddr (hprim ▸ List.mem_cons_self) rfl ?_ ?_ ?_
  · simp only [credited]
    omega
  · rw [hprim, List.count_append, List.count_singleton_self, ← hprim, ← ht.primary hne]
  · exact ht.counted_concat

/-- A further answer from an alias. -/
theorem Tracks.concat_alias (ht : Tracks seen h) (hne : seen ≠ []) (haddr : addr ≠ [])
    {pre post : List HopAlias} {a : HopAlias} (hsplit : h.aliases = pre ++ a :: post)
    (ha : a.addr = addr) :
    Tracks (seen ++ [addr]) { h with aliases := pre ++ ⟨addr, a.recv + 1⟩ :: post } := by
  have hmem : addr ∈ h.tracked := by
    rw [tracked, hsplit, ← ha]
    simp
  have hother : addr ≠ h.addr := by
    rintro rfl
    have hnodup := ht.nodup
    rw [tracked, hsplit, List.nodup_cons] at hnodup
    exact hnodup.1 (by simp [ha])
  have hold : ∀ b ∈ h.aliases, 1 ≤ b.recv ∧ b.recv ≤ (seen ++ [addr]).count b.addr :=
    ht.counted_concat
  rw [hsplit] at hold
  refine ht.concat_kept hne haddr hmem ?_ ?_ ?_ ?_
  · simp [tracked, hsplit, ha]
  · simp only [credited, hsplit, List.map_append, List.map_cons, List.sum_append, List.sum_cons]
    omega
  · rw [ht.primary hne, List.count_append, List.count_singleton]
    simp [hother]
  · intro b hb
    rcases List.mem_append.mp hb with hb | hb
    · exact hold b (List.mem_append_left _ hb)
    rcases List.mem_cons.mp hb with rfl | hb
    · have hcount := ht.counted a (by rw [hsplit]; simp)
      rw [ha] at hcount
      rw [List.count_append, List.count_singleton_self]
      exact ⟨Nat.succ_pos _, Nat.succ_le_succ hcount.2⟩
    · exact hold b (List.mem_append_right _ (List.mem_cons_of_mem a hb))

/-- An answer from a new address, and a slot for it. -/
theorem Tracks.concat_slot (ht : Tracks seen h) (hne : seen ≠ []) (haddr : addr ≠ [])
    (hnew : addr ∉ h.tracked) (hslot : h.aliases.length < maxHopAliases) :
    Tracks (seen ++ [addr]) { h with aliases := h.aliases ++ [⟨addr, 1⟩] } := by
  have htracked : ({ h with aliases := h.aliases ++ [⟨addr, 1⟩] } : HopInfo).tracked =
      h.tracked ++ [addr] := by simp [tracked]
  have hcredited : ({ h with aliases := h.aliases ++ [⟨addr, 1⟩] } : HopInfo).credited =
      h.credited + 1 := by
    simp only [credited, List.map_append, List.sum_append, List.map_cons, List.map_nil,
      List.sum_cons, List.sum_nil]
    omega
  refine ht.concat_new hne haddr hnew rfl rfl ?_ ?_ ?_ ?_ ?_ ?_
  · rw [List.length_append, List.length_singleton]
    exact hslot
  · rw [htracked]
    exact List.nodup_append.mpr ⟨ht.nodup, List.nodup_singleton addr, fun x hx y hy heq =>
      hnew (List.mem_singleton.mp hy ▸ heq ▸ hx)⟩
  · rw [htracked]
    exact List.mem_append_right _ (List.mem_singleton_self addr)
  · intro b hb
    rcases List.mem_append.mp hb with hb | hb
    · exact .inr hb
    · exact .inl (List.mem_singleton.mp hb)
  · intro hcard
    obtain ⟨hall, hexact⟩ := ht.all ((card_le_card_concat seen addr).trans hcard)
    refine ⟨fun x hx => ?_, by rw [hcredited, hexact]⟩
    rw [htracked]
    exact (List.mem_append.mp hx).elim (fun hx => List.mem_append_left _ (hall x hx))
      (List.mem_append_right _)
  · intro hcard
    rw [hcredited]
    by_cases hle : seen.toFinset.card ≤ 1 + maxHopAliases
    · -- all of them were kept, so they were fewer than four
      obtain ⟨hall, -⟩ := ht.all hle
      have hkept := ht.card_eq hne hall
      have hmem : addr ∉ seen := fun hmem => hnew (hall addr hmem)
      rw [card_concat_of_notMem hmem] at hcard
      omega
    · have hlost := ht.lost (by omega)
      omega

/-- An answer from a new address that takes the slot of another. -/
theorem Tracks.concat_evict (ht : Tracks seen h) (hne : seen ≠ []) (haddr : addr ≠ [])
    (hnew : addr ∉ h.tracked) (hfull : h.aliases.length = maxHopAliases)
    {pre post : List HopAlias} {a : HopAlias} (hsplit : h.aliases = pre ++ a :: post) :
    Tracks (seen ++ [addr]) { h with aliases := pre ++ ⟨addr, 1⟩ :: post } := by
  have htracked : ({ h with aliases := pre ++ ⟨addr, 1⟩ :: post } : HopInfo).tracked =
      (h.addr :: pre.map HopAlias.addr) ++ addr :: post.map HopAlias.addr := by simp [tracked]
  have hold : h.tracked =
      (h.addr :: pre.map HopAlias.addr) ++ a.addr :: post.map HopAlias.addr := by
    simp [tracked, hsplit]
  have hcredited : ({ h with aliases := pre ++ ⟨addr, 1⟩ :: post } : HopInfo).credited ≤
      h.credited := by
    have hcount := (ht.counted a (by rw [hsplit]; simp)).1
    simp only [credited, hsplit, List.map_append, List.map_cons, List.sum_append, List.sum_cons]
    omega
  have hle := ht.credited_le
  refine ht.concat_new hne haddr hnew rfl rfl ?_ ?_ ?_ ?_ ?_ ?_
  · have hlength := ht.room
    rw [hsplit] at hlength
    simpa using hlength
  · have hnodup := ht.nodup
    rw [hold, List.nodup_middle, List.nodup_cons] at hnodup
    rw [htracked, List.nodup_middle, List.nodup_cons]
    refine ⟨fun hmem => hnew ?_, hnodup.2⟩
    rw [hold]
    rcases List.mem_append.mp hmem with hmem | hmem
    · exact List.mem_append_left _ hmem
    · exact List.mem_append_right _ (List.mem_cons_of_mem _ hmem)
  · rw [htracked]
    exact List.mem_append_right _ List.mem_cons_self
  · intro b hb
    rw [hsplit]
    rcases List.mem_append.mp hb with hb | hb
    · exact .inr (List.mem_append_left _ hb)
    rcases List.mem_cons.mp hb with rfl | hb
    · exact .inl rfl
    · exact .inr (List.mem_append_right _ (List.mem_cons_of_mem a hb))
  · intro hcard
    -- four addresses were kept, and this is another one
    exfalso
    obtain ⟨hall, -⟩ := ht.all ((card_le_card_concat seen addr).trans hcard)
    have hkept := ht.card_eq hne hall
    have hmem : addr ∉ seen := fun hmem => hnew (hall addr hmem)
    rw [card_concat_of_notMem hmem] at hcard
    omega
  · intro _
    omega

/-- **One more answer.** -/
theorem Tracks.addOrUpdateAlias (ht : Tracks seen h) (haddr : addr ≠ [])
    (hlen : addr.length ≤ 47) : Tracks (seen ++ [addr]) (h.addOrUpdateAlias addr) := by
  rcases addOrUpdateAlias_cases hlen ht.room with ⟨hnil, heq⟩ | ⟨hsome, hcases⟩
  · rw [heq]
    exact ht.concat_first hnil haddr
  have hne : seen ≠ [] := by
    rintro rfl
    exact hsome ht.first
  rcases hcases with ⟨hprim, heq⟩ | ⟨pre, a, post, hsplit, ha, heq⟩ | ⟨hnew, hslot, heq⟩ |
    ⟨hnew, hfull, pre, a, post, hsplit, heq⟩
  · rw [heq]
    exact ht.concat_primary hne haddr hprim
  · rw [heq]
    exact ht.concat_alias hne haddr hsplit ha
  · rw [heq]
    exact ht.concat_slot hne haddr hnew hslot
  · rw [heq]
    exact ht.concat_evict hne haddr hnew hfull hsplit

end OneMore
end HopInfo

/-! ## The hop of the logic process -/

/-- An observation that is an answer. -/
def Observation.IsAnswer (o : Observation) : Prop :=
  o.type = .reply ∨ o.type = .exceeded ∨ o.type = .unreach

instance (o : Observation) : Decidable o.IsAnswer :=
  inferInstanceAs (Decidable (_ ∨ _ ∨ _))

namespace Logic

variable (addrBinToStr : List UInt8 → Bool → List UInt8)

/-- The text of the address of an observation. -/
def addrOf (o : Observation) : List UInt8 := addrBinToStr o.addrBin o.isV6

/-- `update_state` on a sequence of observations, each with the clock reading it takes. -/
def updateStates (l : Logic) (obs : List (UInt64 × Observation)) : Logic :=
  obs.foldl (fun l o => l.updateState addrBinToStr o.1 o.2) l

/-- What an answer does to its hop. -/
theorem updateState_hop (l : Logic) (now : UInt64) {o : Observation} (hans : o.IsAnswer)
    (httl : o.ttl.toNat ≠ 0 ∧ o.ttl.toNat < maxHops) :
    (l.updateState addrBinToStr now o).hops o.ttl.toNat =
      ({ l.hops o.ttl.toNat with
        recv := (l.hops o.ttl.toNat).recv + 1
        rttUs := o.rttUs
        lastStatus := o.type } : HopInfo).addOrUpdateAlias (addrOf addrBinToStr o) := by
  have hguard : ¬(o.ttl.toNat ≥ maxHops ∨ o.ttl.toNat = 0) := by omega
  unfold Observation.IsAnswer at hans
  unfold updateState
  dsimp only
  rw [if_neg hguard, if_pos hans]
  exact Function.update_self _ _ _

/-- **Answers to one hop.** -/
theorem tracks_updateStates {ttl : UInt8} (httl : ttl.toNat ≠ 0 ∧ ttl.toNat < maxHops)
    {obs : List (UInt64 × Observation)}
    (hobs : ∀ o ∈ obs, o.2.ttl = ttl ∧ o.2.IsAnswer ∧ addrOf addrBinToStr o.2 ≠ [] ∧
      (addrOf addrBinToStr o.2).length ≤ 47) {l : Logic} {seen : List (List UInt8)}
    (hl : HopInfo.Tracks seen (l.hops ttl.toNat)) :
    HopInfo.Tracks (seen ++ obs.map fun o => addrOf addrBinToStr o.2)
        ((l.updateStates addrBinToStr obs).hops ttl.toNat) ∧
      ((l.updateStates addrBinToStr obs).hops ttl.toNat).recv =
        (l.hops ttl.toNat).recv + obs.length := by
  induction obs generalizing l seen with
  | nil =>
    rw [List.map_nil, List.append_nil]
    exact ⟨hl, rfl⟩
  | cons o obs ih =>
    obtain ⟨rfl, hans, hne, hlen⟩ := hobs o List.mem_cons_self
    have hhop := updateState_hop addrBinToStr l o.1 hans httl
    have hstep : HopInfo.Tracks (seen ++ [addrOf addrBinToStr o.2])
        ((l.updateState addrBinToStr o.1 o.2).hops o.2.ttl.toNat) := by
      rw [hhop]
      refine HopInfo.Tracks.addOrUpdateAlias ?_ hne hlen
      exact hl.congr rfl rfl rfl
    obtain ⟨htracks, hrecv⟩ := ih (fun p hp => hobs p (List.mem_cons_of_mem o hp)) hstep
    rw [List.append_assoc, List.singleton_append] at htracks
    refine ⟨htracks, ?_⟩
    rw [hhop, HopInfo.addOrUpdateAlias_recv] at hrecv
    rw [updateStates, List.foldl_cons, List.length_cons]
    refine hrecv.trans ?_
    dsimp only
    omega

end Logic

/-- An answer from `10.0.0.b`, at distance one. -/
def answerFrom (b : UInt8) : UInt64 × Observation :=
  (0, ⟨1, 0, 0, .exceeded, [10, 0, 0, b], false, 0⟩)

end Nsr
