import Mathlib.Data.List.Infix
import Mathlib.Tactic.Common

/-!
# Cutting a text into records

A text is read symbol by symbol, and a test on what has been read of the current record says when it
is complete.  Lines are records that end with a newline; what a reader with a bounded buffer gets is
records that end with a newline or when the buffer is full.

* `records stop c`: the records of the text `c`; what is left over at the end is a record too.
* `WellCut stop ps`: every record of the list is complete where it ends and not before, but for the
  last one, which may be cut short.
* `wellCut_records`, `flatten_records`, `records_flatten`: a text has exactly one well-cut list of
  records.  So the records of a text that was put together from records are known.
* `records_append_end`: a symbol that ends every record splits the text.
-/

namespace Records

variable {α : Type*} (stop : List α → Bool)

/-- The records of a text, of which `cur` is what has been read of the first one. -/
def recordsFrom (cur : List α) : List α → List (List α)
  | [] => if cur.isEmpty then [] else [cur]
  | b :: c =>
      if stop (cur ++ [b]) then (cur ++ [b]) :: recordsFrom [] c else recordsFrom (cur ++ [b]) c

/-- The records of a text. -/
def records (c : List α) : List (List α) := recordsFrom stop [] c

/-- A complete record: it is complete at its end and not before. -/
structure Ended (p : List α) : Prop where
  ne_nil : p ≠ []
  stops : stop p = true
  first : ∀ q, q <+: p → q ≠ [] → q ≠ p → stop q = false

/-- A record cut short. -/
structure Open (p : List α) : Prop where
  ne_nil : p ≠ []
  runs : ∀ q, q <+: p → q ≠ [] → stop q = false

/-- **Records as they are cut.** -/
def WellCut : List (List α) → Prop
  | [] => True
  | p :: ps => (Ended stop p ∨ ps = [] ∧ Open stop p) ∧ WellCut ps

variable {stop}

@[simp] theorem records_nil : records stop [] = [] := rfl

/-! ## Reading -/

theorem flatten_recordsFrom (cur c : List α) : (recordsFrom stop cur c).flatten = cur ++ c := by
  induction c generalizing cur with
  | nil =>
    rw [recordsFrom]
    split
    · next hnil => simp [List.isEmpty_iff.mp hnil]
    · simp
  | cons b c ih =>
    rw [recordsFrom]
    split
    · rw [List.flatten_cons, ih, List.nil_append, List.append_assoc, List.singleton_append]
    · rw [ih, List.append_assoc, List.singleton_append]

theorem flatten_records (c : List α) : (records stop c).flatten = c := flatten_recordsFrom [] c

theorem wellCut_recordsFrom (cur c : List α)
    (hcur : ∀ q, q <+: cur → q ≠ [] → stop q = false) : WellCut stop (recordsFrom stop cur c) := by
  induction c generalizing cur with
  | nil =>
    rw [recordsFrom]
    split
    · trivial
    · next hne => exact ⟨.inr ⟨rfl, by simpa using hne, hcur⟩, trivial⟩
  | cons b c ih =>
    rw [recordsFrom]
    split
    · next hstop =>
      refine ⟨.inl ⟨by simp, hstop, fun q hq hne hne' => ?_⟩, ih [] fun q hq hne => ?_⟩
      · exact hcur q ((List.prefix_concat_iff.mp hq).resolve_left hne') hne
      · exact absurd (List.prefix_nil.mp hq) hne
    · next hrun =>
      refine ih _ fun q hq hne => ?_
      rcases List.prefix_concat_iff.mp hq with rfl | hpre
      · exact eq_false_of_ne_true hrun
      · exact hcur q hpre hne

/-- **The records of a text are well cut.** -/
theorem wellCut_records (c : List α) : WellCut stop (records stop c) :=
  wellCut_recordsFrom [] c fun _ hq hne => absurd (List.prefix_nil.mp hq) hne

theorem recordsFrom_ended {cur p : List α} (hne : p ≠ []) (hstop : stop (cur ++ p) = true)
    (hfirst : ∀ q, q <+: p → q ≠ [] → q ≠ p → stop (cur ++ q) = false) (c : List α) :
    recordsFrom stop cur (p ++ c) = (cur ++ p) :: records stop c := by
  induction p generalizing cur with
  | nil => exact absurd rfl hne
  | cons b p ih =>
    rw [List.cons_append, recordsFrom]
    by_cases hp : p = []
    · subst hp
      rw [if_pos hstop]
      rfl
    · have hrun : stop (cur ++ [b]) = false :=
        hfirst [b] (by simp) (by simp) (by simpa using Ne.symm hp)
      rw [hrun, if_neg Bool.false_ne_true, ih hp, List.append_assoc, List.singleton_append]
      · rw [List.append_assoc]
        exact hstop
      · intro q hq hqne hqp
        rw [List.append_assoc]
        exact hfirst (b :: q) (List.cons_prefix_cons.mpr ⟨rfl, hq⟩) (by simp) (by simpa using hqp)

/-- A complete record comes off the front of a text. -/
theorem records_ended {p : List α} (h : Ended stop p) (c : List α) :
    records stop (p ++ c) = p :: records stop c :=
  recordsFrom_ended h.ne_nil h.stops h.first c

theorem recordsFrom_open {cur p : List α} (hne : cur ++ p ≠ [])
    (hrun : ∀ q, q <+: p → q ≠ [] → stop (cur ++ q) = false) :
    recordsFrom stop cur p = [cur ++ p] := by
  induction p generalizing cur with
  | nil =>
    rw [List.append_nil] at hne ⊢
    rw [recordsFrom, if_neg (by simpa using hne)]
  | cons b p ih =>
    have hb : stop (cur ++ [b]) = false := hrun [b] (by simp) (by simp)
    rw [recordsFrom, hb, if_neg Bool.false_ne_true, ih (by simp), List.append_assoc,
      List.singleton_append]
    intro q hq _
    rw [List.append_assoc]
    exact hrun (b :: q) (List.cons_prefix_cons.mpr ⟨rfl, hq⟩) (by simp)

/-- A record cut short is a text of its own. -/
theorem records_open {p : List α} (h : Open stop p) : records stop p = [p] :=
  recordsFrom_open h.ne_nil h.runs

/-- **A well-cut list is the records of its text.** -/
theorem records_flatten {ps : List (List α)} (h : WellCut stop ps) :
    records stop ps.flatten = ps := by
  induction ps with
  | nil => rfl
  | cons p ps ih =>
    obtain ⟨hp, hps⟩ := h
    rw [List.flatten_cons]
    rcases hp with hended | ⟨rfl, hopen⟩
    · rw [records_ended hended, ih hps]
    · rw [List.flatten_nil, List.append_nil, records_open hopen]

/-! ## Well-cut lists -/

theorem Ended.snoc {x : List α} {b : α} (hx : ∀ q, q <+: x → q ≠ [] → stop q = false)
    (hb : stop (x ++ [b]) = true) : Ended stop (x ++ [b]) where
  ne_nil := by simp
  stops := hb
  first := fun q hq hne hne' => hx q ((List.prefix_concat_iff.mp hq).resolve_left hne') hne

theorem wellCut_of_ended {ps : List (List α)} (h : ∀ p ∈ ps, Ended stop p) : WellCut stop ps := by
  induction ps with
  | nil => trivial
  | cons p ps ih =>
    exact ⟨.inl (h p List.mem_cons_self), ih fun q hq => h q (List.mem_cons_of_mem p hq)⟩

theorem WellCut.append {ps qs : List (List α)} (hps : ∀ p ∈ ps, Ended stop p)
    (hqs : WellCut stop qs) : WellCut stop (ps ++ qs) := by
  induction ps with
  | nil => exact hqs
  | cons p ps ih =>
    exact ⟨.inl (hps p List.mem_cons_self), ih fun q hq => hps q (List.mem_cons_of_mem p hq)⟩

theorem WellCut.take {ps : List (List α)} (h : WellCut stop ps) (n : ℕ) :
    WellCut stop (ps.take n) := by
  induction ps generalizing n with
  | nil =>
    rw [List.take_nil]
    trivial
  | cons p ps ih =>
    cases n with
    | zero => trivial
    | succ n =>
      refine ⟨h.1.imp id fun hp => ⟨?_, hp.2⟩, ih h.2 n⟩
      rw [hp.1, List.take_nil]

/-- Records are rewritten, some of them to other complete ones. -/
theorem WellCut.map {ps : List (List α)} (h : WellCut stop ps) {f : List α → List α}
    (hf : ∀ p, f p = p ∨ Ended stop (f p)) : WellCut stop (ps.map f) := by
  induction ps with
  | nil => trivial
  | cons p ps ih =>
    refine ⟨?_, ih h.2⟩
    rcases hf p with heq | hended
    · rw [heq]
      refine h.1.imp id fun hp => ⟨?_, hp.2⟩
      rw [hp.1, List.map_nil]
    · exact .inl hended

/-- A record before another one is complete. -/
theorem WellCut.ended {ps qs : List (List α)} (h : WellCut stop (ps ++ qs)) (hqs : qs ≠ []) :
    ∀ p ∈ ps, Ended stop p := by
  induction ps with
  | nil => simp
  | cons p ps ih =>
    intro q hq
    rcases List.mem_cons.mp hq with rfl | hq
    · exact h.1.resolve_right fun hnil => hqs (List.append_eq_nil_iff.mp hnil.1).2
    · exact ih h.2 q hq

theorem WellCut.last {ps : List (List α)} {p : List α} (h : WellCut stop (ps ++ [p])) :
    Ended stop p ∨ Open stop p := by
  induction ps with
  | nil => exact h.1.imp id fun hp => hp.2
  | cons q ps ih => exact ih h.2

theorem WellCut.ne_nil {ps : List (List α)} (h : WellCut stop ps) : ∀ p ∈ ps, p ≠ [] := by
  induction ps with
  | nil => simp
  | cons p ps ih =>
    intro q hq
    rcases List.mem_cons.mp hq with rfl | hq
    · exact h.1.elim (fun hp => hp.ne_nil) fun hp => hp.2.ne_nil
    · exact ih h.2 q hq

/-! ## Symbols that end every record -/

theorem recordsFrom_append_end {b : α} (hb : ∀ cur, stop (cur ++ [b]) = true) (cur x c : List α) :
    recordsFrom stop cur (x ++ b :: c) = recordsFrom stop cur (x ++ [b]) ++ records stop c := by
  induction x generalizing cur with
  | nil =>
    rw [List.nil_append, List.nil_append, recordsFrom, recordsFrom, if_pos (hb cur), if_pos (hb cur)]
    rfl
  | cons a x ih =>
    rw [List.cons_append, List.cons_append, recordsFrom, recordsFrom]
    split
    · rw [ih, List.cons_append]
    · exact ih _

/-- **A symbol that ends every record splits the text.** -/
theorem records_append_end {b : α} (hb : ∀ cur, stop (cur ++ [b]) = true) (x c : List α) :
    records stop (x ++ [b] ++ c) = records stop (x ++ [b]) ++ records stop c := by
  rw [List.append_assoc]
  exact recordsFrom_append_end hb [] x c

end Records
