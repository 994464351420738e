import Nsr.Config.Store

/-!
# What setting a key does to the rest of the file

One would expect of `config_set_bool` that the key reads back as it was set, that every other key
reads as before, and that no line but those assigning the key is touched.  `SetLaw` says so.  The
function keeps the law on most files and breaks it on some, because it works on the pieces of the
file and not on its lines, because it keeps 256 pieces only, and because it appends to a last line
that may have no end.

* `Settable`: the files and keys for which the law holds.
* `pieces_keptPieces`: what is written is read back piece by piece.
* `Settable.law`: on them the law holds.
* `SetLaw.settable`: and on no others, among the files whose lines assigning the key are each read
  in one piece.
* `config_set_law`: both.
-/

namespace Nsr
namespace Config

open Records

/-! ## The law -/

/-- **The law of setting a key.** -/
structure SetLaw (file : Option (List UInt8)) (key : List UInt8) (value : Bool) : Prop where
  own : ∀ dflt, configGetBoolDefault (configSetBool file key value) key dflt = value
  others : ∀ key', key' ≠ key → ∀ dflt,
    configGetBoolDefault (configSetBool file key value) key' dflt =
      configGetBoolDefault file key' dflt
  lines : ((lines (file.getD [])).filter fun l => !assigns key l).Sublist
    (lines ((configSetBool file key value).getD []))

/-- The lines that are not within the first `n` pieces. -/
def overflow (n : ℕ) : List (List UInt8) → List (List UInt8)
  | [] => []
  | l :: ls => if (pieces l).length ≤ n then overflow (n - (pieces l).length) ls else l :: ls

/-- **When the law holds.** -/
structure Settable (content key : List UInt8) (value : Bool) : Prop where
  clean : Clean key
  /-- One of the pieces that are kept assigns the key, or there is a slot for one more and the last
  line is at its end. -/
  room : (∃ p ∈ (pieces content).take maxPieces, assigns key p = true) ∨
    (pieces content).length < maxPieces ∧ (content = [] ∨ content.getLast? = some newline)
  /-- No line goes on, after 511 bytes, with something that looks like another assignment. -/
  whole : ∀ l ∈ lines content, assigns key l = false →
    ∀ p ∈ pieces l, assigns key p = true → p = assignment key value
  /-- No line is dropped. -/
  kept : ∀ l ∈ overflow maxPieces (lines content), assigns key l = true
  /-- No key is dropped. -/
  keys : ∀ key', key' ≠ key → (∃ p ∈ (pieces content).drop maxPieces, assigns key' p = true) →
    ∃ p ∈ (pieces content).take maxPieces, assigns key' p = true

/-! ## Pieces and lines -/

theorem flatten_pieces (content : List UInt8) : (pieces content).flatten = content :=
  flatten_records content

theorem wellCut_pieces (content : List UInt8) : WellCut pieceDone (pieces content) :=
  wellCut_records content

theorem flatten_lines (content : List UInt8) : (lines content).flatten = content :=
  flatten_records content

theorem wellCut_lines (content : List UInt8) : WellCut lineDone (lines content) :=
  wellCut_records content

theorem pieceDone_newline (cur : List UInt8) : pieceDone (cur ++ [newline]) = true := by
  simp [pieceDone]

theorem lineDone_newline (cur : List UInt8) : lineDone (cur ++ [newline]) = true := by
  simp [lineDone]

/-- A text in which no line ends. -/
theorem lineDone_of_notMem {x : List UInt8} (hx : newline ∉ x) (q : List UInt8) (hq : q <+: x) :
    lineDone q = false := by
  rw [lineDone, beq_eq_false_iff_ne]
  exact fun hlast => hx (hq.subset (List.mem_of_getLast? hlast))

theorem notMem_of_lineDone {x : List UInt8} (hx : ∀ q, q <+: x → q ≠ [] → lineDone q = false) :
    newline ∉ x := by
  intro hmem
  obtain ⟨a, b, rfl⟩ := List.append_of_mem hmem
  have hrun := hx (a ++ [newline]) ⟨b, by simp⟩ (by simp)
  rw [lineDone_newline] at hrun
  exact Bool.noConfusion hrun

/-- A line with its end. -/
theorem Ended.line {l : List UInt8} (h : Ended lineDone l) :
    ∃ x, l = x ++ [newline] ∧ newline ∉ x := by
  have hlast : l.getLast? = some newline := by
    have hstops := h.stops
    rwa [lineDone, beq_iff_eq] at hstops
  obtain ⟨x, rfl⟩ := List.getLast?_eq_some_iff.mp hlast
  refine ⟨x, rfl, notMem_of_lineDone fun q hq hne => h.first q ?_ hne ?_⟩
  · exact hq.trans (List.prefix_append x [newline])
  · rintro rfl
    have hle := hq.length_le
    rw [List.length_append, List.length_singleton] at hle
    omega

theorem pieces_append_line {l : List UInt8} (h : Ended lineDone l) (c : List UInt8) :
    pieces (l ++ c) = pieces l ++ pieces c := by
  obtain ⟨x, rfl, -⟩ := Ended.line h
  exact records_append_end pieceDone_newline x c

/-- The pieces of a file are the pieces of its lines. -/
theorem pieces_flatten {ls : List (List UInt8)} (h : WellCut lineDone ls) :
    pieces ls.flatten = ls.flatMap pieces := by
  induction ls with
  | nil => rfl
  | cons l ls ih =>
    obtain ⟨hl, hls⟩ := h
    rw [List.flatten_cons, List.flatMap_cons]
    rcases hl with hended | ⟨rfl, -⟩
    · rw [pieces_append_line hended, ih hls]
    · simp

theorem pieces_eq_flatMap (content : List UInt8) :
    pieces content = (lines content).flatMap pieces := by
  have h := pieces_flatten (wellCut_lines content)
  rwa [flatten_lines] at h

theorem lines_append_newline (x c : List UInt8) :
    lines (x ++ [newline] ++ c) = lines (x ++ [newline]) ++ lines c :=
  records_append_end lineDone_newline x c

theorem lines_ended {l : List UInt8} (h : Ended lineDone l) : lines l = [l] := by
  have := records_ended h []
  rwa [List.append_nil, records_nil] at this

/-- A text without a newline is at most one line. -/
theorem lines_of_notMem {x : List UInt8} (hx : newline ∉ x) : ∀ l ∈ lines x, l = x := by
  intro l hl
  by_cases hne : x = []
  · subst hne
    exact absurd hl List.not_mem_nil
  · rw [lines, records_open ⟨hne, fun q hq _ => lineDone_of_notMem hx q hq⟩] at hl
    exact List.mem_singleton.mp hl

theorem pieces_ne_nil {l : List UInt8} (h : l ≠ []) : pieces l ≠ [] := by
  intro hnil
  have hflat := flatten_pieces l
  rw [hnil] at hflat
  exact h hflat.symm

/-- All pieces of a file that ends with a newline are complete. -/
theorem ended_of_newline {content : List UInt8} (hlast : content.getLast? = some newline) :
    ∀ p ∈ pieces content, Ended pieceDone p := by
  obtain ⟨x, rfl⟩ := List.getLast?_eq_some_iff.mp hlast
  have hcut := wellCut_pieces (x ++ [newline])
  have hflat := flatten_pieces (x ++ [newline])
  rcases List.eq_nil_or_concat (pieces (x ++ [newline])) with hnil | ⟨ps, p, hps⟩
  · rw [hnil]
    simp
  rw [List.concat_eq_append] at hps
  rw [hps] at hcut hflat ⊢
  have hfront := hcut.ended (List.cons_ne_nil p [])
  have hp : Ended pieceDone p := by
    rcases hcut.last with hended | hopen
    · exact hended
    · -- a piece cut short does not end with a newline
      have hstop := hopen.runs p p.prefix_rfl hopen.ne_nil
      rw [pieceDone, Bool.or_eq_false_iff, beq_eq_false_iff_ne] at hstop
      rw [List.flatten_append, List.flatten_singleton] at hflat
      have hplast := congrArg List.getLast? hflat
      rw [List.getLast?_append_of_ne_nil _ hopen.ne_nil, List.getLast?_concat] at hplast
      exact absurd hplast hstop.1
  intro q hq
  rcases List.mem_append.mp hq with hq | hq
  · exact hfront q hq
  · rw [List.mem_singleton.mp hq]
    exact hp

/-- The first piece of a line assigns what the line assigns. -/
theorem assigns_head {key l : List UInt8} (hlen : key.length ≤ 508) (h : assigns key l = true) :
    ∃ p ps, pieces l = p :: ps ∧ assigns key p = true := by
  obtain ⟨hclean, hpre⟩ := assigns_iff.mp h
  have hne : l ≠ [] := by
    rintro rfl
    simpa using hpre.length_le
  obtain ⟨p, ps, hps⟩ := List.exists_cons_of_ne_nil (pieces_ne_nil hne)
  refine ⟨p, ps, hps, assigns_iff.mpr ⟨hclean, ?_⟩⟩
  have hflat := flatten_pieces l
  rw [hps, List.flatten_cons] at hflat
  have hcut := wellCut_pieces l
  rw [hps] at hcut
  rcases hcut.1 with hended | ⟨rfl, -⟩
  · -- the piece is long enough, or it is at the end of a line, before which the key and `=` come
    refine List.prefix_of_prefix_length_le hpre ⟨ps.flatten, hflat⟩ ?_
    have hstops := hended.stops
    rw [pieceDone, Bool.or_eq_true, beq_iff_eq, beq_iff_eq] at hstops
    rcases hstops with hlast | hfull
    · by_contra hshort
      obtain ⟨x, rfl⟩ := List.getLast?_eq_some_iff.mp hlast
      have hin : x ++ [newline] <+: key ++ [equals] :=
        List.prefix_of_prefix_length_le ⟨ps.flatten, hflat⟩ hpre (by omega)
      have hmem : newline ∈ key ++ [equals] := hin.subset (by simp)
      rcases List.mem_append.mp hmem with hmem | hmem
      · exact hclean.newline hmem
      · exact absurd hmem (by decide)
    · rw [List.length_append, List.length_singleton, hfull]
      omega
  · rw [List.flatten_nil, List.append_nil] at hflat
    rwa [hflat]

/-! ## Reading back -/

/-- What a reader makes of the pieces of a file. -/
def readPieces (ps : List (List UInt8)) (key : List UInt8) (dflt : Bool) : Bool :=
  match ps.find? (assigns key) with
  | none => dflt
  | some p => ((splitEq p).map fun r => decide (atoi r.2 ≠ 0)).getD dflt

/-- A file that does not exist reads like an empty one. -/
theorem configGetBoolDefault_eq (file : Option (List UInt8)) (key : List UInt8) (dflt : Bool) :
    configGetBoolDefault file key dflt = readPieces (pieces (file.getD [])) key dflt := by
  cases file with
  | none => rfl
  | some content => rfl

theorem readPieces_none {ps : List (List UInt8)} {key : List UInt8}
    (h : ∀ p ∈ ps, assigns key p = false) (dflt : Bool) : readPieces ps key dflt = dflt := by
  rw [readPieces, List.find?_eq_none.mpr fun p hp => by rw [h p hp]; exact Bool.false_ne_true]

/-- A key that is assigned reads as something. -/
theorem readPieces_some {ps : List (List UInt8)} (key : List UInt8)
    (h : ∃ p ∈ ps, assigns key p = true) : ∃ value, ∀ dflt, readPieces ps key dflt = value := by
  obtain ⟨p, hfind⟩ := Option.isSome_iff_exists.mp (List.find?_isSome.mpr h)
  have hassigns := List.find?_some hfind
  rw [assigns, beq_iff_eq, Option.map_eq_some_iff] at hassigns
  obtain ⟨r, hr, -⟩ := hassigns
  refine ⟨decide (atoi r.2 ≠ 0), fun dflt => ?_⟩
  rw [readPieces, hfind]
  simp only [hr, Option.map_some, Option.getD_some]

/-- Where every assignment of the key is this one, the key reads so. -/
theorem readPieces_assignment {ps : List (List UInt8)} {key : List UInt8} {value : Bool}
    (hlen : key.length ≤ 508) (hkey : Clean key) (h : ∃ p ∈ ps, assigns key p = true)
    (hall : ∀ p ∈ ps, assigns key p = true → p = assignment key value) (dflt : Bool) :
    readPieces ps key dflt = value := by
  obtain ⟨p, hfind⟩ := Option.isSome_iff_exists.mp (List.find?_isSome.mpr h)
  have hp := hall p (List.mem_of_find?_eq_some hfind) (List.find?_some hfind)
  rw [readPieces, hfind, hp]
  simp only [splitEq_assignment hlen hkey, Option.map_some, Option.getD_some, atoi_digit]

/-- Pieces that do not assign the key are of no account, if none of them is read first. -/
theorem readPieces_append {ps qs : List (List UInt8)} {key : List UInt8}
    (h : (∃ p ∈ qs, assigns key p = true) → ∃ p ∈ ps, assigns key p = true) (dflt : Bool) :
    readPieces (ps ++ qs) key dflt = readPieces ps key dflt := by
  rw [readPieces, readPieces, List.find?_append]
  cases hps : ps.find? (assigns key) with
  | some p => rfl
  | none =>
    have hqs : qs.find? (assigns key) = none := by
      refine List.find?_eq_none.mpr fun q hq hassigns => ?_
      obtain ⟨p, hp, hpassigns⟩ := h ⟨q, hq, hassigns⟩
      exact absurd hpassigns (by simpa using List.find?_eq_none.mp hps p hp)
    rw [hqs]
    rfl

/-! ## What is written -/

section Written

variable {content key : List UInt8} {value : Bool}

theorem keptPiece_of_assigns {p : List UInt8} (h : assigns key p = true) :
    keptPiece key value p = assignment key value := if_pos h

theorem keptPiece_of_not_assigns {p : List UInt8} (h : assigns key p = false) :
    keptPiece key value p = p := if_neg (by rw [h]; exact Bool.false_ne_true)

/-- The pieces written: those kept, or these and an assignment behind them. -/
theorem keptPieces_cases (content key : List UInt8) (value : Bool) :
    ((∃ p ∈ (pieces content).take maxPieces, assigns key p = true) ∧
        keptPieces content key value =
          ((pieces content).take maxPieces).map (keptPiece key value)) ∨
      ((∀ p ∈ (pieces content).take maxPieces, assigns key p = false) ∧
        maxPieces ≤ (pieces content).length ∧
        keptPieces content key value = (pieces content).take maxPieces) ∨
      ((∀ p ∈ pieces content, assigns key p = false) ∧ (pieces content).length < maxPieces ∧
        keptPieces content key value = pieces content ++ [assignment key value]) := by
  have hsame : (∀ p ∈ (pieces content).take maxPieces, assigns key p = false) →
      ((pieces content).take maxPieces).map (keptPiece key value) =
        (pieces content).take maxPieces := fun h =>
    (List.map_congr_left fun p hp => keptPiece_of_not_assigns (h p hp)).trans (List.map_id _)
  rw [keptPieces]
  cases hfound : ((pieces content).take maxPieces).any (assigns key) with
  | true =>
    rw [if_neg (fun h => Bool.noConfusion h.1)]
    exact .inl ⟨List.any_eq_true.mp hfound, rfl⟩
  | false =>
    have hnone : ∀ p ∈ (pieces content).take maxPieces, assigns key p = false := fun p hp => by
      simpa using List.any_eq_false.mp hfound p hp
    rw [hsame hnone]
    by_cases hroom : (pieces content).length < maxPieces
    · have htake := List.take_of_length_le hroom.le
      rw [htake] at hnone ⊢
      rw [if_pos ⟨rfl, hroom⟩]
      exact .inr (.inr ⟨hnone, hroom, rfl⟩)
    · have hfull := Nat.le_of_not_lt hroom
      rw [if_neg fun h => by rw [List.length_take] at h; omega]
      exact .inr (.inl ⟨hnone, hfull, rfl⟩)

variable (hlen : key.length ≤ 508) (hkey : Clean key)

include hlen hkey

theorem assignment_ended {stop : List UInt8 → Bool}
    (hstop : ∀ cur, stop (cur ++ [newline]) = true)
    (hrun : ∀ q, newline ∉ q → q.length ≤ 510 → stop q = false) :
    Ended stop (assignment key value) := by
  have hfront := notMem_assignment_front hkey value
  rw [assignment_eq hlen, show key ++ [equals, if value then 49 else 48, newline] =
    key ++ [equals, if value then 49 else 48] ++ [newline] by simp]
  refine Ended.snoc (fun q hq _ => hrun q (fun hmem => hfront (hq.subset hmem)) ?_) (hstop _)
  have hle := hq.length_le
  rw [List.length_append, List.length_cons, List.length_cons, List.length_nil] at hle
  omega

theorem assignment_piece : Ended pieceDone (assignment key value) := by
  refine assignment_ended hlen hkey pieceDone_newline fun q hq hshort => ?_
  rw [pieceDone, Bool.or_eq_false_iff, beq_eq_false_iff_ne, beq_eq_false_iff_ne]
  exact ⟨fun hlast => hq (List.mem_of_getLast? hlast), by omega⟩

theorem assignment_line : Ended lineDone (assignment key value) :=
  assignment_ended hlen hkey lineDone_newline fun q hq _ => lineDone_of_notMem hq q q.prefix_rfl

/-- **What is written is read back piece by piece**, unless it was appended to a line without an
end. -/
theorem pieces_keptPieces
    (hroom : (∃ p ∈ (pieces content).take maxPieces, assigns key p = true) ∨
      maxPieces ≤ (pieces content).length ∨ content = [] ∨ content.getLast? = some newline) :
    pieces (keptPieces content key value).flatten = keptPieces content key value := by
  refine records_flatten ?_
  have hcut := wellCut_pieces content
  rcases keptPieces_cases content key value with ⟨-, heq⟩ | ⟨-, -, heq⟩ | ⟨hnone, hfree, heq⟩
  · rw [heq]
    refine (hcut.take maxPieces).map fun p => ?_
    cases hp : assigns key p with
    | true =>
      have hkept : keptPiece key value p = assignment key value := keptPiece_of_assigns hp
      exact .inr (hkept ▸ assignment_piece hlen hkey)
    | false => exact .inl (keptPiece_of_not_assigns hp)
  · rw [heq]
    exact hcut.take maxPieces
  · rw [heq]
    refine WellCut.append ?_ (wellCut_of_ended fun p hp => ?_)
    · rcases hroom with ⟨p, hp, hassigns⟩ | hfull | hnil | hlast
      · rw [hnone p (List.mem_of_mem_take hp)] at hassigns
        exact Bool.noConfusion hassigns
      · omega
      · subst hnil
        simp [pieces]
      · exact ended_of_newline hlast
    · rw [List.mem_singleton.mp hp]
      exact assignment_piece hlen hkey

end Written

/-! ## Where the law holds -/

section Holds

variable {content key : List UInt8} {value : Bool}

/-- Every piece written that assigns the key is the new assignment, and one is. -/
theorem keptPieces_own (value : Bool) (hlen : key.length ≤ 508) (hkey : Clean key)
    (hroom : (∃ p ∈ (pieces content).take maxPieces, assigns key p = true) ∨
      (pieces content).length < maxPieces) :
    (∃ p ∈ keptPieces content key value, assigns key p = true) ∧
      ∀ p ∈ keptPieces content key value, assigns key p = true → p = assignment key value := by
  rcases keptPieces_cases content key value with
    ⟨⟨p, hp, hassigns⟩, heq⟩ | ⟨hnone, hfull, heq⟩ | ⟨hnone, -, heq⟩
  · rw [heq]
    constructor
    · refine ⟨_, List.mem_map_of_mem hp, ?_⟩
      rw [keptPiece_of_assigns hassigns]
      exact assigns_assignment hlen hkey value
    · intro q hq hqassigns
      obtain ⟨r, -, rfl⟩ := List.mem_map.mp hq
      cases hr : assigns key r with
      | true => exact keptPiece_of_assigns hr
      | false =>
        rw [keptPiece_of_not_assigns hr, hr] at hqassigns
        exact Bool.noConfusion hqassigns
  · rcases hroom with ⟨p, hp, hassigns⟩ | hfree
    · rw [hnone p hp] at hassigns
      exact Bool.noConfusion hassigns
    · omega
  · rw [heq]
    refine ⟨⟨assignment key value, by simp, assigns_assignment hlen hkey value⟩, fun p hp h => ?_⟩
    rcases List.mem_append.mp hp with hp | hp
    · rw [hnone p hp] at h
      exact Bool.noConfusion h
    · exact List.mem_singleton.mp hp

/-- Another key is assigned by the pieces written as by those kept. -/
theorem readPieces_keptPieces (value : Bool) (hlen : key.length ≤ 508) (hkey : Clean key)
    {key' : List UInt8} (hne : key' ≠ key) (dflt : Bool) :
    readPieces (keptPieces content key value) key' dflt =
      readPieces ((pieces content).take maxPieces) key' dflt := by
  have hassignment : assigns key' (assignment key value) = false := by
    by_contra h
    exact hne (assigns_unique (by simpa using h) (assigns_assignment hlen hkey value))
  have hmap : ∀ ps : List (List UInt8),
      readPieces (ps.map (keptPiece key value)) key' dflt = readPieces ps key' dflt := by
    intro ps
    rw [readPieces, readPieces]
    have hfind : (ps.map (keptPiece key value)).find? (assigns key') =
        ps.find? (assigns key') := by
      induction ps with
      | nil => rfl
      | cons p ps ih =>
        rw [List.map_cons, List.find?_cons, List.find?_cons, ih]
        cases hp : assigns key p with
        | true =>
          have hp' : assigns key' p = false := by
            by_contra h
            exact hne (assigns_unique (by simpa using h) hp)
          rw [keptPiece_of_assigns hp, hassignment, hp']
        | false => rw [keptPiece_of_not_assigns hp]
    rw [hfind]
  rcases keptPieces_cases content key value with ⟨-, heq⟩ | ⟨-, -, heq⟩ | ⟨-, hfree, heq⟩
  · rw [heq, hmap]
  · rw [heq]
  · rw [heq, List.take_of_length_le hfree.le]
    refine readPieces_append ?_ dflt
    rintro ⟨p, hp, hassigns⟩
    rw [List.mem_singleton.mp hp, hassignment] at hassigns
    exact Bool.noConfusion hassigns

/-- A line as it is written. -/
theorem keptLine_ends (value : Bool) {l : List UInt8} (hlen : key.length ≤ 508)
    (hl : Ended lineDone l) :
    ∃ x, ((pieces l).map (keptPiece key value)).flatten = x ++ [newline] := by
  obtain ⟨x, rfl, -⟩ := Ended.line hl
  have hflat := flatten_pieces (x ++ [newline])
  rcases List.eq_nil_or_concat (pieces (x ++ [newline])) with hnil | ⟨ps, p, hps⟩
  · exact absurd hnil (pieces_ne_nil (by simp))
  rw [List.concat_eq_append] at hps
  have hp : p ≠ [] := (wellCut_pieces (x ++ [newline])).ne_nil p (by rw [hps]; simp)
  rw [hps, List.flatten_append, List.flatten_singleton] at hflat
  have hlast := congrArg List.getLast? hflat
  rw [List.getLast?_append_of_ne_nil _ hp, List.getLast?_concat] at hlast
  have hkept : ∃ y, keptPiece key value p = y ++ [newline] := by
    cases hassigns : assigns key p with
    | true =>
      rw [keptPiece_of_assigns hassigns, assignment_eq hlen]
      exact ⟨key ++ [equals, if value then 49 else 48], by simp⟩
    | false =>
      rw [keptPiece_of_not_assigns hassigns]
      exact List.getLast?_eq_some_iff.mp hlast
  obtain ⟨y, hy⟩ := hkept
  refine ⟨(ps.map (keptPiece key value)).flatten ++ y, ?_⟩
  rw [hps, List.map_append, List.flatten_append, List.map_singleton, List.flatten_singleton, hy,
    List.append_assoc]

/-- Pieces that are not touched. -/
theorem map_keptPiece_of_whole {ps : List (List UInt8)}
    (hwhole : ∀ p ∈ ps, assigns key p = true → p = assignment key value) :
    ps.map (keptPiece key value) = ps := by
  refine (List.map_congr_left fun p hp => ?_).trans (List.map_id _)
  cases hassigns : assigns key p with
  | true => exact (keptPiece_of_assigns hassigns).trans (hwhole p hp hassigns).symm
  | false => exact keptPiece_of_not_assigns hassigns

/-- A line that is not touched. -/
theorem keptLine_same {l : List UInt8}
    (hwhole : ∀ p ∈ pieces l, assigns key p = true → p = assignment key value) :
    ((pieces l).map (keptPiece key value)).flatten = l := by
  rw [map_keptPiece_of_whole hwhole, flatten_pieces]

/-- The lines of a file, as far as their pieces are among the first `n`. -/
theorem keptLines_cons {l : List UInt8} {n : ℕ} (h : (pieces l).length ≤ n)
    (ls : List (List UInt8)) :
    ((((l :: ls).flatMap pieces).take n).map (keptPiece key value)).flatten =
      ((pieces l).map (keptPiece key value)).flatten ++
        (((ls.flatMap pieces).take (n - (pieces l).length)).map (keptPiece key value)).flatten := by
  rw [List.flatMap_cons, List.take_append, List.take_of_length_le h, List.map_append,
    List.flatten_append]

/-- **The lines that do not assign the key are kept**, in their order. -/
theorem sublist_keptLines (hlen : key.length ≤ 508) {ls : List (List UInt8)} {n : ℕ}
    (hcut : WellCut lineDone ls)
    (hwhole : ∀ l ∈ ls, assigns key l = false →
      ∀ p ∈ pieces l, assigns key p = true → p = assignment key value)
    (hkept : ∀ l ∈ overflow n ls, assigns key l = true) :
    (ls.filter fun l => !assigns key l).Sublist
      (lines (((ls.flatMap pieces).take n).map (keptPiece key value)).flatten) := by
  induction ls generalizing n with
  | nil => exact List.nil_sublist _
  | cons l ls ih =>
    rw [overflow] at hkept
    split at hkept
    · next hfits =>
      have hrest := ih hcut.2 (fun m hm => hwhole m (List.mem_cons_of_mem l hm)) hkept
      rw [keptLines_cons hfits]
      rcases hcut.1 with hended | ⟨rfl, hopen⟩
      · obtain ⟨x, hx⟩ := keptLine_ends value hlen hended
        rw [hx, lines_append_newline, ← hx]
        cases hassigns : assigns key l with
        | true =>
          rw [List.filter_cons_of_neg (by simp [hassigns])]
          exact hrest.trans (List.sublist_append_right _ _)
        | false =>
          have hsame := keptLine_same (hwhole l List.mem_cons_self hassigns)
          rw [List.filter_cons_of_pos (by simp [hassigns]), hsame, lines_ended hended]
          exact hrest.cons_cons l
      · cases hassigns : assigns key l with
        | true =>
          rw [List.filter_cons_of_neg (by simp [hassigns])]
          exact List.nil_sublist _
        | false =>
          have hsame := keptLine_same (hwhole l List.mem_cons_self hassigns)
          rw [List.filter_cons_of_pos (by simp [hassigns]), hsame]
          simp [lines, records_open hopen]
    · rw [List.filter_eq_nil_iff.mpr fun m hm => by simp [hkept m hm]]
      exact List.nil_sublist _

/-- **On settable files the law holds.** -/
theorem Settable.law {file : Option (List UInt8)} (hlen : key.length ≤ 508)
    (h : Settable (file.getD []) key value) : SetLaw file key value := by
  have hwritten : pieces (keptPieces (file.getD []) key value).flatten =
      keptPieces (file.getD []) key value :=
    pieces_keptPieces hlen h.clean (h.room.imp id fun hr => .inr hr.2)
  obtain ⟨hone, hall⟩ := keptPieces_own value hlen h.clean
    (h.room.imp id fun hr => hr.1)
  constructor
  · intro dflt
    rw [configGetBoolDefault_eq, configSetBool, Option.getD_some, hwritten]
    exact readPieces_assignment hlen h.clean hone hall dflt
  · intro key' hne dflt
    rw [configGetBoolDefault_eq, configGetBoolDefault_eq, configSetBool, Option.getD_some, hwritten,
      readPieces_keptPieces value hlen h.clean hne, ← readPieces_append (h.keys key' hne),
      List.take_append_drop]
  · have hcut := wellCut_lines (file.getD [])
    rw [configSetBool, Option.getD_some]
    rcases keptPieces_cases (file.getD []) key value with
      ⟨-, heq⟩ | ⟨hnone, hfull, -⟩ | ⟨hnone, -, heq⟩
    · rw [heq, pieces_eq_flatMap]
      exact sublist_keptLines hlen hcut h.whole h.kept
    · rcases h.room with ⟨p, hp, hassigns⟩ | ⟨hfree, -⟩
      · rw [hnone p hp] at hassigns
        exact Bool.noConfusion hassigns
      · omega
    · rw [heq, List.flatten_append, List.flatten_singleton, flatten_pieces]
      rcases h.room with ⟨p, hp, hassigns⟩ | ⟨-, hnil | hlast⟩
      · rw [hnone p (List.mem_of_mem_take hp)] at hassigns
        exact Bool.noConfusion hassigns
      · rw [hnil]
        exact List.nil_sublist _
      · obtain ⟨x, hx⟩ := List.getLast?_eq_some_iff.mp hlast
        rw [hx, lines_append_newline]
        exact (List.filter_sublist).trans (List.sublist_append_left _ _)

end Holds

/-! ## Where it does not -/

section Fails

variable {content key : List UInt8} {value : Bool}

/-- A key that cannot be read back is assigned by nothing. -/
theorem not_assigns_of_not_clean (hkey : ¬Clean key) (p : List UInt8) : assigns key p = false := by
  by_contra h
  exact hkey (assigns_iff.mp (by simpa using h)).1

/-- What reads as the default whatever the default is has not been set. -/
theorem not_own_of_not_assigned {ps : List (List UInt8)}
    (h : ∀ p ∈ ps, assigns key p = false) : ¬∀ dflt, readPieces ps key dflt = value := by
  intro hown
  have hbad := hown !value
  rw [readPieces_none h] at hbad
  cases value
  · exact Bool.noConfusion hbad
  · exact Bool.noConfusion hbad

/-- No line assigns a key that no piece assigns. -/
theorem lines_not_assign (hlen : key.length ≤ 508)
    (hnone : ∀ p ∈ pieces content, assigns key p = false) :
    ∀ l ∈ lines content, assigns key l = false := by
  intro l hl
  by_contra h
  obtain ⟨p, ps, hps, hassigns⟩ := assigns_head hlen (by simpa using h)
  have hmem : p ∈ pieces content := by
    rw [pieces_eq_flatMap]
    exact List.mem_flatMap.mpr ⟨l, hl, by rw [hps]; exact List.mem_cons_self⟩
  rw [hnone p hmem] at hassigns
  exact Bool.noConfusion hassigns

/-- An assignment appended to a line without an end is lost, and so is the line. -/
theorem not_sublist_append (hlen : key.length ≤ 508) (hkey : Clean key) (hne : content ≠ [])
    (hlast : content.getLast? ≠ some newline) :
    ¬(lines content).Sublist (lines (content ++ assignment key value)) := by
  intro hsub
  have hcut := wellCut_lines content
  have hflat := flatten_lines content
  rcases List.eq_nil_or_concat (lines content) with hnil | ⟨ls, l, hls⟩
  · rw [hnil] at hflat
    exact hne hflat.symm
  rw [List.concat_eq_append] at hls
  rw [hls] at hcut hflat hsub
  rw [List.flatten_append, List.flatten_singleton] at hflat
  have hopen : Open lineDone l := by
    refine hcut.last.resolve_left fun hended => hlast ?_
    obtain ⟨x, rfl, -⟩ := Ended.line hended
    rw [← hflat, ← List.append_assoc, List.getLast?_concat]
  have hnl : newline ∉ l := notMem_of_lineDone hopen.runs
  have hline : Ended lineDone (assignment key value) := assignment_line hlen hkey
  have hlong : Ended lineDone (l ++ assignment key value) := by
    obtain ⟨x, hx, hxnl⟩ := Ended.line hline
    rw [hx, ← List.append_assoc]
    refine Ended.snoc (fun q hq _ => lineDone_of_notMem ?_ q hq) (lineDone_newline _)
    rw [List.mem_append]
    exact fun hmem => hmem.elim hnl hxnl
  have hnew : lines (content ++ assignment key value) = ls ++ [l ++ assignment key value] := by
    have hcutNew : WellCut lineDone [l ++ assignment key value] :=
      wellCut_of_ended (by simpa using hlong)
    have hread := records_flatten (WellCut.append (hcut.ended (List.cons_ne_nil l [])) hcutNew)
    rwa [List.flatten_append, List.flatten_singleton, ← List.append_assoc, hflat] at hread
  rw [hnew] at hsub
  have heq := hsub.eq_of_length (by simp)
  have hl := List.append_cancel_left heq
  have hlenEq := congrArg List.length (List.cons.inj hl).1
  rw [List.length_append] at hlenEq
  have hpos := List.length_pos_iff.mpr hline.ne_nil
  omega

/-- With room for all pieces nothing is dropped. -/
theorem overflow_eq_nil {ls : List (List UInt8)} {n : ℕ} (h : (ls.flatMap pieces).length ≤ n) :
    overflow n ls = [] := by
  induction ls generalizing n with
  | nil => rfl
  | cons l ls ih =>
    rw [List.flatMap_cons, List.length_append] at h
    rw [overflow, if_pos (by omega)]
    exact ih (by omega)

/-- What is left of a line that is not kept to its end is not that line. -/
theorem notMem_lines_truncated {l : List UInt8} (hl : Ended lineDone l ∨ Open lineDone l) {n : ℕ}
    (hlong : n < (pieces l).length) : l ∉ lines ((pieces l).take n).flatten := by
  have hsplit : ((pieces l).take n).flatten ++ ((pieces l).drop n).flatten = l := by
    rw [← List.flatten_append, List.take_append_drop, flatten_pieces]
  have hdrop : ((pieces l).drop n).flatten ≠ [] := by
    intro hnil
    have hne : (pieces l).drop n ≠ [] := by
      rw [Ne, List.drop_eq_nil_iff]
      omega
    obtain ⟨p, ps, hps⟩ := List.exists_cons_of_ne_nil hne
    rw [hps, List.flatten_cons] at hnil
    exact (wellCut_pieces l).ne_nil p (List.mem_of_mem_drop (hps ▸ List.mem_cons_self))
      (List.append_eq_nil_iff.mp hnil).1
  have hpre : ((pieces l).take n).flatten <+: l := ⟨_, hsplit⟩
  have hne : ((pieces l).take n).flatten ≠ l := by
    intro heq
    rw [heq] at hsplit
    exact hdrop (List.append_right_eq_self.mp hsplit)
  have hfront : newline ∉ ((pieces l).take n).flatten := by
    rcases hl with hended | hopen
    · obtain ⟨x, rfl, hx⟩ := Ended.line hended
      exact fun hmem => hx (((List.prefix_concat_iff.mp hpre).resolve_left hne).subset hmem)
    · exact fun hmem => notMem_of_lineDone hopen.runs (hpre.subset hmem)
  exact fun hmem => hne (lines_of_notMem hfront l hmem).symm

/-- **If the lines that do not assign the key are all there, none of them was dropped.** -/
theorem overflow_of_sublist (hlen : key.length ≤ 508) (hkey : Clean key)
    {ls : List (List UInt8)} {n : ℕ} (hcut : WellCut lineDone ls)
    (hwhole : ∀ l ∈ ls, assigns key l = false →
      ∀ p ∈ pieces l, assigns key p = true → p = assignment key value)
    (hshort : ∀ l ∈ ls, assigns key l = true → pieces l = [l])
    (hsub : (ls.filter fun l => !assigns key l).Sublist
      (lines (((ls.flatMap pieces).take n).map (keptPiece key value)).flatten)) :
    ∀ l ∈ overflow n ls, assigns key l = true := by
  induction ls generalizing n with
  | nil => exact fun l hl => absurd hl List.not_mem_nil
  | cons l ls ih =>
    rw [overflow]
    split
    · next hfits =>
      by_cases hls : ls = []
      · subst hls
        exact fun m hm => absurd hm List.not_mem_nil
      have hended := hcut.1.resolve_right fun h => hls h.1
      refine ih hcut.2 (fun m hm => hwhole m (List.mem_cons_of_mem l hm))
        (fun m hm => hshort m (List.mem_cons_of_mem l hm)) ?_
      rw [keptLines_cons hfits] at hsub
      obtain ⟨x, hx⟩ := keptLine_ends value hlen hended
      rw [hx, lines_append_newline, ← hx] at hsub
      cases hassigns : assigns key l with
      | true =>
        -- the line is written as the new assignment, which is none of the lines looked for
        have hone := hshort l List.mem_cons_self hassigns
        rw [List.filter_cons_of_neg (by simp [hassigns]), hone, List.map_singleton,
          List.flatten_singleton, keptPiece_of_assigns hassigns,
          lines_ended (assignment_line hlen hkey)] at hsub
        have hfilter := hsub.filter fun m => !assigns key m
        rw [List.filter_filter, List.singleton_append, List.filter_cons_of_neg
          (by simp [assigns_assignment hlen hkey value])] at hfilter
        simp only [Bool.and_self] at hfilter
        rw [hone]
        exact hfilter.trans List.filter_sublist
      | false =>
        have hsame := keptLine_same (hwhole l List.mem_cons_self hassigns)
        rw [List.filter_cons_of_pos (by simp [hassigns]), hsame, lines_ended hended] at hsub
        exact List.cons_sublist_cons.mp hsub
    · next hlong =>
      rw [List.flatMap_cons, List.take_append_of_le_length (by omega)] at hsub
      cases hassigns : assigns key l with
      | true =>
        have hone := hshort l List.mem_cons_self hassigns
        obtain rfl : n = 0 := by
          rw [hone, List.length_singleton] at hlong
          omega
        rw [List.take_zero, List.map_nil, List.flatten_nil] at hsub
        have hnil := List.sublist_nil.mp hsub
        intro m hm
        simpa using List.filter_eq_nil_iff.mp hnil m hm
      | false =>
        rw [map_keptPiece_of_whole fun p hp => hwhole l List.mem_cons_self hassigns p
          (List.mem_of_mem_take hp)] at hsub
        have hmem : l ∈ lines ((pieces l).take n).flatten :=
          hsub.subset (List.mem_filter.mpr ⟨List.mem_cons_self, by simp [hassigns]⟩)
        exact absurd hmem
          (notMem_lines_truncated (hcut.1.imp id fun h => h.2) (Nat.lt_of_not_le hlong))

/-- **The law holds on no other files**, among those whose lines assigning the key are each read in
one piece. -/
theorem SetLaw.settable {file : Option (List UInt8)} (hlen : key.length ≤ 508)
    (hshort : ∀ l ∈ Config.lines (file.getD []), assigns key l = true → pieces l = [l])
    (h : SetLaw file key value) : Settable (file.getD []) key value := by
  have hown := h.own
  have hothers := h.others
  have hlines := h.lines
  simp only [configGetBoolDefault_eq, configSetBool, Option.getD_some] at hown hothers hlines
  have hclean : Clean key := by
    by_contra hkey
    exact not_own_of_not_assigned (fun p _ => not_assigns_of_not_clean hkey p) hown
  have hroom : (∃ p ∈ (pieces (file.getD [])).take maxPieces, assigns key p = true) ∨
      (pieces (file.getD [])).length < maxPieces ∧
        (file.getD [] = [] ∨ (file.getD []).getLast? = some newline) := by
    rcases keptPieces_cases (file.getD []) key value with
      ⟨hfound, -⟩ | ⟨hnone, hfull, heq⟩ | ⟨hnone, hfree, heq⟩
    · exact .inl hfound
    · rw [pieces_keptPieces hlen hclean (.inr (.inl hfull)), heq] at hown
      exact absurd hown (not_own_of_not_assigned hnone)
    · refine .inr ⟨hfree, ?_⟩
      by_contra hend
      rw [heq, List.flatten_append, List.flatten_singleton, flatten_pieces,
        List.filter_eq_self.mpr fun l hl => by simp [lines_not_assign hlen hnone l hl]] at hlines
      exact not_sublist_append hlen hclean (fun hnil => hend (.inl hnil))
        (fun hlast => hend (.inr hlast)) hlines
  have hwritten : pieces (keptPieces (file.getD []) key value).flatten =
      keptPieces (file.getD []) key value :=
    pieces_keptPieces hlen hclean (hroom.imp id fun hr => .inr hr.2)
  have hwhole : ∀ l ∈ Config.lines (file.getD []), assigns key l = false →
      ∀ p ∈ pieces l, assigns key p = true → p = assignment key value := by
    intro l hl hassigns p hp hp'
    refine (keptPieces_own value hlen hclean (hroom.imp id fun hr => hr.1)).2 p ?_ hp'
    rw [← hwritten, pieces_eq_flatMap]
    exact List.mem_flatMap.mpr
      ⟨l, hlines.subset (List.mem_filter.mpr ⟨hl, by simp [hassigns]⟩), hp⟩
  refine ⟨hclean, hroom, hwhole, ?_, ?_⟩
  · rcases keptPieces_cases (file.getD []) key value with
      ⟨-, heq⟩ | ⟨hnone, hfull, -⟩ | ⟨-, hfree, -⟩
    · rw [heq, pieces_eq_flatMap] at hlines
      exact overflow_of_sublist hlen hclean (wellCut_lines _) hwhole hshort hlines
    · rcases hroom with ⟨p, hp, hassigns⟩ | ⟨hfree, -⟩
      · rw [hnone p hp] at hassigns
        exact Bool.noConfusion hassigns
      · omega
    · rw [pieces_eq_flatMap] at hfree
      rw [overflow_eq_nil hfree.le]
      exact fun l hl => absurd hl List.not_mem_nil
  · intro key' hne hlater
    by_contra hnone
    have hkept : ∀ p ∈ (pieces (file.getD [])).take maxPieces, assigns key' p = false := by
      intro p hp
      by_contra hassigns
      exact hnone ⟨p, hp, by simpa using hassigns⟩
    obtain ⟨p, hp, hassigns⟩ := hlater
    obtain ⟨old, hold⟩ := readPieces_some key'
      ⟨p, List.mem_of_mem_drop hp, hassigns⟩
    have hno : ¬∀ dflt, readPieces ((pieces (file.getD [])).take maxPieces) key' dflt = old :=
      not_own_of_not_assigned hkept
    refine hno fun dflt => ?_
    rw [← readPieces_keptPieces value hlen hclean hne, ← hwritten, hothers key' hne, hold]

end Fails

/-- **The law of the configuration store.**  Setting the key of a plugin keeps the law on every
settable file; and if every line that assigns the key is read in one piece, it keeps the law on no
other file. -/
theorem config_set_law (file : Option (List UInt8)) {name : List UInt8} (hname : name.length ≤ 63)
    (value : Bool) :
    (Settable (file.getD []) (pluginKey name) value → SetLaw file (pluginKey name) value) ∧
      ((∀ l ∈ lines (file.getD []), assigns (pluginKey name) l = true → pieces l = [l]) →
        SetLaw file (pluginKey name) value →
          Settable (file.getD []) (pluginKey name) value) := by
  have hlen : (pluginKey name).length ≤ 508 := by
    rw [length_pluginKey]
    omega
  exact ⟨fun h => h.law hlen, fun hshort h => h.settable hlen hshort⟩

/-- Setting the key of `"x"` in the file `A=1`, with a newline. -/
theorem config_set_law_ended_line :
    SetLaw (some [65, 61, 49, 10]) (pluginKey [120]) true := by
  refine (config_set_law (some [65, 61, 49, 10]) (by decide) true).1 ?_
  refine ⟨by decide, .inr (by decide), by decide, by decide, fun key' _ h => ?_⟩
  obtain ⟨p, hp, -⟩ := h
  exact absurd hp (by decide +revert)

/-- **Without the newline it does not read back.** -/
theorem config_set_lost : ¬SetLaw (some [65, 61, 49]) (pluginKey [120]) true := by
  intro h
  have hown := h.own false
  revert hown
  decide

end Config
end Nsr
