import Nsr.Lib.Records
import Mathlib.Data.List.TakeWhile
import Mathlib.Algebra.Order.Ring.Int

/-!
# The configuration file

`config_set_bool` and `config_get_bool_default` of `src/plugin/plugin.c`: the file holds lines
`key=value`, and both functions read it with `fgets` through a buffer of 512 bytes.  What one call
of `fgets` returns is a *piece* of the file: a line, or 511 bytes of a longer one.

A file is the list of its bytes, none of them NUL, and `none` is a file that does not exist.  The
file can be written.

* `pieces`, `lines`: a file as `fgets` returns it, and as it is.
* `configSetBool`, `configGetBoolDefault`: the two functions.
* `assigns_iff`: a piece assigns a key if it begins with the key and `=`, and the key is one that
  can be read back.
-/

namespace Nsr
namespace Config

open Records

/-- `'\n'`. -/
def newline : UInt8 := 10

/-- `'\r'`. -/
def carriageReturn : UInt8 := 13

/-- `'='`. -/
def equals : UInt8 := 61

/-! ## Reading -/

/-- `fgets(line, 512, f)` returns: it has read a newline, or the buffer is full. -/
def pieceDone (p : List UInt8) : Bool := p.getLast? == some newline || p.length == 511

/-- What the calls of `fgets` return, up to the end of the file. -/
def pieces (content : List UInt8) : List (List UInt8) := records pieceDone content

/-- A line has been read. -/
def lineDone (p : List UInt8) : Bool := p.getLast? == some newline

/-- The lines of a file, each with its newline; the last one may be without. -/
def lines (content : List UInt8) : List (List UInt8) := records lineDone content

/-- A piece, cut at the first newline and at the first carriage return. -/
def cutEol (p : List UInt8) : List UInt8 :=
  (p.takeWhile fun b => b ≠ newline).takeWhile fun b => b ≠ carriageReturn

/-- The key a piece assigns and the text it assigns to it: `strchr(line, '=')`. -/
def splitEq (p : List UInt8) : Option (List UInt8 × List UInt8) :=
  let t := cutEol p
  if equals ∈ t then
    some (t.takeWhile fun b => b ≠ equals, (t.dropWhile fun b => b ≠ equals).tail)
  else none

/-- A piece assigns a key. -/
def assigns (key p : List UInt8) : Bool := (splitEq p).map Prod.fst == some key

/-- `isspace`. -/
def isSpace (b : UInt8) : Bool := b == 32 || (9 ≤ b && b ≤ 13)

/-- `isdigit`. -/
def isDigit (b : UInt8) : Bool := 48 ≤ b && b ≤ 57

/-- The number that a text begins with. -/
def leadingNumber (t : List UInt8) : ℕ :=
  (t.takeWhile isDigit).foldl (fun n b => n * 10 + (b.toNat - 48)) 0

/-- `atoi`, as the C library has it: `strtol`, which stays within 64 bits, cut to 32 bits. -/
def atoi (t : List UInt8) : ℤ :=
  let t := t.dropWhile isSpace
  let n : ℤ :=
    match t with
    | 45 :: t => -leadingNumber t
    | 43 :: t => leadingNumber t
    | t => leadingNumber t
  Int.bmod (max (-2 ^ 63) (min (2 ^ 63 - 1) n)) (2 ^ 32)

/-- **`config_get_bool_default`**: the first piece that assigns the key decides. -/
def configGetBoolDefault (file : Option (List UInt8)) (key : List UInt8) (dflt : Bool) : Bool :=
  match file with
  | none => dflt
  | some content =>
    match (pieces content).find? (assigns key) with
    | none => dflt
    | some p => ((splitEq p).map fun r => decide (atoi r.2 ≠ 0)).getD dflt

/-! ## Writing -/

/-- `snprintf(buf, 512, "%s=%d\n", key, value)`. -/
def assignment (key : List UInt8) (value : Bool) : List UInt8 :=
  (key ++ [equals, if value then 49 else 48, newline]).take 511

/-- The slots for the pieces that are kept. -/
def maxPieces : ℕ := 256

/-- A piece as it is kept: one that assigns the key is replaced. -/
def keptPiece (key : List UInt8) (value : Bool) (p : List UInt8) : List UInt8 :=
  if assigns key p then assignment key value else p

/-- The pieces that `config_set_bool` writes back. -/
def keptPieces (content key : List UInt8) (value : Bool) : List (List UInt8) :=
  let ps := (pieces content).take maxPieces
  let kept := ps.map (keptPiece key value)
  if ps.any (assigns key) = false ∧ ps.length < maxPieces then kept ++ [assignment key value]
  else kept

/-- **`config_set_bool`.** -/
def configSetBool (file : Option (List UInt8)) (key : List UInt8) (value : Bool) :
    Option (List UInt8) :=
  some (keptPieces (file.getD []) key value).flatten

/-- `NSR_PLUGIN_%s`, the key of a plugin. -/
def pluginKey (name : List UInt8) : List UInt8 :=
  [78, 83, 82, 95, 80, 76, 85, 71, 73, 78, 95] ++ name

theorem length_pluginKey (name : List UInt8) : (pluginKey name).length = 11 + name.length := by
  rw [pluginKey, List.length_append]
  rfl

/-! ## Keys and assignments -/

/-- A key that can be read back. -/
structure Clean (key : List UInt8) : Prop where
  equals : equals ∉ key
  newline : newline ∉ key
  carriageReturn : carriageReturn ∉ key

instance (key : List UInt8) : Decidable (Clean key) :=
  decidable_of_iff (Config.equals ∉ key ∧ Config.newline ∉ key ∧ Config.carriageReturn ∉ key)
    ⟨fun h => ⟨h.1, h.2.1, h.2.2⟩, fun h => ⟨h.1, h.2, h.3⟩⟩

theorem cutEol_front (p : List UInt8) : cutEol p <+: p :=
  (List.takeWhile_prefix _).trans (List.takeWhile_prefix _)

theorem takeWhile_ne_append {b : UInt8} {x : List UInt8} (hx : b ∉ x) (y : List UInt8) :
    (x ++ y).takeWhile (fun a => decide (a ≠ b)) = x ++ y.takeWhile fun a => decide (a ≠ b) :=
  List.takeWhile_append_of_pos fun _ ha => decide_eq_true fun heq => hx (heq ▸ ha)

theorem notMem_takeWhile_ne (b : UInt8) (x : List UInt8) :
    b ∉ x.takeWhile fun a => decide (a ≠ b) := fun hb => by
  simpa using List.mem_takeWhile_imp hb

/-- What a piece that begins with a clean key and `=` looks like to the readers. -/
theorem splitEq_of_prefix {key : List UInt8} (hkey : Clean key) (r : List UInt8) :
    splitEq (key ++ equals :: r) = some (key, cutEol r) := by
  have hcut : cutEol (key ++ equals :: r) = key ++ equals :: cutEol r := by
    rw [cutEol, takeWhile_ne_append hkey.newline, List.takeWhile_cons_of_pos (by decide),
      takeWhile_ne_append hkey.carriageReturn, List.takeWhile_cons_of_pos (by decide)]
    rfl
  have htake : (key ++ equals :: cutEol r).takeWhile (fun b => decide (b ≠ equals)) = key := by
    rw [takeWhile_ne_append hkey.equals, List.takeWhile_cons_of_neg (by decide), List.append_nil]
  have hdrop : (key ++ equals :: cutEol r).dropWhile (fun b => decide (b ≠ equals)) =
      equals :: cutEol r := by
    rw [List.dropWhile_append_of_pos, List.dropWhile_cons_of_neg (by decide)]
    exact fun a ha => decide_eq_true fun heq => hkey.equals (heq ▸ ha)
  rw [splitEq, hcut, if_pos (by simp), htake, hdrop]
  rfl

/-- **When a piece assigns a key.** -/
theorem assigns_iff {key p : List UInt8} :
    assigns key p = true ↔ Clean key ∧ key ++ [equals] <+: p := by
  constructor
  · intro h
    rw [assigns, beq_iff_eq, splitEq] at h
    split at h
    · next hmem =>
      have hkey : (cutEol p).takeWhile (fun b => decide (b ≠ equals)) = key := Option.some.inj h
      have hpre : key <+: cutEol p := hkey ▸ List.takeWhile_prefix _
      constructor
      · refine ⟨?_, fun hnl => ?_, fun hcr => ?_⟩
        · rw [← hkey]
          exact notMem_takeWhile_ne equals _
        · exact notMem_takeWhile_ne newline p
            ((List.takeWhile_prefix _).subset (hpre.subset hnl))
        · exact notMem_takeWhile_ne carriageReturn _ (hpre.subset hcr)
      · refine List.IsPrefix.trans ?_ (cutEol_front p)
        -- the key stops at the first `=`, and there is one
        have hsplit := List.takeWhile_append_dropWhile
          (p := fun b => decide (b ≠ equals)) (l := cutEol p)
        rw [hkey] at hsplit
        cases hrest : (cutEol p).dropWhile fun b => decide (b ≠ equals) with
        | nil =>
          rw [hrest, List.append_nil] at hsplit
          rw [← hsplit, ← hkey] at hmem
          exact absurd hmem (notMem_takeWhile_ne equals _)
        | cons b r =>
          have hb : b = equals := by
            have hhead := List.head_dropWhile_not (l := cutEol p) (fun b => decide (b ≠ equals))
              (by rw [hrest]; exact List.cons_ne_nil b r)
            simp only [hrest, List.head_cons] at hhead
            simpa using hhead
          rw [← hsplit, hrest, hb]
          exact ⟨r, by simp⟩
    · exact nomatch h
  · rintro ⟨hkey, r, rfl⟩
    rw [assigns, List.append_assoc, List.singleton_append, splitEq_of_prefix hkey]
    exact beq_self_eq_true _

/-- A piece assigns one key at most. -/
theorem assigns_unique {key key' p : List UInt8} (h : assigns key p = true)
    (h' : assigns key' p = true) : key = key' := by
  rw [assigns, beq_iff_eq] at h h'
  exact Option.some.inj (h.symm.trans h')

theorem atoi_digit (value : Bool) : decide (atoi [if value then 49 else 48] ≠ 0) = value := by
  cases value
  · decide
  · decide

section Assignment

variable {key : List UInt8} (hlen : key.length ≤ 508) (hkey : Clean key)

include hlen

theorem assignment_eq (value : Bool) :
    assignment key value = key ++ [equals, if value then 49 else 48, newline] := by
  rw [assignment]
  refine List.take_of_length_le ?_
  simp only [List.length_append, List.length_cons, List.length_nil]
  omega

include hkey

theorem assigns_assignment (value : Bool) : assigns key (assignment key value) = true := by
  rw [assigns_iff, assignment_eq hlen]
  exact ⟨hkey, [if value then 49 else 48, newline], by simp⟩

/-- An assignment is read back. -/
theorem splitEq_assignment (value : Bool) :
    splitEq (assignment key value) = some (key, [if value then 49 else 48]) := by
  rw [assignment_eq hlen, splitEq_of_prefix hkey]
  cases value
  · rfl
  · rfl

omit hlen in
theorem notMem_assignment_front (value : Bool) :
    newline ∉ key ++ [equals, if value then 49 else 48] := by
  rw [List.mem_append]
  rintro (hmem | hmem)
  · exact hkey.newline hmem
  · cases value
    · exact absurd hmem (by decide)
    · exact absurd hmem (by decide)

end Assignment

end Config
end Nsr
