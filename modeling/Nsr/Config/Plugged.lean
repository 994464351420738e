import Nsr.Config.Law
import Nsr.Lib.OrderedDict
import Mathlib.Data.List.Dedup
import Mathlib.Data.List.Perm.Subperm

/-!
# The tool that manages plugins

`nsr-plugged/nsr-plugged` is a script that edits the configuration file from outside.  It reads the
file its own way: by lines, stripping whitespace, the last assignment of a key deciding where for the
host it is the first, and a plugin being enabled if its value is the text `1` where for the host it
is any number but zero.  The two agree because neither ever writes a file on which these rules would
differ.

The script works on text.  Here a text is its bytes, all of them below 128 as far as this file goes.

* `readConfig`, `writeConfig`, `isPluginEnabled`, `cmdEnable`, `cmdDisable`, `cmdUninstall`: the
  script.
* `Rep`: a file holds a table of plugins, one line for each, in the order in which they were first
  set.  This is the invariant.
* `Rep.configSetBool`, `Rep.writeConfig`: both writers keep it.
* `plugged_agrees`: so whatever the two do, they read the same.
-/

namespace Nsr
namespace Plugged

open Config Records

/-! ## The script -/

/-- Reading a file as text turns every way to end a line into a newline. -/
def universalNewlines : List UInt8 → List UInt8
  | [] => []
  | 13 :: 10 :: t => 10 :: universalNewlines t
  | 13 :: t => 10 :: universalNewlines t
  | b :: t => b :: universalNewlines t

/-- `for line in f`. -/
def textLines (file : Option (List UInt8)) : List (List UInt8) :=
  lines (universalNewlines (file.getD []))

/-- `str.isspace` of a character. -/
def isWhitespace (b : UInt8) : Bool := b == 32 || (9 ≤ b && b ≤ 13) || (28 ≤ b && b ≤ 31)

/-- `str.strip`. -/
def strip (t : List UInt8) : List UInt8 :=
  ((t.dropWhile isWhitespace).reverse.dropWhile isWhitespace).reverse

/-- The key and the value that a line assigns: it is not empty, no comment, and has a `=`. -/
def parseLine (line : List UInt8) : Option (List UInt8 × List UInt8) :=
  let s := strip line
  if s = [] ∨ s.head? = some 35 ∨ equals ∉ s then none
  else some (strip (s.takeWhile fun b => b ≠ equals),
    strip (s.dropWhile fun b => b ≠ equals).tail)

/-- **`read_config`**: later assignments of a key replace earlier ones. -/
def readConfig (file : Option (List UInt8)) : List (List UInt8 × List UInt8) :=
  ((textLines file).filterMap parseLine).foldl (fun config e => OrderedDict.set config e.1 e.2) []

/-- `f"{k}={v}\n"`. -/
def assignLine (e : List UInt8 × List UInt8) : List UInt8 := e.1 ++ equals :: e.2 ++ [newline]

/-- A line as `write_config` writes it, with the key it was updated for. -/
def updateLine (config : List (List UInt8 × List UInt8)) (line : List UInt8) :
    List UInt8 × Option (List UInt8) :=
  match parseLine line with
  | some (k, _) =>
    match config.lookup k with
    | some v => (assignLine (k, v), some k)
    | none => (line, none)
  | none => (line, none)

/-- **`write_config`**: the lines of the file updated, and then the keys that it did not have. -/
def writeConfig (file : Option (List UInt8)) (config : List (List UInt8 × List UInt8)) :
    Option (List UInt8) :=
  let updated := (textLines file).map (updateLine config)
  let updatedKeys := updated.filterMap Prod.snd
  let added := (config.filter fun e => e.1 ∉ updatedKeys).map assignLine
  some (updated.map Prod.fst ++ added).flatten

/-- `is_plugin_enabled`. -/
def isPluginEnabled (name : List UInt8) (config : List (List UInt8 × List UInt8)) : Bool :=
  config.lookup (pluginKey name) == some [49]

/-- `cmd_enable`. -/
def cmdEnable (file : Option (List UInt8)) (name : List UInt8) : Option (List UInt8) :=
  writeConfig file (OrderedDict.set (readConfig file) (pluginKey name) [49])

/-- `cmd_disable`. -/
def cmdDisable (file : Option (List UInt8)) (name : List UInt8) : Option (List UInt8) :=
  writeConfig file (OrderedDict.set (readConfig file) (pluginKey name) [48])

/-- `cmd_uninstall`; `removed` is false if removing the plugin has raised an exception. -/
def cmdUninstall (file : Option (List UInt8)) (name : List UInt8) (removed : Bool) :
    Option (List UInt8) :=
  if removed ∧ pluginKey name ∈ (readConfig file).map Prod.fst then
    writeConfig file (OrderedDict.set (readConfig file) (pluginKey name) [48])
  else file

/-! ## Operations -/

/-- An operation of the host or of the tool. -/
inductive Op where
  /-- The host: `config_set_bool`. -/
  | set (name : List UInt8) (value : Bool)
  | enable (name : List UInt8)
  | disable (name : List UInt8)
  | uninstall (name : List UInt8) (removed : Bool)

/-- The plugin an operation is about. -/
def Op.name : Op → List UInt8
  | .set name _ => name
  | .enable name => name
  | .disable name => name
  | .uninstall name _ => name

/-- An operation on the file. -/
def Op.run (file : Option (List UInt8)) : Op → Option (List UInt8)
  | .set name value => configSetBool file (pluginKey name) value
  | .enable name => cmdEnable file name
  | .disable name => cmdDisable file name
  | .uninstall name removed => cmdUninstall file name removed

/-- What an operation does to the setting of its plugin: nothing to a plugin that was never set, in
the case of `uninstall`. -/
def Op.sets (setting : Option Bool) : Op → Option Bool
  | .set _ value => some value
  | .enable _ => some true
  | .disable _ => some false
  | .uninstall _ removed => if removed then setting.map fun _ => false else setting

/-- The value set by the last operation on a plugin that set it. -/
def lastSet (ops : List Op) (name : List UInt8) : Option Bool :=
  (ops.filter fun op => op.name = name).foldl Op.sets none

/-- Letters, digits, `_`, `-` and `.`. -/
def isNameByte (b : UInt8) : Bool :=
  (48 ≤ b && b ≤ 57) || (65 ≤ b && b ≤ 90) || (97 ≤ b && b ≤ 122) || b == 95 || b == 45 || b == 46

/-- The name of a plugin. -/
structure ValidName (name : List UInt8) : Prop where
  bytes : ∀ b ∈ name, isNameByte b = true
  length : name.length ≤ 63

/-! ## The lines of the file -/

theorem isNameByte_pluginKey {name : List UInt8} (h : ValidName name) :
    ∀ b ∈ pluginKey name, isNameByte b = true := by
  intro b hb
  rcases List.mem_append.mp hb with hb | hb
  · exact (by decide +kernel : ∀ b ∈ pluginKey [], isNameByte b = true) b hb
  · exact h.bytes b hb

theorem notMem_pluginKey {name : List UInt8} (h : ValidName name) {b : UInt8}
    (hb : isNameByte b = false) : b ∉ pluginKey name := by
  intro hmem
  rw [isNameByte_pluginKey h b hmem] at hb
  exact Bool.noConfusion hb

theorem clean_pluginKey {name : List UInt8} (h : ValidName name) : Clean (pluginKey name) :=
  ⟨notMem_pluginKey h (by decide), notMem_pluginKey h (by decide), notMem_pluginKey h (by decide)⟩

theorem length_pluginKey_le {name : List UInt8} (h : ValidName name) :
    (pluginKey name).length ≤ 508 := by
  rw [length_pluginKey]
  have := h.length
  omega

theorem pluginKey_injective : Function.Injective pluginKey := fun _ _ h =>
  List.append_cancel_left h

/-- The text of a setting. -/
def digit (value : Bool) : List UInt8 := [if value then 49 else 48]

/-- The line of a plugin. -/
def entryLine (e : List UInt8 × Bool) : List UInt8 := assignment (pluginKey e.1) e.2

/-- The script writes the same line as the host. -/
theorem assignLine_eq {e : List UInt8 × Bool} (h : ValidName e.1) :
    assignLine (Prod.map pluginKey digit e) = entryLine e := by
  rw [entryLine, assignment_eq (length_pluginKey_le h)]
  simp [assignLine, digit]

theorem not_isWhitespace_of_isNameByte {b : UInt8} (h : isNameByte b = true) :
    isWhitespace b = false := by
  simp only [isNameByte, isWhitespace, Bool.or_eq_true, Bool.and_eq_true, Bool.or_eq_false_iff,
    Bool.and_eq_false_iff, decide_eq_true_eq, decide_eq_false_iff_not, beq_iff_eq,
    beq_eq_false_iff_ne, UInt8.le_iff_toNat_le, ne_eq, ← UInt8.toNat_inj, UInt8.reduceToNat] at h ⊢
  omega

theorem strip_of_visible {x : List UInt8} (hx : ∀ b ∈ x, isWhitespace b = false) : strip x = x := by
  have hdrop : ∀ y : List UInt8, (∀ b ∈ y, isWhitespace b = false) →
      y.dropWhile isWhitespace = y := by
    intro y hy
    cases y with
    | nil => rfl
    | cons b y => rw [List.dropWhile_cons_of_neg (by simp [hy b List.mem_cons_self])]
  rw [strip, hdrop x hx, hdrop _ fun b hb => hx b (List.mem_reverse.mp hb), List.reverse_reverse]

theorem strip_line {x : List UInt8} (hne : x ≠ []) (hx : ∀ b ∈ x, isWhitespace b = false) :
    strip (x ++ [newline]) = x := by
  obtain ⟨b, y, rfl⟩ := List.exists_cons_of_ne_nil hne
  have hb := hx b List.mem_cons_self
  have hstrip := strip_of_visible hx
  rw [strip, List.dropWhile_cons_of_neg (by simp [hb])] at hstrip
  rw [strip, List.cons_append, List.dropWhile_cons_of_neg (by simp [hb]), ← List.cons_append,
    List.reverse_append, List.reverse_singleton, List.singleton_append,
    List.dropWhile_cons_of_pos (by decide)]
  exact hstrip

theorem visible_digit (value : Bool) : ∀ b ∈ equals :: digit value, isWhitespace b = false := by
  cases value
  · decide +kernel
  · decide +kernel

/-- The script reads the line of a plugin. -/
theorem parseLine_entryLine {e : List UInt8 × Bool} (h : ValidName e.1) :
    parseLine (entryLine e) = some (Prod.map pluginKey digit e) := by
  have hclean := clean_pluginKey h
  have hvisible : ∀ b ∈ pluginKey e.1 ++ equals :: digit e.2, isWhitespace b = false := by
    intro b hb
    rcases List.mem_append.mp hb with hb | hb
    · exact not_isWhitespace_of_isNameByte (isNameByte_pluginKey h b hb)
    · exact visible_digit e.2 b hb
  have hstrip : strip (entryLine e) = pluginKey e.1 ++ equals :: digit e.2 := by
    rw [← assignLine_eq h]
    exact strip_line (by simp) hvisible
  have htake : (pluginKey e.1 ++ equals :: digit e.2).takeWhile (fun b => decide (b ≠ equals)) =
      pluginKey e.1 := by
    rw [takeWhile_ne_append hclean.equals, List.takeWhile_cons_of_neg (by decide), List.append_nil]
  have hdrop : (pluginKey e.1 ++ equals :: digit e.2).dropWhile (fun b => decide (b ≠ equals)) =
      equals :: digit e.2 := by
    rw [List.dropWhile_append_of_pos, List.dropWhile_cons_of_neg (by decide)]
    exact fun a ha => decide_eq_true fun heq => hclean.equals (heq ▸ ha)
  have hassign : ¬(pluginKey e.1 ++ equals :: digit e.2 = [] ∨
      (pluginKey e.1 ++ equals :: digit e.2).head? = some 35 ∨
      equals ∉ pluginKey e.1 ++ equals :: digit e.2) := by
    rintro (hnil | hhash | hno)
    · simp at hnil
    · simp [pluginKey] at hhash
    · exact hno (by simp)
  rw [parseLine, hstrip, if_neg hassign, htake, hdrop, List.tail_cons]
  rw [strip_of_visible fun b hb => hvisible b (List.mem_append_left _ hb),
    strip_of_visible fun b hb => hvisible b (List.mem_append_right _ (List.mem_cons_of_mem _ hb))]
  rfl

theorem universalNewlines_eq {c : List UInt8} (h : carriageReturn ∉ c) : universalNewlines c = c := by
  induction c with
  | nil => rfl
  | cons b c ih =>
    have hb : b ≠ 13 := fun heq => h (heq ▸ List.mem_cons_self)
    rw [universalNewlines, ih fun hmem => h (List.mem_cons_of_mem b hmem)]
    · exact fun t heq => absurd heq hb
    · exact fun heq => absurd heq hb

/-! ## The invariant -/

/-- **A file holds a table of plugins**, one line for each. -/
structure Rep (file : Option (List UInt8)) (table : List (List UInt8 × Bool)) : Prop where
  content : file.getD [] = (table.map entryLine).flatten
  valid : ∀ e ∈ table, ValidName e.1
  nodup : (table.map Prod.fst).Nodup

section Rep

variable {file : Option (List UInt8)} {table : List (List UInt8 × Bool)} (h : Rep file table)

include h

theorem Rep.pieces_eq : pieces (file.getD []) = table.map entryLine := by
  rw [h.content]
  refine records_flatten (wellCut_of_ended fun p hp => ?_)
  obtain ⟨e, he, rfl⟩ := List.mem_map.mp hp
  exact assignment_piece (length_pluginKey_le (h.valid e he)) (clean_pluginKey (h.valid e he))

theorem Rep.lines_eq : lines (file.getD []) = table.map entryLine := by
  rw [h.content]
  refine records_flatten (wellCut_of_ended fun p hp => ?_)
  obtain ⟨e, he, rfl⟩ := List.mem_map.mp hp
  exact assignment_line (length_pluginKey_le (h.valid e he)) (clean_pluginKey (h.valid e he))

theorem Rep.textLines_eq : textLines file = table.map entryLine := by
  rw [textLines, universalNewlines_eq, h.lines_eq]
  rw [h.content]
  intro hmem
  obtain ⟨l, hl, hcr⟩ := List.mem_flatten.mp hmem
  obtain ⟨e, he, rfl⟩ := List.mem_map.mp hl
  rw [entryLine, assignment_eq (length_pluginKey_le (h.valid e he))] at hcr
  rcases List.mem_append.mp hcr with hcr | hcr
  · exact (clean_pluginKey (h.valid e he)).carriageReturn hcr
  · cases hv : e.2
    · rw [hv] at hcr
      revert hcr
      decide
    · rw [hv] at hcr
      revert hcr
      decide

/-- The script reads the table. -/
theorem Rep.readConfig_eq : readConfig file = table.map (Prod.map pluginKey digit) := by
  have hparse : (table.map entryLine).filterMap parseLine =
      table.map (Prod.map pluginKey digit) := by
    rw [List.filterMap_map, ← List.filterMap_eq_map]
    exact List.filterMap_congr fun e he => parseLine_entryLine (h.valid e he)
  rw [readConfig, h.textLines_eq, hparse, OrderedDict.foldl_set, List.nil_append]
  rw [List.nil_append, List.map_map,
    show Prod.fst ∘ Prod.map pluginKey digit = pluginKey ∘ (Prod.fst : _ × Bool → _) from rfl,
    ← List.map_map]
  exact h.nodup.map pluginKey_injective

/-- The script sees a plugin as the table has it. -/
theorem Rep.isPluginEnabled_eq (name : List UInt8) :
    isPluginEnabled name (readConfig file) = (table.lookup name).getD false := by
  rw [isPluginEnabled, h.readConfig_eq, OrderedDict.lookup_map pluginKey_injective]
  cases table.lookup name with
  | none => rfl
  | some value =>
    cases value
    · rfl
    · rfl

theorem assigns_entryLine (name : List UInt8) {e : List UInt8 × Bool}
    (he : e ∈ table) : assigns (pluginKey name) (entryLine e) = decide (e.1 = name) := by
  have hown := assigns_assignment (length_pluginKey_le (h.valid e he))
    (clean_pluginKey (h.valid e he)) e.2
  by_cases heq : e.1 = name
  · rw [decide_eq_true heq, ← heq]
    exact hown
  · rw [decide_eq_false heq]
    by_contra hassigns
    exact heq (pluginKey_injective (assigns_unique hown (by simpa [entryLine] using hassigns)))

/-- The host sees a plugin as the table has it. -/
theorem Rep.configGetBoolDefault_eq (name : List UInt8) :
    configGetBoolDefault file (pluginKey name) false = (table.lookup name).getD false := by
  rw [Config.configGetBoolDefault_eq, h.pieces_eq]
  by_cases hname : name ∈ table.map Prod.fst
  · obtain ⟨e, he, rfl⟩ := List.mem_map.mp hname
    have hassigns : ∀ e' ∈ table, (assigns (pluginKey e.1) (entryLine e') = true ↔ e'.1 = e.1) :=
      fun e' he' => by rw [assigns_entryLine h e.1 he', decide_eq_true_iff]
    rw [OrderedDict.lookup_of_mem h.nodup he, Option.getD_some]
    refine readPieces_assignment (length_pluginKey_le (h.valid e he))
      (clean_pluginKey (h.valid e he)) ⟨entryLine e, List.mem_map_of_mem he, ?_⟩ ?_ false
    · exact (hassigns e he).mpr rfl
    · intro p hp hp'
      obtain ⟨e', he', rfl⟩ := List.mem_map.mp hp
      have hkey := (hassigns e' he').mp hp'
      have hsame : e' = e := List.inj_on_of_nodup_map h.nodup he' he hkey
      rw [hsame]
      rfl
  · rw [OrderedDict.lookup_eq_none_iff.mpr hname, Option.getD_none]
    refine readPieces_none (fun p hp => ?_) false
    obtain ⟨e, he, rfl⟩ := List.mem_map.mp hp
    rw [assigns_entryLine h name he, decide_eq_false_iff_not]
    rintro rfl
    exact hname (List.mem_map_of_mem he)

/-- A table in which one plugin has been set. -/
theorem Rep.set {name : List UInt8} (hname : ValidName name) (value : Bool)
    {file' : Option (List UInt8)}
    (hfile : file'.getD [] = ((OrderedDict.set table name value).map entryLine).flatten) :
    Rep file' (OrderedDict.set table name value) := by
  refine ⟨hfile, fun e he => ?_, OrderedDict.nodup_set h.nodup name value⟩
  rcases OrderedDict.mem_keys_set.mp (List.mem_map_of_mem he) with heq | hmem
  · rw [heq]
    exact hname
  · obtain ⟨e', he', heq⟩ := List.mem_map.mp hmem
    rw [← heq]
    exact h.valid e' he'

/-- **The host sets a plugin.** -/
theorem Rep.configSetBool {name : List UInt8} (hname : ValidName name)
    (hroom : table.length < maxPieces) (value : Bool) :
    Rep (configSetBool file (pluginKey name) value) (OrderedDict.set table name value) := by
  refine h.set hname value ?_
  rw [Config.configSetBool, Option.getD_some]
  refine congrArg List.flatten ?_
  have htake : (pieces (file.getD [])).take maxPieces = table.map entryLine := by
    rw [h.pieces_eq, List.take_of_length_le]
    rw [List.length_map]
    exact hroom.le
  rw [OrderedDict.set]
  rcases keptPieces_cases (file.getD []) (pluginKey name) value with
    ⟨⟨p, hp, hassigns⟩, heq⟩ | ⟨-, hfull, -⟩ | ⟨hnone, -, heq⟩
  · rw [htake] at hp
    obtain ⟨e, he, rfl⟩ := List.mem_map.mp hp
    rw [assigns_entryLine h name he, decide_eq_true_iff] at hassigns
    rw [heq, htake, if_pos (hassigns ▸ List.mem_map_of_mem he), List.map_map, List.map_map]
    refine List.map_congr_left fun e' he' => ?_
    rw [Function.comp_apply, Function.comp_apply]
    by_cases hkey : e'.1 = name
    · rw [keptPiece_of_assigns (by rw [assigns_entryLine h name he', decide_eq_true_iff]; exact hkey),
        if_pos hkey]
      rfl
    · rw [keptPiece_of_not_assigns
        (by rw [assigns_entryLine h name he', decide_eq_false_iff_not]; exact hkey), if_neg hkey]
  · rw [h.pieces_eq, List.length_map] at hfull
    omega
  · rw [h.pieces_eq] at hnone heq
    have habsent : name ∉ table.map Prod.fst := by
      intro hmem
      obtain ⟨e, he, heq'⟩ := List.mem_map.mp hmem
      have hp := hnone _ (List.mem_map_of_mem he)
      rw [assigns_entryLine h name he, decide_eq_false_iff_not] at hp
      exact hp heq'
    rw [heq, if_neg habsent, List.map_append]
    rfl

/-- A line as the script writes it when one plugin is set. -/
theorem Rep.updateLine_eq {name : List UInt8} (value : Bool) {e : List UInt8 × Bool}
    (he : e ∈ table) :
    updateLine ((OrderedDict.set table name value).map (Prod.map pluginKey digit)) (entryLine e) =
      (entryLine (if e.1 = name then (name, value) else e), some (pluginKey e.1)) := by
  have hlookup : (OrderedDict.set table name value).lookup e.1 =
      some (if e.1 = name then value else e.2) := by
    split
    · next heq => rw [heq, OrderedDict.lookup_set_self]
    · next hne => rw [OrderedDict.lookup_set_of_ne hne, OrderedDict.lookup_of_mem h.nodup he]
  rw [updateLine, parseLine_entryLine (h.valid e he)]
  simp only [Prod.map_fst, OrderedDict.lookup_map pluginKey_injective, hlookup, Option.map_some]
  have hline := assignLine_eq (e := (e.1, if e.1 = name then value else e.2)) (h.valid e he)
  rw [Prod.map_apply] at hline
  rw [hline]
  split
  · next heq => rw [heq]
  · rfl

/-- **The script sets a plugin.** -/
theorem Rep.writeConfig {name : List UInt8} (hname : ValidName name) (value : Bool) :
    Rep (writeConfig file (OrderedDict.set (readConfig file) (pluginKey name) (digit value)))
      (OrderedDict.set table name value) := by
  refine h.set hname value ?_
  have hupdate : (textLines file).map (updateLine
      ((OrderedDict.set table name value).map (Prod.map pluginKey digit))) =
      table.map fun e => (entryLine (if e.1 = name then (name, value) else e),
        some (pluginKey e.1)) := by
    rw [h.textLines_eq, List.map_map]
    exact List.map_congr_left fun e he => h.updateLine_eq value he
  have hkeys : (table.map fun e => (entryLine (if e.1 = name then (name, value) else e),
      some (pluginKey e.1))).filterMap Prod.snd = (table.map Prod.fst).map pluginKey := by
    rw [List.filterMap_map, List.map_map, ← List.filterMap_eq_map]
    rfl
  rw [h.readConfig_eq, ← OrderedDict.set_map pluginKey_injective, Plugged.writeConfig,
    Option.getD_some, hupdate, hkeys]
  refine congrArg List.flatten ?_
  rw [List.map_map, OrderedDict.set]
  split
  · next hmem =>
    -- every key was there
    rw [List.filter_eq_nil_iff.mpr, List.map_nil, List.append_nil, List.map_map]
    · rfl
    · intro e he
      obtain ⟨e', he', rfl⟩ := List.mem_map.mp he
      obtain ⟨e'', he'', rfl⟩ := List.mem_map.mp he'
      rw [decide_eq_true_iff, not_not, Prod.map_fst]
      refine List.mem_map_of_mem ?_
      split
      · exact hmem
      · exact List.mem_map_of_mem he''
  · next habsent =>
    have hsame : ∀ e ∈ table, (if e.1 = name then (name, value) else e) = e := by
      intro e he
      rw [if_neg]
      rintro rfl
      exact habsent (List.mem_map_of_mem he)
    rw [List.map_append, List.filter_append, List.filter_eq_nil_iff.mpr, List.nil_append,
      List.map_singleton, List.filter_cons_of_pos, List.filter_nil, List.map_singleton,
      assignLine_eq (e := (name, value)) hname, List.map_append, List.map_singleton]
    · refine congrArg (· ++ [entryLine (name, value)]) (List.map_congr_left fun e he => ?_)
      rw [Function.comp_apply, hsame e he]
    · rw [decide_eq_true_iff, Prod.map_fst, List.mem_map_of_injective pluginKey_injective]
      exact habsent
    · intro e he
      obtain ⟨e', he', rfl⟩ := List.mem_map.mp he
      rw [decide_eq_true_iff, not_not, Prod.map_fst]
      exact List.mem_map_of_mem (List.mem_map_of_mem he')

end Rep

/-! ## Runs -/

/-- What an operation does to the table. -/
def Op.apply (table : List (List UInt8 × Bool)) : Op → List (List UInt8 × Bool)
  | .set name value => OrderedDict.set table name value
  | .enable name => OrderedDict.set table name true
  | .disable name => OrderedDict.set table name false
  | .uninstall name removed =>
      if removed ∧ name ∈ table.map Prod.fst then OrderedDict.set table name false else table

theorem Op.lookup_apply (table : List (List UInt8 × Bool)) (op : Op) (name : List UInt8) :
    (op.apply table).lookup name =
      if op.name = name then op.sets (table.lookup name) else table.lookup name := by
  have hset : ∀ n v, (OrderedDict.set table n v).lookup name =
      if n = name then some v else table.lookup name := by
    intro n v
    split
    · next heq => rw [heq, OrderedDict.lookup_set_self]
    · next hne => exact OrderedDict.lookup_set_of_ne (Ne.symm hne) v
  cases op with
  | set n v => exact hset n v
  | enable n => exact hset n true
  | disable n => exact hset n false
  | uninstall n removed =>
    rw [Op.apply, Op.name, Op.sets]
    by_cases hn : n = name
    · subst hn
      rw [if_pos rfl]
      cases hlookup : table.lookup n with
      | none =>
        rw [if_neg fun h => OrderedDict.lookup_eq_none_iff.mp hlookup h.2, hlookup]
        split
        · rfl
        · rfl
      | some v =>
        have hmem : n ∈ table.map Prod.fst := by
          by_contra habsent
          rw [OrderedDict.lookup_eq_none_iff.mpr habsent] at hlookup
          exact nomatch hlookup
        cases removed
        · rw [if_neg fun h => Bool.false_ne_true h.1]
          exact hlookup
        · rw [if_pos ⟨rfl, hmem⟩, OrderedDict.lookup_set_self]
          rfl
    · rw [if_neg hn]
      split
      · rw [hset, if_neg hn]
      · rfl

theorem Op.keys_apply {table : List (List UInt8 × Bool)} {op : Op} {name : List UInt8}
    (h : name ∈ (op.apply table).map Prod.fst) : name = op.name ∨ name ∈ table.map Prod.fst := by
  cases op with
  | set n v => exact OrderedDict.mem_keys_set.mp h
  | enable n => exact OrderedDict.mem_keys_set.mp h
  | disable n => exact OrderedDict.mem_keys_set.mp h
  | uninstall n removed =>
    rw [Op.apply] at h
    split at h
    · exact OrderedDict.mem_keys_set.mp h
    · exact .inr h

/-- **Every operation keeps the invariant.** -/
theorem Rep.run {file : Option (List UInt8)} {table : List (List UInt8 × Bool)}
    (h : Rep file table) {op : Op} (hname : ValidName op.name) (hroom : table.length < maxPieces) :
    Rep (op.run file) (op.apply table) := by
  cases op with
  | set name value => exact h.configSetBool hname hroom value
  | enable name => exact h.writeConfig hname true
  | disable name => exact h.writeConfig hname false
  | uninstall name removed =>
    have hmem : pluginKey name ∈ (readConfig file).map Prod.fst ↔ name ∈ table.map Prod.fst := by
      rw [h.readConfig_eq, List.map_map, show Prod.fst ∘ Prod.map pluginKey digit =
        pluginKey ∘ (Prod.fst : _ × Bool → _) from rfl, ← List.map_map,
        List.mem_map_of_injective pluginKey_injective]
    rw [Op.run, Op.apply, cmdUninstall]
    by_cases hset : removed ∧ name ∈ table.map Prod.fst
    · rw [if_pos hset, if_pos ⟨hset.1, hmem.mpr hset.2⟩]
      exact h.writeConfig hname false
    · rw [if_neg hset, if_neg fun hset' => hset ⟨hset'.1, hmem.mp hset'.2⟩]
      exact h

/-- The invariant holds after every sequence of operations, and the table has what was set last. -/
theorem rep_run {names : List (List UInt8)} (hfew : names.length < maxPieces)
    (ops : List Op) (hops : ∀ op ∈ ops, ValidName op.name ∧ op.name ∈ names)
    {file : Option (List UInt8)} {table : List (List UInt8 × Bool)} (h : Rep file table)
    (hnames : ∀ name ∈ table.map Prod.fst, name ∈ names) :
    Rep (ops.foldl Op.run file) (ops.foldl Op.apply table) ∧
      ∀ name, (ops.foldl Op.apply table).lookup name =
        (ops.filter fun op => op.name = name).foldl Op.sets (table.lookup name) := by
  induction ops generalizing file table with
  | nil => exact ⟨h, fun _ => rfl⟩
  | cons op ops ih =>
    obtain ⟨hvalid, hmem⟩ := hops op List.mem_cons_self
    have hroom : table.length < maxPieces := by
      have hle := (List.Nodup.subperm h.nodup hnames).length_le
      rw [List.length_map] at hle
      omega
    have hnames' : ∀ name ∈ (op.apply table).map Prod.fst, name ∈ names := by
      intro name hname
      rcases Op.keys_apply hname with rfl | hname
      · exact hmem
      · exact hnames name hname
    obtain ⟨hrep, hlookup⟩ := ih (fun op' hop' => hops op' (List.mem_cons_of_mem op hop'))
      (h.run hvalid hroom) hnames'
    refine ⟨hrep, fun name => ?_⟩
    rw [List.foldl_cons, hlookup name, Op.lookup_apply]
    by_cases hname : op.name = name
    · rw [if_pos hname, List.filter_cons_of_pos (by simpa using hname), List.foldl_cons]
    · rw [if_neg hname, List.filter_cons_of_neg (by simpa using hname)]

/-- **The host and the tool agree.**  From a missing or empty file, after any operations of either
on plugins with valid names, fewer than 256 in all: both see every plugin as the last operation that
set it has left it, as disabled if there is none; and the file holds exactly one line for each plugin
that was set. -/
theorem plugged_agrees {file : Option (List UInt8)} (hempty : file = none ∨ file = some [])
    {ops : List Op} (hvalid : ∀ op ∈ ops, ValidName op.name)
    (hfew : (ops.map Op.name).dedup.length < 256) :
    (∀ name, configGetBoolDefault (ops.foldl Op.run file) (pluginKey name) false =
          isPluginEnabled name (readConfig (ops.foldl Op.run file)) ∧
        isPluginEnabled name (readConfig (ops.foldl Op.run file)) =
          (lastSet ops name).getD false) ∧
      ∃ table : List (List UInt8 × Bool), (table.map Prod.fst).Nodup ∧
        (∀ name, table.lookup name = lastSet ops name) ∧
        lines ((ops.foldl Op.run file).getD []) =
          table.map fun e => assignment (pluginKey e.1) e.2 := by
  have hrep : Rep file [] := by
    refine ⟨?_, by simp, List.nodup_nil⟩
    rcases hempty with rfl | rfl
    · rfl
    · rfl
  obtain ⟨hfinal, hlookup⟩ := rep_run hfew ops
    (fun op hop => ⟨hvalid op hop, List.mem_dedup.mpr (List.mem_map_of_mem hop)⟩) hrep (by simp)
  constructor
  · intro name
    rw [hfinal.configGetBoolDefault_eq, hfinal.isPluginEnabled_eq, hlookup]
    exact ⟨rfl, rfl⟩
  · exact ⟨_, hfinal.nodup, hlookup, hfinal.lines_eq⟩

/-- The tool enables `"a"`, the host disables it and enables `"b"`. -/
theorem plugged_agrees_two_plugins :
    lastSet [.enable [97], .set [97] false, .set [98] true] [97] = some false ∧
      isPluginEnabled [98] (readConfig (([.enable [97], .set [97] false, .set [98] true] :
        List Op).foldl Op.run none)) = true := by
  refine ⟨by decide, ?_⟩
  have hvalid : ∀ op ∈ ([.enable [97], .set [97] false, .set [98] true] : List Op),
      ValidName op.name := by
    intro op hop
    simp only [List.mem_cons, List.not_mem_nil, or_false] at hop
    rcases hop with rfl | rfl | rfl
    all_goals exact ⟨by decide +kernel, by decide⟩
  rw [((plugged_agrees (.inl rfl) hvalid (by decide)).1 [98]).2]
  decide

end Plugged
end Nsr
