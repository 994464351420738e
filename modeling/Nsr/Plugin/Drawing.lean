import Nsr.Plugin.Conversation

/-!
# What a plugin draws

`draw_render_response` and `color_for_name` of `src/plugin/plugin.c`: the lines of a response to
`render` are put on the screen.

* `drawRenderResponse`: what is printed, in order.
* `PanelLine`, `drawRenderResponse_eq`: a response that lists lines of text is printed line by line.
-/

namespace Nsr

open Ascii

/-- A call of `mvprintw`, with the colour pair that is switched on around it; `0` for none. -/
structure Printed where
  y : ℤ
  x : ℤ
  text : Bytes
  pair : ℕ
  deriving DecidableEq, Repr

/-- `color_for_name`. -/
def colorForName (name : Bytes) : ℕ :=
  if name = ascii "cyan" then 1
  else if name = ascii "green" then 2
  else if name = ascii "yellow" then 3
  else if name = ascii "red" then 4
  else if name = ascii "magenta" then 5
  else if name = ascii "blue" then 6
  else if name = ascii "white" then 7
  else if name = ascii "highlight" then 8
  else 0

/-- An integer member, with a default for where there is none. -/
def intMember (json : Bytes) (key : CStr) (default : ℤ) : ℤ :=
  match objGet json key with
  | none => default
  | some (v, len) => (parseInt v len default).2

/-- A round of the loop of `draw_render_response`. -/
def drawLine (y x : ℤ) (elem : Bytes) : Option Printed :=
  let ly := intMember elem (cs "y") (-1)
  let lx := intMember elem (cs "x") (-1)
  let text := Host.strMember elem (cs "text") 128
  let color := Host.strMember elem (cs "color") 32
  if 0 ≤ ly ∧ 0 ≤ lx ∧ peek text ≠ 0 then
    some ⟨wrap32 ly + y, wrap32 lx + x, cstr text, colorForName (cstr color)⟩
  else none

/-- **`draw_render_response`.** -/
def drawRenderResponse (json : Bytes) (y x : ℤ) : List Printed :=
  match objGet json (cs "result") with
  | none => []
  | some (result, _) =>
    match objGet result (cs "lines") with
    | none => []
    | some (lines, _) => (walkArr lines).filterMap fun e => drawLine y x e.1

/-! ## Lines of text -/

/-- **A line of a response**: its place, its text, and its colour where it has one. -/
structure PanelLine where
  y : Int64
  x : Int64
  text : CStr
  color : Option CStr

/-- The members of a line. -/
def PanelLine.members (l : PanelLine) : List (CStr × Text) :=
  [(cs "y", .int l.y), (cs "x", .int l.x), (cs "text", .string l.text)] ++
    (l.color.map fun c => (cs "color", Text.string c)).toList

def PanelLine.toText (l : PanelLine) : Text := .object l.members

theorem PanelLine.oneLine (l : PanelLine) : l.toText.OneLine := by
  refine Text.oneLine_object fun m hm => ?_
  obtain ⟨y, x, text, color⟩ := l
  simp only [members, List.mem_append, List.mem_cons, List.not_mem_nil, or_false,
    Option.mem_toList, Option.map_eq_some_iff] at hm
  rcases hm with (rfl | rfl | rfl) | ⟨c, -, rfl⟩
  · exact Text.oneLine_int _
  · exact Text.oneLine_int _
  · exact Text.oneLine_string _
  · exact Text.oneLine_string _

/-- A line that can be seen: it lies on the screen and has a plain text, which fits. -/
structure PanelLine.Visible (l : PanelLine) : Prop where
  y : 0 ≤ l.y.toInt ∧ l.y.toInt < 2 ^ 31
  x : 0 ≤ l.x.toInt ∧ l.x.toInt < 2 ^ 31
  text : l.text.bytes ≠ [] ∧ l.text.bytes.length ≤ 127 ∧ ∀ b ∈ l.text.bytes, 0x20 ≤ b
  color : ∀ c ∈ l.color, c.bytes.length ≤ 31 ∧ ∀ b ∈ c.bytes, 0x20 ≤ b

/-- What is printed for a line. -/
def PanelLine.printed (y x : ℤ) (l : PanelLine) : Printed :=
  ⟨l.y.toInt + y, l.x.toInt + x, l.text.bytes, colorForName ((l.color.map CStr.bytes).getD [])⟩

section Members

variable {e : Bytes} {ms : List (CStr × Text)} {k : CStr}

theorem intMember_starts (hk : ∀ b ∈ k.bytes, escape b = [b]) (he : Starts e (.object ms))
    {i : Int64} (h : ms.lookup k = some (.int i)) (default : ℤ) :
    intMember e k default = i.toInt := by
  obtain ⟨v, hget, hv⟩ := objGet_starts hk he h
  rw [intMember, hget]
  dsimp only
  rw [parseInt_starts hv]

theorem intMember_starts_none (hk : ∀ b ∈ k.bytes, escape b = [b]) (he : Starts e (.object ms))
    (h : ms.lookup k = none) (default : ℤ) : intMember e k default = default := by
  rw [intMember, objGet_starts_none hk he h]

theorem strMember_starts (hk : ∀ b ∈ k.bytes, escape b = [b]) (he : Starts e (.object ms))
    {s : CStr} (h : ms.lookup k = some (.string s)) {n : UInt64}
    (hroom : s.bytes.length < n.toNat) (hplain : ∀ b ∈ s.bytes, 0x20 ≤ b) :
    Host.strMember e k n = s.bytes := by
  obtain ⟨v, hget, hv⟩ := objGet_starts hk he h
  rw [Host.strMember, hget]
  exact congrArg (fun o => o.getD []) (parseStr_starts_plain hv hroom hplain)

theorem strMember_starts_none (hk : ∀ b ∈ k.bytes, escape b = [b]) (he : Starts e (.object ms))
    (h : ms.lookup k = none) (n : UInt64) : Host.strMember e k n = [] := by
  rw [Host.strMember, objGet_starts_none hk he h]

end Members

/-- A small number is an `int`. -/
theorem wrap32_of_range {i : ℤ} (h0 : 0 ≤ i) (h : i < 2 ^ 31) : wrap32 i = i := by
  rw [wrap32, Int.bmod_eq_of_le (by omega) (by omega)]

theorem drawLine_starts {l : PanelLine} (hl : l.Visible) {e : Bytes} (he : Starts e l.toText)
    (y x : ℤ) : drawLine y x e = some (l.printed y x) := by
  have hy := intMember_starts (k := cs "y") (i := l.y) (plainName (by simp)) he rfl (-1)
  have hx := intMember_starts (k := cs "x") (i := l.x) (plainName (by simp)) he rfl (-1)
  have htext := strMember_starts (k := cs "text") (s := l.text) (n := 128) (plainName (by simp))
    he rfl (Nat.lt_succ_of_le hl.text.2.1) hl.text.2.2
  have hcolor : cstr (Host.strMember e (cs "color") 32) = (l.color.map CStr.bytes).getD [] := by
    obtain ⟨ly, lx, text, _ | c⟩ := l
    · have hnone := strMember_starts_none (k := cs "color") (plainName (by simp)) he rfl 32
      rw [hnone]
      rfl
    · have hc := hl.color c rfl
      have hsome := strMember_starts (k := cs "color") (s := c) (n := 32) (plainName (by simp))
        he rfl (Nat.lt_succ_of_le hc.1) hc.2
      rw [hsome]
      exact cstr_of_printable hc.2
  have hpeek : peek l.text.bytes ≠ 0 := by
    obtain ⟨c, p, hcp⟩ := List.exists_cons_of_ne_nil hl.text.1
    rw [hcp, peek_cons]
    rintro rfl
    exact l.text.nul_free (hcp ▸ List.mem_cons_self)
  rw [drawLine, hy, hx, htext, hcolor, if_pos ⟨hl.y.1, hl.x.1, hpeek⟩,
    wrap32_of_range hl.y.1 hl.y.2, wrap32_of_range hl.x.1 hl.x.2, cstr_of_printable hl.text.2.2]
  rfl

/-- **A response that lists visible lines is printed line by line.** -/
theorem drawRenderResponse_eq {json : Bytes} {ms : List (CStr × Text)} {rs : List (CStr × Text)}
    {ls : List PanelLine} (hjson : Starts json (.object ms))
    (hresult : ms.lookup (cs "result") = some (.object rs))
    (hlines : rs.lookup (cs "lines") = some (.array (ls.map PanelLine.toText)))
    (hvis : ∀ l ∈ ls, l.Visible) (y x : ℤ) :
    drawRenderResponse json y x = ls.map (PanelLine.printed y x) := by
  obtain ⟨result, hget, hstart⟩ := objGet_starts (plainName (by simp)) hjson hresult
  obtain ⟨lines, hgetl, hstartl⟩ := objGet_starts (plainName (by simp)) hstart hlines
  have hwalk := walkArr_starts hstartl
  rw [List.forall₂_map_right_iff] at hwalk
  have hmap : ∀ {es : List Bytes} {ls : List PanelLine},
      List.Forall₂ (fun e l => Starts e l.toText) es ls → (∀ l ∈ ls, l.Visible) →
        es.filterMap (drawLine y x) = ls.map (PanelLine.printed y x) := by
    intro es ls hes
    induction hes with
    | nil => exact fun _ => rfl
    | @cons e l es ls he _ ih =>
      intro h
      rw [List.filterMap_cons_some (drawLine_starts (h l List.mem_cons_self) he y x),
        ih fun l' hl' => h l' (List.mem_cons_of_mem l hl'), List.map_cons]
  have hall := hmap hwalk hvis
  rw [List.filterMap_map] at hall
  rw [drawRenderResponse, hget]
  dsimp only
  rw [hgetl]
  exact hall

/-- A response without a result prints nothing. -/
theorem drawRenderResponse_error {json : Bytes} {ms : List (CStr × Text)}
    (hjson : Starts json (.object ms)) (hresult : ms.lookup (cs "result") = none) (y x : ℤ) :
    drawRenderResponse json y x = [] := by
  rw [drawRenderResponse, objGet_starts_none (plainName (by simp)) hjson hresult]

/-- Nor does one whose result lists no lines. -/
theorem drawRenderResponse_blank {json : Bytes} {ms rs : List (CStr × Text)}
    (hjson : Starts json (.object ms)) (hresult : ms.lookup (cs "result") = some (.object rs))
    (hlines : rs.lookup (cs "lines") = none) (y x : ℤ) : drawRenderResponse json y x = [] := by
  obtain ⟨result, hget, hstart⟩ := objGet_starts (plainName (by simp)) hjson hresult
  rw [drawRenderResponse, hget]
  dsimp only
  rw [objGet_starts_none (plainName (by simp)) hstart hlines]

end Nsr
