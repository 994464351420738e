import Nsr.Sniffer.Countdown

/-!
# Typing a filter

The dashboard has a field for text, and it takes some letters for movements, whatever field is in
focus.  So a text with such a letter does not become the filter.

* `Presses`: keys that are pressed one after another, and what happens in between.
* `edit`: what a key does to the focus and to the text; `Editing`: the state of the dashboard.
* `Editing.press`, `Editing.run`: a key, and a text that is typed and applied.
* `typed_iff`: when what is typed is what is filtered.
-/

namespace Nsr.Sniffer

open Checked Transition

/-! ## Keys -/

/-- Up, `k` or `K`. -/
def IsUp (key : ℤ) : Prop :=
  key = 259 ∨ key = 107 ∨ key = 75

/-- Down, `j` or `J`. -/
def IsDown (key : ℤ) : Prop :=
  key = 258 ∨ key = 106 ∨ key = 74

/-- Left or right, `h`, `l`, `H` or `L`. -/
def IsSide (key : ℤ) : Prop :=
  (key = 260 ∨ key = 104 ∨ key = 72) ∨ key = 261 ∨ key = 108 ∨ key = 76

instance (key : ℤ) : Decidable (IsUp key) :=
  inferInstanceAs (Decidable (_ ∨ _ ∨ _))

instance (key : ℤ) : Decidable (IsDown key) :=
  inferInstanceAs (Decidable (_ ∨ _ ∨ _))

instance (key : ℤ) : Decidable (IsSide key) :=
  inferInstanceAs (Decidable ((_ ∨ _ ∨ _) ∨ _ ∨ _ ∨ _))

/-- The letters that are taken for movements. -/
def navigation : Bytes :=
  ascii "hjklHJKL"

/-- The key of a character. -/
def keyOf (c : UInt8) : ℤ :=
  c.toNat

/-- Where a movement up or down goes from a field. -/
def moveFocus (focus : ℕ) (key : ℤ) : ℕ :=
  if IsUp key then (focus + 3) % 4 else (focus + 1) % 4

/-- Movements from the first field to the one for text. -/
structure MovesToFilter (moves : List ℤ) : Prop where
  upOrDown : ∀ key ∈ moves, IsUp key ∨ IsDown key
  focus : moves.foldl moveFocus 0 = 1

/-- What may happen between two keys. -/
def Background : Event → Prop
  | .updateTelemetry _ _ | .captured _ | .requestDone | .render _ _ => True
  | .cleanup | .onKey _ _ _ _ => False

/-- **Keys that are pressed one after another**, each at least 100 ms after the one before it, the
first one after the time `last`. -/
inductive Presses : List ℤ → UInt64 → List Event → Prop
  | nil {last : UInt64} : Presses [] last []
  | background {keys : List ℤ} {last : UInt64} {e : Event} {es : List Event} (he : Background e)
    (rest : Presses keys last es) : Presses keys last (e :: es)
  | press {key : ℤ} {keys : List ℤ} {last t now : UInt64} {socket modalInput : Bool}
    {es : List Event} (apart : last.toNat + 100 ≤ t.toNat) (rest : Presses keys t es) :
    Presses (key :: keys) last (.onKey t now socket ⟨some key, modalInput⟩ :: es)

/-! ## What a key does -/

/-- **What a key does to the focus and to the text.** -/
def edit (s : ℕ × Bytes) (key : ℤ) : ℕ × Bytes :=
  if IsUp key ∨ IsDown key then (moveFocus s.1 key, s.2)
  else if IsSide key then s
  else if s.1 = 1 ∧ s.2.length < 63 then (s.1, s.2 ++ [UInt8.ofNat key.toNat])
  else s

/-- The keys of the run: movements and characters. -/
def IsTyped (key : ℤ) : Prop :=
  IsUp key ∨ IsDown key ∨ 32 ≤ key ∧ key ≤ 126

/-- **The dashboard is open**, and no key has been pressed after the time `last`. -/
structure Editing (last : UInt64) (s : ℕ × Bytes) (state : GlobalState) : Prop where
  wf : Wf state
  opened : state.showDashboard = true
  last : state.lastDashboardKeyMs.toNat ≤ last.toNat
  focus : state.inspectFocus = s.1
  filter : state.inspectFilter = s.2

section Typing

variable {env : Platform} {state : GlobalState} {last : UInt64} {s : ℕ × Bytes}

/-- What the keys left and right do not change. -/
structure SameText (state state' : GlobalState) : Prop where
  opened : state'.showDashboard = state.showDashboard
  last : state'.lastDashboardKeyMs = state.lastDashboardKeyMs
  focus : state'.inspectFocus = state.inspectFocus
  filter : state'.inspectFilter = state.inspectFilter

theorem previousValue_same : Returns (previousValue state) (SameText state) := by
  unfold previousValue
  refine .ite (fun _ => .ite (fun _ => ?_) fun _ => ?_) fun _ =>
    .ite (fun _ => .pure ⟨rfl, rfl, rfl, rfl⟩) fun _ => .ite (fun _ => ?_) fun _ =>
      .pure ⟨rfl, rfl, rfl, rfl⟩
  all_goals exact .skip fun _ => .pure ⟨rfl, rfl, rfl, rfl⟩

theorem nextValue_same : Returns (nextValue state) (SameText state) := by
  unfold nextValue
  refine .ite (fun _ => .skip fun _ => .ite (fun _ => ?_) fun _ => ?_) fun _ =>
    .ite (fun _ => .pure ⟨rfl, rfl, rfl, rfl⟩) fun _ => .ite (fun _ => ?_) fun _ =>
      .pure ⟨rfl, rfl, rfl, rfl⟩
  · exact .pure ⟨rfl, rfl, rfl, rfl⟩
  all_goals exact .skip fun _ => .pure ⟨rfl, rfl, rfl, rfl⟩

theorem edit_move {key : ℤ} (hkey : IsUp key ∨ IsDown key) :
    edit s key = (moveFocus s.1 key, s.2) :=
  if_pos hkey

theorem edit_up {key : ℤ} (hup : IsUp key) : edit s key = ((s.1 + 3) % 4, s.2) := by
  rw [edit_move (Or.inl hup), moveFocus, if_pos hup]

theorem edit_down {key : ℤ} (hup : ¬IsUp key) (hdown : IsDown key) :
    edit s key = ((s.1 + 1) % 4, s.2) := by
  rw [edit_move (Or.inr hdown), moveFocus, if_neg hup]

/-- What a key in the dashboard does to it. -/
theorem dashboardKey_edit {key : ℤ} (hkey : IsTyped key) {t : UInt64}
    (haccepted : 100 ≤ t.toNat - state.lastDashboardKeyMs.toNat) :
    Returns (dashboardKey t key state) fun r =>
      r.2 = (false, true) ∧ r.1.showDashboard = state.showDashboard ∧
        r.1.lastDashboardKeyMs = t ∧
        (r.1.inspectFocus, r.1.inspectFilter) =
          edit (state.inspectFocus, state.inspectFilter) key := by
  have hrange : 32 ≤ key ∧ key ≤ 126 ∨ key = 258 ∨ key = 259 := by
    rcases hkey with (h | h | h) | (h | h | h) | h
    all_goals omega
  unfold dashboardKey
  refine .ite (fun h => by omega) fun _ => .ite (fun h => by omega) fun _ => ?_
  refine .ite (fun hup => ?_) fun hup => .ite (fun hdown => ?_) fun hdown => ?_
  · refine (add_returns _ _).bind fun n hn => .pure ⟨rfl, rfl, rfl, ?_⟩
    change (n % 4, state.inspectFilter) = _
    rw [edit_up hup, hn]
  · refine (add_returns _ _).bind fun n hn => .pure ⟨rfl, rfl, rfl, ?_⟩
    change (n % 4, state.inspectFilter) = _
    rw [edit_down hup hdown, hn]
  have hmove : ¬(IsUp key ∨ IsDown key) := not_or.mpr ⟨hup, hdown⟩
  -- left and right change the value of the field
  have hside : IsSide key → ∀ state' : GlobalState,
      SameText { state with lastDashboardKeyMs := t } state' →
      ((state', false, true) : GlobalState × Bool × Bool).2 = (false, true) ∧
        state'.showDashboard = state.showDashboard ∧ state'.lastDashboardKeyMs = t ∧
        (state'.inspectFocus, state'.inspectFilter) =
          edit (state.inspectFocus, state.inspectFilter) key := by
    intro hside state' hsame
    refine ⟨rfl, hsame.opened, hsame.last, ?_⟩
    rw [edit, if_neg hmove, if_pos hside, hsame.focus, hsame.filter]
  refine .ite (fun hleft => ?_) fun hleft => .ite (fun hright => ?_) fun hright => ?_
  · exact previousValue_same.bind fun state' hsame => .pure (hside (Or.inl hleft) state' hsame)
  · exact nextValue_same.bind fun state' hsame => .pure (hside (Or.inr hright) state' hsame)
  have hneither : ¬IsSide key := not_or.mpr ⟨hleft, hright⟩
  refine .ite (fun h => by omega) fun _ => .ite (fun h => by omega) fun _ => ?_
  rw [edit, if_neg hmove, if_neg hneither]
  refine .ite (fun _ => .ite (fun h => ?_) fun h => ?_) fun h => ?_
  · exact .pure ⟨rfl, rfl, rfl, (if_pos h).symm⟩
  · exact .pure ⟨rfl, rfl, rfl, (if_neg h).symm⟩
  · -- up and down have been dealt with
    rcases hrange with hrange | rfl | rfl
    · exact absurd hrange h
    · exact absurd (Or.inl rfl) hdown
    · exact absurd (Or.inl rfl) hup

/-- **A key while a text is typed.** -/
theorem Editing.press (h : Editing last s state) {key : ℤ} (hkey : IsTyped key)
    {t : UInt64} (hapart : last.toNat + 100 ≤ t.toNat) (now : UInt64)
    (socket modalInput : Bool) :
    ∃ state', handle env state (.onKey t now socket ⟨some key, modalInput⟩) = .ok state' ∧
      Editing t (edit s key) state' := by
  have hlast := h.last
  have haccepted : 100 ≤ t.toNat - state.lastDashboardKeyMs.toNat := by omega
  obtain ⟨⟨state', apply, handled⟩, hr, hwf⟩ := dashboardKey_safe h.wf t key
  obtain ⟨hflags, hopen, htime, hedit⟩ := dashboardKey_edit hkey haccepted _ hr
  obtain ⟨rfl, rfl⟩ := Prod.mk.inj hflags
  rw [h.focus, h.filter] at hedit
  refine ⟨state', ?_, hwf, hopen.trans h.opened, by rw [htime], ?_, ?_⟩
  · rw [handle, onKey]
    dsimp only
    rw [if_neg (by rw [h.opened]; simp), if_pos h.opened, onDashboardKey, hr, ok_bind]
    rfl
  · exact congrArg Prod.fst hedit
  · exact congrArg Prod.snd hedit

/-- What happens in between changes nothing of it. -/
theorem Editing.background (h : Editing last s state) {e : Event} (he : Background e) :
    ∃ state', handle env state e = .ok state' ∧ Editing last s state' := by
  have hopen := h.opened
  cases e with
  | updateTelemetry targetIp targetHost => exact ⟨_, rfl, { h with wf := { h.wf with } }⟩
  | captured c => exact ⟨_, rfl, { h with wf := { h.wf with } }⟩
  | requestDone => exact ⟨_, rfl, { h with wf := { h.wf with } }⟩
  | render now focusedAddr =>
    refine ⟨_, rfl, ?_⟩
    unfold handleRender
    dsimp only
    rw [if_neg (by rw [hopen]; simp), if_pos hopen]
    exact { h with wf := { h.wf with } }
  | cleanup => exact he.elim
  | onKey t now socket params => exact he.elim

/-! ## Applying the settings -/

theorem stopSniffer_filterString : (stopSniffer state).filterString = state.filterString := by
  unfold stopSniffer
  split
  all_goals rfl

theorem startSniffer_filterString (socket : Bool) (targetIp : Bytes) :
    (startSniffer env socket targetIp state).1.filterString = state.filterString := by
  refine Eq.trans ?_ stopSniffer_filterString
  unfold startSniffer
  dsimp only
  split
  · rfl
  · split_ifs
    all_goals rfl

theorem takeSettings_filterString (now : UInt64) (filterProto : Bytes) :
    (takeSettings env now filterProto state).1.filterString = state.inspectFilter := by
  unfold takeSettings
  dsimp only
  split
  all_goals rfl

/-- **Enter makes the text the filter.** -/
theorem Editing.enter (h : Editing last s state) {key : ℤ} (hkey : IsEnter key) {t : UInt64}
    (hapart : last.toNat + 100 ≤ t.toNat) (now : UInt64) (socket modalInput : Bool) :
    ∃ state', handle env state (.onKey t now socket ⟨some key, modalInput⟩) = .ok state' ∧
      state'.filterString = s.2 := by
  have hlast := h.last
  have haccepted : 100 ≤ t.toNat - state.lastDashboardKeyMs.toNat := by omega
  have hfilter : (closed t state).inspectFilter = s.2 := h.filter
  refine ⟨_, congrArg (Except.map Prod.fst) (enter_eq h.wf h.opened hkey haccepted now socket
    modalInput), ?_⟩
  rw [sendKeyResponse]
  dsimp only
  split
  · rw [startSniffer_filterString, takeSettings_filterString, hfilter]
  · rw [stopSniffer_filterString, takeSettings_filterString, hfilter]

theorem handleRender_filterString (now : UInt64) (focusedAddr : Option Bytes) :
    (handleRender env now focusedAddr state).state.filterString = state.filterString := by
  unfold handleRender requestFrame
  dsimp only
  split_ifs
  all_goals rfl

theorem background_filterString {e : Event} (he : Background e) :
    ∃ state', handle env state e = .ok state' ∧ state'.filterString = state.filterString := by
  cases e with
  | updateTelemetry targetIp targetHost => exact ⟨_, rfl, rfl⟩
  | captured c => exact ⟨_, rfl, rfl⟩
  | requestDone => exact ⟨_, rfl, rfl⟩
  | render now focusedAddr => exact ⟨_, rfl, handleRender_filterString now focusedAddr⟩
  | cleanup => exact he.elim
  | onKey t now socket params => exact he.elim

theorem runEvents_cons {e : Event} {es : List Event} {middle : GlobalState}
    (h : handle env state e = .ok middle) :
    runEvents env state (e :: es) = runEvents env middle es := by
  rw [runEvents, List.foldlM_cons, h]
  rfl

/-- When no key is pressed any more the filter stays. -/
theorem runEvents_filterString {es : List Event} (hes : Presses [] last es) :
    ∃ state', runEvents env state es = .ok state' ∧ state'.filterString = state.filterString := by
  generalize hkeys : ([] : List ℤ) = keys at hes
  induction hes generalizing state with
  | nil => exact ⟨state, rfl, rfl⟩
  | background he _ ih =>
    have hstep : ∃ middle, handle env state _ = .ok middle ∧
        middle.filterString = state.filterString := background_filterString he
    obtain ⟨middle, hmiddle, hfilter⟩ := hstep
    obtain ⟨state', hrun, hfilter'⟩ := ih hkeys
    exact ⟨state', (runEvents_cons hmiddle).trans hrun, hfilter'.trans hfilter⟩
  | press => cases hkeys

/-- **A text that is typed and applied.**  By induction on the events: a key edits the text, what
happens in between leaves it alone, and the last key applies it. -/
theorem Editing.run {keys typed : List ℤ} {enter : ℤ} {es : List Event}
    (hes : Presses keys last es) (hkeys : keys = typed ++ [enter]) (henter : IsEnter enter)
    (htyped : ∀ key ∈ typed, IsTyped key) (h : Editing last s state) :
    ∃ state', runEvents env state es = .ok state' ∧
      state'.filterString = (typed.foldl edit s).2 := by
  induction hes generalizing state s typed with
  | nil => simp at hkeys
  | background he _ ih =>
    have hstep : ∃ middle, handle env state _ = .ok middle ∧ Editing _ s middle :=
      h.background he
    obtain ⟨middle, hmiddle, hediting⟩ := hstep
    obtain ⟨state', hrun, hfilter⟩ := ih hkeys htyped hediting
    exact ⟨state', (runEvents_cons hmiddle).trans hrun, hfilter⟩
  | @press key keys last t now socket modalInput es hapart rest ih =>
    cases typed with
    | nil =>
      obtain ⟨rfl, rfl⟩ := List.cons.inj hkeys
      have hstep : ∃ middle,
          handle env state (.onKey t now socket ⟨some key, modalInput⟩) = .ok middle ∧
            middle.filterString = s.2 := h.enter henter hapart now socket modalInput
      obtain ⟨middle, hmiddle, hfilter⟩ := hstep
      have hrest : ∃ state', runEvents env middle es = .ok state' ∧
          state'.filterString = middle.filterString := runEvents_filterString rest
      obtain ⟨state', hrun, hfilter'⟩ := hrest
      exact ⟨state', (runEvents_cons hmiddle).trans hrun, hfilter'.trans hfilter⟩
    | cons first typed =>
      obtain ⟨rfl, hrest⟩ := List.cons.inj hkeys
      have hstep : ∃ middle,
          handle env state (.onKey t now socket ⟨some key, modalInput⟩) = .ok middle ∧
            Editing t (edit s key) middle :=
        h.press (htyped key List.mem_cons_self) hapart now socket modalInput
      obtain ⟨middle, hmiddle, hediting⟩ := hstep
      obtain ⟨state', hrun, hfilter⟩ :=
        ih hrest (fun key' hkey' => htyped key' (List.mem_cons_of_mem key hkey')) hediting
      exact ⟨state', (runEvents_cons hmiddle).trans hrun, hfilter⟩

/-- **`a` opens the dashboard** with the current filter and the first field in focus. -/
theorem openDashboard_editing (h : Wf state) (t : UInt64) :
    Editing t (0, state.filterString) (openDashboard state) where
  wf := openDashboard_wf h
  opened := rfl
  last := Nat.zero_le _
  focus := rfl
  filter := rfl

/-! ## Texts -/

/-- The letters that are taken for movements are the ones of the movements. -/
theorem mem_navigation (c : UInt8) :
    c ∈ navigation ↔ (IsUp (keyOf c) ∨ IsDown (keyOf c)) ∨ IsSide (keyOf c) := by
  have hall : ∀ n < 256, UInt8.ofNat n ∈ navigation ↔
      (IsUp (n : ℕ) ∨ IsDown (n : ℕ)) ∨ IsSide (n : ℕ) := by
    decide +kernel
  have hc := hall c.toNat c.toNat_lt
  rwa [UInt8.ofNat_toNat] at hc

theorem edit_navigation {c : UInt8} (hc : c ∈ navigation) (s : ℕ × Bytes) :
    (edit s (keyOf c)).2 = s.2 := by
  rw [mem_navigation] at hc
  unfold edit
  split
  · rfl
  next hmove => rw [if_pos (hc.resolve_left hmove)]

theorem edit_text {c : UInt8} (hc : c ∉ navigation) {b : Bytes} (hb : b.length < 63) :
    edit (1, b) (keyOf c) = (1, b ++ [c]) := by
  rw [mem_navigation, not_or] at hc
  rw [edit, if_neg hc.1, if_neg hc.2, if_pos ⟨rfl, hb⟩, keyOf, Int.toNat_natCast,
    UInt8.ofNat_toNat]

theorem edit_length (s : ℕ × Bytes) (key : ℤ) : (edit s key).2.length ≤ s.2.length + 1 := by
  unfold edit
  split_ifs
  · exact Nat.le_succ _
  · exact Nat.le_succ _
  · rw [List.length_append]
    rfl
  · exact Nat.le_succ _

theorem foldl_moves {moves : List ℤ} (hmoves : ∀ key ∈ moves, IsUp key ∨ IsDown key) (focus : ℕ)
    (b : Bytes) : moves.foldl edit (focus, b) = (moves.foldl moveFocus focus, b) := by
  induction moves generalizing focus with
  | nil => rfl
  | cons key moves ih =>
    rw [List.foldl_cons, List.foldl_cons, edit_move (hmoves key List.mem_cons_self)]
    exact ih (fun key' hkey' => hmoves key' (List.mem_cons_of_mem key hkey')) _

/-- A text without movements is typed as it is. -/
theorem foldl_text {w : Bytes} (hw : ∀ c ∈ w, c ∉ navigation) {b : Bytes}
    (hlen : b.length + w.length ≤ 63) : (w.map keyOf).foldl edit (1, b) = (1, b ++ w) := by
  induction w generalizing b with
  | nil => rw [List.append_nil]; rfl
  | cons c w ih =>
    rw [List.length_cons] at hlen
    have hroom : (b ++ [c]).length + w.length ≤ 63 := by
      rw [List.length_append, List.length_singleton]
      omega
    rw [List.map_cons, List.foldl_cons, edit_text (hw c List.mem_cons_self) (by omega),
      ih (fun c' hc' => hw c' (List.mem_cons_of_mem c hc')) hroom, List.append_assoc]
    rfl

/-- A movement adds no character, and any other key adds at most one. -/
theorem foldl_length (w : Bytes) (s : ℕ × Bytes) :
    ((w.map keyOf).foldl edit s).2.length ≤
      s.2.length + (w.filter fun c => c ∉ navigation).length := by
  induction w generalizing s with
  | nil => exact Nat.le_refl _
  | cons c w ih =>
    rw [List.map_cons, List.foldl_cons]
    refine (ih _).trans ?_
    by_cases hc : c ∈ navigation
    · rw [edit_navigation hc, List.filter_cons_of_neg (by simpa using hc)]
    · have hedit := edit_length s (keyOf c)
      rw [List.filter_cons_of_pos (by simpa using hc), List.length_cons]
      omega

/-- **What is typed is what is there** exactly if no character is taken for a movement. -/
theorem foldl_eq_iff {w : Bytes} (hlen : w.length ≤ 63) :
    ((w.map keyOf).foldl edit (1, [])).2 = w ↔ ∀ c ∈ w, c ∉ navigation := by
  constructor
  · intro heq
    by_contra hsome
    push Not at hsome
    obtain ⟨c, hc, hnavigation⟩ := hsome
    have hle := foldl_length w (1, [])
    have hlt : (w.filter fun c => c ∉ navigation).length < w.length :=
      List.length_filter_lt_length_iff_exists.mpr ⟨c, hc, by simpa using hnavigation⟩
    rw [heq, List.length_nil] at hle
    omega
  · intro hw
    rw [foldl_text hw (by rw [List.length_nil]; omega)]
    rfl

/-- **When what is typed is what is filtered.**  In any state without a filter and without a modal,
`a` is pressed, the focus is moved to the field for text, a text of at most 63 printable characters
is typed, and Enter is pressed.  Then the filter is the text exactly if none of its characters is
taken for a movement. -/
theorem typed_iff (hreach : Reachable (Step env) .new state) (hfilter : state.filterString = [])
    (hmodal : ¬(state.showDashboard = true ∨ state.countdownActive = true)) {w : Bytes}
    (hlen : w.length ≤ 63) (hprintable : ∀ c ∈ w, 32 ≤ c ∧ c ≤ 126) {moves : List ℤ}
    (hmoves : MovesToFilter moves) {enter : ℤ} (henter : IsEnter enter) {t now : UInt64}
    {socket : Bool} {es : List Event} (hes : Presses (moves ++ w.map keyOf ++ [enter]) t es) :
    ∃ state', runEvents env state (.onKey t now socket ⟨some 97, false⟩ :: es) = .ok state' ∧
      (state'.filterString = w ↔ ∀ c ∈ w, c ∉ navigation) := by
  rw [not_or, Bool.not_eq_true, Bool.not_eq_true] at hmodal
  have hopen : handle env state (.onKey t now socket ⟨some 97, false⟩) =
      .ok (openDashboard state) := by
    rw [handle, onKey]
    dsimp only
    rw [if_neg (by simp), if_neg (by rw [hmodal.1]; exact Bool.false_ne_true), if_pos (Or.inl rfl)]
    rfl
  have htyped : ∀ key ∈ moves ++ w.map keyOf, IsTyped key := by
    intro key hkey
    rcases List.mem_append.mp hkey with hmove | htext
    · exact (hmoves.upOrDown key hmove).imp_right Or.inl
    · obtain ⟨c, hc, rfl⟩ := List.mem_map.mp htext
      obtain ⟨hlow, hhigh⟩ := hprintable c hc
      rw [UInt8.le_iff_toNat_le] at hlow hhigh
      exact Or.inr (Or.inr ⟨Int.ofNat_le.mpr hlow, Int.ofNat_le.mpr hhigh⟩)
  have hediting := openDashboard_editing (wf_of_reachable hreach) t
  obtain ⟨state', hrun, hstring⟩ := hediting.run hes rfl henter htyped
  refine ⟨state', (runEvents_cons hopen).trans hrun, ?_⟩
  rw [hstring, hfilter, List.foldl_append, foldl_moves hmoves.upOrDown, hmoves.focus]
  exact foldl_eq_iff hlen

end Typing

/-- A text is typed, a key every 100 ms. -/
def typeText (w : Bytes) : List Event :=
  pressed 97 1000 :: pressed 258 1100 ::
    (w.zipIdx.map fun c => pressed (keyOf c.1) (UInt64.ofNat (1200 + 100 * c.2))) ++
      [pressed 10 (UInt64.ofNat (1200 + 100 * w.length))]

/-- **`hello` becomes `eo`.** -/
theorem hello_not_typed :
    (runEvents plainPlatform .new (typeText (ascii "hello"))).map GlobalState.filterString =
      .ok (ascii "eo") := by
  decide +kernel

/-- `GET /` stays what it is. -/
theorem get_typed :
    ∃ state', runEvents plainPlatform .new (typeText (ascii "GET /")) = .ok state' ∧
      state'.filterString = ascii "GET /" := by
  have hmoves : MovesToFilter [258] := ⟨by decide, rfl⟩
  have hes : Presses ([258] ++ (ascii "GET /").map keyOf ++ [10]) 1000
      (typeText (ascii "GET /")).tail := by
    refine .press (by decide) (.press (by decide) (.press (by decide) (.press (by decide)
      (.press (by decide) (.press (by decide) (.press (by decide) .nil))))))
  obtain ⟨state', hrun, hiff⟩ := typed_iff .refl rfl (by decide) (by decide)
    (by decide +kernel) hmoves
    (Or.inr (Or.inl rfl)) hes
  exact ⟨state', hrun, hiff.mpr (by decide +kernel)⟩

end Nsr.Sniffer
