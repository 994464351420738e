import Nsr.Plugin.KeyDelivery
import Nsr.Plugin.Lifecycle
import Nsr.Lib.Scan

/-!
# The registry of plugins

`nsr_plugins_modal_active` and `nsr_plugins_on_key` of `src/plugin/plugin.c` over all entries.  A
registry is the list of its entries; what the system answers for an entry comes by its index.

A key goes round the entries up to four times: what the plugins have sent is drained first, and an
editor one of them asked for is run; then the modal plugins are offered the key, then those that
reserved it, and then all of them.

* `Registry.modalActive`, `Registry.onKey`.
* `Took`: a plugin was passed the key.
* `onKey_takes`: a reserved key is passed to a plugin, unless an editor was run in its place.
-/

namespace Nsr

/-- **`nsr_plugin_registry_t`**: the entries below `count`. -/
abbrev Registry := List Host

namespace Registry

open Host

/-- `nsr_plugins_modal_active`. -/
def modalActive (reg : Registry) (exited : ℕ → Bool) : Option (Bool × Registry) :=
  Scan.first (fun i h =>
    let h := h.checkAlive (exited i)
    some (h.e.live && h.e.isModal, h)) reg

/-- What the system answers for an entry while `nsr_plugins_on_key` runs. -/
structure OnKeyEnv where
  exited : Bool
  drains : List DrainEnv
  pass : Pass → KeyEnv

/-- The first loop of `nsr_plugins_on_key`; the answer is yes when an editor was run. -/
def drainLoop (reg : Registry) (env : ℕ → OnKeyEnv) : Option (Bool × Registry) :=
  Scan.every (fun i h => h.onKeyDrain (env i).exited (env i).drains) reg

/-- A further loop of `nsr_plugins_on_key`, which ends once the key is handled. -/
def passLoop (reg : Registry) (pass : Pass) (ch : Int32) (env : ℕ → OnKeyEnv) (handled : Bool) :
    Option (Bool × Registry) :=
  if handled then some (true, reg)
  else Scan.first (fun i h => h.onKeyPass pass ch ((env i).pass pass)) reg

/-- **`nsr_plugins_on_key`.**  Where the source has found the key reserved by a plugin
(`targeted`), it has also found it handled, and the last loop ends before it starts. -/
def onKey (reg : Registry) (ch : Int32) (env : ℕ → OnKeyEnv) : Option (Bool × Registry) :=
  if ch < 0 then some (false, reg)
  else
    (reg.drainLoop env).bind fun r =>
    (passLoop r.2 .modal ch env r.1).bind fun r =>
    (passLoop r.2 .reserved ch env r.1).bind fun r =>
    passLoop r.2 .broadcast ch env r.1

end Registry

/-! ## Keys passed to a plugin -/

/-- No key is passed to the plugin. -/
def Unpassed (h h' : Host) : Prop :=
  passedKeys h'.log = passedKeys h.log

/-- **The key was passed to a plugin.** -/
def Took (ch : Int32) (reg reg' : Registry) : Prop :=
  ∃ (j : ℕ) (h h' : Host) (modalInput : Bool), reg[j]? = some h ∧ reg'[j]? = some h' ∧
    passedKeys h'.log = passedKeys h.log ++ [⟨ch, modalInput⟩]

/-- What the host says and hears is no key passed to the plugin. -/
theorem passedKeys_append {log new : List Event}
    (hnew : ∀ ev ∈ new, (∃ asks, Host.IsSent asks ev) ∨ Host.IsTaken ev) :
    passedKeys (log ++ new) = passedKeys log := by
  have hnone : passedKeys new = [] := by
    refine List.filterMap_eq_nil_iff.mpr fun ev hev => ?_
    rcases hnew ev hev with ⟨-, m, params, id, written, -, rfl⟩ | rfl | ⟨m, line, rfl⟩
    · rfl
    · rfl
    · rfl
  rw [passedKeys, List.filterMap_append]
  exact (congrArg _ hnone).trans (List.append_nil _)

theorem Unpassed.drainParts : Host.DrainParts (fun _ => True) Unpassed where
  refl := fun _ => rfl
  trans := fun h₁ h₂ => h₂.trans h₁
  read := fun _ _ _ => rfl
  take := by
    intro h line discard
    obtain ⟨new, hheard, hnew⟩ := Host.take_heard h line discard
    rw [Unpassed, hheard.log, List.append_cons, passedKeys_append fun ev hev => .inr (hnew ev hev)]
    simp [passedKeys]
  nextKey := by
    intro h written _
    obtain ⟨new, hspoke, hnew, -⟩ := Host.sendNextKey_spoke h written
    rw [Unpassed, hspoke.log, passedKeys_append fun ev hev => .inl ⟨_, hnew ev hev⟩]
  editor := fun _ => rfl

/-- `plugin_try_on_key` passes the key, and says whose it is. -/
theorem tryOnKey_passed {h h' : Host} {ev : KeyEvent} {reserved b : Bool} {env : Host.KeyEnv}
    (hr : h.tryOnKey ev reserved env = some (b, h')) :
    b = (ev.modalInput || reserved) ∧ passedKeys h'.log = passedKeys h.log ++ [ev] := by
  obtain ⟨h₁, hd, hpress⟩ := Option.map_eq_some_iff.mp hr
  have hdrained : passedKeys h₁.log = passedKeys h.log :=
    Unpassed.drainParts.drainAll (fun _ _ => trivial) hd
  constructor
  · rw [Host.pressKey] at hpress
    split at hpress
    next hm =>
      rw [hm, Bool.true_or]
      split at hpress
      · exact (Prod.mk.inj hpress).1.symm
      · exact (Prod.mk.inj hpress).1.symm
    next hm =>
      rw [← (Prod.mk.inj hpress).1]
      simp [hm]
  · obtain ⟨new, hspoke, hnew⟩ :=
      Host.pressKey_spoke h₁ ev reserved env.t₁ env.t₂ env.written
    rw [hpress] at hspoke
    rw [hspoke.log, List.append_cons, passedKeys_append fun ev hev => .inl ⟨_, hnew ev hev⟩,
      ← hdrained]
    simp [passedKeys]

/-- A pass takes the key where it says so. -/
theorem onKeyPass_yes {h h' : Host} {pass : Host.Pass} {ch : Int32} {env : Host.KeyEnv}
    (hr : h.onKeyPass pass ch env = some (true, h')) :
    ∃ modalInput, passedKeys h'.log = passedKeys h.log ++ [⟨ch, modalInput⟩] := by
  unfold Host.onKeyPass at hr
  dsimp only at hr
  split at hr
  · cases hr
  cases pass with
  | modal =>
    dsimp only at hr
    split at hr
    · exact ⟨true, (tryOnKey_passed hr).2⟩
    · cases hr
  | reserved =>
    dsimp only at hr
    split at hr
    · exact ⟨false, (tryOnKey_passed hr).2⟩
    · cases hr
  | broadcast => exact ⟨false, (tryOnKey_passed hr).2⟩

/-- The passes over modal and over reserving plugins leave a plugin alone where they say no. -/
theorem onKeyPass_no {h h' : Host} {pass : Host.Pass} {ch : Int32} {env : Host.KeyEnv}
    (hpass : pass ≠ .broadcast) (hr : h.onKeyPass pass ch env = some (false, h')) :
    h' = h.checkAlive env.exited := by
  unfold Host.onKeyPass at hr
  dsimp only at hr
  split at hr
  · exact (Prod.mk.inj (Option.some_inj.mp hr)).2.symm
  cases pass with
  | modal =>
    dsimp only at hr
    split at hr
    · cases (tryOnKey_passed hr).1
    · exact (Prod.mk.inj (Option.some_inj.mp hr)).2.symm
  | reserved =>
    dsimp only at hr
    split at hr
    · cases (tryOnKey_passed hr).1
    · exact (Prod.mk.inj (Option.some_inj.mp hr)).2.symm
  | broadcast => exact absurd rfl hpass

/-! ## A plugin that stays -/

/-- The flag `dead` of the entry is as it was. -/
def Undying (h h' : Host) : Prop :=
  h'.e.dead = h.e.dead

theorem Undying.drainParts : Host.DrainParts (· = true) Undying where
  refl := fun _ => rfl
  trans := fun h₁ h₂ => h₂.trans h₁
  read := fun _ _ _ => rfl
  take := fun h line discard =>
    have ⟨_, hheard, _⟩ := Host.take_heard h line discard
    hheard.dead
  nextKey := fun h written hw =>
    have ⟨_, _, _, hdead⟩ := Host.sendNextKey_spoke h written
    hdead hw
  editor := fun _ => rfl

/-- The process does not exit and its pipe takes what is written, as long as the key goes round. -/
structure Registry.OnKeyEnv.Stays (env : Registry.OnKeyEnv) : Prop where
  exited : env.exited = false
  written : ∀ d ∈ env.drains, d.written = true
  pass : ∀ pass, (env.pass pass).exited = false

/-- A plugin that stays is as live after the drain as before, and has reserved the same keys. -/
theorem onKeyDrain_stays {h h' : Host} {env : Registry.OnKeyEnv} {b : Bool} (henv : env.Stays)
    (hr : h.onKeyDrain env.exited env.drains = some (b, h')) :
    h'.e.live = h.e.live ∧ ∀ ch, h'.e.reservesKey ch = h.e.reservesKey ch := by
  have hdead := Undying.drainParts.onKeyDrain henv.written hr
  have hsame := Host.same_parts.onKeyDrain (fun _ _ => trivial) hr
  rw [henv.exited, Host.checkAlive_false] at hdead hsame
  refine ⟨?_, fun ch => ?_⟩
  · rw [Entry.live, Entry.live, hsame.enabled, hsame.initialized, hdead]
  · rw [Entry.reservesKey, Entry.reservesKey, hsame.reservedKeys]

/-! ## A key goes round -/

namespace Registry

variable {reg reg' reg'' : Registry} {ch : Int32} {env : ℕ → OnKeyEnv}

/-- An editor is run in place of the key. -/
def editorRuns (reg : Registry) (env : ℕ → OnKeyEnv) : Bool :=
  match reg.drainLoop env with
  | some (b, _) => b
  | none => false

/-- What is passed after nothing was passed. -/
theorem took_after (h₁ : List.Forall₂ Unpassed reg reg') (h₂ : Took ch reg' reg'') :
    Took ch reg reg'' := by
  obtain ⟨j, h', h'', modalInput, hj, hj', hpassed⟩ := h₂
  obtain ⟨h, hh, hun⟩ := Scan.entry_of_rel h₁ hj
  exact ⟨j, h, h'', modalInput, hh, hj', by rw [hpassed, hun]⟩

theorem not_took (h : List.Forall₂ Unpassed reg reg') : ¬Took ch reg reg' := by
  rintro ⟨j, a, a', modalInput, hj, hj', hpassed⟩
  obtain ⟨x, hx, hun⟩ := Scan.entry_of_rel h hj'
  obtain rfl := Option.some_inj.mp (hj.symm.trans hx)
  rw [hun] at hpassed
  simp at hpassed

theorem unpassed_trans (h : List.Forall₂ Unpassed reg reg') (h' : List.Forall₂ Unpassed reg' reg'') :
    List.Forall₂ Unpassed reg reg'' :=
  Scan.rel_trans (fun _ _ _ h₁ h₂ => h₂.trans h₁) h h'

theorem drainLoop_unpassed {b : Bool} (h : reg.drainLoop env = some (b, reg')) :
    List.Forall₂ Unpassed reg reg' :=
  Scan.every_rel
    (fun _ _ _ _ hr => Unpassed.drainParts.onKeyDrain (fun _ _ => trivial) hr) h

theorem modalActive_unpassed {exited : ℕ → Bool} {b : Bool}
    (h : reg.modalActive exited = some (b, reg')) : List.Forall₂ Unpassed reg reg' := by
  refine Scan.first_rel (fun _ => rfl) (fun i a c a' hr => ?_) h
  obtain ⟨-, rfl⟩ := Prod.mk.inj (Option.some_inj.mp hr)
  rfl

/-- A pass that says yes has passed the key. -/
theorem passLoop_yes {pass : Host.Pass} (h : passLoop reg pass ch env false = some (true, reg')) :
    Took ch reg reg' := by
  obtain ⟨j, a, a', hj, hr, hj'⟩ := Scan.first_yes h
  obtain ⟨modalInput, hpassed⟩ := onKeyPass_yes hr
  exact ⟨j, a, a', modalInput, hj, hj', hpassed⟩

/-- A pass over modal or reserving plugins that says no has passed nothing. -/
theorem passLoop_no {pass : Host.Pass} (hpass : pass ≠ .broadcast)
    (h : passLoop reg pass ch env false = some (false, reg')) :
    List.Forall₂ Unpassed reg reg' := by
  refine Scan.first_no_rel (fun i a a' _ hr => ?_) h
  obtain rfl := onKeyPass_no hpass hr
  rfl

/-- A plugin that stays is not changed by a pass over modal plugins that says no. -/
theorem passLoop_stays {h : Host} {k : ℕ} (hk : reg[k]? = some h) (henv : (env k).Stays)
    (hp : passLoop reg .modal ch env false = some (false, reg')) : reg'[k]? = some h := by
  obtain ⟨h', hr, hk'⟩ := Scan.first_no hp hk
  obtain rfl := onKeyPass_no (by decide) hr
  rw [henv.pass, Host.checkAlive_false] at hk'
  exact hk'

/-- The pass over reserving plugins says yes where there is one. -/
theorem passLoop_reserved {h : Host} {k : ℕ} {b : Bool} (hk : reg[k]? = some h)
    (henv : (env k).Stays) (hlive : h.e.live = true) (hres : h.e.reservesKey ch = true)
    (hp : passLoop reg .reserved ch env false = some (b, reg')) : b = true := by
  by_contra hb
  obtain rfl : b = false := by simpa using hb
  obtain ⟨h', hr, -⟩ := Scan.first_no hp hk
  rw [Host.onKeyPass, henv.pass, Host.checkAlive_false] at hr
  simp only [hlive, hres, Bool.not_true, Bool.false_eq_true, if_false, if_true] at hr
  cases (tryOnKey_passed hr).1

/-- **A reserved key is passed to a plugin**, and counts as handled, unless an editor is run in its
place. -/
theorem onKey_takes {h : Host} {k : ℕ} {b : Bool} (hk : reg[k]? = some h)
    (henv : (env k).Stays) (hlive : h.e.live = true) (hch : ¬ch < 0)
    (hres : h.e.reservesKey ch = true) (heditor : reg.editorRuns env = false)
    (hon : reg.onKey ch env = some (b, reg')) : b = true ∧ Took ch reg reg' := by
  rw [onKey, if_neg hch] at hon
  obtain ⟨⟨handled, reg₁⟩, hdrain, hon⟩ := Option.bind_eq_some_iff.mp hon
  obtain rfl : handled = false := by
    rw [editorRuns, hdrain] at heditor
    exact heditor
  obtain ⟨_, h₁, hr, hk₁, -⟩ := Scan.every_entry hdrain hk
  obtain ⟨hlive₁, hres₁⟩ := onKeyDrain_stays henv hr
  rw [hlive] at hlive₁
  obtain ⟨⟨modal, reg₂⟩, hmodal, hon⟩ := Option.bind_eq_some_iff.mp hon
  obtain ⟨⟨reserved, reg₃⟩, hreserved, hon⟩ := Option.bind_eq_some_iff.mp hon
  dsimp only at hmodal hreserved hon
  cases modal with
  | true =>
    obtain ⟨rfl, rfl⟩ := Prod.mk.inj (Option.some_inj.mp hreserved)
    obtain ⟨rfl, rfl⟩ := Prod.mk.inj (Option.some_inj.mp hon)
    exact ⟨rfl, took_after (drainLoop_unpassed hdrain) (passLoop_yes hmodal)⟩
  | false =>
    have hk₂ := passLoop_stays hk₁ henv hmodal
    obtain rfl := passLoop_reserved hk₂ henv hlive₁ (by rw [hres₁, hres]) hreserved
    obtain ⟨rfl, rfl⟩ := Prod.mk.inj (Option.some_inj.mp hon)
    refine ⟨rfl, took_after (drainLoop_unpassed hdrain) (took_after ?_ (passLoop_yes hreserved))⟩
    exact passLoop_no (by decide) hmodal

/-- Where an editor is run, the key is passed to no one. -/
theorem onKey_editor {b : Bool} (heditor : reg.editorRuns env = true)
    (hon : reg.onKey ch env = some (b, reg')) : List.Forall₂ Unpassed reg reg' := by
  unfold onKey at hon
  split at hon
  · obtain ⟨-, rfl⟩ := Prod.mk.inj (Option.some_inj.mp hon)
    exact List.forall₂_same.mpr fun _ _ => rfl
  · obtain ⟨⟨handled, reg₁⟩, hdrain, hon⟩ := Option.bind_eq_some_iff.mp hon
    obtain rfl : handled = true := by
      rw [editorRuns, hdrain] at heditor
      exact heditor
    obtain ⟨-, rfl⟩ := Prod.mk.inj (Option.some_inj.mp hon)
    exact drainLoop_unpassed hdrain

/-- A plugin that stays is not changed by `nsr_plugins_modal_active`. -/
theorem modalActive_stays {h : Host} {k : ℕ} {exited : ℕ → Bool} {b : Bool}
    (hk : reg[k]? = some h) (hex : exited k = false)
    (hm : reg.modalActive exited = some (b, reg')) : reg'[k]? = some h := by
  obtain ⟨h', hk', ⟨c, hr⟩ | rfl⟩ := Scan.first_entry hm hk
  · obtain ⟨-, rfl⟩ := Prod.mk.inj (Option.some_inj.mp hr)
    rw [hex, Host.checkAlive_false] at hk'
    exact hk'
  · exact hk'

end Registry
end Nsr
