import Nsr.Plugin.Deadlines
import Nsr.Plugin.Registry

/-!
# To whom a key goes

`nsr_plugins_on_key` goes over the entries three times after it has drained them, with two flags
that say whether a pass is still to be made.  Each pass may find other plugins dead, and each key
that is handed over drains the plugin once more.  As long as the live plugins stay the same ones,
the three passes come to this: the first modal plugin gets the key, else the first that reserves it,
else all of them.

* `Registry.dispatch`: to whom a key goes.
* `passLoop_first`, `passLoop_all`: what a pass does.
* `drainAll_drainable`: draining comes to an end.
* `key_dispatch`: `nsr_plugins_on_key` hands a key to whom it goes.
-/

namespace Nsr

/-- To whom a key goes: to one entry, with or without `modal_input`, or to every live one. -/
inductive Dispatch where
  | one (k : ℕ) (modalInput : Bool)
  | all
  deriving DecidableEq, Repr

namespace Dispatch

/-- What entry `k` is handed, if it is live. -/
def keys (ch : Int32) (k : ℕ) : Dispatch → List KeyEvent
  | one j modalInput => if k = j then [⟨ch, modalInput⟩] else []
  | all => [⟨ch, false⟩]

/-- Whether NSR leaves the key to the plugins. -/
def handled : Dispatch → Bool
  | one _ _ => true
  | all => false

end Dispatch

namespace Host

/-- A pass stops at the entry. -/
def wants (pass : Pass) (ch : Int32) (h : Host) : Bool :=
  h.e.live &&
    match pass with
    | .modal => h.e.isModal
    | .reserved => h.e.reservesKey ch
    | .broadcast => true

end Host

/-- **To whom a key goes**: the first modal plugin, else the first that reserves the key. -/
def Registry.dispatch (reg : Registry) (ch : Int32) : Dispatch :=
  match reg.findIdx? (Host.wants .modal ch) with
  | some k => .one k true
  | none =>
    match reg.findIdx? (Host.wants .reserved ch) with
    | some k => .one k false
    | none => .all

/-! ## One entry -/

/-- The entry is passed over: it stays as it is, or it was not live and is not. -/
structure Waits (h h' : Host) : Prop where
  log : h'.log = h.log
  live : h.e.live = true → h' = h
  idle : h.e.live = false → h'.e.live = false

namespace Waits

variable {h h' : Host}

theorem unpassed (hw : Waits h h') : Unpassed h h' :=
  congrArg passedKeys hw.log

theorem live_eq (hw : Waits h h') : h'.e.live = h.e.live := by
  cases hlive : h.e.live with
  | true => rw [hw.live hlive, hlive]
  | false => exact hw.idle hlive

theorem wants_eq (hw : Waits h h') (pass : Host.Pass) (ch : Int32) :
    h'.wants pass ch = h.wants pass ch := by
  cases hlive : h.e.live with
  | true => rw [hw.live hlive]
  | false =>
    unfold Host.wants
    rw [hw.idle hlive, hlive, Bool.false_and, Bool.false_and]

end Waits

namespace Host

variable {h h' : Host} {pass : Pass} {ch : Int32} {env : KeyEnv} {b : Bool}

theorem live_of_wants (hw : h.wants pass ch = true) : h.e.live = true :=
  (Bool.and_eq_true _ _ ▸ hw).1

/-- `plugin_check_alive` brings no plugin to life. -/
theorem checkAlive_idle (hidle : h.e.live = false) (exited : Bool) :
    (h.checkAlive exited).e.live = false := by
  rw [checkAlive, Entry.checkAlive]
  split
  · exact hidle
  split
  · rw [Entry.live, Bool.and_false, Bool.false_and]
  · exact hidle

/-- While live plugins stay, `plugin_check_alive` only passes over an entry. -/
theorem checkAlive_waits {exited : Bool} (hfixed : h.e.live = true → exited = false) :
    Waits h (h.checkAlive exited) where
  log := rfl
  live := fun hlive => by rw [hfixed hlive, checkAlive_false]
  idle := fun hidle => checkAlive_idle hidle exited

/-- Where a pass stops, the key is handed over. -/
theorem onKeyPass_wants (hfixed : h.e.live = true → env.exited = false)
    (hw : h.wants pass ch = true) :
    h.onKeyPass pass ch env = h.tryOnKey ⟨ch, pass = .modal⟩ (pass = .reserved) env := by
  have hlive := live_of_wants hw
  unfold onKeyPass
  unfold wants at hw
  rw [hlive, Bool.true_and] at hw
  rw [hfixed hlive, checkAlive_false]
  simp only [hlive, Bool.not_true, Bool.false_eq_true, if_false]
  cases pass with
  | modal => exact if_pos hw
  | reserved => exact if_pos hw
  | broadcast => rfl

/-- Where a pass does not stop, it says no. -/
theorem onKeyPass_waits (hfixed : h.e.live = true → env.exited = false)
    (hw : h.wants pass ch = false) :
    h.onKeyPass pass ch env = some (false, h.checkAlive env.exited) := by
  cases hlive : h.e.live with
  | false =>
    unfold onKeyPass
    simp only [checkAlive_idle hlive, Bool.not_false, if_true]
  | true =>
    unfold onKeyPass
    unfold wants at hw
    rw [hlive, Bool.true_and] at hw
    rw [hfixed hlive, checkAlive_false]
    simp only [hlive, Bool.not_true, Bool.false_eq_true, if_false]
    cases pass with
    | modal => exact if_neg (Bool.eq_false_iff.mp hw)
    | reserved => exact if_neg (Bool.eq_false_iff.mp hw)
    | broadcast => cases hw

/-- A pass that says no has passed over the entry, unless it was the last one. -/
theorem onKeyPass_says_no (hpass : pass ≠ .broadcast)
    (hfixed : h.e.live = true → env.exited = false)
    (hr : h.onKeyPass pass ch env = some (false, h')) :
    h.wants pass ch = false ∧ Waits h h' := by
  cases hw : h.wants pass ch with
  | true =>
    rw [onKeyPass_wants hfixed hw] at hr
    have hno := (tryOnKey_passed hr).1
    cases pass with
    | modal => cases hno
    | reserved => cases hno
    | broadcast => exact absurd rfl hpass
  | false =>
    obtain rfl := onKeyPass_no hpass hr
    exact ⟨rfl, checkAlive_waits hfixed⟩

/-- A pass that says yes has handed over the key. -/
theorem onKeyPass_says_yes (hfixed : h.e.live = true → env.exited = false)
    (hr : h.onKeyPass pass ch env = some (true, h')) :
    h.wants pass ch = true ∧ passedKeys h'.log = passedKeys h.log ++ [⟨ch, pass = .modal⟩] := by
  cases hw : h.wants pass ch with
  | true =>
    rw [onKeyPass_wants hfixed hw] at hr
    exact ⟨rfl, (tryOnKey_passed hr).2⟩
  | false =>
    rw [onKeyPass_waits hfixed hw] at hr
    cases hr

/-- The last pass never says yes, and hands the key to a live plugin. -/
theorem onKeyPass_broadcast (hfixed : h.e.live = true → env.exited = false)
    (hr : h.onKeyPass .broadcast ch env = some (b, h')) :
    b = false ∧
      passedKeys h'.log = passedKeys h.log ++ if h.e.live then [⟨ch, false⟩] else [] := by
  cases hlive : h.e.live with
  | true =>
    have hw : h.wants .broadcast ch = true := by rw [wants, hlive, Bool.true_and]
    rw [onKeyPass_wants hfixed hw] at hr
    exact tryOnKey_passed hr
  | false =>
    have hw : h.wants .broadcast ch = false := by rw [wants, hlive, Bool.false_and]
    rw [onKeyPass_waits hfixed hw] at hr
    obtain ⟨rfl, rfl⟩ := Prod.mk.inj (Option.some_inj.mp hr)
    exact ⟨rfl, (List.append_nil _).symm⟩

/-! ## Draining comes to an end -/

theorem take_rx (h : Host) (line : Bytes) (discard : List DiscardRound) :
    (h.take line discard).e.rpc.rx = h.e.rpc.rx ∨ (h.take line discard).e.rpc.rx = [] := by
  have hsync : ∀ (h : Host) modal, ((h.forceSync discard).setModal modal).e.rpc.rx = [] := by
    intro h modal
    obtain ⟨dead, hdead⟩ := discardQueued_shape h.e.rpc discard
    simp only [forceSync, setModal, hdead]
  unfold take route handleForceSync
  split
  next heq =>
    split at heq
    · cases heq
    · obtain rfl := Option.some_inj.mp heq
      exact .inr (hsync _ _)
  split
  · exact .inl rfl
  split
  · exact .inl rfl
  split
  · dsimp only
    split
    · exact .inl rfl
    unfold handleOnKeyResult resultRequestsForceSync
    split
    next heq =>
      split at heq
      · cases heq
      · obtain rfl := Option.some_inj.mp heq
        exact .inr (hsync _ _)
    dsimp only
    split
    · split <;> exact .inl rfl
    · split <;> exact .inl rfl
  · exact .inl rfl

theorem request_rx (h : Host) (m : Method) (params : Bytes) (written : Bool) :
    (h.request m params written).2.2.e.rpc.rx = h.e.rpc.rx := by
  unfold request sendRequest rpcSend
  by_cases hdead : h.e.rpc.dead = true ∨ h.e.rpc.inFd < 0
  · simp only [if_pos hdead]
  · cases written with
    | true => simp only [if_neg hdead, if_true]
    | false => simp only [if_neg hdead, Bool.false_eq_true, if_false]

theorem sendNextKey_rx (h : Host) (written : Bool) :
    (h.sendNextKey written).e.rpc.rx = h.e.rpc.rx := by
  have hdeq : h.e.keyQueueDequeue.2.rpc = h.e.rpc := by
    unfold Entry.keyQueueDequeue
    split
    · rfl
    · rfl
  have hreq : ∀ ev e, h.e.keyQueueDequeue = (some ev, e) →
      (Host.request ⟨e, h.log⟩ .onKey (buildKeyParams ev) written).2.2.e.rpc.rx =
        h.e.rpc.rx := by
    intro ev e heq
    rw [request_rx, ← hdeq, heq]
  unfold sendNextKey
  split
  · rfl
  split
  · rfl
  next ev e heq =>
    have hrx := hreq ev e heq
    split
    next hok =>
      rw [hok] at hrx
      exact hrx
    next hok =>
      rw [hok] at hrx
      exact hrx

/-- With a timeout of 0, a drain finds nothing, or takes a line out of the buffer. -/
theorem drainResponse_zero {env : DrainEnv} (hserves : Serves [] env.recv) (h : Host) :
    h.drainResponse 0 env = some (false, h) ∨
      ∃ h', h.drainResponse 0 env = some (true, h') ∧
        h'.e.rpc.rx.length < h.e.rpc.rx.length := by
  unfold drainResponse tryRecvAny
  split
  · exact .inl rfl
  rw [(recvLine_zero h.e.rpc hserves).2]
  cases hpop : popLine h.e.rpc.rx with
  | none => exact .inl rfl
  | some r =>
    obtain ⟨line, rest⟩ := r
    refine .inr ⟨_, rfl, ?_⟩
    have hshorter : rest.length < h.e.rpc.rx.length := by
      rw [(popLine_eq_some hpop).2]
      simp only [List.length_append, List.length_singleton]
      omega
    rw [sendNextKey_rx]
    rcases take_rx (h.withRpc rest h.e.rpc.dead) line env.discard with hrx | hrx
    · exact (congrArg List.length hrx).trans_lt hshorter
    · exact (congrArg List.length hrx).trans_lt (Nat.zero_lt_of_lt hshorter)

/-- The system answers for as long as draining a plugin may go on. -/
def Drainable (h : Host) (envs : List DrainEnv) : Prop :=
  h.e.rpc.rx.length < envs.length ∧ ∀ env ∈ envs, Serves [] env.recv

/-- **Draining comes to an end**, and leaves no more in the buffer than there was. -/
theorem drainAll_drainable {envs : List DrainEnv} {h : Host} (hd : h.Drainable envs) :
    ∃ h', drainAll envs h = some h' ∧ h'.e.rpc.rx.length ≤ h.e.rpc.rx.length := by
  induction envs generalizing h with
  | nil => exact absurd hd.1 (Nat.not_lt_zero _)
  | cons env envs ih =>
    obtain ⟨hlen, hserves⟩ := hd
    obtain ⟨hserves₀, hserves⟩ := List.forall_mem_cons.mp hserves
    unfold drainAll
    rcases drainResponse_zero hserves₀ h with hr | ⟨h₁, hr, hlt⟩
    · rw [hr]
      exact ⟨h, rfl, Nat.le_refl _⟩
    · rw [hr]
      obtain ⟨h', hd', hle⟩ :=
        ih ⟨Nat.lt_of_lt_of_le hlt (Nat.le_of_lt_succ hlen), hserves⟩
      exact ⟨h', hd', hle.trans hlt.le⟩

end Host

/-! ## One pass -/

namespace Registry

variable {reg reg' reg'' : Registry} {ch : Int32} {env : ℕ → OnKeyEnv} {pass : Host.Pass}
  {b : Bool} {d : Dispatch}

/-- No live plugin is found dead by a pass. -/
def Fixed (reg : Registry) (env : ℕ → OnKeyEnv) : Prop :=
  ∀ (k : ℕ) (h : Host), reg[k]? = some h → h.e.live = true →
    ∀ pass, ((env k).pass pass).exited = false

/-- In a pass, draining a live plugin comes to an end. -/
def Ready (reg : Registry) (env : ℕ → OnKeyEnv) : Prop :=
  ∀ (k : ℕ) (h : Host), reg[k]? = some h → h.e.live = true →
    ∀ pass, h.Drainable ((env k).pass pass).drains

/-- **The live plugins are handed the key as `d` says**, and the others are not handed it. -/
structure Handed (d : Dispatch) (ch : Int32) (reg reg' : Registry) : Prop where
  length : reg'.length = reg.length
  keys : ∀ k h, reg[k]? = some h → ∃ h', reg'[k]? = some h' ∧
    passedKeys h'.log = passedKeys h.log ++ if h.e.live then d.keys ch k else []

/-- Entries that were live are live and unchanged, after they have been passed over. -/
theorem of_waits (hw : List.Forall₂ Waits reg reg') {k : ℕ} {h' : Host} (hk : reg'[k]? = some h')
    (hlive : h'.e.live = true) : reg[k]? = some h' := by
  obtain ⟨h, hk', hwait⟩ := Scan.entry_of_rel hw hk
  have hlive' : h.e.live = true := hwait.live_eq.symm.trans hlive
  rw [hk', hwait.live hlive']

theorem Fixed.after (hw : List.Forall₂ Waits reg reg') (hfixed : Fixed reg env) :
    Fixed reg' env :=
  fun k h' hk hlive => hfixed k h' (of_waits hw hk hlive) hlive

theorem Ready.after (hw : List.Forall₂ Waits reg reg') (hready : Ready reg env) :
    Ready reg' env :=
  fun k h' hk hlive => hready k h' (of_waits hw hk hlive) hlive

theorem Handed.after (hw : List.Forall₂ Waits reg reg') (hh : Handed d ch reg' reg'') :
    Handed d ch reg reg'' := by
  refine ⟨hh.length.trans hw.length_eq.symm, fun k h hk => ?_⟩
  obtain ⟨h', hk', hwait⟩ := Scan.entry_to_rel hw hk
  obtain ⟨h'', hk'', hkeys⟩ := hh.keys k h' hk'
  exact ⟨h'', hk'', by rw [hkeys, hwait.unpassed, hwait.live_eq]⟩

theorem passLoop_length (hp : passLoop reg pass ch env false = some (b, reg')) :
    reg'.length = reg.length :=
  (Scan.first_rel (R := fun _ _ => True) (fun _ => trivial) (fun _ _ _ _ _ => trivial)
    hp).length_eq.symm

/-- **A pass for modal plugins, or for those that reserve the key**, passes over every entry, or
hands the key to the first that wants it. -/
theorem passLoop_first (hpass : pass ≠ .broadcast) (hfixed : Fixed reg env)
    (hp : passLoop reg pass ch env false = some (b, reg')) :
    (reg.findIdx? (Host.wants pass ch) = none ∧ b = false ∧ List.Forall₂ Waits reg reg') ∨
      ∃ k, reg.findIdx? (Host.wants pass ch) = some k ∧ b = true ∧
        Handed (.one k (pass = .modal)) ch reg reg' := by
  have hno : ∀ (i : ℕ) (a a' : Host), reg[i]? = some a →
      a.onKeyPass pass ch ((env i).pass pass) = some (false, a') →
      a.wants pass ch = false ∧ Waits a a' := fun i a a' hi =>
    Host.onKeyPass_says_no hpass fun hlive => hfixed i a hi hlive pass
  cases b with
  | false =>
    refine .inl ⟨List.findIdx?_eq_none_iff.mpr fun a ha => ?_, rfl, ?_⟩
    · obtain ⟨i, hi⟩ := List.mem_iff_getElem?.mp ha
      obtain ⟨a', hr, -⟩ := Scan.first_no hp hi
      exact (hno i a a' hi hr).1
    · exact Scan.first_no_rel (fun i a a' hi hr => (hno i a a' hi hr).2) hp
  | true =>
    obtain ⟨k, a, a', hk, hr, hk', hbefore, hbehind⟩ := Scan.first_stops hp
    obtain ⟨hwants, hpassed⟩ :=
      Host.onKeyPass_says_yes (fun hlive => hfixed k a hk hlive pass) hr
    refine .inr ⟨k, ?_, rfl, passLoop_length hp, fun j h hj => ?_⟩
    · obtain ⟨hlt, rfl⟩ := List.getElem?_eq_some_iff.mp hk
      refine List.findIdx?_eq_some_iff_getElem.mpr ⟨hlt, hwants, fun j hjk => ?_⟩
      obtain ⟨x', hrx, -⟩ := hbefore j _ hjk (List.getElem?_eq_getElem (hjk.trans hlt))
      exact Bool.eq_false_iff.mp (hno j _ x' (List.getElem?_eq_getElem _) hrx).1
    · rw [Dispatch.keys]
      rcases lt_trichotomy j k with hjk | rfl | hjk
      · obtain ⟨h', hrj, hj'⟩ := hbefore j h hjk hj
        refine ⟨h', hj', ?_⟩
        rw [if_neg hjk.ne, ite_self, List.append_nil]
        exact (hno j h h' hj hrj).2.unpassed
      · obtain rfl := Option.some_inj.mp (hk.symm.trans hj)
        refine ⟨a', hk', ?_⟩
        rw [if_pos rfl, if_pos (Host.live_of_wants hwants), hpassed]
      · refine ⟨h, (hbehind j hjk).trans hj, ?_⟩
        rw [if_neg hjk.ne', ite_self, List.append_nil]

/-- **The last pass** hands the key to every live plugin, and says no. -/
theorem passLoop_all (hfixed : Fixed reg env)
    (hp : passLoop reg .broadcast ch env false = some (b, reg')) :
    b = false ∧ Handed .all ch reg reg' := by
  have hall : ∀ (i : ℕ) (a : Host) (b : Bool) (a' : Host), reg[i]? = some a →
      a.onKeyPass .broadcast ch ((env i).pass .broadcast) = some (b, a') → b = false ∧
        passedKeys a'.log = passedKeys a.log ++ if a.e.live then [⟨ch, false⟩] else [] :=
    fun i a b a' hi => Host.onKeyPass_broadcast fun hlive => hfixed i a hi hlive .broadcast
  cases b with
  | true =>
    obtain ⟨i, a, a', hi, hr, -⟩ := Scan.first_yes hp
    cases (hall i a true a' hi hr).1
  | false =>
    refine ⟨rfl, passLoop_length hp, fun k h hk => ?_⟩
    obtain ⟨h', hr, hk'⟩ := Scan.first_no hp hk
    exact ⟨h', hk', (hall k h false h' hk hr).2⟩

/-- A pass comes to an end. -/
theorem passLoop_ends (hfixed : Fixed reg env) (hready : Ready reg env) (pass : Host.Pass)
    (ch : Int32) : ∃ r, passLoop reg pass ch env false = some r := by
  refine Option.isSome_iff_exists.mp ?_
  refine Scan.first_isSome fun i a hi => ?_
  have hexited : a.e.live = true → ((env i).pass pass).exited = false :=
    fun hlive => hfixed i a hi hlive pass
  cases hw : a.wants pass ch with
  | false =>
    rw [Host.onKeyPass_waits hexited hw]
    rfl
  | true =>
    obtain ⟨h', hd, -⟩ := Host.drainAll_drainable (hready i a hi (Host.live_of_wants hw) pass)
    rw [Host.onKeyPass_wants hexited hw, Host.tryOnKey, hd]
    rfl

/-! ## The three passes -/

/-- The passes behind the drains. -/
def passes (reg : Registry) (ch : Int32) (env : ℕ → OnKeyEnv) : Option (Bool × Registry) :=
  (passLoop reg .modal ch env false).bind fun r =>
  (passLoop r.2 .reserved ch env r.1).bind fun r =>
  passLoop r.2 .broadcast ch env r.1

theorem passes_dispatch (hfixed : Fixed reg env) (hp : reg.passes ch env = some (b, reg')) :
    b = (reg.dispatch ch).handled ∧ Handed (reg.dispatch ch) ch reg reg' := by
  obtain ⟨⟨modal, reg₁⟩, hmodal, hp⟩ := Option.bind_eq_some_iff.mp hp
  obtain ⟨⟨reserved, reg₂⟩, hreserved, hp⟩ := Option.bind_eq_some_iff.mp hp
  dsimp only at hmodal hreserved hp
  rcases passLoop_first (by decide) hfixed hmodal with
    ⟨hnone, rfl, hw⟩ | ⟨k, hsome, rfl, hh⟩
  · have hfirst : reg₁.findIdx? (Host.wants .reserved ch) =
        reg.findIdx? (Host.wants .reserved ch) :=
      Scan.findIdx?_rel (fun _ _ hwait => hwait.wants_eq .reserved ch) hw
    rcases passLoop_first (by decide) (hfixed.after hw) hreserved with
      ⟨hnone', rfl, hw'⟩ | ⟨k, hsome', rfl, hh⟩
    · rw [hfirst] at hnone'
      rw [dispatch, hnone, hnone']
      obtain ⟨rfl, hh⟩ := passLoop_all ((hfixed.after hw).after hw') hp
      exact ⟨rfl, (hh.after hw').after hw⟩
    · rw [hfirst] at hsome'
      rw [dispatch, hnone, hsome']
      obtain ⟨rfl, rfl⟩ := Prod.mk.inj (Option.some_inj.mp hp)
      exact ⟨rfl, hh.after hw⟩
  · rw [dispatch, hsome]
    obtain ⟨rfl, rfl⟩ := Prod.mk.inj (Option.some_inj.mp hreserved)
    obtain ⟨rfl, rfl⟩ := Prod.mk.inj (Option.some_inj.mp hp)
    exact ⟨rfl, hh⟩

theorem passes_isSome (hfixed : Fixed reg env) (hready : Ready reg env) :
    (reg.passes ch env).isSome = true := by
  obtain ⟨⟨modal, reg₁⟩, hmodal⟩ := passLoop_ends hfixed hready .modal ch
  rw [passes, hmodal, Option.bind_some]
  rcases passLoop_first (by decide) hfixed hmodal with
    ⟨-, rfl, hw⟩ | ⟨k, -, rfl, -⟩
  · have hfixed₁ := hfixed.after hw
    have hready₁ := hready.after hw
    obtain ⟨⟨reserved, reg₂⟩, hreserved⟩ := passLoop_ends hfixed₁ hready₁ .reserved ch
    dsimp only
    rw [hreserved, Option.bind_some]
    rcases passLoop_first (by decide) hfixed₁ hreserved with
      ⟨-, rfl, hw'⟩ | ⟨k, -, rfl, -⟩
    · exact Option.isSome_iff_exists.mpr
        (passLoop_ends (hfixed₁.after hw') (hready₁.after hw') .broadcast ch)
    · rfl
  · rfl

/-! ## A key goes round -/

/-- **The live plugins are the same ones during the call**: a plugin that the first
`plugin_check_alive` finds live is so after it has been drained, and in every pass. -/
def LiveFixed (reg : Registry) (env : ℕ → OnKeyEnv) : Prop :=
  ∀ (k : ℕ) (h : Host), reg[k]? = some h → (h.checkAlive (env k).exited).e.live = true →
    (∀ pass, ((env k).pass pass).exited = false) ∧
      ∀ b h', h.onKeyDrain (env k).exited (env k).drains = some (b, h') → h'.e.live = true

/-- The system answers for as long as draining the plugins may go on. -/
def Answered (reg : Registry) (env : ℕ → OnKeyEnv) : Prop :=
  ∀ (k : ℕ) (h : Host), reg[k]? = some h → h.Drainable (env k).drains ∧
    ∀ pass, h.Drainable ((env k).pass pass).drains

/-- A drain leaves a live plugin live, and another one not. -/
theorem onKeyDrain_live (hfixed : LiveFixed reg env) {k : ℕ} {h h' : Host}
    (hk : reg[k]? = some h) (hr : h.onKeyDrain (env k).exited (env k).drains = some (b, h')) :
    h'.e.live = (h.checkAlive (env k).exited).e.live := by
  cases hlive : (h.checkAlive (env k).exited).e.live with
  | true => exact (hfixed k h hk hlive).2 b h' hr
  | false =>
    unfold Host.onKeyDrain at hr
    simp only [hlive, Bool.not_false, if_true] at hr
    obtain ⟨-, rfl⟩ := Prod.mk.inj (Option.some_inj.mp hr)
    exact hlive

/-- A drain comes to an end, and leaves no more in the buffer of a live plugin than there was. -/
theorem onKeyDrain_ends {k : ℕ} {h : Host} (hready : h.Drainable (env k).drains) :
    ∃ b h', h.onKeyDrain (env k).exited (env k).drains = some (b, h') ∧
      h'.e.rpc.rx.length ≤ h.e.rpc.rx.length := by
  obtain ⟨dead, initialized, hcheck⟩ := h.checkAlive_shape (env k).exited
  have hrx : (h.checkAlive (env k).exited).e.rpc = h.e.rpc := by rw [hcheck]
  unfold Host.onKeyDrain
  dsimp only
  split
  · exact ⟨false, _, rfl, by rw [hrx]⟩
  · have hready' : (h.checkAlive (env k).exited).Drainable (env k).drains := by
      rw [Host.Drainable, hrx]
      exact hready
    obtain ⟨h', hd, hle⟩ := Host.drainAll_drainable hready'
    rw [hrx] at hle
    rw [hd, Option.map_some]
    split
    · exact ⟨true, _, rfl, hle⟩
    · exact ⟨false, _, rfl, hle⟩

/-- Where no editor is run, the passes follow. -/
theorem onKey_passes (hch : ¬ch < 0) {reg₁ : Registry}
    (hdrain : reg.drainLoop env = some (false, reg₁)) :
    reg.onKey ch env = reg₁.passes ch env := by
  rw [onKey, if_neg hch, hdrain, Option.bind_some]
  rfl

/-- An entry after the drains, and the one it comes from. -/
theorem drainLoop_entry {reg₁ : Registry} (hdrain : reg.drainLoop env = some (b, reg₁)) {k : ℕ}
    {h₁ : Host} (hk₁ : reg₁[k]? = some h₁) :
    ∃ h c, reg[k]? = some h ∧ h.onKeyDrain (env k).exited (env k).drains = some (c, h₁) := by
  have hlt : k < reg.length := by
    rw [(drainLoop_unpassed hdrain).length_eq]
    exact (List.getElem?_eq_some_iff.mp hk₁).1
  have hk := List.getElem?_eq_getElem hlt
  obtain ⟨c, h₁', hr, hk₁', -⟩ := Scan.every_entry hdrain hk
  obtain rfl := Option.some_inj.mp (hk₁.symm.trans hk₁')
  exact ⟨_, c, hk, hr⟩

theorem fixed_drained (hfixed : LiveFixed reg env) {reg₁ : Registry}
    (hdrain : reg.drainLoop env = some (b, reg₁)) : Fixed reg₁ env := by
  intro k h₁ hk₁ hlive pass
  obtain ⟨h, c, hk, hr⟩ := drainLoop_entry hdrain hk₁
  exact (hfixed k h hk ((onKeyDrain_live hfixed hk hr).symm.trans hlive)).1 pass

theorem ready_drained (hanswered : Answered reg env) {reg₁ : Registry}
    (hdrain : reg.drainLoop env = some (b, reg₁)) : Ready reg₁ env := by
  intro k h₁ hk₁ _ pass
  obtain ⟨h, c, hk, hr⟩ := drainLoop_entry hdrain hk₁
  obtain ⟨hready, hpass⟩ := hanswered k h hk
  obtain ⟨c', h₁', hr', hle⟩ := onKeyDrain_ends hready
  obtain ⟨-, rfl⟩ := Prod.mk.inj (Option.some_inj.mp (hr.symm.trans hr'))
  exact ⟨Nat.lt_of_le_of_lt hle (hpass pass).1, (hpass pass).2⟩

/-- **Key dispatch priority.**  The live plugins stay the same ones during the call, and draining
runs no editor.  Then `nsr_plugins_on_key` comes to an end, if the system answers; and the key goes
to the first live plugin that is modal after the drain, with `modal_input`; else to the first live
one that reserves it; else to every live plugin once.  The call returns true in the first two cases
and false in the third, and no other plugin is handed the key. -/
theorem key_dispatch (reg : Registry) (ch : Int32) (env : ℕ → OnKeyEnv) (hch : ¬ch < 0)
    (hfixed : LiveFixed reg env) (heditor : reg.editorRuns env = false) :
    (Answered reg env → (reg.onKey ch env).isSome = true) ∧
      ∀ b reg', reg.onKey ch env = some (b, reg') → ∃ reg₁,
        reg.drainLoop env = some (false, reg₁) ∧ b = (reg₁.dispatch ch).handled ∧
        reg'.length = reg.length ∧
        ∀ k h, reg[k]? = some h → ∃ h', reg'[k]? = some h' ∧
          passedKeys h'.log = passedKeys h.log ++
            if (h.checkAlive (env k).exited).e.live then (reg₁.dispatch ch).keys ch k else [] := by
  constructor
  · intro hanswered
    have hends : (reg.drainLoop env).isSome = true := by
      refine Scan.every_isSome fun k h hk => ?_
      obtain ⟨b, h', hr, -⟩ := onKeyDrain_ends (hanswered k h hk).1
      rw [hr, Option.isSome_some]
    obtain ⟨⟨b, reg₁⟩, hdrain⟩ := Option.isSome_iff_exists.mp hends
    obtain rfl : b = false := by
      rw [editorRuns, hdrain] at heditor
      exact heditor
    rw [onKey_passes hch hdrain]
    exact passes_isSome (fixed_drained hfixed hdrain) (ready_drained hanswered hdrain)
  · intro b reg' hon
    cases hdrain : reg.drainLoop env with
    | none =>
      rw [onKey, if_neg hch, hdrain] at hon
      cases hon
    | some r =>
      obtain ⟨c, reg₁⟩ := r
      obtain rfl : c = false := by
        rw [editorRuns, hdrain] at heditor
        exact heditor
      rw [onKey_passes hch hdrain] at hon
      obtain ⟨hb, hhanded⟩ := passes_dispatch (fixed_drained hfixed hdrain) hon
      have hunpassed := drainLoop_unpassed hdrain
      refine ⟨reg₁, rfl, hb, hhanded.length.trans hunpassed.length_eq.symm, fun k h hk => ?_⟩
      obtain ⟨c, h₁, hr, hk₁, -⟩ := Scan.every_entry hdrain hk
      obtain ⟨h', hk', hkeys⟩ := hhanded.keys k h₁ hk₁
      obtain ⟨h₁', hk₁', hun⟩ := Scan.entry_to_rel hunpassed hk
      obtain rfl := Option.some_inj.mp (hk₁.symm.trans hk₁')
      refine ⟨h', hk', ?_⟩
      rw [hkeys, onKeyDrain_live hfixed hk hr, hun]

/-- Nothing comes from a plugin. -/
def OnKeyEnv.silent : OnKeyEnv :=
  ⟨false, [.silent], fun _ => ⟨false, [.silent], 1000, 1000, true⟩⟩

theorem OnKeyEnv.silent_stays : OnKeyEnv.silent.Stays := by
  refine ⟨rfl, fun d hd => ?_, fun _ => rfl⟩
  obtain rfl := List.mem_singleton.mp hd
  rfl

theorem serves_silent : Serves [] Host.DrainEnv.silent.recv := by
  have hnow : Timespec.Valid ⟨0, 0⟩ ∧ Timespec.Valid ⟨1, 0⟩ :=
    ⟨⟨Int.le_refl 0, by decide⟩, ⟨Int.le_refl 0, by decide⟩⟩
  refine ⟨⟨⟨0, 0⟩, rfl, hnow.1, fun r hr => ?_⟩, List.cons_ne_nil _ _, .empty _⟩
  obtain rfl := List.mem_singleton.mp hr
  exact ⟨⟨1, 0⟩, rfl, hnow.2, .inl (by decide)⟩

/-- A plugin with its panel open. -/
def panelOf (name : CStr) (enabled : Bool) : Host :=
  let h := Host.spawned name
  { h with e := { h.e with enabled := enabled, isModal := true } }

/-- Two plugins have their panels open, and the first of them has been disabled. -/
def twoPanels : Registry :=
  [panelOf (cs "disabled") false, Host.spawned (cs "viewer"), panelOf (cs "panel") true]

/-- A key goes to the third plugin alone. -/
theorem key_dispatch_panel :
    ∃ reg', twoPanels.onKey 120 (fun _ => .silent) = some (true, reg') ∧
      ∀ k h, twoPanels[k]? = some h → ∃ h', reg'[k]? = some h' ∧
        passedKeys h'.log = passedKeys h.log ++ if k = 2 then [⟨120, true⟩] else [] := by
  have hfixed : LiveFixed twoPanels fun _ => .silent := by
    refine fun k h hk hlive => ⟨fun _ => rfl, fun b h' hr => ?_⟩
    change (h.checkAlive false).e.live = true at hlive
    rw [Host.checkAlive_false] at hlive
    exact (onKeyDrain_stays OnKeyEnv.silent_stays hr).1.trans hlive
  have hdrain : twoPanels.drainLoop (fun _ => .silent) = some (false, twoPanels) := rfl
  have hanswered : Answered twoPanels fun _ => .silent := by
    have hempty : ∀ h ∈ twoPanels, h.e.rpc.rx = [] := by
      simp [twoPanels, panelOf, Host.spawned]
    have hall : ∀ h ∈ twoPanels, h.Drainable [.silent] := by
      intro h hmem
      refine ⟨?_, fun d hd => ?_⟩
      · rw [hempty h hmem]
        exact Nat.zero_lt_one
      · obtain rfl := List.mem_singleton.mp hd
        exact serves_silent
    intro k h hk
    have hready := hall h (List.mem_of_getElem? hk)
    exact ⟨hready, fun _ => hready⟩
  obtain ⟨hends, hkeys⟩ := key_dispatch twoPanels 120 (fun _ => .silent) (by decide) hfixed
    (by rw [editorRuns, hdrain])
  obtain ⟨⟨b, reg'⟩, hon⟩ := Option.isSome_iff_exists.mp (hends hanswered)
  obtain ⟨reg₁, hdrain₁, rfl, -, hhanded⟩ := hkeys b reg' hon
  obtain rfl := (Prod.mk.inj (Option.some_inj.mp (hdrain.symm.trans hdrain₁))).2
  have hto : twoPanels.dispatch 120 = .one 2 true := rfl
  rw [hto] at hon hhanded
  refine ⟨reg', hon, fun k h hk => ?_⟩
  obtain ⟨h', hk', hpassed⟩ := hhanded k h hk
  refine ⟨h', hk', hpassed.trans ?_⟩
  congr 1
  by_cases hk2 : k = 2
  · subst hk2
    obtain rfl := Option.some_inj.mp hk
    rfl
  · rw [Dispatch.keys, if_neg hk2, ite_self]

end Registry
end Nsr
