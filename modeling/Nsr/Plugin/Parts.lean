import Nsr.Plugin.Operations

/-!
# The parts of an operation

Every operation of the host on a plugin starts with `plugin_check_alive` and then goes through the
same few parts: a line is read and routed, the next key is sent, a request is made, a key is
pressed.  What each part does to a state, in the sense of some transitive relation, the operations
do: `DrainParts` and `Parts` list the parts once, and `DrainParts.drainAll` and `Parts.act` go
through the operations once.
-/

namespace Nsr.Host

/-- What `waitpid` says to the `plugin_check_alive` an operation starts with; a drain by itself has
none. -/
def Action.exited : Action → Bool
  | .render _ env => env.exited
  | .renderHops _ env => env.exited
  | .updateTelemetry exited _ => exited
  | .modalActive exited => exited
  | .onKeyDrain exited _ => exited
  | .onKeyPass _ _ env => env.exited
  | .drain _ _ => false

/-- The requests that an operation may make by itself are such as `asks` allows. -/
def Action.Asks (asks : Method → Bytes → Prop) : Action → Prop
  | .render _ _ => ∀ params, asks .render params
  | .renderHops params _ => asks .renderHops params
  | _ => True

/-- A request for drawing. -/
def drawn (m : Method) (_ : Bytes) : Prop := m ≠ .onKey

theorem Action.asks_drawn (a : Action) : a.Asks drawn := by
  cases a with
  | render view env =>
    intro params
    show Method.render ≠ .onKey
    decide
  | renderHops params env =>
    show Method.renderHops ≠ .onKey
    decide
  | _ => trivial

/-- The connection, after reading and writing that takes no number. -/
def withRpc (h : Host) (rx : Bytes) (dead : Bool) : Host :=
  { h with e := { h.e with rpc := { h.e.rpc with rx := rx, dead := dead } } }

/-- A line, from when it has come in until it is dealt with. -/
def take (h : Host) (line : Bytes) (discard : List DiscardRound) : Host :=
  route ⟨h.e, h.log ++ [.received line]⟩ line (lineId line) discard

/-- **A relation that the parts of draining respect**, where writing comes out as `ok` allows. -/
structure DrainParts (ok : Bool → Prop) (R : Host → Host → Prop) : Prop where
  refl : ∀ h, R h h
  trans : ∀ {h h' h''}, R h h' → R h' h'' → R h h''
  read : ∀ h rx dead, R h (h.withRpc rx dead)
  take : ∀ h line discard, R h (h.take line discard)
  nextKey : ∀ h written, ok written → R h (h.sendNextKey written)
  editor : ∀ h : Host, R h
    { h with e := { h.e with pendingOpenEditor := false, pendingOpenEditorFile := [] } }

/-- **A relation that the parts of the operations respect**, where the requests are such as `asks`
allows. -/
structure Parts (asks : Method → Bytes → Prop) (R : Host → Host → Prop) : Prop
    extends DrainParts (fun _ => True) R where
  request : ∀ h m params written, asks m params → R h (h.requestUnlessPending m params written)
  modal : ∀ h b, R h { h with e := { h.e with isModal := b } }
  press : ∀ h ev reserved t₁ t₂ written, R h (h.pressKey ev reserved t₁ t₂ written).2

/-- `plugin_check_alive` changes two flags at most. -/
theorem checkAlive_shape (h : Host) (exited : Bool) : ∃ dead init,
    h.checkAlive exited = { h with e := { h.e with dead := dead, initialized := init } } := by
  unfold checkAlive Entry.checkAlive
  split
  · exact ⟨h.e.dead, h.e.initialized, rfl⟩
  split
  · exact ⟨true, false, rfl⟩
  · exact ⟨h.e.dead, h.e.initialized, rfl⟩

theorem checkAlive_false (h : Host) : h.checkAlive false = h := by
  rw [checkAlive, Entry.checkAlive]
  split
  · rfl
  · rfl

namespace DrainParts

variable {ok : Bool → Prop} {R : Host → Host → Prop} (hR : DrainParts ok R) {h h' : Host}

include hR

/-- Draining: a line is read, dealt with, and the next key goes out. -/
theorem drainResponse {timeoutMs : ℤ} {env : DrainEnv} {b : Bool} (hok : ok env.written)
    (hd : h.drainResponse timeoutMs env = some (b, h')) : R h h' := by
  unfold Host.drainResponse at hd
  split at hd
  · obtain ⟨-, rfl⟩ := Prod.mk.inj (Option.some_inj.mp hd)
    exact hR.refl h
  split at hd
  · cases hd
  next rpc hrecv =>
    obtain ⟨-, rfl⟩ := Prod.mk.inj (Option.some_inj.mp hd)
    obtain ⟨rx, dead, rfl⟩ := tryRecvAny_shape hrecv
    exact hR.read h rx dead
  next line id rpc hrecv =>
    obtain ⟨-, rfl⟩ := Prod.mk.inj (Option.some_inj.mp hd)
    obtain ⟨rx, dead, rfl⟩ := tryRecvAny_shape hrecv
    obtain rfl := tryRecvAny_id hrecv
    exact hR.trans (hR.read h rx dead)
      (hR.trans (hR.take (h.withRpc rx dead) line env.discard) (hR.nextKey _ env.written hok))

theorem drainAll {envs : List DrainEnv} (hok : ∀ env ∈ envs, ok env.written)
    (hd : Host.drainAll envs h = some h') : R h h' := by
  induction envs generalizing h with
  | nil => cases hd
  | cons env envs ih =>
    obtain ⟨hok₀, hok₁⟩ := List.forall_mem_cons.mp hok
    unfold Host.drainAll at hd
    split at hd
    · cases hd
    next h₁ hr => exact hR.trans (hR.drainResponse hok₀ hr) (ih hok₁ hd)
    next h₁ hr =>
      obtain rfl := Option.some_inj.mp hd
      exact hR.drainResponse hok₀ hr

/-- The first loop of `nsr_plugins_on_key`. -/
theorem onKeyDrain {exited b : Bool} {drains : List DrainEnv}
    (hok : ∀ env ∈ drains, ok env.written) (hr : h.onKeyDrain exited drains = some (b, h')) :
    R (h.checkAlive exited) h' := by
  unfold Host.onKeyDrain at hr
  dsimp only at hr
  split at hr
  · obtain ⟨-, rfl⟩ := Prod.mk.inj (Option.some_inj.mp hr)
    exact hR.refl _
  · obtain ⟨h₁, hd, hh⟩ := Option.map_eq_some_iff.mp hr
    refine hR.trans (hR.drainAll hok hd) ?_
    split at hh
    · obtain ⟨-, rfl⟩ := Prod.mk.inj hh
      exact hR.editor h₁
    · obtain ⟨-, rfl⟩ := Prod.mk.inj hh
      exact hR.refl _

end DrainParts

namespace Parts

variable {asks : Method → Bytes → Prop} {R : Host → Host → Prop} (hR : Parts asks R) {h h' : Host}

include hR

theorem tryOnKey {ev : KeyEvent} {reserved b : Bool} {env : KeyEnv}
    (hr : h.tryOnKey ev reserved env = some (b, h')) : R h h' := by
  obtain ⟨h₁, hd, hh⟩ := Option.map_eq_some_iff.mp hr
  have hpress := hR.press h₁ ev reserved env.t₁ env.t₂ env.written
  rw [hh] at hpress
  exact hR.trans (hR.drainAll (fun _ _ => trivial) hd) hpress

theorem render {view : RenderView} {env : FrameEnv} (hasks : ∀ params, asks .render params)
    (hr : h.render view env = some h') : R (h.checkAlive env.exited) h' := by
  unfold Host.render at hr
  dsimp only at hr
  split at hr
  · obtain rfl := Option.some_inj.mp hr
    exact hR.refl _
  · obtain ⟨⟨b, h₁⟩, hd, rfl⟩ := Option.map_eq_some_iff.mp hr
    refine hR.trans (hR.modal _ _) (hR.trans (hR.drainResponse trivial hd) ?_)
    exact hR.request h₁ .render _ _ (hasks _)

theorem renderHops {params : Bytes} {env : FrameEnv} (hasks : asks .renderHops params)
    (hr : h.renderHops params env = some h') : R (h.checkAlive env.exited) h' := by
  rw [Host.renderHops] at hr
  split at hr
  · obtain rfl := Option.some_inj.mp hr
    exact hR.refl _
  · obtain ⟨⟨b, h₁⟩, hd, rfl⟩ := Option.map_eq_some_iff.mp hr
    exact hR.trans (hR.drainResponse trivial hd) (hR.request h₁ .renderHops _ _ hasks)

theorem updateTelemetry (exited written : Bool) :
    R (h.checkAlive exited) (h.updateTelemetry exited written) := by
  unfold Host.updateTelemetry
  dsimp only
  split
  · have hread := hR.read (h.checkAlive exited) (h.checkAlive exited).e.rpc.rx
    rw [notify, rpcSend]
    split
    · exact hread _
    split
    · exact hread _
    · exact hread true
  · exact hR.refl _

theorem onKeyPass {pass : Pass} {ch : Int32} {env : KeyEnv} {b : Bool}
    (hr : h.onKeyPass pass ch env = some (b, h')) : R (h.checkAlive env.exited) h' := by
  have hstay : ∀ {r : Bool × Host}, (false, h.checkAlive env.exited) = r →
      R (h.checkAlive env.exited) r.2 := by
    rintro r rfl
    exact hR.refl _
  unfold Host.onKeyPass at hr
  dsimp only at hr
  split at hr
  · exact hstay (Option.some_inj.mp hr)
  cases pass with
  | modal =>
    dsimp only at hr
    split at hr
    · exact hR.tryOnKey hr
    · exact hstay (Option.some_inj.mp hr)
  | reserved =>
    dsimp only at hr
    split at hr
    · exact hR.tryOnKey hr
    · exact hstay (Option.some_inj.mp hr)
  | broadcast => exact hR.tryOnKey hr

/-- **The operations respect what their parts respect**, once the plugin has been looked after. -/
theorem act {a : Action} (hasks : a.Asks asks) (ha : Host.act a h = some h') :
    R (h.checkAlive a.exited) h' := by
  cases a with
  | render view env => exact hR.render hasks ha
  | renderHops params env => exact hR.renderHops hasks ha
  | updateTelemetry exited written =>
    obtain rfl := Option.some_inj.mp ha
    exact hR.updateTelemetry exited written
  | modalActive exited =>
    obtain rfl := Option.some_inj.mp ha
    exact hR.refl _
  | onKeyDrain exited drains =>
    obtain ⟨⟨b, h₁⟩, hr, rfl⟩ := Option.map_eq_some_iff.mp ha
    exact hR.onKeyDrain (fun _ _ => trivial) hr
  | onKeyPass pass ch env =>
    obtain ⟨⟨b, h₁⟩, hr, rfl⟩ := Option.map_eq_some_iff.mp ha
    exact hR.onKeyPass hr
  | drain timeoutMs env =>
    obtain ⟨⟨b, h₁⟩, hr, rfl⟩ := Option.map_eq_some_iff.mp ha
    rw [Action.exited, checkAlive_false]
    exact hR.drainResponse trivial hr

end Parts
end Nsr.Host
