import Nsr.Plugin.Routing
import Nsr.Plugin.Registry
import Nsr.Session.Telemetry
import Mathlib.Data.List.TakeWhile
import Mathlib.Data.List.Induction

/-!
# Hop annotations

`nsr_plugins_render_hops` of `src/plugin/plugin.c`.  The host sends a plugin the hops of the view
and gets texts for some of them, each under the index the hop had in the request.  It does not wait:
a call returns what the cached responses say, which answer requests of earlier calls, and asks anew.

An index belongs to a list of hops, and the next call may come with another one.  So what a call
returns under an index was computed for the hop at that index of an earlier list.

* `hopsParams`, `parseRenderHopsResponse`, `Registry.renderHops`: the request, the response, the
  call.
* `Frames`: a registry and the lists of the calls so far.
* `Honest`: a plugin that annotates the hops of the request it answers.
* `annotations_of_answered`: what a call returns was computed for the list that was asked about.
-/

namespace Nsr

open Transition

/-! ## The request -/

/-- `nsr_json_double`; `text` is what `snprintf` makes of the number. -/
def JsonBuf.double (jb : JsonBuf) (text : Bytes) : JsonBuf :=
  jb.separate.appendRaw text

/-- The status of a hop as the plugin is told it. -/
def ObsType.statusName : ObsType → CStr
  | .reply => cs "reply"
  | .exceeded => cs "exceeded"
  | .unreach => cs "unreachable"
  | .timeout => cs "timeout"
  | _ => cs "probing"

/-- The text in a field of the source. -/
def CStr.ofField (bs : Bytes) : CStr :=
  ⟨cstr bs, fun h => by simpa using List.mem_takeWhile_imp h⟩

/-- What the 32-bit field holds of a count. -/
def count32 (n : ℕ) : ℕ := n % 2 ^ 32

section Request

-- the text of the share of probes that were lost, from those sent and those answered
variable (loss : ℕ → ℕ → Bytes)

/-- A hop of a `render_hops` request; a hop that was never probed is passed over. -/
def hopParams (params : JsonBuf) (i : ℕ) (h : HopInfo) : JsonBuf :=
  if count32 h.sent = 0 then params
  else
    let params := params.objStart
    let params := (params.key (cs "hop_idx")).int (Int64.ofNat i)
    let params := (params.key (cs "addr")).string (some (.ofField h.addr))
    let params := (params.key (cs "rtt_us")).int h.rttUs.toInt64
    let params := (params.key (cs "sent")).int (Int64.ofNat (count32 h.sent))
    let params := (params.key (cs "recv")).int (Int64.ofNat (count32 h.recv))
    let params := (params.key (cs "loss")).double (loss (count32 h.sent) (count32 h.recv))
    let params := (params.key (cs "status")).string (some h.lastStatus.statusName)
    params.objEnd

/-- The parameters of a `render_hops` request: the hops from index one on. -/
def hopsParams (hops : List HopInfo) : Bytes :=
  let params := (JsonBuf.init.objStart.key (cs "hops")).arrStart
  let params := (hops.take maxHops).zipIdx.tail.foldl
    (fun params h => hopParams loss params h.2 h.1) params
  params.arrEnd.objEnd.bytes

/-- The line of a `render_hops` request. -/
def hopsRequest (hops : List HopInfo) (id : ℤ) : Bytes :=
  buildRequest (Method.name .renderHops) (hopsParams loss hops) id

end Request

/-- The request describes a hop under an index. -/
def Given (hops : List HopInfo) (i : ℕ) (hop : HopInfo) : Prop :=
  1 ≤ i ∧ i < maxHops ∧ hops[i]? = some hop ∧ count32 hop.sent ≠ 0

/-! ## The response -/

/-- **`nsr_hop_annotation_t`.** -/
structure Annotation where
  hopIdx : ℤ
  text : Bytes
  deriving DecidableEq, Repr

/-- What an element of `annotations` says, where it counts; the index is a `long long` here. -/
def readAnnotation (elem : Bytes) : Option (ℤ × Bytes) :=
  let hopIdx := match objGet elem (cs "hop_idx") with
    | none => -1
    | some (val, len) => (parseInt val len (-1)).2
  let text := Host.strMember elem (cs "text") 128
  if 0 ≤ hopIdx ∧ peek text ≠ 0 then some (hopIdx, (cstr text).take 127) else none

/-- The elements of `annotations`. -/
def annotationElems (json : Bytes) : List Bytes :=
  match objGet json (cs "result") with
  | none => []
  | some (result, _) =>
    match objGet result (cs "annotations") with
    | none => []
    | some (annotations, _) => (walkArr annotations).map Prod.fst

/-- The loop of `parse_render_hops_response`: the index is stored as an `int`. -/
def takeAnnotations (maxOut : ℤ) : List Bytes → List Annotation → List Annotation
  | [], out => out
  | elem :: elems, out =>
    if out.length < maxOut then
      match readAnnotation elem with
      | none => takeAnnotations maxOut elems out
      | some (hopIdx, text) => takeAnnotations maxOut elems (out ++ [⟨wrap32 hopIdx, text⟩])
    else out

/-- **`parse_render_hops_response`.** -/
def parseRenderHopsResponse (json : Bytes) (maxOut : ℤ) (out : List Annotation) :
    List Annotation :=
  takeAnnotations maxOut (annotationElems json) out

/-- The annotations of a response line. -/
def lineAnnotations (line : Bytes) : List (ℤ × Bytes) :=
  (annotationElems (cstr line)).filterMap readAnnotation

theorem mem_takeAnnotations {maxOut : ℤ} {elems : List Bytes} {out : List Annotation}
    {ann : Annotation} (h : ann ∈ takeAnnotations maxOut elems out) :
    ann ∈ out ∨ ∃ p ∈ elems.filterMap readAnnotation, ann = ⟨wrap32 p.1, p.2⟩ := by
  induction elems generalizing out with
  | nil => exact .inl h
  | cons elem elems ih =>
    unfold takeAnnotations at h
    split at h
    · split at h
      next hread =>
        rw [List.filterMap_cons_none hread]
        exact ih h
      next hopIdx text hread =>
        rw [List.filterMap_cons_some hread]
        rcases ih h with hout | ⟨p, hp, heq⟩
        · rcases List.mem_append.mp hout with hout | hnew
          · exact .inl hout
          · exact .inr ⟨(hopIdx, text), List.mem_cons_self, List.mem_singleton.mp hnew⟩
        · exact .inr ⟨p, List.mem_cons_of_mem _ hp, heq⟩
    · exact .inl h

/-! ## The call -/

/-- What `nsr_plugins_render_hops` adds from an entry. -/
def Host.annotate (h : Host) (exited : Bool) (maxOut : ℤ) (out : List Annotation) :
    List Annotation :=
  let h := h.checkAlive exited
  if h.e.live ∧ 0 < (h.e.lastResp .renderHops).length then
    parseRenderHopsResponse (cstr (h.e.lastResp .renderHops)) maxOut out
  else out

namespace Registry

/-- The loop of `nsr_plugins_render_hops` over the entries, which ends once there is no room for
another annotation. -/
def renderHopsLoop (params : Bytes) (maxOut : ℤ) :
    (ℕ → Host.FrameEnv) → Registry → List Annotation → Option (List Annotation × Registry)
  | _, [], out => some (out, [])
  | env, h :: reg, out =>
    if out.length < maxOut then
      (h.renderHops params (env 0)).bind fun h' =>
        (renderHopsLoop params maxOut (fun i => env (i + 1)) reg
          (h.annotate (env 0).exited maxOut out)).map fun r => (r.1, h' :: r.2)
    else some (out, h :: reg)

/-- **`nsr_plugins_render_hops`.** -/
def renderHops (loss : ℕ → ℕ → Bytes) (reg : Registry) (hops : List HopInfo) (maxOut : ℤ)
    (env : ℕ → Host.FrameEnv) : Option (List Annotation × Registry) :=
  if maxOut ≤ 0 then some ([], reg)
  else reg.renderHopsLoop (hopsParams loss hops) maxOut env []

end Registry

/-- The annotation is one of the cached response of a plugin that runs. -/
def Cached (h : Host) (ann : Annotation) : Prop :=
  h.e.initialized = true ∧ h.e.lastResp .renderHops ≠ [] ∧
    ∃ p ∈ lineAnnotations (h.e.lastResp .renderHops), ann = ⟨wrap32 p.1, p.2⟩

theorem mem_annotate {h : Host} {exited : Bool} {maxOut : ℤ} {out : List Annotation}
    {ann : Annotation} (hmem : ann ∈ h.annotate exited maxOut out) : ann ∈ out ∨ Cached h ann := by
  rw [Host.annotate] at hmem
  split at hmem
  next hlive =>
    obtain ⟨hlive, hlen⟩ := hlive
    have hcheck := checkAlive_of_live hlive
    rw [hcheck] at hmem hlive hlen
    refine (mem_takeAnnotations hmem).imp_right fun hread => ⟨?_, ?_, hread⟩
    · simp only [Entry.live, Bool.and_eq_true] at hlive
      exact hlive.1.2
    · exact List.ne_nil_of_length_pos hlen
  · exact .inl hmem

/-- What a call returns comes from the cached responses. -/
theorem mem_renderHopsLoop {params : Bytes} {maxOut : ℤ} {env : ℕ → Host.FrameEnv}
    {reg reg' : Registry} {out anns : List Annotation} {ann : Annotation}
    (h : reg.renderHopsLoop params maxOut env out = some (anns, reg')) (hmem : ann ∈ anns) :
    ann ∈ out ∨ ∃ h ∈ reg, Cached h ann := by
  induction reg generalizing env out anns reg' with
  | nil =>
    obtain ⟨rfl, -⟩ := Prod.mk.inj (Option.some_inj.mp h)
    exact .inl hmem
  | cons x reg ih =>
    unfold Registry.renderHopsLoop at h
    split at h
    · obtain ⟨x', -, hrest⟩ := Option.bind_eq_some_iff.mp h
      obtain ⟨⟨anns', reg''⟩, hloop, heq⟩ := Option.map_eq_some_iff.mp hrest
      obtain ⟨rfl, -⟩ := Prod.mk.inj heq
      rcases ih hloop hmem with hout | ⟨y, hy, hc⟩
      · rcases mem_annotate hout with hout | hc
        · exact .inl hout
        · exact .inr ⟨x, List.mem_cons_self, hc⟩
      · exact .inr ⟨y, List.mem_cons_of_mem _ hy, hc⟩
    · obtain ⟨rfl, -⟩ := Prod.mk.inj (Option.some_inj.mp h)
      exact .inl hmem

/-- After a call, an entry is one of those before, asked or passed by. -/
theorem renderHopsLoop_entry {params : Bytes} {maxOut : ℤ} {env : ℕ → Host.FrameEnv}
    {reg reg' : Registry} {out anns : List Annotation} {h' : Host}
    (h : reg.renderHopsLoop params maxOut env out = some (anns, reg')) (hmem : h' ∈ reg') :
    h' ∈ reg ∨ ∃ h ∈ reg, ∃ env, h.renderHops params env = some h' := by
  induction reg generalizing env out anns reg' with
  | nil =>
    obtain ⟨-, rfl⟩ := Prod.mk.inj (Option.some_inj.mp h)
    exact .inl hmem
  | cons x reg ih =>
    unfold Registry.renderHopsLoop at h
    split at h
    · obtain ⟨x', hx, hrest⟩ := Option.bind_eq_some_iff.mp h
      obtain ⟨⟨anns', reg''⟩, hloop, heq⟩ := Option.map_eq_some_iff.mp hrest
      obtain ⟨-, rfl⟩ := Prod.mk.inj heq
      rcases List.mem_cons.mp hmem with rfl | hmem
      · exact .inr ⟨x, List.mem_cons_self, _, hx⟩
      · rcases ih hloop hmem with hreg | ⟨y, hy, henv⟩
        · exact .inl (List.mem_cons_of_mem _ hreg)
        · exact .inr ⟨y, List.mem_cons_of_mem _ hy, henv⟩
    · obtain ⟨-, rfl⟩ := Prod.mk.inj (Option.some_inj.mp h)
      exact .inl hmem

/-! ## Runs -/

/-- **The registry, and the lists of the calls of `nsr_plugins_render_hops` so far.** -/
structure Frames where
  reg : Registry
  calls : List (List HopInfo)

/-- An operation that is not part of another one and does not ask about hops. -/
def Host.Action.Other (a : Host.Action) : Prop :=
  (∀ params env, a ≠ .renderHops params env) ∧ ∀ timeoutMs env, a ≠ .drain timeoutMs env

namespace Frames

variable (loss : ℕ → ℕ → Bytes)

/-- **One step**: a call, another operation on an entry, or a plugin is enabled or disabled. -/
inductive Step : Frames → Frames → Prop where
  | renderHops (f : Frames) (hops : List HopInfo) (maxOut : ℤ) (env : ℕ → Host.FrameEnv)
      (anns : List Annotation) (reg : Registry)
      (h : f.reg.renderHops loss hops maxOut env = some (anns, reg)) :
      Step f ⟨reg, f.calls ++ [hops]⟩
  | host (f : Frames) (k : ℕ) (a : Host.Action) (h h' : Host) (hk : f.reg[k]? = some h)
      (hother : a.Other) (ha : Host.act a h = some h') : Step f { f with reg := f.reg.set k h' }
  | setEnabled (f : Frames) (k : ℕ) (enabled written : Bool) (env : Host.SpawnEnv) (io : List Io)
      (h h' : Host) (hk : f.reg[k]? = some h)
      (hs : h.setEnabled enabled written env = some (io, h')) :
      Step f { f with reg := f.reg.set k h' }

/-- The plugins are loaded, and there has been no call. -/
structure Started (f : Frames) : Prop where
  loaded : ∀ h ∈ f.reg, ∃ name enabled env io, Host.load name enabled env = some (io, h)
  calls : f.calls = []

end Frames

/-! ## The entries of a run -/

/-- **An entry in a run**: a disabled one is idle, and behind one that runs is a spawned plugin. -/
structure Housed (h : Host) : Prop where
  idle : h.e.enabled = false → h.Idle
  spawned : h.e.initialized = true → ∃ h₀ : Host, h₀.Spawned ∧ Reachable Host.Step h₀ h

namespace Housed

variable {h h' : Host}

theorem spawn {env : Host.SpawnEnv} {io : List Io} (hidle : h.Idle) (hen : h.e.enabled = true)
    (hs : h.spawn env = some (io, h')) : Housed h' := by
  refine ⟨fun hno => ?_, fun hinit => ⟨h', (Host.spawn_spawned hidle hs hinit).1, .refl⟩⟩
  rw [(spawn_io hs).1, hen] at hno
  cases hno

theorem load {name : CStr} {enabled : Bool} {env : Host.SpawnEnv} {io : List Io}
    (hl : Host.load name enabled env = some (io, h)) : Housed h := by
  unfold Host.load at hl
  split at hl
  · exact spawn (Host.unloaded_idle name true) rfl hl
  · obtain ⟨-, rfl⟩ := Prod.mk.inj (Option.some_inj.mp hl)
    exact ⟨fun _ => Host.unloaded_idle name false, fun hinit => by cases hinit⟩

theorem setEnabled {enabled written : Bool} {env : Host.SpawnEnv} {io : List Io} (hh : Housed h)
    (hs : h.setEnabled enabled written env = some (io, h')) : Housed h' := by
  rcases Host.setEnabled_cases hs with ⟨-, -, rfl⟩ | ⟨hoff, -, hspawn⟩ | ⟨-, -, -, rfl⟩
  · exact hh
  · have hidle := hh.idle hoff
    refine spawn (h := { h with e := { h.e with enabled := true } }) ?_ rfl hspawn
    exact ⟨hidle.initialized, hidle.dead, hidle.pending, hidle.lastResp, hidle.isModal,
      hidle.reservedKeys, hidle.head, hidle.count, hidle.editor⟩
  · exact ⟨fun _ => Host.stop_idle _ written, fun hinit => by cases hinit⟩

theorem act {a : Host.Action} (hh : Housed h)
    (hdrain : ∀ timeoutMs env, a ≠ .drain timeoutMs env) (ha : Host.act a h = some h') :
    Housed h' := by
  cases hinit : h.e.initialized with
  | false =>
    -- the entry is passed by
    have hcheck : h.checkAlive a.exited = h := checkAlive_of_not_exit (by simp [hinit])
    rw [Host.act_of_not_live hdrain (by rw [hcheck]; simp [Entry.live, hinit]), hcheck] at ha
    obtain rfl := Option.some_inj.mp ha
    exact hh
  | true =>
    obtain ⟨h₀, hs, hr⟩ := hh.spawned hinit
    refine ⟨fun hno => ?_, fun _ => ⟨h₀, hs, hr.tail ⟨a, ha⟩⟩⟩
    have hen : h'.e.enabled = h.e.enabled := by
      refine (Host.same_parts.act a.asks_drawn ha).enabled.trans ?_
      obtain ⟨dead, initialized, hcheck⟩ := h.checkAlive_shape a.exited
      rw [hcheck]
    have hidle := hh.idle (hen.symm.trans hno)
    rw [hidle.initialized] at hinit
    cases hinit

end Housed

/-! ## What was asked -/

section Asked

variable (loss : ℕ → ℕ → Bytes) (calls : List (List HopInfo))

/-- The requests about hops are those of the calls. -/
def Asked (log : List Event) : Prop :=
  ∀ id line written, Event.sent .renderHops id line written ∈ log →
    ∃ hops ∈ calls, line = hopsRequest loss hops id

/-- A request that a call makes, if it is about hops. -/
def askedBy (m : Method) (params : Bytes) : Prop :=
  m = .renderHops → ∃ hops ∈ calls, params = hopsParams loss hops

variable {loss calls}

theorem Asked.append {asks : Method → Bytes → Prop} {log new : List Event}
    (h : Asked loss calls log) (hasks : ∀ m params, asks m params → askedBy loss calls m params)
    (hnew : ∀ ev ∈ new, Host.IsSent asks ev ∨ ∀ m id line w, ev ≠ .sent m id line w) :
    Asked loss calls (log ++ new) := by
  intro id line written hmem
  rcases List.mem_append.mp hmem with hmem | hmem
  · exact h id line written hmem
  · rcases hnew _ hmem with ⟨m, params, id', w, hask, heq⟩ | hno
    · obtain ⟨rfl, rfl, rfl, -⟩ := Event.sent.inj heq
      obtain ⟨hops, hcall, rfl⟩ := hasks .renderHops params hask rfl
      exact ⟨hops, hcall, rfl⟩
    · exact absurd rfl (hno .renderHops id line written)

theorem keyed_askedBy (m : Method) (params : Bytes) (hm : Host.keyed m params) :
    askedBy loss calls m params := by
  intro hhops
  rw [Host.keyed, hhops] at hm
  cases hm

theorem asked_parts : Host.Parts (askedBy loss calls)
    fun h h' => Asked loss calls h.log → Asked loss calls h'.log where
  refl := fun _ => id
  trans := fun h₁ h₂ => h₂ ∘ h₁
  read := fun _ _ _ => id
  take := by
    intro h line discard ha
    obtain ⟨new, hheard, hnew⟩ := Host.take_heard h line discard
    rw [hheard.log]
    refine ha.append (fun _ _ => id) (List.forall_mem_cons.mpr ⟨?_, fun ev hev => ?_⟩)
    · exact .inr fun _ _ _ _ hsent => by cases hsent
    · rcases hnew ev hev with rfl | ⟨m, line, rfl⟩
      · exact .inr fun _ _ _ _ hsent => by cases hsent
      · exact .inr fun _ _ _ _ hsent => by cases hsent
  nextKey := by
    intro h written _ ha
    obtain ⟨new, hspoke, hnew, -⟩ := Host.sendNextKey_spoke h written
    rw [hspoke.log]
    exact ha.append keyed_askedBy fun ev hev => .inl (hnew ev hev)
  request := by
    intro h m params written hask ha
    obtain ⟨new, hspoke, hnew⟩ := Host.requestUnlessPending_spoke h m params written
    rw [hspoke.log]
    refine ha.append ?_ fun ev hev => .inl (hnew ev hev)
    rintro m' params' ⟨rfl, rfl⟩
    exact hask
  modal := fun _ _ => id
  editor := fun _ => id
  press := by
    intro h ev reserved t₁ t₂ written ha
    obtain ⟨new, hspoke, hnew⟩ := Host.pressKey_spoke h ev reserved t₁ t₂ written
    rw [hspoke.log]
    refine ha.append keyed_askedBy (List.forall_mem_cons.mpr ⟨?_, fun ev hev => .inl (hnew ev hev)⟩)
    exact .inr fun _ _ _ _ hsent => by cases hsent

end Asked

namespace Frames

variable {loss : ℕ → ℕ → Bytes}

/-- **What holds of the entries in a run.** -/
def Ok (loss : ℕ → ℕ → Bytes) (f : Frames) : Prop :=
  ∀ h ∈ f.reg, Housed h ∧ Asked loss f.calls h.log

theorem ok_started {f : Frames} (hs : f.Started) : Ok loss f := by
  intro h hmem
  obtain ⟨name, enabled, env, io, hl⟩ := hs.loaded h hmem
  refine ⟨Housed.load hl, ?_⟩
  have hlog : h.log = [] := by
    unfold Host.load at hl
    split at hl
    · exact Host.spawn_log hl
    · obtain ⟨-, rfl⟩ := Prod.mk.inj (Option.some_inj.mp hl)
      rfl
  rw [hlog]
  intro _ _ _ hsent
  cases hsent

/-- A call: the entries are asked about its list. -/
theorem ok_renderHops {f : Frames} {hops : List HopInfo} {maxOut : ℤ} {env : ℕ → Host.FrameEnv}
    {anns : List Annotation} {reg : Registry} (hf : Ok loss f)
    (hcall : f.reg.renderHops loss hops maxOut env = some (anns, reg)) :
    Ok loss ⟨reg, f.calls ++ [hops]⟩ := by
  have hmore : ∀ h ∈ f.reg, Housed h ∧ Asked loss (f.calls ++ [hops]) h.log := by
    intro h hmem
    refine ⟨(hf h hmem).1, fun id line written hsent => ?_⟩
    obtain ⟨asked, hasked, hline⟩ := (hf h hmem).2 id line written hsent
    exact ⟨asked, List.mem_append_left _ hasked, hline⟩
  unfold Registry.renderHops at hcall
  split at hcall
  · obtain ⟨-, rfl⟩ := Prod.mk.inj (Option.some_inj.mp hcall)
    exact hmore
  · intro h' hmem'
    rcases renderHopsLoop_entry hcall hmem' with hmem | ⟨h, hmem, env, hr⟩
    · exact hmore h' hmem
    · refine ⟨?_, asked_parts.renderHops (fun _ => ⟨hops, by simp, rfl⟩) hr (hmore h hmem).2⟩
      exact (hmore h hmem).1.act (a := .renderHops (hopsParams loss hops) env)
        (fun _ _ hno => by cases hno) hr

theorem ok_step {f f' : Frames} (hf : Ok loss f) (hstep : Step loss f f') : Ok loss f' := by
  cases hstep with
  | renderHops hops maxOut env anns reg hcall => exact ok_renderHops hf hcall
  | host k a h h' hk hother ha =>
    intro x hx
    rcases List.mem_or_eq_of_mem_set hx with hx | rfl
    · exact hf x hx
    obtain ⟨hhoused, hasked⟩ := hf h (List.mem_of_getElem? hk)
    have hasks : a.Asks (askedBy loss f.calls) := by
      cases a with
      | render view env => exact fun _ hno => by cases hno
      | renderHops params env => exact absurd rfl (hother.1 params env)
      | _ => trivial
    exact ⟨hhoused.act hother.2 ha, asked_parts.act hasks ha hasked⟩
  | setEnabled k enabled written env io h h' hk hs =>
    intro x hx
    rcases List.mem_or_eq_of_mem_set hx with hx | rfl
    · exact hf x hx
    obtain ⟨hhoused, hasked⟩ := hf h (List.mem_of_getElem? hk)
    refine ⟨hhoused.setEnabled hs, ?_⟩
    rcases Host.setEnabled_log hs with hlog | hlog
    · rw [hlog]
      exact hasked
    · rw [hlog]
      intro _ _ _ hsent
      cases hsent

theorem ok_of_reachable {f₀ f : Frames} (hs : f₀.Started) (hr : Reachable (Step loss) f₀ f) :
    Ok loss f :=
  hr.invariant (ok_started hs) fun _ _ _ hf hstep => ok_step hf hstep

end Frames

/-! ## Requests and their answers -/

/-- The latest request about hops, with its number, and the exchanges so far: each line that was
taken for an answer, with the request that was the latest then. -/
def exchangeStep (s : Option (ℤ × Bytes) × List (Option (ℤ × Bytes) × Bytes)) :
    Event → Option (ℤ × Bytes) × List (Option (ℤ × Bytes) × Bytes)
  | .sent .renderHops id line true => (some (id, line), s.2)
  | .answered .renderHops line => (s.1, s.2 ++ [(s.1, line)])
  | _ => s

/-- The number and the line of the latest request about hops that went out. -/
def lastAsked (log : List Event) : Option (ℤ × Bytes) :=
  (log.foldl exchangeStep (none, [])).1

/-- **The exchanges about hops**, oldest first. -/
def exchanges (log : List Event) : List (Option (ℤ × Bytes) × Bytes) :=
  (log.foldl exchangeStep (none, [])).2

theorem lastAsked_concat (log : List Event) (e : Event) :
    lastAsked (log ++ [e]) = (exchangeStep (lastAsked log, exchanges log) e).1 := by
  rw [lastAsked, List.foldl_append]
  rfl

theorem exchanges_concat (log : List Event) (e : Event) :
    exchanges (log ++ [e]) = (exchangeStep (lastAsked log, exchanges log) e).2 := by
  rw [exchanges, List.foldl_append]
  rfl

/-- The latest request is one that was made, and the routing sees its number. -/
theorem lastAsked_spec (log : List Event) :
    RequestRouting.latest .renderHops (routeLog log) = (lastAsked log).map Prod.fst ∧
      ∀ id line, lastAsked log = some (id, line) → Event.sent .renderHops id line true ∈ log := by
  induction log using List.reverseRecOn with
  | nil => exact ⟨rfl, fun _ _ h => by cases h⟩
  | append_singleton log e ih =>
    rw [lastAsked_concat, routeLog_concat]
    have hkeeps : (exchangeStep (lastAsked log, exchanges log) e).1 = lastAsked log →
        RequestRouting.latest .renderHops (routeLog log ++ (routeEvent e).toList) =
          RequestRouting.latest .renderHops (routeLog log) →
        RequestRouting.latest .renderHops (routeLog log ++ (routeEvent e).toList) =
            (exchangeStep (lastAsked log, exchanges log) e).1.map Prod.fst ∧
          ∀ id line, (exchangeStep (lastAsked log, exchanges log) e).1 = some (id, line) →
            Event.sent .renderHops id line true ∈ log ++ [e] := by
      intro hasked hlatest
      rw [hasked, hlatest]
      exact ⟨ih.1, fun id line h => List.mem_append_left _ (ih.2 id line h)⟩
    cases e with
    | sent m id line written =>
      cases written with
      | false => cases m <;> exact hkeeps rfl (by simp [routeEvent])
      | true =>
        cases m with
        | renderHops =>
          refine ⟨by simp [routeEvent, exchangeStep], fun id' line' h => ?_⟩
          obtain ⟨rfl, rfl⟩ := Prod.mk.inj (Option.some_inj.mp h)
          simp
        | render => exact hkeeps rfl (by simp [routeEvent])
        | onKey => exact hkeeps rfl (by simp [routeEvent])
    | answered m line => cases m <;> exact hkeeps rfl (by simp [routeEvent])
    | received line => exact hkeeps rfl (by simp [routeEvent])
    | forceSync => exact hkeeps rfl (by simp [routeEvent, RequestRouting.latest])
    | passed ev => exact hkeeps rfl (by simp [routeEvent])

/-- The line that was last taken for an answer is the last one of the exchanges. -/
theorem lastAnswer_exchanges (log : List Event) :
    lastAnswer .renderHops log = (exchanges log).getLast?.map Prod.snd := by
  induction log using List.reverseRecOn with
  | nil => rfl
  | append_singleton log e ih =>
    rw [exchanges_concat, lastAnswer, List.foldl_append, ← lastAnswer, ih]
    cases e with
    | answered m line => cases m <;> simp [exchangeStep]
    | sent m id line written => cases m <;> cases written <;> rfl
    | _ => rfl

/-- An exchange is an answer of the history, with the latest request before it. -/
theorem exchange_split {log : List Event} {req : Option (ℤ × Bytes)} {line : Bytes}
    (h : (req, line) ∈ exchanges log) :
    ∃ pre post, log = pre ++ .answered .renderHops line :: post ∧ req = lastAsked pre := by
  induction log using List.reverseRecOn with
  | nil => cases h
  | append_singleton log e ih =>
    rw [exchanges_concat] at h
    have hold : (req, line) ∈ exchanges log →
        ∃ pre post, log ++ [e] = pre ++ .answered .renderHops line :: post ∧
          req = lastAsked pre := by
      intro hmem
      obtain ⟨pre, post, rfl, hreq⟩ := ih hmem
      exact ⟨pre, post ++ [e], by simp, hreq⟩
    cases e with
    | answered m line' =>
      cases m with
      | renderHops =>
        rcases List.mem_append.mp h with h | h
        · exact hold h
        · obtain ⟨rfl, rfl⟩ := Prod.mk.inj (List.mem_singleton.mp h)
          exact ⟨log, [], rfl, rfl⟩
      | render => exact hold h
      | onKey => exact hold h
    | sent m id line' written =>
      cases m <;> cases written <;> exact hold h
    | _ => exact hold h

/-! ## Every run -/

section Annotated

variable (loss : ℕ → ℕ → Bytes)

/-- **A plugin that annotates the hops of the request it answers.**  `For addr text` says that the
text was computed for the address. -/
def Honest (For : Bytes → Bytes → Prop) (f : Frames) : Prop :=
  ∀ h ∈ f.reg, ∀ x ∈ exchanges h.log, ∀ hops ∈ f.calls,
    x.1 = some (lineId x.2, hopsRequest loss hops (lineId x.2)) →
    ∀ p ∈ lineAnnotations x.2, ∃ (i : ℕ) (hop : HopInfo), p.1 = i ∧ Given hops i hop ∧
      For hop.addr p.2

variable {loss}

/-- The cached response of a plugin that runs answers the request of a call. -/
theorem cached_answers {calls : List (List HopInfo)} {h : Host} (hh : Housed h)
    (hasked : Asked loss calls h.log) (hinit : h.e.initialized = true)
    (hne : h.e.lastResp .renderHops ≠ []) :
    ∃ hops ∈ calls, (exchanges h.log).getLast? =
      some (some (lineId (h.e.lastResp .renderHops),
        hopsRequest loss hops (lineId (h.e.lastResp .renderHops))), h.e.lastResp .renderHops) := by
  obtain ⟨h₀, hs, hr⟩ := hh.spawned hinit
  obtain ⟨-, hcore⟩ := core_of_reachable hs hr
  set resp := h.e.lastResp .renderHops with hresp
  have hlast : lastAnswer .renderHops h.log = some resp :=
    ((Numbered.of_reachable hcore).cached .renderHops).resolve_left hne |>.2
  rw [lastAnswer_exchanges] at hlast
  obtain ⟨⟨req, line⟩, hget, rfl : line = resp⟩ := Option.map_eq_some_iff.mp hlast
  obtain ⟨pre, post, hlog, rfl⟩ := exchange_split (List.mem_of_getLast? hget)
  -- the answer has the number of the latest request
  have hlatest : RequestRouting.latest .renderHops (routeLog pre) = some (lineId resp) := by
    refine (RequestRouting.Inv.of_reachable (routing_of_reachable hcore)).routed.answers_latest
      (routeLog pre) .renderHops (lineId resp) (routeLog post) ?_
    change routeLog h.log = _
    rw [hlog, routeLog_append]
    rfl
  rw [(lastAsked_spec pre).1] at hlatest
  obtain ⟨⟨id, req⟩, hlastAsked, hid : id = lineId resp⟩ := Option.map_eq_some_iff.mp hlatest
  have hsent := (lastAsked_spec pre).2 id req hlastAsked
  obtain ⟨hops, hcall, rfl⟩ := hasked id req true (by rw [hlog]; simp [hsent])
  exact ⟨hops, hcall, by rw [hget, hlastAsked, hid]⟩

/-- **Annotations belong to the list that was asked about.**  Over every run: an annotation that a
call returns is one of the cached response of a plugin, which answers the request of an earlier
call, and it was computed for the address that the list of that call holds at its index. -/
theorem annotations_of_answered {For : Bytes → Bytes → Prop} {f₀ f : Frames} (hs : f₀.Started)
    (hr : Reachable (Frames.Step loss) f₀ f) (hhonest : Honest loss For f) {hops : List HopInfo}
    {maxOut : ℤ} {env : ℕ → Host.FrameEnv} {anns : List Annotation} {reg : Registry}
    (hcall : f.reg.renderHops loss hops maxOut env = some (anns, reg)) :
    ∀ ann ∈ anns, ∃ h ∈ f.reg, Cached h ann ∧ ∃ asked ∈ f.calls, ∃ (i : ℕ) (hop : HopInfo),
      (exchanges h.log).getLast? =
        some (some (lineId (h.e.lastResp .renderHops),
          hopsRequest loss asked (lineId (h.e.lastResp .renderHops))), h.e.lastResp .renderHops) ∧
      ann.hopIdx = i ∧ Given asked i hop ∧ For hop.addr ann.text := by
  intro ann hann
  have hcached : ∃ h ∈ f.reg, Cached h ann := by
    unfold Registry.renderHops at hcall
    split at hcall
    · obtain ⟨rfl, -⟩ := Prod.mk.inj (Option.some_inj.mp hcall)
      cases hann
    · exact (mem_renderHopsLoop hcall hann).resolve_left (by simp)
  obtain ⟨h, hmem, hfrom⟩ := hcached
  have ⟨hinit, hne, p, hp, heq⟩ := hfrom
  obtain ⟨hhoused, hasked⟩ := Frames.ok_of_reachable hs hr h hmem
  obtain ⟨asked, hin, hget⟩ := cached_answers hhoused hasked hinit hne
  obtain ⟨i, hop, hi, hgiven, hfor⟩ :=
    hhonest h hmem _ (List.mem_of_getLast? hget) asked hin rfl p hp
  refine ⟨h, hmem, hfrom, asked, hin, i, hop, hget, ?_, hgiven, ?_⟩
  · -- the index is small enough for an `int`
    have hlt : i < maxHops := hgiven.2.1
    have hsmall : i < 2 ^ 31 := hlt.trans (by decide)
    rw [heq, ← wrap32_of_lt hsmall, ← hi]
  · rw [heq]
    exact hfor

end Annotated

/-! ## A change of lists -/

/-- A list with one hop, which was probed three times and answered each time. -/
def oneHop (addr : Bytes) : List HopInfo :=
  [.zero, ⟨addr, 1000, 3, 3, 3, .reply, []⟩]

/-- The text of a loss, where nothing was lost. -/
def noLoss (_ _ : ℕ) : Bytes := ascii "0.000000"

/-- A plugin's answer that annotates the hop at index one. -/
def hopReply (id : Int64) (text : CStr) : Bytes :=
  render (.obj [(cs "id", .int id), (cs "result", .obj [(cs "annotations",
    .arr [.obj [(cs "hop_idx", .int 1), (cs "text", .str text)]])])])

/-- A call with room for 64 annotations, in which the plugins all do the same. -/
def Frames.call (c : List HopInfo × Host.FrameEnv) (f : Frames) : Option Frames :=
  (f.reg.renderHops noLoss c.1 64 fun _ => c.2).map fun r => ⟨r.2, f.calls ++ [c.1]⟩

theorem Frames.call_step {c : List HopInfo × Host.FrameEnv} {f f' : Frames}
    (h : f.call c = some f') : Step noLoss f f' := by
  obtain ⟨⟨anns, reg⟩, hcall, rfl⟩ := Option.map_eq_some_iff.mp h
  exact .renderHops f c.1 64 _ anns reg hcall

/-- Two calls about `10.0.0.1`, the second of which reads the answer to the first, and then one
about `10.0.0.2`, which returns that answer. -/
theorem exists_stale_run :
    ∃ (f₀ f : Frames) (reg : Registry), f₀.Started ∧ Reachable (Frames.Step noLoss) f₀ f ∧
      Honest noLoss (fun addr text => text = addr) f ∧
      f.reg.renderHops noLoss (oneHop (ascii "10.0.0.2")) 64 (fun _ => .silent) =
        some ([⟨1, ascii "10.0.0.1"⟩], reg) := by
  have hrun : ((Host.load (cs "viewer") true (.starts 100 (cs ""))).bind fun l =>
      (exec Frames.call [(oneHop (ascii "10.0.0.1"), .silent),
        (oneHop (ascii "10.0.0.1"), .reads (hopReply 2 (cs "10.0.0.1")))] ⟨[l.2], []⟩).map fun f =>
          decide (f.calls = [oneHop (ascii "10.0.0.1"), oneHop (ascii "10.0.0.1")]) &&
          decide ((f.reg.map fun h => exchanges h.log) =
            [[(some (2, hopsRequest noLoss (oneHop (ascii "10.0.0.1")) 2),
              hopReply 2 (cs "10.0.0.1"))]]) &&
          decide ((f.reg.renderHops noLoss (oneHop (ascii "10.0.0.2")) 64 fun _ => .silent).map
            Prod.fst = some [⟨1, ascii "10.0.0.1"⟩])) = some true := by
    decide +kernel
  obtain ⟨⟨io, h₀⟩, hload, hrun⟩ := Option.bind_eq_some_iff.mp hrun
  obtain ⟨f, hexec, hobs⟩ := Option.map_eq_some_iff.mp hrun
  simp only [Bool.and_eq_true, decide_eq_true_eq] at hobs
  obtain ⟨⟨hcalls, hlogs⟩, hcall⟩ := hobs
  obtain ⟨⟨anns, reg⟩, hcall, rfl⟩ := Option.map_eq_some_iff.mp hcall
  refine ⟨⟨[h₀], []⟩, f, reg, ⟨fun h hmem => ?_, rfl⟩, ?_, ?_, hcall⟩
  · rw [List.mem_singleton.mp hmem]
    exact ⟨_, _, _, io, hload⟩
  · exact Reachable.exec (fun _ _ _ _ hstep => Frames.call_step hstep) Reachable.refl hexec
  · intro h hmem x hx hops hhops _ p hp
    have hlog : exchanges h.log ∈ f.reg.map fun h => exchanges h.log :=
      List.mem_map_of_mem hmem
    rw [hlogs, List.mem_singleton] at hlog
    rw [hlog, List.mem_singleton] at hx
    obtain rfl : hops = oneHop (ascii "10.0.0.1") := by simpa [hcalls] using hhops
    have hanns : lineAnnotations (hopReply 2 (cs "10.0.0.1")) = [(1, ascii "10.0.0.1")] := by
      decide +kernel
    rw [hx, hanns, List.mem_singleton] at hp
    rw [hp]
    exact ⟨1, ⟨ascii "10.0.0.1", 1000, 3, 3, 3, .reply, []⟩, rfl,
      ⟨by decide, by decide, rfl, by decide⟩, rfl⟩

/-- The plugin writes the address of a hop as its text; what the last call returns is the text of a
hop of a list that was asked about. -/
theorem annotations_of_answered_stale :
    ∃ (f : Frames) (reg : Registry),
      f.reg.renderHops noLoss (oneHop (ascii "10.0.0.2")) 64 (fun _ => .silent) =
        some ([⟨1, ascii "10.0.0.1"⟩], reg) ∧
      ∃ asked ∈ f.calls, ∃ (i : ℕ) (hop : HopInfo), Given asked i hop ∧
        ascii "10.0.0.1" = hop.addr := by
  obtain ⟨f₀, f, reg, hs, hr, hhonest, hcall⟩ := exists_stale_run
  obtain ⟨h, -, -, asked, hin, i, hop, -, -, hgiven, htext⟩ :=
    annotations_of_answered hs hr hhonest hcall ⟨1, ascii "10.0.0.1"⟩ (List.mem_singleton.mpr rfl)
  exact ⟨f, reg, hcall, asked, hin, i, hop, hgiven, htext⟩

/-- **An annotation on the wrong row.**  The plugin writes the address of a hop as its text.  When
the list changes from `10.0.0.1` to `10.0.0.2`, the text for the one is returned for the other. -/
theorem annotation_on_other_row :
    ∃ (f₀ f : Frames) (reg : Registry) (hop : HopInfo), f₀.Started ∧
      Reachable (Frames.Step noLoss) f₀ f ∧ Honest noLoss (fun addr text => text = addr) f ∧
      f.reg.renderHops noLoss (oneHop (ascii "10.0.0.2")) 64 (fun _ => .silent) =
        some ([⟨1, ascii "10.0.0.1"⟩], reg) ∧
      (oneHop (ascii "10.0.0.2"))[1]? = some hop ∧ ascii "10.0.0.1" ≠ hop.addr := by
  obtain ⟨f₀, f, reg, hs, hr, hhonest, hcall⟩ := exists_stale_run
  exact ⟨f₀, f, reg, _, hs, hr, hhonest, hcall, rfl, by decide +kernel⟩

end Nsr
