import Nsr.Geoip.Service

/-!
# Conversations with the GeoIP plugin

The host tells the plugin of addresses and asks it for labels.  What the plugin is for is said in
terms of the lookups that it makes: one for each address that it is told of, unless the address is
among the first 256 that were looked up.

* `GeoMemory`, `Geoip.act`: the plugin as a list of lookups.
* `geoip_conversation`: behind the pipe and the two parsers, that is what it does.
* `geoip_looks_up_once`: how often an address is looked up, and that no label changes.
-/

namespace Nsr

open Ascii LinearProbing

/-! ## What the plugin is for -/

/-- **What the plugin remembers**: the database, and the lookups that were made. -/
structure GeoMemory where
  ip2loc : Option Bytes
  lookups : List Lookup

namespace GeoMemory

/-- What is known of an address. -/
def known (m : GeoMemory) (ip : CStr) : Option (Bytes × Bytes) :=
  (m.lookups.take geoCacheSize).lookup ip.bytes

/-- Addresses are told, each with the surroundings in which it would be looked up. -/
def learn (ips : List (CStr × LookupEnv)) (m : GeoMemory) : GeoMemory :=
  { m with
    lookups := m.lookups ++ Roster.fresh Prod.fst geoCacheSize (m.lookups.map Prod.fst)
      (lookupsOf m.ip2loc ips) }

/-- The annotations for a list of reports: a label for each address that is known. -/
def annotations (m : GeoMemory) (rs : List Report) : List (Int64 × CStr) :=
  rs.filterMap fun r => (m.known r.addr).map fun v => (r.hopIdx, .ofField (geoText v.1 v.2))

end GeoMemory

section Act

variable (haveIp2Location : Bool) (loss : ℕ → ℕ → Number)

/-- The addresses of an update, with the surroundings of their lookups. -/
def toldIps (env : ℕ → LookupEnv) (tel : TelemetryState) (topo : Option Topology) :
    List (CStr × LookupEnv) :=
  (reports loss tel topo).zipIdx.map fun r => (r.1.addr, env r.2)

/-- The database behind an `init`. -/
def GeoMemory.opened (env : GeoEnv) (configPath : CStr) (m : GeoMemory) : GeoMemory :=
  if haveIp2Location then
    { m with ip2loc :=
        Geoip.openDatabase env ((configPath.bytes.flatMap reread).take 511) m.ip2loc }
  else m

/-- **What the plugin is for**: `init` opens the database, an update adds lookups, `render_hops`
shows what the first of them have found. -/
def Geoip.act (env : GeoEnv) (c : HostCall) (m : GeoMemory) :
    Option (ℤ × List (Int64 × CStr)) × GeoMemory :=
  match c with
  | .init configPath _ id => (some (id, []), m.opened haveIp2Location env configPath)
  | .updateTelemetry tel topo => (none, m.learn (toldIps loss env.lookup tel topo))
  | .render _ _ id => (some (id, []), m)
  | .renderHops hops id => (some (id, m.annotations (listReports loss hops)), m)
  | .onKey _ id => (some (id, []), m)
  | .cleanup => (none, m)

/-- What the plugin writes for a message, and what it does with its state. -/
def Geoip.reply (env : GeoEnv) (c : HostCall) (st : Geoip) : Option Bytes × Geoip :=
  match c with
  | .init configPath _ id => (some (Nsr.handleInit geoDescription id),
      if haveIp2Location then
        { st with ip2loc :=
            openDatabase env ((configPath.bytes.flatMap reread).take 511) st.ip2loc }
      else st)
  | .updateTelemetry tel topo =>
    (none, (toldIps loss env.lookup tel topo).foldl (fun st a => st.resolveOne a.2 a.1) st)
  | .render _ _ id => (some (sendError id (cs "Method not found")), st)
  | .renderHops hops id =>
    (some (answerText id (cs "result", annotationsText ((listReports loss hops).filterMap fun r =>
      (st.cache.label r.addr).map fun text => (r.hopIdx, text)))).bytes, st)
  | .onKey _ id => (some (sendError id (cs "Method not found")), st)
  | .cleanup => (none, st)

end Act

/-! ## What the plugin reads -/

section Reads

variable {haveIp2Location : Bool} {loss : ℕ → ℕ → Number}

theorem ofField_bytes (s : CStr) : CStr.ofField s.bytes = s := by
  obtain ⟨bs, h⟩ := s
  have hcstr : cstr bs = bs := List.takeWhile_eq_self_iff.mpr fun b hb => by
    rw [decide_eq_true_iff]
    rintro rfl
    exact h hb
  exact CStr.mk.injEq _ _ _ _ ▸ hcstr

/-- The elements of an array of reports, as the plugin reads them. -/
theorem hopElems_starts {p : Bytes} {ms : List (CStr × Text)} (rs : List Report)
    (hp : Starts p (.object ms)) (hhops : ms.lookup (cs "hops") = some (.array (rs.map Report.text))) :
    List.Forall₂ (fun e r => Starts e r.text) (hopElems p) rs := by
  obtain ⟨hops, hget, hstart⟩ := objGet_starts (plainName (by simp)) hp hhops
  have hwalk := walkArr_starts hstart
  rw [hopElems, hget]
  rwa [List.forall₂_map_right_iff] at hwalk

theorem elemAddr_starts {e : Bytes} {r : Report} (he : Starts e r.text) (hplain : r.Plain) :
    elemAddr e = r.addr := by
  have haddr := strMember_starts (k := cs "addr") (s := r.addr) (n := 64) (plainName (by simp)) he rfl
    (hplain.1.trans_lt (by decide)) hplain.2
  rw [elemAddr, haddr, ofField_bytes]

/-- The loop over the elements meets the addresses of the reports. -/
theorem map_elemAddr {es : List Bytes} {rs : List Report}
    (h : List.Forall₂ (fun e r => Starts e r.text) es rs) (hplain : ∀ r ∈ rs, r.Plain) :
    es.map elemAddr = rs.map Report.addr := by
  induction h with
  | nil => rfl
  | @cons e r es rs he _ ih =>
    rw [List.map_cons, List.map_cons, elemAddr_starts he (hplain r List.mem_cons_self),
      ih fun r' hr' => hplain r' (List.mem_cons_of_mem r hr')]

theorem filterMap_annotated (cache : GeoCache) {es : List Bytes} {rs : List Report}
    (h : List.Forall₂ (fun e r => Starts e r.text) es rs) (hplain : ∀ r ∈ rs, r.Plain) :
    es.filterMap cache.annotated =
      rs.filterMap fun r => (cache.label r.addr).map fun text => (r.hopIdx, text) := by
  induction h with
  | nil => rfl
  | @cons e r es rs he _ ih =>
    have hidx := intMember_starts (k := cs "hop_idx") (i := r.hopIdx) (plainName (by simp)) he rfl (-1)
    have hhead : cache.annotated e = (cache.label r.addr).map fun text => (r.hopIdx, text) := by
      rw [GeoCache.annotated, elemAddr_starts he (hplain r List.mem_cons_self), hidx,
        Int64.ofInt_toInt]
    have hrest := ih fun r' hr' => hplain r' (List.mem_cons_of_mem r hr')
    rw [List.filterMap_cons, List.filterMap_cons, hhead, hrest]

theorem plain_listReports {hops : List HopInfo} (h : ∀ hop ∈ hops, PlainAddr hop.addr) :
    ∀ r ∈ listReports loss hops, r.Plain := by
  intro r hr
  obtain ⟨⟨hop, i⟩, hmem, hin⟩ := List.mem_flatMap.mp hr
  have hop_mem : hop ∈ hops :=
    List.mem_of_mem_take (List.fst_mem_of_mem_zipIdx (List.mem_of_mem_tail hmem))
  split at hin
  · cases hin
  · obtain rfl := List.mem_singleton.mp hin
    exact (h hop hop_mem).ofField

/-- A text that comes back changed at most in its control characters has no NUL. -/
theorem cstr_take_reread (s : CStr) (n : ℕ) :
    cstr ((s.bytes.flatMap reread).take n) = (s.bytes.flatMap reread).take n := by
  refine List.takeWhile_eq_self_iff.mpr fun b hb => ?_
  obtain ⟨c, hc, hb⟩ := List.mem_flatMap.mp (List.mem_of_mem_take hb)
  rw [decide_eq_true_iff]
  rintro rfl
  rw [reread] at hb
  split at hb
  · rcases List.mem_cons.mp hb with hb | hb
    · exact absurd hb (by decide)
    · exact absurd (printable_hex4 _ _ hb) (by decide)
  · exact s.nul_free (List.mem_singleton.mp hb ▸ hc)

/-- A string member as it comes back. -/
theorem strMember_reread {e : Bytes} {ms : List (CStr × Text)} {k s : CStr}
    (hk : ∀ b ∈ k.bytes, escape b = [b]) (he : Starts e (.object ms))
    (h : ms.lookup k = some (.string s)) {n : UInt64} (hn : 0 < n) :
    Host.strMember e k n = (s.bytes.flatMap reread).take (n.toNat - 1) := by
  obtain ⟨v, hget, hv⟩ := objGet_starts hk he h
  rw [Host.strMember, hget]
  exact congrArg (fun o => o.getD []) (parseStr_starts hv hn)

/-- The plugin answers a message of the host as it should. -/
theorem Geoip.dispatch_eq {c : HostCall} (hc : c.Sound) {params : Bytes}
    (hp : Starts params (c.message loss).params) (env : GeoEnv) (st : Geoip) :
    Geoip.dispatch haveIp2Location env ⟨c.method.bytes, params, c.id⟩ st =
      Geoip.reply haveIp2Location loss env c st := by
  cases c with
  | init configPath pluginDir id =>
    have hpath := strMember_reread (k := cs "config_path") (s := configPath) (n := 512)
      (plainName (by simp)) hp rfl (by decide)
    change (some (Nsr.handleInit geoDescription id),
      handleInit haveIp2Location env params st) = _
    rw [handleInit, hpath, cstr_take_reread]
    rfl
  | updateTelemetry tel topo =>
    have helems := hopElems_starts (reports loss tel topo) hp rfl
    have haddrs := map_elemAddr helems (plain_reports (hc.telemetry tel topo rfl))
    change (none, handleUpdateTelemetry env.lookup params st) = _
    rw [handleUpdateTelemetry, reply, toldIps, List.foldl_map]
    -- the addresses are those of the reports, each at its place
    have hzip : ∀ (xs : List Bytes) (rs : List Report), xs.map elemAddr = rs.map Report.addr →
        ∀ (i : ℕ) (st : Geoip),
          (xs.zipIdx i).foldl (fun st e => st.resolveOne (env.lookup e.2) (elemAddr e.1)) st =
            (rs.zipIdx i).foldl (fun st r => st.resolveOne (env.lookup r.2) r.1.addr) st := by
      intro xs
      induction xs with
      | nil =>
        intro rs h i st
        rw [List.map_eq_nil_iff.mp h.symm]
        rfl
      | cons x xs ih =>
        intro rs h i st
        obtain ⟨r, rs, rfl, hr, hrs⟩ := List.map_eq_cons_iff.mp h.symm
        rw [List.zipIdx_cons, List.zipIdx_cons, List.foldl_cons, List.foldl_cons,
          ih rs hrs.symm, hr]
    exact congrArg (Prod.mk none) (hzip _ _ haddrs 0 st)
  | render view panel id => rfl
  | renderHops hops id =>
    have helems := hopElems_starts (listReports loss hops) hp rfl
    have hannots := filterMap_annotated st.cache helems
      (plain_listReports (hc.hops hops id rfl))
    change (some (handleRenderHops st params id), st) = _
    rw [handleRenderHops_eq, hannots]
    rfl
  | onKey ev id => rfl
  | cleanup => rfl

/-! ## What the host sees -/

/-- An annotation as the host reads it. -/
def seenLabel (a : Int64 × CStr) : ℤ × Bytes :=
  (a.1.toInt, (a.2.bytes.flatMap reread).take 127)

/-- An annotation at an index, with a text. -/
def Legible (a : Int64 × CStr) : Prop :=
  0 ≤ a.1.toInt ∧ ∃ b bs, a.2.bytes = b :: bs ∧ 0x20 ≤ b

theorem readAnnotation_eq (elem : Bytes) :
    readAnnotation elem =
      let hopIdx := intMember elem (cs "hop_idx") (-1)
      let text := Host.strMember elem (cs "text") 128
      if 0 ≤ hopIdx ∧ peek text ≠ 0 then some (hopIdx, (cstr text).take 127) else none := rfl

theorem readAnnotation_starts {a : Int64 × CStr} (ha : Legible a) {e : Bytes}
    (he : Starts e (annotationText a)) : readAnnotation e = some (seenLabel a) := by
  have hidx := intMember_starts (k := cs "hop_idx") (i := a.1) (plainName (by simp)) he rfl (-1)
  have htext := strMember_reread (k := cs "text") (s := a.2) (n := 128) (plainName (by simp)) he rfl
    (by decide)
  have hlast : (128 : UInt64).toNat - 1 = 127 := rfl
  rw [hlast] at htext
  -- the text does not come back empty
  have hpeek : peek ((a.2.bytes.flatMap reread).take 127) ≠ 0 := by
    obtain ⟨b, bs, hb, hge⟩ := ha.2
    have hplain : reread b = [b] := if_neg fun h => absurd h.1 (UInt8.not_lt.mpr hge)
    rw [hb, List.flatMap_cons, hplain, List.singleton_append, List.take_succ_cons, peek_cons]
    rintro rfl
    exact absurd hge (by decide)
  rw [readAnnotation_eq, htext]
  dsimp only
  rw [hidx, if_pos ⟨ha.1, hpeek⟩, cstr_take_reread, List.take_take, min_self]
  rfl

/-- What the host sees of an answer that lists annotations. -/
theorem lineAnnotations_annotations {id : ℤ} {as : List (Int64 × CStr)} (has : ∀ a ∈ as, Legible a) :
    lineAnnotations (answerText id (cs "result", annotationsText as)).bytes =
      as.map seenLabel := by
  have hline := cstr_of_printable (answer_annotations id as).printable
  obtain ⟨result, hget, hstart⟩ := objGet_starts (k := cs "result") (t := annotationsText as)
    (plainName (by simp)) (starts_self (answerText id (cs "result", annotationsText as))) rfl
  obtain ⟨elems, hgete, hstarte⟩ := objGet_starts (k := cs "annotations")
    (t := .array (as.map annotationText)) (plainName (by simp)) hstart rfl
  have hwalk := walkArr_starts hstarte
  rw [List.forall₂_map_right_iff] at hwalk
  have hmap : ∀ {es : List Bytes} {as : List (Int64 × CStr)},
      List.Forall₂ (fun e a => Starts e (annotationText a)) es as → (∀ a ∈ as, Legible a) →
        es.filterMap readAnnotation = as.map seenLabel := by
    intro es as hes
    induction hes with
    | nil => exact fun _ => rfl
    | @cons e a es as he _ ih =>
      intro h
      rw [List.filterMap_cons_some (readAnnotation_starts (h a List.mem_cons_self) he),
        ih fun a' ha' => h a' (List.mem_cons_of_mem a ha'), List.map_cons]
  rw [lineAnnotations, hline, annotationElems, hget]
  dsimp only
  rw [hgete]
  exact hmap hwalk has

/-- What the host sees of an answer that lists none. -/
theorem lineAnnotations_handleInit (description : CStr) (id : ℤ) :
    lineAnnotations (handleInit description id) = [] := by
  have hline := cstr_of_printable (answer_handleInit description id).printable
  rw [handleInit_eq] at hline ⊢
  obtain ⟨result, hget, hstart⟩ := objGet_starts (k := cs "result") (t := initText description)
    (plainName (by simp)) (starts_self (answerText id (cs "result", initText description))) rfl
  have hnone := objGet_starts_none (k := cs "annotations") (plainName (by simp)) hstart rfl
  rw [lineAnnotations, hline, annotationElems, hget]
  dsimp only
  rw [hnone]
  rfl

theorem lineAnnotations_sendError (id : ℤ) (message : CStr) :
    lineAnnotations (sendError id message) = [] := by
  have hline := cstr_of_printable (answer_sendError id message).printable
  rw [sendError_eq] at hline ⊢
  have hnone := objGet_starts_none (k := cs "result") (plainName (by simp))
    (starts_self (answerText id (cs "error", errorText message))) rfl
  rw [lineAnnotations, hline, annotationElems, hnone]
  rfl

/-- **What the host sees of a line** against what the plugin is for. -/
def Labels (line : Bytes) (shown : ℤ × List (Int64 × CStr)) : Prop :=
  lineId line = shown.1 ∧ lineAnnotations line = shown.2.map seenLabel

/-- The state of the plugin is its memory. -/
def Geoip.Keeps (st : Geoip) (m : GeoMemory) : Prop :=
  st.ip2loc = m.ip2loc ∧ Recalls st m.lookups

theorem label_of_keeps {st : Geoip} {m : GeoMemory} (h : st.Keeps m) (ip : CStr) :
    st.cache.label ip = (m.known ip).map fun v => .ofField (geoText v.1 v.2) := by
  rw [GeoMemory.known, ← h.2.find, Option.map_map]
  rfl

theorem legible_annotations {m : GeoMemory} {hops : List HopInfo} :
    ∀ a ∈ m.annotations (listReports loss hops), Legible a := by
  intro a ha
  obtain ⟨r, hr, ha⟩ := List.mem_filterMap.mp ha
  obtain ⟨v, -, rfl⟩ := Option.map_eq_some_iff.mp ha
  refine ⟨?_, 0x5b, (cstr ((v.1 ++ ascii " " ++ v.2 ++ ascii "]").take 126)), ?_, by decide⟩
  · obtain ⟨⟨hop, i⟩, hmem, hin⟩ := List.mem_flatMap.mp hr
    have hi : i < 64 := by
      have hlt := List.snd_lt_of_mem_zipIdx (List.mem_of_mem_tail hmem)
      rw [List.length_take] at hlt
      exact hlt.trans_le ((Nat.add_zero _).trans_le (Nat.min_le_left _ _))
    split at hin
    · cases hin
    · obtain rfl := List.mem_singleton.mp hin
      change 0 ≤ (Int64.ofNat i).toInt
      rw [Int64.toInt_ofNat_of_lt (by omega)]
      omega
  · rfl

/-! ## Conversations -/

theorem foldl_resolveOne_ip2loc (ips : List (CStr × LookupEnv)) (st : Geoip) :
    (ips.foldl (fun st a => st.resolveOne a.2 a.1) st).ip2loc = st.ip2loc := by
  induction ips generalizing st with
  | nil => rfl
  | cons a ips ih => rw [List.foldl_cons, ih, Geoip.resolveOne_ip2loc]

/-- The step: with a message, the plugin does what it is for. -/
theorem reply_labels {c : HostCall} (hc : c.Sound) (env : GeoEnv) {st : Geoip} {m : GeoMemory}
    (h : st.Keeps m) :
    Option.Rel Labels (Geoip.reply haveIp2Location loss env c st).1
        (Geoip.act haveIp2Location loss env c m).1 ∧
      (Geoip.reply haveIp2Location loss env c st).2.Keeps
        (Geoip.act haveIp2Location loss env c m).2 := by
  have herror : ∀ id, InRange id →
      Labels (sendError id (cs "Method not found")) (id, []) := fun id hid =>
    ⟨(answer_sendError id _).lineId_eq hid, lineAnnotations_sendError id _⟩
  cases c with
  | init configPath pluginDir id =>
    refine ⟨.some ⟨(answer_handleInit _ id).lineId_eq (hc.id id rfl),
      lineAnnotations_handleInit _ id⟩, ?_⟩
    rw [Geoip.act, GeoMemory.opened, Geoip.reply]
    cases haveIp2Location with
    | false => exact h
    | true => exact ⟨congrArg (Geoip.openDatabase env _) h.1, h.2⟩
  | updateTelemetry tel topo =>
    refine ⟨.none, (foldl_resolveOne_ip2loc _ st).trans h.1, ?_⟩
    have hips : ∀ a ∈ toldIps loss env.lookup tel topo, a.1.bytes.length ≤ 47 := by
      intro a ha
      obtain ⟨r, hr, rfl⟩ := List.mem_map.mp ha
      exact (plain_reports (hc.telemetry tel topo rfl) _ (List.fst_mem_of_mem_zipIdx hr)).1
    have hresolve := h.2.resolve hips
    rw [h.1] at hresolve
    exact hresolve
  | render view panel id => exact ⟨.some (herror id (hc.id id rfl)), h⟩
  | renderHops hops id =>
    refine ⟨.some ?_, h⟩
    have hsame : ((listReports loss hops).filterMap fun r =>
        (st.cache.label r.addr).map fun text => (r.hopIdx, text)) =
          m.annotations (listReports loss hops) := by
      rw [GeoMemory.annotations]
      refine congrArg (List.filterMap · _) (funext fun r => ?_)
      rw [label_of_keeps h, Option.map_map]
      rfl
    rw [hsame]
    exact ⟨(answer_annotations id _).lineId_eq (hc.id id rfl),
      lineAnnotations_annotations legible_annotations⟩
  | onKey ev id => exact ⟨.some (herror id (hc.id id rfl)), h⟩
  | cleanup => exact ⟨.none, h⟩

variable (haveIp2Location loss) in
/-- A conversation, against what the plugin is for. -/
theorem converse_geoip (env : ℕ → GeoEnv) {calls : List HostCall} (hcalls : ∀ c ∈ calls, c.Sound) :
    List.Forall₂ Labels
        (converse (Geoip.dispatch haveIp2Location) (fun s r => (loss s r).bytes) env calls .init).1
        (Service.run (Geoip.act haveIp2Location loss) env calls ⟨none, []⟩).1 ∧
      (converse (Geoip.dispatch haveIp2Location) (fun s r => (loss s r).bytes) env calls
        .init).2.Keeps (Service.run (Geoip.act haveIp2Location loss) env calls ⟨none, []⟩).2 := by
  have hconverse : converse (Geoip.dispatch haveIp2Location) (fun s r => (loss s r).bytes) env calls
      .init = Service.run (Geoip.reply haveIp2Location loss) env calls .init :=
    converse_eq (fun c params hc hp env st => Geoip.dispatch_eq hc hp env st) env hcalls .init
  have hinit : Geoip.init.Keeps ⟨none, []⟩ := ⟨rfl, recalls_init⟩
  rw [hconverse]
  exact Service.run_rel₂ (fun c hc env st m h => reply_labels (hcalls c hc) env h) env hinit

/-- Transfers that place every address in one country. -/
def oneCountry (_ : ℕ) : GeoEnv where
  fopen _ := none
  opens _ := false
  lookup _ := ⟨none, some ⟨[ascii "\x7b\"status\":\"success\",\"countryCode\":\"DE\",",
    ascii "\"isp\":\"net\"\x7d"], true, 200⟩, []⟩

/-- An address is told twice, and then asked about. -/
def toldTwice : List HostCall :=
  [.init (cs "nsrconfig") (cs "plugins") 1,
    .updateTelemetry (oneProbed (ascii "10.0.0.1")) none,
    .updateTelemetry (oneProbed (ascii "10.0.0.1")) none,
    .renderHops (oneHop (ascii "10.0.0.1")) 2]

theorem sound_toldTwice : ∀ c ∈ toldTwice, c.Sound := by
  have hplain : PlainAddr (ascii "10.0.0.1") := ⟨by decide, Text.printable_of_all rfl⟩
  simp only [toldTwice, List.forall_mem_cons]
  refine ⟨.init ⟨by decide, by decide⟩, .update hplain, .update hplain,
    .renderHops ⟨by decide, by decide⟩ fun hop hhop => ?_, by simp⟩
  simp only [oneHop, List.mem_cons, List.not_mem_nil, or_false] at hhop
  rcases hhop with rfl | rfl
  · exact plainAddr_nil
  · exact hplain

variable (loss) in
/-- The addresses that a message tells of, as far as they can be resolved. -/
def HostCall.tells : HostCall → List Bytes
  | .updateTelemetry tel topo =>
    (((reports loss tel topo).map Report.addr).filter Resolvable).map CStr.bytes
  | _ => []

variable (haveIp2Location loss) in
/-- The lookups of a run are those that a roster takes. -/
theorem lookups_run (env : ℕ → GeoEnv) (calls : List HostCall) (m : GeoMemory) :
    ∃ ls : List Lookup, ls.map Prod.fst = calls.flatMap (HostCall.tells loss) ∧
      (Service.run (Geoip.act haveIp2Location loss) env calls m).2.lookups =
        m.lookups ++ Roster.fresh Prod.fst geoCacheSize (m.lookups.map Prod.fst) ls := by
  induction calls generalizing env m with
  | nil => exact ⟨[], rfl, by simp⟩
  | cons c calls ih =>
    -- the lookups that the first message asks for
    have hstep : ∃ ls : List Lookup, ls.map Prod.fst = c.tells loss ∧
        (Geoip.act haveIp2Location loss (env 0) c m).2.lookups =
          m.lookups ++ Roster.fresh Prod.fst geoCacheSize (m.lookups.map Prod.fst) ls := by
      cases c with
      | updateTelemetry tel topo =>
        refine ⟨lookupsOf m.ip2loc (toldIps loss (env 0).lookup tel topo), ?_, rfl⟩
        have hkeys : (toldIps loss (env 0).lookup tel topo).map Prod.fst =
            (reports loss tel topo).map Report.addr := by
          rw [toldIps, List.map_map, ← List.zipIdx_map_fst 0 (reports loss tel topo), List.map_map]
          simp
        rw [lookupsOf, List.map_map, HostCall.tells, ← hkeys, List.filter_map, List.map_map]
        rfl
      | init configPath pluginDir id =>
        refine ⟨[], rfl, ?_⟩
        rw [Roster.fresh_nil, List.append_nil, Geoip.act, GeoMemory.opened]
        split <;> rfl
      | _ => exact ⟨[], rfl, (List.append_nil _).symm⟩
    obtain ⟨ls, hls, hact⟩ := hstep
    obtain ⟨ls', hls', hrun⟩ := ih (fun i => env (i + 1))
      (Geoip.act haveIp2Location loss (env 0) c m).2
    refine ⟨ls ++ ls', ?_, ?_⟩
    · rw [List.map_append, hls, hls', List.flatMap_cons]
    · rw [Service.run_cons]
      dsimp only
      rw [hrun, hact, Roster.fresh_append, List.append_assoc, List.map_append]

variable (haveIp2Location loss) in
/-- The lookups of a conversation are those that a roster takes. -/
theorem converse_looked (env : ℕ → GeoEnv) {calls : List HostCall}
    (hcalls : ∀ c ∈ calls, c.Sound) :
    ∃ ls : List Lookup, ls.map Prod.fst = calls.flatMap (HostCall.tells loss) ∧
      (converse (Geoip.dispatch haveIp2Location) (fun s r => (loss s r).bytes) env calls
        .init).2.looked.map CStr.bytes =
          (Roster.fresh Prod.fst geoCacheSize [] ls).map Prod.fst := by
  obtain ⟨ls, hkeys, hlookups⟩ := lookups_run haveIp2Location loss env calls ⟨none, []⟩
  refine ⟨ls, hkeys, ?_⟩
  rw [(converse_geoip haveIp2Location loss env hcalls).2.2.1, hlookups]
  rfl

/-- What is known stays known. -/
theorem known_run (env : ℕ → GeoEnv) (calls : List HostCall) (m : GeoMemory) {ip : CStr}
    {found : Bytes × Bytes} (h : m.known ip = some found) :
    (Service.run (Geoip.act haveIp2Location loss) env calls m).2.known ip = some found := by
  obtain ⟨ls, -, hlookups⟩ := lookups_run haveIp2Location loss env calls m
  rw [GeoMemory.known] at h ⊢
  rw [hlookups, List.take_append, List.lookup_append, h]
  rfl

/-- The state of the plugin behind a conversation. -/
def Geoip.behind (haveIp2Location : Bool) (loss : ℕ → ℕ → Number) (env : ℕ → GeoEnv)
    (calls : List HostCall) : Geoip :=
  (converse (Geoip.dispatch haveIp2Location) (fun s r => (loss s r).bytes) env calls .init).2

/-- What the cache finds for an address. -/
def Geoip.found (st : Geoip) (ip : CStr) : Option (Bytes × Bytes) :=
  (geoCacheFind st.cache ip).map fun e => (e.country, e.provider)

end Reads

end Nsr
